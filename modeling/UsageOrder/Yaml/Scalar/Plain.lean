import UsageOrder.Yaml.Cursor

/-!
# Plain scalars

A scalar without quotes goes up to a colon in front of white space, to a number sign behind white
space, or, inside a flow collection, to one of the marks that separate its parts.  It goes on in
further lines as long as they are indented enough.  A tab ends it.
-/

namespace UsageOrder
namespace Yaml

/-- Whether a plain scalar can start at the start of a text. -/
def startsPlain (inFlow : Bool) (text : Text) : Bool :=
  match text with
  | [] => false
  | c :: rest =>
    if c = '-' then !endsWord rest
    else if c = '?' || c = ':' then !inFlow && !endsWord rest
    else !isGap c && !isLineEnd c && !isIndicator c

/-- How many characters at the start of a text make up a word of a plain scalar. -/
def wordLength (inFlow : Bool) : Text → Nat
  | [] => 0
  | c :: rest =>
    let followed := endsWord rest || (inFlow && rest.head?.any isFlowMark)
    if isGap c || isLineEnd c || (c = ':' && followed) || (inFlow && (c = '?' || isFlowMark c)) then 0
    else wordLength inFlow rest + 1

/-- What stands between two words of a plain scalar: its text, which is empty where the scalar ends,
whether a line ended in it, and the cursor behind it. -/
structure Interval where
  text : Text
  lineEnded : Bool
  cursor : Cursor

/-- The further line ends between two lines of a plain scalar; none in front of a mark that
separates documents. -/
def plainBreaks : Nat → Text → Cursor → Option Text × Cursor
  | 0, done, cursor => (some done, cursor)
  | fuel + 1, done, cursor =>
    if atSeparator cursor.rest then (none, cursor)
    else
      match cursor.skipSpaces.lineBreak with
      | ([], cursor) => (some done, cursor)
      | (mark, cursor) => plainBreaks fuel (done ++ mark) cursor

/-- What follows a word of a plain scalar. -/
def intervalAt (cursor : Cursor) : Interval :=
  let (spaces, cursor) := cursor.span (· = ' ')
  match cursor.lineBreak with
  | ([], cursor) => ⟨spaces, false, cursor⟩
  | (first, cursor) =>
    match plainBreaks (cursor.rest.length + 1) [] cursor with
    | (some more, cursor) => ⟨foldLines first more, true, cursor⟩
    | (none, cursor) => ⟨[], true, cursor⟩

/-- A plain scalar: its text, whether a line ended behind it, and the cursor behind it. -/
structure PlainScalar where
  text : Text
  lineEnded : Bool
  cursor : Cursor

/-- Reads a plain scalar on behind an interval; further lines stand at least at the column
`margin`. -/
def plainFrom (inFlow : Bool) (margin : Nat) : Nat → Text → Interval → PlainScalar
  | 0, done, before => ⟨done, before.lineEnded, before.cursor⟩
  | fuel + 1, done, before =>
    let cursor := before.cursor
    let length := if cursor.rest.head? = some '#' then 0 else wordLength inFlow cursor.rest
    if length = 0 then ⟨done, before.lineEnded, cursor⟩
    else
      let done := done ++ before.text ++ cursor.rest.take length
      let after := intervalAt (cursor.skip length)
      if after.text.isEmpty || after.cursor.rest.head? = some '#' ||
          (!inFlow && decide (after.cursor.column < margin)) then
        ⟨done, after.lineEnded, after.cursor⟩
      else plainFrom inFlow margin fuel done after

/-- Reads a plain scalar whose further lines stand at least at the column `margin`. -/
def plainScalar (inFlow : Bool) (margin : Nat) (cursor : Cursor) : PlainScalar :=
  plainFrom inFlow margin (cursor.rest.length + 1) [] ⟨[], false, cursor⟩

end Yaml
end UsageOrder
