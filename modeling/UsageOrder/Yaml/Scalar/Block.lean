import UsageOrder.Yaml.Cursor

/-!
# Block scalars

A block scalar takes in the lines below its mark that are indented further.  Its header may say how
far they are indented and what happens to the line ends behind the last line.

| mark | the lines |
|---|---|
| `\|` | are kept as they are |
| `>` | are folded, except around lines that start with white space |
-/

namespace UsageOrder
namespace Yaml

/-- What happens to the line ends behind the last line of a block scalar. -/
inductive Chomping where
  /-- One is kept. -/
  | clip
  /-- None is kept. -/
  | strip
  /-- All are kept. -/
  | keep
deriving DecidableEq, Repr

/-- The mark for chomping that stands here, if one does, and the cursor behind it. -/
def chompingAt (cursor : Cursor) : Option Chomping × Cursor :=
  match cursor.rest with
  | '+' :: _ => (some .keep, cursor.step)
  | '-' :: _ => (some .strip, cursor.step)
  | _ => (none, cursor)

/-- The digit for the indentation that stands here, if one does, and the cursor behind it. -/
def digitAt (cursor : Cursor) : Option Nat × Cursor :=
  match cursor.rest with
  | c :: _ => if c.isDigit then (some (c.toNat - 48), cursor.step) else (none, cursor)
  | [] => (none, cursor)

/-- The header of a block scalar: its two marks may come in either order. -/
structure BlockHeader where
  chomping : Chomping
  indentation : Option Nat
  cursor : Cursor

/-- Reads the header of a block scalar from behind its mark, with the rest of the line. -/
def blockHeader? (cursor : Cursor) : Option BlockHeader :=
  let (first, cursor) := chompingAt cursor
  let (digit, cursor) := digitAt cursor
  let (second, cursor) := if first.isNone then chompingAt cursor else (none, cursor)
  if digit = some 0 || !endsName cursor.rest then none
  else cursor.endLine?.map fun cursor => ⟨(first.or second).getD .clip, digit, cursor⟩

/-- The blank lines in front of a block scalar: their line ends, the greatest column that a space
reaches in them, and the cursor behind them. -/
def blankLines : Nat → Text → Nat → Cursor → Text × Nat × Cursor
  | 0, done, most, cursor => (done, most, cursor)
  | fuel + 1, done, most, cursor =>
    let cursor := cursor.skipSpaces
    let most := if most < cursor.column then cursor.column else most
    match cursor.lineBreak with
    | ([], cursor) => (done, most, cursor)
    | (mark, cursor) => blankLines fuel (done ++ mark) most cursor

/-- The line ends of the blank lines inside a block scalar, and the cursor behind them and behind
the indentation of the next line. -/
def blockBreaks (column : Nat) : Nat → Text → Cursor → Text × Cursor
  | 0, done, cursor => (done, cursor)
  | fuel + 1, done, cursor =>
    match (cursor.skipIndent column).lineBreak with
    | ([], cursor) => (done, cursor)
    | (mark, cursor) => blockBreaks column fuel (done ++ mark) cursor

/-- The lines of a block scalar that have been read, and what joins them to a further one: the line
end of the last line, or what it is folded to, and those of the blank lines behind it. -/
structure BlockLines where
  text : Text
  lastBreak : Text
  blank : Text
  cursor : Cursor

/-- Whether a line that starts with white space starts here. -/
def atGap (cursor : Cursor) : Bool := cursor.rest.head?.any isGap

/-- Reads the lines of a block scalar, which stand at a column. -/
def blockLines (folded : Bool) (column : Nat) : Nat → BlockLines → BlockLines
  | 0, lines => lines
  | fuel + 1, lines =>
    if lines.cursor.column ≠ column || lines.cursor.rest.isEmpty then lines
    else
      let (line, cursor) := lines.cursor.span fun c => !isLineEnd c
      let (ending, cursor) := cursor.lineBreak
      let (blank, cursor) := blockBreaks column (cursor.rest.length + 1) [] cursor
      let folds := folded && ending = ['\n'] && !atGap lines.cursor && !atGap cursor &&
        cursor.column = column && !cursor.rest.isEmpty
      let lastBreak := if !folds then ending else if blank.isEmpty then [' '] else []
      blockLines folded column fuel
        ⟨lines.text ++ lines.lastBreak ++ lines.blank ++ line, lastBreak, blank, cursor⟩

/-- Reads a block scalar from behind its mark; its lines are indented to `margin` at least. -/
def blockScalar? (folded : Bool) (margin : Nat) (cursor : Cursor) : Option (Text × Cursor) := do
  let header ← blockHeader? cursor
  let fuel := header.cursor.rest.length + 1
  let least := if margin = 0 then 1 else margin
  let (column, blank, cursor) : Nat × Text × Cursor :=
    match header.indentation with
    | some more =>
      let column := least + more - 1
      let (blank, cursor) := blockBreaks column fuel [] header.cursor
      (column, blank, cursor)
    | none =>
      let (blank, most, cursor) := blankLines fuel [] 0 header.cursor
      (if most < least then least else most, blank, cursor)
  let lines := blockLines folded column fuel ⟨[], [], blank, cursor⟩
  let ending :=
    match header.chomping with
    | .strip => []
    | .clip => lines.lastBreak
    | .keep => lines.lastBreak ++ lines.blank
  some (lines.text ++ ending, lines.cursor)

end Yaml
end UsageOrder
