import UsageOrder.Yaml.Character

/-!
# Places in a YAML text

A cursor is what is left of a text, together with the place that has been reached: how many
characters lie behind it, the line, and the column, which says what belongs together.  A byte order
mark takes up no column.
-/

namespace UsageOrder
namespace Yaml

/-- What is left of a text, and the place reached. -/
structure Cursor where
  rest : Text
  index : Nat := 0
  line : Nat := 0
  column : Nat := 0

namespace Cursor

/-- The cursor behind the next character. -/
def step (cursor : Cursor) : Cursor :=
  match cursor.rest with
  | [] => cursor
  | c :: rest =>
    if isLineEnd c then ⟨rest, cursor.index + 1, cursor.line + 1, 0⟩
    else
      ⟨rest, cursor.index + 1, cursor.line,
        if c = '\uFEFF' then cursor.column else cursor.column + 1⟩

/-- The cursor behind a number of characters. -/
def skip (cursor : Cursor) : Nat → Cursor
  | 0 => cursor
  | n + 1 => cursor.step.skip n

/-- The characters of a class that follow, and the cursor behind them. -/
def span (p : Char → Bool) (cursor : Cursor) : Text × Cursor :=
  let taken := cursor.rest.takeWhile p
  (taken, cursor.skip taken.length)

/-- The cursor behind the characters of a class that follow. -/
def skipWhile (p : Char → Bool) (cursor : Cursor) : Cursor := (cursor.span p).2

/-- The cursor behind the spaces that follow; a tab is none. -/
def skipSpaces (cursor : Cursor) : Cursor := cursor.skipWhile (· = ' ')

/-- The cursor behind the spaces that follow in front of a column. -/
def skipIndent (column : Nat) (cursor : Cursor) : Cursor :=
  cursor.skip ((cursor.rest.take (column - cursor.column)).takeWhile (· = ' ')).length

/-- The cursor behind the comment that starts here, if one does. -/
def skipComment (cursor : Cursor) : Cursor :=
  if cursor.rest.head? = some '#' then cursor.skipWhile fun c => !isLineEnd c else cursor

/-- The line end that stands here and the cursor behind it; nothing if none does.  Next line counts
as a line feed. -/
def lineBreak (cursor : Cursor) : Text × Cursor :=
  match cursor.rest with
  | [] => ([], cursor)
  | c :: _ =>
    if isLineEnd c then ([if c.toNat = 0x85 then '\n' else c], cursor.step) else ([], cursor)

/-- The cursor behind the rest of a line that holds nothing but spaces and a comment. -/
def endLine? (cursor : Cursor) : Option Cursor :=
  let cursor := cursor.skipSpaces.skipComment
  if atLineEnd cursor.rest then some cursor.lineBreak.2 else none

end Cursor

/-- What the line ends between two lines of a scalar stand for: a single line feed is a space, and
of several the first is dropped. -/
def foldLines (first more : Text) : Text :=
  if first ≠ ['\n'] then first ++ more
  else if more.isEmpty then [' ']
  else more

end Yaml
end UsageOrder
