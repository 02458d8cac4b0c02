import UsageOrder.Yaml.Scalar.Form
import UsageOrder.Yaml.Character
import UsageOrder.Json.Printer

/-!
# Writing YAML

Values are written in block form: keys sorted, the items of a list at the column of its key, and
empty collections in flow form.  A text goes without quotes if it would be read back as that text,
with single quotes if it has no character beyond printable ASCII, and with double quotes and escapes
otherwise.  A line that has passed column 80 is broken at the next single space.

A key that is short and stands on one line is followed by a colon and its value.  Any other key
stands behind a question mark, and its value behind a colon on a line of its own.

The writer keeps the column it has reached, because line breaks depend on it.
-/

namespace UsageOrder
namespace Yaml

/-- The column behind which a line is broken. -/
def bestWidth : Nat := 80

/-- A text that has been written, last character first, and the column it ends at. -/
structure Sheet where
  written : Text := []
  column : Nat := 0

namespace Sheet

/-- Writes characters that stay on the line. -/
def put (sheet : Sheet) (text : Text) : Sheet :=
  ⟨text.reverse ++ sheet.written, sheet.column + text.length⟩

/-- Ends the line. -/
def newLine (sheet : Sheet) : Sheet := ⟨'\n' :: sheet.written, 0⟩

/-- Writes spaces up to a column. -/
def padTo (sheet : Sheet) (column : Nat) : Sheet :=
  sheet.put (List.replicate (column - sheet.column) ' ')

/-- Starts a new line at a column. -/
def indent (sheet : Sheet) (column : Nat) : Sheet := sheet.newLine.padTo column

end Sheet

/-- The characters that count as white space beside an indicator. -/
def isBlankMark (c : Char) : Bool :=
  c = '\x00' || c = ' ' || c = '\t' || c = '\r' || c = '\n' || c.toNat = 0x85 ||
    c.toNat = 0x2028 || c.toNat = 0x2029

/-- Whether a text has an indicator at its start; some characters are indicators only in front of
white space or at the end. -/
def startsWithIndicator (text : Text) : Bool :=
  match text with
  | [] => false
  | c :: rest =>
    let followed := rest.head?.all isBlankMark
    isIndicator c || ((c = '?' || c = ':' || c = '-') && followed) ||
      startMark.isPrefixOf text || endMark.isPrefixOf text

/-- Whether a text has a colon in front of white space, or a number sign behind it. -/
def hasIndicator : Text → Bool
  | [] => false
  | c :: rest =>
    (match rest with
      | [] => c = ':'
      | d :: _ => (c = ':' && isBlankMark d) || (isBlankMark c && d = '#')) || hasIndicator rest

/-- Whether two neighbours in a text are as given. -/
def hasPair (p q : Char → Bool) : Text → Bool
  | c :: d :: rest => (p c && q d) || hasPair p q (d :: rest)
  | _ => false

/-- Whether a character can only be written with an escape. -/
def isSpecial (c : Char) : Bool := !(c = '\n' || decide (' ' ≤ c ∧ c ≤ '~'))

/-- Whether a text can be written without quotes. -/
def allowsPlain (text : Text) : Bool :=
  readsAsText text && !text.contains '\n' && !text.any isSpecial && text.head? != some ' ' &&
    text.getLast? != some ' ' && !startsWithIndicator text && !hasIndicator text

/-- Whether a text can be written with single quotes. -/
def allowsSingle (text : Text) : Bool :=
  !text.any isSpecial && !hasPair (· = '\n') (· = ' ') text && !hasPair (· = ' ') (· = '\n') text

/-- The pieces of a text: runs of spaces, runs of line feeds, and what is between. -/
def runs : Text → List Text
  | [] => []
  | c :: rest =>
    match runs rest with
    | [] => [[c]]
    | [] :: more => [c] :: more
    | (d :: run) :: more =>
      if (c = ' ' ∧ d = ' ') ∨ (c = '\n' ∧ d = '\n') ∨ (c ≠ ' ' ∧ c ≠ '\n' ∧ d ≠ ' ' ∧ d ≠ '\n') then
        (c :: d :: run) :: more
      else [c] :: (d :: run) :: more

/-- Writes a text without quotes; its further lines start at a column. -/
def writePlain (sheet : Sheet) (column : Nat) (split : Bool) (text : Text) : Sheet :=
  (runs text).foldl (fun sheet run =>
    if run = [' '] ∧ bestWidth < sheet.column ∧ split then sheet.indent column
    else sheet.put run) sheet

/-- Writes a text with single quotes; its further lines start at a column. -/
def writeSingle (sheet : Sheet) (column : Nat) (split : Bool) (text : Text) : Sheet :=
  let pieces := runs text
  let inner := (pieces.zipIdx).foldl (fun sheet piece =>
    let run := piece.1
    let atEnd := piece.2 = 0 ∨ piece.2 + 1 = pieces.length
    match run.head? with
    | some '\n' => (run.foldl (fun sheet _ => Sheet.newLine sheet) sheet.newLine).padTo column
    | some ' ' =>
      if run = [' '] ∧ bestWidth < sheet.column ∧ split ∧ ¬ atEnd then sheet.indent column
      else sheet.put run
    | _ => sheet.put (run.flatMap fun c => if c = '\'' then ['\'', '\''] else [c])) (sheet.put ['\''])
  inner.put ['\'']

/-- The hexadecimal digits of a number in capitals. -/
def capitalHex (width n : Nat) : Text := (Text.hex width n).map Char.toUpper

/-- The characters that have short escapes in double quotes. -/
def escapeMarks : List (Nat × Char) := [
  (0, '0'), (7, 'a'), (8, 'b'), (9, 't'), (10, 'n'), (11, 'v'), (12, 'f'), (13, 'r'), (27, 'e'),
  (34, '"'), (92, '\\'), (133, 'N'), (160, '_'), (8232, 'L'), (8233, 'P')]

/-- The escape that a character needs in double quotes. -/
def escape? (c : Char) : Option Text :=
  let n := c.toNat
  match escapeMarks.lookup n with
  | some mark => some ['\\', mark]
  | none =>
    if 32 ≤ n ∧ n ≤ 126 then none
    else if n ≤ 0xFF then some ('\\' :: 'x' :: capitalHex 2 n)
    else if n ≤ 0xFFFF then some ('\\' :: 'u' :: capitalHex 4 n)
    else some ('\\' :: 'U' :: capitalHex 8 n)

/-- Writes the rest of a text inside double quotes.  `waiting` holds the characters that have been
passed and not yet written, last one first; a line is broken in front of a space or behind an
escape, but neither before the second character nor before the last one. -/
def writeDoubleFrom (column : Nat) (split : Bool) : Sheet → Text → Bool → Text → Sheet
  | sheet, waiting, _, [] => sheet.put waiting.reverse
  | sheet, waiting, first, c :: rest =>
    let (sheet, waiting, escaped) : Sheet × Text × Bool :=
      match escape? c with
      | some mark => ((sheet.put waiting.reverse).put mark, [], true)
      | none => (sheet, waiting, false)
    let breaks := !first && !rest.isEmpty && (c = ' ' || escaped || waiting.isEmpty) &&
      decide (bestWidth + escaped.toNat < sheet.column + waiting.length) && split
    if breaks then
      let sheet := (sheet.put (waiting.reverse ++ ['\\'])).indent column
      let follows := if escaped then rest.head? = some ' ' else c = ' '
      let sheet := if follows then sheet.put ['\\'] else sheet
      writeDoubleFrom column split sheet (if escaped then [] else [c]) false rest
    else
      writeDoubleFrom column split sheet (if escaped then [] else c :: waiting) false rest

/-- Writes a text with double quotes; its further lines start at a column. -/
def writeDouble (sheet : Sheet) (column : Nat) (split : Bool) (text : Text) : Sheet :=
  (writeDoubleFrom column split (sheet.put ['"']) [] true text).put ['"']

/-- Writes a text in the first of the three ways that it allows; its lines are broken if `split`. -/
def writeText (sheet : Sheet) (column : Nat) (split : Bool) (text : Text) : Sheet :=
  if allowsPlain text then writePlain sheet column split text
  else if allowsSingle text then writeSingle sheet column split text
  else writeDouble sheet column split text

/-- The length that a key may have to be written in front of its colon. -/
def longestKey : Nat := 122

/-- Whether a key is written in front of its colon. -/
def isSimpleKey (key : Text) : Bool :=
  !key.isEmpty && !key.any isLineEnd && decide (key.length ≤ longestKey)

/-- The text of a floating point number: an exponent always has a point before it. -/
def realText (x : Binary64) : Text :=
  match x with
  | .nan => ".nan".toList
  | .infinite false => ".inf".toList
  | .infinite true => "-.inf".toList
  | x =>
    let text := (x.render "" "").toList
    if text.contains '.' then text
    else text.flatMap fun c => if c = 'e' then ['.', '0', 'e'] else [c]

/-- The comparison of members by key, code point by code point. -/
def keyLe (a b : String × Json) : Bool := Text.le a.1.toList b.1.toList

mutual
/-- A value with the members of its objects sorted by key. -/
def sortKeys : Json → Json
  | .arr items => .arr (sortKeysItems items)
  | .obj members => .obj ((sortKeysMembers members).mergeSort keyLe)
  | value => value
termination_by structural value => value

/-- Values with the members of their objects sorted by key. -/
def sortKeysItems : List Json → List Json
  | [] => []
  | item :: items => sortKeys item :: sortKeysItems items
termination_by structural items => items

/-- Members whose values have the members of their objects sorted by key. -/
def sortKeysMembers : List (String × Json) → List (String × Json)
  | [] => []
  | member :: members => sortKeysMember member :: sortKeysMembers members
termination_by structural members => members

/-- A member whose value has the members of its objects sorted by key. -/
def sortKeysMember : String × Json → String × Json
  | (key, value) => (key, sortKeys value)
termination_by structural member => member
end

/-- Where a value stands: on its own, behind a key and its colon, or behind a dash or a colon that a
line starts with. -/
inductive Place where
  | top
  | behindKey
  | behindMark
deriving DecidableEq

/-- Whether a value is written on lines of its own. -/
def isBlock : Json → Bool
  | .arr items => !items.isEmpty
  | .obj members => !members.isEmpty
  | _ => false

/-- A space behind a colon or a dash. -/
def space (place : Place) (sheet : Sheet) : Sheet :=
  if place = .top then sheet else sheet.put [' ']

mutual
/-- Writes a value at a place whose own column is given. -/
def writeNode : Json → Place → Nat → Sheet → Sheet
  | .null, place, _, sheet => (space place sheet).put "null".toList
  | .bool b, place, _, sheet => (space place sheet).put (if b then "true" else "false").toList
  | .int n, place, _, sheet => (space place sheet).put (toString n).toList
  | .real x, place, _, sheet => (space place sheet).put (realText x)
  | .str s, place, column, sheet =>
    writeText (space place sheet) (if place = .top then 2 else column + 2) true s.toList
  | .arr items, place, column, sheet =>
    if items.isEmpty then (space place sheet).put ['[', ']']
    else writeItems items true place (if place = .behindMark then column + 2 else column) sheet
  | .obj members, place, column, sheet =>
    if members.isEmpty then (space place sheet).put ['\x7b', '\x7d']
    else writeMembers members true place (if place = .top then column else column + 2) sheet
termination_by structural value => value

/-- Writes the items of a list whose dashes stand at a column. -/
def writeItems : List Json → Bool → Place → Nat → Sheet → Sheet
  | [], _, _, _, sheet => sheet
  | item :: items, first, place, column, sheet =>
    let sheet :=
      if first && place = .behindMark then sheet.put [' ']
      else if first && place = .top then sheet
      else sheet.indent column
    writeItems items false place column (writeNode item .behindMark column (sheet.put ['-']))
termination_by structural items => items

/-- Writes the members of an object whose keys stand at a column. -/
def writeMembers : List (String × Json) → Bool → Place → Nat → Sheet → Sheet
  | [], _, _, _, sheet => sheet
  | member :: members, first, place, column, sheet =>
    let sheet :=
      if first && place = .behindMark then sheet.put [' ']
      else if first && place = .top then sheet
      else sheet.indent column
    writeMembers members false place column (writeMember member column sheet)
termination_by structural members => members

/-- Writes a member of an object whose key stands at a column. -/
def writeMember : String × Json → Nat → Sheet → Sheet
  | (key, value), column, sheet =>
    if isSimpleKey key.toList then
      writeNode value .behindKey column ((writeText sheet (column + 2) false key.toList).put [':'])
    else
      let sheet := writeText (sheet.put ['?', ' ']) (column + 2) true key.toList
      writeNode value .behindMark column ((sheet.indent column).put [':'])
termination_by structural member => member
end

/-- The document of a collection. -/
def render (value : Json) : String :=
  String.ofList (writeNode (sortKeys value) .top 0 {}).newLine.written.reverse

end Yaml
end UsageOrder
