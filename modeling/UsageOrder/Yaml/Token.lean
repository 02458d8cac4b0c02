import UsageOrder.Yaml.Scalar.Quoted

/-!
# Tokens of YAML

The parts that a YAML text is made of.  The starts and ends of block collections are tokens too,
although indentation alone shows them.

This module reads the tokens that a name follows: anchors, aliases, tags and directives.
-/

namespace UsageOrder
namespace Yaml

/-- The tag of a node: a handle, if it has one, and what follows it. -/
structure Tag where
  handle : Option Text
  rest : Text
deriving DecidableEq, Repr

/-- What a line says about the document that follows. -/
inductive Directive where
  /-- The version of YAML, by its first number. -/
  | version (major : Nat)
  /-- What the handle of a tag stands for. -/
  | handle (name full : Text)
  | other
deriving DecidableEq, Repr

/-- A part of a YAML text. -/
inductive Token where
  | directive (value : Directive)
  | documentStart
  | documentEnd
  | blockListStart
  | blockMappingStart
  | blockEnd
  | flowListStart
  | flowListEnd
  | flowMappingStart
  | flowMappingEnd
  /-- The dash in front of an item. -/
  | blockEntry
  /-- The comma behind an item. -/
  | flowEntry
  /-- In front of a key. -/
  | key
  /-- The colon in front of a value. -/
  | value
  | aliasOf (name : Text)
  | anchor (name : Text)
  | tag (tag : Tag)
  | scalar (text : Text) (plain : Bool)
deriving DecidableEq, Repr

/-- Reads a word of at least one character. -/
def word? (cursor : Cursor) : Option (Text × Cursor) :=
  let (name, cursor) := cursor.span isWordChar
  if name.isEmpty then none else some (name, cursor)

/-- Whether the name of an anchor ends in front of a text. -/
def endsAnchor (text : Text) : Bool :=
  endsWord text || text.head?.any fun c => ['?', ':', ',', ']', '\x7d', '%', '@', '\x60'].contains c

/-- Reads the name of an anchor or an alias from behind its mark. -/
def anchorName? (cursor : Cursor) : Option (Text × Cursor) := do
  let (name, cursor) ← word? cursor
  if endsAnchor cursor.rest then some (name, cursor) else none

/-- Whether a character may stand in a tag behind its handle. -/
def isTagChar (c : Char) : Bool :=
  c.isAlphanum || [';', '/', '?', ':', '@', '&', '=', '+', '$', ',', '-', '_', '.', '!', '~', '*',
    '\'', '(', ')', '[', ']'].contains c

/-- Bytes that are written with percent signs at the start of a text, and how many characters they
take up. -/
def percentBytes : Nat → Text → Option (List UInt8 × Nat)
  | 0, _ => some ([], 0)
  | fuel + 1, text =>
    match text with
    | '%' :: rest => do
      let byte ← hexNumber? 2 rest
      let (bytes, length) ← percentBytes fuel (rest.drop 2)
      some (UInt8.ofNat byte :: bytes, length + 3)
    | _ => some ([], 0)

/-- The characters that are written with percent signs at the start of a text, and how many
characters they take up. -/
def percentText? (text : Text) : Option (Text × Nat) := do
  let (bytes, length) ← percentBytes text.length text
  let decoded ← String.fromUTF8? ⟨bytes.toArray⟩
  some (decoded.toList, length)

/-- Reads what follows the handle of a tag; `done` is what was read. -/
def tagRestFrom : Nat → Text → Cursor → Option (Text × Cursor)
  | 0, _, _ => none
  | fuel + 1, done, cursor =>
    let (plain, cursor) := cursor.span isTagChar
    let done := done ++ plain
    if cursor.rest.head? = some '%' then do
      let (decoded, length) ← percentText? cursor.rest
      tagRestFrom fuel (done ++ decoded) (cursor.skip length)
    else some (done, cursor)

/-- Reads what follows the handle of a tag, which is at least one character. -/
def tagRest? (cursor : Cursor) : Option (Text × Cursor) := do
  let (rest, after) ← tagRestFrom (cursor.rest.length + 1) [] cursor
  if after.index = cursor.index then none else some (rest, after)

/-- Reads the handle of a tag: an exclamation mark, or a word or nothing between two. -/
def tagHandle? (cursor : Cursor) : Option (Text × Cursor) :=
  match cursor.rest with
  | '!' :: ' ' :: _ => some (['!'], cursor.step)
  | '!' :: _ =>
    let (name, cursor) := cursor.step.span isWordChar
    if cursor.rest.head? = some '!' then some ('!' :: name ++ ['!'], cursor.step) else none
  | _ => none

/-- Reads a tag up to its end, which has to be followed by a space or the end of a line. -/
def tag? (cursor : Cursor) : Option (Tag × Cursor) := do
  let (tag, cursor) ←
    match cursor.rest with
    | '!' :: '<' :: _ => do
      let (rest, cursor) ← tagRest? (cursor.skip 2)
      if cursor.rest.head? = some '>' then some (⟨none, rest⟩, cursor.step) else none
    | '!' :: rest =>
      if endsWord rest then some ((⟨none, ['!']⟩ : Tag), cursor.step)
      else do
        let word := rest.takeWhile fun c => c ≠ ' ' && !isLineEnd c
        let (handle, cursor) ←
          if word.contains '!' then tagHandle? cursor else some (['!'], cursor.step)
        let (rest, cursor) ← tagRest? cursor
        some (⟨some handle, rest⟩, cursor)
    | _ => none
  if endsName cursor.rest then some (tag, cursor) else none

/-- Reads a number of a version. -/
def versionNumber? (cursor : Cursor) : Option (Nat × Cursor) :=
  let (digits, cursor) := cursor.span Char.isDigit
  if digits.isEmpty then none
  else some (digits.foldl (fun n c => 10 * n + (c.toNat - 48)) 0, cursor)

/-- Reads the version that a directive names. -/
def version? (cursor : Cursor) : Option (Directive × Cursor) := do
  let (major, cursor) ← versionNumber? cursor.skipSpaces
  if cursor.rest.head? = some '.' then
    let (_, cursor) ← versionNumber? cursor.step
    if endsName cursor.rest then some (.version major, cursor) else none
  else none

/-- Reads the handle that a directive introduces, and what it stands for. -/
def handle? (cursor : Cursor) : Option (Directive × Cursor) := do
  let (name, cursor) ← tagHandle? cursor.skipSpaces
  if cursor.rest.head? = some ' ' then
    let (full, cursor) ← tagRest? cursor.skipSpaces
    if endsName cursor.rest then some (.handle name full, cursor) else none
  else none

/-- Reads a directive from behind its percent sign, up to the end of its line. -/
def directive? (cursor : Cursor) : Option (Directive × Cursor) := do
  let (name, cursor) ← word? cursor
  if endsName cursor.rest then
    let (directive, cursor) ←
      if name = "YAML".toList then version? cursor
      else if name = "TAG".toList then handle? cursor
      else some (.other, cursor.skipWhile fun c => !isLineEnd c)
    some (directive, ← cursor.endLine?)
  else none

end Yaml
end UsageOrder
