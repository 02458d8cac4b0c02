import UsageOrder.Json.Basic
import UsageOrder.Text.Digits
import UsageOrder.Text.Position

/-!
# Reading structured values

The reader takes the JSON format with three more number words: `NaN`, `Infinity` and `-Infinity`.
A repeated key keeps its first place and its last value.  Where the text is not in the format, the
reader says what it expected and where.

| the text has | the place named |
|---|---|
| no value where one belongs | where it should start |
| a string without an end | the opening quote |
| a bad escape | the backslash, or the `u` of a code escape |
| a comma before a closing brace | the brace |
| something after the value | its first character that is no white space |

Texts are made of characters, so a code escape for half of a pair that stands alone is read as U+FFFD;
it is not kept as it is.  Lists and objects may be nested as deep as the text has them: the limit that
an interpreter sets to nested calls is left out.
-/

namespace UsageOrder
namespace Json

/-- What is wrong with a text that is not in the format. -/
inductive Problem where
  | expectingValue
  | expectingName
  | expectingColon
  | expectingComma
  | extraData
  | unterminatedString
  | controlCharacter
  | badEscape
  | badCodeEscape
  | byteOrderMark
  | tooManyDigits
deriving DecidableEq, Repr

namespace Problem

/-- The wording of a problem. -/
def message : Problem → String
  | .expectingValue => "Expecting value"
  | .expectingName => "Expecting property name enclosed in double quotes"
  | .expectingColon => "Expecting ':' delimiter"
  | .expectingComma => "Expecting ',' delimiter"
  | .extraData => "Extra data"
  | .unterminatedString => "Unterminated string starting at"
  | .controlCharacter => "Invalid control character at"
  | .badEscape => "Invalid \\escape"
  | .badCodeEscape => "Invalid \\uXXXX escape"
  | .byteOrderMark => "Unexpected UTF-8 BOM (decode using utf-8-sig)"
  | .tooManyDigits => "Exceeds the limit (4300 digits) for integer string conversion"

end Problem

/-- A problem and how much of the text was left at its place. -/
structure Stop where
  problem : Problem
  left : Nat

/-- Stops at the start of the given rest of the text. -/
def stop {α : Type} (problem : Problem) (rest : Text) : Except Stop α :=
  .error ⟨problem, rest.length⟩

/-- The four characters that may stand between values. -/
def isSpace (c : Char) : Bool := c = ' ' || c = '\t' || c = '\n' || c = '\r'

/-- A text without the space at its start. -/
def skipSpace (text : Text) : Text := text.dropWhile isSpace

/-- The value of a hexadecimal digit. -/
def hexValue? (c : Char) : Option Nat :=
  if '0' ≤ c ∧ c ≤ '9' then some (c.toNat - 48)
  else if 'a' ≤ c ∧ c ≤ 'f' then some (c.toNat - 87)
  else if 'A' ≤ c ∧ c ≤ 'F' then some (c.toNat - 55)
  else none

/-- The value of four hexadecimal digits. -/
def hexCode? (text : Text) : Option Nat :=
  match (text.take 4).mapM hexValue? with
  | some [a, b, c, d] => some (((a * 16 + b) * 16 + c) * 16 + d)
  | _ => none

/-- The second half of a pair of code escapes, given what follows the first. -/
def lowHalf (text : Text) : Except Stop (Option Nat) :=
  match text with
  | '\\' :: 'u' :: rest =>
    if (rest.drop 4).isEmpty then .ok none
    else
      match hexCode? rest with
      | none => stop .badCodeEscape ('u' :: rest)
      | some code => .ok (if 0xDC00 ≤ code ∧ code ≤ 0xDFFF then some code else none)
  | _ => .ok none

/-- The character that a code escape stands for, given what follows its `u`, and the rest. -/
def codeEscape (text : Text) : Except Stop (Char × Text) :=
  if (text.drop 4).isEmpty then stop .badCodeEscape ('u' :: text)
  else
    match hexCode? text with
    | none => stop .badCodeEscape ('u' :: text)
    | some high =>
      let rest := text.drop 4
      if 0xD800 ≤ high ∧ high ≤ 0xDBFF then do
        match ← lowHalf rest with
        | some low =>
          .ok (Char.ofNat (0x10000 + (high - 0xD800) * 1024 + (low - 0xDC00)), rest.drop 6)
        | none => .ok (Char.ofNat 0xFFFD, rest)
      else if 0xDC00 ≤ high ∧ high ≤ 0xDFFF then .ok (Char.ofNat 0xFFFD, rest)
      else .ok (Char.ofNat high, rest)

/-- The character that a short escape stands for. -/
def shortEscape? (c : Char) : Option Char :=
  if c = '"' ∨ c = '\\' ∨ c = '/' then some c
  else if c = 'b' then some (Char.ofNat 8)
  else if c = 'f' then some (Char.ofNat 12)
  else if c = 'n' then some '\n'
  else if c = 'r' then some '\r'
  else if c = 't' then some '\t'
  else none

/-- Reads a string from behind its opening quote; `opening` is the text from that quote on. -/
def readString (opening : Text) : Nat → Text → Text → Except Stop (Text × Text)
  | 0, _, _ => stop .unterminatedString opening
  | fuel + 1, done, text =>
    match text with
    | [] => stop .unterminatedString opening
    | '"' :: rest => .ok (done.reverse, rest)
    | ['\\'] => stop .unterminatedString opening
    | '\\' :: 'u' :: rest => do
      let (c, rest) ← codeEscape rest
      readString opening fuel (c :: done) rest
    | '\\' :: mark :: rest =>
      match shortEscape? mark with
      | some c => readString opening fuel (c :: done) rest
      | none => stop .badEscape ('\\' :: mark :: rest)
    | c :: rest =>
      if c.toNat < 32 then stop .controlCharacter (c :: rest)
      else readString opening fuel (c :: done) rest

/-- The digits at the start of a text, and the rest. -/
def spanDigits (text : Text) : Text × Text :=
  (text.takeWhile Char.isDigit, text.dropWhile Char.isDigit)

/-- The fraction at the start of a text, if there is one: its digits and the rest. -/
def spanFraction? (text : Text) : Option (Text × Text) :=
  match text with
  | '.' :: rest => if (spanDigits rest).1.isEmpty then none else some (spanDigits rest)
  | _ => none

/-- The exponent at the start of a text, if there is one: its value and the rest. -/
def spanExponent? (text : Text) : Option (Int × Text) :=
  match text with
  | mark :: rest =>
    if mark = 'e' ∨ mark = 'E' then
      let (negative, rest) : Bool × Text :=
        match rest with
        | '-' :: more => (true, more)
        | '+' :: more => (false, more)
        | more => (false, more)
      let (ds, rest) := spanDigits rest
      if ds.isEmpty then none
      else
        let size : Int := Text.ofDigits (ds.filterMap Text.digitValue?)
        some (if negative then -size else size, rest)
    else none
  | [] => none

/-- The number at the start of a text, if there is one, and the rest. -/
def readNumber? (text : Text) : Option (Except Problem Json × Text) :=
  let (negative, rest) : Bool × Text :=
    match text with
    | '-' :: more => (true, more)
    | more => (false, more)
  let (whole, rest) : Text × Text :=
    match rest with
    | '0' :: more => (['0'], more)
    | more => spanDigits more
  if whole.isEmpty then none
  else
    let (fraction, rest) := (spanFraction? rest).getD ([], rest)
    let size := Text.ofDigits ((whole ++ fraction).filterMap Text.digitValue?)
    match spanExponent? rest with
    | some (exponent, rest) =>
      some (.ok (.real (.ofDecimal negative size (exponent - fraction.length))), rest)
    | none =>
      if !fraction.isEmpty then
        some (.ok (.real (.ofDecimal negative size (-fraction.length))), rest)
      else if Text.maxDigits < whole.length then some (.error .tooManyDigits, rest)
      else some (.ok (.int (if negative then -size else size)), rest)

/-- The words that stand for values. -/
def words : List (String × Json) := [
  ("null", .null), ("true", .bool true), ("false", .bool false), ("NaN", .real .nan),
  ("Infinity", .real (.infinite false)), ("-Infinity", .real (.infinite true))]

/-- The word at the start of a text, if there is one, and the rest. -/
def readWord? (text : Text) : Option (Json × Text) :=
  words.findSome? fun word =>
    if word.1.toList.isPrefixOf text then some (word.2, text.drop word.1.length) else none

mutual
/-- Reads a value. -/
def readValue : Nat → Text → Except Stop (Json × Text)
  | 0, text => stop .expectingValue text
  | fuel + 1, text =>
    match text with
    | '"' :: rest => do
      let (s, rest) ← readString text fuel [] rest
      .ok (.str (String.ofList s), rest)
    | '{' :: rest =>
      match skipSpace rest with
      | '}' :: rest => .ok (.obj [], rest)
      | rest => do
        let (members, rest) ← readMembers fuel [] rest
        .ok (.obj (mergeMembers members.reverse), rest)
    | '[' :: rest =>
      match skipSpace rest with
      | ']' :: rest => .ok (.arr [], rest)
      | rest => do
        let (items, rest) ← readItems fuel [] rest
        .ok (.arr items.reverse, rest)
    | text =>
      match readWord? text with
      | some (value, rest) => .ok (value, rest)
      | none =>
        match readNumber? text with
        | some (.ok value, rest) => .ok (value, rest)
        | some (.error problem, _) => stop problem text
        | none => stop .expectingValue text

/-- Reads the items of a list up to its closing bracket; `done` holds those read, last first. -/
def readItems : Nat → List Json → Text → Except Stop (List Json × Text)
  | 0, _, text => stop .expectingValue text
  | fuel + 1, done, text => do
    let (value, rest) ← readValue fuel text
    match skipSpace rest with
    | ']' :: rest => .ok (value :: done, rest)
    | ',' :: rest => readItems fuel (value :: done) (skipSpace rest)
    | rest => stop .expectingComma rest

/-- Reads the members of an object up to its closing brace; `done` holds those read, last first. -/
def readMembers : Nat → List (String × Json) → Text → Except Stop (List (String × Json) × Text)
  | 0, _, text => stop .expectingName text
  | fuel + 1, done, text =>
    match text with
    | '"' :: rest => do
      let (key, rest) ← readString text fuel [] rest
      match skipSpace rest with
      | ':' :: rest => do
        let (value, rest) ← readValue fuel (skipSpace rest)
        let done := (String.ofList key, value) :: done
        match skipSpace rest with
        | '}' :: rest => .ok (done, rest)
        | ',' :: rest => readMembers fuel done (skipSpace rest)
        | rest => stop .expectingComma rest
      | rest => stop .expectingColon rest
    | text => stop .expectingName text
end

/-- Reads a text that holds one value and nothing else. -/
def readAll (text : Text) : Except Stop Json :=
  match text with
  | '\uFEFF' :: _ => stop .byteOrderMark text
  | text => do
    let (value, rest) ← readValue (2 * text.length + 2) (skipSpace text)
    match skipSpace rest with
    | [] => .ok value
    | rest => stop .extraData rest

/-- Why a text could not be read, and where. -/
structure ReadError where
  problem : Problem
  offset : Nat
  position : Position
deriving DecidableEq, Repr

namespace ReadError

/-- The wording of a reading error. -/
def message (e : ReadError) : String :=
  e.problem.message ++ ": line " ++ toString e.position.line ++ " column " ++
    toString e.position.column ++ " (char " ++ toString e.offset ++ ")"

end ReadError

/-- The value that a text holds. -/
def parse (text : Text) : Except ReadError Json :=
  match readAll text with
  | .ok value => .ok value
  | .error s =>
    let offset := text.length - s.left
    .error ⟨s.problem, offset, text.position offset⟩

end Json
end UsageOrder
