import UsageOrder.Json.Basic
import UsageOrder.Text.Quoted

/-!
# Writing structured values

Three written forms of a value.

| form | used for |
|---|---|
| `Json.compact` | one line of JSON, `, ` between items and `: ` after a key, characters beyond ASCII escaped |
| `Json.indented` | JSON on many lines, two spaces for each level, no final line end |
| `Json.shown` | a value inside a message: single quotes, `None`, `True` and `False` |
-/

namespace UsageOrder
namespace Json

/-- A code escape of one UTF-16 unit. -/
def escapeUnit (unit : Nat) : Text := '\\' :: 'u' :: Text.hex 4 unit

/-- One character inside a JSON string, in ASCII. -/
def escapeChar (c : Char) : Text :=
  let n := c.toNat
  if c = '"' ∨ c = '\\' then ['\\', c]
  else if c = '\n' then ['\\', 'n']
  else if c = '\r' then ['\\', 'r']
  else if c = '\t' then ['\\', 't']
  else if n = 8 then ['\\', 'b']
  else if n = 12 then ['\\', 'f']
  else if 32 ≤ n ∧ n < 127 then [c]
  else if n < 0x10000 then escapeUnit n
  else
    escapeUnit (0xD800 + (n - 0x10000) / 1024) ++ escapeUnit (0xDC00 + (n - 0x10000) % 1024)

/-- A JSON string, in ASCII. -/
def escaped (s : String) : String :=
  String.ofList ('"' :: s.toList.flatMap escapeChar ++ ['"'])

/-- A JSON number, or one of the words for the values that are no number. -/
def number (x : Binary64) : String := x.render "Infinity" "NaN"

mutual
/-- The value on one line. -/
def compact : Json → String
  | .null => "null"
  | .bool b => if b then "true" else "false"
  | .int n => toString n
  | .real x => number x
  | .str s => escaped s
  | .arr items => "[" ++ ", ".intercalate (compactItems items) ++ "]"
  | .obj members => "\x7b" ++ ", ".intercalate (compactMembers members) ++ "\x7d"
termination_by structural value => value

/-- The items of a list, each on one line. -/
def compactItems : List Json → List String
  | [] => []
  | item :: items => compact item :: compactItems items
termination_by structural items => items

/-- The members of an object, each on one line. -/
def compactMembers : List (String × Json) → List String
  | [] => []
  | member :: members => compactMember member :: compactMembers members
termination_by structural members => members

/-- A member of an object on one line. -/
def compactMember : String × Json → String
  | (key, value) => escaped key ++ ": " ++ compact value
termination_by structural member => member
end

/-- A line end followed by the indentation of a level. -/
def newLine (level : Nat) : String := String.ofList ('\n' :: List.replicate (2 * level) ' ')

/-- Pieces on lines of their own between brackets; a pair of brackets alone when there are none. -/
def block (opening closing : String) (level : Nat) (pieces : List String) : String :=
  if pieces.isEmpty then opening ++ closing
  else
    opening ++ newLine (level + 1) ++ ("," ++ newLine (level + 1)).intercalate pieces ++
      newLine level ++ closing

mutual
/-- The value on lines of its own, starting at a level. -/
def indentedAt : Json → Nat → String
  | .null, _ => "null"
  | .bool b, _ => if b then "true" else "false"
  | .int n, _ => toString n
  | .real x, _ => number x
  | .str s, _ => escaped s
  | .arr items, level => block "[" "]" level (indentedItems items (level + 1))
  | .obj members, level => block "\x7b" "\x7d" level (indentedMembers members (level + 1))
termination_by structural value => value

/-- The items of a list, each at a level. -/
def indentedItems : List Json → Nat → List String
  | [], _ => []
  | item :: items, level => indentedAt item level :: indentedItems items level
termination_by structural items => items

/-- The members of an object, each at a level. -/
def indentedMembers : List (String × Json) → Nat → List String
  | [], _ => []
  | member :: members, level => indentedMember member level :: indentedMembers members level
termination_by structural members => members

/-- A member of an object at a level. -/
def indentedMember : String × Json → Nat → String
  | (key, value), level => escaped key ++ ": " ++ indentedAt value level
termination_by structural member => member
end

/-- The value on many lines. -/
def indented (value : Json) : String := value.indentedAt 0

mutual
/-- The value inside a message, its strings in quotes. -/
def shown : Json → String
  | .null => "None"
  | .bool b => if b then "True" else "False"
  | .int n => toString n
  | .real x => x.render "inf" "nan"
  | .str s => String.ofList (Text.quoted s.toList)
  | .arr items => "[" ++ ", ".intercalate (shownItems items) ++ "]"
  | .obj members => "\x7b" ++ ", ".intercalate (shownMembers members) ++ "\x7d"
termination_by structural value => value

/-- The items of a list inside a message. -/
def shownItems : List Json → List String
  | [] => []
  | item :: items => shown item :: shownItems items
termination_by structural items => items

/-- The members of an object inside a message. -/
def shownMembers : List (String × Json) → List String
  | [] => []
  | member :: members => shownMember member :: shownMembers members
termination_by structural members => members

/-- A member of an object inside a message. -/
def shownMember : String × Json → String
  | (key, value) => String.ofList (Text.quoted key.toList) ++ ": " ++ shown value
termination_by structural member => member
end

/-- The value inside a message, a string of its own without quotes. -/
def plain : Json → String
  | .str s => s
  | value => value.shown

end Json
end UsageOrder
