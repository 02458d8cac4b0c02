import UsageOrder.Fault

/-!
# Getting at the parts of a value

A value that comes from outside may be of any kind, so every way of getting at its parts says what
happens when it has none.

| value | as an offset |
|---|---|
| a number with a fraction | cut toward zero |
| true, false | one, zero |
| a text | the whole number written in it |
| null, a list, an object | none |
-/

namespace UsageOrder
namespace Json

/-- The offset that a value stands for. -/
def toOffset : Json → Except Fault Int
  | .int n => .ok n
  | .bool b => .ok (if b then 1 else 0)
  | .real x =>
    match x, x.truncate? with
    | _, some n => .ok n
    | .infinite _, none => .error .tooLarge
    | _, none => .error .badValue
  | .str s =>
    match Text.readInt? s.toList with
    | some n => .ok n
    | none => .error .badValue
  | _ => .error .unsuitable

/-- The values that a value is made of: the items of a list, the characters of a text, the keys of
an object. -/
def items : Json → Except Fault (List Json)
  | .arr values => .ok values
  | .str s => .ok (s.toList.map fun c => .str (String.singleton c))
  | .obj members => .ok (members.map fun member => .str member.1)
  | _ => .error .unsuitable

/-- The two values of a value made of exactly two. -/
def pair (value : Json) : Except Fault (Json × Json) := do
  match ← value.items with
  | [a, b] => .ok (a, b)
  | _ => .error .badValue

/-- Whether a key occurs in a value: as a key of an object, an item of a list or a part of a
text. -/
def mentions (key : String) : Json → Except Fault Bool
  | .obj members => .ok (memberOf? key members).isSome
  | .arr values => .ok (values.any fun value => value.text? == some key)
  | .str s => .ok (Text.offsetOf? key.toList s.toList).isSome
  | _ => .error .unsuitable

/-- The value under a key that has been seen to occur. -/
def require (value : Json) (key : String) : Except Fault Json :=
  match value with
  | .obj members =>
    match memberOf? key members with
    | some found => .ok found
    | none => .error .missingKey
  | _ => .error .unsuitable

/-- The member of an object under a key, null where it has none. -/
def member (value : Json) (key : String) : Except Fault Json :=
  match value with
  | .obj _ => .ok (value.getD key)
  | _ => .error .noSuchMember

end Json
end UsageOrder
