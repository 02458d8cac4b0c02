import UsageOrder.Number.Binary64
import UsageOrder.Text.Basic

/-!
# Structured values

The values of the JSON data format.  The members of an object keep the order in which they were
written, and a whole number is another value than the floating point number of the same size.

| operation | rule |
|---|---|
| `Json.get?` | the value of the first member with a key |
| `Json.setMember` | a later value takes the place of an earlier one |
| `Json.truthy` | everything but null, false, zero and what is empty |
| `Json.size?` | how large a number is; a truth value is zero or one |
| `Json.same` | equality by value: numbers by size, objects without regard to order |
-/

namespace UsageOrder

/-- How large a number is. -/
inductive Size where
  | finite (value : Rat)
  | infinite (negative : Bool)
  /-- The size of the value that is no number. -/
  | undefined
deriving DecidableEq

namespace Size

/-- Whether a size is less than another one; an undefined size is neither less nor greater. -/
def less : Size → Size → Bool
  | .finite a, .finite b => decide (a < b)
  | .infinite negative, .finite _ => negative
  | .finite _, .infinite negative => !negative
  | .infinite a, .infinite b => a && !b
  | .undefined, _ => false
  | _, .undefined => false

end Size

/-- A value of the JSON data format. -/
inductive Json where
  | null
  | bool (value : Bool)
  | int (value : Int)
  | real (value : Binary64)
  | str (value : String)
  | arr (items : List Json)
  | obj (members : List (String × Json))
deriving Inhabited, Repr

namespace Json

/-- The value of the first member with the key. -/
def memberOf? (key : String) (members : List (String × Json)) : Option Json :=
  members.lookup key

/-- The value that an object has under a key. -/
def get? (key : String) : Json → Option Json
  | .obj members => memberOf? key members
  | _ => none

/-- The value that an object has under a key, null where there is none. -/
def getD (value : Json) (key : String) : Json := (value.get? key).getD .null

/-- Whether a value is an object with the key. -/
def has (key : String) (value : Json) : Bool := (value.get? key).isSome

/-- Sets a member: a key that is there keeps its place, a new one comes last. -/
def setMember (key : String) (value : Json) : List (String × Json) → List (String × Json)
  | [] => [(key, value)]
  | member :: rest =>
    if member.1 = key then (key, value) :: rest else member :: setMember key value rest

/-- The members of a list of settings, each key at its first place with its last value. -/
def mergeMembers (settings : List (String × Json)) : List (String × Json) :=
  settings.foldl (fun members setting => setMember setting.1 setting.2 members) []

/-- The text of a string value. -/
def text? : Json → Option String
  | .str s => some s
  | _ => none

/-- Whether a value counts as true. -/
def truthy : Json → Bool
  | .null => false
  | .bool b => b
  | .int n => n != 0
  | .real x => !x.isZero
  | .str s => s != ""
  | .arr items => !items.isEmpty
  | .obj members => !members.isEmpty

/-- How large a value is that counts as a number: a truth value is zero or one. -/
def size? : Json → Option Size
  | .bool b => some (.finite (if b then 1 else 0))
  | .int n => some (.finite n)
  | .real (.infinite negative) => some (.infinite negative)
  | .real x => some ((x.toRat?.map Size.finite).getD .undefined)
  | _ => none

/-- Whether a value is the number that is none. -/
def isUndefined (value : Json) : Bool := decide (value.size? = some .undefined)

/-- Equality of values that hold no others: numbers are compared by size, and the value that is no
number differs from every one. -/
def sameScalar : Json → Json → Bool
  | .null, .null => true
  | .str s, .str t => s == t
  | a, b =>
    match a.size?, b.size? with
    | some x, some y => decide (x = y ∧ x ≠ .undefined)
    | _, _ => false

mutual
/-- Equality by value: numbers by size, lists item by item, objects without regard to order. -/
def same : Json → Json → Bool
  | .arr items, .arr others => sameItems items others
  | .obj members, .obj others => members.length == others.length && sameMembers members others
  | .arr _, _ => false
  | .obj _, _ => false
  | _, .arr _ => false
  | _, .obj _ => false
  | a, b => sameScalar a b
termination_by structural a => a

/-- Two lists of values with equal items. -/
def sameItems : List Json → List Json → Bool
  | [], [] => true
  | item :: items, other :: others => same item other && sameItems items others
  | _, _ => false
termination_by structural items => items

/-- Every member has an equal one under its key. -/
def sameMembers : List (String × Json) → List (String × Json) → Bool
  | [], _ => true
  | member :: members, others => sameMember member others && sameMembers members others
termination_by structural members => members

/-- A member has an equal one under its key. -/
def sameMember : String × Json → List (String × Json) → Bool
  | (key, value), others =>
    match others.lookup key with
    | some other => same value other
    | none => false
termination_by structural member => member
end

/-- The whole number that a truth value or a whole number stands for. -/
def toInt? : Json → Option Int
  | .bool b => some (if b then 1 else 0)
  | .int n => some n
  | _ => none

end Json
end UsageOrder
