import UsageOrder.Fault

/-!
# Names of declarations

A name is nearly always a text.  A syntax tree may give any other value, and such a name is carried
along until a text is needed.  Two names are equal when their keys are: numbers and truth values are
compared by size, so that one name may be spelled in several ways and keeps the spelling it is given
with.  Nothing is found under a list or an object.

| statement | rule |
|---|---|
| `Name.key` | what a name is compared by |
| `EquivBEq Name` | equality of names is an equivalence |
-/

namespace UsageOrder

/-- The name of a declaration. -/
inductive Name where
  | text (value : String)
  | null
  | bool (value : Bool)
  | int (value : Int)
  | real (value : Binary64)
  /-- A list or an object in the place of a name. -/
  | composite
deriving Repr, Inhabited

namespace Name

/-- What a name is compared by. -/
inductive Key where
  | text (value : String)
  | null
  | number (size : Size)
  | composite
deriving DecidableEq

/-- The value in the place of a name. -/
def ofValue : Json → Name
  | .str s => .text s
  | .null => .null
  | .bool b => .bool b
  | .int n => .int n
  | .real x => .real x
  | .arr _ => .composite
  | .obj _ => .composite

/-- The value of a name. -/
def toJson : Name → Json
  | .text s => .str s
  | .null => .null
  | .bool b => .bool b
  | .int n => .int n
  | .real x => .real x
  | .composite => .null

/-- What a name is compared by. -/
def key : Name → Key
  | .text s => .text s
  | .null => .null
  | .composite => .composite
  | name => ((name.toJson.size?).map Key.number).getD .composite

instance : BEq Name where
  beq a b := decide (a.key = b.key)

theorem beq_iff_key_eq {a b : Name} : (a == b) = true ↔ a.key = b.key :=
  decide_eq_true_iff

instance : EquivBEq Name where
  rfl := beq_iff_key_eq.2 rfl
  symm h := beq_iff_key_eq.2 (beq_iff_key_eq.1 h).symm
  trans h h' := beq_iff_key_eq.2 ((beq_iff_key_eq.1 h).trans (beq_iff_key_eq.1 h'))

/-- Whether something can be looked up under a name. -/
def isComposite : Name → Bool
  | .composite => true
  | _ => false

/-- Whether two names are the same value; the value that is no number differs from itself. -/
def same (a b : Name) : Bool := a == b && !a.toJson.isUndefined

/-- A name under which something can be looked up. -/
def usable (name : Name) : Except Fault Name :=
  if name.isComposite then .error .unsuitable else .ok name

/-- The name that a value stands for, which has to be one that things are looked up under. -/
def ofJson (value : Json) : Except Fault Name := (ofValue value).usable

/-- A name inside a text. -/
def plain (name : Name) : String := name.toJson.plain

/-- The text of a name that is one. -/
def toText (name : Name) : Except Fault String :=
  match name with
  | .text s => .ok s
  | _ => .error .unsuitable

/-- The texts of names that all are texts. -/
def texts (names : List Name) : Except Fault (List String) := names.mapM toText

end Name
end UsageOrder
