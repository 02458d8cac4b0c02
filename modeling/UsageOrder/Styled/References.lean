import UsageOrder.Styled.Declaration
import UsageOrder.Order.Prerequisites

/-!
# What an initializer refers to

The identifiers that are evaluated while an initializer runs, in the order of evaluation and as
often as they are evaluated.  A function body runs later, so it is not entered, and neither is any
node of a type that is not listed.

| node | entered |
|---|---|
| tagged template | tag, template |
| template | its expressions |
| call, construction | callee, arguments |
| member access | object, and the property if it is computed |
| conditional | test, both branches |
| logical, binary | both sides |
| array, object | elements; values, computed keys and spread arguments |
| spread | its argument |

The references are listed with the faults among them: whoever goes through the list meets the first
fault after the names before it.
-/

namespace UsageOrder
namespace Json

/-- Whether members say that a key is computed. -/
def isComputed (members : List (String × Json)) : Bool :=
  ((memberOf? "computed" members).getD .null).truthy

mutual
/-- The names that a node evaluates, and the faults met on the way. -/
def references : Json → List (Except Fault Json)
  | .obj members =>
    match (Json.obj members).kind with
    | .identifier => [(Json.obj members).require "name"]
    | .taggedTemplate => referencesUnder "tag" members ++ referencesUnder "quasi" members
    | .templateLiteral => referencesOfList "expressions" members
    | .call => referencesUnder "callee" members ++ referencesOfList "arguments" members
    | .construct => referencesUnder "callee" members ++ referencesOfList "arguments" members
    | .member =>
      referencesUnder "object" members ++
        (if isComputed members then referencesUnder "property" members else [])
    | .conditional =>
      referencesUnder "test" members ++ referencesUnder "consequent" members ++
        referencesUnder "alternate" members
    | .logical => referencesUnder "left" members ++ referencesUnder "right" members
    | .binary => referencesUnder "left" members ++ referencesUnder "right" members
    | .array => referencesOfList "elements" members
    | .object => referencesOfProperties members
    | .spread => referencesUnder "argument" members
    | _ => []
  | _ => []
termination_by structural value => value

/-- The references of the member under a key. -/
def referencesUnder (key : String) : List (String × Json) → List (Except Fault Json)
  | [] => []
  | member :: members =>
    if member.1 = key then referencesOfMember member else referencesUnder key members
termination_by structural members => members

/-- The references of a member. -/
def referencesOfMember : String × Json → List (Except Fault Json)
  | (_, value) => references value
termination_by structural member => member

/-- The references of the list under a key. -/
def referencesOfList (key : String) : List (String × Json) → List (Except Fault Json)
  | [] => []
  | member :: members =>
    if member.1 = key then referencesOfItems member else referencesOfList key members
termination_by structural members => members

/-- The references of the items of a member. -/
def referencesOfItems : String × Json → List (Except Fault Json)
  | (_, .arr items) => referencesOfEach items
  | (_, .str _) => []
  | (_, .obj _) => []
  | _ => [.error .unsuitable]
termination_by structural member => member

/-- The references of each of some nodes. -/
def referencesOfEach : List Json → List (Except Fault Json)
  | [] => []
  | item :: items => references item ++ referencesOfEach items
termination_by structural items => items

/-- The references of the properties among the members of an object expression. -/
def referencesOfProperties : List (String × Json) → List (Except Fault Json)
  | [] => []
  | member :: members =>
    if member.1 = "properties" then referencesOfPropertyList member
    else referencesOfProperties members
termination_by structural members => members

/-- The references of a list of properties. -/
def referencesOfPropertyList : String × Json → List (Except Fault Json)
  | (_, .arr items) => referencesOfEachProperty items
  | (_, .str s) => if s = "" then [] else [.error .noSuchMember]
  | (_, .obj members) => if members.isEmpty then [] else [.error .noSuchMember]
  | _ => [.error .unsuitable]
termination_by structural member => member

/-- The references of each of some properties. -/
def referencesOfEachProperty : List Json → List (Except Fault Json)
  | [] => []
  | item :: items => referencesOfProperty item ++ referencesOfEachProperty items
termination_by structural items => items

/-- The references of a property: a spread argument, or a computed key and a value. -/
def referencesOfProperty : Json → List (Except Fault Json)
  | .obj members =>
    match (Json.obj members).kind with
    | .spread => referencesUnder "argument" members
    | _ =>
      (if isComputed members then referencesUnder "key" members else []) ++
        referencesUnder "value" members
  | _ => [.error .noSuchMember]
termination_by structural value => value
end

end Json

namespace Collection

/-- The tracked names that a declaration refers to: once each, in the order in which they are first
met, its own left out. -/
def prerequisitesOf (tracked : List Name) (declaration : Declaration) :
    Except Fault (List Name) := do
  let names ← declaration.initializer.references.mapM fun reference => reference.bind Name.ofJson
  let names := (names.filter fun name =>
    tracked.contains name && !name.same declaration.name).eraseDups
  let _ ← Name.texts names
  .ok names

/-- The tracked names that each declaration refers to. -/
def prerequisites (collection : Collection) : Except Fault (Prerequisites Name) :=
  collection.mapM fun declaration => do
    .ok (declaration.name, ← prerequisitesOf collection.names declaration)

end Collection
end UsageOrder
