import UsageOrder.Styled.Declaration

/-!
# What is looked up under the name of a declaration

A collection comes with three tables, keyed by name: the declarations, their positions, and their
anchors.  A declaration that is taken in goes into all of them.

| statement | rule |
|---|---|
| `Lookups.put` | a name that is there keeps its place and gets the new value, any other comes last |
| `Collection.lookups` | the tables after all declarations have been taken in |
-/

namespace UsageOrder

/-- The tables that are keyed by the names of declarations. -/
@[ext] structure Lookups where
  byName : List (Name × Declaration)
  positions : List (Name × Nat)
  anchors : List (Name × Json)

namespace Lookups

/-- Tables without entries. -/
def empty : Lookups := ⟨[], [], []⟩

/-- Puts a value under a name. -/
def put {α : Type} (name : Name) (value : α) : List (Name × α) → List (Name × α)
  | [] => [(name, value)]
  | entry :: entries =>
    if name == entry.1 then (entry.1, value) :: entries else entry :: put name value entries

/-- Takes in a declaration. -/
def add (lookups : Lookups) (declaration : Declaration) : Lookups where
  byName := put declaration.name declaration lookups.byName
  positions := put declaration.name declaration.position lookups.positions
  anchors := put declaration.name declaration.anchor lookups.anchors

end Lookups

/-- The tables of a collection. -/
def Collection.lookups (collection : Collection) : Lookups := collection.foldl Lookups.add .empty

end UsageOrder
