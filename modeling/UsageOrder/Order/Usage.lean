import UsageOrder.Styled.Declaration
import UsageOrder.Tree.Walk
import UsageOrder.Order.Rank

/-!
# First uses

The first use of a declaration is the least offset at which its name opens an element.

| strategy | a use is |
|---|---|
| `structural` | an opening element in a statement that is not one of the declarations themselves |
| `text` | a `<`, the name, and one of `>`, space, line feed or `/`, anywhere in the text |
-/

namespace UsageOrder

/-- How uses are found. -/
inductive UsageStrategy where
  | structural
  | text
deriving DecidableEq, Repr

namespace UsageStrategy

/-- The strategy that a value names. -/
def ofJson : Json → Except Fault UsageStrategy
  | .str s =>
    if s = "structural" then .ok .structural
    else if s = "text" then .ok .text
    else .error .badValue
  | _ => .error .badValue

end UsageStrategy

/-- The offset of the first use of each name, none for a name that is not used. -/
abbrev FirstUses := List (Name × Option Int)

namespace FirstUses

/-- The tracked name that a node opens an element with, and the offset of the element. -/
def ofNode (tracked : List Name) (node : Json) : Except Fault (Option (Name × Int)) := do
  if node.kind ≠ .openingElement then .ok none
  else
    let tag := node.getD "name"
    if tag.kind ≠ .elementName then .ok none
    else
      let name ← Name.ofJson (← tag.require "name")
      if tracked.contains name then .ok (some (name, (← node.range).start)) else .ok none

/-- The uses in a statement; none in a statement whose range is one of the given ones. -/
def ofStatement (tracked : List Name) (declared : List Range) (statement : Json) :
    Except Fault (List (Name × Int)) := do
  let range ← statement.range
  if range ∈ declared then .ok []
  else
    let uses ← statement.walk.mapM (ofNode tracked)
    .ok (uses.filterMap id)

/-- The least offset among the uses of a name. -/
def least (uses : List (Name × Int)) (name : Name) : Option Int :=
  ((uses.filter fun use => use.1 == name).map Prod.snd).min?

/-- First uses by the elements of the syntax tree. -/
def structural (body : List Json) (collection : Collection) : Except Fault FirstUses := do
  let declared := collection.map Declaration.range
  let uses ← body.mapM (ofStatement collection.names declared)
  .ok (collection.names.map fun name => (name, least uses.flatten name))

/-- What may follow a name that opens an element. -/
def textEnds : List Char := ['>', ' ', '\n', '/']

/-- The least offset at which a name opens an element in a text. -/
def leastInText (text : Text) (name : Name) : Option Int :=
  (textEnds.filterMap fun ending =>
    (Text.offsetOf? ('<' :: name.plain.toList ++ [ending]) text).map Int.ofNat).min?

/-- First uses by the text alone. -/
def textual (text : Text) (collection : Collection) : FirstUses :=
  collection.names.map fun name => (name, leastInText text name)

/-- The names that are not used. -/
def unused (uses : FirstUses) : List Name :=
  (uses.filter fun use => use.2.isNone).map Prod.fst

/-- First uses by a strategy; the unused names have to be texts. -/
def find (strategy : UsageStrategy) (body : List Json) (text : Text) (collection : Collection) :
    Except Fault FirstUses := do
  let uses ←
    match strategy with
    | .text => .ok (textual text collection)
    | .structural => structural body collection
  let _ ← Name.texts uses.unused
  .ok uses

/-- The ranks that first uses give. -/
def ranks (uses : FirstUses) : Ranks := uses.map fun use => (use.1, Rank.ofUse use.2)

end FirstUses
end UsageOrder
