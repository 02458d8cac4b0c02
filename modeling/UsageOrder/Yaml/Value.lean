import UsageOrder.Json.Order
import UsageOrder.Yaml.Layout
import UsageOrder.Yaml.Node

/-!
# Values of YAML documents

The value of a node follows from its kind.  The keys of a mapping may be scalars of any kind; two
keys are the same if their values are, and of the values under one key the last one counts.  Under
the merge key stand mappings whose members come first, so that the mapping's own members take
precedence, and of several merged mappings the first.
-/

namespace UsageOrder
namespace Yaml

/-- The members of a mapping whose keys may be scalars of any kind. -/
abbrev Entries := List (Json × Json)

/-- Sets an entry: a key that is there keeps its place and its spelling. -/
def setEntry (entries : Entries) (entry : Json × Json) : Entries :=
  match entries with
  | [] => [entry]
  | first :: rest =>
    if first.1.alike entry.1 then (first.1, entry.2) :: rest else first :: setEntry rest entry

/-- The text of a key. -/
def keyText : Json → String
  | .str s => s
  | key => key.compact

/-- The object with some entries. -/
def objectOf (entries : Entries) : Json :=
  .obj (Json.mergeMembers ((entries.foldl setEntry []).map fun e => (keyText e.1, e.2)))

/-- The text of a set. -/
def setText (entries : Entries) : Json :=
  let keys := (entries.foldl setEntry []).map fun e => e.1.shown
  .str (if keys.isEmpty then "set()" else "\x7b" ++ ", ".intercalate keys ++ "\x7d")

/-- The value of a key, which has to be a scalar. -/
def keyValue? (key : Node) : Option Json :=
  match key with
  | .scalar .defaultKey text => some (.str (String.ofList text))
  | .scalar kind text => scalarValue? kind text
  | _ => none

/-- Whether other mappings are merged in under a key. -/
def isMergeKey (key : Node) : Bool :=
  match key with
  | .scalar kind _ => kind = .mergeKey
  | _ => false

mutual
/-- The value of a node; none if its kind does not fit. -/
def Node.value? : Node → Option Json
  | .scalar kind text => scalarValue? kind text
  | .list .list items => (valuesOf? items).map Json.arr
  | .list .pairs items => (pairsOf? items).map Json.arr
  | .list _ _ => none
  | .mapping .mapping members => (entriesOf? members).map fun e => objectOf (e.1 ++ e.2)
  | .mapping .set members => (entriesOf? members).map fun e => setText (e.1 ++ e.2)
  | .mapping _ _ => none
termination_by structural node => node

/-- The values of the items of a list. -/
def valuesOf? : List Node → Option (List Json)
  | [] => some []
  | item :: items => do
    let value ← item.value?
    let values ← valuesOf? items
    some (value :: values)
termination_by structural items => items

/-- The pairs of a list of single pairs. -/
def pairsOf? : List Node → Option (List Json)
  | [] => some []
  | item :: items => do
    let pair ← pairOf? item
    let pairs ← pairsOf? items
    some (pair :: pairs)
termination_by structural items => items

/-- The pair that a mapping with one member stands for. -/
def pairOf? : Node → Option Json
  | .mapping _ members => singleOf? members
  | _ => none
termination_by structural node => node

/-- The pair that the only one of some members stands for. -/
def singleOf? : List (Node × Node) → Option Json
  | [member] => (memberOf? member).map fun pair => .arr [pair.1, pair.2]
  | _ => none
termination_by structural members => members

/-- The values of the two nodes of a member. -/
def memberOf? : Node × Node → Option (Json × Json)
  | (key, value) => do
    let key ← key.value?
    let value ← value.value?
    some (key, value)
termination_by structural member => member

/-- The entries of a mapping: those that are merged in, and its own. -/
def entriesOf? : List (Node × Node) → Option (Entries × Entries)
  | [] => some ([], [])
  | member :: members => do
    let (merged, own) ← entryOf? member
    let (moreMerged, moreOwn) ← entriesOf? members
    some (merged ++ moreMerged, own ++ moreOwn)
termination_by structural members => members

/-- The entries that a member of a mapping gives: those that are merged in, or its own one. -/
def entryOf? : Node × Node → Option (Entries × Entries)
  | (key, value) =>
    if isMergeKey key then (mergedFrom? value).map fun merged => (merged, [])
    else do
      let key ← keyValue? key
      let value ← value.value?
      some ([], [(key, value)])
termination_by structural member => member

/-- The entries of the mapping, or of the mappings, under a merge key. -/
def mergedFrom? : Node → Option Entries
  | .mapping _ members => (entriesOf? members).map fun e => e.1 ++ e.2
  | .list _ items => mergedAll? items
  | .scalar _ _ => none
termination_by structural node => node

/-- The entries of a list of mappings, those of the first mapping coming last. -/
def mergedAll? : List Node → Option Entries
  | [] => some []
  | item :: items => do
    let entries ← mergedOne? item
    let later ← mergedAll? items
    some (later ++ entries)
termination_by structural items => items

/-- The entries of a mapping. -/
def mergedOne? : Node → Option Entries
  | .mapping _ members => (entriesOf? members).map fun e => e.1 ++ e.2
  | _ => none
termination_by structural node => node
end

/-- The value of a document; none if the text is not read. -/
def parse? (text : Text) : Option Json :=
  let text := text.unifyLineEnds
  if text.all isReadable then (tokens? text).bind onlyNode? |>.bind Node.value? else none

end Yaml
end UsageOrder
