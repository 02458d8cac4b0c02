import UsageOrder.Json.Access
import UsageOrder.Order.Prerequisites
import UsageOrder.Order.Rank

/-!
# The desired order

The desired order starts from the order of the ranks and is adjusted pass by pass until a pass
leaves it as it is.  A pass visits every name once, in the order at the start of the pass, and moves
a name that stands before one of its prerequisites to just after the last of them.

| outcome | when |
|---|---|
| `Settled` | a pass left the order as it was |
| `Unsettled.cycle` | the prerequisites have a cycle |
| `Unsettled.passes` | every allowed pass changed the order |
-/

namespace UsageOrder

/-- The desired order and the number of passes it took. -/
structure Settled (α : Type) where
  order : List α
  passes : Nat
deriving DecidableEq, Repr

/-- Why no desired order was found. -/
inductive Unsettled (α : Type) where
  | cycle (path : List α)
  | passes
deriving DecidableEq, Repr

namespace Order

variable {α : Type} [BEq α]

/-- The names by rank, names of equal rank in their given order. -/
def initial (names : List α) (rank : α → Rank) : List α :=
  names.mergeSort fun a b => (rank a).le (rank b)

/-- The places of the prerequisites of a name that stand after it. -/
def late (prerequisites : Prerequisites α) (current : List α) (name : α) : List Nat :=
  ((prerequisites.before name).filter fun other =>
    current.contains other && decide (current.idxOf name < current.idxOf other)).map current.idxOf

/-- Moves a name to just after the last of its prerequisites, if some stand after it. -/
def settleName (prerequisites : Prerequisites α) (current : List α) (name : α) : List α :=
  match (late prerequisites current name).max? with
  | none => current
  | some target => (current.eraseIdx (current.idxOf name)).insertIdx target name

/-- One pass over an order. -/
def adjust (prerequisites : Prerequisites α) (order : List α) : List α :=
  order.foldl (settleName prerequisites) order

/-- Adjusts an order until a pass leaves it as it is, in at most `left` more passes. -/
def settle (prerequisites : Prerequisites α) : (left done : Nat) → List α → Option (Settled α)
  | 0, _, _ => none
  | left + 1, done, order =>
    let adjusted := adjust prerequisites order
    if adjusted == order then some ⟨order, done + 1⟩
    else settle prerequisites left (done + 1) adjusted

/-- The desired order of names. -/
def reconcile [EquivBEq α] (names : List α) (rank : α → Rank) (prerequisites : Prerequisites α)
    (maxPasses : Nat) : Except (Unsettled α) (Settled α) :=
  match prerequisites.cycle? with
  | some path => .error (.cycle path)
  | none =>
    match settle prerequisites maxPasses 0 (initial names rank) with
    | some settled => .ok settled
    | none => .error .passes

/-! ### Names, ranks and prerequisites of any kind -/

/-- The prerequisites with every list cut short at a null: the search for a cycle takes a null for
the end of the list. -/
def followed (prerequisites : Prerequisites Name) : Prerequisites Name :=
  prerequisites.map fun entry => (entry.1, entry.2.takeWhile fun name => !(name == Name.null))

/-- A cycle among the prerequisites of names that need not be texts; a fault if the search meets
something that cannot be looked up. -/
def cycleOfNames (prerequisites : Prerequisites Name) : Except Fault (Option (List Name)) :=
  let explored := (followed prerequisites).explore
  if explored.finished.any Name.isComposite then .error .unsuitable else .ok explored.cycle

/-- The prerequisites that values list; a value that lists nothing cannot be followed. -/
def listed (prerequisites : List (Name × Json)) : Prerequisites Name :=
  prerequisites.map fun entry =>
    match entry.2.items with
    | .ok values => (entry.1, values.map Name.ofValue)
    | .error _ => (entry.1, [.composite])

/-- One pass over an order whose prerequisites are listed by values of any kind. -/
def adjustListed (prerequisites : List (Name × Json)) (order : List Name) :
    Except Fault (List Name) := do
  let order ← order.mapM Name.usable
  let concerned := prerequisites.filter fun entry => order.contains entry.1
  concerned.forM fun entry => do let _ ← entry.2.items
  .ok (adjust (listed concerned) order)

/-- The names by rank, where every name has to have a rank and the ranks have to be comparable.
Where a rank is no number, the names are inserted one by one. -/
def initialRanked (names : List Name) (ranks : Ranks) : Except Fault (List Name) := do
  let keys ← names.mapM fun name => do .ok (← ranks.require name).value
  if !Json.mutuallyComparable keys then .error .unsuitable
  else if keys.any Json.isUndefined then
    .ok (Insertion.sort (fun a b => (ranks.of a).value.less (ranks.of b).value) names)
  else .ok (initial names ranks.of)

/-- The number of passes that a value allows. -/
def passLimit (maxPasses : Json) : Except Fault Nat :=
  match maxPasses.toInt? with
  | some n => .ok n.toNat
  | none => .error .unsuitable

/-- Ends in a fault if the prerequisites have a cycle. -/
def refuseCycle (prerequisites : Prerequisites Name) : Except Fault Unit := do
  match ← cycleOfNames prerequisites with
  | some path => .error (.unresolvable (.cycle (← Name.texts path)))
  | none => .ok ()

/-- The desired order of names that all are texts with a rank, if their prerequisites have no
cycle; the allowed number of passes may be a value of any kind. -/
def settleRanked (names : List Name) (ranks : Ranks) (prerequisites : Prerequisites Name)
    (maxPasses : Json) : Except Fault (Settled Name) := do
  let start ← initialRanked names ranks
  let _ ← Name.texts start
  match settle prerequisites (← passLimit maxPasses) 0 start with
  | some settled => .ok settled
  | none => .error (.unresolvable (.unsettled maxPasses.plain))

/-- The desired order of names that all are texts with a rank. -/
def reconcileRanked (names : List Name) (ranks : Ranks) (prerequisites : Prerequisites Name)
    (maxPasses : Json) : Except Fault (Settled Name) := do
  refuseCycle prerequisites
  settleRanked names ranks prerequisites maxPasses

end Order
end UsageOrder
