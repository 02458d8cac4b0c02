import UsageOrder.Fault
import UsageOrder.Order.Insertion

/-!
# The order of values

Numbers are compared by size, texts by their code points, and lists by the first items that differ.
Values of different kinds, and two objects, cannot be compared, and a list of values two of which
cannot be compared cannot be sorted.

| statement | rule |
|---|---|
| `Json.less?` | whether a value is less than another one, none if they cannot be compared |
| `Json.sortBy` | stable sorting by a key |
-/

namespace UsageOrder
namespace Json

/-- Equality of two items of lists: the value that is no number equals itself there. -/
def alike (a b : Json) : Bool := a.same b || (a.isUndefined && b.isUndefined)

mutual
/-- Whether a value is less than another one; none if they cannot be compared. -/
def less? : Json → Json → Option Bool
  | .arr items, .arr others => lessItems? items others
  | .str s, .str t => some (!Text.le t.toList s.toList)
  | a, b =>
    match a.size?, b.size? with
    | some x, some y => some (x.less y)
    | _, _ => none
termination_by structural a => a

/-- Whether a list is less than another one: by the first items that differ. -/
def lessItems? : List Json → List Json → Option Bool
  | [], [] => some false
  | [], _ :: _ => some true
  | _ :: _, [] => some false
  | item :: items, other :: others =>
    if item.alike other then lessItems? items others else less? item other
termination_by structural items => items
end

/-- Whether a value is less than another one. -/
def less (a b : Json) : Bool := (less? a b).getD false

/-- Whether a value is not greater than another one. -/
def notGreater (a b : Json) : Bool := !less b a

/-- Whether each two of some values can be compared. -/
def mutuallyComparable (values : List Json) : Bool :=
  values.all (fun value => value.size?.isSome) || values.all (fun value => value.text?.isSome) ||
    values.zipIdx.all fun a => values.zipIdx.all fun b =>
      a.2 == b.2 || (less? a.1 b.1).isSome

/-- Items in the order of their keys, from the least to the greatest; items with equal keys keep
their order. -/
def sortBy {α : Type} (keyed : List (Json × α)) : Except Fault (List α) :=
  if !mutuallyComparable (keyed.map Prod.fst) then .error .unsuitable
  else if keyed.any fun item => item.1.isUndefined then
    .ok ((Insertion.sort (fun a b => less a.1 b.1) keyed).map Prod.snd)
  else .ok ((keyed.mergeSort fun a b => notGreater a.1 b.1).map Prod.snd)

end Json
end UsageOrder
