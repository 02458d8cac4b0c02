/-!
# Sorting by insertion

A stable way to sort that only asks whether one item comes before another one.  The run at the start
of the list that is in order is kept, or turned around if it goes down all the way, and every further
item is put behind the last of the items that it does not come before, found by halving.

Where the items are in a proper order this gives what every stable way of sorting gives.  Where they
are not, as with items that come neither before nor after any other, the outcome depends on the steps:
these are the ones that are taken for fewer than 64 items.  Longer lists are sorted in runs that are
merged, which is left out here: for them, and without a proper order, only what holds of every way of
sorting by comparisons carries over.
-/

namespace UsageOrder
namespace Insertion

variable {α : Type}

/-- The items that go on in order behind a last one, and the rest. -/
def risingFrom (before : α → α → Bool) : α → List α → List α × List α
  | _, [] => ([], [])
  | last, item :: items =>
    if before item last then ([], item :: items)
    else
      let (run, rest) := risingFrom before item items
      (item :: run, rest)

/-- The items each of which comes before the one in front of it, and the rest. -/
def fallingFrom (before : α → α → Bool) : α → List α → List α × List α
  | _, [] => ([], [])
  | last, item :: items =>
    if before item last then
      let (run, rest) := fallingFrom before item items
      (item :: run, rest)
    else ([], item :: items)

/-- The run at the start of a list, in order, and the rest. -/
def firstRun (before : α → α → Bool) : List α → List α × List α
  | [] => ([], [])
  | [item] => ([item], [])
  | first :: second :: items =>
    if before second first then
      let (run, rest) := fallingFrom before second items
      ((first :: second :: run).reverse, rest)
    else
      let (run, rest) := risingFrom before second items
      (first :: second :: run, rest)

/-- The place of an item among sorted ones, known to lie between `low` and `high`. -/
def placeOf (before : α → α → Bool) (sorted : List α) (item : α) : Nat → Nat → Nat → Nat
  | 0, low, _ => low
  | fuel + 1, low, high =>
    if low < high then
      let middle := low + (high - low) / 2
      if sorted[middle]?.any (before item) then placeOf before sorted item fuel low middle
      else placeOf before sorted item fuel (middle + 1) high
    else low

/-- Puts an item among sorted ones. -/
def insert (before : α → α → Bool) (sorted : List α) (item : α) : List α :=
  sorted.insertIdx (placeOf before sorted item (sorted.length + 1) 0 sorted.length) item

/-- The items of a list in order. -/
def sort (before : α → α → Bool) (items : List α) : List α :=
  let (run, rest) := firstRun before items
  rest.foldl (insert before) run

end Insertion
end UsageOrder
