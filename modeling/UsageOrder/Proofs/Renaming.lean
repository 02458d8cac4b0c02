import Mathlib.Data.List.InsertIdx
import UsageOrder.Order.Reconcile

/-!
# The order does not depend on what the names are

A renaming that keeps equal names equal and different names apart changes nothing but the names: the
search for a cycle takes the same steps, and every visit moves the renamed name to the same place.
With texts for names this carries what is known of texts over to `Name`, where equality is not that
of the values.
-/

namespace UsageOrder

variable {α β : Type} [BEq α] [BEq β] {f : α → β}

/-- A map of names that keeps equal names equal and different names apart. -/
def KeepsApart (f : α → β) : Prop := ∀ a b, (f a == f b) = (a == b)

namespace KeepsApart

theorem contains_map (hf : KeepsApart f) (names : List α) (name : α) :
    (names.map f).contains (f name) = names.contains name := by
  induction names with
  | nil => rfl
  | cons first names ih =>
    rw [List.map_cons, List.contains_cons, List.contains_cons, hf name first, ih]

theorem idxOf_map (hf : KeepsApart f) (names : List α) (name : α) :
    (names.map f).idxOf (f name) = names.idxOf name := by
  induction names with
  | nil => rfl
  | cons first names ih =>
    rw [List.map_cons, List.idxOf_cons, List.idxOf_cons, hf first name, ih]

theorem beq_map (hf : KeepsApart f) (names others : List α) :
    (names.map f == others.map f) = (names == others) := by
  induction names generalizing others with
  | nil => cases others <;> rfl
  | cons first names ih =>
    cases others with
    | nil => rfl
    | cons other others =>
      rw [List.map_cons, List.map_cons, List.cons_beq_cons, List.cons_beq_cons, hf first other,
        ih others]

end KeepsApart

namespace Prerequisites

/-- An entry with all its names renamed. -/
def renameEntry (f : α → β) (entry : α × List α) : β × List β := (f entry.1, entry.2.map f)

/-- The prerequisites with all names renamed. -/
def rename (f : α → β) (prerequisites : Prerequisites α) : Prerequisites β :=
  prerequisites.map (renameEntry f)

/-- What a search leads to with all names renamed. -/
def Explored.rename (f : α → β) (explored : Explored α) : Explored β :=
  ⟨explored.cycle.map (List.map f), explored.finished.map f⟩

omit [BEq α] [BEq β] in
theorem keys_rename (prerequisites : Prerequisites α) :
    (prerequisites.rename f).keys = prerequisites.keys.map f := by
  simp [keys, rename, renameEntry, Function.comp_def]

theorem before_rename (hf : KeepsApart f) (prerequisites : Prerequisites α) (name : α) :
    (prerequisites.rename f).before (f name) = (prerequisites.before name).map f := by
  have hlookup : (prerequisites.rename f).lookup (f name) =
      (prerequisites.lookup name).map (List.map f) := by
    induction prerequisites with
    | nil => rfl
    | cons entry prerequisites ih =>
      rw [rename, List.map_cons, renameEntry, List.lookup_cons, List.lookup_cons, hf name entry.1]
      cases name == entry.1 with
      | true => rfl
      | false => exact ih
  rw [before, before, hlookup]
  cases prerequisites.lookup name <;> rfl

omit [BEq α] [BEq β] in
theorem onTrail_rename (trail : Trail α) :
    onTrail (trail.map (renameEntry f)) = (onTrail trail).map f := by
  simp [onTrail, renameEntry, Function.comp_def]

theorem loop_rename (hf : KeepsApart f) (name : α) (trail : Trail α) :
    loop (f name) (trail.map (renameEntry f)) = (loop name trail).map f := by
  have hmark : (fun other => !(other == f name)) ∘ f = fun other => !(other == name) := by
    funext other
    simp [hf other name]
  rw [loop, loop, onTrail_rename, ← List.map_reverse, List.dropWhile_map, hmark]
  simp

variable [EquivBEq α] [EquivBEq β]

/-- A search takes the same steps under other names. -/
theorem search_rename (hf : KeepsApart f) (prerequisites : Prerequisites α) (finished : List α)
    (trail : Trail α) :
    (prerequisites.rename f).search (finished.map f) (trail.map (renameEntry f)) =
      (prerequisites.search finished trail).rename f := by
  induction finished, trail using search.induct prerequisites with
  | case1 finished => rw [List.map_nil, search, search]; rfl
  | case2 finished name trail ih =>
    rw [List.map_cons, renameEntry, List.map_nil, search, search]
    exact ih
  | case3 finished name next later trail hon =>
    have hon' : (onTrail ((f name, later.map f) :: trail.map (renameEntry f))).contains (f next) =
        true := by
      rw [← hon, ← hf.contains_map, ← onTrail_rename]
      rfl
    rw [List.map_cons, renameEntry, List.map_cons, search, search, if_pos hon', if_pos hon]
    simp only [Explored.rename, Option.map_some]
    rw [← loop_rename hf]
    rfl
  | case4 finished name next later trail hon hfin ih =>
    have hon' : ¬ (onTrail ((f name, later.map f) :: trail.map (renameEntry f))).contains
        (f next) = true := by
      rw [← hf.contains_map, ← onTrail_rename] at hon
      exact hon
    have hfin' : (finished.map f).contains (f next) = true := by rw [hf.contains_map, hfin]
    rw [List.map_cons, renameEntry, List.map_cons, search, search, if_neg hon', if_neg hon,
      if_pos hfin', if_pos hfin]
    exact ih
  | case5 finished name next later trail hon hfin ih =>
    have hon' : ¬ (onTrail ((f name, later.map f) :: trail.map (renameEntry f))).contains
        (f next) = true := by
      rw [← hf.contains_map, ← onTrail_rename] at hon
      exact hon
    have hfin' : ¬ (finished.map f).contains (f next) = true := by rwa [hf.contains_map]
    rw [List.map_cons, renameEntry, List.map_cons, search, search, if_neg hon', if_neg hon,
      if_neg hfin', if_neg hfin, before_rename hf]
    exact ih

theorem searchFrom_rename (hf : KeepsApart f) (prerequisites : Prerequisites α)
    (names finished : List α) :
    (prerequisites.rename f).searchFrom (finished.map f) (names.map f) =
      (prerequisites.searchFrom finished names).rename f := by
  induction names generalizing finished with
  | nil => rfl
  | cons name names ih =>
    have hstart := search_rename hf prerequisites finished [(name, prerequisites.before name)]
    rw [List.map_cons, List.map_nil, renameEntry] at hstart
    rw [List.map_cons, searchFrom, searchFrom, hf.contains_map, before_rename hf, hstart]
    by_cases hfin : finished.contains name = true
    · rw [if_pos hfin, if_pos hfin, ih]
    · rw [if_neg hfin, if_neg hfin]
      cases prerequisites.search finished [(name, prerequisites.before name)] with
      | mk cycle finished' =>
        cases cycle with
        | some path => rfl
        | none => exact ih finished'

theorem explore_rename (hf : KeepsApart f) (prerequisites : Prerequisites α) :
    (prerequisites.rename f).explore = prerequisites.explore.rename f := by
  rw [explore, explore, keys_rename]
  exact searchFrom_rename hf prerequisites prerequisites.keys []

end Prerequisites

namespace Order

/-- A settled order with all names renamed. -/
def renameSettled (f : α → β) (settled : Settled α) : Settled β :=
  ⟨settled.order.map f, settled.passes⟩

theorem late_rename (hf : KeepsApart f) (prerequisites : Prerequisites α) (current : List α)
    (name : α) :
    late (prerequisites.rename f) (current.map f) (f name) = late prerequisites current name := by
  rw [late, late, Prerequisites.before_rename hf, List.filter_map, List.map_map]
  simp only [Function.comp_def, hf.contains_map, hf.idxOf_map]

theorem settleName_rename (hf : KeepsApart f) (prerequisites : Prerequisites α) (current : List α)
    (name : α) :
    settleName (prerequisites.rename f) (current.map f) (f name) =
      (settleName prerequisites current name).map f := by
  rw [settleName, settleName, late_rename hf, hf.idxOf_map]
  cases (late prerequisites current name).max? with
  | none => rfl
  | some target => simp only [List.eraseIdx_map, List.map_insertIdx]

theorem adjust_rename (hf : KeepsApart f) (prerequisites : Prerequisites α) (order : List α) :
    adjust (prerequisites.rename f) (order.map f) = (adjust prerequisites order).map f := by
  have hvisits : ∀ visits current : List α,
      (visits.map f).foldl (settleName (prerequisites.rename f)) (current.map f) =
        (visits.foldl (settleName prerequisites) current).map f := by
    intro visits
    induction visits with
    | nil => exact fun _ => rfl
    | cons name visits ih =>
      intro current
      rw [List.map_cons, List.foldl_cons, List.foldl_cons, settleName_rename hf, ih]
  exact hvisits order order

/-- **The passes are the same under other names.** -/
theorem settle_rename (hf : KeepsApart f) (prerequisites : Prerequisites α) (left done : Nat)
    (order : List α) :
    settle (prerequisites.rename f) left done (order.map f) =
      (settle prerequisites left done order).map (renameSettled f) := by
  induction left generalizing done order with
  | zero => rfl
  | succ left ih =>
    rw [settle, settle, adjust_rename hf, hf.beq_map]
    by_cases hfix : (adjust prerequisites order == order) = true
    · rw [if_pos hfix, if_pos hfix]
      rfl
    · rw [if_neg hfix, if_neg hfix, ih]

end Order
end UsageOrder
