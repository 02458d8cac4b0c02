/-!
# Prerequisites and cycles

The prerequisites of a name are the names that have to come before it.  A cycle is searched for in
depth first order: the search keeps the names on the path to where it stands, each with the
prerequisites still to be followed, and the names it has finished.  A prerequisite that is on the
path closes a cycle.  Names are compared by `==`, which need only be an equivalence.
-/

namespace UsageOrder

/-- The prerequisites of names, keyed by the name that has them. -/
abbrev Prerequisites (α : Type) := List (α × List α)

namespace Prerequisites

variable {α : Type} [BEq α]

/-- The names that have to come before a name. -/
def before (prerequisites : Prerequisites α) (name : α) : List α :=
  (prerequisites.lookup name).getD []

/-- The names that have an entry. -/
def keys (prerequisites : Prerequisites α) : List α := prerequisites.map Prod.fst

/-- A path through the prerequisites: the names on it, last one first, each with the prerequisites
still to be followed. -/
abbrev Trail (α : Type) := List (α × List α)

/-- The names on a trail, last one first. -/
def onTrail (trail : Trail α) : List α := trail.map Prod.fst

/-- The entries that are neither finished nor on the trail. -/
def unseen (prerequisites : Prerequisites α) (finished : List α) (trail : Trail α) : Nat :=
  prerequisites.keys.countP fun key => !finished.contains key && !(onTrail trail).contains key

/-- What is left to be followed on a trail. -/
def remaining (trail : Trail α) : Nat :=
  trail.foldr (fun step rest => 2 * step.2.length + 1 + rest) 0

omit [BEq α] in
theorem remaining_cons (step : α × List α) (trail : Trail α) :
    remaining (step :: trail) = 2 * step.2.length + 1 + remaining trail := by
  simp [remaining]

theorem before_eq_nil_of_not_contains {prerequisites : Prerequisites α} {name : α}
    (h : prerequisites.keys.contains name = false) : prerequisites.before name = [] := by
  have : prerequisites.lookup name = none := by
    induction prerequisites with
    | nil => rfl
    | cons entry entries ih =>
      simp only [keys, List.map_cons, List.contains_cons, Bool.or_eq_false_iff] at h
      rw [List.lookup_cons, h.1]
      exact ih h.2
  rw [before, this, Option.getD_none]

theorem unseen_finish (prerequisites : Prerequisites α) (finished : List α) (name : α)
    (trail : Trail α) :
    prerequisites.unseen (name :: finished) trail =
      prerequisites.unseen finished ((name, []) :: trail) := by
  unfold unseen onTrail
  congr 1
  funext key
  simp only [List.map_cons, List.contains_cons, Bool.not_or]
  cases key == name <;> simp

theorem unseen_advance (prerequisites : Prerequisites α) (finished : List α) (name : α)
    (later later' : List α) (trail : Trail α) :
    prerequisites.unseen finished ((name, later) :: trail) =
      prerequisites.unseen finished ((name, later') :: trail) := rfl

theorem unseen_push_le (prerequisites : Prerequisites α) (finished : List α) (step : α × List α)
    (trail : Trail α) :
    prerequisites.unseen finished (step :: trail) ≤ prerequisites.unseen finished trail := by
  unfold unseen onTrail
  apply List.countP_mono_left
  intro key _
  simp only [List.map_cons, List.contains_cons, Bool.not_or, Bool.and_eq_true]
  rintro ⟨h₁, _, h₂⟩
  exact ⟨h₁, h₂⟩

theorem unseen_push_lt [EquivBEq α] {prerequisites : Prerequisites α} {finished : List α}
    {name : α} {trail : Trail α} (later : List α) (hkey : prerequisites.keys.contains name = true)
    (hfin : finished.contains name = false) (htrail : (onTrail trail).contains name = false) :
    prerequisites.unseen finished ((name, later) :: trail) <
      prerequisites.unseen finished trail := by
  obtain ⟨key, hmem, hname⟩ := List.contains_iff_exists_mem_beq.1 hkey
  obtain ⟨front, back, hsplit⟩ := List.append_of_mem hmem
  have mono (keys : List α) :
      keys.countP (fun key => !finished.contains key && !(name :: onTrail trail).contains key) ≤
        keys.countP (fun key => !finished.contains key && !(onTrail trail).contains key) := by
    apply List.countP_mono_left
    intro key _
    simp only [List.contains_cons, Bool.not_or, Bool.and_eq_true]
    rintro ⟨h₁, _, h₂⟩
    exact ⟨h₁, h₂⟩
  have hfront := mono front
  have hback := mono back
  have hkeyname : (key == name) = true := PartialEquivBEq.symm hname
  have hfin' : finished.contains key = false := (List.contains_congr hkeyname).trans hfin
  have htrail' : (onTrail trail).contains key = false := (List.contains_congr hkeyname).trans htrail
  unfold unseen
  rw [hsplit, List.countP_append, List.countP_append, List.countP_cons, List.countP_cons]
  simp only [onTrail, List.map_cons, List.contains_cons, hkeyname, Bool.true_or, Bool.not_true,
    Bool.and_false, Bool.false_eq_true, if_false] at *
  simp only [hfin', htrail', Bool.not_false, Bool.and_self, if_true]
  omega

/-- The part of the trail that leads from a name on it back to that name. -/
def loop (name : α) (trail : Trail α) : List α :=
  (onTrail trail).reverse.dropWhile (fun other => !(other == name)) ++ [name]

/-- What a search leads to: a cycle that it runs into, and the names that were finished. -/
structure Explored (α : Type) where
  cycle : Option (List α)
  finished : List α

/-- Follows a trail to its end or into a cycle. -/
def search [EquivBEq α] (prerequisites : Prerequisites α) (finished : List α) :
    Trail α → Explored α
  | [] => ⟨none, finished⟩
  | (name, []) :: trail => search prerequisites (name :: finished) trail
  | (name, next :: later) :: trail =>
    if (onTrail ((name, later) :: trail)).contains next then
      ⟨some (loop next ((name, later) :: trail)), finished⟩
    else if finished.contains next then search prerequisites finished ((name, later) :: trail)
    else
      search prerequisites finished
        ((next, prerequisites.before next) :: (name, later) :: trail)
termination_by trail => (prerequisites.unseen finished trail, remaining trail)
decreasing_by
  · rw [unseen_finish]
    exact Prod.Lex.right _ (by rw [remaining_cons]; simp)
  · rw [unseen_advance prerequisites finished name later (next :: later)]
    exact Prod.Lex.right _ (by simp only [remaining_cons, List.length_cons]; omega)
  · rename_i hpath hfin
    rw [Bool.not_eq_true] at hpath hfin
    rw [unseen_advance prerequisites finished name (next :: later) later]
    by_cases hkey : prerequisites.keys.contains next = true
    · exact Prod.Lex.left _ _ (unseen_push_lt _ hkey hfin hpath)
    · rw [Bool.not_eq_true] at hkey
      have hle := unseen_push_le prerequisites finished (next, prerequisites.before next)
        ((name, later) :: trail)
      rcases Nat.lt_or_eq_of_le hle with hlt | heq
      · exact Prod.Lex.left _ _ hlt
      · rw [heq]
        refine Prod.Lex.right _ ?_
        simp only [remaining_cons, before_eq_nil_of_not_contains hkey, List.length_cons,
          List.length_nil]
        omega

/-- Searches from each of some names in turn, up to the first cycle. -/
def searchFrom [EquivBEq α] (prerequisites : Prerequisites α) (finished : List α) :
    List α → Explored α
  | [] => ⟨none, finished⟩
  | name :: names =>
    if finished.contains name then searchFrom prerequisites finished names
    else
      match prerequisites.search finished [(name, prerequisites.before name)] with
      | ⟨some cycle, finished⟩ => ⟨some cycle, finished⟩
      | ⟨none, finished⟩ => searchFrom prerequisites finished names

/-- Searches from every name that has an entry. -/
def explore [EquivBEq α] (prerequisites : Prerequisites α) : Explored α :=
  prerequisites.searchFrom [] prerequisites.keys

/-- A cycle among the prerequisites: a path that ends with the name it starts with. -/
def cycle? [EquivBEq α] (prerequisites : Prerequisites α) : Option (List α) :=
  prerequisites.explore.cycle

end Prerequisites
end UsageOrder
