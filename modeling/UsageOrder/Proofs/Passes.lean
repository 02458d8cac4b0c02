import UsageOrder.Order.Reconcile
import UsageOrder.Proofs.Precedence

/-!
# What one pass over an order does

A visit moves a name to the right over the names that it passes, and leaves all other names in the
order in which they stand (`settleName_shape`).  So of two names the first one is overtaken only by
being moved itself, and this decides which names a pass may disturb.

Call a name *satisfied* when all its prerequisites in the order stand before it.  Take any names
that are closed under prerequisites and satisfied at the start of a pass (`Steady`).  None of them
moves during the pass, and a name that only has prerequisites among them is satisfied from its visit
on, whatever the order of the visits.

| statement | what it says |
|---|---|
| `Steady.settleName`, `satisfied_settleName` | what one visit keeps and what it gains |
| `foldl_settleName_satisfied` | the same for a run of visits |
| `Steady.adjust`, `adjust_perm` | the same for a whole pass |
-/

namespace UsageOrder
namespace Order

variable {α : Type} [BEq α] [LawfulBEq α] {prerequisites : Prerequisites α}

/-! ### One visit -/

omit [BEq α] [LawfulBEq α] in
theorem insertIdx_append_length (xs ys : List α) (a : α) :
    (xs ++ ys).insertIdx xs.length a = xs ++ a :: ys := by
  induction xs with
  | nil => rfl
  | cons x xs ih => simp [ih]

omit [BEq α] [LawfulBEq α] in
/-- An item is taken out of a list and put back behind a later one. -/
theorem insertIdx_eraseIdx_behind (front passed rest : List α) (a b : α) :
    ((front ++ a :: (passed ++ b :: rest)).eraseIdx front.length).insertIdx
        (front ++ a :: passed).length a = front ++ (passed ++ b :: a :: rest) := by
  have herased : (front ++ a :: (passed ++ b :: rest)).eraseIdx front.length =
      (front ++ passed ++ [b]) ++ rest := by
    simp [List.eraseIdx_append_of_length_le]
  have hlength : (front ++ a :: passed).length = (front ++ passed ++ [b]).length := by simp
  rw [herased, hlength, insertIdx_append_length]
  simp

/-- The late prerequisites of a name are those that it precedes. -/
theorem mem_late_iff {current : List α} {name : α} {place : Nat} (hnodup : current.Nodup) :
    place ∈ late prerequisites current name ↔ ∃ other ∈ prerequisites.before name,
      Precedes current name other ∧ current.idxOf other = place := by
  have hlate : ∀ other, (current.contains other = true ∧
      current.idxOf name < current.idxOf other) ↔ Precedes current name other := fun other =>
    ⟨fun h => (precedes_iff_idxOf_lt hnodup (List.contains_iff_mem.1 h.1)).2 h.2,
      fun h => ⟨List.contains_iff_mem.2 h.mem_right, h.idxOf_lt hnodup⟩⟩
  simp [late, and_assoc, ← hlate]

/-- **What a visit does.**  The name is moved to the right over some names, the last of which is one
of its prerequisites, and none of its prerequisites is left behind it. -/
theorem settleName_shape (prerequisites : Prerequisites α) {current : List α} {name : α}
    (hnodup : current.Nodup) (hname : name ∈ current) :
    ∃ front passed rest, current = front ++ name :: (passed ++ rest) ∧
      settleName prerequisites current name = front ++ (passed ++ name :: rest) ∧
      (∀ other ∈ prerequisites.before name, other ∉ rest) ∧
      (∀ last ∈ passed.getLast?, last ∈ prerequisites.before name) := by
  obtain ⟨front, back, rfl⟩ := List.append_of_mem hname
  cases hmax : (late prerequisites (front ++ name :: back) name).max? with
  | none =>
    refine ⟨front, [], back, rfl, by simp [settleName, hmax], fun other hother hback => ?_, by simp⟩
    have hlate := (mem_late_iff hnodup).2
      ⟨other, hother, (precedes_middle_iff hnodup).2 hback, rfl⟩
    rw [List.max?_eq_none_iff.1 hmax] at hlate
    exact List.not_mem_nil hlate
  | some target =>
    obtain ⟨htarget, hgreatest⟩ := List.max?_eq_some_iff.1 hmax
    obtain ⟨last, hlast, hafter, rfl⟩ := (mem_late_iff hnodup).1 htarget
    obtain ⟨passed, rest, rfl⟩ := List.append_of_mem ((precedes_middle_iff hnodup).1 hafter)
    have hsplit : front ++ name :: (passed ++ last :: rest) =
        (front ++ name :: passed) ++ last :: rest := by simp
    have hnodupLast := hsplit ▸ hnodup
    refine ⟨front, passed ++ [last], rest, by simp, ?_, fun other hother hrest => ?_, by simpa⟩
    · have hplace : (front ++ name :: (passed ++ last :: rest)).idxOf last =
          (front ++ name :: passed).length := by
        rw [hsplit, idxOf_middle hnodupLast]
      simp only [settleName, hmax, idxOf_middle hnodup, hplace, insertIdx_eraseIdx_behind]
      simp
    · -- A prerequisite further back would have been the last one.
      have hback : other ∈ passed ++ last :: rest :=
        List.mem_append_right _ (List.mem_cons_of_mem _ hrest)
      have hbehind : Precedes (front ++ name :: (passed ++ last :: rest)) last other :=
        hsplit ▸ (precedes_middle_iff hnodupLast).2 hrest
      have hle := hgreatest _ ((mem_late_iff hnodup).2
        ⟨other, hother, (precedes_middle_iff hnodup).2 hback, rfl⟩)
      exact absurd hle (Nat.not_le.2 (hbehind.idxOf_lt hnodup))

theorem settleName_perm (prerequisites : Prerequisites α) {current : List α} {name : α}
    (hnodup : current.Nodup) (hname : name ∈ current) :
    (settleName prerequisites current name).Perm current := by
  obtain ⟨front, passed, rest, rfl, hafter, -, -⟩ :=
    settleName_shape prerequisites hnodup hname
  rw [hafter]
  exact List.perm_middle.append_left front

/-- Of two names the first one is overtaken only by being moved itself. -/
theorem Precedes.settleName {current : List α} {name a b : α} (h : Precedes current a b)
    (hnodup : current.Nodup) (hname : name ∈ current) (hne : a ≠ name) :
    Precedes (settleName prerequisites current name) a b := by
  obtain ⟨front, passed, rest, rfl, hafter, -, -⟩ :=
    settleName_shape prerequisites hnodup hname
  rw [hafter, precedes_moved_iff hnodup (List.Perm.refl rest) h]
  refine ⟨fun hmoved => hne hmoved.1, fun ha => ?_⟩
  have hsplit : front ++ name :: (passed ++ rest) = (front ++ name :: passed) ++ rest := by simp
  rw [hsplit] at h hnodup
  exact (precedes_append_right_iff hnodup ha).1 h

/-- After its visit a name stands behind its prerequisites. -/
theorem precedes_settleName {current : List α} {name other : α} (hnodup : current.Nodup)
    (hname : name ∈ current) (hother : other ∈ prerequisites.before name)
    (hmem : other ∈ current) (hne : other ≠ name) :
    Precedes (settleName prerequisites current name) other name := by
  obtain ⟨front, passed, rest, rfl, hafter, hrest, -⟩ :=
    settleName_shape prerequisites hnodup hname
  have hnotRest := hrest other hother
  rw [hafter, ← List.append_assoc, precedes_append_iff]
  refine Or.inr (Or.inl ⟨?_, List.mem_cons_self ..⟩)
  simp only [List.mem_append, List.mem_cons, hne, hnotRest, false_or, or_false] at hmem ⊢
  exact hmem

/-! ### Satisfied names -/

/-- All prerequisites of a name that are in the order stand before it. -/
def Satisfied (prerequisites : Prerequisites α) (order : List α) (name : α) : Prop :=
  ∀ other ∈ prerequisites.before name, other ∈ order → Precedes order other name

/-- A satisfied name stays where it is. -/
theorem Satisfied.settleName_eq {current : List α} {name : α}
    (h : Satisfied prerequisites current name) (hnodup : current.Nodup) (hname : name ∈ current) :
    settleName prerequisites current name = current := by
  obtain ⟨front, passed, rest, rfl, hafter, -, hlast⟩ :=
    settleName_shape prerequisites hnodup hname
  rw [hafter]
  rcases List.eq_nil_or_concat' passed with rfl | ⟨passed', last, rfl⟩
  · simp
  · -- The last name passed would be a prerequisite that stands behind the name.
    have hbehind : Precedes (front ++ name :: (passed' ++ [last] ++ rest)) name last := by
      simp [precedes_append_iff, precedes_cons_iff]
    have hbefore := h last (hlast last (by simp)) hbehind.mem_right
    exact absurd hbehind (hbefore.asymm hnodup)

/-- Names that are closed under the prerequisites in the order and satisfied. -/
structure Steady (prerequisites : Prerequisites α) (kept : α → Prop) (order : List α) : Prop where
  nodup : order.Nodup
  closed : ∀ name ∈ order, kept name → ∀ other ∈ prerequisites.before name, other ∈ order →
    kept other
  satisfied : ∀ name ∈ order, kept name → Satisfied prerequisites order name

/-- A visit keeps every steady name satisfied. -/
theorem Steady.settleName {kept : α → Prop} {current : List α} {name : α}
    (h : Steady prerequisites kept current) (hname : name ∈ current) :
    Steady prerequisites kept (settleName prerequisites current name) := by
  have hperm := settleName_perm prerequisites h.nodup hname
  by_cases hkept : kept name
  · rw [(h.satisfied name hname hkept).settleName_eq h.nodup hname]
    exact h
  · refine ⟨hperm.nodup_iff.2 h.nodup, fun x hx hkx other hother hmem => ?_,
      fun x hx hkx other hother hmem => ?_⟩
    · exact h.closed x (hperm.mem_iff.1 hx) hkx other hother (hperm.mem_iff.1 hmem)
    · have hx' := hperm.mem_iff.1 hx
      have hmem' := hperm.mem_iff.1 hmem
      have hne : other ≠ name := fun heq => hkept (heq ▸ h.closed x hx' hkx other hother hmem')
      exact (h.satisfied x hx' hkx other hother hmem').settleName h.nodup hname hne

/-- A name whose prerequisites are steady stays satisfied, whoever is visited. -/
theorem Satisfied.settleName {kept : α → Prop} {current : List α} {name x : α}
    (h : Steady prerequisites kept current) (hname : name ∈ current)
    (hx : ∀ other ∈ prerequisites.before x, other ∈ current → kept other)
    (hsat : Satisfied prerequisites current x) :
    Satisfied prerequisites (Order.settleName prerequisites current name) x := by
  have hperm := settleName_perm prerequisites h.nodup hname
  intro other hother hmem
  have hmem' := hperm.mem_iff.1 hmem
  by_cases hne : other = name
  · have hkept := hx other hother hmem'
    rw [← hne] at hname ⊢
    rw [(h.satisfied other hname hkept).settleName_eq h.nodup hname]
    exact hsat other hother hmem'
  · exact (hsat other hother hmem').settleName h.nodup hname hne

/-- A name whose prerequisites are steady is satisfied once it is visited. -/
theorem satisfied_settleName {kept : α → Prop} {current : List α} {name : α}
    (h : Steady prerequisites kept current) (hname : name ∈ current)
    (hx : ∀ other ∈ prerequisites.before name, other ∈ current → kept other) :
    Satisfied prerequisites (Order.settleName prerequisites current name) name := by
  have hperm := settleName_perm prerequisites h.nodup hname
  intro other hother hmem
  have hmem' := hperm.mem_iff.1 hmem
  by_cases hne : other = name
  · -- A name that requires itself would be steady, hence stand before itself.
    subst hne
    have hself := h.satisfied other hname (hx other hother hmem') other hother hmem'
    exact absurd rfl (hself.ne h.nodup)
  · exact precedes_settleName h.nodup hname hother hmem' hne

/-! ### A whole pass -/

/-- What the visits of some names leave: the names are the same, what was steady still is, and the
visited names with steady prerequisites are satisfied, as are those that were satisfied before. -/
theorem foldl_settleName_satisfied {kept : α → Prop} {visits current : List α}
    (h : Steady prerequisites kept current) (hvisits : visits ⊆ current) :
    (visits.foldl (settleName prerequisites) current).Perm current ∧
      Steady prerequisites kept (visits.foldl (settleName prerequisites) current) ∧
      ∀ name, (∀ other ∈ prerequisites.before name, other ∈ current → kept other) →
        name ∈ visits ∨ Satisfied prerequisites current name →
          Satisfied prerequisites (visits.foldl (settleName prerequisites) current) name := by
  induction visits generalizing current with
  | nil =>
    exact ⟨List.Perm.refl _, h, fun name _ hsat => hsat.resolve_left List.not_mem_nil⟩
  | cons visited visits ih =>
    obtain ⟨hvisited, hvisits⟩ := List.cons_subset.1 hvisits
    have hperm := settleName_perm prerequisites h.nodup hvisited
    obtain ⟨hperm', hsteady, hsat'⟩ := ih (h.settleName hvisited)
      fun name hname => hperm.mem_iff.2 (hvisits hname)
    refine ⟨hperm'.trans hperm, hsteady, fun name hname hsat => ?_⟩
    apply hsat' name fun other hother hmem => hname other hother (hperm.mem_iff.1 hmem)
    rcases hsat with hmem | hsat
    · rcases List.mem_cons.1 hmem with rfl | hmem
      · exact Or.inr (satisfied_settleName h hvisited hname)
      · exact Or.inl hmem
    · exact Or.inr (hsat.settleName h hvisited hname)

/-- A pass keeps what is steady, and satisfies every name whose prerequisites are steady. -/
theorem Steady.adjust {kept : α → Prop} {order : List α} (h : Steady prerequisites kept order) :
    Steady prerequisites kept (adjust prerequisites order) ∧
      ∀ name ∈ order, (∀ other ∈ prerequisites.before name, other ∈ order → kept other) →
        Satisfied prerequisites (Order.adjust prerequisites order) name := by
  obtain ⟨-, hsteady, hsat⟩ := foldl_settleName_satisfied h (List.Subset.refl order)
  exact ⟨hsteady, fun name hmem hname => hsat name hname (Or.inl hmem)⟩

/-- A pass only rearranges the names. -/
theorem adjust_perm (prerequisites : Prerequisites α) {order : List α} (hnodup : order.Nodup) :
    (adjust prerequisites order).Perm order := by
  have hsteady : Steady prerequisites (fun _ => False) order :=
    ⟨hnodup, fun _ _ h => h.elim, fun _ _ h => h.elim⟩
  exact (foldl_settleName_satisfied hsteady (List.Subset.refl order)).1

/-- A pass over names that are all satisfied moves none of them. -/
theorem adjust_eq_self {order : List α} (hnodup : order.Nodup)
    (h : ∀ name ∈ order, Satisfied prerequisites order name) :
    adjust prerequisites order = order := by
  have hvisits : ∀ visits ⊆ order, visits.foldl (settleName prerequisites) order = order := by
    intro visits hsub
    induction visits with
    | nil => rfl
    | cons visited visits ih =>
      obtain ⟨hvisited, hsub⟩ := List.cons_subset.1 hsub
      rw [List.foldl_cons, (h visited hvisited).settleName_eq hnodup hvisited]
      exact ih hsub
  exact hvisits order (List.Subset.refl order)

end Order
end UsageOrder
