import UsageOrder.Proofs.Levels

/-!
# A part of an order that settles by itself

Take some names of an order whose prerequisites in the order are all among them (`ClosedIn`).  The
visits of other names change nothing about the order of these, and their own visits do not look at
the others.  So the passes act on the part as they would if it stood alone (`filter_adjust`), and a
run that settles the whole order settles the part in no more passes (`settle_filter`).

Conversely, names at the end of an order that are satisfied there and required by none in front of
them stay where they are, whatever happens in front (`adjust_append`, `settle_append`).

What a visit does is decided by the names that are required, not by how they are listed
(`settle_congr`).
-/

namespace UsageOrder
namespace Order

variable {α : Type} [BEq α] [LawfulBEq α] {prerequisites : Prerequisites α}

/-! ### One visit -/

/-- **Where a visit leaves a name.**  It passes the names up to the last of its prerequisites and
none behind that. -/
theorem settleName_eq {front passed rest : List α} {name : α}
    (hnodup : (front ++ name :: (passed ++ rest)).Nodup)
    (hrest : ∀ other ∈ prerequisites.before name, other ∉ rest)
    (hlast : ∀ last ∈ passed.getLast?, last ∈ prerequisites.before name) :
    settleName prerequisites (front ++ name :: (passed ++ rest)) name =
      front ++ (passed ++ name :: rest) := by
  have hmem : name ∈ front ++ name :: (passed ++ rest) := by simp
  obtain ⟨front', passed', rest', hsplit, hafter, hrest', hlast'⟩ :=
    settleName_shape prerequisites hnodup hmem
  rw [hafter]
  have hname : name ∉ front ∧ name ∉ passed ++ rest := by
    obtain ⟨-, hbehind, hdisjoint⟩ := List.nodup_append.1 hnodup
    exact ⟨fun h => hdisjoint name h name (List.mem_cons_self ..) rfl,
      (List.nodup_cons.1 hbehind).1⟩
  obtain ⟨rfl, -, hback⟩ := (List.append_cons_inj_of_notMem hname.1 hname.2).1 hsplit
  -- Of two places for the end of what is passed the later one has a prerequisite in front of it.
  rcases List.append_eq_append_iff.1 hback with ⟨more, rfl, rfl⟩ | ⟨more, rfl, rfl⟩
  · rcases List.eq_nil_or_concat' more with rfl | ⟨more, last, rfl⟩
    · simp
    · exact absurd (by simp) (hrest last (hlast' last (by simp)))
  · rcases List.eq_nil_or_concat' more with rfl | ⟨more, last, rfl⟩
    · simp
    · exact absurd (by simp) (hrest' last (hlast last (by simp)))

/-- A visit does the same for prerequisites that list the same names. -/
theorem settleName_congr {others : Prerequisites α} {current : List α} {name : α}
    (hnodup : current.Nodup) (hname : name ∈ current)
    (h : ∀ other, other ∈ prerequisites.before name ↔ other ∈ others.before name) :
    settleName prerequisites current name = settleName others current name := by
  obtain ⟨front, passed, rest, rfl, hafter, hrest, hlast⟩ :=
    settleName_shape prerequisites hnodup hname
  rw [hafter]
  refine (settleName_eq hnodup (fun other hother => ?_) fun last hmem => ?_).symm
  · exact hrest other ((h other).2 hother)
  · exact (h last).1 (hlast last hmem)

/-! ### A part -/

/-- The prerequisites of the kept names of an order that are in the order are kept too. -/
def ClosedIn (prerequisites : Prerequisites α) (kept : α → Bool) (order : List α) : Prop :=
  ∀ name ∈ order, kept name = true → ∀ other ∈ prerequisites.before name, other ∈ order →
    kept other = true

omit [LawfulBEq α] in
theorem ClosedIn.perm {kept : α → Bool} {order order' : List α}
    (h : ClosedIn prerequisites kept order) (hperm : order'.Perm order) :
    ClosedIn prerequisites kept order' := fun name hname hkept other hother hmem =>
  h name (hperm.mem_iff.1 hname) hkept other hother (hperm.mem_iff.1 hmem)

/-- The visit of a kept name is one of the part alone, and other visits leave the part as it is. -/
theorem filter_settleName {kept : α → Bool} {current : List α} {name : α}
    (hclosed : ClosedIn prerequisites kept current) (hnodup : current.Nodup)
    (hname : name ∈ current) :
    (settleName prerequisites current name).filter kept =
      if kept name then settleName prerequisites (current.filter kept) name
      else current.filter kept := by
  obtain ⟨front, passed, rest, rfl, hafter, hrest, hlast⟩ :=
    settleName_shape prerequisites hnodup hname
  rw [hafter]
  by_cases hkept : kept name = true
  · have hpart : (front ++ name :: (passed ++ rest)).filter kept =
        front.filter kept ++ name :: (passed.filter kept ++ rest.filter kept) := by
      simp [hkept]
    have hnodup' := hnodup.filter kept
    rw [if_pos hkept, hpart]
    rw [hpart] at hnodup'
    rw [settleName_eq hnodup']
    · simp [hkept]
    · exact fun other hother hmem => hrest other hother (List.mem_filter.1 hmem).1
    · -- The last name that is passed is a prerequisite, so it belongs to the part.
      rcases List.eq_nil_or_concat' passed with rfl | ⟨passed, last, rfl⟩
      · simp
      · have hbefore := hlast last (by simp)
        have hlastKept := hclosed name hname hkept last hbefore (by simp)
        simp [hlastKept, hbefore]
  · rw [if_neg hkept]
    simp [hkept]

theorem filter_foldl_settleName {kept : α → Bool} {visits current : List α}
    (hclosed : ClosedIn prerequisites kept current) (hnodup : current.Nodup)
    (hvisits : visits ⊆ current) :
    (visits.foldl (settleName prerequisites) current).filter kept =
      (visits.filter kept).foldl (settleName prerequisites) (current.filter kept) := by
  induction visits generalizing current with
  | nil => rfl
  | cons name visits ih =>
    obtain ⟨hname, hvisits⟩ := List.cons_subset.1 hvisits
    have hperm := settleName_perm prerequisites hnodup hname
    rw [List.foldl_cons, ih (hclosed.perm hperm) (hperm.nodup_iff.2 hnodup)
      fun other hother => hperm.mem_iff.2 (hvisits hother),
      filter_settleName hclosed hnodup hname]
    by_cases hkept : kept name = true
    · rw [if_pos hkept, List.filter_cons_of_pos hkept, List.foldl_cons]
    · rw [if_neg hkept, List.filter_cons_of_neg hkept]

/-- **A pass acts on a closed part as if it stood alone.** -/
theorem filter_adjust {kept : α → Bool} {order : List α}
    (hclosed : ClosedIn prerequisites kept order) (hnodup : order.Nodup) :
    (adjust prerequisites order).filter kept = adjust prerequisites (order.filter kept) :=
  filter_foldl_settleName hclosed hnodup (List.Subset.refl order)

/-- An order that a pass leaves as it is is settled at once. -/
theorem settle_of_adjust_eq {order : List α} (hfix : adjust prerequisites order = order)
    {left done : Nat} {settled : Settled α}
    (h : settle prerequisites left done order = some settled) : settled = ⟨order, done + 1⟩ := by
  cases left with
  | zero => exact absurd h (by simp [settle])
  | succ left =>
    rw [settle, if_pos (by rw [hfix]; exact beq_self_eq_true order)] at h
    exact (Option.some.inj h).symm

/-- **A run that settles an order settles each closed part of it,** in no more passes. -/
theorem settle_filter {kept : α → Bool} {left done : Nat} {order : List α} {settled : Settled α}
    (hclosed : ClosedIn prerequisites kept order) (hnodup : order.Nodup)
    (h : settle prerequisites left done order = some settled) :
    ∃ passes ≤ settled.passes, settle prerequisites left done (order.filter kept) =
      some ⟨settled.order.filter kept, passes⟩ := by
  induction left generalizing done order with
  | zero => exact absurd h (by simp [settle])
  | succ left ih =>
    have hpart := filter_adjust hclosed hnodup
    by_cases hfix : adjust prerequisites order = order
    · obtain rfl := settle_of_adjust_eq hfix h
      rw [hfix] at hpart
      exact ⟨done + 1, Nat.le_refl _, by rw [settle, ← hpart, if_pos (beq_self_eq_true _)]⟩
    · have hperm := adjust_perm prerequisites hnodup
      rw [settle, if_neg (by simpa using hfix)] at h
      obtain ⟨passes, hpasses, hsettle⟩ :=
        ih (hclosed.perm hperm) (hperm.nodup_iff.2 hnodup) h
      rw [hpart] at hsettle
      rw [settle]
      by_cases hfixPart : adjust prerequisites (order.filter kept) = order.filter kept
      · -- The part is settled already and stays so while the rest is moved.
        rw [hfixPart] at hsettle
        have hsame := settle_of_adjust_eq hfixPart hsettle
        rw [Settled.mk.injEq] at hsame
        exact ⟨done + 1, by omega, by rw [if_pos (by rw [hfixPart]; exact beq_self_eq_true _),
          hsame.1]⟩
      · exact ⟨passes, hpasses, by rw [if_neg (by simpa using hfixPart), hsettle]⟩

/-! ### Names that stay at the end -/

theorem settleName_append {front back : List α} {name : α} (hnodup : (front ++ back).Nodup)
    (hname : name ∈ front) (hback : ∀ other ∈ prerequisites.before name, other ∉ back) :
    settleName prerequisites (front ++ back) name =
      settleName prerequisites front name ++ back := by
  obtain ⟨before, passed, rest, rfl, hafter, hrest, hlast⟩ :=
    settleName_shape prerequisites hnodup.of_append_left hname
  have hsplit : before ++ name :: (passed ++ rest) ++ back =
      before ++ name :: (passed ++ (rest ++ back)) := by simp
  rw [hsplit] at hnodup ⊢
  rw [hafter, settleName_eq hnodup _ hlast]
  · simp
  · intro other hother hmem
    rcases List.mem_append.1 hmem with hmem | hmem
    · exact hrest other hother hmem
    · exact hback other hother hmem

theorem foldl_settleName_append {visits front back : List α} (hnodup : (front ++ back).Nodup)
    (hvisits : visits ⊆ front)
    (hback : ∀ name ∈ front, ∀ other ∈ prerequisites.before name, other ∉ back) :
    visits.foldl (settleName prerequisites) (front ++ back) =
      visits.foldl (settleName prerequisites) front ++ back := by
  induction visits generalizing front with
  | nil => rfl
  | cons name visits ih =>
    obtain ⟨hname, hvisits⟩ := List.cons_subset.1 hvisits
    have hperm := settleName_perm prerequisites hnodup.of_append_left hname
    rw [List.foldl_cons, List.foldl_cons, settleName_append hnodup hname (hback name hname)]
    refine ih ((hperm.append_right back).nodup_iff.2 hnodup)
      (fun other hother => hperm.mem_iff.2 (hvisits hother)) fun other hother => ?_
    exact hback other (hperm.mem_iff.1 hother)

omit [LawfulBEq α] in
/-- What stands in front of a satisfied name may be rearranged. -/
theorem Satisfied.of_perm_front {front front' back : List α} {name : α}
    (h : Satisfied prerequisites (front ++ back) name) (hperm : front'.Perm front)
    (hnodup : (front ++ back).Nodup) (hname : name ∈ back) :
    Satisfied prerequisites (front' ++ back) name := by
  intro other hother hmem
  have hnot : name ∉ front := fun hfront => List.disjoint_of_nodup_append hnodup hfront hname
  rw [precedes_append_iff]
  rcases precedes_append_iff.1 (h other hother ((hperm.append_right back).mem_iff.1 hmem)) with
    hfront | ⟨hfront, -⟩ | hback
  · exact absurd hfront.mem_right hnot
  · exact Or.inr (Or.inl ⟨hperm.mem_iff.2 hfront, hname⟩)
  · exact Or.inr (Or.inr hback)

/-- **A pass leaves satisfied names at the end alone** if none in front of them requires one of
them. -/
theorem adjust_append {front back : List α} (hnodup : (front ++ back).Nodup)
    (hfront : ∀ name ∈ front, ∀ other ∈ prerequisites.before name, other ∉ back)
    (hback : ∀ name ∈ back, Satisfied prerequisites (front ++ back) name) :
    adjust prerequisites (front ++ back) = adjust prerequisites front ++ back := by
  have hperm : (adjust prerequisites front).Perm front :=
    adjust_perm prerequisites hnodup.of_append_left
  have hstay : ∀ visits ⊆ back, visits.foldl (settleName prerequisites)
      (adjust prerequisites front ++ back) = adjust prerequisites front ++ back := by
    intro visits hvisits
    induction visits with
    | nil => rfl
    | cons name visits ih =>
      obtain ⟨hname, hvisits⟩ := List.cons_subset.1 hvisits
      have hsat := (hback name hname).of_perm_front hperm hnodup hname
      rw [List.foldl_cons, hsat.settleName_eq ((hperm.append_right back).nodup_iff.2 hnodup)
        (List.mem_append_right _ hname)]
      exact ih hvisits
  rw [adjust, List.foldl_append, foldl_settleName_append hnodup (List.Subset.refl front) hfront]
  exact hstay back (List.Subset.refl back)

theorem settle_append {front back : List α} {left done : Nat} {settled : Settled α}
    (hnodup : (front ++ back).Nodup)
    (hfront : ∀ name ∈ front, ∀ other ∈ prerequisites.before name, other ∉ back)
    (hback : ∀ name ∈ back, Satisfied prerequisites (front ++ back) name)
    (h : settle prerequisites left done front = some settled) :
    settle prerequisites left done (front ++ back) =
      some ⟨settled.order ++ back, settled.passes⟩ := by
  induction left generalizing done front with
  | zero => exact absurd h (by simp [settle])
  | succ left ih =>
    rw [settle, adjust_append hnodup hfront hback]
    by_cases hfix : adjust prerequisites front = front
    · obtain rfl := settle_of_adjust_eq hfix h
      rw [hfix, if_pos (beq_self_eq_true _)]
    · have hperm : (adjust prerequisites front).Perm front :=
        adjust_perm prerequisites hnodup.of_append_left
      rw [settle, if_neg (by simpa using hfix)] at h
      rw [if_neg (by simpa using hfix)]
      refine ih ((hperm.append_right back).nodup_iff.2 hnodup)
        (fun name hname => hfront name (hperm.mem_iff.1 hname)) (fun name hname => ?_) h
      exact (hback name hname).of_perm_front hperm hnodup hname

/-! ### Prerequisites that list the same names -/

theorem settle_congr {others : Prerequisites α} {order : List α} (hnodup : order.Nodup)
    (h : ∀ name ∈ order, ∀ other,
      other ∈ prerequisites.before name ↔ other ∈ others.before name) (left done : Nat) :
    settle prerequisites left done order = settle others left done order := by
  have hvisits : ∀ visits current : List α, visits ⊆ current → current.Perm order →
      visits.foldl (settleName prerequisites) current =
        visits.foldl (settleName others) current := by
    intro visits
    induction visits with
    | nil => exact fun _ _ _ => rfl
    | cons name visits ih =>
      intro current hsub hperm
      obtain ⟨hname, hsub⟩ := List.cons_subset.1 hsub
      have hcurrent := hperm.nodup_iff.2 hnodup
      have hperm' := settleName_perm others hcurrent hname
      rw [List.foldl_cons, List.foldl_cons,
        settleName_congr hcurrent hname (h name (hperm.mem_iff.1 hname))]
      exact ih _ (fun other hother => hperm'.mem_iff.2 (hsub hother)) (hperm'.trans hperm)
  induction left generalizing done order with
  | zero => rfl
  | succ left ih =>
    have hadjust : adjust prerequisites order = adjust others order :=
      hvisits order order (List.Subset.refl order) (List.Perm.refl order)
    have hperm := adjust_perm others hnodup
    rw [settle, settle, hadjust]
    split
    · rfl
    · refine ih (hperm.nodup_iff.2 hnodup) (fun name hname => h name (hperm.mem_iff.1 hname))
        (done + 1) fun visits current hsub hperm' => hvisits visits current hsub ?_
      exact hperm'.trans hperm

end Order
end UsageOrder
