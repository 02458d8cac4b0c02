import Mathlib.Data.List.Nodup

/-!
# Which of two names stands first

`Order.Precedes order first second` says that one name stands somewhere before another one.  In an
order without repetitions it is a strict total order of the names, and it says the same as a
comparison of their places.  Moving one name further on changes its own order with the names that it
passes and nothing else (`precedes_moved_iff`).
-/

namespace UsageOrder
namespace Order

variable {α : Type}

/-- A name stands somewhere before another one. -/
def Precedes (order : List α) (first second : α) : Prop := [first, second].Sublist order

@[simp] theorem not_precedes_nil (a b : α) : ¬ Precedes [] a b := by
  simp [Precedes]

theorem precedes_cons_iff {x a b : α} {order : List α} :
    Precedes (x :: order) a b ↔ (a = x ∧ b ∈ order) ∨ Precedes order a b := by
  unfold Precedes
  constructor
  · intro h
    cases h with
    | cons _ h => exact Or.inr h
    | cons_cons _ h => exact Or.inl ⟨rfl, List.singleton_sublist.1 h⟩
  · rintro (⟨rfl, h⟩ | h)
    · exact List.Sublist.cons_cons _ (List.singleton_sublist.2 h)
    · exact List.Sublist.cons _ h

theorem precedes_append_iff {xs ys : List α} {a b : α} :
    Precedes (xs ++ ys) a b ↔ Precedes xs a b ∨ (a ∈ xs ∧ b ∈ ys) ∨ Precedes ys a b := by
  induction xs with
  | nil => simp
  | cons x xs ih =>
    rw [List.cons_append, precedes_cons_iff, precedes_cons_iff, ih, List.mem_append, List.mem_cons]
    constructor
    · rintro (⟨ha, hb | hb⟩ | h | ⟨ha, hb⟩ | h)
      · exact Or.inl (Or.inl ⟨ha, hb⟩)
      · exact Or.inr (Or.inl ⟨Or.inl ha, hb⟩)
      · exact Or.inl (Or.inr h)
      · exact Or.inr (Or.inl ⟨Or.inr ha, hb⟩)
      · exact Or.inr (Or.inr h)
    · rintro ((⟨ha, hb⟩ | h) | ⟨ha | ha, hb⟩ | h)
      · exact Or.inl ⟨ha, Or.inl hb⟩
      · exact Or.inr (Or.inl h)
      · exact Or.inl ⟨ha, Or.inr hb⟩
      · exact Or.inr (Or.inr (Or.inl ⟨ha, hb⟩))
      · exact Or.inr (Or.inr (Or.inr h))

theorem Precedes.mem_left {order : List α} {a b : α} (h : Precedes order a b) : a ∈ order :=
  h.subset (List.mem_cons_self ..)

theorem Precedes.mem_right {order : List α} {a b : α} (h : Precedes order a b) : b ∈ order :=
  h.subset (List.mem_cons_of_mem _ (List.mem_cons_self ..))

theorem Precedes.ne {order : List α} {a b : α} (h : Precedes order a b) (hnodup : order.Nodup) :
    a ≠ b := by
  have hpair := h.nodup hnodup
  simpa using hpair

theorem Precedes.asymm {order : List α} {a b : α} (h : Precedes order a b)
    (hnodup : order.Nodup) : ¬ Precedes order b a := by
  induction order with
  | nil => exact absurd h (not_precedes_nil a b)
  | cons x order ih =>
    obtain ⟨hx, hnodup⟩ := List.nodup_cons.1 hnodup
    rcases precedes_cons_iff.1 h with ⟨rfl, hb⟩ | h
    · intro hba
      rcases precedes_cons_iff.1 hba with ⟨rfl, ha⟩ | hba
      · exact hx ha
      · exact hx hba.mem_right
    · intro hba
      rcases precedes_cons_iff.1 hba with ⟨hbx, _⟩ | hba
      · exact hx (hbx ▸ h.mem_right)
      · exact ih h hnodup hba

theorem precedes_total {order : List α} {a b : α} (ha : a ∈ order) (hb : b ∈ order) (hne : a ≠ b) :
    Precedes order a b ∨ Precedes order b a := by
  induction order with
  | nil => exact absurd ha List.not_mem_nil
  | cons x order ih =>
    rw [precedes_cons_iff, precedes_cons_iff]
    rcases List.mem_cons.1 ha with rfl | ha'
    · exact Or.inl (Or.inl ⟨rfl, (List.mem_cons.1 hb).resolve_left hne.symm⟩)
    rcases List.mem_cons.1 hb with rfl | hb'
    · exact Or.inr (Or.inl ⟨rfl, ha'⟩)
    · exact (ih ha' hb').imp Or.inr Or.inr

theorem precedes_append_right_iff {front rest : List α} {a b : α} (hnodup : (front ++ rest).Nodup)
    (ha : a ∈ rest) : Precedes (front ++ rest) a b ↔ Precedes rest a b := by
  have hnot : a ∉ front := fun ha' => List.disjoint_of_nodup_append hnodup ha' ha
  rw [precedes_append_iff]
  constructor
  · rintro (hab | ⟨ha', -⟩ | hab)
    · exact absurd hab.mem_left hnot
    · exact absurd ha' hnot
    · exact hab
  · exact fun hab => Or.inr (Or.inr hab)

theorem precedes_middle_iff {front rest : List α} {a b : α} (hnodup : (front ++ a :: rest).Nodup) :
    Precedes (front ++ a :: rest) a b ↔ b ∈ rest := by
  have hnot : a ∉ rest := (List.nodup_cons.1 hnodup.of_append_right).1
  rw [precedes_append_right_iff hnodup (List.mem_cons_self ..), precedes_cons_iff]
  constructor
  · rintro (⟨-, hb⟩ | hab)
    · exact hb
    · exact absurd hab.mem_left hnot
  · exact fun hb => Or.inl ⟨rfl, hb⟩

/-- Two arrangements in which the same names stand before one another are one. -/
theorem eq_of_precedes {order order' : List α} (hperm : order.Perm order')
    (hnodup : order'.Nodup) (h : ∀ a b, Precedes order a b → Precedes order' a b) :
    order = order' := by
  refine List.Perm.eq_of_pairwise (fun a b _ _ hab hba => ?_)
    (List.pairwise_iff_forall_sublist.2 fun hab => h _ _ hab)
    (List.pairwise_iff_forall_sublist.2 fun hab => hab) hperm
  exact absurd hba (hab.asymm hnodup)

/-- Of two neighbours the first one stands before the second one. -/
theorem precedes_of_mem_zip {order : List α} {a b : α} (h : (a, b) ∈ order.zip (order.drop 1)) :
    Precedes order a b := by
  induction order with
  | nil => exact absurd h List.not_mem_nil
  | cons x order ih =>
    rw [precedes_cons_iff]
    cases order with
    | nil => exact absurd h List.not_mem_nil
    | cons y order =>
      rw [List.drop_one, List.tail_cons, List.zip_cons_cons, List.mem_cons] at h
      rcases h with h | h
      · obtain ⟨rfl, rfl⟩ := Prod.mk.inj h
        exact Or.inl ⟨rfl, List.mem_cons_self ..⟩
      · exact Or.inr (ih h)

theorem moved_perm {passed rest arranged : List α} {moved : α} (h : arranged.Perm rest) :
    (passed ++ moved :: arranged).Perm (moved :: (passed ++ rest)) :=
  List.perm_middle.trans ((h.append_left passed).cons moved)

/-- **What moving a name further on does to two names in order:** they stay so unless the first of
them is moved and passes the second.  What stands behind its new place may be arranged anew. -/
theorem precedes_moved_iff {front passed rest arranged : List α} {moved a b : α}
    (hnodup : (front ++ moved :: (passed ++ rest)).Nodup) (hperm : arranged.Perm rest)
    (h : Precedes (front ++ moved :: (passed ++ rest)) a b) :
    Precedes (front ++ (passed ++ moved :: arranged)) a b ↔
      ¬ (a = moved ∧ b ∈ passed) ∧ (a ∈ rest → Precedes arranged a b) := by
  have htail : (passed ++ moved :: arranged).Perm (moved :: (passed ++ rest)) := moved_perm hperm
  have hnodup' := (htail.append_left front).nodup_iff.2 hnodup
  constructor
  · intro hab
    constructor
    · rintro ⟨rfl, hb⟩
      -- The moved name now stands after all that it has passed.
      have hback : Precedes (passed ++ a :: arranged) b a :=
        precedes_append_iff.2 (Or.inr (Or.inl ⟨hb, List.mem_cons_self ..⟩))
      exact hab.asymm hnodup' (precedes_append_iff.2 (Or.inr (Or.inr hback)))
    · intro ha
      have hsplit : front ++ (passed ++ moved :: arranged) =
          (front ++ passed ++ [moved]) ++ arranged := by simp
      rw [hsplit] at hab hnodup'
      exact (precedes_append_right_iff hnodup' (hperm.mem_iff.2 ha)).1 hab
  · rintro ⟨hpasses, hrest⟩
    rw [precedes_append_iff] at h ⊢
    refine h.imp_right (Or.imp (fun hab => ⟨hab.1, htail.mem_iff.2 hab.2⟩) fun hab => ?_)
    rw [precedes_append_iff, precedes_cons_iff]
    rcases precedes_cons_iff.1 hab with ⟨rfl, hb⟩ | hab
    · have hb := (List.mem_append.1 hb).resolve_left fun hb => hpasses ⟨rfl, hb⟩
      exact Or.inr (Or.inr (Or.inl ⟨rfl, hperm.mem_iff.2 hb⟩))
    · rcases precedes_append_iff.1 hab with hab | ⟨ha, hb⟩ | hab
      · exact Or.inl hab
      · exact Or.inr (Or.inl ⟨ha, List.mem_cons_of_mem _ (hperm.mem_iff.2 hb)⟩)
      · exact Or.inr (Or.inr (Or.inr (hrest hab.mem_left)))

variable [BEq α] [LawfulBEq α]

theorem Precedes.idxOf_lt {order : List α} {a b : α} (h : Precedes order a b)
    (hnodup : order.Nodup) : order.idxOf a < order.idxOf b := by
  induction order with
  | nil => exact absurd h (not_precedes_nil a b)
  | cons x order ih =>
    obtain ⟨hx, hnodup⟩ := List.nodup_cons.1 hnodup
    rcases precedes_cons_iff.1 h with ⟨rfl, hb⟩ | h
    · have hne : a ≠ b := fun heq => hx (heq ▸ hb)
      simp [List.idxOf_cons, beq_false_of_ne hne]
    · have hxa : x ≠ a := fun heq => hx (heq ▸ h.mem_left)
      have hxb : x ≠ b := fun heq => hx (heq ▸ h.mem_right)
      simpa [List.idxOf_cons, beq_false_of_ne hxa, beq_false_of_ne hxb] using ih h hnodup

theorem precedes_iff_idxOf_lt {order : List α} {a b : α} (hnodup : order.Nodup) (hb : b ∈ order) :
    Precedes order a b ↔ order.idxOf a < order.idxOf b := by
  refine ⟨fun hab => hab.idxOf_lt hnodup, fun hlt => ?_⟩
  have ha : a ∈ order :=
    List.idxOf_lt_length_iff.1 (Nat.lt_trans hlt (List.idxOf_lt_length_of_mem hb))
  have hne : a ≠ b := fun heq => absurd hlt (heq ▸ Nat.lt_irrefl _)
  exact (precedes_total ha hb hne).resolve_right fun hba => Nat.lt_asymm hlt (hba.idxOf_lt hnodup)

theorem idxOf_middle {front rest : List α} {a : α} (hnodup : (front ++ a :: rest).Nodup) :
    (front ++ a :: rest).idxOf a = front.length := by
  have hnot : a ∉ front := fun ha =>
    List.disjoint_of_nodup_append hnodup ha (List.mem_cons_self ..)
  rw [List.idxOf_append, if_neg hnot, List.idxOf_cons_self, Nat.zero_add]

end Order
end UsageOrder
