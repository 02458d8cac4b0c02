import UsageOrder.Proofs.Reconcile

/-!
# The order of the ranks

Ranks that are numbers are compared by size.  If none of them is the value that is no number, names
are ordered by rank and names of equal rank as they are given (`precedes_initial_iff`), and that
says everything: two arrangements of the same names in which the same names stand before one another
are one (`eq_of_precedes`).  Where no two of the ranks are equal, the order in which the names are
given counts for nothing (`initial_eq_of_perm`).  If a rank is no number, the names are inserted one
by one (`initialRanked_cases`).
-/

namespace UsageOrder

namespace Size

theorem less_asymm (a b : Size) : (!b.less a || !a.less b) = true := by
  cases a with
  | finite x =>
    cases b with
    | finite y =>
      simp only [less, Bool.or_eq_true, Bool.not_eq_true', decide_eq_false_iff_not]
      exact Rat.le_total.imp Rat.not_lt.2 Rat.not_lt.2
    | infinite negative => cases negative <;> rfl
    | undefined => rfl
  | infinite negative =>
    cases b with
    | finite y => cases negative <;> rfl
    | infinite negative' => cases negative <;> cases negative' <;> rfl
    | undefined => cases negative <;> rfl
  | undefined => cases b <;> rfl

/-- Not to be greater goes from one to the next, unless the one between is no number. -/
theorem not_less_trans {a b c : Size} (hb : b ≠ .undefined) (hab : b.less a = false)
    (hbc : c.less b = false) : c.less a = false := by
  cases b with
  | undefined => exact absurd rfl hb
  | finite y =>
    cases a with
    | undefined => cases c <;> rfl
    | infinite negative => cases negative <;> cases c <;> simp_all [less]
    | finite x =>
      cases c with
      | undefined => rfl
      | infinite negative => cases negative <;> simp_all [less]
      | finite z =>
        simp only [less, decide_eq_false_iff_not, Rat.not_lt] at hab hbc ⊢
        exact Rat.le_trans hab hbc
  | infinite negative => cases negative <;> cases a <;> cases c <;> simp_all [less]

end Size

theorem Json.less_eq_of_size {a b : Json} {x y : Size} (ha : a.size? = some x)
    (hb : b.size? = some y) : a.less b = x.less y := by
  cases a <;> cases b <;> simp_all [less, less?, size?]

/-- What is found under a key stands in one of the entries. -/
theorem exists_mem_of_lookup {α β : Type} [BEq α] {entries : List (α × β)} {key : α} {value : β}
    (h : entries.lookup key = some value) : ∃ entry ∈ entries, entry.2 = value := by
  induction entries with
  | nil => exact absurd h (by simp)
  | cons entry entries ih =>
    rw [List.lookup_cons] at h
    cases hkey : key == entry.1 with
    | true =>
      rw [hkey] at h
      exact ⟨entry, List.mem_cons_self .., Option.some.inj h⟩
    | false =>
      rw [hkey] at h
      obtain ⟨found, hfound, heq⟩ := ih h
      exact ⟨found, List.mem_cons_of_mem _ hfound, heq⟩

namespace Ranks

/-- All ranks are numbers that can be compared. -/
def Comparable (ranks : Ranks) : Prop :=
  ∀ entry ∈ ranks, ∃ size, entry.2.value.size? = some size ∧ size ≠ .undefined

theorem comparable_iff {ranks : Ranks} : ranks.Comparable ↔
    ∀ entry ∈ ranks, entry.2.value.size?.any (fun size => size ≠ .undefined) = true := by
  simp only [Comparable, Option.any_eq_true, decide_eq_true_eq]

instance (ranks : Ranks) : Decidable ranks.Comparable :=
  decidable_of_iff' _ comparable_iff

theorem Comparable.of {ranks : Ranks} (h : ranks.Comparable) (name : Name) :
    ∃ size, (ranks.of name).value.size? = some size ∧ size ≠ .undefined := by
  rw [Ranks.of]
  cases hlookup : ranks.lookup name with
  | none => exact ⟨.infinite false, rfl, by simp⟩
  | some rank =>
    obtain ⟨entry, hentry, rfl⟩ := exists_mem_of_lookup hlookup
    exact h entry hentry

/-- The rank of a name that is a text. -/
def ofText (ranks : Ranks) (name : String) : Rank := ranks.of (.text name)

theorem ofText_of_require {ranks : Ranks} {name : String} {rank : Rank}
    (h : ranks.require (.text name) = .ok rank) : ranks.ofText name = rank := by
  obtain ⟨usable, husable, h⟩ := bind_eq_ok_iff.1 h
  obtain rfl : Name.text name = usable := Except.ok.inj husable
  split at h
  · rename_i found hfound
    rw [ofText, Ranks.of, hfound, Option.getD_some, Except.ok.inj h]
  · exact absurd h (by simp)

end Ranks

namespace Order

/-- Ranks by which names can be ordered. -/
structure Ranked {α : Type} (rank : α → Rank) : Prop where
  trans : ∀ a b c, (rank a).le (rank b) = true → (rank b).le (rank c) = true →
    (rank a).le (rank c) = true
  total : ∀ a b, ((rank a).le (rank b) || (rank b).le (rank a)) = true

/-- Ranks that are numbers are ranks to order by. -/
theorem ranked_of_sizes {α : Type} {rank : α → Rank}
    (h : ∀ a, ∃ size, (rank a).value.size? = some size ∧ size ≠ .undefined) : Ranked rank where
  trans a b c hab hbc := by
    obtain ⟨x, hx, -⟩ := h a
    obtain ⟨y, hy, hdefined⟩ := h b
    obtain ⟨z, hz, -⟩ := h c
    simp only [Rank.le, Json.notGreater, Json.less_eq_of_size hy hx, Json.less_eq_of_size hz hy,
      Json.less_eq_of_size hz hx, Bool.not_eq_true'] at hab hbc ⊢
    exact Size.not_less_trans hdefined hab hbc
  total a b := by
    obtain ⟨x, hx, -⟩ := h a
    obtain ⟨y, hy, -⟩ := h b
    simp only [Rank.le, Json.notGreater, Json.less_eq_of_size hx hy, Json.less_eq_of_size hy hx]
    exact Size.less_asymm x y

theorem ranked_ofText {ranks : Ranks} (h : ranks.Comparable) : Ranked ranks.ofText :=
  ranked_of_sizes fun name => h.of (.text name)

theorem initial_perm {α : Type} (names : List α) (rank : α → Rank) :
    (initial names rank).Perm names :=
  List.mergeSort_perm names _

theorem initial_congr {α : Type} {names : List α} {rank rank' : α → Rank}
    (h : ∀ name ∈ names, rank name = rank' name) : initial names rank = initial names rank' := by
  have hmap : (initial names rank).map id = initial (names.map id) rank' :=
    List.map_mergeSort fun a ha b hb => by rw [h a ha, h b hb]; rfl
  rwa [List.map_id, List.map_id] at hmap

/-- **By rank, and names of equal rank as they are given.** -/
theorem precedes_initial_iff {α : Type} {rank : α → Rank} (h : Ranked rank) {names : List α}
    (hnodup : names.Nodup) {a b : α} (ha : a ∈ names) (hb : b ∈ names) :
    Precedes (initial names rank) a b ↔
      (rank a).le (rank b) = true ∧ ((rank b).le (rank a) = true → Precedes names a b) := by
  have hperm := initial_perm names rank
  have hnodup' := hperm.nodup_iff.2 hnodup
  -- The sort is stable: what is in order stays in order.
  have hstable : ∀ {x y : α}, (rank x).le (rank y) = true → Precedes names x y →
      Precedes (initial names rank) x y := fun hle hxy =>
    List.pair_sublist_mergeSort h.trans h.total hle hxy
  have hsorted : (initial names rank).Pairwise fun x y => (rank x).le (rank y) = true :=
    List.pairwise_mergeSort h.trans h.total names
  have hforward : ∀ {x y : α}, Precedes (initial names rank) x y →
      (rank x).le (rank y) = true ∧ ((rank y).le (rank x) = true → Precedes names x y) := by
    intro x y hxy
    refine ⟨List.pairwise_iff_forall_sublist.1 hsorted hxy, fun htied => ?_⟩
    rcases precedes_total (hperm.mem_iff.1 hxy.mem_left) (hperm.mem_iff.1 hxy.mem_right)
      (hxy.ne hnodup') with hfirst | hlast
    · exact hfirst
    · exact absurd (hstable htied hlast) (hxy.asymm hnodup')
  refine ⟨hforward, fun ⟨hle, htied⟩ => ?_⟩
  have hne : a ≠ b := by
    rintro rfl
    exact (htied hle).ne hnodup rfl
  rcases precedes_total (hperm.mem_iff.2 ha) (hperm.mem_iff.2 hb) hne with hab | hba
  · exact hab
  · obtain ⟨hle', htied'⟩ := hforward hba
    exact absurd (htied' hle) ((htied hle').asymm hnodup)

/-- **Ranks that are all different leave nothing to the order in which the names are given.** -/
theorem initial_eq_of_perm {α : Type} {rank : α → Rank} (h : Ranked rank) {names first : List α}
    (hperm : first.Perm names)
    (hfirst : first.Pairwise fun a b => (rank b).le (rank a) = false) :
    initial names rank = first := by
  have hsorted : first.Pairwise fun a b => (rank a).le (rank b) = true :=
    hfirst.imp fun {a b} hba => by simpa [hba] using h.total a b
  have hinitial := initial_perm names rank
  refine (hinitial.trans hperm.symm).eq_of_pairwise (fun a b ha hb hab hba => ?_)
    (List.pairwise_mergeSort h.trans h.total names) hsorted
  by_contra hne
  rcases precedes_total (hperm.mem_iff.2 (hinitial.mem_iff.1 ha)) hb hne with hbefore | hbefore
  · exact absurd hba (by simp [List.pairwise_iff_forall_sublist.1 hfirst hbefore])
  · exact absurd hab (by simp [List.pairwise_iff_forall_sublist.1 hfirst hbefore])

/-- Texts are put in order by insertion if a rank is no number, and else by rank. -/
theorem initialRanked_cases {names : List String} {ranks : Ranks} {start : List Name}
    (h : initialRanked (names.map .text) ranks = .ok start) :
    (start = Insertion.sort (fun a b => (ranks.of a).value.less (ranks.of b).value)
        (names.map .text) ∧
      ∃ name ∈ names, (ranks.ofText name).value.size? = some .undefined) ∨
    start = (initial names ranks.ofText).map .text ∧
      ∀ name ∈ names, (ranks.ofText name).value.size? ≠ some .undefined := by
  obtain ⟨keys, hkeys, hbranch⟩ := bind_eq_ok_iff.1 h
  have hvalue : ∀ {name : String} {key : Json},
      (do .ok (← ranks.require (.text name)).value : Except Fault Json) = .ok key →
        (ranks.ofText name).value = key := by
    intro name key hkey
    obtain ⟨rank, hrank, hkey⟩ := bind_eq_ok_iff.1 hkey
    rw [Ranks.ofText_of_require hrank, Except.ok.inj hkey]
  split_ifs at hbranch with _ hundefined
  · obtain ⟨key, hkey, hundefined⟩ := List.any_eq_true.1 hundefined
    obtain ⟨_, hmem, hrequire⟩ := exists_mem_of_mapM_result hkeys hkey
    obtain ⟨name, hname, rfl⟩ := List.mem_map.1 hmem
    refine Or.inl ⟨(Except.ok.inj hbranch).symm, name, hname, ?_⟩
    rw [hvalue hrequire]
    exact of_decide_eq_true hundefined
  · have hmap : (initial names ranks.ofText).map Name.text = initial (names.map .text) ranks.of :=
      List.map_mergeSort fun _ _ _ _ => rfl
    refine Or.inr ⟨(Except.ok.inj hbranch).symm.trans hmap.symm, fun name hname hsize => ?_⟩
    obtain ⟨key, hkey, hrequire⟩ := exists_mem_of_mapM hkeys (List.mem_map_of_mem hname)
    rw [hvalue hrequire] at hsize
    exact hundefined (List.any_eq_true.2 ⟨key, hkey, decide_eq_true hsize⟩)

/-- The first order of texts whose ranks can be compared. -/
theorem initialRanked_texts {names : List String} {ranks : Ranks} (hcover : ranks.Cover names)
    (h : ranks.Comparable) :
    initialRanked (names.map .text) ranks = .ok ((initial names ranks.ofText).map .text) := by
  obtain ⟨start, hstart⟩ := initialRanked_returns hcover
  rcases initialRanked_cases hstart with ⟨-, name, -, hundefined⟩ | ⟨rfl, -⟩
  · obtain ⟨size, hsize, hdefined⟩ := h.of (.text name)
    exact absurd (Option.some.inj (hsize.symm.trans hundefined)) hdefined
  · exact hstart

theorem initialRanked_of_perm {names first : List String} {ranks : Ranks}
    (hcover : ranks.Cover names) (h : ranks.Comparable) (hperm : first.Perm names)
    (hfirst : first.Pairwise fun a b => (ranks.ofText b).le (ranks.ofText a) = false) :
    initialRanked (names.map .text) ranks = .ok (first.map .text) := by
  rw [initialRanked_texts hcover h, initial_eq_of_perm (ranked_ofText h) hperm hfirst]

end Order
end UsageOrder
