import UsageOrder.Proofs.Ranking

/-!
# Sorting by insertion

What comes out depends on the comparisons between the items and on nothing else (`sort_map`).  Where
the items are in a proper order, which needs `before` to be a strict weak order (`Orders`), the
sort is the stable one: each item is put behind those that it does not come before, so that items
that come neither before nor after each other keep their order (`sort_ahead`).  Different names with
ranks are therefore always sorted by insertion, whether or not a rank is the value that is no number
(`initialRanked_eq_sort`).
-/

namespace UsageOrder
namespace Insertion

/-! ### Only the comparisons count -/

section Map

variable {α β : Type} {before : α → α → Bool} {before' : β → β → Bool} {f : α → β} {pool : List α}

theorem risingFrom_map (h : ∀ a ∈ pool, ∀ b ∈ pool, before' (f a) (f b) = before a b) {last : α}
    {items : List α} (hlast : last ∈ pool) (hitems : items ⊆ pool) :
    risingFrom before' (f last) (items.map f) =
      (risingFrom before last items).map (List.map f) (List.map f) := by
  induction items generalizing last with
  | nil => rfl
  | cons item items ih =>
    obtain ⟨hitem, hitems⟩ := List.cons_subset.1 hitems
    rw [List.map_cons, risingFrom, risingFrom, h item hitem last hlast, ih hitem hitems]
    split_ifs <;> rfl

theorem fallingFrom_map (h : ∀ a ∈ pool, ∀ b ∈ pool, before' (f a) (f b) = before a b) {last : α}
    {items : List α} (hlast : last ∈ pool) (hitems : items ⊆ pool) :
    fallingFrom before' (f last) (items.map f) =
      (fallingFrom before last items).map (List.map f) (List.map f) := by
  rw [fallingFrom_eq, fallingFrom_eq]
  exact risingFrom_map (fun a ha b hb => by rw [h a ha b hb]) hlast hitems

theorem firstRun_map (h : ∀ a ∈ pool, ∀ b ∈ pool, before' (f a) (f b) = before a b)
    {items : List α} (hitems : items ⊆ pool) :
    firstRun before' (items.map f) = (firstRun before items).map (List.map f) (List.map f) := by
  match items with
  | [] => rfl
  | [item] => rfl
  | first :: second :: items =>
    obtain ⟨hfirst, hitems⟩ := List.cons_subset.1 hitems
    obtain ⟨hsecond, hitems⟩ := List.cons_subset.1 hitems
    rw [List.map_cons, List.map_cons, firstRun, firstRun, h second hsecond first hfirst,
      fallingFrom_map h hsecond hitems, risingFrom_map h hsecond hitems]
    split_ifs
    · simp only [Prod.map_fst, Prod.map_snd, Prod.map_apply, List.map_reverse, List.map_cons]
    · rfl

theorem placeOf_map (h : ∀ a ∈ pool, ∀ b ∈ pool, before' (f a) (f b) = before a b)
    {sorted : List α} (hsorted : sorted ⊆ pool) {item : α} (hitem : item ∈ pool)
    (fuel low high : Nat) :
    placeOf before' (sorted.map f) (f item) fuel low high =
      placeOf before sorted item fuel low high := by
  have hmiddle : ∀ middle : Nat, (sorted.map f)[middle]?.any (before' (f item)) =
      sorted[middle]?.any (before item) := by
    intro middle
    rw [List.getElem?_map]
    cases hfound : sorted[middle]? with
    | none => rfl
    | some other => exact h item hitem other (hsorted (List.mem_of_getElem? hfound))
  induction fuel generalizing low high with
  | zero => rfl
  | succ fuel ih =>
    rw [placeOf, placeOf]
    simp only [hmiddle, ih]

theorem insert_map (h : ∀ a ∈ pool, ∀ b ∈ pool, before' (f a) (f b) = before a b)
    {sorted : List α} (hsorted : sorted ⊆ pool) {item : α} (hitem : item ∈ pool) :
    insert before' (sorted.map f) (f item) = (insert before sorted item).map f := by
  rw [insert, insert, List.length_map, placeOf_map h hsorted hitem, List.map_insertIdx]

/-- **Sorting looks at the comparisons between the items only.** -/
theorem sort_map (h : ∀ a ∈ pool, ∀ b ∈ pool, before' (f a) (f b) = before a b) :
    sort before' (pool.map f) = (sort before pool).map f := by
  have hinserts : ∀ rest run : List α, rest ⊆ pool → run ⊆ pool →
      (rest.map f).foldl (insert before') (run.map f) = (rest.foldl (insert before) run).map f := by
    intro rest
    induction rest with
    | nil => exact fun _ _ _ => rfl
    | cons item rest ih =>
      intro run hrest hrun
      obtain ⟨hitem, hrest⟩ := List.cons_subset.1 hrest
      rw [List.map_cons, List.foldl_cons, List.foldl_cons, insert_map h hrun hitem]
      refine ih _ hrest fun other hother => ?_
      rcases List.mem_cons.1 ((insert_perm before run item).mem_iff.1 hother) with rfl | hother
      · exact hitem
      · exact hrun hother
  have hperm := firstRun_perm before pool
  rw [sort, sort, firstRun_map h (List.Subset.refl pool)]
  exact hinserts _ _ (fun item hitem => hperm.mem_iff.1 (List.mem_append_right _ hitem))
    fun item hitem => hperm.mem_iff.1 (List.mem_append_left _ hitem)

/-- The case of the same items. -/
theorem sort_congr {before' : α → α → Bool}
    (h : ∀ a ∈ pool, ∀ b ∈ pool, before a b = before' a b) :
    sort before pool = sort before' pool := by
  have hmap : sort before (pool.map id) = (sort before' pool).map id := sort_map h
  rwa [List.map_id, List.map_id] at hmap

end Map

/-! ### Items in a proper order -/

/-- Comparisons that put items in order: a strict weak order. -/
structure Orders {α : Type} (before : α → α → Bool) : Prop where
  asymm : ∀ {a b}, before a b = true → before b a = false
  /-- Not to come before is passed on. -/
  trans : ∀ {a b c}, before b a = false → before c b = false → before c a = false

/-- Of two items of a list the first has to stand ahead of the second when it is sorted. -/
def Ahead {α : Type} (before : α → α → Bool) (items : List α) (a b : α) : Prop :=
  before b a = false ∧ (before a b = false → Order.Precedes items a b)

section Sorted

variable {α : Type} {before : α → α → Bool}

theorem Orders.before_trans (h : Orders before) {a b c : α} (hba : before b a = true)
    (hcb : before c b = true) : before c a = true := by
  by_contra hca
  have hab : before b a = false := h.trans (Bool.not_eq_true _ ▸ hca) (h.asymm hcb)
  exact absurd hba (by rw [hab]; exact Bool.false_ne_true)

theorem isChain_risingFrom (last : α) (items : List α) :
    (last :: (risingFrom before last items).1).IsChain fun a b => before b a = false := by
  induction items generalizing last with
  | nil => exact List.isChain_singleton last
  | cons item items ih =>
    rw [risingFrom]
    split_ifs with hbefore
    · exact List.isChain_singleton last
    · exact List.isChain_cons_cons.2 ⟨Bool.not_eq_true _ ▸ hbefore, ih item⟩

theorem isChain_fallingFrom (last : α) (items : List α) :
    (last :: (fallingFrom before last items).1).IsChain fun a b => before b a = true := by
  rw [fallingFrom_eq]
  exact (isChain_risingFrom last items).imp fun _ _ hnot => by simpa using hnot

/-- **The first run** is a part at the start of the list in which no item comes before one in front
of it, or one in which each item does, turned around. -/
theorem exists_firstRun (h : Orders before) (items : List α) :
    ∃ part, items = part ++ (firstRun before items).2 ∧
      ((firstRun before items).1 = part ∧ part.Pairwise (fun a b => before b a = false) ∨
        (firstRun before items).1 = part.reverse ∧
          part.Pairwise fun a b => before b a = true) := by
  have : Trans (fun a b => before b a = false) (fun a b => before b a = false)
      (fun a b => before b a = false) := ⟨h.trans⟩
  have : Trans (fun a b => before b a = true) (fun a b => before b a = true)
      (fun a b => before b a = true) := ⟨h.before_trans⟩
  match items with
  | [] => exact ⟨[], rfl, Or.inl ⟨rfl, List.Pairwise.nil⟩⟩
  | [item] => exact ⟨[item], rfl, Or.inl ⟨rfl, List.pairwise_singleton _ item⟩⟩
  | first :: second :: items =>
    rw [firstRun]
    split_ifs with hfalls
    · refine ⟨first :: second :: (fallingFrom before second items).1, ?_, Or.inr ⟨rfl, ?_⟩⟩
      · rw [List.cons_append, List.cons_append, fallingFrom_append]
      · exact List.isChain_iff_pairwise.1
          (List.isChain_cons_cons.2 ⟨hfalls, isChain_fallingFrom second items⟩)
    · refine ⟨first :: second :: (risingFrom before second items).1, ?_, Or.inl ⟨rfl, ?_⟩⟩
      · rw [List.cons_append, List.cons_append, risingFrom_append]
      · exact List.isChain_iff_pairwise.1
          (List.isChain_cons_cons.2 ⟨Bool.not_eq_true _ ▸ hfalls, isChain_risingFrom second items⟩)

/-- **The place found by halving** is behind all the items that the new one does not come before
and in front of all the others. -/
theorem exists_placeOf (h : Orders before) {sorted : List α}
    (hsorted : sorted.Pairwise fun a b => before b a = false) (item : α) {fuel low high : Nat}
    (hle : low ≤ high) (hhigh : high ≤ sorted.length) (hfuel : high - low < fuel)
    (hfront : ∀ a ∈ sorted.take low, before item a = false)
    (hback : ∀ b ∈ sorted.drop high, before item b = true) :
    ∃ front back, sorted = front ++ back ∧
      placeOf before sorted item fuel low high = front.length ∧
      (∀ a ∈ front, before item a = false) ∧ ∀ b ∈ back, before item b = true := by
  induction fuel generalizing low high with
  | zero => exact absurd hfuel (Nat.not_lt_zero _)
  | succ fuel ih =>
    rw [placeOf]
    split_ifs with hlt
    · dsimp only
      generalize hmiddle : low + (high - low) / 2 = middle
      have hin : middle < sorted.length := by omega
      rw [List.getElem?_eq_getElem hin, Option.any_some]
      -- Those in front of the middle one do not come after it, and those behind it not before.
      have hsplit := List.take_append_drop middle sorted
      rw [List.drop_eq_getElem_cons hin] at hsplit
      rw [← hsplit] at hsorted
      obtain ⟨-, hbehind, hahead⟩ := List.pairwise_append.1 hsorted
      obtain ⟨hbehind, -⟩ := List.pairwise_cons.1 hbehind
      split_ifs with hbefore
      · refine ih (by omega) (by omega) (by omega) hfront fun b hb => ?_
        rw [List.drop_eq_getElem_cons hin] at hb
        rcases List.mem_cons.1 hb with rfl | hb
        · exact hbefore
        · by_contra hitem
          have hmid := h.trans (hbehind b hb) (Bool.not_eq_true _ ▸ hitem)
          exact absurd hbefore (by rw [hmid]; exact Bool.false_ne_true)
      · refine ih (by omega) hhigh (by omega) (fun a ha => ?_) hback
        rw [List.take_succ_eq_append_getElem hin] at ha
        rcases List.mem_append.1 ha with ha | ha
        · exact h.trans (hahead a ha _ (List.mem_cons_self ..)) (Bool.not_eq_true _ ▸ hbefore)
        · rw [List.mem_singleton.1 ha]
          exact Bool.not_eq_true _ ▸ hbefore
    · obtain rfl : low = high := by omega
      exact ⟨sorted.take low, sorted.drop low, (List.take_append_drop low sorted).symm,
        (List.length_take_of_le hhigh).symm, hfront, hback⟩

/-- An item that is put among those in front of it gets to where it belongs. -/
theorem insert_ahead (h : Orders before) {items run : List α} {item : α}
    (hrun : run.Pairwise (Ahead before items))
    (hitem : ∀ a ∈ run, Order.Precedes items a item) :
    (insert before run item).Pairwise (Ahead before items) := by
  obtain ⟨front, back, rfl, hplace, hfront, hback⟩ := exists_placeOf h (hrun.imp And.left) item
    (Nat.zero_le _) (Nat.le_refl _) (Nat.lt_succ_of_le (Nat.sub_le run.length 0)) (by simp)
    (by simp)
  rw [insert, hplace, Order.insertIdx_append_length]
  obtain ⟨hpairs, hpairs', hacross⟩ := List.pairwise_append.1 hrun
  have haheadOf : ∀ a ∈ front, Ahead before items a item := fun a ha =>
    ⟨hfront a ha, fun _ => hitem a (List.mem_append_left _ ha)⟩
  have hbehind : ∀ b ∈ back, Ahead before items item b := fun b hb =>
    ⟨h.asymm (hback b hb), fun hnot => absurd (hback b hb) (by rw [hnot]; exact Bool.false_ne_true)⟩
  refine List.pairwise_append.2 ⟨hpairs, List.pairwise_cons.2 ⟨hbehind, hpairs'⟩, ?_⟩
  intro a ha b hb
  rcases List.mem_cons.1 hb with rfl | hb
  · exact haheadOf a ha
  · exact hacross a ha b hb

theorem foldl_insert_ahead (h : Orders before) {items rest run : List α}
    (hrun : run.Pairwise (Ahead before items)) (hrest : rest.Pairwise (Order.Precedes items))
    (hacross : ∀ a ∈ run, ∀ b ∈ rest, Order.Precedes items a b) :
    (rest.foldl (insert before) run).Pairwise (Ahead before items) := by
  induction rest generalizing run with
  | nil => exact hrun
  | cons item rest ih =>
    obtain ⟨hitem, hrest⟩ := List.pairwise_cons.1 hrest
    rw [List.foldl_cons]
    refine ih (insert_ahead h hrun fun a ha => hacross a ha item (List.mem_cons_self ..)) hrest ?_
    intro a ha b hb
    rcases List.mem_cons.1 ((insert_perm before run item).mem_iff.1 ha) with rfl | ha
    · exact hitem b hb
    · exact hacross a ha b (List.mem_cons_of_mem _ hb)

/-- **Sorting by insertion puts items in order and keeps the order of those that are tied.** -/
theorem sort_ahead (h : Orders before) (items : List α) :
    (sort before items).Pairwise (Ahead before items) := by
  have hgiven : items.Pairwise (Order.Precedes items) := List.pairwise_iff_forall_sublist.2 id
  obtain ⟨part, hitems, hpart⟩ := exists_firstRun h items
  obtain ⟨hpartGiven, hrest, hacross⟩ := List.pairwise_append.1 (hitems ▸ hgiven)
  rw [← hitems] at hpartGiven hrest hacross
  change ((firstRun before items).2.foldl (insert before) (firstRun before items).1).Pairwise _
  rcases hpart with ⟨hrun, hrises⟩ | ⟨hrun, hfalls⟩
  · rw [hrun]
    exact foldl_insert_ahead h (hrises.and hpartGiven |>.imp fun hab => ⟨hab.1, fun _ => hab.2⟩)
      hrest hacross
  · rw [hrun]
    refine foldl_insert_ahead h (List.pairwise_reverse.2 (hfalls.imp fun hba => ?_)) hrest
      fun a ha => hacross a (List.mem_reverse.1 ha)
    exact ⟨h.asymm hba, fun hnot => absurd hba (by rw [hnot]; exact Bool.false_ne_true)⟩

/-- Of two different items only one can have to stand ahead. -/
theorem Ahead.antisymm {items : List α} (hnodup : items.Nodup) {a b : α}
    (hab : Ahead before items a b) (hba : Ahead before items b a) : a = b :=
  absurd (hba.2 hab.1) ((hab.2 hba.1).asymm hnodup)

end Sorted

end Insertion

namespace Order

theorem Ranked.orders {α : Type} {rank : α → Rank} (h : Ranked rank) :
    Insertion.Orders fun a b => (rank a).value.less (rank b).value where
  asymm {a b} hab := by
    have htotal := h.total a b
    simpa [Rank.le, Json.notGreater, hab] using htotal
  trans {a b c} hab hbc := by
    have htrans := h.trans a b c
    simpa [Rank.le, Json.notGreater, hab, hbc] using htrans

/-- **Different names that are ordered by rank are sorted by insertion.** -/
theorem sort_eq_initial {α : Type} {rank : α → Rank} (h : Ranked rank) {names : List α}
    (hnodup : names.Nodup) :
    Insertion.sort (fun a b => (rank a).value.less (rank b).value) names = initial names rank := by
  have hinitial : (initial names rank).Pairwise
      (Insertion.Ahead (fun a b => (rank a).value.less (rank b).value) names) := by
    refine List.pairwise_iff_forall_sublist.2 fun {a b} hab => ?_
    have hperm := initial_perm names rank
    obtain ⟨hle, htied⟩ := (precedes_initial_iff h hnodup (hperm.mem_iff.1 (Precedes.mem_left hab))
      (hperm.mem_iff.1 (Precedes.mem_right hab))).1 hab
    refine ⟨by simpa [Rank.le, Json.notGreater] using hle, fun hnot => htied ?_⟩
    simpa [Rank.le, Json.notGreater] using hnot
  exact List.Perm.eq_of_pairwise (fun _ _ _ _ => Insertion.Ahead.antisymm hnodup)
    (Insertion.sort_ahead h.orders names) hinitial
    ((Insertion.sort_perm _ names).trans (initial_perm names rank).symm)

/-- Names whose ranks are numbers can be ordered by them, if none of these is the value that is no
number. -/
theorem exists_ranked {names : List String} {ranks : Ranks} (hcover : ranks.Cover names)
    (hdefined : ∀ name ∈ names, (ranks.ofText name).value.size? ≠ some .undefined) :
    ∃ rank : String → Rank, Ranked rank ∧ ∀ name ∈ names, ranks.ofText name = rank name := by
  -- Names that are not listed may be ranked in any way.
  let rank : String → Rank := fun name => if name ∈ names then ranks.ofText name else .infinite
  have hrank : ∀ name ∈ names, ranks.ofText name = rank name := fun name hname =>
    (if_pos hname).symm
  refine ⟨rank, ranked_of_sizes fun name => ?_, hrank⟩
  by_cases hname : name ∈ names
  · obtain ⟨found, hlookup, hsize⟩ := hcover name hname
    obtain ⟨size, hsize⟩ := Option.isSome_iff_exists.1 hsize
    have hvalue : rank name = found := by
      rw [← hrank name hname, Ranks.ofText, Ranks.of, hlookup, Option.getD_some]
    refine ⟨size, hvalue ▸ hsize, fun hundefined => hdefined name hname ?_⟩
    rw [hrank name hname, hvalue, hsize, hundefined]
  · exact ⟨.infinite false, by simp only [rank, if_neg hname]; rfl, by simp⟩

/-- **Different names with ranks are sorted by insertion,** whether or not one of the ranks is the
value that is no number. -/
theorem initialRanked_eq_sort {names : List String} (hnodup : names.Nodup) {ranks : Ranks}
    (hcover : ranks.Cover names) :
    initialRanked (names.map .text) ranks = .ok ((Insertion.sort
      (fun a b => (ranks.ofText a).value.less (ranks.ofText b).value) names).map .text) := by
  obtain ⟨start, hstart⟩ := initialRanked_returns hcover
  rw [hstart]
  rcases initialRanked_cases hstart with ⟨rfl, -⟩ | ⟨rfl, hdefined⟩
  · exact congrArg Except.ok (Insertion.sort_map fun _ _ _ _ => rfl)
  · obtain ⟨rank, hranked, hrank⟩ := exists_ranked hcover hdefined
    have hsame : Insertion.sort (fun a b => (ranks.ofText a).value.less (ranks.ofText b).value)
        names = Insertion.sort (fun a b => (rank a).value.less (rank b).value) names :=
      Insertion.sort_congr fun a ha b hb => by rw [hrank a ha, hrank b hb]
    rw [hsame, sort_eq_initial hranked hnodup, initial_congr hrank]

end Order
end UsageOrder
