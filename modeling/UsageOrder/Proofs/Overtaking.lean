import UsageOrder.Proofs.Neighbours
import UsageOrder.Proofs.Parts
import UsageOrder.Proofs.Reconcile

/-!
# Who is overtaken in the desired order

The desired order starts from the order of the ranks, and names that have to wait are moved back.  A
name may be moved in many passes, and others pass it to and fro, but every change of the order of
two names is owed to what the first of them waits for.  If `x` stood before `y` at the start and
stands behind it now, then `x` requires, directly or through others, `y` itself or a name that stood
behind `y` at the start (`Owed`).  A visit keeps this: it moves a name behind the last of its
prerequisites, and whatever that one has let pass is owed to what it waits for itself
(`Owed.settleName`).

| statement | what it says |
|---|---|
| `Owed.settleName`, `Owed.adjust`, `settle_owed` | a visit, a pass and a run owe what they change |
| `precedes_of_lastAwaited` | names go by the last of the names that they wait for |
| `reconcileRanked_owed` | the same for the desired order, and what follows for single names |
-/

namespace UsageOrder

namespace Prerequisites

variable {α : Type} [BEq α]

/-- A name requires another one of a list. -/
def RequiresIn (prerequisites : Prerequisites α) (names : List α) (name other : α) : Prop :=
  prerequisites.Requires name other ∧ other ∈ names

end Prerequisites

namespace Order

variable {α : Type} [BEq α] {prerequisites : Prerequisites α}

/-- Whatever has been turned around since the start is owed to a name that the first one requires,
through names of the order: to the second one or to one that stood behind it. -/
def Owed (prerequisites : Prerequisites α) (first current : List α) : Prop :=
  ∀ x y, Precedes first x y → Precedes current y x →
    ∃ z, Relation.TransGen (prerequisites.RequiresIn first) x z ∧ (z = y ∨ Precedes first y z)

theorem owed_refl {first : List α} (hnodup : first.Nodup) : Owed prerequisites first first :=
  fun _ _ hxy hyx => absurd hyx (hxy.asymm hnodup)

/-! ### Visits, passes and runs -/

variable [LawfulBEq α]

/-- **What a visit turns around is owed.** -/
theorem Owed.settleName {first current : List α} {name : α} (h : Owed prerequisites first current)
    (hperm : current.Perm first) (hnodup : first.Nodup) (hname : name ∈ current) :
    Owed prerequisites first (settleName prerequisites current name) := by
  have hcurrent := hperm.nodup_iff.2 hnodup
  have hvisited := settleName_perm prerequisites hcurrent hname
  intro x y hxy hyx
  have hx := hperm.mem_iff.2 hxy.mem_left
  have hy := hperm.mem_iff.2 hxy.mem_right
  rcases precedes_total hx hy (hxy.ne hnodup) with hbefore | hbefore
  swap
  · exact h x y hxy hbefore
  -- Only the visited name can have been overtaken by the visit.
  have hafter : ¬ Precedes (Order.settleName prerequisites current name) x y := fun hcontra =>
    hcontra.asymm (hvisited.nodup_iff.2 hcurrent) hyx
  obtain rfl : x = name := by
    by_contra hne
    exact hafter (hbefore.settleName hcurrent hname hne)
  obtain ⟨front, passed, rest, rfl, hmoved, -, hlast⟩ :=
    settleName_shape prerequisites hcurrent hname
  have hpassed : y ∈ passed := by
    have hbehind := (precedes_middle_iff hcurrent).1 hbefore
    refine (List.mem_append.1 hbehind).resolve_right fun hrest => hafter ?_
    rw [hmoved]
    exact precedes_append_iff.2 (Or.inr (Or.inr (precedes_append_iff.2
      (Or.inr (Or.inr (precedes_cons_iff.2 (Or.inl ⟨rfl, hrest⟩)))))))
  -- The last name that is passed is a prerequisite of the visited one.
  obtain ⟨between, last, rfl⟩ : ∃ between last, passed = between ++ [last] :=
    ⟨_, _, (List.dropLast_append_getLast (List.ne_nil_of_mem hpassed)).symm⟩
  have hrequires : prerequisites.RequiresIn first x last :=
    ⟨hlast last (by simp), hperm.mem_iff.1 (by simp)⟩
  rcases List.mem_append.1 hpassed with hbetween | hy'
  · have hylast : Precedes (front ++ x :: (between ++ [last] ++ rest)) y last := by
      simp [precedes_append_iff, precedes_cons_iff, hbetween]
    rcases precedes_total hxy.mem_right hrequires.2 (hylast.ne hcurrent) with hfirst | hturned
    · exact ⟨last, .single hrequires, Or.inr hfirst⟩
    · obtain ⟨z, hz, hzy⟩ := h last y hturned hylast
      exact ⟨z, .head hrequires hz, hzy⟩
  · obtain rfl := List.mem_singleton.1 hy'
    exact ⟨y, .single hrequires, Or.inl rfl⟩

theorem Owed.foldl_settleName {first visits current : List α}
    (h : Owed prerequisites first current) (hperm : current.Perm first) (hnodup : first.Nodup)
    (hvisits : visits ⊆ first) :
    Owed prerequisites first (visits.foldl (Order.settleName prerequisites) current) := by
  induction visits generalizing current with
  | nil => exact h
  | cons name visits ih =>
    obtain ⟨hname, hvisits⟩ := List.cons_subset.1 hvisits
    have hname := hperm.mem_iff.2 hname
    have hvisited := settleName_perm prerequisites (hperm.nodup_iff.2 hnodup) hname
    rw [List.foldl_cons]
    exact ih (h.settleName hperm hnodup hname) (hvisited.trans hperm) hvisits

/-- What a pass turns around is owed. -/
theorem Owed.adjust {first order : List α} (h : Owed prerequisites first order)
    (hperm : order.Perm first) (hnodup : first.Nodup) :
    Owed prerequisites first (adjust prerequisites order) :=
  h.foldl_settleName hperm hnodup hperm.subset

/-- **What a run turns around is owed,** however many passes it takes. -/
theorem settle_owed {first order : List α} {left done : Nat} {settled : Settled α}
    (hnodup : first.Nodup) (hperm : order.Perm first) (howed : Owed prerequisites first order)
    (h : settle prerequisites left done order = some settled) :
    Owed prerequisites first settled.order := by
  induction left generalizing done order with
  | zero => exact absurd h (by simp [settle])
  | succ left ih =>
    rw [settle] at h
    split_ifs at h
    · obtain rfl := Option.some.inj h
      exact howed
    · have hadjusted := adjust_perm prerequisites (hperm.nodup_iff.2 hnodup)
      exact ih (hadjusted.trans hperm) (howed.adjust hperm hnodup) h

/-! ### The last name that is waited for -/

/-- A name waits for another one of the order: for itself and for what it requires, be it through
other names of the order. -/
def Awaits (prerequisites : Prerequisites α) (first : List α) (name other : α) : Prop :=
  Relation.ReflTransGen (prerequisites.RequiresIn first) name other

/-- Of the names that a name waits for the one that comes last at the start. -/
structure LastAwaited (prerequisites : Prerequisites α) (first : List α) (name last : α) :
    Prop where
  awaits : Awaits prerequisites first name last
  greatest : ∀ other, Awaits prerequisites first name other →
    other = last ∨ Precedes first other last

omit [LawfulBEq α] in
theorem Awaits.mem {first : List α} {name other : α} (h : Awaits prerequisites first name other)
    (hname : name ∈ first) : other ∈ first := by
  rcases Relation.ReflTransGen.cases_tail h with rfl | ⟨_, _, hlast⟩
  · exact hname
  · exact hlast.2

omit [BEq α] [LawfulBEq α] in
/-- Of some names of an order one comes last. -/
theorem exists_last {order : List α} {chosen : α → Prop} (h : ∃ name ∈ order, chosen name) :
    ∃ last ∈ order, chosen last ∧
      ∀ other ∈ order, chosen other → other = last ∨ Precedes order other last := by
  induction order with
  | nil =>
    obtain ⟨name, hname, -⟩ := h
    exact absurd hname List.not_mem_nil
  | cons head order ih =>
    by_cases hlater : ∃ name ∈ order, chosen name
    · obtain ⟨last, hlast, hchosen, hgreatest⟩ := ih hlater
      refine ⟨last, List.mem_cons_of_mem _ hlast, hchosen, fun other hother hother' => ?_⟩
      rcases List.mem_cons.1 hother with rfl | hother
      · exact Or.inr (precedes_cons_iff.2 (Or.inl ⟨rfl, hlast⟩))
      · exact (hgreatest other hother hother').imp_right fun hprecedes =>
          precedes_cons_iff.2 (Or.inr hprecedes)
    · have hhead : ∀ name ∈ head :: order, chosen name → name = head := fun name hname hchosen =>
        (List.mem_cons.1 hname).resolve_right fun hmem => hlater ⟨name, hmem, hchosen⟩
      obtain ⟨name, hname, hchosen⟩ := h
      obtain rfl := hhead name hname hchosen
      exact ⟨name, hname, hchosen, fun other hother hother' =>
        Or.inl (hhead other hother hother')⟩

omit [LawfulBEq α] in
/-- Every name waits for some name that comes last. -/
theorem exists_lastAwaited (prerequisites : Prerequisites α) {first : List α} {name : α}
    (hname : name ∈ first) : ∃ last, LastAwaited prerequisites first name last := by
  obtain ⟨last, -, hlast, hgreatest⟩ : ∃ last ∈ first, Awaits prerequisites first name last ∧ _ :=
    exists_last ⟨name, hname, Relation.ReflTransGen.refl⟩
  exact ⟨last, hlast, fun other hother => hgreatest other (hother.mem hname) hother⟩

omit [LawfulBEq α] in
/-- In an order in which all names are satisfied a name stands behind what it waits for. -/
theorem Awaits.precedes {first order : List α} {name other : α}
    (h : Awaits prerequisites first name other) (hperm : order.Perm first) (hnodup : order.Nodup)
    (hsat : ∀ name ∈ order, Satisfied prerequisites order name) (hname : name ∈ order) :
    other = name ∨ Precedes order other name := by
  induction h with
  | refl => exact Or.inl rfl
  | @tail middle other hmiddle hrequires ih =>
    have hmem := hperm.mem_iff.2 (Awaits.mem hmiddle (hperm.mem_iff.1 hname))
    have hother := hsat middle hmem other hrequires.1 (hperm.mem_iff.2 hrequires.2)
    rcases ih with rfl | ih
    · exact Or.inr hother
    · exact Or.inr (hother.transitive ih hnodup)

omit [LawfulBEq α] in
/-- **Names go by the last of the names that they wait for.** -/
theorem precedes_of_lastAwaited {first order : List α} {x y lastX lastY : α}
    (howed : Owed prerequisites first order) (hperm : order.Perm first) (hnodup : first.Nodup)
    (hsat : ∀ name ∈ order, Satisfied prerequisites order name)
    (hx : LastAwaited prerequisites first x lastX) (hy : LastAwaited prerequisites first y lastY)
    (hymem : y ∈ first) (hlasts : Precedes first lastX lastY) : Precedes order x y := by
  have horder := hperm.nodup_iff.2 hnodup
  -- All that the first name waits for comes before the last one that the second waits for.
  have hbefore : ∀ z, Awaits prerequisites first x z → Precedes first z lastY := by
    intro z hz
    rcases hx.greatest z hz with rfl | hlast
    · exact hlasts
    · exact hlast.transitive hlasts hnodup
  have hstart := hbefore x Relation.ReflTransGen.refl
  have hlastY : Precedes order x lastY := by
    rcases precedes_total (hperm.mem_iff.2 hstart.mem_left) (hperm.mem_iff.2 hstart.mem_right)
      (hstart.ne hnodup) with hkept | hturned
    · exact hkept
    · obtain ⟨z, hz, rfl | hbehind⟩ := howed x lastY hstart hturned
      · exact absurd rfl ((hbefore z hz.to_reflTransGen).ne hnodup)
      · exact absurd hbehind ((hbefore z hz.to_reflTransGen).asymm hnodup)
  rcases hy.awaits.precedes hperm horder hsat (hperm.mem_iff.2 hymem) with rfl | hprecedes
  · exact hlastY
  · exact hlastY.transitive hprecedes horder

/-! ### The desired order -/

/-- The order that a run over texts starts from and the one that it ends in. -/
theorem exists_settle_of_reconcileRanked {names : List String} {ranks : Ranks}
    {prerequisites : Prerequisites String} {maxPasses : Json} {settled : Settled Name}
    (h : reconcileRanked (names.map .text) ranks (prerequisites.rename .text) maxPasses =
      .ok settled) :
    ∃ (first order : List String) (limit passes : Nat),
      initialRanked (names.map .text) ranks = .ok (first.map .text) ∧ first.Perm names ∧
        settled.order = order.map .text ∧
          settle prerequisites limit 0 first = some ⟨order, passes⟩ := by
  obtain ⟨-, first, limit, result, hfirst, -, hsettle, rfl⟩ := reconcileRanked_eq_ok_iff.1 h
  obtain ⟨texts, hmap, hperm⟩ := exists_texts_of_perm (initialRanked_perm hfirst)
  obtain rfl : first = texts := (List.map_inj_right fun _ _ heq => Name.text.inj heq).1 hmap
  exact ⟨first, result.order, limit, result.passes, hfirst, hperm, renameSettled_order result,
    hsettle⟩

/-- **Nothing is turned around without need.**  If `x` comes before `y` by rank and behind it in the
desired order, then `x` requires, directly or through names of the list, `y` or a name that comes
behind `y` by rank.  So a name that requires none of the others is overtaken by none, and if the
order of the ranks respects every prerequisite it is the desired one. -/
theorem reconcileRanked_owed {names : List String} (hnodup : names.Nodup) {ranks : Ranks}
    {prerequisites : Prerequisites String} {maxPasses : Json} {settled : Settled Name}
    (h : reconcileRanked (names.map .text) ranks (prerequisites.rename .text) maxPasses =
      .ok settled) :
    ∃ first order : List String,
      initialRanked (names.map .text) ranks = .ok (first.map .text) ∧
        settled.order = order.map .text ∧
        (∀ x y, Precedes first x y → Precedes order y x →
          ∃ z, Relation.TransGen (prerequisites.RequiresIn names) x z ∧
            (z = y ∨ Precedes first y z)) ∧
        (∀ x y, (∀ other ∈ prerequisites.before x, other ∉ names) → Precedes first x y →
          Precedes order x y) ∧
        ((∀ name ∈ names, ∀ other ∈ prerequisites.before name, other ∈ names →
          Precedes first other name) → order = first) := by
  obtain ⟨first, order, limit, passes, hfirst, hperm, horder, hsettle⟩ :=
    exists_settle_of_reconcileRanked h
  have hfirstNodup := hperm.nodup_iff.2 hnodup
  have horderPerm : order.Perm first := (settle_sound hfirstNodup hsettle).1
  have howed : Owed prerequisites first order :=
    settle_owed hfirstNodup (List.Perm.refl first) (owed_refl hfirstNodup) hsettle
  have hrequires : prerequisites.RequiresIn first = prerequisites.RequiresIn names := by
    funext name other
    rw [Prerequisites.RequiresIn, Prerequisites.RequiresIn, hperm.mem_iff]
  have hneed : ∀ x y, Precedes first x y → Precedes order y x →
      ∃ z, Relation.TransGen (prerequisites.RequiresIn names) x z ∧
        (z = y ∨ Precedes first y z) := hrequires ▸ howed
  refine ⟨first, order, hfirst, horder, hneed, fun x y hx hxy => ?_, fun hrespects => ?_⟩
  · rcases precedes_total (horderPerm.mem_iff.2 hxy.mem_left) (horderPerm.mem_iff.2 hxy.mem_right)
      (hxy.ne hfirstNodup) with hkept | hturned
    · exact hkept
    · -- The chain of requirements would start with one that there is not.
      obtain ⟨z, hz, -⟩ := hneed x y hxy hturned
      obtain ⟨other, hother, -⟩ := Relation.TransGen.head'_iff.1 hz
      exact absurd hother.2 (hx other hother.1)
  · have hsat : ∀ name ∈ first, Satisfied prerequisites first name :=
      fun name hname other hother hmem => hrespects name (hperm.mem_iff.1 hname) other hother
        (hperm.mem_iff.1 hmem)
    have hresult := settle_of_adjust_eq (adjust_eq_self hfirstNodup hsat) hsettle
    rw [Settled.mk.injEq] at hresult
    exact hresult.1

/-- The title and then the footer are moved behind the theme, so the footer overtakes the title,
which is owed to the theme. -/
theorem reconcileRanked_owed_theme :
    ["Title", "Footer", "Theme"].Nodup ∧
      initialRanked (["Title", "Footer", "Theme"].map .text)
        [(.text "Title", ⟨.int 1⟩), (.text "Footer", .infinite), (.text "Theme", .infinite)] =
          .ok (["Title", "Footer", "Theme"].map .text) ∧
      reconcileRanked (["Title", "Footer", "Theme"].map .text)
        [(.text "Title", ⟨.int 1⟩), (.text "Footer", .infinite), (.text "Theme", .infinite)]
        (Prerequisites.rename .text [("Title", ["Theme"]), ("Footer", ["Theme"]), ("Theme", [])])
        (.int 1000) = .ok ⟨["Theme", "Footer", "Title"].map .text, 2⟩ ∧
      ∃ z, Relation.TransGen (Prerequisites.RequiresIn
          [("Title", ["Theme"]), ("Footer", ["Theme"]), ("Theme", [])]
          ["Title", "Footer", "Theme"]) "Title" z ∧
        (z = "Footer" ∨ Precedes ["Title", "Footer", "Theme"] "Footer" z) := by
  have hinitial : initialRanked (["Title", "Footer", "Theme"].map .text)
      [(.text "Title", ⟨.int 1⟩), (.text "Footer", .infinite), (.text "Theme", .infinite)] =
        .ok (["Title", "Footer", "Theme"].map .text) := by cbv
  have hrun : reconcileRanked (["Title", "Footer", "Theme"].map .text)
      [(.text "Title", ⟨.int 1⟩), (.text "Footer", .infinite), (.text "Theme", .infinite)]
      (Prerequisites.rename .text [("Title", ["Theme"]), ("Footer", ["Theme"]), ("Theme", [])])
      (.int 1000) = .ok ⟨["Theme", "Footer", "Title"].map .text, 2⟩ :=
    reconcileRanked_eq_ok_iff.2 ⟨by cbv, ["Title", "Footer", "Theme"], 1000,
      ⟨["Theme", "Footer", "Title"], 2⟩, hinitial, rfl, by decide, rfl⟩
  obtain ⟨first, order, hfirst, horder, hneed, -⟩ := reconcileRanked_owed (by decide) hrun
  rw [hinitial] at hfirst
  obtain rfl := (List.map_inj_right fun _ _ heq => Name.text.inj heq).1 (Except.ok.inj hfirst)
  obtain rfl := (List.map_inj_right fun _ _ heq => Name.text.inj heq).1 horder
  exact ⟨by decide, hinitial, hrun, hneed "Title" "Footer" (by simp [Precedes]) (by simp [Precedes])⟩

end Order
end UsageOrder
