import Mathlib
import UsageOrder.Proofs.Levels
import UsageOrder.Proofs.Outcome
import UsageOrder.Proofs.Renaming

/-!
# The desired order of names

Names are texts here, and so are prerequisites.  The order that is found is a rearrangement of the
names in which every prerequisite stands before the names that require it
(`reconcileRanked_sound`).  It is found within one pass more than the longest chain of prerequisites
has steps, so with as many passes as there are names the only thing that can go wrong is a cycle
(`reconcileRanked_passes`).
-/

namespace UsageOrder

/-! ### Sorting by insertion -/

namespace Insertion

variable {α : Type} (before : α → α → Bool)

theorem risingFrom_append (last : α) (items : List α) :
    (risingFrom before last items).1 ++ (risingFrom before last items).2 = items := by
  induction items generalizing last with
  | nil => rfl
  | cons item items ih =>
    rw [risingFrom]
    split
    · rfl
    · exact congrArg (item :: ·) (ih item)

/-- A falling run goes on where a rising one would end. -/
theorem fallingFrom_eq (last : α) (items : List α) :
    fallingFrom before last items = risingFrom (fun a b => !before a b) last items := by
  induction items generalizing last with
  | nil => rfl
  | cons item items ih =>
    rw [fallingFrom, risingFrom, ih]
    cases before item last <;> rfl

theorem fallingFrom_append (last : α) (items : List α) :
    (fallingFrom before last items).1 ++ (fallingFrom before last items).2 = items := by
  rw [fallingFrom_eq]
  exact risingFrom_append _ last items

theorem firstRun_perm (items : List α) :
    ((firstRun before items).1 ++ (firstRun before items).2).Perm items := by
  unfold firstRun
  split
  · exact List.Perm.refl _
  · exact List.Perm.refl _
  · rename_i first second items
    split
    · have happend := fallingFrom_append before second items
      refine ((List.reverse_perm _).append_right _).trans ?_
      rw [List.cons_append, List.cons_append, happend]
    · have happend := risingFrom_append before second items
      simp only [List.cons_append, happend]
      exact List.Perm.refl _

theorem placeOf_le (sorted : List α) (item : α) (fuel low high : Nat) (h : low ≤ high) :
    placeOf before sorted item fuel low high ≤ high := by
  induction fuel generalizing low high with
  | zero => exact h
  | succ fuel ih =>
    rw [placeOf]
    split
    · rename_i hlt
      dsimp only
      split
      · exact (ih low _ (by omega)).trans (by omega)
      · exact ih _ high (by omega)
    · exact h

theorem insert_perm (sorted : List α) (item : α) :
    (insert before sorted item).Perm (item :: sorted) :=
  List.perm_insertIdx item sorted (placeOf_le before sorted item _ 0 sorted.length (Nat.zero_le _))

/-- Sorting by insertion only rearranges the items. -/
theorem sort_perm (items : List α) : (sort before items).Perm items := by
  have hfold : ∀ rest run : List α, (rest.foldl (insert before) run).Perm (run ++ rest) := by
    intro rest
    induction rest with
    | nil => intro run; rw [List.append_nil]; exact List.Perm.refl _
    | cons item rest ih =>
      intro run
      refine (ih _).trans (((insert_perm before run item).append_right rest).trans ?_)
      exact List.perm_middle.symm
  exact (hfold _ _).trans (firstRun_perm before items)

end Insertion

/-! ### Names that are texts -/

theorem keepsApart_text : KeepsApart Name.text := by
  intro a b
  rw [Bool.eq_iff_iff, Name.beq_iff_key_eq, beq_iff_eq]
  simp [Name.key]

/-- A rank for every name, and each of them a number. -/
def Ranks.Cover (ranks : Ranks) (names : List String) : Prop :=
  ∀ name ∈ names, ∃ rank, ranks.lookup (.text name) = some rank ∧ rank.value.size?.isSome = true

theorem Ranks.cover_iff {ranks : Ranks} {names : List String} : ranks.Cover names ↔
    ∀ name ∈ names, (ranks.lookup (.text name)).any (fun rank => rank.value.size?.isSome) = true := by
  simp only [Ranks.Cover, Option.any_eq_true]

instance (ranks : Ranks) (names : List String) : Decidable (ranks.Cover names) :=
  decidable_of_iff' _ Ranks.cover_iff

namespace Order

theorem followed_texts (prerequisites : Prerequisites String) :
    followed (prerequisites.rename .text) = prerequisites.rename .text := by
  have hall : ∀ others : List String,
      (others.map Name.text).takeWhile (fun name => !(name == Name.null)) = others.map .text := by
    intro others
    rw [List.takeWhile_eq_self_iff]
    intro name hname
    obtain ⟨s, -, rfl⟩ := List.mem_map.1 hname
    rfl
  rw [followed, Prerequisites.rename, List.map_map]
  refine List.map_congr_left fun entry _ => ?_
  simp only [Function.comp_apply, Prerequisites.renameEntry, hall]

/-- The search for a cycle among prerequisites that are texts. -/
theorem refuseCycle_texts (prerequisites : Prerequisites String) :
    refuseCycle (prerequisites.rename .text) =
      match prerequisites.cycle? with
      | some path => .error (.unresolvable (.cycle path))
      | none => .ok () := by
  have hexplore := Prerequisites.explore_rename keepsApart_text prerequisites
  have hcomposite :
      (prerequisites.explore.finished.map Name.text).any Name.isComposite = false := by
    rw [List.any_map, List.any_eq_false]
    exact fun _ _ => Bool.false_ne_true
  have hcycle : cycleOfNames (prerequisites.rename .text) =
      .ok (prerequisites.cycle?.map (List.map .text)) := by
    rw [cycleOfNames, followed_texts, hexplore]
    simp only [Prerequisites.Explored.rename, hcomposite, Bool.false_eq_true, if_false]
    rfl
  rw [refuseCycle, hcycle]
  cases prerequisites.cycle? with
  | none => rfl
  | some path =>
    have htexts : Name.texts (path.map .text) = .ok path := Name.texts_eq_ok_iff.2 rfl
    simp only [Option.map_some, bind, Except.bind, htexts]

/-! ### The first order -/

theorem initialRanked_perm {names start : List Name} {ranks : Ranks}
    (h : initialRanked names ranks = .ok start) : start.Perm names := by
  obtain ⟨keys, -, h⟩ := bind_eq_ok_iff.1 h
  split at h
  · exact absurd h (by simp)
  · split at h
    · obtain rfl := Except.ok.inj h
      exact Insertion.sort_perm _ names
    · obtain rfl := Except.ok.inj h
      exact List.mergeSort_perm names _

/-- Names whose ranks are numbers can be ordered by them. -/
theorem initialRanked_returns {names : List String} {ranks : Ranks} (h : ranks.Cover names) :
    ∃ start, initialRanked (names.map .text) ranks = .ok start := by
  have hkeys : ∃ keys, (names.map Name.text).mapM
      (fun name => do .ok (← ranks.require name).value) = Except.ok keys ∧
        keys.all (fun value => value.size?.isSome) = true := by
    induction names with
    | nil => exact ⟨[], rfl, rfl⟩
    | cons name names ih =>
      obtain ⟨rank, hrank, hsize⟩ := h name (List.mem_cons_self ..)
      obtain ⟨keys, hkeys, hall⟩ := ih fun other hother => h other (List.mem_cons_of_mem _ hother)
      refine ⟨rank.value :: keys, mapM_cons_eq_ok_iff.2 ⟨_, _, ?_, hkeys, rfl⟩, ?_⟩
      · have hrequire : ranks.require (.text name) = .ok rank := by
          simp only [Ranks.require, Name.usable, Name.isComposite, Bool.false_eq_true, if_false,
            bind, Except.bind, hrank]
        simp only [hrequire, bind, Except.bind]
      · rw [List.all_cons, hsize, hall]
        rfl
  obtain ⟨keys, hkeys, hall⟩ := hkeys
  have hcomparable : Json.mutuallyComparable keys = true := by
    rw [Json.mutuallyComparable, hall]
    rfl
  cases hundefined : keys.any Json.isUndefined with
  | true => exact ⟨_, bind_eq_ok_iff.2 ⟨keys, hkeys, by rw [hcomparable, hundefined]; rfl⟩⟩
  | false => exact ⟨_, bind_eq_ok_iff.2 ⟨keys, hkeys, by rw [hcomparable, hundefined]; rfl⟩⟩

/-- What is an arrangement of texts is made of texts. -/
theorem exists_texts_of_perm {names : List Name} {ss : List String}
    (h : names.Perm (ss.map .text)) : ∃ ts : List String, names = ts.map .text ∧ ts.Perm ss := by
  have hrange : names ∈ Set.range (List.map Name.text) := by
    rw [Set.range_list_map]
    intro name hname
    obtain ⟨s, -, hs⟩ := List.mem_map.1 (h.mem_iff.1 hname)
    exact ⟨s, hs⟩
  obtain ⟨ts, rfl⟩ := hrange
  exact ⟨ts, rfl, (List.map_perm_map_iff fun _ _ heq => Name.text.inj heq).1 h⟩

/-! ### The whole run -/

/-- **A run over texts.**  It succeeds exactly when there is no cycle and the passes settle an order
that starts from the order of the ranks. -/
theorem reconcileRanked_eq_ok_iff {names : List String} {ranks : Ranks}
    {prerequisites : Prerequisites String} {maxPasses : Json} {settled : Settled Name} :
    reconcileRanked (names.map .text) ranks (prerequisites.rename .text) maxPasses = .ok settled ↔
      prerequisites.cycle? = none ∧ ∃ first limit result,
        initialRanked (names.map .text) ranks = .ok (first.map .text) ∧
          passLimit maxPasses = .ok limit ∧ settle prerequisites limit 0 first = some result ∧
          settled = renameSettled .text result := by
  rw [reconcileRanked, refuseCycle_texts]
  cases prerequisites.cycle? with
  | some path => simp [bind, Except.bind]
  | none =>
    simp only [bind, Except.bind, true_and]
    constructor
    · intro h
      obtain ⟨start, hstart, h⟩ := bind_eq_ok_iff.1 h
      obtain ⟨-, -, h⟩ := bind_eq_ok_iff.1 h
      obtain ⟨limit, hlimit, h⟩ := bind_eq_ok_iff.1 h
      obtain ⟨first, rfl, -⟩ := exists_texts_of_perm (initialRanked_perm hstart)
      rw [settle_rename keepsApart_text] at h
      cases hsettle : settle prerequisites limit 0 first with
      | none => rw [hsettle] at h; exact absurd h (by simp)
      | some result =>
        rw [hsettle] at h
        exact ⟨first, limit, result, hstart, hlimit, hsettle, (Except.ok.inj h).symm⟩
    · rintro ⟨first, limit, result, hstart, hlimit, hsettle, rfl⟩
      have htexts : Name.texts (first.map .text) = .ok first := Name.texts_eq_ok_iff.2 rfl
      rw [settleRanked, hstart]
      simp only [bind, Except.bind, htexts, hlimit, settle_rename keepsApart_text, hsettle,
        Option.map_some]

theorem renameSettled_order (settled : Settled String) :
    (renameSettled Name.text settled).order = settled.order.map .text := rfl

theorem renameSettled_passes (settled : Settled String) :
    (renameSettled Name.text settled).passes = settled.passes := rfl

/-- Only texts can be put in order. -/
theorem exists_texts_of_reconcileRanked {names : List Name} {ranks : Ranks}
    {prerequisites : Prerequisites Name} {maxPasses : Json} {settled : Settled Name}
    (h : reconcileRanked names ranks prerequisites maxPasses = .ok settled) :
    ∃ ss : List String, names = ss.map .text := by
  obtain ⟨-, -, h⟩ := bind_eq_ok_iff.1 h
  obtain ⟨start, hstart, h⟩ := bind_eq_ok_iff.1 h
  obtain ⟨first, hfirst, -⟩ := bind_eq_ok_iff.1 h
  obtain rfl := Name.texts_eq_ok_iff.1 hfirst
  have hperm := initialRanked_perm hstart
  obtain ⟨ss, hss, -⟩ := exists_texts_of_perm hperm.symm
  exact ⟨ss, hss⟩

/-- In the order that is found every name is satisfied. -/
theorem reconcileRanked_satisfied {names : List String} (hnodup : names.Nodup) {ranks : Ranks}
    {prerequisites : Prerequisites String} {maxPasses : Json} {settled : Settled Name}
    (h : reconcileRanked (names.map .text) ranks (prerequisites.rename .text) maxPasses =
      .ok settled) :
    ∃ order : List String, settled.order = order.map .text ∧ order.Perm names ∧
      ∀ name ∈ names, Satisfied prerequisites order name := by
  obtain ⟨hcycle, first, limit, result, hfirst, -, hsettle, rfl⟩ := reconcileRanked_eq_ok_iff.1 h
  obtain ⟨first', hmap, hperm⟩ := exists_texts_of_perm (initialRanked_perm hfirst)
  obtain rfl : first = first' := (List.map_inj_right fun _ _ heq => Name.text.inj heq).1 hmap
  have hnodup' : first.Nodup := hperm.nodup_iff.2 hnodup
  have hwf := Prerequisites.wellFounded_of_cycle?_eq_none hcycle
  have hresult : result.order.Perm names := (settle_sound hnodup' hsettle).1.trans hperm
  exact ⟨result.order, renameSettled_order result, hresult, fun name hname =>
    settle_satisfied hnodup' hwf hsettle (hresult.mem_iff.2 hname)⟩

/-- **The desired order is sound.**  Whatever the ranks and the allowed number of passes, an order
that is found lists the given names, none lost, added or repeated, and every prerequisite among them
stands before the name that has it.  Prerequisites may also be names that are not listed. -/
theorem reconcileRanked_sound {names : List String} (hnodup : names.Nodup) {ranks : Ranks}
    {prerequisites : Prerequisites String} {maxPasses : Json} {settled : Settled Name}
    (h : reconcileRanked (names.map .text) ranks (prerequisites.rename .text) maxPasses =
      .ok settled) :
    ∃ order : List String, settled.order = order.map .text ∧ order.Perm names ∧
      ∀ name ∈ names, ∀ other ∈ prerequisites.before name, other ∈ names →
        order.idxOf other < order.idxOf name := by
  obtain ⟨order, horder, hperm, hsat⟩ := reconcileRanked_satisfied hnodup h
  refine ⟨order, horder, hperm, fun name hname other hother hmem => ?_⟩
  have hprecedes := hsat name hname other hother (hperm.mem_iff.2 hmem)
  exact hprecedes.idxOf_lt (hperm.nodup_iff.2 hnodup)

/-- A chain whose ranks run against it, with a prerequisite that is not listed: it takes one pass
more than the chain has steps. -/
theorem reconcileRanked_sound_chain :
    ["A", "B", "C"].Nodup ∧
      reconcileRanked (["A", "B", "C"].map .text)
        [(.text "A", ⟨.int 3⟩), (.text "B", ⟨.int 2⟩), (.text "C", ⟨.int 1⟩)]
        (Prerequisites.rename .text [("B", ["A"]), ("C", ["B", "X"])]) (.int 3) =
          .ok ⟨["A", "B", "C"].map .text, 3⟩ ∧
      ∃ order : List String, ["A", "B", "C"].map Name.text = order.map .text ∧
        order.Perm ["A", "B", "C"] ∧ ∀ name ∈ ["A", "B", "C"],
          ∀ other ∈ Prerequisites.before [("B", ["A"]), ("C", ["B", "X"])] name,
            other ∈ ["A", "B", "C"] → order.idxOf other < order.idxOf name := by
  have hrun : reconcileRanked (["A", "B", "C"].map .text)
      [(.text "A", ⟨.int 3⟩), (.text "B", ⟨.int 2⟩), (.text "C", ⟨.int 1⟩)]
      (Prerequisites.rename .text [("B", ["A"]), ("C", ["B", "X"])]) (.int 3) =
        .ok ⟨["A", "B", "C"].map .text, 3⟩ :=
    reconcileRanked_eq_ok_iff.2
      ⟨by cbv, ["C", "B", "A"], 3, ⟨["A", "B", "C"], 3⟩, by cbv, rfl, by decide, rfl⟩
  exact ⟨by decide, hrun, reconcileRanked_sound (by decide) hrun⟩

/-- Without a cycle an order is found, in one pass more than chains have steps. -/
theorem reconcileRanked_returns {names : List String} (hnodup : names.Nodup) {ranks : Ranks}
    (hranks : ranks.Cover names) {prerequisites : Prerequisites String}
    (hacyclic : prerequisites.Acyclic) {d : Nat}
    (hd : d ∈ upperBounds (chainSteps prerequisites names)) {maxPasses : Int}
    (hmax : d + 1 ≤ maxPasses) :
    ∃ settled, reconcileRanked (names.map .text) ranks (prerequisites.rename .text)
      (.int maxPasses) = .ok settled ∧ settled.passes ≤ d + 1 := by
  obtain ⟨start, hstart⟩ := initialRanked_returns hranks
  obtain ⟨first, rfl, hperm⟩ := exists_texts_of_perm (initialRanked_perm hstart)
  have hlevel : ∀ name ∈ first, Level prerequisites first d name := fun name hname =>
    (level_congr hperm d name).2 (level_of_longest hd (hperm.mem_iff.1 hname))
  obtain ⟨result, hsettle, hpasses⟩ := @settle_returns _ _ prerequisites _ d 0 maxPasses.toNat 0
    first (hperm.nodup_iff.2 hnodup) hlevel (satisfiedUpTo_zero first) (Nat.zero_le d) (by omega)
  refine ⟨renameSettled .text result, reconcileRanked_eq_ok_iff.2
    ⟨Prerequisites.cycle?_eq_none_iff.2 hacyclic, first, maxPasses.toNat, result, hstart, rfl,
      hsettle, rfl⟩, ?_⟩
  rw [renameSettled_passes]
  omega

/-- A cycle is reported as such. -/
theorem reconcileRanked_cycle {prerequisites : Prerequisites String} {path : List String}
    (h : prerequisites.cycle? = some path) (names : List Name) (ranks : Ranks) (maxPasses : Json) :
    reconcileRanked names ranks (prerequisites.rename .text) maxPasses =
      .error (.unresolvable (.cycle path)) := by
  rw [reconcileRanked, refuseCycle_texts, h]
  rfl

/-- **One pass more than the longest chain has steps is enough.**  Without a cycle there is a
longest chain of prerequisites inside the list, of `d` steps say, and `d + 1` allowed passes find an
order in as many passes at most.  So with as many allowed passes as there are names, and at least
one, the names cannot be put in order exactly when the prerequisites have a cycle. -/
theorem reconcileRanked_passes {names : List String} (hnodup : names.Nodup) {ranks : Ranks}
    (hranks : ranks.Cover names) (prerequisites : Prerequisites String) :
    (prerequisites.Acyclic → ∃ d, IsGreatest (chainSteps prerequisites names) d ∧
      ∀ maxPasses : Int, d + 1 ≤ maxPasses → ∃ settled,
        reconcileRanked (names.map .text) ranks (prerequisites.rename .text) (.int maxPasses) =
          .ok settled ∧ settled.passes ≤ d + 1) ∧
      ∀ maxPasses : Int, max 1 (names.length : Int) ≤ maxPasses →
        ((∃ cause, reconcileRanked (names.map .text) ranks (prerequisites.rename .text)
          (.int maxPasses) = .error (.unresolvable cause)) ↔ ¬ prerequisites.Acyclic) := by
  refine ⟨fun hacyclic => ?_, fun maxPasses hmax => ⟨?_, fun hcyclic => ?_⟩⟩
  · obtain ⟨d, hd, -⟩ := exists_longest hacyclic names
    exact ⟨d, hd, fun maxPasses hmax => reconcileRanked_returns hnodup hranks hacyclic hd.2 hmax⟩
  · rintro ⟨cause, hcause⟩ hacyclic
    obtain ⟨d, hd, hlength⟩ := exists_longest hacyclic names
    have hmax' : (d : Int) + 1 ≤ maxPasses := by omega
    obtain ⟨settled, hsettled, -⟩ := reconcileRanked_returns hnodup hranks hacyclic hd.2 hmax'
    exact absurd (hcause.symm.trans hsettled) (by simp)
  · cases hpath : prerequisites.cycle? with
    | none => exact absurd (Prerequisites.cycle?_eq_none_iff.1 hpath) hcyclic
    | some path => exact ⟨.cycle path, reconcileRanked_cycle hpath _ ranks _⟩

/-- A chain of two steps: three passes are enough, and no number of passes ends in a fault. -/
theorem reconcileRanked_passes_chain :
    ["A", "B", "C"].Nodup ∧
      Ranks.Cover [(.text "A", ⟨.int 3⟩), (.text "B", .infinite), (.text "C", ⟨.int 1⟩)]
        ["A", "B", "C"] ∧
      (∃ d, IsGreatest (chainSteps [("B", ["A"]), ("C", ["B"])] ["A", "B", "C"]) d ∧
        ∀ maxPasses : Int, d + 1 ≤ maxPasses → ∃ settled,
          reconcileRanked (["A", "B", "C"].map .text)
            [(.text "A", ⟨.int 3⟩), (.text "B", .infinite), (.text "C", ⟨.int 1⟩)]
            (Prerequisites.rename .text [("B", ["A"]), ("C", ["B"])]) (.int maxPasses) =
              .ok settled ∧ settled.passes ≤ d + 1) ∧
      ∀ maxPasses : Int, 3 ≤ maxPasses → ¬ ∃ cause,
        reconcileRanked (["A", "B", "C"].map .text)
          [(.text "A", ⟨.int 3⟩), (.text "B", .infinite), (.text "C", ⟨.int 1⟩)]
          (Prerequisites.rename .text [("B", ["A"]), ("C", ["B"])]) (.int maxPasses) =
            .error (.unresolvable cause) := by
  have hcover : Ranks.Cover [(.text "A", ⟨.int 3⟩), (.text "B", .infinite), (.text "C", ⟨.int 1⟩)]
      ["A", "B", "C"] := by decide
  have hacyclic : Prerequisites.Acyclic [("B", ["A"]), ("C", ["B"])] :=
    Prerequisites.cycle?_eq_none_iff.1 (by cbv)
  obtain ⟨hreturns, hfault⟩ := reconcileRanked_passes (by decide) hcover
    [("B", ["A"]), ("C", ["B"])]
  refine ⟨by decide, hcover, hreturns hacyclic, fun maxPasses hmax hcause => ?_⟩
  exact (hfault maxPasses (by simpa using hmax)).1 hcause hacyclic

end Order
end UsageOrder
