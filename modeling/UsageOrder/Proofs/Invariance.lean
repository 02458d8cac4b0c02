import UsageOrder.Proofs.Keys
import UsageOrder.Proofs.Parts
import UsageOrder.Proofs.Sorting

/-!
# What the desired order does not depend on

The desired order of different names without a cycle of prerequisites is decided by what is between
the names: which of them ranks below which other one, and which of them requires which other one.
So the ranks may be replaced by others with the same comparisons, the lists of prerequisites and the
entries that hold them may be put in another order, and under other names the same order comes out
under these names (`reconcileRanked_relative`).

The search for a cycle does go by the order of entries and lists, but without a cycle nothing is
left of its course (`reconcileRanked_eq_settleRanked`).
-/

namespace UsageOrder

/-! ### Other ranks -/

namespace Ranks

/-- Each two of the names compare the same way by the one ranks and by the other. -/
def ComparesAs (ranks others : Ranks) (names : List String) : Prop :=
  ∀ a ∈ names, ∀ b ∈ names, (ranks.ofText a).value.less (ranks.ofText b).value =
    (others.ofText a).value.less (others.ofText b).value

instance (ranks others : Ranks) (names : List String) :
    Decidable (ranks.ComparesAs others names) :=
  inferInstanceAs (Decidable (∀ a ∈ names, ∀ b ∈ names, _ = _))

end Ranks

namespace Order

/-- **Only the comparisons of the ranks count,** even where a rank is no number. -/
theorem initialRanked_congr {names : List String} (hnodup : names.Nodup) {ranks others : Ranks}
    (hranks : ranks.Cover names) (hothers : others.Cover names)
    (h : ranks.ComparesAs others names) :
    initialRanked (names.map .text) ranks = initialRanked (names.map .text) others := by
  rw [initialRanked_eq_sort hnodup hranks, initialRanked_eq_sort hnodup hothers,
    Insertion.sort_congr h]

end Order

/-! ### Rearranged prerequisites -/

namespace Prerequisites

/-- The same entries in another order, each of which lists the same names in any order and any
number of times. -/
def Rearranged {α : Type} (prerequisites others : Prerequisites α) : Prop :=
  ∃ moved, prerequisites.Perm moved ∧ List.Forall₂
    (fun entry other => entry.1 = other.1 ∧ ∀ name, name ∈ entry.2 ↔ name ∈ other.2) moved others

variable {prerequisites others : Prerequisites String}

/-- Where the keys are different, the names required are those that an entry lists. -/
theorem mem_before_iff (hkeys : prerequisites.keys.Nodup) {name other : String} :
    other ∈ prerequisites.before name ↔
      ∃ listed, (name, listed) ∈ prerequisites ∧ other ∈ listed := by
  rw [before]
  constructor
  · intro h
    cases hlookup : prerequisites.lookup name with
    | none => rw [hlookup] at h; exact absurd h List.not_mem_nil
    | some listed => rw [hlookup] at h; exact ⟨listed, mem_of_lookup hlookup, h⟩
  · rintro ⟨listed, hmem, hother⟩
    rw [lookup_eq_some_of_mem hkeys hmem]
    exact hother

theorem Rearranged.nodup_keys (h : prerequisites.Rearranged others)
    (hkeys : prerequisites.keys.Nodup) : others.keys.Nodup := by
  obtain ⟨moved, hperm, hlists⟩ := h
  have hsame : List.Forall₂ Eq (keys moved) others.keys :=
    List.forall₂_map_left_iff.2 (List.forall₂_map_right_iff.2 (hlists.imp fun _ _ => And.left))
  rw [List.forall₂_eq_eq_eq] at hsame
  exact hsame ▸ (hperm.map Prod.fst).nodup_iff.1 hkeys

/-- **The same names are required after a rearrangement.** -/
theorem Rearranged.mem_before_iff (h : prerequisites.Rearranged others)
    (hkeys : prerequisites.keys.Nodup) (name other : String) :
    other ∈ prerequisites.before name ↔ other ∈ others.before name := by
  rw [Prerequisites.mem_before_iff hkeys, Prerequisites.mem_before_iff (h.nodup_keys hkeys)]
  obtain ⟨moved, hperm, hlists⟩ := h
  constructor
  · rintro ⟨listed, hmem, hother⟩
    obtain ⟨⟨_, listed'⟩, hmem', rfl, hsame⟩ :=
      exists_mem_of_forall₂ hlists (hperm.mem_iff.1 hmem)
    exact ⟨listed', hmem', (hsame other).1 hother⟩
  · rintro ⟨listed, hmem, hother⟩
    obtain ⟨⟨_, listed'⟩, hmem', rfl, hsame⟩ := exists_mem_of_forall₂ hlists.flip hmem
    exact ⟨listed', hperm.mem_iff.2 hmem', (hsame other).2 hother⟩

end Prerequisites

namespace Order

/-- Without a cycle nothing is left of the search for one. -/
theorem reconcileRanked_eq_settleRanked {prerequisites : Prerequisites String}
    (h : prerequisites.Acyclic) (names : List Name) (ranks : Ranks) (maxPasses : Json) :
    reconcileRanked names ranks (prerequisites.rename .text) maxPasses =
      settleRanked names ranks (prerequisites.rename .text) maxPasses := by
  rw [reconcileRanked, refuseCycle_texts, Prerequisites.cycle?_eq_none_iff.2 h]
  rfl

/-- **Only what is required counts,** not how it is listed. -/
theorem settleRanked_congr {names : List String} (hnodup : names.Nodup)
    {prerequisites others : Prerequisites String}
    (h : ∀ name other, other ∈ prerequisites.before name ↔ other ∈ others.before name)
    (ranks : Ranks) (maxPasses : Json) :
    settleRanked (names.map .text) ranks (prerequisites.rename .text) maxPasses =
      settleRanked (names.map .text) ranks (others.rename .text) maxPasses := by
  rw [settleRanked, settleRanked]
  cases hstart : initialRanked (names.map .text) ranks with
  | error fault => rfl
  | ok start =>
    obtain ⟨first, rfl, hperm⟩ := exists_texts_of_perm (initialRanked_perm hstart)
    have hsettle : ∀ limit, settle (prerequisites.rename .text) limit 0 (first.map Name.text) =
        settle (others.rename .text) limit 0 (first.map .text) := fun limit => by
      rw [settle_rename keepsApart_text, settle_rename keepsApart_text,
        settle_congr (hperm.nodup_iff.2 hnodup) fun name _ => h name]
    simp only [bind, Except.bind, hsettle]

end Order

/-! ### Other names -/

namespace Name

variable {f : String → String}

/-- A name with its text renamed; a name that is no text stays as it is. -/
def rename (f : String → String) : Name → Name
  | .text s => .text (f s)
  | name => name

/-- What a renamed name is compared by. -/
def Key.rename (f : String → String) : Key → Key
  | .text s => .text (f s)
  | key => key

theorem key_rename (f : String → String) (name : Name) :
    (name.rename f).key = name.key.rename f := by
  cases name with
  | real x => cases x <;> rfl
  | _ => rfl

theorem Key.rename_injective (hf : Function.Injective f) : Function.Injective (Key.rename f) := by
  intro a b h
  cases a <;> cases b <;> simp_all [Key.rename, hf.eq_iff]

theorem keepsApart_rename (hf : Function.Injective f) : KeepsApart (rename f) := by
  intro a b
  rw [Bool.eq_iff_iff, beq_iff_key_eq, beq_iff_key_eq, key_rename, key_rename,
    (Key.rename_injective hf).eq_iff]

theorem usable_rename (name : Name) : (name.rename f).usable = name.usable.map (rename f) := by
  cases name <;> rfl

theorem texts_rename (names : List Name) :
    texts (names.map (rename f)) = (texts names).map (List.map f) := by
  have htext : ∀ name : Name, (name.rename f).toText = name.toText.map f := by
    intro name
    cases name <;> rfl
  induction names with
  | nil => rfl
  | cons name names ih =>
    rw [texts] at ih
    rw [texts, texts, List.map_cons, List.mapM_cons, List.mapM_cons, htext, ih, texts]
    cases name.toText with
    | error fault => rfl
    | ok s => cases names.mapM toText <;> rfl

end Name

namespace Ranks

/-- The ranks with all names renamed. -/
def rename (f : String → String) (ranks : Ranks) : Ranks :=
  ranks.map fun entry => (entry.1.rename f, entry.2)

variable {f : String → String}

theorem lookup_rename (hf : Function.Injective f) (ranks : Ranks) (name : Name) :
    (ranks.rename f).lookup (name.rename f) = ranks.lookup name := by
  induction ranks with
  | nil => rfl
  | cons entry ranks ih =>
    rw [rename, List.map_cons, List.lookup_cons, List.lookup_cons,
      Name.keepsApart_rename hf name entry.1]
    cases name == entry.1 with
    | true => rfl
    | false => exact ih

theorem of_rename (hf : Function.Injective f) (ranks : Ranks) (name : Name) :
    (ranks.rename f).of (name.rename f) = ranks.of name := by
  rw [Ranks.of, Ranks.of, lookup_rename hf]

theorem require_rename (hf : Function.Injective f) (ranks : Ranks) (name : Name) :
    (ranks.rename f).require (name.rename f) = ranks.require name := by
  rw [require, require, Name.usable_rename]
  cases husable : name.usable with
  | error fault => rfl
  | ok usable => simp only [Except.map, bind, Except.bind, lookup_rename hf]

end Ranks

namespace Prerequisites

theorem rename_text (f : String → String) (prerequisites : Prerequisites String) :
    (prerequisites.rename f).rename Name.text =
      (prerequisites.rename Name.text).rename (Name.rename f) := by
  simp [rename, renameEntry, Function.comp_def, Name.rename]

theorem Acyclic.rename {f : String → String} (hf : Function.Injective f)
    {prerequisites : Prerequisites String} (h : prerequisites.Acyclic) :
    (prerequisites.rename f).Acyclic := by
  have hapart : KeepsApart f := fun a b => by
    rw [Bool.eq_iff_iff, beq_iff_eq, beq_iff_eq, hf.eq_iff]
  have hnone := cycle?_eq_none_iff.2 h
  rw [cycle?] at hnone
  rw [← cycle?_eq_none_iff, cycle?, explore_rename hapart, Explored.rename, hnone]
  rfl

end Prerequisites

namespace Order

variable {f : String → String}

/-- The first order is the same under other names. -/
theorem initialRanked_rename (hf : Function.Injective f) (names : List Name) (ranks : Ranks) :
    initialRanked (names.map (Name.rename f)) (ranks.rename f) =
      (initialRanked names ranks).map (List.map (Name.rename f)) := by
  have hkeys : (names.map (Name.rename f)).mapM
      (fun name => do .ok (← (ranks.rename f).require name).value) =
        names.mapM (fun name => do .ok (← ranks.require name).value) := by
    rw [List.mapM_map]
    simp only [Function.comp_def, Ranks.require_rename hf]
  have hsort : Insertion.sort (fun a b => ((ranks.rename f).of a).value.less
      ((ranks.rename f).of b).value) (names.map (Name.rename f)) =
        (Insertion.sort (fun a b => (ranks.of a).value.less (ranks.of b).value) names).map
          (Name.rename f) :=
    Insertion.sort_map fun a _ b _ => by rw [Ranks.of_rename hf, Ranks.of_rename hf]
  have hinitial : initial (names.map (Name.rename f)) (ranks.rename f).of =
      (initial names ranks.of).map (Name.rename f) :=
    (List.map_mergeSort fun a _ b _ => by rw [Ranks.of_rename hf, Ranks.of_rename hf]).symm
  rw [initialRanked, initialRanked, hkeys, hsort, hinitial]
  cases names.mapM (fun name => do .ok (← ranks.require name).value) with
  | error fault => rfl
  | ok keys =>
    simp only [bind, Except.bind]
    split_ifs <;> rfl

/-- **A run is the same under other names.** -/
theorem settleRanked_rename (hf : Function.Injective f) (names : List Name) (ranks : Ranks)
    (prerequisites : Prerequisites Name) (maxPasses : Json) :
    settleRanked (names.map (Name.rename f)) (ranks.rename f)
        (prerequisites.rename (Name.rename f)) maxPasses =
      (settleRanked names ranks prerequisites maxPasses).map (renameSettled (Name.rename f)) := by
  rw [settleRanked, settleRanked, initialRanked_rename hf]
  cases initialRanked names ranks with
  | error fault => rfl
  | ok start =>
    simp only [Except.map, bind, Except.bind, Name.texts_rename,
      settle_rename (Name.keepsApart_rename hf)]
    cases Name.texts start with
    | error fault => rfl
    | ok texts =>
      cases passLimit maxPasses with
      | error fault => rfl
      | ok limit =>
        dsimp only
        cases settle prerequisites limit 0 start <;> rfl

/-! ### The desired order -/

/-- **The desired order depends on relative information only.**  Let the names be different and
their prerequisites without a cycle, so that as many passes as there are names find an order.  Then
the order and the number of passes, and the fault if there is one, are the same for other ranks that
compare the names the same way and for prerequisites that are listed in another way; and under other
names the order is the same order of these. -/
theorem reconcileRanked_relative {names : List String} (hnodup : names.Nodup) (ranks : Ranks)
    {prerequisites : Prerequisites String} (hacyclic : prerequisites.Acyclic) :
    (ranks.Cover names → ∀ maxPasses : Int, max 1 (names.length : Int) ≤ maxPasses →
      ∃ settled, reconcileRanked (names.map .text) ranks (prerequisites.rename .text)
        (.int maxPasses) = .ok settled) ∧
    ∀ maxPasses : Json,
      (ranks.Cover names → ∀ ranks' : Ranks, ranks'.Cover names → ranks.ComparesAs ranks' names →
        reconcileRanked (names.map .text) ranks' (prerequisites.rename .text) maxPasses =
          reconcileRanked (names.map .text) ranks (prerequisites.rename .text) maxPasses) ∧
      (prerequisites.keys.Nodup → ∀ prerequisites', prerequisites.Rearranged prerequisites' →
        reconcileRanked (names.map .text) ranks (prerequisites'.rename .text) maxPasses =
          reconcileRanked (names.map .text) ranks (prerequisites.rename .text) maxPasses) ∧
      ∀ f : String → String, Function.Injective f →
        reconcileRanked ((names.map f).map .text) (ranks.rename f)
            ((prerequisites.rename f).rename .text) maxPasses =
          (reconcileRanked (names.map .text) ranks (prerequisites.rename .text) maxPasses).map
            (renameSettled (Name.rename f)) := by
  refine ⟨fun hranks maxPasses hmax => ?_, fun maxPasses =>
    ⟨fun hranks ranks' hranks' hcompare => ?_, fun hkeys others hothers => ?_, fun f hf => ?_⟩⟩
  · obtain ⟨d, hd, hlength⟩ := exists_longest hacyclic names
    have hmax' : (d : Int) + 1 ≤ maxPasses := by omega
    obtain ⟨settled, hsettled, -⟩ := reconcileRanked_returns hnodup hranks hacyclic hd.2 hmax'
    exact ⟨settled, hsettled⟩
  · rw [reconcileRanked, reconcileRanked, settleRanked, settleRanked,
      initialRanked_congr hnodup hranks hranks' hcompare]
  · have hsame := hothers.mem_before_iff hkeys
    have hrequires : others.Requires = prerequisites.Requires :=
      funext₂ fun name other => propext (hsame name other).symm
    have hacyclic' : others.Acyclic := by rwa [Prerequisites.Acyclic, hrequires]
    rw [reconcileRanked_eq_settleRanked hacyclic, reconcileRanked_eq_settleRanked hacyclic',
      settleRanked_congr hnodup hsame]
  · have hnames : (names.map f).map Name.text = (names.map .text).map (Name.rename f) := by
      simp [Name.rename, Function.comp_def]
    rw [reconcileRanked_eq_settleRanked hacyclic,
      reconcileRanked_eq_settleRanked (hacyclic.rename hf), hnames, Prerequisites.rename_text,
      settleRanked_rename hf]

/-- Three names that come out in order after two passes: also by other ranks, with the prerequisites
listed the other way round and repeatedly, and with a sign in front of each name. -/
theorem reconcileRanked_relative_signed :
    reconcileRanked (["A", "B", "C"].map .text)
      [(.text "A", ⟨.int 3⟩), (.text "B", .infinite), (.text "C", ⟨.int 1⟩)]
      (Prerequisites.rename .text [("B", ["A"]), ("C", ["B", "X"])]) (.int 1000) =
        .ok ⟨["A", "B", "C"].map .text, 2⟩ ∧
    reconcileRanked (["A", "B", "C"].map .text)
      [(.text "C", ⟨.int (-5)⟩), (.text "A", ⟨.bool true⟩), (.text "B", ⟨.int 100⟩)]
      (Prerequisites.rename .text [("B", ["A"]), ("C", ["B", "X"])]) (.int 1000) =
        .ok ⟨["A", "B", "C"].map .text, 2⟩ ∧
    reconcileRanked (["A", "B", "C"].map .text)
      [(.text "A", ⟨.int 3⟩), (.text "B", .infinite), (.text "C", ⟨.int 1⟩)]
      (Prerequisites.rename .text [("C", ["X", "B", "X"]), ("B", ["A", "A"])]) (.int 1000) =
        .ok ⟨["A", "B", "C"].map .text, 2⟩ ∧
    reconcileRanked (["$A", "$B", "$C"].map .text)
      [(.text "$A", ⟨.int 3⟩), (.text "$B", .infinite), (.text "$C", ⟨.int 1⟩)]
      (Prerequisites.rename .text [("$B", ["$A"]), ("$C", ["$B", "$X"])]) (.int 1000) =
        .ok ⟨["$A", "$B", "$C"].map .text, 2⟩ := by
  have hrun : reconcileRanked (["A", "B", "C"].map .text)
      [(.text "A", ⟨.int 3⟩), (.text "B", .infinite), (.text "C", ⟨.int 1⟩)]
      (Prerequisites.rename .text [("B", ["A"]), ("C", ["B", "X"])]) (.int 1000) =
        .ok ⟨["A", "B", "C"].map .text, 2⟩ :=
    reconcileRanked_eq_ok_iff.2
      ⟨by cbv, ["C", "A", "B"], 1000, ⟨["A", "B", "C"], 2⟩, by cbv, rfl, by decide, rfl⟩
  have hnodup : ["A", "B", "C"].Nodup := by decide
  obtain ⟨hranks, hlists, hnames⟩ := (reconcileRanked_relative hnodup
    [(.text "A", ⟨.int 3⟩), (.text "B", .infinite), (.text "C", ⟨.int 1⟩)]
    (Prerequisites.cycle?_eq_none_iff.1 (by cbv) : Prerequisites.Acyclic
      [("B", ["A"]), ("C", ["B", "X"])])).2 (.int 1000)
  rw [hrun] at hranks hlists hnames
  refine ⟨hrun, hranks (by decide) _ (by decide) (by decide), hlists (by decide) _ ?_,
    hnames ("$" ++ ·) fun a b h => by simpa using h⟩
  refine ⟨_, List.Perm.swap .., .cons ⟨rfl, fun name => ?_⟩ (.cons ⟨rfl, fun name => ?_⟩ .nil)⟩
  · simp only [List.mem_cons, List.not_mem_nil, or_false]
    tauto
  · simp

end Order
end UsageOrder
