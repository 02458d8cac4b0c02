import Mathlib.Data.List.Nodup
import Mathlib.Data.List.Permutation
import UsageOrder.Patch.Fixes

/-!
# Fixes are applied all at once

The fixes that are taken come in the order of the text, and none of them overlaps one taken before
it, so each ends before the next one starts (`accepted_apart`).  A fix that is applied to a text
whose end has already been changed sees the old text in front of its own end.  Applying the fixes
one by one from the last to the first therefore replaces all their ranges at once
(`applyFixes_text`).  A fix that is left out overlaps a taken one that does not come after it
(`exists_left_out`), and where no two fixes have the same range there is only one order of the text,
so that it does not matter in which order they were reported (`sorted_eq_of_perm`).
-/

namespace UsageOrder

namespace Text

variable {text : Text} {a b c : Int}

theorem clamp_eq_toNat {length : Nat} (ha : 0 ≤ a) (hle : a ≤ length) :
    clamp length a = a.toNat := by
  unfold clamp
  rw [if_neg (by omega)]
  omega

theorem length_upTo (ha : 0 ≤ a) (hle : a ≤ text.length) : ((text.upTo a).length : Int) = a := by
  rw [upTo, clamp_eq_toNat ha hle, List.length_take]
  omega

theorem upTo_append_since (text : Text) (a : Int) : text.upTo a ++ text.since a = text :=
  List.take_append_drop _ text

/-- A text in front of an offset does not depend on what follows. -/
theorem upTo_append (rest : Text) (ha : 0 ≤ a) (hle : a ≤ text.length) :
    Text.upTo (text ++ rest) a = text.upTo a := by
  have hlong : a ≤ (text ++ rest).length := by
    rw [List.length_append]
    omega
  rw [upTo, upTo, clamp_eq_toNat ha hle, clamp_eq_toNat ha hlong,
    List.take_append_of_le_length (by omega)]

theorem since_append (text rest : Text) : Text.since (text ++ rest) text.length = rest := by
  have hlong : (text.length : Int) ≤ (text ++ rest).length := by
    rw [List.length_append]
    omega
  rw [since, clamp_eq_toNat (by omega) hlong, Int.toNat_natCast, List.drop_left]

theorem upTo_append_slice (ha : 0 ≤ a) (hab : a ≤ b) (hb : b ≤ text.length) :
    text.upTo a ++ text.slice a b = text.upTo b := by
  rw [upTo, slice, upTo, clamp_eq_toNat ha (by omega), clamp_eq_toNat (by omega) hb]
  have htake : text.take a.toNat = (text.take b.toNat).take a.toNat := by
    rw [List.take_take, Nat.min_eq_left (by omega)]
  rw [htake, List.take_append_drop]

/-- Two slices that meet are one. -/
theorem slice_append_slice (ha : 0 ≤ a) (hab : a ≤ b) (hbc : b ≤ c) (hc : c ≤ text.length) :
    text.slice a b ++ text.slice b c = text.slice a c := by
  have hwhole : text.upTo a ++ (text.slice a b ++ text.slice b c) =
      text.upTo a ++ text.slice a c := by
    rw [← List.append_assoc, upTo_append_slice ha hab (by omega),
      upTo_append_slice (by omega) hbc hc, upTo_append_slice ha (by omega) hc]
  exact List.append_cancel_left hwhole

theorem slice_length (text : Text) (a : Int) : text.slice a text.length = text.since a := by
  rw [slice, since, clamp_eq_toNat (by omega) (Int.le_refl _), Int.toNat_natCast,
    List.take_length]

theorem upTo_zero (text : Text) : text.upTo 0 = [] := by
  simp [upTo, clamp]

end Text

/-! ### Ranges that follow one another -/

namespace Range

/-- Ranges that follow one another between two offsets, without overlapping. -/
def InOrder (stop : Int) : Int → List Range → Prop
  | start, [] => start ≤ stop
  | start, range :: ranges =>
    start ≤ range.start ∧ range.start ≤ range.stop ∧ InOrder stop range.stop ranges

variable {start stop : Int} {ranges : List Range}

theorem InOrder.le (h : InOrder stop start ranges) : start ≤ stop := by
  induction ranges generalizing start with
  | nil => exact h
  | cons range ranges ih =>
    obtain ⟨hstart, hrange, hrest⟩ := h
    have := ih hrest
    omega

theorem inOrder_append_cons {front rest : List Range} {range : Range} :
    InOrder stop start (front ++ range :: rest) ↔
      InOrder range.start start front ∧ range.start ≤ range.stop ∧
        InOrder stop range.stop rest := by
  induction front generalizing start with
  | nil => exact Iff.rfl
  | cons first front ih =>
    rw [List.cons_append, InOrder, InOrder, ih]
    simp only [and_assoc]

theorem inOrder_of_pairwise (hle : start ≤ stop)
    (hinside : ∀ range ∈ ranges, start ≤ range.start ∧ range.start ≤ range.stop ∧
      range.stop ≤ stop)
    (hapart : ranges.Pairwise fun a b => a.stop ≤ b.start) : InOrder stop start ranges := by
  induction ranges generalizing start with
  | nil => exact hle
  | cons range ranges ih =>
    obtain ⟨hstart, hrange, hstop⟩ := hinside range (List.mem_cons_self ..)
    obtain ⟨hnext, hapart⟩ := List.pairwise_cons.1 hapart
    refine ⟨hstart, hrange, ih hstop (fun other hother => ?_) hapart⟩
    obtain ⟨-, hother', hinside⟩ := hinside other (List.mem_cons_of_mem _ hother)
    exact ⟨hnext other hother, hother', hinside⟩

end Range

namespace Edit

/-- The range that an edit replaces. -/
def range (edit : Edit) : Range := ⟨edit.start, edit.stop⟩

/-- A text from an offset on, with all edits made at once: what stands between them and what they
put, in turn. -/
def replaceAll (text : Text) : Int → List Edit → Text
  | offset, [] => text.since offset
  | offset, edit :: edits =>
    text.slice offset edit.start ++ edit.text ++ replaceAll text edit.stop edits

/-- An edit in front of a part that has been replaced sees the text as it was. -/
theorem apply_upTo_append {edit : Edit} {text : Text} (rest : Text) (hstart : 0 ≤ edit.start)
    (hrange : edit.start ≤ edit.stop) (hstop : edit.stop ≤ text.length) :
    edit.apply (text.upTo edit.stop ++ rest) = text.upTo edit.start ++ edit.text ++ rest := by
  have hlength : ((text.upTo edit.stop).length : Int) = edit.stop :=
    Text.length_upTo (by omega) hstop
  have hsince : Text.since (text.upTo edit.stop ++ rest) edit.stop = rest := by
    have := Text.since_append (text.upTo edit.stop) rest
    rwa [hlength] at this
  have hupTo : Text.upTo (text.upTo edit.stop ++ rest) edit.start = text.upTo edit.start := by
    rw [Text.upTo_append rest hstart (by omega)]
    -- What comes behind the offset in the text itself is left out in the same way.
    have := Text.upTo_append (text.since edit.stop) hstart
      (Int.le_trans hrange (Int.le_of_eq hlength.symm))
    rwa [Text.upTo_append_since, eq_comm] at this
  rw [apply, hupTo, hsince]

theorem le_trans {a b c : Edit} (hab : a.le b = true) (hbc : b.le c = true) : a.le c = true := by
  simp only [le, decide_eq_true_eq] at hab hbc ⊢
  omega

theorem le_total (a b : Edit) : (a.le b || b.le a) = true := by
  simp only [le, Bool.or_eq_true, decide_eq_true_eq]
  omega

theorem overlaps_comm (a b : Edit) : a.overlaps b = b.overlaps a := by
  simp only [overlaps, and_comm]

/-- Of two edits that do not overlap the one that comes first ends before the other one starts. -/
theorem stop_le_start {a b : Edit} (hb : b.start ≤ b.stop) (hle : a.le b = true)
    (hapart : b.overlaps a = false) : a.stop ≤ b.start := by
  simp only [le, decide_eq_true_eq] at hle
  simp only [overlaps, decide_eq_false_iff_not] at hapart
  omega

end Edit

/-! ### The fixes that are taken -/

namespace Fixable

variable {diagnostics : List Diagnostic}

theorem mem_sorted_iff {fixable : Fixable} :
    fixable ∈ sorted diagnostics ↔
      fixable.diagnostic ∈ diagnostics ∧ fixable.diagnostic.fix = some fixable.edit := by
  rw [sorted, List.mem_mergeSort, List.mem_filterMap]
  constructor
  · rintro ⟨diagnostic, hmem, h⟩
    obtain ⟨edit, hedit, rfl⟩ := Option.map_eq_some_iff.1 h
    exact ⟨hmem, hedit⟩
  · rintro ⟨hmem, hfix⟩
    exact ⟨fixable.diagnostic, hmem, by rw [hfix]; rfl⟩

theorem sorted_pairwise (diagnostics : List Diagnostic) :
    (sorted diagnostics).Pairwise fun a b => a.edit.le b.edit = true := by
  apply List.pairwise_mergeSort
  · intro a b c hab hbc
    exact Edit.le_trans hab hbc
  · intro a b
    exact Edit.le_total a.edit b.edit

/-- **What becomes of one fix:** it is left out, or it overlaps none that is taken and is added. -/
theorem take_cases (taken : List Fixable) (fixable : Fixable) :
    take taken fixable = taken ∨ (take taken fixable = taken ++ [fixable] ∧
      ∀ other ∈ taken, fixable.edit.overlaps other.edit = false) := by
  unfold take
  split
  · exact Or.inl rfl
  · rename_i hnone
    refine Or.inr ⟨rfl, fun other hother => ?_⟩
    rw [Bool.eq_false_iff]
    exact fun hoverlaps => hnone (List.any_eq_true.2 ⟨other, hother, hoverlaps⟩)

theorem foldl_take_sublist (taken fixes : List Fixable) :
    (fixes.foldl take taken).Sublist (taken ++ fixes) := by
  induction fixes generalizing taken with
  | nil => simp
  | cons fixable fixes ih =>
    rw [List.foldl_cons]
    refine (ih (take taken fixable)).trans ?_
    rcases take_cases taken fixable with h | ⟨h, -⟩
    · rw [h]
      exact (List.sublist_cons_self fixable fixes).append_left taken
    · have hsame : taken ++ [fixable] ++ fixes = taken ++ fixable :: fixes := by simp
      rw [h]
      exact hsame ▸ List.Sublist.refl _

theorem pairwise_foldl_take {taken : List Fixable} (fixes : List Fixable)
    (h : taken.Pairwise fun a b => b.edit.overlaps a.edit = false) :
    (fixes.foldl take taken).Pairwise fun a b => b.edit.overlaps a.edit = false := by
  induction fixes generalizing taken with
  | nil => exact h
  | cons fixable fixes ih =>
    rw [List.foldl_cons]
    apply ih
    rcases take_cases taken fixable with htake | ⟨htake, hnone⟩
    · rwa [htake]
    · rw [htake, List.pairwise_append]
      refine ⟨h, List.pairwise_singleton _ _, fun other hother last hlast => ?_⟩
      rw [List.mem_singleton.1 hlast]
      exact hnone other hother

theorem sublist_foldl_take (taken fixes : List Fixable) :
    taken.Sublist (fixes.foldl take taken) := by
  induction fixes generalizing taken with
  | nil => exact List.Sublist.refl _
  | cons fixable fixes ih =>
    refine List.Sublist.trans ?_ (ih (take taken fixable))
    rcases take_cases taken fixable with h | ⟨h, -⟩
    · exact h.symm ▸ List.Sublist.refl taken
    · exact h.symm ▸ List.sublist_append_left ..

/-- Where there is a fix, the first one is taken. -/
theorem accepted_ne_nil {fixable : Fixable} (h : fixable ∈ sorted diagnostics) :
    accepted diagnostics ≠ [] := by
  obtain ⟨first, fixes, heq⟩ := List.exists_cons_of_ne_nil (List.ne_nil_of_mem h)
  have hsub : [first].Sublist (accepted diagnostics) := by
    rw [accepted, heq]
    exact sublist_foldl_take [first] fixes
  exact List.ne_nil_of_mem (List.singleton_sublist.1 hsub)

theorem accepted_sublist (diagnostics : List Diagnostic) :
    (accepted diagnostics).Sublist (sorted diagnostics) :=
  foldl_take_sublist [] (sorted diagnostics)

/-- Nothing is taken exactly when there is nothing to be taken. -/
theorem accepted_eq_nil_iff :
    accepted diagnostics = [] ↔ ∀ diagnostic ∈ diagnostics, diagnostic.fix = none := by
  constructor
  · intro hnil diagnostic hmem
    cases hedit : diagnostic.fix with
    | none => rfl
    | some edit =>
      have hsorted : ⟨diagnostic, edit⟩ ∈ sorted diagnostics := mem_sorted_iff.2 ⟨hmem, hedit⟩
      exact absurd hnil (accepted_ne_nil hsorted)
  · intro hnone
    rw [List.eq_nil_iff_forall_not_mem]
    intro fixable hmem
    obtain ⟨hmem, hfix⟩ := mem_sorted_iff.1 ((accepted_sublist diagnostics).subset hmem)
    rw [hnone fixable.diagnostic hmem] at hfix
    cases hfix

/-- **What becomes of the fixes that are left out:** each overlaps one that is taken and does not
come after it. -/
theorem exists_left_out (taken fixes : List Fixable)
    (h : (taken ++ fixes).Pairwise fun a b => a.edit.le b.edit = true) :
    ∃ left : List Fixable, (taken ++ fixes).Perm (fixes.foldl take taken ++ left) ∧
      ∀ fixable ∈ left, ∃ other ∈ fixes.foldl take taken,
        fixable.edit.overlaps other.edit = true ∧ other.edit.le fixable.edit = true := by
  induction fixes generalizing taken with
  | nil => exact ⟨[], by simp, fun fixable hmem => absurd hmem List.not_mem_nil⟩
  | cons fixable fixes ih =>
    rw [List.foldl_cons]
    unfold take
    split
    · rename_i hany
      obtain ⟨other, hother, hoverlaps⟩ := List.any_eq_true.1 hany
      have hsub : (taken ++ fixes).Sublist (taken ++ fixable :: fixes) :=
        (List.sublist_cons_self fixable fixes).append_left taken
      obtain ⟨left, hperm, hleft⟩ := ih taken (h.sublist hsub)
      refine ⟨fixable :: left, ?_, ?_⟩
      · exact List.perm_middle.trans ((hperm.cons fixable).trans List.perm_middle.symm)
      · rw [List.forall_mem_cons]
        refine ⟨⟨other, (sublist_foldl_take taken fixes).subset hother, hoverlaps, ?_⟩, hleft⟩
        exact (List.pairwise_append.1 h).2.2 other hother fixable (List.mem_cons_self ..)
    · have hsame : taken ++ fixable :: fixes = taken ++ [fixable] ++ fixes := by simp
      rw [hsame] at h ⊢
      exact ih (taken ++ [fixable]) h

theorem map_diagnostic_sorted_perm (diagnostics : List Diagnostic) :
    (diagnostics.filter fun diagnostic => diagnostic.fix.isSome).Perm
      ((sorted diagnostics).map Fixable.diagnostic) := by
  have hfilter : (diagnostics.filterMap fun diagnostic =>
      diagnostic.fix.map (Fixable.mk diagnostic)).map Fixable.diagnostic =
        diagnostics.filter fun diagnostic => diagnostic.fix.isSome := by
    rw [List.map_filterMap, ← List.filterMap_eq_filter]
    congr 1
    funext diagnostic
    cases hfix : diagnostic.fix <;> simp [Option.guard, hfix]
  rw [← hfilter, sorted]
  exact (List.mergeSort_perm _ _).symm.map _

/-- The order in which fixes with distinct ranges are reported does not matter. -/
theorem sorted_eq_of_perm {others : List Diagnostic} (hperm : others.Perm diagnostics)
    (h : ((diagnostics.filterMap Diagnostic.fix).map Edit.range).Nodup) :
    sorted others = sorted diagnostics := by
  have hfixables := (List.mergeSort_perm (diagnostics.filterMap fun diagnostic =>
    diagnostic.fix.map (Fixable.mk diagnostic)) fun a b => a.edit.le b.edit)
  have hsorted : (sorted others).Perm (sorted diagnostics) :=
    (List.mergeSort_perm _ _).trans ((hperm.filterMap _).trans hfixables.symm)
  have hdistinct : ((sorted diagnostics).map fun fixable => fixable.edit.range).Nodup := by
    refine (hfixables.map _).nodup_iff.2 ?_
    have hedits : (diagnostics.filterMap Diagnostic.fix).map Edit.range =
        (diagnostics.filterMap fun diagnostic => diagnostic.fix.map (Fixable.mk diagnostic)).map
          fun fixable => fixable.edit.range := by
      simp only [List.map_filterMap, Option.map_map]
      rfl
    rwa [← hedits]
  refine hsorted.eq_of_pairwise (fun a b ha hb hab hba => ?_) (sorted_pairwise others)
    (sorted_pairwise diagnostics)
  refine List.inj_on_of_nodup_map hdistinct (hsorted.subset ha) hb ?_
  simp only [Edit.le, decide_eq_true_eq] at hab hba
  simp only [Edit.range, Range.mk.injEq]
  omega

/-- **A fix that is taken ends before the next one starts.** -/
theorem accepted_apart
    (h : ∀ fixable ∈ sorted diagnostics, fixable.edit.start ≤ fixable.edit.stop) :
    (accepted diagnostics).Pairwise fun a b => a.edit.stop ≤ b.edit.start := by
  have hsub := accepted_sublist diagnostics
  have hle := (sorted_pairwise diagnostics).sublist hsub
  have hnone : (accepted diagnostics).Pairwise fun a b => b.edit.overlaps a.edit = false :=
    pairwise_foldl_take _ List.Pairwise.nil
  refine (hle.and hnone).imp_of_mem fun {a b} _ hb hab => ?_
  exact Edit.stop_le_start (h b (hsub.subset hb)) hab.1 hab.2

/-- The edits that are made follow one another. -/
theorem inOrder_accepted {text : Text}
    (h : ∀ fixable ∈ sorted diagnostics, 0 ≤ fixable.edit.start ∧
      fixable.edit.start ≤ fixable.edit.stop ∧ fixable.edit.stop ≤ text.length) :
    Range.InOrder text.length 0
      ((accepted diagnostics).map fun fixable => fixable.edit.range) := by
  refine Range.inOrder_of_pairwise (by omega) ?_ ?_
  · intro range hrange
    obtain ⟨fixable, hmem, rfl⟩ := List.mem_map.1 hrange
    exact h fixable ((accepted_sublist diagnostics).subset hmem)
  · rw [List.pairwise_map]
    exact accepted_apart fun fixable hmem => (h fixable hmem).2.1

/-- Applying fixes from the last to the first makes all their edits at once. -/
theorem applyAll_eq {text : Text} {offset : Int} {fixes : List Fixable} (hoffset : 0 ≤ offset)
    (h : Range.InOrder text.length offset (fixes.map fun fixable => fixable.edit.range)) :
    applyAll text fixes =
      text.upTo offset ++ Edit.replaceAll text offset (fixes.map Fixable.edit) := by
  induction fixes generalizing offset with
  | nil => exact (Text.upTo_append_since text offset).symm
  | cons fixable fixes ih =>
    obtain ⟨hstart, hrange, hrest⟩ := h
    have hstop := hrest.le
    simp only [Edit.range] at hstart hrange hrest hstop
    have happly : applyAll text (fixable :: fixes) =
        fixable.edit.apply (applyAll text fixes) := rfl
    rw [happly, ih (by omega) hrest, Edit.apply_upTo_append _ (by omega) hrange hstop,
      List.map_cons, Edit.replaceAll,
      ← Text.upTo_append_slice hoffset hstart (Int.le_trans hrange hstop)]
    simp only [List.append_assoc]

end Fixable

/-- **Applying fixes makes the edits of those that are taken all at once.** -/
theorem applyFixes_text {text : Text} {diagnostics : List Diagnostic}
    (h : ∀ fixable ∈ Fixable.sorted diagnostics, 0 ≤ fixable.edit.start ∧
      fixable.edit.start ≤ fixable.edit.stop ∧ fixable.edit.stop ≤ text.length) :
    (applyFixes text diagnostics).1 =
      Edit.replaceAll text 0 ((Fixable.accepted diagnostics).map Fixable.edit) := by
  have happly := Fixable.applyAll_eq (Int.le_refl 0) (Fixable.inOrder_accepted h)
  rw [Text.upTo_zero, List.nil_append] at happly
  exact happly

/-- **Fixes are applied simultaneously.**  The edits that are made are in the order of the text and
do not overlap, and every fix that is left out overlaps one of them that does not come after it.
The text that comes out is the old one with all their ranges replaced at once.  Nothing is applied
only if there is no fix, and the order of the diagnostics does not matter unless two fixes have the
same range. -/
theorem applyFixes_simultaneous (text : Text) (diagnostics : List Diagnostic)
    (h : ∀ diagnostic ∈ diagnostics, ∀ edit, diagnostic.fix = some edit →
      0 ≤ edit.start ∧ edit.start ≤ edit.stop ∧ edit.stop ≤ text.length) :
    (∃ (edits : List Edit) (left : List Diagnostic),
      (applyFixes text diagnostics).2.map Diagnostic.fix = edits.map some ∧
      edits.Pairwise (fun a b => a.le b = true ∧ a.overlaps b = false) ∧
      (diagnostics.filter fun diagnostic => diagnostic.fix.isSome).Perm
        ((applyFixes text diagnostics).2 ++ left) ∧
      (∀ diagnostic ∈ left, ∃ fix, diagnostic.fix = some fix ∧
        ∃ edit ∈ edits, fix.overlaps edit = true ∧ edit.le fix = true) ∧
      (applyFixes text diagnostics).1 = Edit.replaceAll text 0 edits) ∧
    ((applyFixes text diagnostics).2 = [] ↔ ∀ diagnostic ∈ diagnostics, diagnostic.fix = none) ∧
    (((diagnostics.filterMap Diagnostic.fix).map Edit.range).Nodup →
      ∀ others, others.Perm diagnostics →
        applyFixes text others = applyFixes text diagnostics) := by
  have hinside : ∀ fixable ∈ Fixable.sorted diagnostics, 0 ≤ fixable.edit.start ∧
      fixable.edit.start ≤ fixable.edit.stop ∧ fixable.edit.stop ≤ text.length := by
    intro fixable hmem
    obtain ⟨hmem, hfix⟩ := Fixable.mem_sorted_iff.1 hmem
    exact h fixable.diagnostic hmem fixable.edit hfix
  have hfix : ∀ fixable ∈ Fixable.sorted diagnostics,
      fixable.diagnostic.fix = some fixable.edit :=
    fun fixable hmem => (Fixable.mem_sorted_iff.1 hmem).2
  have hsub := Fixable.accepted_sublist diagnostics
  refine ⟨?_, ?_, ?_⟩
  · obtain ⟨left, hperm, hleft⟩ :=
      Fixable.exists_left_out [] _ (Fixable.sorted_pairwise diagnostics)
    refine ⟨(Fixable.accepted diagnostics).map Fixable.edit, left.map Fixable.diagnostic,
      ?_, ?_, ?_, ?_, applyFixes_text hinside⟩
    · rw [applyFixes, List.map_map, List.map_map]
      exact List.map_congr_left fun fixable hmem => hfix fixable (hsub.subset hmem)
    · rw [List.pairwise_map]
      refine ((Fixable.sorted_pairwise diagnostics).sublist hsub).and
        ((Fixable.pairwise_foldl_take _ List.Pairwise.nil).imp fun {a b} hapart => ?_)
      rwa [Edit.overlaps_comm]
    · rw [applyFixes, ← List.map_append]
      exact (Fixable.map_diagnostic_sorted_perm diagnostics).trans (hperm.map _)
    · intro diagnostic hmem
      obtain ⟨fixable, hfixable, rfl⟩ := List.mem_map.1 hmem
      obtain ⟨other, hother, hoverlaps, hle⟩ := hleft fixable hfixable
      exact ⟨fixable.edit, hfix fixable (hperm.symm.subset (List.mem_append_right _ hfixable)),
        other.edit, List.mem_map_of_mem hother, hoverlaps, hle⟩
  · rw [applyFixes, List.map_eq_nil_iff]
    exact Fixable.accepted_eq_nil_iff
  · intro hdistinct others hperm
    rw [applyFixes, applyFixes, Fixable.accepted, Fixable.accepted,
      Fixable.sorted_eq_of_perm hperm hdistinct]

/-- Of the six fixes four are taken: two that touch, and two with nothing to replace that stand in
front of and behind them.  One lies inside a fix that is taken, and one reaches into another. -/
theorem applyFixes_simultaneous_mixed :
    let edits : List Edit := [⟨3, 5, ['y']⟩, ⟨0, 3, ['x']⟩, ⟨1, 1, ['a']⟩, ⟨0, 0, ['b']⟩,
      ⟨4, 6, ['z']⟩, ⟨5, 5, []⟩]
    let diagnostics := edits.map fun edit =>
      Diagnostic.mk (.text "A") .null "" none (some edit) ⟨0, 0⟩ false
    (applyFixes ['A', 'B', 'C', 'D', 'E', 'F'] diagnostics).1 = ['b', 'x', 'y', 'F'] ∧
      ∀ others, others.Perm diagnostics →
        applyFixes ['A', 'B', 'C', 'D', 'E', 'F'] others =
          applyFixes ['A', 'B', 'C', 'D', 'E', 'F'] diagnostics := by
  intro edits diagnostics
  have hinside : ∀ diagnostic ∈ diagnostics, ∀ edit, diagnostic.fix = some edit →
      0 ≤ edit.start ∧ edit.start ≤ edit.stop ∧
        edit.stop ≤ (['A', 'B', 'C', 'D', 'E', 'F'] : Text).length := by
    intro diagnostic hmem edit hedit
    obtain ⟨fix, hfix, rfl⟩ := List.mem_map.1 hmem
    obtain rfl : fix = edit := Option.some.inj hedit
    exact (by decide : ∀ edit ∈ edits, 0 ≤ edit.start ∧ edit.start ≤ edit.stop ∧ edit.stop ≤ 6)
      fix hfix
  have horder := (applyFixes_simultaneous _ diagnostics hinside).2.2 (by decide)
  exact ⟨by cbv, horder⟩

theorem applyFixes_nil (text : Text) : applyFixes text [] = (text, []) := by
  have hsorted : Fixable.sorted [] = [] := List.mergeSort_nil
  rw [applyFixes, Fixable.accepted, hsorted]
  rfl

theorem applyFixes_singleton {text : Text} {diagnostic : Diagnostic} {edit : Edit}
    (hfix : diagnostic.fix = some edit) :
    applyFixes text [diagnostic] = (edit.apply text, [diagnostic]) := by
  have hsorted : Fixable.sorted [diagnostic] = [⟨diagnostic, edit⟩] := by
    rw [Fixable.sorted, List.filterMap_cons, hfix]
    exact List.mergeSort_singleton _
  rw [applyFixes, Fixable.accepted, hsorted]
  rfl

end UsageOrder
