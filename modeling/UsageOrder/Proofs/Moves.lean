import UsageOrder.Proofs.Check
import UsageOrder.Proofs.Layout

/-!
# What applying fixes does to the blocks of a file

Fixes that follow one another (`Follow`) each move one declaration behind another one further on,
and the next ones are about what stands behind that one.  By induction on them the text that is
written is the text of the layout in which these blocks have been moved (`Follow.text_mendAll`), its
blocks are those of the file (`Follow.owners_perm`), and two declarations keep their order unless a
fix moves the first of them over the second (`Follow.precedes_iff`).  Fixes that end before the next
one starts follow one another (`follow_of_apart`).
-/

namespace UsageOrder

/-- A fix moves one declaration behind another one. -/
structure Fixable.Moves (text separator : Text) (fixable : Fixable)
    (moved reference : Declaration) : Prop where
  name : fixable.diagnostic.name = moved.name
  predecessor : fixable.diagnostic.predecessor = some reference.name
  edit : fixable.edit = Edit.moveAfter text moved.range reference.range separator

/-- Fixes that come one behind the other in a list of declarations: each moves a declaration behind
another one further on, and the next ones are about what stands behind that one. -/
inductive Follow (text separator : Text) : List Declaration → List Fixable → Prop
  | done (declarations : List Declaration) : Follow text separator declarations []
  | move {front between rest : List Declaration} {moved reference : Declaration}
      {fixable : Fixable} {fixes : List Fixable}
      (hmoves : fixable.Moves text separator moved reference)
      (hrest : Follow text separator rest fixes) :
      Follow text separator (front ++ moved :: (between ++ reference :: rest)) (fixable :: fixes)

/-- No two declarations have the same name. -/
def Distinct (declarations : List Declaration) : Prop :=
  declarations.Pairwise fun a b => (a.name == b.name) = false

namespace Distinct

variable {declarations front rest : List Declaration} {declaration a b : Declaration}

theorem apart (h : Distinct (front ++ rest)) (ha : a ∈ front) (hb : b ∈ rest) :
    (a.name == b.name) = false :=
  (List.pairwise_append.1 h).2.2 a ha b hb

theorem behind (h : Distinct (front ++ declaration :: rest)) : Distinct rest :=
  (List.pairwise_cons.1 (List.pairwise_append.1 h).2.1).2

theorem nodup_names (h : Distinct declarations) : (declarations.map Declaration.name).Nodup :=
  Name.nodup_of_pairwise (List.pairwise_map.2 h)

end Distinct

/-- A fix moves one declaration only, behind one reference. -/
theorem Fixable.Moves.unique {text separator : Text} {fixable : Fixable}
    {declarations : List Declaration} (hdistinct : Distinct declarations)
    {moved reference moved' reference' : Declaration}
    (h : fixable.Moves text separator moved reference)
    (h' : fixable.Moves text separator moved' reference') (hmoved : moved ∈ declarations)
    (hmoved' : moved' ∈ declarations) (hreference : reference ∈ declarations)
    (hreference' : reference' ∈ declarations) : moved = moved' ∧ reference = reference' := by
  have hinj := List.inj_on_of_nodup_map hdistinct.nodup_names
  exact ⟨hinj hmoved hmoved' (h.name.symm.trans h'.name), hinj hreference hreference'
    (Option.some.inj (h.predecessor.symm.trans h'.predecessor))⟩

namespace Follow

variable {text separator : Text} {declarations : List Declaration} {fixes : List Fixable}

theorem exists_moves (h : Follow text separator declarations fixes) {fixable : Fixable}
    (hmem : fixable ∈ fixes) : ∃ moved ∈ declarations, ∃ reference ∈ declarations,
      fixable.Moves text separator moved reference := by
  induction h with
  | done => exact absurd hmem List.not_mem_nil
  | move hmoves hrest ih =>
    rcases List.mem_cons.1 hmem with rfl | hmem
    · exact ⟨_, by simp, _, by simp, hmoves⟩
    · obtain ⟨moved, hmoved, reference, hreference, hmoves⟩ := ih hmem
      exact ⟨moved, by simp [hmoved], reference, by simp [hreference], hmoves⟩

/-- The fixes are about different declarations, in the order of the text. -/
theorem names_sublist (h : Follow text separator declarations fixes) :
    (fixes.map fun fixable => fixable.diagnostic.name).Sublist
      (declarations.map Declaration.name) := by
  induction h with
  | done declarations => exact List.nil_sublist _
  | @move front between rest moved reference fixable fixes hmoves hrest ih =>
    rw [List.map_cons, hmoves.name, List.map_append, List.map_cons, List.map_append, List.map_cons]
    refine List.Sublist.trans ?_ (List.sublist_append_right _ _)
    refine List.Sublist.cons_cons _ (ih.trans ?_)
    exact (List.sublist_cons_self ..).trans (List.sublist_append_right _ _)

/-- Mending for the first fix splices its two blocks, and the other fixes see only what stands
behind them. -/
theorem mendAll_move {front between rest : List Declaration} {moved reference : Declaration}
    {fixable : Fixable} (hmoves : fixable.Moves text separator moved reference)
    (hrest : Follow text separator rest fixes)
    (hdistinct : Distinct (front ++ moved :: (between ++ reference :: rest))) (start stop : Int) :
    Layout.mendAll separator ((fixable :: fixes).map Fixable.diagnostic)
        (Layout.cut text stop start (front ++ moved :: (between ++ reference :: rest))) =
      Layout.cut text moved.range.start start front ++
        (Layout.spliced separator (Layout.cut text reference.range.start moved.range.stop between)
            (.block text reference) (.block text moved) ++
          Layout.mendAll separator (fixes.map Fixable.diagnostic)
            (Layout.cut text stop reference.range.stop rest)) := by
  have hbehind : Distinct (between ++ reference :: rest) := hdistinct.behind
  have hothers : ∀ diagnostic ∈ fixes.map Fixable.diagnostic,
      ∀ declaration ∈ front ++ moved :: (between ++ [reference]),
        (declaration.name == diagnostic.name) = false := by
    intro diagnostic hdiagnostic declaration hdeclaration
    obtain ⟨other, hother, rfl⟩ := List.mem_map.1 hdiagnostic
    obtain ⟨later, hlater, _, _, hlaterMoves⟩ := hrest.exists_moves hother
    have hsplit : front ++ moved :: (between ++ reference :: rest) =
        (front ++ moved :: (between ++ [reference])) ++ rest := by simp
    rw [hsplit] at hdistinct
    rw [hlaterMoves.name]
    exact hdistinct.apart hdeclaration hlater
  have hstep : Layout.mendAll separator ((fixable :: fixes).map Fixable.diagnostic) =
      fun layout => Layout.moveBehind separator moved.name reference.name
        (Layout.mendAll separator (fixes.map Fixable.diagnostic) layout) := by
    funext layout
    rw [List.map_cons, Layout.mendAll, List.foldr_cons, Layout.mend, hmoves.predecessor,
      hmoves.name]
    rfl
  rw [hstep, Layout.cut_append, Layout.cut_append]
  simp only
  have hsplit : ∀ layout : Layout,
      Layout.cut text moved.range.start start front ++ Segment.block text moved ::
          (Layout.cut text reference.range.start moved.range.stop between ++
            Segment.block text reference :: layout) =
        (Layout.cut text moved.range.start start front ++ Segment.block text moved ::
          (Layout.cut text reference.range.start moved.range.stop between ++
            [Segment.block text reference])) ++ layout := by
    intro layout
    simp
  rw [hsplit, Layout.mendAll_append, ← hsplit, Layout.moveBehind_block]
  · rw [Layout.owners_cut]
    exact fun _ hother => hdistinct.apart hother (List.mem_cons_self ..)
  · rw [Layout.owners_cut]
    exact fun _ hother => hbehind.apart hother (List.mem_cons_self ..)
  · simpa only [Layout.owners_append, Layout.owners_block, Layout.owners_cut, Layout.owners_nil]
      using hothers

/-- **The text that is written is that of the layout with its blocks moved.** -/
theorem text_mendAll (h : Follow text separator declarations fixes)
    (hdistinct : Distinct declarations) {start : Int} (hstart : 0 ≤ start)
    (hranges : Range.InOrder text.length start (declarations.map Declaration.range)) :
    (Layout.mendAll separator (fixes.map Fixable.diagnostic)
        (Layout.cut text text.length start declarations)).text =
      Edit.replaceAll text start (fixes.map Fixable.edit) := by
  induction h generalizing start with
  | done declarations =>
    rw [List.map_nil, List.map_nil, Edit.replaceAll, ← Text.slice_length]
    exact Layout.text_cut hstart (Int.le_refl _) hranges
  | @move front between rest moved reference fixable fixes hmoves hrest ih =>
    rw [List.map_append, List.map_cons, List.map_append, List.map_cons,
      Range.inOrder_append_cons, Range.inOrder_append_cons] at hranges
    obtain ⟨hfront, hmoved, hbetween, hreference, hbehind⟩ := hranges
    have hle := hfront.le
    have hle' := hbetween.le
    have hstop := hbehind.le
    rw [mendAll_move hmoves hrest hdistinct, Layout.text_append, Layout.text_append,
      ih hdistinct.behind.behind (by omega) hbehind, Layout.text_cut hstart (by omega) hfront,
      Layout.text_spliced (Layout.text_cut (by omega) (by omega) hbetween), List.map_cons,
      Edit.replaceAll, hmoves.edit, List.append_assoc]
    rfl

/-- The declarations in the order of their blocks once the first fix and the others are made. -/
theorem owners_move {front between rest : List Declaration} {moved reference : Declaration}
    {fixable : Fixable} (hmoves : fixable.Moves text separator moved reference)
    (hrest : Follow text separator rest fixes)
    (hdistinct : Distinct (front ++ moved :: (between ++ reference :: rest))) (start stop : Int) :
    (Layout.mendAll separator ((fixable :: fixes).map Fixable.diagnostic)
        (Layout.cut text stop start (front ++ moved :: (between ++ reference :: rest)))).owners =
      front ++ ((between ++ [reference]) ++ moved ::
        (Layout.mendAll separator (fixes.map Fixable.diagnostic)
          (Layout.cut text stop reference.range.stop rest)).owners) := by
  rw [mendAll_move hmoves hrest hdistinct, Layout.owners_append, Layout.owners_append,
    Layout.owners_spliced, Layout.owners_cut, Layout.owners_cut]
  simp

/-- **Fixes lose no block and repeat none.** -/
theorem owners_perm (h : Follow text separator declarations fixes)
    (hdistinct : Distinct declarations) (start stop : Int) :
    (Layout.mendAll separator (fixes.map Fixable.diagnostic)
      (Layout.cut text stop start declarations)).owners.Perm declarations := by
  induction h generalizing start with
  | done declarations =>
    rw [List.map_nil, Layout.mendAll, List.foldr_nil, Layout.owners_cut]
  | @move front between rest moved reference fixable fixes hmoves hrest ih =>
    rw [owners_move hmoves hrest hdistinct, List.append_cons between reference rest]
    exact (Order.moved_perm (ih hdistinct.behind.behind _)).append_left front

/-- A declaration that a fix moves is one of those that the fixes are about, and so is the one that
it is moved behind. -/
theorem mem_of_moves {rest : List Declaration} (h : Follow text separator rest fixes)
    (hdistinct : Distinct declarations) (hsub : rest ⊆ declarations) {fixable : Fixable}
    (hmem : fixable ∈ fixes) {moved reference : Declaration} (hmoved : moved ∈ declarations)
    (hreference : reference ∈ declarations)
    (hmoves : fixable.Moves text separator moved reference) : moved ∈ rest ∧ reference ∈ rest := by
  obtain ⟨moved', hmoved', reference', hreference', hmoves'⟩ := h.exists_moves hmem
  obtain ⟨rfl, rfl⟩ := hmoves.unique hdistinct hmoves' hmoved (hsub hmoved') hreference
    (hsub hreference')
  exact ⟨hmoved', hreference'⟩

/-- The first fix moves a declaration over all that stand up to its reference. -/
theorem moves_over_iff {front between rest : List Declaration} {moved reference : Declaration}
    {fixable : Fixable} (hmoves : fixable.Moves text separator moved reference)
    (hdistinct : Distinct (front ++ moved :: (between ++ reference :: rest)))
    (hpositions : (front ++ moved :: (between ++ reference :: rest)).Pairwise
      fun a b => a.position < b.position) {a b : Declaration}
    (hab : Order.Precedes (front ++ moved :: (between ++ reference :: rest)) a b) :
    (∃ target ∈ front ++ moved :: (between ++ reference :: rest),
        fixable.Moves text separator a target ∧ b.position ≤ target.position) ↔
      a = moved ∧ b ∈ between ++ [reference] := by
  have hreferenceMem : reference ∈ front ++ moved :: (between ++ reference :: rest) := by simp
  obtain ⟨-, hlater, hbetween⟩ :=
    List.pairwise_append.1 (List.pairwise_cons.1 (List.pairwise_append.1 hpositions).2.1).2
  constructor
  · rintro ⟨target, htarget, htargetMoves, hle⟩
    obtain ⟨rfl, rfl⟩ := htargetMoves.unique hdistinct hmoves hab.mem_left (by simp) htarget
      hreferenceMem
    have hb := (Order.precedes_middle_iff hdistinct.nodup_names.of_map).1 hab
    rw [List.append_cons, List.mem_append] at hb
    refine ⟨rfl, hb.resolve_right fun hb => ?_⟩
    exact absurd ((List.pairwise_cons.1 hlater).1 b hb) (not_lt_of_ge hle)
  · rintro ⟨rfl, hb⟩
    refine ⟨reference, hreferenceMem, hmoves, ?_⟩
    rcases List.mem_append.1 hb with hb | hb
    · exact (hbetween b hb reference (List.mem_cons_self ..)).le
    · exact (congrArg Declaration.position (List.mem_singleton.1 hb)).le

/-- **Two declarations keep their order unless a fix moves the first of them over the second.** -/
theorem precedes_iff (h : Follow text separator declarations fixes)
    (hdistinct : Distinct declarations)
    (hpositions : declarations.Pairwise fun a b => a.position < b.position) {a b : Declaration}
    (hab : Order.Precedes declarations a b) (start stop : Int) :
    Order.Precedes (Layout.mendAll separator (fixes.map Fixable.diagnostic)
        (Layout.cut text stop start declarations)).owners a b ↔
      ¬ ∃ fixable ∈ fixes, ∃ reference ∈ declarations,
        fixable.Moves text separator a reference ∧ b.position ≤ reference.position := by
  induction h generalizing start with
  | done declarations =>
    rw [List.map_nil, Layout.mendAll, List.foldr_nil, Layout.owners_cut]
    simp [hab]
  | @move front between rest moved reference fixable fixes hmoves hrest ih =>
    have hnodup := hdistinct.nodup_names.of_map
    have hsplit : front ++ moved :: (between ++ reference :: rest) =
        (front ++ moved :: (between ++ [reference])) ++ rest := by simp
    have hsub : rest ⊆ front ++ moved :: (between ++ reference :: rest) := by
      rw [hsplit]
      exact List.subset_append_right ..
    have hothers : (a ∈ rest → Order.Precedes (Layout.mendAll separator
          (fixes.map Fixable.diagnostic) (Layout.cut text stop reference.range.stop rest)).owners
          a b) ↔ ¬ ∃ other ∈ fixes, ∃ target ∈ front ++ moved :: (between ++ reference :: rest),
            other.Moves text separator a target ∧ b.position ≤ target.position := by
      by_cases ha : a ∈ rest
      · have hab' : Order.Precedes rest a b := by
          rw [hsplit] at hab hnodup
          exact (Order.precedes_append_right_iff hnodup ha).1 hab
        have hpositions' : rest.Pairwise fun a b => a.position < b.position := by
          rw [hsplit] at hpositions
          exact (List.pairwise_append.1 hpositions).2.1
        rw [imp_iff_right ha, ih hdistinct.behind.behind hpositions' hab', not_iff_not]
        constructor
        · rintro ⟨other, hother, target, htarget, htargetMoves⟩
          exact ⟨other, hother, target, hsub htarget, htargetMoves⟩
        · rintro ⟨other, hother, target, htarget, htargetMoves, hle⟩
          have hmem := hrest.mem_of_moves hdistinct hsub hother hab.mem_left htarget htargetMoves
          exact ⟨other, hother, target, hmem.2, htargetMoves, hle⟩
      · refine iff_of_true (fun ha' => absurd ha' ha) ?_
        rintro ⟨other, hother, target, htarget, htargetMoves, -⟩
        exact ha (hrest.mem_of_moves hdistinct hsub hother hab.mem_left htarget htargetMoves).1
    have hover := moves_over_iff hmoves hdistinct hpositions hab
    rw [List.append_cons between reference rest] at hab hnodup
    rw [owners_move hmoves hrest hdistinct, Order.precedes_moved_iff hnodup
      (hrest.owners_perm hdistinct.behind.behind _ _) hab, ← hover, hothers, ← not_or,
      List.exists_mem_cons_iff]

/-- **A declaration that is moved stands behind its reference.** -/
theorem precedes_of_moves (h : Follow text separator declarations fixes)
    (hdistinct : Distinct declarations) {fixable : Fixable} (hmem : fixable ∈ fixes)
    {a b : Declaration} (ha : a ∈ declarations) (hb : b ∈ declarations)
    (hmoves : fixable.Moves text separator b a) (start stop : Int) :
    Order.Precedes (Layout.mendAll separator (fixes.map Fixable.diagnostic)
      (Layout.cut text stop start declarations)).owners a b := by
  induction h generalizing start with
  | done declarations => exact absurd hmem List.not_mem_nil
  | @move front between rest moved reference first fixes hfirst hrest ih =>
    rw [owners_move hfirst hrest hdistinct]
    refine Order.precedes_append_iff.2 (Or.inr (Or.inr (Order.precedes_append_iff.2 (Or.inr ?_))))
    rcases List.mem_cons.1 hmem with rfl | hmem
    · obtain ⟨rfl, rfl⟩ := hmoves.unique hdistinct hfirst hb (by simp) ha (by simp)
      exact Or.inl ⟨by simp, List.mem_cons_self ..⟩
    · have hsub : rest ⊆ front ++ moved :: (between ++ reference :: rest) := fun x hx => by
        simp [hx]
      obtain ⟨hb, ha⟩ := hrest.mem_of_moves hdistinct hsub hmem hb ha hmoves
      have hbehind := ih hdistinct.behind.behind hmem ha hb reference.range.stop
      exact Or.inr (Order.precedes_cons_iff.2 (Or.inr hbehind))

end Follow

/-! ### Fixes that are taken follow one another -/

/-- What starts behind a declaration is one of those that come after it. -/
theorem mem_of_stop_le {front rest : List Declaration} {declaration other : Declaration}
    (hapart : (front ++ declaration :: rest).Pairwise fun a b => a.range.stop ≤ b.range.start)
    (hranges : ∀ a ∈ front ++ declaration :: rest, a.range.start < a.range.stop)
    (hother : other ∈ front ++ declaration :: rest)
    (hle : declaration.range.stop ≤ other.range.start) : other ∈ rest := by
  have hdeclaration := hranges declaration (by simp)
  have hrange := hranges other hother
  rcases List.mem_append.1 hother with hfront | hbehind
  · have := (List.pairwise_append.1 hapart).2.2 other hfront declaration (List.mem_cons_self ..)
    omega
  · refine (List.mem_cons.1 hbehind).resolve_left ?_
    rintro rfl
    omega

theorem follow_of_apart {text separator : Text} {declarations : List Declaration}
    {fixes : List Fixable}
    (hapart : declarations.Pairwise fun a b => a.range.stop ≤ b.range.start)
    (hranges : ∀ a ∈ declarations, a.range.start < a.range.stop)
    (hmoves : ∀ fixable ∈ fixes, ∃ moved ∈ declarations, ∃ reference ∈ declarations,
      fixable.Moves text separator moved reference ∧ moved.range.stop ≤ reference.range.start)
    (hfixes : fixes.Pairwise fun a b => a.edit.stop ≤ b.edit.start) :
    Follow text separator declarations fixes := by
  induction fixes generalizing declarations with
  | nil => exact Follow.done declarations
  | cons fixable fixes ih =>
    obtain ⟨moved, hmoved, reference, hreference, hfixable, hle⟩ :=
      hmoves fixable (List.mem_cons_self ..)
    obtain ⟨hnext, hfixes⟩ := List.pairwise_cons.1 hfixes
    obtain ⟨front, behind, rfl⟩ := List.append_of_mem hmoved
    obtain ⟨between, rest, rfl⟩ :=
      List.append_of_mem (mem_of_stop_le hapart hranges hreference hle)
    have hsplit : front ++ moved :: (between ++ reference :: rest) =
        (front ++ moved :: between) ++ reference :: rest := by simp
    rw [hsplit] at hapart hranges hmoves
    obtain ⟨-, hrest, -⟩ := List.pairwise_append.1 hapart
    refine Follow.move hfixable (ih (List.pairwise_cons.1 hrest).2 (fun a ha => ?_)
      (fun other hother => ?_) hfixes)
    · exact hranges a (List.mem_append_right _ (List.mem_cons_of_mem _ ha))
    · obtain ⟨later, hlater, target, htarget, hotherMoves, hle'⟩ :=
        hmoves other (List.mem_cons_of_mem _ hother)
      have hstart : reference.range.stop ≤ later.range.start := by
        have := hnext other hother
        rwa [hfixable.edit, hotherMoves.edit] at this
      have hrange := hranges later hlater
      exact ⟨later, mem_of_stop_le hapart hranges hlater hstart, target,
        mem_of_stop_le hapart hranges htarget (by omega), hotherMoves, hle'⟩

end UsageOrder
