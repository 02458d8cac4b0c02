import UsageOrder.Proofs.FixedOrder

/-!
# One pass of fixes against the desired order

A check compares neighbours of the desired order, so a pass of fixes is described by what it does to
them.  Let `a` be the predecessor of `b`.

| before the pass | fix | after the pass |
|---|---|---|
| `b` stands before `a` | taken | `a` stands before `b` (`Desires.precedes_of_moves`) |
| `b` stands before `a` | left out | whatever the other fixes do |
| `a` stands before `b` | none | as before, unless `a` is moved over `b` (`Desires.precedes_iff`) |

A pass that takes all fixes still need not reach the desired order: it misses it exactly when a
declaration is moved over its own successor (`Desires.owners_mended_eq_iff`).
-/

namespace UsageOrder

/-- The blocks of a file once the fixes of some diagnostics are applied. -/
def Source.mended (source : Source) (collection : Collection) (separator : Text)
    (diagnostics : List Diagnostic) : Layout :=
  Layout.mendAll separator (applyFixes source.text diagnostics).2
    (Layout.cut source.text source.text.length 0 collection)

namespace Rule

/-- The statements of a source stand one behind the other, its declarations are collected, and there
is a desired order for them. -/
structure Desires (rule : Rule) (strategy : UsageStrategy) (source : Source)
    (collection : Collection) (desired : List Name) : Prop where
  laidOut : source.LaidOut
  settled : ∃ prerequisites uses passes,
    rule.Analysed strategy source collection prerequisites uses ∧
      Order.reconcileRanked collection.names uses.ranks prerequisites rule.maxPasses =
        .ok ⟨desired, passes⟩

namespace Desires

variable {rule : Rule} {strategy : UsageStrategy} {source : Source} {collection : Collection}
  {desired : List Name} {separator : Text} {diagnostics : List Diagnostic}

theorem wellFormed (h : rule.Desires strategy source collection desired) :
    collection.WellFormed := by
  obtain ⟨_, _, _, hanalysed, -⟩ := h.settled
  exact hanalysed.wellFormed

theorem perm (h : rule.Desires strategy source collection desired) :
    desired.Perm collection.names := by
  obtain ⟨_, _, _, hanalysed, hsettled⟩ := h.settled
  exact (hanalysed.reconciled hsettled).1

theorem nodup (h : rule.Desires strategy source collection desired) : desired.Nodup :=
  h.perm.nodup_iff.2 h.wellFormed.nodup_names

/-- Names of the desired order that count as equal are equal. -/
theorem eq_of_beq (h : rule.Desires strategy source collection desired) {a b : Name}
    (ha : a ∈ desired) (hb : b ∈ desired) (hname : (a == b) = true) : a = b := by
  obtain ⟨first, hfirst, rfl⟩ := List.mem_map.1 (h.perm.mem_iff.1 ha)
  obtain ⟨second, hsecond, rfl⟩ := List.mem_map.1 (h.perm.mem_iff.1 hb)
  rw [h.wellFormed.eq_of_name_beq hfirst hsecond hname]

/-- A source has one collection of declarations and one desired order. -/
theorem unique (h : rule.Desires strategy source collection desired) {collection' : Collection}
    {desired' : List Name} (h' : rule.Desires strategy source collection' desired') :
    collection = collection' ∧ desired = desired' := by
  obtain ⟨prerequisites, uses, passes, ⟨⟨markers, hmarkers, hcollected⟩, -, hextracted, hranked⟩,
    hsettled⟩ := h.settled
  obtain ⟨prerequisites', uses', passes', ⟨⟨markers', hmarkers', hcollected'⟩, -, hextracted',
    hranked'⟩, hsettled'⟩ := h'.settled
  obtain rfl := Except.ok.inj (hmarkers.symm.trans hmarkers')
  obtain rfl := Except.ok.inj (hcollected.symm.trans hcollected')
  obtain rfl := Except.ok.inj (hextracted.symm.trans hextracted')
  obtain rfl := Except.ok.inj (hranked.symm.trans hranked')
  exact ⟨rfl, congrArg Settled.order (Except.ok.inj (hsettled.symm.trans hsettled'))⟩

/-- A check reports the displaced neighbours. -/
theorem reported (h : rule.Desires strategy source collection desired)
    (hcheck : rule.check strategy source = .ok diagnostics) :
    ∃ reported, (displacedPairs (desired.filterMap collection.named?)).mapM
        (fun pair => misplaced source.text rule.separator pair.2 pair.1) = .ok reported ∧
      reported.mapM (Diagnostic.locate source.text) = .ok diagnostics := by
  obtain ⟨_, _, _, hanalysed, hsettled⟩ := h.settled
  rw [hanalysed.check_of_settled hsettled] at hcheck
  exact bind_eq_ok_iff.1 hcheck

theorem exists_edit (h : rule.Desires strategy source collection desired)
    (hcheck : rule.check strategy source = .ok diagnostics) {diagnostic : Diagnostic}
    (hmem : diagnostic ∈ diagnostics) :
    ∃ separator edit, separatorText rule.separator = .ok separator ∧
      diagnostic.fix = some edit := by
  obtain ⟨reported, hreported, hlocated⟩ := h.reported hcheck
  obtain ⟨found, hfound, -, -, hfix⟩ := exists_mem_of_located hlocated hmem
  obtain ⟨pair, -, hpair⟩ := exists_mem_of_mapM_result hreported hfound
  obtain ⟨separator, hseparator, hpair⟩ := bind_eq_ok_iff.1 hpair
  obtain rfl := Except.ok.inj hpair
  exact ⟨separator, _, hseparator, hfix.symm⟩

/-- Where nothing is reported, the declarations stand in the desired order. -/
theorem names_of_clean (h : rule.Desires strategy source collection desired)
    (hclean : rule.check strategy source = .ok []) : collection.names = desired := by
  obtain ⟨_, _, _, hanalysed, hsettled⟩ := h.settled
  obtain ⟨settled, hsettled', horder⟩ := hanalysed.check_eq_ok_nil_iff.1 hclean
  obtain rfl := Except.ok.inj (hsettled.symm.trans hsettled')
  exact horder.symm

/-- Neighbours in the desired order, as declarations. -/
theorem neighbours_filterMap (h : rule.Desires strategy source collection desired)
    {a b : Declaration} (ha : a ∈ collection) (hb : b ∈ collection)
    (hneighbours : Order.Neighbours desired a.name b.name) :
    Order.Neighbours (desired.filterMap collection.named?) a b := by
  have hcollection := h.wellFormed
  have hnames := hcollection.names_filterMap_named? h.perm.subset
  have hsub := (hcollection.filterMap_named?_perm h.perm).subset
  -- A declaration is known by its name.
  have hplace : ∀ {place : Nat} {declaration : Declaration}, declaration ∈ collection →
      desired[place]? = some declaration.name →
        (desired.filterMap collection.named?)[place]? = some declaration := by
    intro place declaration hmem hname
    rw [← hnames, Collection.names, List.getElem?_map] at hname
    obtain ⟨found, hfound, heq⟩ := Option.map_eq_some_iff.1 hname
    rw [hfound, hcollection.eq_of_name_eq (hsub (List.mem_of_getElem? hfound)) hmem heq]
  obtain ⟨place, hfirst, hsecond⟩ := hneighbours
  exact ⟨place, hplace ha hfirst, hplace hb hsecond⟩

/-- **A declaration that stands before its predecessor is reported with a fix.** -/
theorem exists_fix (h : rule.Desires strategy source collection desired)
    (hseparator : separatorText rule.separator = .ok separator)
    (hcheck : rule.check strategy source = .ok diagnostics) {a b : Declaration}
    (ha : a ∈ collection) (hb : b ∈ collection)
    (hneighbours : Order.Neighbours desired a.name b.name) (hlt : b.position < a.position) :
    ∃ fixable ∈ Fixable.sorted diagnostics, fixable.Moves source.text separator b a := by
  have hpair : (a, b) ∈ displacedPairs (desired.filterMap collection.named?) :=
    List.mem_filter.2 ⟨Order.mem_zip_drop_iff.2 (h.neighbours_filterMap ha hb hneighbours),
      decide_eq_true hlt.le⟩
  obtain ⟨reported, hreported, hlocated⟩ := h.reported hcheck
  obtain ⟨found, hfound, hmisplaced⟩ := exists_mem_of_mapM hreported hpair
  obtain ⟨diagnostic, hmem, hlocate⟩ := exists_mem_of_mapM hlocated hfound
  rw [misplaced, hseparator] at hmisplaced
  obtain ⟨offset, -, hlocate⟩ := bind_eq_ok_iff.1 hlocate
  obtain rfl := Except.ok.inj hmisplaced
  obtain rfl := Except.ok.inj hlocate
  exact ⟨⟨_, Edit.moveAfter source.text b.range a.range separator⟩,
    Fixable.mem_sorted_iff.2 ⟨hmem, rfl⟩, rfl, rfl, rfl⟩

/-- Each fix moves a declaration behind its predecessor. -/
theorem moves_of_fix (h : rule.Desires strategy source collection desired)
    (hseparator : separatorText rule.separator = .ok separator)
    (hcheck : rule.check strategy source = .ok diagnostics) {fixable : Fixable}
    (hmem : fixable ∈ Fixable.sorted diagnostics) :
    ∃ moved ∈ collection, ∃ reference ∈ collection,
      fixable.Moves source.text separator moved reference ∧
        Order.Neighbours desired reference.name moved.name ∧
          moved.position < reference.position := by
  obtain ⟨_, _, _, hanalysed, hsettled⟩ := h.settled
  obtain ⟨settled, hsettled', hmoves⟩ := hanalysed.moves_of_fix hseparator hcheck hmem
  obtain rfl := Except.ok.inj (hsettled.symm.trans hsettled')
  exact hmoves

/-! ### What a pass does -/

theorem follow (h : rule.Desires strategy source collection desired)
    (hseparator : separatorText rule.separator = .ok separator)
    (hcheck : rule.check strategy source = .ok diagnostics) :
    Follow source.text separator collection (Fixable.accepted diagnostics) ∧
      (applyFixes source.text diagnostics).1 = Edit.replaceAll source.text 0
        ((Fixable.accepted diagnostics).map Fixable.edit) := by
  obtain ⟨_, _, _, hanalysed, -⟩ := h.settled
  exact hanalysed.follow h.laidOut hseparator hcheck

theorem text_mended (h : rule.Desires strategy source collection desired)
    (hseparator : separatorText rule.separator = .ok separator)
    (hcheck : rule.check strategy source = .ok diagnostics) :
    (source.mended collection separator diagnostics).text =
      (applyFixes source.text diagnostics).1 := by
  obtain ⟨_, _, _, hanalysed, -⟩ := h.settled
  obtain ⟨hinside, hapart⟩ := hanalysed.laidOut h.laidOut
  obtain ⟨hfollow, htext⟩ := h.follow hseparator hcheck
  have hranges : Range.InOrder source.text.length 0 (collection.map Declaration.range) := by
    refine Range.inOrder_of_pairwise (by omega) ?_ (List.pairwise_map.2 hapart)
    intro range hrange
    obtain ⟨declaration, hmem, rfl⟩ := List.mem_map.1 hrange
    have := hinside declaration hmem
    omega
  rw [htext]
  exact hfollow.text_mendAll h.wellFormed.distinct_declarations (Int.le_refl 0) hranges

theorem holds_mended (source : Source) (collection : Collection) (separator : Text)
    (diagnostics : List Diagnostic) :
    (source.mended collection separator diagnostics).Holds source.text :=
  Layout.Holds.mendAll (Layout.holds_cut source.text 0 _ collection) _

theorem owners_mended_perm (h : rule.Desires strategy source collection desired)
    (hseparator : separatorText rule.separator = .ok separator)
    (hcheck : rule.check strategy source = .ok diagnostics) :
    (source.mended collection separator diagnostics).owners.Perm collection :=
  (h.follow hseparator hcheck).1.owners_perm h.wellFormed.distinct_declarations 0 _

/-- A declaration whose fix is taken stands behind its predecessor. -/
theorem precedes_of_moves (h : rule.Desires strategy source collection desired)
    (hseparator : separatorText rule.separator = .ok separator)
    (hcheck : rule.check strategy source = .ok diagnostics) {fixable : Fixable}
    (hmem : fixable ∈ Fixable.accepted diagnostics) {a b : Declaration} (ha : a ∈ collection)
    (hb : b ∈ collection) (hmoves : fixable.Moves source.text separator b a) :
    Order.Precedes (source.mended collection separator diagnostics).owners a b :=
  (h.follow hseparator hcheck).1.precedes_of_moves h.wellFormed.distinct_declarations hmem ha hb
    hmoves 0 _

/-- Two declarations keep their order unless the first of them is moved over the second. -/
theorem precedes_iff (h : rule.Desires strategy source collection desired)
    (hseparator : separatorText rule.separator = .ok separator)
    (hcheck : rule.check strategy source = .ok diagnostics) {a b : Declaration}
    (ha : a ∈ collection) (hb : b ∈ collection) (hlt : a.position < b.position) :
    Order.Precedes (source.mended collection separator diagnostics).owners a b ↔
      ¬ ∃ fixable ∈ Fixable.accepted diagnostics, ∃ reference ∈ collection,
        fixable.Moves source.text separator a reference ∧ b.position ≤ reference.position :=
  (h.follow hseparator hcheck).1.precedes_iff h.wellFormed.distinct_declarations
    h.wellFormed.pairwise_position ((h.wellFormed.precedes_iff ha hb).2 hlt) 0 _

/-! ### A pass that takes all fixes -/

/-- If every reported name is among the applied ones, every fix is taken. -/
theorem exists_accepted (h : rule.Desires strategy source collection desired)
    (hseparator : separatorText rule.separator = .ok separator)
    (hcheck : rule.check strategy source = .ok diagnostics)
    (hall : ∀ diagnostic ∈ diagnostics, ∃ other ∈ (applyFixes source.text diagnostics).2,
      (other.name == diagnostic.name) = true) {a b : Declaration} (ha : a ∈ collection)
    (hb : b ∈ collection) (hneighbours : Order.Neighbours desired a.name b.name)
    (hlt : b.position < a.position) :
    ∃ fixable ∈ Fixable.accepted diagnostics, fixable.Moves source.text separator b a := by
  have hcollection := h.wellFormed
  obtain ⟨fixable, hfixable, hmoves⟩ := h.exists_fix hseparator hcheck ha hb hneighbours hlt
  obtain ⟨other, hother, hsame⟩ := hall _ (Fixable.mem_sorted_iff.1 hfixable).1
  obtain ⟨taken, htaken, rfl⟩ := List.mem_map.1 hother
  obtain ⟨moved, hmoved, reference, hreference, htakenMoves, htakenNeighbours, -⟩ :=
    h.moves_of_fix hseparator hcheck ((Fixable.accepted_sublist diagnostics).subset htaken)
  rw [htakenMoves.name, hmoves.name] at hsame
  obtain rfl : moved = b := hcollection.eq_of_name_beq hmoved hb hsame
  have hname := htakenNeighbours.left_unique hneighbours h.nodup
  obtain rfl := hcollection.eq_of_name_eq hreference ha hname
  exact ⟨taken, htaken, htakenMoves⟩

/-- **A pass that takes all fixes reaches the desired order unless it moves a declaration over its
own successor.** -/
theorem owners_mended_eq_iff (h : rule.Desires strategy source collection desired)
    (hseparator : separatorText rule.separator = .ok separator)
    (hcheck : rule.check strategy source = .ok diagnostics)
    (hall : ∀ diagnostic ∈ diagnostics, ∃ other ∈ (applyFixes source.text diagnostics).2,
      (other.name == diagnostic.name) = true) :
    (source.mended collection separator diagnostics).owners.map Declaration.name = desired ↔
      ¬ ∃ before ∈ collection, ∃ moved ∈ collection, ∃ after ∈ collection,
        Order.Neighbours desired before.name moved.name ∧
          Order.Neighbours desired moved.name after.name ∧
            moved.position < after.position ∧ after.position < before.position := by
  have hcollection := h.wellFormed
  have hperm := h.owners_mended_perm hseparator hcheck
  constructor
  · rintro heq ⟨before, hbefore, moved, hmoved, after, hafter, hfirst, hsecond, hlt, hlt'⟩
    obtain ⟨fixable, hmem, hmoves⟩ :=
      h.exists_accepted hseparator hcheck hall hbefore hmoved hfirst (hlt.trans hlt')
    -- The declaration has passed its successor.
    have hkept : Order.Precedes (source.mended collection separator diagnostics).owners
        moved after := by
      have hnames := hsecond.precedes
      rw [← heq] at hnames
      refine (Order.precedes_total (hperm.mem_iff.2 hmoved) (hperm.mem_iff.2 hafter)
        fun hsame => hlt.ne (congrArg Declaration.position hsame)).resolve_right fun hback => ?_
      exact hnames.asymm (heq ▸ h.nodup) (hback.map Declaration.name)
    exact (h.precedes_iff hseparator hcheck hmoved hafter hlt).1 hkept
      ⟨fixable, hmem, before, hbefore, hmoves, hlt'.le⟩
  · intro hnone
    refine (Order.eq_of_neighbours ?_ h.nodup fun a b hab => ?_).symm
    · exact h.perm.trans (hperm.map Declaration.name).symm
    have hmem : ∀ {name}, name ∈ desired → ∃ declaration ∈ collection, declaration.name = name :=
      fun hname => List.mem_map.1 (h.perm.mem_iff.1 hname)
    obtain ⟨a, ha, rfl⟩ := hmem hab.precedes.mem_left
    obtain ⟨b, hb, rfl⟩ := hmem hab.precedes.mem_right
    refine Order.Precedes.map ?_ Declaration.name
    have hne : a.position ≠ b.position := fun heq =>
      hab.precedes.ne h.nodup (congrArg _ (hcollection.eq_of_position_eq ha hb heq))
    rcases Nat.lt_or_gt_of_ne hne with hlt | hlt
    · refine (h.precedes_iff hseparator hcheck ha hb hlt).2 ?_
      rintro ⟨fixable, hfixable, reference, hreference, hmoves, hle⟩
      obtain ⟨moved, hmoved, target, htarget, hmoves', hneighbours, -⟩ :=
        h.moves_of_fix hseparator hcheck ((Fixable.accepted_sublist diagnostics).subset hfixable)
      obtain ⟨rfl, rfl⟩ := hmoves.unique hcollection.distinct_declarations hmoves' ha hmoved
        hreference htarget
      have hother : b.position ≠ reference.position := by
        intro heq
        obtain rfl := hcollection.eq_of_position_eq hb hreference heq
        exact hab.precedes.asymm h.nodup hneighbours.precedes
      exact hnone ⟨reference, hreference, a, ha, b, hb, hneighbours, hab, hlt,
        lt_of_le_of_ne hle hother⟩
    · obtain ⟨fixable, hfixable, hmoves⟩ :=
        h.exists_accepted hseparator hcheck hall ha hb hab hlt
      exact h.precedes_of_moves hseparator hcheck hfixable ha hb hmoves

end Desires
end Rule
end UsageOrder
