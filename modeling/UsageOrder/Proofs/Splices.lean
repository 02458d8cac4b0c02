import UsageOrder.Proofs.FixedOrder

/-!
# What applying fixes does to the characters of a file

A fix takes a block, what stands between it and its reference, and the reference, and puts what was
between, without its outer white space, then the reference, then the block (`moveAfter_text`).  All
that is lost is white space, and all that is added is the separator.  As the fixes that are taken
replace ranges that follow one another, the same holds of the whole text
(`Edit.replaceAll_perm`).

Statements may be empty here, so two fixes may replace the same place of the text.
-/

namespace UsageOrder

namespace Text

/-- The characters of a text that are not white space. -/
def solid (text : Text) : Text := text.filter fun c => !isBlank c

theorem solid_append (front rest : Text) : solid (front ++ rest) = front.solid ++ rest.solid :=
  List.filter_append ..

theorem solid_eq_nil {text : Text} (h : ∀ c ∈ text, isBlank c = true) : text.solid = [] := by
  rw [solid, List.filter_eq_nil_iff]
  intro c hc
  simp [h c hc]

/-- **What stripping takes away is white space at the two ends.** -/
theorem exists_eq_strip (text : Text) : ∃ left right, text = left ++ text.strip ++ right ∧
    (∀ c ∈ left, isBlank c = true) ∧ ∀ c ∈ right, isBlank c = true := by
  have hleft : text.takeWhile isBlank ++ text.stripLeft = text := List.takeWhile_append_dropWhile
  have hright : text.strip ++ text.stripLeft.rtakeWhile isBlank = text.stripLeft :=
    List.rdropWhile_append_rtakeWhile ..
  refine ⟨text.takeWhile isBlank, text.stripLeft.rtakeWhile isBlank, ?_, ?_, ?_⟩
  · rw [List.append_assoc, hright, hleft]
  · exact fun c hc => List.mem_takeWhile_imp hc
  · exact fun c hc => List.mem_rtakeWhile_imp hc

theorem strip_strip (text : Text) : text.strip.strip = text.strip := by
  have hstrip : text.strip = stripRight (stripLeft text) := rfl
  rw [hstrip, strip_stripRight, strip_stripLeft, hstrip]

theorem since_zero (text : Text) : text.since 0 = text := by
  simp [since, clamp]

theorem slice_append_since {text : Text} {a b : Int} (ha : 0 ≤ a) (hab : a ≤ b)
    (hb : b ≤ text.length) : text.slice a b ++ text.since b = text.since a := by
  rw [← slice_length, ← slice_length, slice_append_slice ha hab hb (Int.le_refl _)]

end Text

namespace Range

variable {start stop : Int} {ranges part : List Range}

theorem InOrder.of_le {earlier : Int} (h : InOrder stop start ranges) (hle : earlier ≤ start) :
    InOrder stop earlier ranges := by
  cases ranges with
  | nil => exact Int.le_trans hle h
  | cons range ranges => exact ⟨Int.le_trans hle h.1, h.2⟩

theorem InOrder.sublist (h : InOrder stop start ranges) (hsub : part.Sublist ranges) :
    InOrder stop start part := by
  induction hsub generalizing start with
  | slnil => exact h
  | cons range hsub ih =>
    obtain ⟨hstart, hrange, hrest⟩ := h
    exact (ih hrest).of_le (Int.le_trans hstart hrange)
  | cons_cons range hsub ih =>
    obtain ⟨hstart, hrange, hrest⟩ := h
    exact ⟨hstart, hrange, ih hrest⟩

end Range

/-- The statements have ranges that follow one another in the text; they may be empty. -/
def Source.Ordered (source : Source) : Prop :=
  ∃ ranges, source.body.mapM Json.range = .ok ranges ∧
    Range.InOrder source.text.length 0 ranges

/-! ### One edit -/

namespace Edit

variable {text separator : Text} {moved reference : Range}

/-- What the edit replaces: the block, what is between, and the reference. -/
theorem slice_moveAfter (h : Range.InOrder text.length 0 [moved, reference]) :
    text.slice moved.start reference.stop =
      text.slice moved.start moved.stop ++ text.slice moved.stop reference.start ++
        text.slice reference.start reference.stop := by
  obtain ⟨hstart, hmoved, hbetween, hreference, hrest⟩ := h
  have hstop : reference.stop ≤ text.length := hrest.le
  rw [Text.slice_append_slice hstart hmoved hbetween (by omega),
    Text.slice_append_slice hstart (by omega) hreference hstop]

/-- **What the edit puts:** what was between, without its outer white space, then the reference,
then the block. -/
theorem moveAfter_text (text : Text) (moved reference : Range) (separator : Text) :
    (moveAfter text moved reference separator).text =
      (text.slice moved.stop reference.start).strip ++
        (if (text.slice moved.stop reference.start).strip.isEmpty then [] else separator) ++
          text.slice reference.start reference.stop ++ separator ++
            text.slice moved.start moved.stop := by
  rw [moveAfter]
  simp only
  split_ifs with hempty
  · rw [List.isEmpty_iff.1 hempty]
    simp [Text.join, List.intercalate_cons_cons]
  · simp [Text.join, List.intercalate_cons_cons]

/-- An edit with a blank separator changes the order of the solid characters and nothing else. -/
theorem solid_moveAfter (hseparator : separator.solid = [])
    (h : Range.InOrder text.length 0 [moved, reference]) :
    (moveAfter text moved reference separator).text.solid.Perm
      (text.slice moved.start reference.stop).solid := by
  have hstrip : (text.slice moved.stop reference.start).strip.solid =
      (text.slice moved.stop reference.start).solid := by
    obtain ⟨left, right, hsplit, hleft, hright⟩ :=
      (text.slice moved.stop reference.start).exists_eq_strip
    have hsolid := congrArg Text.solid hsplit
    rw [Text.solid_append, Text.solid_append, Text.solid_eq_nil hleft,
      Text.solid_eq_nil hright, List.nil_append, List.append_nil] at hsolid
    exact hsolid.symm
  have hbetween : (if (text.slice moved.stop reference.start).strip.isEmpty then []
      else separator : Text).solid = [] := by
    split_ifs
    · rfl
    · exact hseparator
  rw [moveAfter_text, slice_moveAfter h]
  simp only [Text.solid_append, hstrip, hbetween, hseparator, List.append_nil]
  -- The block goes from the front to the back.
  rw [List.append_assoc (text.slice moved.start moved.stop).solid]
  exact List.perm_append_comm

/-- Edits that follow one another keep what each of them keeps. -/
theorem replaceAll_perm {edits : List Edit} {offset : Int} (hoffset : 0 ≤ offset)
    (h : Range.InOrder text.length offset (edits.map Edit.range))
    (hsolid : ∀ edit ∈ edits, edit.text.solid.Perm (text.slice edit.start edit.stop).solid) :
    (replaceAll text offset edits).solid.Perm (text.since offset).solid := by
  induction edits generalizing offset with
  | nil => exact List.Perm.refl _
  | cons edit edits ih =>
    obtain ⟨hstart, hrange, hrest⟩ := h
    simp only [Edit.range] at hstart hrange hrest
    have hstop := hrest.le
    have hedit := hsolid edit (List.mem_cons_self ..)
    have hedits := ih (Int.le_trans (Int.le_trans hoffset hstart) hrange) hrest
      fun other hother => hsolid other (List.mem_cons_of_mem _ hother)
    rw [replaceAll, ← Text.slice_append_since hoffset hstart (by omega),
      ← Text.slice_append_since (by omega) hrange hstop]
    simp only [Text.solid_append, List.append_assoc]
    exact (hedit.append hedits).append_left _

end Edit

/-! ### The fixes of a check -/

theorem Fixable.filterMap_fix_accepted (diagnostics : List Diagnostic) :
    ((accepted diagnostics).map Fixable.diagnostic).filterMap Diagnostic.fix =
      (accepted diagnostics).map Fixable.edit := by
  rw [List.filterMap_map, ← List.filterMap_eq_map]
  refine List.filterMap_congr fun fixable hmem => ?_
  exact (mem_sorted_iff.1 ((accepted_sublist diagnostics).subset hmem)).2

namespace Rule

variable {rule : Rule} {strategy : UsageStrategy} {source : Source} {collection : Collection}
  {prerequisites : Prerequisites Name} {uses : FirstUses} {separator : Text}
  {diagnostics : List Diagnostic}

/-- The ranges of a declaration and of one further on follow one another. -/
theorem Analysed.ranges_inOrder (h : rule.Analysed strategy source collection prerequisites uses)
    (hordered : source.Ordered) {moved reference : Declaration} (hmoved : moved ∈ collection)
    (hreference : reference ∈ collection) (hlt : moved.position < reference.position) :
    Range.InOrder source.text.length 0 [moved.range, reference.range] := by
  obtain ⟨ranges, hranges, hinOrder⟩ := hordered
  obtain ⟨markers, -, hcollection⟩ := h.collected
  have hpair := ((h.wellFormed.precedes_iff hmoved hreference).2 hlt).map Declaration.range
  exact hinOrder.sublist (hpair.trans (Collection.ofStatements_ranges hcollection hranges))

/-- Each fix of a check replaces a declaration, what is between, and a reference further on. -/
theorem exists_moves_of_check (hordered : source.Ordered)
    (hseparator : separatorText rule.separator = .ok separator)
    (hcheck : rule.check strategy source = .ok diagnostics)
    (hcollected : ∃ markers, rule.markerNames.items = .ok markers ∧
      Collection.ofStatements markers source.body = .ok collection) {fixable : Fixable}
    (hmem : fixable ∈ Fixable.sorted diagnostics) :
    ∃ moved ∈ collection, ∃ reference ∈ collection,
      fixable.Moves source.text separator moved reference ∧
        Range.InOrder source.text.length 0 [moved.range, reference.range] := by
  obtain ⟨other, hother, hanalysed⟩ := analysed_of_check hcheck
  obtain rfl : collection = other := by
    obtain ⟨markers, hmarkers, hcollection⟩ := hcollected
    obtain ⟨markers', hmarkers', hcollection'⟩ := hother
    obtain rfl := Except.ok.inj (hmarkers.symm.trans hmarkers')
    exact Except.ok.inj (hcollection.symm.trans hcollection')
  rcases hanalysed with rfl | ⟨prerequisites, uses, h⟩
  · exact absurd (Fixable.mem_sorted_iff.1 hmem).1 List.not_mem_nil
  · obtain ⟨-, -, moved, hmoved, reference, hreference, hmoves, -, hlt⟩ :=
      h.moves_of_fix hseparator hcheck hmem
    exact ⟨moved, hmoved, reference, hreference, hmoves,
      h.ranges_inOrder hordered hmoved hreference hlt⟩

/-- **Fixes lose and add nothing but white space.**  The text that is written has the solid
characters of the file.  Outside the edits that are made, which follow one another, it is the text
of the file.  An edit replaces a declaration, what is between, and the reference behind which the
declaration belongs; it ends with the text of the reference and then that of the declaration, and in
front of these stands what was between, without the white space at its ends. -/
theorem applyFixes_rearranges (hordered : source.Ordered)
    (hseparator : separatorText rule.separator = .ok separator)
    (hblank : ∀ c ∈ separator, Text.isBlank c = true)
    (hcheck : rule.check strategy source = .ok diagnostics) :
    let fixed := (applyFixes source.text diagnostics).1
    let applied := (applyFixes source.text diagnostics).2
    let edits := applied.filterMap Diagnostic.fix
    fixed.solid.Perm source.text.solid ∧
      (Range.InOrder source.text.length 0 (edits.map Edit.range) ∧
        fixed = Edit.replaceAll source.text 0 edits) ∧
      ∃ collection, (∃ markers, rule.markerNames.items = .ok markers ∧
          Collection.ofStatements markers source.body = .ok collection) ∧
        ∀ diagnostic ∈ applied, ∃ moved ∈ collection, ∃ reference ∈ collection,
          diagnostic.name = moved.name ∧ diagnostic.predecessor = some reference.name ∧
          ∃ edit, diagnostic.fix = some edit ∧
            edit.range = ⟨moved.range.start, reference.range.stop⟩ ∧
          ∃ left kept right, (∀ c ∈ left, Text.isBlank c = true) ∧ kept.strip = kept ∧
            (∀ c ∈ right, Text.isBlank c = true) ∧
            source.text.slice moved.range.stop reference.range.start = left ++ kept ++ right ∧
            source.text.slice edit.start edit.stop =
              source.text.slice moved.range.start moved.range.stop ++ (left ++ kept ++ right) ++
                source.text.slice reference.range.start reference.range.stop ∧
            edit.text = kept ++ (if kept.isEmpty then [] else separator) ++
              source.text.slice reference.range.start reference.range.stop ++ separator ++
                source.text.slice moved.range.start moved.range.stop := by
  intro fixed applied edits
  obtain ⟨collection, hcollected, -⟩ := analysed_of_check hcheck
  have hmoves : ∀ fixable ∈ Fixable.sorted diagnostics, ∃ moved ∈ collection,
      ∃ reference ∈ collection, fixable.Moves source.text separator moved reference ∧
        Range.InOrder source.text.length 0 [moved.range, reference.range] :=
    fun fixable hmem => exists_moves_of_check hordered hseparator hcheck hcollected hmem
  have haccepted := (Fixable.accepted_sublist diagnostics).subset
  have hedits : edits = (Fixable.accepted diagnostics).map Fixable.edit :=
    Fixable.filterMap_fix_accepted diagnostics
  have hbounds : ∀ fixable ∈ Fixable.sorted diagnostics, 0 ≤ fixable.edit.start ∧
      fixable.edit.start ≤ fixable.edit.stop ∧ fixable.edit.stop ≤ source.text.length := by
    intro fixable hmem
    obtain ⟨moved, -, reference, -, hfixable, hstart, hmoved, hbetween, hreference, hrest⟩ :=
      hmoves fixable hmem
    have hstop : reference.range.stop ≤ source.text.length := hrest.le
    rw [hfixable.edit]
    simp only [Edit.moveAfter]
    omega
  have hfixed : fixed = Edit.replaceAll source.text 0 edits := by
    rw [hedits]
    exact applyFixes_text hbounds
  have hranges : Range.InOrder source.text.length 0 (edits.map Edit.range) := by
    rw [hedits, List.map_map]
    exact Fixable.inOrder_accepted hbounds
  refine ⟨?_, ⟨hranges, hfixed⟩, collection, hcollected, fun diagnostic happlied => ?_⟩
  · rw [hfixed, ← Text.since_zero source.text]
    refine Edit.replaceAll_perm (Int.le_refl 0) hranges fun edit hedit => ?_
    rw [hedits] at hedit
    obtain ⟨fixable, hmem, rfl⟩ := List.mem_map.1 hedit
    obtain ⟨moved, -, reference, -, hfixable, hinOrder⟩ := hmoves fixable (haccepted hmem)
    rw [hfixable.edit]
    exact Edit.solid_moveAfter (Text.solid_eq_nil hblank) hinOrder
  · obtain ⟨fixable, hmem, rfl⟩ := List.mem_map.1 happlied
    obtain ⟨moved, hmoved, reference, hreference, hfixable, hinOrder⟩ :=
      hmoves fixable (haccepted hmem)
    obtain ⟨left, right, hsplit, hleft, hright⟩ :=
      (source.text.slice moved.range.stop reference.range.start).exists_eq_strip
    refine ⟨moved, hmoved, reference, hreference, hfixable.name, hfixable.predecessor,
      fixable.edit, (Fixable.mem_sorted_iff.1 (haccepted hmem)).2, by rw [hfixable.edit]; rfl,
      left, _, right, hleft, Text.strip_strip _, hright, hsplit, ?_, ?_⟩
    · rw [hfixable.edit, ← hsplit]
      exact Edit.slice_moveAfter hinOrder
    · rw [hfixable.edit]
      exact Edit.moveAfter_text ..

set_option maxRecDepth 2000 in
/-- The title is moved behind the button, and the wrapper that was between comes first. -/
theorem applyFixes_rearranges_buttonLast :
    buttonLast.Ordered ∧ separatorText default.separator = .ok ['\n'] ∧
      Text.isBlank '\n' = true ∧ ∃ diagnostics, default.check .text buttonLast = .ok diagnostics ∧
        (applyFixes buttonLast.text diagnostics).2.map Diagnostic.name = [.text "Title"] ∧
        (applyFixes buttonLast.text diagnostics).1.solid.Perm buttonLast.text.solid := by
  have hordered : buttonLast.Ordered :=
    ⟨[⟨0, 20⟩, ⟨21, 51⟩, ⟨52, 73⟩, ⟨74, 112⟩], rfl,
      Range.inOrder_of_pairwise (by decide) (by decide) (by decide)⟩
  have happly : applyFixes buttonLast.text [titleBehindButton buttonLast ⟨52, 73⟩] =
      ((Edit.moveAfter buttonLast.text ⟨0, 20⟩ ⟨52, 73⟩ ['\n']).apply buttonLast.text,
        [titleBehindButton buttonLast ⟨52, 73⟩]) := applyFixes_singleton rfl
  have hblank : Text.isBlank '\n' = true := by decide
  obtain ⟨hsolid, -⟩ := applyFixes_rearranges hordered rfl
    (fun c hc => by rw [List.mem_singleton.1 hc]; exact hblank) check_buttonLast
  exact ⟨hordered, rfl, hblank, _, check_buttonLast, by rw [happly]; rfl, hsolid⟩

end Rule
end UsageOrder
