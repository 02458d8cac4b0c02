import UsageOrder.Proofs.Moves
import UsageOrder.Proofs.Neighbours
import UsageOrder.Proofs.Ranking

/-!
# The order of the declarations once fixes are applied

In a file whose statements stand one behind the other in the text, each fix of a check moves a block
behind another one (`Analysed.moves_of_fix`), and those that are taken do so one behind the other
(`Analysed.follow`).  The text that is written is therefore the text of a layout that holds the
blocks of the file.

The desired order has every declaration behind those it refers to, but the text that is written need
not be in the desired order.  A fix moves a declaration over all that stands between it and its
predecessor, and a declaration that refers to it may be among that.  No other fix changes the order
of the two.
-/

namespace UsageOrder

/-- The statements have ranges inside the text, which stand in order and are not empty. -/
def Source.LaidOut (source : Source) : Prop :=
  ∃ ranges, source.body.mapM Json.range = .ok ranges ∧
    (∀ range ∈ ranges, 0 ≤ range.start ∧ range.start < range.stop ∧
      range.stop ≤ source.text.length) ∧
    ranges.Pairwise fun a b => a.stop ≤ b.start

/-- The names of a collection are pairwise different. -/
theorem Collection.WellFormed.distinct_declarations {collection : Collection}
    (h : collection.WellFormed) : Distinct collection :=
  List.pairwise_map.1 h.distinct

namespace Rule

variable {rule : Rule} {strategy : UsageStrategy} {source : Source} {collection : Collection}
  {prerequisites : Prerequisites Name} {uses : FirstUses} {separator : Text}
  {diagnostics : List Diagnostic}

theorem Analysed.laidOut (h : rule.Analysed strategy source collection prerequisites uses)
    (hlaidOut : source.LaidOut) :
    (∀ declaration ∈ collection, 0 ≤ declaration.range.start ∧
      declaration.range.start < declaration.range.stop ∧
        declaration.range.stop ≤ source.text.length) ∧
    collection.Pairwise fun a b => a.range.stop ≤ b.range.start := by
  obtain ⟨ranges, hranges, hinside, hapart⟩ := hlaidOut
  obtain ⟨markers, -, hcollection⟩ := h.collected
  have hsub := Collection.ofStatements_ranges hcollection hranges
  refine ⟨fun declaration hmem => ?_, List.pairwise_map.1 (hapart.sublist hsub)⟩
  exact hinside _ (hsub.subset (List.mem_map_of_mem hmem))

theorem mem_displacedPairs {desired : List Declaration} {reference moved : Declaration}
    (h : (reference, moved) ∈ displacedPairs desired) :
    Order.Neighbours desired reference moved ∧ moved.position ≤ reference.position := by
  obtain ⟨hmem, hle⟩ := List.mem_filter.1 h
  exact ⟨Order.mem_zip_drop_iff.1 hmem, of_decide_eq_true hle⟩

/-- Locating a diagnostic changes its position only. -/
theorem exists_mem_of_located {text : Text} {reported : List Diagnostic}
    (h : reported.mapM (Diagnostic.locate text) = .ok diagnostics) {diagnostic : Diagnostic}
    (hmem : diagnostic ∈ diagnostics) : ∃ found ∈ reported, found.name = diagnostic.name ∧
      found.predecessor = diagnostic.predecessor ∧ found.fix = diagnostic.fix := by
  obtain ⟨found, hfound, hlocate⟩ := exists_mem_of_mapM_result h hmem
  obtain ⟨offset, -, hlocate⟩ := bind_eq_ok_iff.1 hlocate
  rw [← Except.ok.inj hlocate]
  exact ⟨found, hfound, rfl, rfl, rfl⟩

/-- A check reports a fix only if there is a desired order. -/
theorem Analysed.settled_of_fix (h : rule.Analysed strategy source collection prerequisites uses)
    (hcheck : rule.check strategy source = .ok diagnostics) {diagnostic : Diagnostic}
    (hmem : diagnostic ∈ diagnostics) (hfix : diagnostic.fix ≠ none) :
    ∃ settled, Order.reconcileRanked collection.names uses.ranks prerequisites rule.maxPasses =
      .ok settled := by
  cases hreconcile : Order.reconcileRanked collection.names uses.ranks prerequisites
      rule.maxPasses with
  | ok settled => exact ⟨settled, rfl⟩
  | error fault =>
    rw [h.check_eq, hreconcile] at hcheck
    cases fault with
    | unresolvable cause =>
      obtain ⟨found, hfound, -, -, hsame⟩ := exists_mem_of_located hcheck hmem
      obtain ⟨declaration, -, rfl⟩ := Option.map_eq_some_iff.1 (Option.mem_toList.1 hfound)
      exact absurd hsame.symm hfix
    | _ => exact absurd hcheck (by simp)

/-- **Each fix of a check moves a declaration behind the one that immediately precedes it in the
desired order.** -/
theorem Analysed.moves_of_fix (h : rule.Analysed strategy source collection prerequisites uses)
    (hseparator : separatorText rule.separator = .ok separator)
    (hcheck : rule.check strategy source = .ok diagnostics) {fixable : Fixable}
    (hmem : fixable ∈ Fixable.sorted diagnostics) :
    ∃ settled, Order.reconcileRanked collection.names uses.ranks prerequisites rule.maxPasses =
        .ok settled ∧
      ∃ moved ∈ collection, ∃ reference ∈ collection,
        fixable.Moves source.text separator moved reference ∧
          Order.Neighbours settled.order reference.name moved.name ∧
            moved.position < reference.position := by
  obtain ⟨hmem, hfix⟩ := Fixable.mem_sorted_iff.1 hmem
  obtain ⟨settled, hsettled⟩ := h.settled_of_fix hcheck hmem (by rw [hfix]; simp)
  rw [h.check_of_settled hsettled] at hcheck
  obtain ⟨reported, hdisplaced, hcheck⟩ := bind_eq_ok_iff.1 hcheck
  obtain ⟨diagnostic, hdiagnostic, hname, hpredecessor, hsame⟩ := exists_mem_of_located hcheck hmem
  obtain ⟨⟨reference, moved⟩, hpair, hmisplaced⟩ :=
    exists_mem_of_mapM_result hdisplaced hdiagnostic
  rw [misplaced, hseparator] at hmisplaced
  obtain rfl := Except.ok.inj hmisplaced
  have hcollection := h.wellFormed
  obtain ⟨hperm, -⟩ := h.reconciled hsettled
  obtain ⟨hneighbours, hle⟩ := mem_displacedPairs hpair
  have hdesired := hcollection.filterMap_named?_perm hperm
  have hmoved := hdesired.subset hneighbours.precedes.mem_right
  have hreference := hdesired.subset hneighbours.precedes.mem_left
  have hnames := hneighbours.map Declaration.name
  have horder := hcollection.names_filterMap_named? hperm.subset
  rw [Collection.names] at horder
  rw [horder] at hnames
  refine ⟨settled, hsettled, moved, hmoved, reference, hreference,
    ⟨hname.symm, hpredecessor.symm, (Option.some.inj (hsame.trans hfix)).symm⟩, hnames, ?_⟩
  refine lt_of_le_of_ne hle fun heq =>
    hnames.precedes.ne (hperm.nodup_iff.2 hcollection.nodup_names) ?_
  rw [hcollection.eq_of_position_eq hmoved hreference heq]

/-- The fixes that are taken move declarations one behind the other. -/
theorem Analysed.follow (h : rule.Analysed strategy source collection prerequisites uses)
    (hlaidOut : source.LaidOut) (hseparator : separatorText rule.separator = .ok separator)
    (hcheck : rule.check strategy source = .ok diagnostics) :
    Follow source.text separator collection (Fixable.accepted diagnostics) ∧
      (applyFixes source.text diagnostics).1 = Edit.replaceAll source.text 0
        ((Fixable.accepted diagnostics).map Fixable.edit) := by
  have hcollection := h.wellFormed
  obtain ⟨hinside, hapart⟩ := h.laidOut hlaidOut
  have hmoves : ∀ fixable ∈ Fixable.sorted diagnostics, ∃ moved ∈ collection,
      ∃ reference ∈ collection, fixable.Moves source.text separator moved reference ∧
        moved.range.stop ≤ reference.range.start := by
    intro fixable hmem
    obtain ⟨-, -, moved, hmoved, reference, hreference, hmoves, -, hlt⟩ :=
      h.moves_of_fix hseparator hcheck hmem
    refine ⟨moved, hmoved, reference, hreference, hmoves, ?_⟩
    have hprecedes := (hcollection.precedes_iff hmoved hreference).2 hlt
    exact List.rel_of_pairwise_cons (hapart.sublist hprecedes) (List.mem_singleton_self reference)
  have hbounds : ∀ fixable ∈ Fixable.sorted diagnostics, 0 ≤ fixable.edit.start ∧
      fixable.edit.start ≤ fixable.edit.stop ∧ fixable.edit.stop ≤ source.text.length := by
    intro fixable hmem
    obtain ⟨moved, hmoved, reference, hreference, hmoves, hle⟩ := hmoves fixable hmem
    have hmovedRange := hinside moved hmoved
    have hreferenceRange := hinside reference hreference
    rw [hmoves.edit]
    simp only [Edit.moveAfter]
    omega
  refine ⟨follow_of_apart hapart (fun a ha => (hinside a ha).2.1) (fun fixable hmem => ?_) ?_,
    applyFixes_text hbounds⟩
  · exact hmoves fixable ((Fixable.accepted_sublist diagnostics).subset hmem)
  · exact Fixable.accepted_apart fun fixable hmem => (hbounds fixable hmem).2.1

/-- A fix never moves a declaration to just behind one that refers to it: in the desired order the
declaration comes first. -/
theorem Analysed.position_ne_of_fix
    (h : rule.Analysed strategy source collection prerequisites uses)
    (hseparator : separatorText rule.separator = .ok separator)
    (hcheck : rule.check strategy source = .ok diagnostics) {fixable : Fixable}
    (hmem : fixable ∈ Fixable.sorted diagnostics) {referrer referred reference : Declaration}
    (hreferrer : referrer ∈ collection) (hreferred : referred ∈ collection)
    (hreference : reference ∈ collection)
    (hbefore : referred.name ∈ prerequisites.before referrer.name)
    (hmoves : fixable.Moves source.text separator referred reference) :
    referrer.position ≠ reference.position := by
  intro heq
  have hcollection := h.wellFormed
  obtain ⟨settled, hsettled, moved, hmoved, target, htarget, hmoves', hneighbours, -⟩ :=
    h.moves_of_fix hseparator hcheck hmem
  have hdistinct := hcollection.distinct_declarations
  obtain ⟨rfl, rfl⟩ := hmoves.unique hdistinct hmoves' hreferred hmoved hreference htarget
  obtain ⟨hperm, hdesired⟩ := h.reconciled hsettled
  have hprecedes := hdesired referrer.name (List.mem_map_of_mem hreferrer) referred.name hbefore
    (List.mem_map_of_mem hreferred)
  rw [hcollection.eq_of_position_eq hreferrer hreference heq] at hprecedes
  exact hprecedes.asymm (hperm.nodup_iff.2 hcollection.nodup_names) hneighbours.precedes

/-- **A declaration that stands before one that refers to it still does once fixes are applied,
exactly when no fix that is applied moves it over that one.**  The text that is written is that of
a layout in which the blocks of the reported declarations have been moved, and every block there
holds the text of its declaration. -/
theorem applyFixes_keeps_iff (h : rule.Analysed strategy source collection prerequisites uses)
    (hlaidOut : source.LaidOut) (hseparator : separatorText rule.separator = .ok separator)
    (hcheck : rule.check strategy source = .ok diagnostics) {referrer referred : Declaration}
    (hreferrer : referrer ∈ collection) (hreferred : referred ∈ collection)
    (hbefore : referred.name ∈ prerequisites.before referrer.name)
    (hfirst : referred.position < referrer.position) :
    let declared := Layout.cut source.text source.text.length 0 collection
    let fixed := declared.mendAll separator (applyFixes source.text diagnostics).2
    (declared.text = source.text ∧ declared.owners = collection) ∧
      (fixed.text = (applyFixes source.text diagnostics).1 ∧ fixed.Holds source.text ∧
        fixed.owners.Perm collection) ∧
        (Order.Precedes fixed.owners referred referrer ↔
          ¬ ∃ diagnostic ∈ (applyFixes source.text diagnostics).2, ∃ reference ∈ collection,
            diagnostic.name = referred.name ∧ diagnostic.predecessor = some reference.name ∧
              referrer.position < reference.position) := by
  intro declared fixed
  have hcollection := h.wellFormed
  have hdistinct := hcollection.distinct_declarations
  obtain ⟨hinside, hapart⟩ := h.laidOut hlaidOut
  obtain ⟨hfollow, htext⟩ := h.follow hlaidOut hseparator hcheck
  have hranges : Range.InOrder source.text.length 0 (collection.map Declaration.range) := by
    refine Range.inOrder_of_pairwise (by omega) ?_ (List.pairwise_map.2 hapart)
    intro range hrange
    obtain ⟨declaration, hmem, rfl⟩ := List.mem_map.1 hrange
    have := hinside declaration hmem
    omega
  have hprecedes := hfollow.precedes_iff hdistinct hcollection.pairwise_position
    ((hcollection.precedes_iff hreferred hreferrer).2 hfirst) 0 source.text.length
  have hholds : declared.Holds source.text := Layout.holds_cut source.text 0 _ collection
  refine ⟨⟨?_, Layout.owners_cut ..⟩,
    ⟨?_, hholds.mendAll _, hfollow.owners_perm hdistinct 0 _⟩, ?_⟩
  · rw [Layout.text_cut (Int.le_refl 0) (Int.le_refl _) hranges, Text.slice_length]
    rfl
  · rw [htext]
    exact hfollow.text_mendAll hdistinct (Int.le_refl 0) hranges
  · refine hprecedes.trans (not_congr ⟨?_, ?_⟩)
    · rintro ⟨fixable, hmem, reference, hreference, hmoves, hle⟩
      have hne := h.position_ne_of_fix hseparator hcheck
        ((Fixable.accepted_sublist diagnostics).subset hmem) hreferrer hreferred hreference hbefore
        hmoves
      exact ⟨fixable.diagnostic, List.mem_map_of_mem hmem, reference, hreference, hmoves.name,
        hmoves.predecessor, lt_of_le_of_ne hle hne⟩
    · rintro ⟨diagnostic, hmem, reference, hreference, hname, hpredecessor, hlt⟩
      obtain ⟨fixable, hfixable, rfl⟩ := List.mem_map.1 hmem
      obtain ⟨moved, hmoved, target, htarget, hmoves⟩ := hfollow.exists_moves hfixable
      obtain rfl := hcollection.eq_of_name_eq hmoved hreferred (hmoves.name.symm.trans hname)
      obtain rfl := hcollection.eq_of_name_eq htarget hreference
        (Option.some.inj (hmoves.predecessor.symm.trans hpredecessor))
      exact ⟨fixable, hfixable, target, htarget, hmoves, hlt.le⟩

/-! ### A title that is moved over its wrapper -/

/-- A statement that holds elements and declares nothing. -/
def elementStatement (range : Range) : Json :=
  .obj [("type", .str "ExpressionStatement"),
    ("range", .arr [.int range.start, .int range.stop])]

/-- A text of some lines. -/
def linesText (lines : List String) : Text := lines.flatMap fun line => line.toList ++ ['\n']

/-- A title, a wrapper that refers to it, and a button that is used first. -/
def buttonLast : Source where
  path := none
  text := linesText ["const Title = css``;", "const Wrapper = css`${Title}`;",
    "const Button = css``;", "<Button><Title /><Wrapper /></Button>;"]
  body := [cssStatement "Title" ⟨0, 20⟩ [], cssStatement "Wrapper" ⟨21, 51⟩ ["Title"],
    cssStatement "Button" ⟨52, 73⟩ [], elementStatement ⟨74, 112⟩]

/-- The report that the title should be behind the button, whose block has a range. -/
def titleBehindButton (source : Source) (button : Range) : Diagnostic where
  name := .text "Title"
  anchor := identifierAt "Title" 6
  message := "Declaration of Title should be after Button"
  predecessor := some (.text "Button")
  fix := some (Edit.moveAfter source.text ⟨0, 20⟩ button ['\n'])
  position := ⟨1, 7⟩

section
set_option maxRecDepth 2000

theorem analysed_buttonLast : default.Analysed .text buttonLast
    [cssDeclaration "Title" 0 ⟨0, 20⟩ [], cssDeclaration "Wrapper" 1 ⟨21, 51⟩ ["Title"],
      cssDeclaration "Button" 2 ⟨52, 73⟩ []]
    (Prerequisites.rename .text [("Title", []), ("Wrapper", ["Title"]), ("Button", [])])
    [(.text "Title", some 82), (.text "Wrapper", some 91), (.text "Button", some 74)] :=
  ⟨⟨Styled.defaultMarkers.map Json.str, rfl, rfl⟩, by decide, rfl, rfl⟩

theorem reconcileRanked_buttonLast :
    Order.reconcileRanked (["Title", "Wrapper", "Button"].map .text)
      [(.text "Title", ⟨.int 82⟩), (.text "Wrapper", ⟨.int 91⟩), (.text "Button", ⟨.int 74⟩)]
      (Prerequisites.rename .text [("Title", []), ("Wrapper", ["Title"]), ("Button", [])])
      (.int 1000) = .ok ⟨["Button", "Title", "Wrapper"].map .text, 1⟩ :=
  Order.reconcileRanked_eq_ok_iff.2 ⟨by cbv, ["Button", "Title", "Wrapper"], 1000,
    ⟨["Button", "Title", "Wrapper"], 1⟩,
    Order.initialRanked_of_perm (by decide) (by decide) (by decide) (by decide), rfl, by decide, rfl⟩

theorem check_buttonLast :
    default.check .text buttonLast = .ok [titleBehindButton buttonLast ⟨52, 73⟩] := by
  rw [analysed_buttonLast.check_of_settled reconcileRanked_buttonLast]
  rfl

/-- **A fix may move a declaration over one that refers to it.**  The title stands before the
wrapper, and the text that is written has it behind. -/
theorem applyFixes_buttonLast :
    ∃ collection prerequisites uses diagnostics,
      default.Analysed .text buttonLast collection prerequisites uses ∧ buttonLast.LaidOut ∧
        separatorText default.separator = .ok ['\n'] ∧
        default.check .text buttonLast = .ok diagnostics ∧
        ∃ referrer ∈ collection, ∃ referred ∈ collection,
          referred.name ∈ prerequisites.before referrer.name ∧
          referred.position < referrer.position ∧
          (applyFixes buttonLast.text diagnostics).1 =
            linesText ["const Wrapper = css`${Title}`;", "const Button = css``;",
              "const Title = css``;", "<Button><Title /><Wrapper /></Button>;"] ∧
          ¬ Order.Precedes (Layout.mendAll ['\n'] (applyFixes buttonLast.text diagnostics).2
            (Layout.cut buttonLast.text buttonLast.text.length 0 collection)).owners
              referred referrer := by
  have happly : applyFixes buttonLast.text [titleBehindButton buttonLast ⟨52, 73⟩] =
      ((Edit.moveAfter buttonLast.text ⟨0, 20⟩ ⟨52, 73⟩ ['\n']).apply buttonLast.text,
        [titleBehindButton buttonLast ⟨52, 73⟩]) := applyFixes_singleton rfl
  refine ⟨_, _, _, _, analysed_buttonLast,
    ⟨[⟨0, 20⟩, ⟨21, 51⟩, ⟨52, 73⟩, ⟨74, 112⟩], rfl, by decide, by decide⟩, rfl, check_buttonLast,
    cssDeclaration "Wrapper" 1 ⟨21, 51⟩ ["Title"], by simp,
    cssDeclaration "Title" 0 ⟨0, 20⟩ [], by simp, List.mem_singleton_self (Name.text "Title"),
    by decide, ?_, fun hprecedes => ?_⟩
  · rw [happly]
    rfl
  · rw [happly] at hprecedes
    have hpositions : [0, 1].Sublist [1, 2, 0] := hprecedes.map Declaration.position
    exact absurd hpositions (by decide)

/-- A title, a button that is used first, and a wrapper that refers to the title. -/
def buttonSecond : Source where
  path := none
  text := linesText ["const Title = css``;", "const Button = css``;",
    "const Wrapper = css`${Title}`;", "<Button><Title /><Wrapper /></Button>;"]
  body := [cssStatement "Title" ⟨0, 20⟩ [], cssStatement "Button" ⟨21, 42⟩ [],
    cssStatement "Wrapper" ⟨43, 73⟩ ["Title"], elementStatement ⟨74, 112⟩]

theorem analysed_buttonSecond : default.Analysed .text buttonSecond
    [cssDeclaration "Title" 0 ⟨0, 20⟩ [], cssDeclaration "Button" 1 ⟨21, 42⟩ [],
      cssDeclaration "Wrapper" 2 ⟨43, 73⟩ ["Title"]]
    (Prerequisites.rename .text [("Title", []), ("Button", []), ("Wrapper", ["Title"])])
    [(.text "Title", some 82), (.text "Button", some 74), (.text "Wrapper", some 91)] :=
  ⟨⟨Styled.defaultMarkers.map Json.str, rfl, rfl⟩, by decide, rfl, rfl⟩

theorem reconcileRanked_buttonSecond :
    Order.reconcileRanked (["Title", "Button", "Wrapper"].map .text)
      [(.text "Title", ⟨.int 82⟩), (.text "Button", ⟨.int 74⟩), (.text "Wrapper", ⟨.int 91⟩)]
      (Prerequisites.rename .text [("Title", []), ("Button", []), ("Wrapper", ["Title"])])
      (.int 1000) = .ok ⟨["Button", "Title", "Wrapper"].map .text, 1⟩ :=
  Order.reconcileRanked_eq_ok_iff.2 ⟨by cbv, ["Button", "Title", "Wrapper"], 1000,
    ⟨["Button", "Title", "Wrapper"], 1⟩,
    Order.initialRanked_of_perm (by decide) (by decide) (by decide) (by decide), rfl, by decide, rfl⟩

theorem check_buttonSecond :
    default.check .text buttonSecond = .ok [titleBehindButton buttonSecond ⟨21, 42⟩] := by
  rw [analysed_buttonSecond.check_of_settled reconcileRanked_buttonSecond]
  rfl

/-- The title is moved behind the button and yet stays before the wrapper. -/
theorem applyFixes_keeps_buttonSecond :
    ∃ collection prerequisites uses diagnostics,
      default.Analysed .text buttonSecond collection prerequisites uses ∧ buttonSecond.LaidOut ∧
        separatorText default.separator = .ok ['\n'] ∧
        default.check .text buttonSecond = .ok diagnostics ∧
        ∃ referrer ∈ collection, ∃ referred ∈ collection,
          referred.name ∈ prerequisites.before referrer.name ∧
          referred.position < referrer.position ∧
          (applyFixes buttonSecond.text diagnostics).2.map Diagnostic.name = [referred.name] ∧
          Order.Precedes (Layout.mendAll ['\n'] (applyFixes buttonSecond.text diagnostics).2
            (Layout.cut buttonSecond.text buttonSecond.text.length 0 collection)).owners
              referred referrer := by
  have hlaidOut : buttonSecond.LaidOut :=
    ⟨[⟨0, 20⟩, ⟨21, 42⟩, ⟨43, 73⟩, ⟨74, 112⟩], rfl, by decide, by decide⟩
  have happly : applyFixes buttonSecond.text [titleBehindButton buttonSecond ⟨21, 42⟩] =
      ((Edit.moveAfter buttonSecond.text ⟨0, 20⟩ ⟨21, 42⟩ ['\n']).apply buttonSecond.text,
        [titleBehindButton buttonSecond ⟨21, 42⟩]) := applyFixes_singleton rfl
  obtain ⟨-, -, hkeeps⟩ := applyFixes_keeps_iff analysed_buttonSecond hlaidOut rfl
    check_buttonSecond (List.mem_of_getElem? (i := 2) rfl) (List.mem_of_getElem? (i := 0) rfl)
    (List.mem_singleton_self (Name.text "Title")) (by decide)
  refine ⟨_, _, _, _, analysed_buttonSecond, hlaidOut, rfl, check_buttonSecond, _,
    List.mem_of_getElem? (i := 2) rfl, _, List.mem_of_getElem? (i := 0) rfl,
    List.mem_singleton_self (Name.text "Title"), by decide, by rw [happly]; rfl, hkeeps.2 ?_⟩
  rintro ⟨diagnostic, -, reference, hreference, -, -, hlt⟩
  have hlast : ∀ position ∈ [0, 1, 2], ¬ 2 < position := by decide
  exact hlast reference.position (List.mem_map_of_mem hreference) hlt

end
end Rule
end UsageOrder
