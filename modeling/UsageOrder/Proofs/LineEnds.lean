import UsageOrder.Proofs.Agreement
import UsageOrder.Proofs.Verified
import UsageOrder.Proofs.Written

/-!
# Line ends of a fixed file

A text is read with one line feed for every line end, offsets are those of the text that was read, and
this text is what is written.  `Text.lengthOnDisk` is the length that the first characters of the text
have on the disk; it never comes to stand between the two characters of a line end
(`Text.unifyLineEnds_take`, `Text.unifyLineEnds_drop`).  So an edit has a range on the disk as well
(`Edit.onDisk`), and between the ranges a file holds what was read, but for carriage returns.

A fixed file therefore has nothing but its accepted ranges replaced exactly when there is no carriage
return outside of them (`Edit.replaceAll_onDisk_iff`, `Processor.processFile_lineEnds`).  Any other
carriage return is lost, and every line end outside of the ranges that had one has been changed
(`Processor.processFile_carriageReturn`).
-/

namespace UsageOrder

namespace Text

variable {raw : Text} {m n : Nat}

/-! ### Offsets on the disk -/

/-- The length on the disk of the first characters of a text that is read. -/
def lengthOnDisk : Text → Nat → Nat
  | _, 0 => 0
  | [], _ + 1 => 0
  | '\r' :: '\n' :: rest, n + 1 => lengthOnDisk rest n + 2
  | _ :: rest, n + 1 => lengthOnDisk rest n + 1

theorem unifyLineEnds_cons {c : Char} {rest : Text} (h : c = '\r' → rest.head? ≠ some '\n') :
    unifyLineEnds (c :: rest) = (if c = '\r' then '\n' else c) :: unifyLineEnds rest := by
  refine unifyLineEnds.eq_2 c rest fun tail hreturn htail => h hreturn ?_
  rw [htail, List.head?_cons]

theorem head?_ne_of_forall {c : Char} {rest : Text}
    (h : ∀ tail, c = '\r' → rest = '\n' :: tail → False) : c = '\r' → rest.head? ≠ some '\n' := by
  intro hreturn hhead
  obtain ⟨tail, rfl⟩ := List.head?_eq_some_iff.1 hhead
  exact h tail hreturn rfl

/-- **What is read first is read from the first characters on the disk.** -/
theorem unifyLineEnds_take (raw : Text) (n : Nat) :
    unifyLineEnds (raw.take (lengthOnDisk raw n)) = raw.unifyLineEnds.take n := by
  fun_induction lengthOnDisk raw n with
  | case1 raw => simp [unifyLineEnds]
  | case2 n => rfl
  | case3 rest n ih =>
    rw [List.take_succ_cons, List.take_succ_cons, unifyLineEnds, unifyLineEnds, ih,
      List.take_succ_cons]
  | case4 c rest n hpair ih =>
    have hhead := head?_ne_of_forall hpair
    rw [List.take_succ_cons, unifyLineEnds_cons, unifyLineEnds_cons hhead, ih, List.take_succ_cons]
    -- What is taken of the rest starts as the rest does.
    intro hreturn htaken
    rw [List.head?_take] at htaken
    split_ifs at htaken
    exact hhead hreturn htaken

theorem unifyLineEnds_drop (raw : Text) (n : Nat) :
    unifyLineEnds (raw.drop (lengthOnDisk raw n)) = raw.unifyLineEnds.drop n := by
  fun_induction lengthOnDisk raw n with
  | case1 raw => rfl
  | case2 n => rfl
  | case3 rest n ih =>
    rw [List.drop_succ_cons, List.drop_succ_cons, unifyLineEnds, ih, List.drop_succ_cons]
  | case4 c rest n hpair ih =>
    rw [List.drop_succ_cons, unifyLineEnds_cons (head?_ne_of_forall hpair), ih, List.drop_succ_cons]

theorem lengthOnDisk_add (raw : Text) (m n : Nat) : lengthOnDisk raw (m + n) =
    lengthOnDisk raw m + lengthOnDisk (raw.drop (lengthOnDisk raw m)) n := by
  fun_induction lengthOnDisk raw m with
  | case1 raw => simp
  | case2 m => cases n <;> simp [lengthOnDisk]
  | case3 rest m ih =>
    rw [Nat.succ_add, lengthOnDisk, ih, List.drop_succ_cons, List.drop_succ_cons]
    omega
  | case4 c rest m hpair ih =>
    rw [Nat.succ_add, lengthOnDisk.eq_4 _ _ _ hpair, ih, List.drop_succ_cons]
    omega

theorem lengthOnDisk_le (raw : Text) (n : Nat) : lengthOnDisk raw n ≤ raw.length := by
  fun_induction lengthOnDisk raw n with
  | case1 raw => exact Nat.zero_le _
  | case2 n => exact Nat.zero_le _
  | case3 rest n ih => simpa using ih
  | case4 c rest n hpair ih => simpa using ih

/-- An offset on the disk, from one in the text that is read. -/
def offsetOnDisk (raw : Text) (offset : Int) : Int := lengthOnDisk raw offset.toNat

theorem offsetOnDisk_zero (raw : Text) : offsetOnDisk raw 0 = 0 := by
  rw [offsetOnDisk, Int.toNat_zero, lengthOnDisk, Nat.cast_zero]

theorem clamp_offsetOnDisk (raw : Text) (offset : Int) :
    clamp raw.length (offsetOnDisk raw offset) = lengthOnDisk raw offset.toNat := by
  have hle := lengthOnDisk_le raw offset.toNat
  rw [offsetOnDisk, clamp_eq_toNat (by omega) (by omega), Int.toNat_natCast]

/-- **What is read between two offsets is read from what stands between them on the disk.** -/
theorem unifyLineEnds_slice {a b : Int} (ha : 0 ≤ a) (hab : a ≤ b) (hb : b ≤ raw.unifyLineEnds.length) :
    unifyLineEnds (raw.slice (offsetOnDisk raw a) (offsetOnDisk raw b)) =
      raw.unifyLineEnds.slice a b := by
  have hsum : b.toNat = a.toNat + (b.toNat - a.toNat) := by omega
  rw [slice, clamp_offsetOnDisk, clamp_offsetOnDisk, List.drop_take, hsum, lengthOnDisk_add,
    Nat.add_sub_cancel_left, unifyLineEnds_take, unifyLineEnds_drop, slice,
    clamp_eq_toNat ha (by omega), clamp_eq_toNat (by omega) hb, List.drop_take]

theorem unifyLineEnds_since {a : Int} (ha : 0 ≤ a) (hle : a ≤ raw.unifyLineEnds.length) :
    unifyLineEnds (raw.since (offsetOnDisk raw a)) = raw.unifyLineEnds.since a := by
  rw [since, clamp_offsetOnDisk, unifyLineEnds_drop, since, clamp_eq_toNat ha hle]

end Text

namespace Edit

variable {raw text : Text} {offset stop : Int} {edits : List Edit}

/-- The edit of what an edit replaces on the disk. -/
def onDisk (raw : Text) (edit : Edit) : Edit :=
  ⟨raw.offsetOnDisk edit.start, raw.offsetOnDisk edit.stop, edit.text⟩

/-- What stands outside of the ranges of some edits, from an offset on. -/
def outside (text : Text) : Int → List Edit → Text
  | offset, [] => text.since offset
  | offset, edit :: edits => text.slice offset edit.start ++ outside text edit.stop edits

/-- A text with its edits made has what stands outside of them and what they put. -/
theorem count_replaceAll (c : Char) (text : Text) (offset : Int) (edits : List Edit) :
    (replaceAll text offset edits).count c =
      (outside text offset edits).count c + (edits.map fun edit => edit.text.count c).sum := by
  induction edits generalizing offset with
  | nil => simp [replaceAll, outside]
  | cons edit edits ih =>
    rw [replaceAll, outside, List.count_append, List.count_append, List.count_append, ih,
      List.map_cons, List.sum_cons]
    omega

theorem mem_of_mem_outside {c : Char} (h : c ∈ outside text offset edits) : c ∈ text := by
  induction edits generalizing offset with
  | nil => exact List.mem_of_mem_drop h
  | cons edit edits ih =>
    rcases List.mem_append.1 h with h | h
    · exact Text.mem_of_mem_slice h
    · exact ih h

/-- Where no carriage return stands outside of some edits, what is read has the same edits made. -/
theorem replaceAll_onDisk (hoffset : 0 ≤ offset)
    (horder : Range.InOrder raw.unifyLineEnds.length offset (edits.map range))
    (hreturn : '\r' ∉ outside raw (raw.offsetOnDisk offset) (edits.map (onDisk raw))) :
    replaceAll raw (raw.offsetOnDisk offset) (edits.map (onDisk raw)) =
      replaceAll raw.unifyLineEnds offset edits := by
  induction edits generalizing offset with
  | nil =>
    rw [List.map_nil, replaceAll, replaceAll, ← Text.unifyLineEnds_since hoffset horder]
    exact (Text.unifyLineEnds_eq_self hreturn).symm
  | cons edit edits ih =>
    obtain ⟨hstart, hrange, hrest⟩ : offset ≤ edit.start ∧ edit.start ≤ edit.stop ∧
      Range.InOrder raw.unifyLineEnds.length edit.stop (edits.map range) := horder
    obtain ⟨hpiece, hlater⟩ := not_or.1 (hreturn ∘ List.mem_append.2)
    have hstop := hrest.le
    have hsame : raw.slice (raw.offsetOnDisk offset) (raw.offsetOnDisk edit.start) =
        raw.unifyLineEnds.slice offset edit.start := by
      rw [← Text.unifyLineEnds_slice hoffset hstart (by omega)]
      exact (Text.unifyLineEnds_eq_self hpiece).symm
    rw [List.map_cons, replaceAll, replaceAll, ← hsame, ← ih (by omega) hrest hlater]
    rfl

/-- **A file has nothing but the ranges of some edits replaced exactly when no carriage return stands
outside of them.** -/
theorem replaceAll_onDisk_iff (hoffset : 0 ≤ offset)
    (horder : Range.InOrder raw.unifyLineEnds.length offset (edits.map range)) :
    replaceAll raw (raw.offsetOnDisk offset) (edits.map (onDisk raw)) =
        replaceAll raw.unifyLineEnds offset edits ↔
      '\r' ∉ outside raw (raw.offsetOnDisk offset) (edits.map (onDisk raw)) := by
  refine ⟨fun h => ?_, replaceAll_onDisk hoffset horder⟩
  have hcount := congrArg (List.count '\r') h
  have hnone : (outside raw.unifyLineEnds offset edits).count '\r' = 0 :=
    List.count_eq_zero.2 fun hmem => Text.not_mem_unifyLineEnds raw (mem_of_mem_outside hmem)
  rw [count_replaceAll, count_replaceAll, hnone, List.map_map] at hcount
  refine List.count_eq_zero.1 (Nat.add_right_cancel (hcount.trans ?_))
  rfl

end Edit

/-! ### The fixes of a dump that was compared -/

/-- A fix of a source whose tree was compared with it ends inside the text. -/
theorem Source.stop_le_of_verify {rule : Rule} {strategy : UsageStrategy} {source : Source}
    {diagnostics : List Diagnostic} (hverify : source.verify = .ok ())
    (hcheck : rule.check strategy source = .ok diagnostics) {diagnostic : Diagnostic}
    (hmem : diagnostic ∈ diagnostics) {edit : Edit} (hfix : diagnostic.fix = some edit) :
    edit.stop ≤ source.text.length := by
  obtain ⟨collection, ⟨markers, -, hcollection⟩, hanalysed⟩ := Rule.analysed_of_check hcheck
  rcases hanalysed with rfl | ⟨prerequisites, uses, hanalysed⟩
  · exact absurd hmem List.not_mem_nil
  obtain ⟨settled, hsettled⟩ := hanalysed.settled_of_fix hcheck hmem (by rw [hfix]; simp)
  rw [hanalysed.check_of_settled hsettled] at hcheck
  obtain ⟨reported, hdisplaced, hlocated⟩ := bind_eq_ok_iff.1 hcheck
  obtain ⟨found, hfound, -, -, hsame⟩ := Rule.exists_mem_of_located hlocated hmem
  obtain ⟨⟨reference, moved⟩, hpair, hmisplaced⟩ := exists_mem_of_mapM_result hdisplaced hfound
  obtain ⟨separator, -, hmisplaced⟩ := bind_eq_ok_iff.1 hmisplaced
  -- The fix ends where the declaration ends that the moved one is put behind.
  obtain rfl := Except.ok.inj hmisplaced
  obtain rfl := Option.some.inj (hsame.trans hfix)
  obtain ⟨name, -, hreference⟩ := List.mem_filterMap.1
    (Rule.mem_displacedPairs hpair).1.precedes.mem_left
  exact (Source.fits_of_verify hverify hcollection (List.mem_of_find?_eq_some hreference)).inside

namespace Processor

variable {processor : Processor} {path dump : Path} {named : Option Path} {world loaded world' left : World}
  {source : Source} {text : Text} {diagnostics : List Diagnostic}

/-- A dump that a source was loaded from has been compared with the text. -/
theorem verify_of_loadSource (hdump : processor.dump? path named world = (.ok (some dump), world))
    (h : processor.loadSource path text named world = (.ok source, loaded)) :
    source.verify = .ok () := by
  rw [loadSource, Run.bind_ok hdump] at h
  obtain ⟨json, between, -, h⟩ := Run.bind_iff.1 h
  obtain ⟨found, between, -, h⟩ := Run.bind_iff.1 h
  obtain ⟨_, between, hverify, h⟩ := Run.bind_iff.1 h
  obtain ⟨rfl, -⟩ := Run.pure_iff.1 h
  exact (Run.ofExcept_iff.1 hverify).1

/-- Passes only add to the fixes that are applied, and those that apply none leave the text as it is. -/
theorem text_of_fixPasses {limit : Nat} {state last : FixState}
    (h : processor.fixPasses path limit state world = (.ok last, left)) :
    state.applied ≤ last.applied ∧ (last.applied = state.applied → last.text = state.text) := by
  induction limit generalizing state world with
  | zero =>
    obtain ⟨rfl, -⟩ := Run.pure_iff.1 h
    exact ⟨le_refl _, fun _ => rfl⟩
  | succ limit ih =>
    rw [fixPasses] at h
    dsimp only at h
    split_ifs at h with hnone hdump
    · obtain ⟨rfl, -⟩ := Run.pure_iff.1 h
      exact ⟨Nat.le_add_right _ _, fun _ => applyFixes_of_none hnone⟩
    all_goals
      have hmore : state.applied <
          state.applied + (applyFixes state.text state.diagnostics).2.length :=
        Nat.lt_add_of_pos_right (List.length_pos_iff.2 fun hnil => hnone (by rw [hnil]; rfl))
    · obtain ⟨rfl, -⟩ := Run.pure_iff.1 h
      exact ⟨hmore.le, fun hsame => absurd hsame hmore.ne'⟩
    · obtain ⟨source, parsed, -, h⟩ := Run.bind_iff.1 h
      obtain ⟨found, checked, -, h⟩ := Run.bind_iff.1 h
      split_ifs at h with hclean
      · obtain ⟨rfl, -⟩ := Run.pure_iff.1 h
        exact ⟨hmore.le, fun hsame => absurd hsame hmore.ne'⟩
      · have hlater := (ih h).1
        exact ⟨hmore.le.trans hlater, fun hsame => absurd hsame (hmore.trans_le hlater).ne'⟩

/-- **One pass leaves the text with its fixes applied:** no more are applied in the end than in the
first pass. -/
theorem text_of_onePass {limit : Nat} {last : FixState}
    (h : processor.fixPasses path limit ⟨text, diagnostics, 0⟩ world = (.ok last, left))
    (hsome : last.applied ≠ 0) (hone : last.applied = (applyFixes text diagnostics).2.length) :
    last.text = (applyFixes text diagnostics).1 := by
  cases limit with
  | zero =>
    obtain ⟨rfl, -⟩ := Run.pure_iff.1 h
    exact absurd rfl hsome
  | succ limit =>
    rw [fixPasses] at h
    dsimp only at h
    split_ifs at h with hnone hdump
    · obtain ⟨rfl, -⟩ := Run.pure_iff.1 h
      rfl
    · obtain ⟨rfl, -⟩ := Run.pure_iff.1 h
      rfl
    · obtain ⟨source, parsed, -, h⟩ := Run.bind_iff.1 h
      obtain ⟨found, checked, -, h⟩ := Run.bind_iff.1 h
      split_ifs at h with hclean
      · obtain ⟨rfl, -⟩ := Run.pure_iff.1 h
        rfl
      · exact (text_of_fixPasses h).2 (hone.trans (Nat.zero_add _).symm)

/-- A file that is fixed has the text that the passes have left, and the report counts their fixes. -/
theorem at?_of_fixed {report : Report} (hsuffix : processor.config.parser.astSuffix ≠ .str "")
    (hdry : processor.config.dryRun.truthy = false)
    (hrun : processor.processFile path true named world = (.ok report, world'))
    (hfixed : report.status = .fixed) :
    ∃ state left, processor.Leaves path named world state left ∧ report.changes = state.applied ∧
      world'.at? path = some (.file (.text state.text) none) := by
  have hstrictly := processStrictly_of_status hrun (by simp [hfixed])
  have hends : processor.Ends path true named (fun _ => True) world
      (processor.processStrictly path true named world) :=
    processStrictly_ends ⟨fun _ _ _ _ => trivial, fun _ _ _ _ _ _ _ => trivial⟩ true trivial
  rw [hstrictly] at hends
  generalize hresult : (Except.ok report, world') = result at hends
  cases hends with
  | fault kept => exact absurd (Prod.mk.inj hresult).1 (by simp)
  | report kept dry =>
    obtain rfl := Except.ok.inj (Prod.mk.inj hresult).1
    exact absurd (dry hfixed) (by simp [hdry])
  | @write state left asked wet leaves kept =>
    obtain ⟨backup, written, hwritten, hreport⟩ := Run.bind_iff.1 hresult.symm
    obtain ⟨rfl, rfl⟩ := Run.pure_iff.1 hreport
    obtain ⟨ready, place, -, hplace, hdiscard⟩ := writeFixed_of_ok hwritten
    obtain ⟨beside, hbeside, -⟩ := discardSidecar_of_ok hdiscard
    have htext := discardSidecar_hasFile hdiscard hsuffix
      (hplace.hasFile_put (parts_of_sidecar hbeside).1 rfl)
    exact ⟨state, left, leaves, rfl, htext.at?_eq⟩

/-- **What becomes of the line ends of a file that is fixed in one pass.**  The file holds what was
read, with the accepted edits made all at once.  So nothing but their ranges has been replaced in it
exactly when no carriage return stands outside of these ranges. -/
theorem processFile_lineEnds {content : Text} {changed : ChangeTime} {report : Report} {checked : World}
    (hsuffix : processor.config.parser.astSuffix ≠ .str "")
    (hdry : processor.config.dryRun.truthy = false)
    (hcontent : world.at? path = some (.file (.text content) changed))
    (hdump : processor.dump? path named world = (.ok (some dump), world))
    (hload : processor.loadSource path content.unifyLineEnds named world = (.ok source, loaded))
    (hcheck : processor.check source loaded = (.ok diagnostics, checked))
    (hranges : ∀ diagnostic ∈ diagnostics, ∀ edit, diagnostic.fix = some edit →
      0 ≤ edit.start ∧ edit.start ≤ edit.stop)
    (hrun : processor.processFile path true named world = (.ok report, world'))
    (hfixed : report.status = .fixed)
    (hone : report.changes = (Fixable.accepted diagnostics).length) :
    let edits := (Fixable.accepted diagnostics).map Fixable.edit
    world'.at? path = some (.file (.text (Edit.replaceAll content.unifyLineEnds 0 edits)) none) ∧
      (world'.at? path =
          some (.file (.text (Edit.replaceAll content 0 (edits.map (Edit.onDisk content)))) none) ↔
        '\r' ∉ Edit.outside content 0 (edits.map (Edit.onDisk content))) := by
  intro edits
  obtain ⟨state, left, leaves, hchanges, hwritten⟩ := at?_of_fixed hsuffix hdry hrun hfixed
  obtain ⟨source', diagnostics', limit, loaded', checked', hread, hload', hcheck', -, -, hpasses,
    hsome⟩ := leaves
  -- What was loaded and checked is what was given.
  obtain ⟨place, value, changed', hfile, htext⟩ := World.readText_eq_ok_iff.1 hread
  obtain ⟨hvalue, -⟩ := Entry.file.inj (Option.some.inj (hfile.at?_eq.symm.trans hcontent))
  obtain rfl := Content.text.inj hvalue
  rw [htext, hload] at hload'
  obtain ⟨hsource, rfl⟩ := Prod.mk.inj hload'
  obtain rfl := Except.ok.inj hsource
  rw [hcheck] at hcheck'
  obtain ⟨hfound, rfl⟩ := Prod.mk.inj hcheck'
  obtain rfl := Except.ok.inj hfound
  have hinside : ∀ fixable ∈ Fixable.sorted diagnostics, 0 ≤ fixable.edit.start ∧
      fixable.edit.start ≤ fixable.edit.stop ∧ fixable.edit.stop ≤ source.text.length := by
    intro fixable hmem
    obtain ⟨hmem, hfix⟩ := Fixable.mem_sorted_iff.1 hmem
    obtain ⟨hstart, hstop⟩ := hranges _ hmem _ hfix
    exact ⟨hstart, hstop, Source.stop_le_of_verify (verify_of_loadSource hdump hload)
      (rule_of_check hcheck) hmem hfix⟩
  have hfixed : state.text = Edit.replaceAll value.unifyLineEnds 0 edits := by
    have hpass := text_of_onePass hpasses hsome
      (hchanges.symm.trans (hone.trans (List.length_map Fixable.diagnostic).symm))
    rw [hpass, applyFixes_text hinside, htext]
  rw [hfixed] at hwritten
  refine ⟨hwritten, ?_⟩
  have horder : Range.InOrder value.unifyLineEnds.length 0 (edits.map Edit.range) := by
    rw [List.map_map, ← htext]
    exact Fixable.inOrder_accepted hinside
  have hiff := Edit.replaceAll_onDisk_iff (le_refl 0) horder
  rw [Text.offsetOnDisk_zero] at hiff
  rw [hwritten, ← hiff]
  exact ⟨fun h => (Content.text.inj (Entry.file.inj (Option.some.inj h)).1).symm,
    fun h => by rw [h]⟩

/-! ### A file with two kinds of line ends -/

section
set_option maxRecDepth 2000

/-- The lines of `buttonSecondApp`, the first and the last of which have their own line ends. -/
def mixedLines (first last : String) : Text :=
  ("const Title = css``;" ++ first ++ "const Button = css``;\nconst Wrapper = css`${Title}`;\n" ++
    "<Button><Title /><Wrapper /></Button>;" ++ last).toList

/-- The fix of its title. -/
def titleFix : Edit := Edit.moveAfter Rule.buttonSecond.text ⟨0, 20⟩ ⟨21, 42⟩ ['\n']

/-- How the file is fixed, whatever its line ends are. -/
theorem processFile_mixedLines {raw : Text} (hraw : raw.unifyLineEnds = buttonSecondApp.text) :
    buttonSecondApp.verify = .ok () ∧
      textual.dump? appPath none (worldOnDisk raw buttonSecondApp.body) =
        (.ok (some ⟨0, ["App.tsx.estree.json"]⟩), worldOnDisk raw buttonSecondApp.body) ∧
      textual.loadSource appPath raw.unifyLineEnds none (worldOnDisk raw buttonSecondApp.body) =
        (.ok buttonSecondApp, worldOnDisk raw buttonSecondApp.body) ∧
      (∃ checked, textual.check buttonSecondApp (worldOnDisk raw buttonSecondApp.body) =
        (.ok [Rule.titleBehindButton Rule.buttonSecond ⟨21, 42⟩], checked)) ∧
      Fixable.accepted [Rule.titleBehindButton Rule.buttonSecond ⟨21, 42⟩] =
        [⟨Rule.titleBehindButton Rule.buttonSecond ⟨21, 42⟩, titleFix⟩] ∧
      ∃ report world', textual.processFile appPath true none (worldOnDisk raw buttonSecondApp.body) =
          (.ok report, world') ∧ report.status = .fixed ∧ report.changes = 1 ∧
        world'.at? appPath = some (.file (.text (titleFix.apply buttonSecondApp.text)) none) := by
  have hplain := isPlain_buttonSecond
  have hverify := verify_buttonSecond
  have hcheck := check_buttonSecondApp
  have haccepted : Fixable.accepted [Rule.titleBehindButton Rule.buttonSecond ⟨21, 42⟩] =
      [⟨Rule.titleBehindButton Rule.buttonSecond ⟨21, 42⟩, titleFix⟩] := by
    have hsorted : Fixable.sorted [Rule.titleBehindButton Rule.buttonSecond ⟨21, 42⟩] =
        [⟨Rule.titleBehindButton Rule.buttonSecond ⟨21, 42⟩, titleFix⟩] := List.mergeSort_singleton _
    rw [Fixable.accepted, hsorted]
    rfl
  have happly : applyFixes buttonSecondApp.text [Rule.titleBehindButton Rule.buttonSecond ⟨21, 42⟩] =
      (titleFix.apply buttonSecondApp.text, [Rule.titleBehindButton Rule.buttonSecond ⟨21, 42⟩]) :=
    applyFixes_singleton rfl
  obtain ⟨log, hlog⟩ : ∃ log, textual.check buttonSecondApp (worldOnDisk raw buttonSecondApp.body) =
      (.ok [Rule.titleBehindButton Rule.buttonSecond ⟨21, 42⟩],
        { worldOnDisk raw buttonSecondApp.body with log := log }) := check_of_rule hcheck _
  obtain ⟨world', hrun, hwritten⟩ := processFile_worldOnDisk rfl hplain hverify hraw hcheck
    (by rw [happly]; simp)
  rw [happly] at hrun hwritten
  exact ⟨hverify, rfl, hraw ▸ loadSource_worldOnDisk raw rfl hplain hverify, ⟨_, hlog⟩, haccepted,
    _, world', hrun, rfl, rfl, hwritten⟩

/-- A pair of characters at the line end between the two declarations is in the range of the fix, and
all else stays as it is. -/
theorem processFile_lineEnds_inside : ∃ report world',
    textual.processFile appPath true none
      (worldOnDisk (mixedLines "\r\n" "\n") buttonSecondApp.body) = (.ok report, world') ∧
    report.status = .fixed ∧
    '\r' ∉ Edit.outside (mixedLines "\r\n" "\n") 0 [titleFix.onDisk (mixedLines "\r\n" "\n")] ∧
    world'.at? appPath = some (.file (.text (Edit.replaceAll (mixedLines "\r\n" "\n") 0
      [titleFix.onDisk (mixedLines "\r\n" "\n")])) none) := by
  have hraw : (mixedLines "\r\n" "\n").unifyLineEnds = buttonSecondApp.text := by decide +kernel
  obtain ⟨-, hdump, hload, ⟨checked, hcheck⟩, haccepted, report, world', hrun, hfixed, hone, -⟩ :=
    processFile_mixedLines hraw
  have hreturn : '\r' ∉ Edit.outside (mixedLines "\r\n" "\n") 0
      [titleFix.onDisk (mixedLines "\r\n" "\n")] := by decide +kernel
  have hlines := processFile_lineEnds (by simp [textual, Config.default, ParserSettings.default]) rfl rfl
    hdump hload hcheck (by
      intro diagnostic hmem edit hfix
      obtain rfl := List.mem_singleton.1 hmem
      obtain rfl := Option.some.inj hfix
      decide) hrun hfixed (by rw [hone, haccepted]; rfl)
  rw [haccepted] at hlines
  exact ⟨report, world', hrun, hfixed, hreturn, hlines.2.2 hreturn⟩

/-- **A carriage return outside of the range of a fix is lost:** the last line end of the file is a pair
of characters, the fix is above it, and the file that is written ends with a line feed alone. -/
theorem processFile_carriageReturn : ∃ report world',
    (worldOnDisk (mixedLines "\n" "\r\n") buttonSecondApp.body).at? appPath =
      some (.file (.text (mixedLines "\n" "\r\n")) none) ∧
    textual.loadSource appPath (mixedLines "\n" "\r\n").unifyLineEnds none
      (worldOnDisk (mixedLines "\n" "\r\n") buttonSecondApp.body) =
        (.ok buttonSecondApp, worldOnDisk (mixedLines "\n" "\r\n") buttonSecondApp.body) ∧
    buttonSecondApp.verify = .ok () ∧
    textual.processFile appPath true none
      (worldOnDisk (mixedLines "\n" "\r\n") buttonSecondApp.body) = (.ok report, world') ∧
    report.status = .fixed ∧ report.changes = 1 ∧
    world'.at? appPath = some (.file (.text (Rule.linesText ["const Button = css``;",
      "const Title = css``;", "const Wrapper = css`${Title}`;",
      "<Button><Title /><Wrapper /></Button>;"])) none) ∧
    Edit.replaceAll (mixedLines "\n" "\r\n") 0 [titleFix.onDisk (mixedLines "\n" "\r\n")] ≠
      Rule.linesText ["const Button = css``;", "const Title = css``;",
        "const Wrapper = css`${Title}`;", "<Button><Title /><Wrapper /></Button>;"] := by
  have hraw : (mixedLines "\n" "\r\n").unifyLineEnds = buttonSecondApp.text := by decide +kernel
  obtain ⟨hverify, -, hload, -, -, report, world', hrun, hfixed, hone, hwritten⟩ :=
    processFile_mixedLines hraw
  refine ⟨report, world', rfl, hload, hverify, hrun, hfixed, hone, ?_, by decide +kernel⟩
  rw [hwritten]
  rfl

end

end Processor
end UsageOrder
