import Mathlib.Algebra.BigOperators.Intervals
import UsageOrder.Proofs.SinglePass

/-!
# Passes of fixes until nothing is left

With a parser each pass of fixes is followed by a check of the fixed text.  A pass may put things in
disorder that were in order, but a declaration is moved only when it stands before its predecessor
in the desired order, and then stands behind it until the predecessor is moved itself.  So over all
passes a declaration is moved at most once more than its predecessor (`Passes.moves_le_succ`), the
one at place `k` of the desired order at most `k` times (`Passes.moves_le`), and all of them
together at most `n (n - 1) / 2` times.  As every pass moves something, the passes come to an end,
and what ends them is a file in the desired order (`Processor.fixPasses_converges`).
-/

namespace UsageOrder

/-! ### Counting moves -/

/-- How often some fixes move the declaration of a name. -/
def moves (fixes : List Diagnostic) (name : Name) : Nat :=
  fixes.countP fun diagnostic => diagnostic.name == name

/-- Of names that are all different at most one counts as a given one. -/
theorem Name.count_le_one {names : List Name} (h : names.Pairwise fun a b => (a == b) = false)
    (name : Name) : names.count name ≤ 1 := by
  induction names with
  | nil => exact Nat.zero_le _
  | cons first names ih =>
    obtain ⟨hfirst, hrest⟩ := List.pairwise_cons.1 h
    rw [List.count_cons]
    split_ifs with hsame
    · have hnone : names.count name = 0 := by
        refine List.countP_eq_zero.2 fun other hother heq => ?_
        have := BEq.trans hsame (BEq.symm heq)
        rw [hfirst other hother] at this
        exact Bool.false_ne_true this
      omega
    · exact ih hrest

/-- The fixes of all passes; a pass is a fixed text with the fixes that were applied. -/
def appliedFixes (passes : List (Text × List Diagnostic)) : List Diagnostic :=
  passes.flatMap Prod.snd

theorem moves_pos_iff {fixes : List Diagnostic} {name : Name} :
    0 < moves fixes name ↔ ∃ diagnostic ∈ fixes, (diagnostic.name == name) = true :=
  List.countP_pos_iff

theorem appliedFixes_concat (passes : List (Text × List Diagnostic))
    (pass : Text × List Diagnostic) :
    appliedFixes (passes ++ [pass]) = appliedFixes passes ++ pass.2 := by
  simp [appliedFixes]

theorem moves_concat (passes : List (Text × List Diagnostic)) (pass : Text × List Diagnostic)
    (name : Name) : moves (appliedFixes (passes ++ [pass])) name =
      moves (appliedFixes passes) name + moves pass.2 name := by
  rw [appliedFixes_concat, moves, List.countP_append]
  rfl

/-- Passes that all apply something are no more than the fixes applied. -/
theorem length_le_appliedFixes {passes : List (Text × List Diagnostic)}
    (h : ∀ pass ∈ passes, pass.2 ≠ []) : passes.length ≤ (appliedFixes passes).length := by
  induction passes with
  | nil => exact Nat.zero_le _
  | cons pass passes ih =>
    have hfirst := List.length_pos_iff.2 (h pass (List.mem_cons_self ..))
    have hrest := ih fun other hother => h other (List.mem_cons_of_mem _ hother)
    rw [appliedFixes, List.flatMap_cons, List.length_append, List.length_cons]
    rw [appliedFixes] at hrest
    omega

/-- If the name at place `k` is moved at most `k` times, there are at most `n (n - 1) / 2` fixes. -/
theorem length_le_of_moves {fixes : List Diagnostic} {desired : List Name}
    (hmem : ∀ diagnostic ∈ fixes, diagnostic.name ∈ desired)
    (hmoves : ∀ place name, desired[place]? = some name → moves fixes name ≤ place) :
    fixes.length ≤ desired.length * (desired.length - 1) / 2 := by
  induction desired using List.reverseRecOn generalizing fixes with
  | nil =>
    have hnil : fixes = [] := List.eq_nil_iff_forall_not_mem.2 fun diagnostic hdiagnostic =>
      absurd (hmem diagnostic hdiagnostic) List.not_mem_nil
    rw [hnil]
    exact Nat.zero_le _
  | append_singleton desired last ih =>
    let isLast : Diagnostic → Bool := fun diagnostic => diagnostic.name == last
    have hlast : (fixes.filter isLast).length ≤ desired.length := by
      rw [← List.countP_eq_length_filter]
      exact hmoves desired.length last (by simp)
    have hothers :
        (fixes.filter (!isLast ·)).length ≤ desired.length * (desired.length - 1) / 2 := by
      refine ih (fun diagnostic hdiagnostic => ?_) fun place name hname => ?_
      · obtain ⟨hdiagnostic, hother⟩ := List.mem_filter.1 hdiagnostic
        refine (List.mem_append.1 (hmem diagnostic hdiagnostic)).resolve_right fun hsame => ?_
        simp [isLast, List.mem_singleton.1 hsame] at hother
      · have hplace : (desired ++ [last])[place]? = some name := by
          rw [List.getElem?_append_left (List.getElem?_eq_some_iff.1 hname).1, hname]
        exact List.filter_sublist.countP_le.trans (hmoves place name hplace)
    rw [List.length_eq_length_filter_add isLast, List.length_append, List.length_singleton,
      Nat.triangle_succ]
    omega

/-! ### One pass -/

namespace Rule

/-- A pass of fixes whose text is parsed exactly.  The fixed text is that of the blocks of the
source as the fixes have moved them (`Desires.text_mended`); the statements that the parser finds in
it are laid out, the declarations among them come in the order of these blocks, and the desired
order is the same for them. -/
structure Pass (rule : Rule) (strategy : UsageStrategy) (parses : Text → Source → Prop)
    (desired : List Name) (source : Source) (collection : Collection)
    (diagnostics : List Diagnostic) (next : Source) (collection' : Collection) : Prop where
  checked : rule.check strategy source = .ok diagnostics
  reported : diagnostics ≠ []
  parsed : parses (applyFixes source.text diagnostics).1 next
  desires : rule.Desires strategy next collection' desired
  names : ∀ separator, separatorText rule.separator = .ok separator → collection'.names =
    (source.mended collection separator diagnostics).owners.map Declaration.name

namespace Pass

variable {rule : Rule} {strategy : UsageStrategy} {parses : Text → Source → Prop}
  {desired : List Name} {source next : Source} {collection collection' : Collection}
  {diagnostics : List Diagnostic} {a b : Name}

theorem exists_separator
    (h : rule.Pass strategy parses desired source collection diagnostics next collection')
    (hdesires : rule.Desires strategy source collection desired) :
    ∃ separator, separatorText rule.separator = .ok separator := by
  obtain ⟨diagnostic, hmem⟩ := List.exists_mem_of_ne_nil _ h.reported
  obtain ⟨separator, -, hseparator, -⟩ := hdesires.exists_edit h.checked hmem
  exact ⟨separator, hseparator⟩

/-- **A pass over a file with diagnostics applies a fix.** -/
theorem applied_ne_nil
    (h : rule.Pass strategy parses desired source collection diagnostics next collection')
    (hdesires : rule.Desires strategy source collection desired) :
    (applyFixes source.text diagnostics).2 ≠ [] := by
  obtain ⟨diagnostic, hmem⟩ := List.exists_mem_of_ne_nil _ h.reported
  obtain ⟨-, edit, -, hfix⟩ := hdesires.exists_edit h.checked hmem
  have hsorted : (⟨diagnostic, edit⟩ : Fixable) ∈ Fixable.sorted diagnostics :=
    Fixable.mem_sorted_iff.2 ⟨hmem, hfix⟩
  intro hnil
  exact Fixable.accepted_ne_nil hsorted (List.map_eq_nil_iff.1 hnil)

/-- What is moved has stood before its predecessor and then stands behind it. -/
theorem exists_predecessor
    (h : rule.Pass strategy parses desired source collection diagnostics next collection')
    (hdesires : rule.Desires strategy source collection desired) {diagnostic : Diagnostic}
    (hmem : diagnostic ∈ (applyFixes source.text diagnostics).2) :
    ∃ before, Order.Neighbours desired before diagnostic.name ∧
      ¬ Order.Precedes collection.names before diagnostic.name ∧
        Order.Precedes collection'.names before diagnostic.name := by
  obtain ⟨separator, hseparator⟩ := h.exists_separator hdesires
  obtain ⟨fixable, haccepted, rfl⟩ := List.mem_map.1 hmem
  obtain ⟨moved, hmoved, reference, hreference, hmoves, hneighbours, hlt⟩ :=
    hdesires.moves_of_fix hseparator h.checked
      ((Fixable.accepted_sublist diagnostics).subset haccepted)
  have hbefore : Order.Precedes collection moved reference :=
    (hdesires.wellFormed.precedes_iff hmoved hreference).2 hlt
  have hbehind :=
    hdesires.precedes_of_moves hseparator h.checked haccepted hreference hmoved hmoves
  rw [hmoves.name]
  refine ⟨reference.name, hneighbours, ?_, ?_⟩
  · exact (hbefore.map Declaration.name).asymm hdesires.wellFormed.nodup_names
  · rw [h.names separator hseparator]
    exact hbehind.map Declaration.name

/-- A pass moves a declaration at most once. -/
theorem moves_le_one
    (h : rule.Pass strategy parses desired source collection diagnostics next collection')
    (hdesires : rule.Desires strategy source collection desired) (name : Name) :
    moves (applyFixes source.text diagnostics).2 name ≤ 1 := by
  obtain ⟨separator, hseparator⟩ := h.exists_separator hdesires
  have hsub := (hdesires.follow hseparator h.checked).1.names_sublist
  have hmoves : moves (applyFixes source.text diagnostics).2 name =
      ((Fixable.accepted diagnostics).map fun fixable => fixable.diagnostic.name).count name := by
    rw [moves, applyFixes, List.countP_map, List.count, List.countP_map]
    rfl
  rw [hmoves]
  exact (hsub.count_le name).trans (Name.count_le_one hdesires.wellFormed.distinct name)

/-- If the declaration of a name is moved, it has stood before its predecessor and then stands
behind it. -/
theorem precedes_of_moves
    (h : rule.Pass strategy parses desired source collection diagnostics next collection')
    (hdesires : rule.Desires strategy source collection desired)
    (hneighbours : Order.Neighbours desired a b)
    (hmoves : 0 < moves (applyFixes source.text diagnostics).2 b) :
    ¬ Order.Precedes collection.names a b ∧ Order.Precedes collection'.names a b := by
  obtain ⟨diagnostic, hmem, hname⟩ := moves_pos_iff.1 hmoves
  obtain ⟨before, hneighbours', hbehind⟩ := h.exists_predecessor hdesires hmem
  obtain rfl := hdesires.eq_of_beq hneighbours'.precedes.mem_right hneighbours.precedes.mem_right
    hname
  obtain rfl := hneighbours'.left_unique hneighbours hdesires.nodup
  exact hbehind

/-- A declaration that stood behind another one still does unless the other one is moved. -/
theorem moves_pos_of_not_precedes
    (h : rule.Pass strategy parses desired source collection diagnostics next collection')
    (hdesires : rule.Desires strategy source collection desired)
    (hbefore : Order.Precedes collection.names a b)
    (hafter : ¬ Order.Precedes collection'.names a b) :
    0 < moves (applyFixes source.text diagnostics).2 a := by
  obtain ⟨separator, hseparator⟩ := h.exists_separator hdesires
  obtain ⟨first, hfirst, rfl⟩ := List.mem_map.1 hbefore.mem_left
  obtain ⟨second, hsecond, rfl⟩ := List.mem_map.1 hbefore.mem_right
  have hlt : first.position < second.position := by
    refine (hdesires.wellFormed.precedes_iff hfirst hsecond).1 ?_
    refine (Order.precedes_total hfirst hsecond fun heq => ?_).resolve_right fun hback => ?_
    · exact hbefore.ne hdesires.wellFormed.nodup_names (congrArg Declaration.name heq)
    · exact hbefore.asymm hdesires.wellFormed.nodup_names (hback.map Declaration.name)
  rw [h.names separator hseparator] at hafter
  have hmoved := mt (hdesires.precedes_iff hseparator h.checked hfirst hsecond hlt).2
    fun hkept => hafter (hkept.map Declaration.name)
  obtain ⟨fixable, haccepted, reference, -, hmoves, -⟩ := not_not.1 hmoved
  exact moves_pos_iff.2 ⟨fixable.diagnostic, List.mem_map_of_mem haccepted,
    by rw [hmoves.name]; exact BEq.rfl⟩

end Pass

/-! ### Any number of passes -/

/-- What passes of fixes lead to from a first source and its declarations. -/
inductive Passes (rule : Rule) (strategy : UsageStrategy) (parses : Text → Source → Prop)
    (desired : List Name) (start : Source) (declared : Collection) :
    List (Text × List Diagnostic) → Source → Collection → Prop
  | start : Passes rule strategy parses desired start declared [] start declared
  | pass {passes : List (Text × List Diagnostic)} {source next : Source}
      {collection collection' : Collection} {diagnostics : List Diagnostic}
      (hpasses : Passes rule strategy parses desired start declared passes source collection)
      (hpass : rule.Pass strategy parses desired source collection diagnostics next collection') :
      Passes rule strategy parses desired start declared
        (passes ++ [applyFixes source.text diagnostics]) next collection'

namespace Passes

variable {rule : Rule} {strategy : UsageStrategy} {parses : Text → Source → Prop}
  {desired : List Name} {start source : Source} {declared collection : Collection}
  {passes : List (Text × List Diagnostic)} {a b : Name}

theorem desires (h : rule.Passes strategy parses desired start declared passes source collection)
    (hstart : rule.Desires strategy start declared desired) :
    rule.Desires strategy source collection desired := by
  cases h with
  | start => exact hstart
  | pass hpasses hpass => exact hpass.desires

/-- **Every pass applies a fix, and what is moved has a predecessor in the desired order.** -/
theorem applied (h : rule.Passes strategy parses desired start declared passes source collection)
    (hstart : rule.Desires strategy start declared desired) :
    (∀ pass ∈ passes, pass.2 ≠ []) ∧ ∀ diagnostic ∈ appliedFixes passes,
      ∃ before, Order.Neighbours desired before diagnostic.name := by
  induction h with
  | start => exact ⟨fun _ hmem => absurd hmem List.not_mem_nil,
      fun _ hmem => absurd hmem List.not_mem_nil⟩
  | pass hpasses hpass ih =>
    have hdesires := hpasses.desires hstart
    refine ⟨fun pass hmem => ?_, fun diagnostic hmem => ?_⟩
    · rcases List.mem_append.1 hmem with hmem | hmem
      · exact ih.1 pass hmem
      · rw [List.mem_singleton.1 hmem]
        exact hpass.applied_ne_nil hdesires
    · rw [appliedFixes_concat] at hmem
      rcases List.mem_append.1 hmem with hmem | hmem
      · exact ih.2 diagnostic hmem
      · obtain ⟨before, hneighbours, -⟩ := hpass.exists_predecessor hdesires hmem
        exact ⟨before, hneighbours⟩

/-- **A declaration is moved at most once more than its predecessor,** and not more often than it
where the two are out of order. -/
theorem moves_le_succ
    (h : rule.Passes strategy parses desired start declared passes source collection)
    (hstart : rule.Desires strategy start declared desired)
    (hneighbours : Order.Neighbours desired a b) :
    moves (appliedFixes passes) b ≤ moves (appliedFixes passes) a + 1 ∧
      (¬ Order.Precedes collection.names a b →
        moves (appliedFixes passes) b ≤ moves (appliedFixes passes) a) := by
  induction h with
  | start => exact ⟨Nat.zero_le _, fun _ => Nat.le_refl _⟩
  | @pass passes source next collection collection' diagnostics hpasses hpass ih =>
    have hdesires := hpasses.desires hstart
    obtain ⟨hsucc, hle⟩ := ih
    have hone := hpass.moves_le_one hdesires b
    rw [moves_concat, moves_concat]
    by_cases hmoved : 0 < moves (applyFixes source.text diagnostics).2 b
    · -- It was out of order, so it has a move left, and now it is in order.
      obtain ⟨hbefore, hafter⟩ := hpass.precedes_of_moves hdesires hneighbours hmoved
      have := hle hbefore
      exact ⟨by omega, fun hnot => absurd hafter hnot⟩
    · refine ⟨by omega, fun hafter => ?_⟩
      by_cases hbefore : Order.Precedes collection.names a b
      · -- Only a move of the predecessor can have put the two out of order.
        have := hpass.moves_pos_of_not_precedes hdesires hbefore hafter
        omega
      · have := hle hbefore
        omega

/-- **The name at place `k` of the desired order is moved at most `k` times.** -/
theorem moves_le (h : rule.Passes strategy parses desired start declared passes source collection)
    (hstart : rule.Desires strategy start declared desired) {place : Nat} {name : Name}
    (hname : desired[place]? = some name) : moves (appliedFixes passes) name ≤ place := by
  induction place generalizing name with
  | zero =>
    -- The first name has no predecessor to be moved behind.
    by_contra hmoved
    obtain ⟨diagnostic, hmem, hsame⟩ := moves_pos_iff.1 (Nat.lt_of_not_ge hmoved)
    obtain ⟨before, hneighbours⟩ := (h.applied hstart).2 diagnostic hmem
    obtain rfl := hstart.eq_of_beq hneighbours.precedes.mem_right (List.mem_of_getElem? hname) hsame
    obtain ⟨place, -, hplace⟩ := hneighbours
    have hlt := (List.getElem?_eq_some_iff.1 hname).1
    exact absurd ((List.getElem?_inj hlt hstart.nodup).1 (hname.trans hplace.symm)) (by omega)
  | succ place ih =>
    have hlt : place < desired.length :=
      Nat.lt_of_succ_lt (List.getElem?_eq_some_iff.1 hname).1
    have hbefore : desired[place]? = some desired[place] := List.getElem?_eq_getElem hlt
    exact ((h.moves_le_succ hstart ⟨place, hbefore, hname⟩).1).trans
      (Nat.succ_le_succ (ih hbefore))

/-- **There are at most `n (n - 1) / 2` passes.** -/
theorem length_le (h : rule.Passes strategy parses desired start declared passes source collection)
    (hstart : rule.Desires strategy start declared desired) :
    passes.length ≤ desired.length * (desired.length - 1) / 2 := by
  obtain ⟨happlied, hpredecessor⟩ := h.applied hstart
  refine (length_le_appliedFixes happlied).trans (length_le_of_moves (fun diagnostic hmem => ?_)
    fun place name hname => h.moves_le hstart hname)
  obtain ⟨before, hneighbours⟩ := hpredecessor diagnostic hmem
  exact hneighbours.precedes.mem_right

end Passes
end Rule

/-! ### The loop -/

namespace Processor

/-- Fixed texts of a file can be given to a parser: there is a command for the copy beside the file,
and the copy can be written. -/
structure CanParse (processor : Processor)
    (parser : List Invocation → Invocation → ParserOutcome) (path copy : Path)
    (place command : List String) (world : World) : Prop where
  hasParser : processor.hasParser = true
  parser : world.parser = parser
  scratch : scratch path = .ok copy
  command : processor.parserCommand copy = .ok command
  writable : world.Writable copy place

/-- A parser gives a source for a text of a file, however often it has been called before. -/
def Parses (parser : List Invocation → Invocation → ParserOutcome) (path copy : Path)
    (command : List String) (text : Text) (source : Source) : Prop :=
  ∀ calls, ∃ output complaint parsed,
    parser calls ⟨command, .text text⟩ = .finished output complaint 0 ∧
      Source.ofJson (some copy) text output.toList = .ok parsed ∧
        source = { parsed with path := some path }

/-- Wherever passes of fixes lead, the next pass is parsed exactly, and its text is checked. -/
def Exact (processor : Processor) (parses : Text → Source → Prop) (desired : List Name)
    (start : Source) (declared : Collection) : Prop :=
  ∀ passes source collection diagnostics,
    processor.config.rule.Passes processor.strategy parses desired start declared passes source
      collection →
    processor.config.rule.check processor.strategy source = .ok diagnostics → diagnostics ≠ [] →
      ∃ next collection' diagnostics',
        processor.config.rule.Pass processor.strategy parses desired source collection diagnostics
          next collection' ∧
        processor.config.rule.check processor.strategy next = .ok diagnostics'

/-- The calls of the parser in some passes: one in each of them, on its text. -/
def invocations (command : List String) (passes : List (Text × List Diagnostic)) :
    List Invocation :=
  passes.map fun pass => ⟨command, .text pass.1⟩

variable {processor : Processor} {parser : List Invocation → Invocation → ParserOutcome}
  {path copy : Path} {place command : List String} {desired : List Name} {start : Source}
  {declared : Collection} {world : World}

/-- One round of the loop: the fixed text is parsed and checked. -/
theorem fixPasses_pass (hparser : processor.CanParse parser path copy place command world)
    {text : Text} {diagnostics diagnostics' : List Diagnostic} {next : Source}
    (happlied : (applyFixes text diagnostics).2 ≠ [])
    (hparsed : Parses parser path copy command (applyFixes text diagnostics).1 next)
    (hnext : processor.config.rule.check processor.strategy next = .ok diagnostics')
    (left total : Nat) :
    ∃ between, processor.CanParse parser path copy place command between ∧
      between.calls = world.calls ++ [⟨command, .text (applyFixes text diagnostics).1⟩] ∧
      processor.fixPasses path (left + 1) ⟨text, diagnostics, total⟩ world =
        if diagnostics'.isEmpty then (.ok ⟨(applyFixes text diagnostics).1, [],
          total + (applyFixes text diagnostics).2.length⟩, between)
        else processor.fixPasses path left ⟨(applyFixes text diagnostics).1, diagnostics',
          total + (applyFixes text diagnostics).2.length⟩ between := by
  obtain ⟨output, complaint, parsed, hanswer, hofJson, rfl⟩ := hparsed world.calls
  rw [← hparser.parser] at hanswer
  obtain ⟨between, hparse, hwritable, hsame, hcalls⟩ :=
    parseText_run hparser.scratch hparser.writable hparser.command hanswer hofJson
  obtain ⟨log, hchecked⟩ := check_of_rule hnext between
  refine ⟨{ between with log := log }, ⟨hparser.hasParser, hsame.trans hparser.parser,
    hparser.scratch, hparser.command, hwritable.of_place (fun _ => Iff.rfl) rfl⟩, hcalls, ?_⟩
  have hsome : (applyFixes text diagnostics).2.isEmpty = false :=
    List.isEmpty_eq_false_iff.2 happlied
  rw [fixPasses]
  simp only [hsome, hparser.hasParser, Bool.false_eq_true, if_false, Bool.not_true]
  rw [Run.bind_ok hparse, Run.bind_ok hchecked]
  cases diagnostics' <;> rfl

/-- **The loop makes passes until nothing is reported or the limit is reached.** -/
theorem fixPasses_run (hparser : processor.CanParse parser path copy place command world)
    (hstart : processor.config.rule.Desires processor.strategy start declared desired)
    (hexact : processor.Exact (Parses parser path copy command) desired start declared)
    {done : List (Text × List Diagnostic)} {source : Source} {collection : Collection}
    {diagnostics : List Diagnostic}
    (hdone : processor.config.rule.Passes processor.strategy (Parses parser path copy command)
      desired start declared done source collection)
    (hcheck : processor.config.rule.check processor.strategy source = .ok diagnostics)
    (left total : Nat) :
    ∃ passes last collection' state world',
      processor.fixPasses path left ⟨source.text, diagnostics, total⟩ world =
          (.ok state, world') ∧
        world'.calls = world.calls ++ invocations command passes ∧
        processor.config.rule.Passes processor.strategy (Parses parser path copy command)
          desired start declared (done ++ passes) last collection' ∧
        processor.config.rule.check processor.strategy last = .ok state.diagnostics ∧
        state.text = last.text ∧ state.applied = total + (appliedFixes passes).length ∧
        (state.diagnostics ≠ [] → passes.length = left) := by
  induction left generalizing world done source collection diagnostics total with
  | zero =>
    exact ⟨[], source, collection, _, world, rfl, (List.append_nil _).symm,
      by rwa [List.append_nil], hcheck, rfl, rfl, fun _ => rfl⟩
  | succ left ih =>
    by_cases hnone : diagnostics = []
    · subst hnone
      refine ⟨[], source, collection, ⟨source.text, [], total⟩, world, ?_,
        (List.append_nil _).symm, by rwa [List.append_nil], hcheck, rfl, rfl,
        fun hsome => absurd rfl hsome⟩
      rw [fixPasses, applyFixes_nil]
      rfl
    obtain ⟨next, collection', diagnostics', hpass, hnext⟩ :=
      hexact done source collection diagnostics hdone hcheck hnone
    obtain ⟨between, hbetween, hcalls, hround⟩ := fixPasses_pass hparser
      (hpass.applied_ne_nil (hdone.desires hstart)) hpass.parsed hnext left total
    have htext : next.text = (applyFixes source.text diagnostics).1 := by
      obtain ⟨_, _, parsed, -, hofJson, rfl⟩ := hpass.parsed []
      exact (Source.text_of_ofJson hofJson).2
    rw [hround]
    by_cases hclean : diagnostics' = []
    · subst hclean
      exact ⟨[applyFixes source.text diagnostics], next, collection', _, between, rfl, hcalls,
        hdone.pass hpass, hnext, htext.symm, by simp [appliedFixes], fun hsome => absurd rfl hsome⟩
    · rw [if_neg (by simpa using hclean), ← htext]
      obtain ⟨passes, last, collection'', state, world', hrun, hcalls', hpasses, hlast, hstate,
        happlied, hlimit⟩ := ih hbetween (hdone.pass hpass) hnext
          (total + (applyFixes source.text diagnostics).2.length)
      refine ⟨applyFixes source.text diagnostics :: passes, last, collection'', state, world', hrun,
        ?_, by rwa [List.append_cons], hlast, hstate, ?_, fun hsome => ?_⟩
      · rw [hcalls', hcalls, List.append_assoc]
        rfl
      · rw [happlied, appliedFixes, appliedFixes, List.flatMap_cons, List.length_append]
        omega
      · rw [List.length_cons, hlimit hsome]

/-- **With an exact parser the loop converges.**  Every pass over a file with diagnostics applies a
fix, the name at place `k` of the desired order is moved at most `k` times in all passes, and
`n (n - 1) / 2` passes are enough for a file in the desired order. -/
theorem fixPasses_converges (hparser : processor.CanParse parser path copy place command world)
    (hstart : processor.config.rule.Desires processor.strategy start declared desired)
    {diagnostics : List Diagnostic}
    (hcheck : processor.config.rule.check processor.strategy start = .ok diagnostics)
    (hexact : processor.Exact (Parses parser path copy command) desired start declared)
    (limit : Nat) :
    ∃ passes last collection state world',
      (processor.fixPasses path limit ⟨start.text, diagnostics, 0⟩ world = (.ok state, world') ∧
        world'.calls = world.calls ++ invocations command passes ∧
        state.applied = (appliedFixes passes).length) ∧
      (processor.config.rule.Passes processor.strategy (Parses parser path copy command) desired
          start declared passes last collection ∧
        state.text = last.text ∧
        processor.config.rule.check processor.strategy last = .ok state.diagnostics) ∧
      (∀ pass ∈ passes, pass.2 ≠ []) ∧ (state.diagnostics ≠ [] → passes.length = limit) ∧
      (∀ place name, desired[place]? = some name → moves (appliedFixes passes) name ≤ place) ∧
      (max 1 (desired.length * (desired.length - 1) / 2) ≤ limit →
        state.diagnostics = [] ∧ collection.names = desired) := by
  obtain ⟨passes, last, collection, state, world', hrun, hcalls, hpasses, hlast, htext, happlied,
    hlimit⟩ := fixPasses_run hparser hstart hexact .start hcheck limit 0
  rw [List.nil_append] at hpasses
  rw [Nat.zero_add] at happlied
  refine ⟨passes, last, collection, state, world', ⟨hrun, hcalls, happlied⟩,
    ⟨hpasses, htext, hlast⟩, (hpasses.applied hstart).1, hlimit,
    fun place name => hpasses.moves_le hstart, fun henough => ?_⟩
  have hclean : state.diagnostics = [] := by
    by_contra hsome
    -- One more pass would be one too many.
    obtain ⟨next, collection', -, hpass, -⟩ :=
      hexact passes last collection _ hpasses hlast hsome
    have hlength := (hpasses.pass hpass).length_le hstart
    have := hlimit hsome
    rw [List.length_append, List.length_singleton] at hlength
    omega
  rw [hclean] at hlast
  exact ⟨hclean, (hpasses.desires hstart).names_of_clean hlast⟩

/-! ### Two passes over a file -/

theorem Parses.unique {text : Text} {source source' : Source}
    (h : Parses parser path copy command text source)
    (h' : Parses parser path copy command text source') : source = source' := by
  obtain ⟨_, _, parsed, hanswer, hparsed, rfl⟩ := h []
  obtain ⟨_, _, parsed', hanswer', hparsed', rfl⟩ := h' []
  obtain ⟨rfl, -, -⟩ := ParserOutcome.finished.inj (hanswer.symm.trans hanswer')
  obtain rfl := Except.ok.inj (hparsed.symm.trans hparsed')
  rfl

/-- The parser is exact if it is so at all stages of a file, and each stage leads to one. -/
theorem exact_of_stages (stage : Source → Collection → Prop) (hstart : stage start declared)
    (hnext : ∀ source collection diagnostics, stage source collection →
      processor.config.rule.check processor.strategy source = .ok diagnostics → diagnostics ≠ [] →
        ∃ next collection' diagnostics', stage next collection' ∧
          processor.config.rule.Pass processor.strategy (Parses parser path copy command) desired
            source collection diagnostics next collection' ∧
          processor.config.rule.check processor.strategy next = .ok diagnostics') :
    processor.Exact (Parses parser path copy command) desired start declared := by
  have hstage : ∀ passes source collection, processor.config.rule.Passes processor.strategy
      (Parses parser path copy command) desired start declared passes source collection →
        stage source collection := by
    intro passes source collection hpasses
    induction hpasses with
    | start => exact hstart
    | pass _ hpass ih =>
      obtain ⟨next, collection', -, hstage, hpass', -⟩ :=
        hnext _ _ _ ih hpass.checked hpass.reported
      obtain rfl := hpass.parsed.unique hpass'.parsed
      obtain ⟨rfl, -⟩ := hpass.desires.unique hpass'.desires
      exact hstage
  intro passes source collection diagnostics hpasses hcheck hsome
  obtain ⟨next, collection', diagnostics', -, hpass⟩ :=
    hnext source collection diagnostics (hstage _ _ _ hpasses) hcheck hsome
  exact ⟨next, collection', diagnostics', hpass⟩

/-- The default settings with a parser. -/
def parsing : Processor where
  config := { textual.config with
    parser := { textual.config.parser with command := .arr [.str "parse"] } }
  strategy := textual.strategy
  store := textual.store

/-- The path of the copy of the source file that is parsed. -/
def copyPath : Path := ⟨0, [".App.tsx.styled-sort.tsx"]⟩

/-- The words by which the parser is called. -/
def parseCommand : List String := ["parse", ".App.tsx.styled-sort.tsx"]

/-- What the parser prints for the text of a source. -/
theorem parses_program {source : Source} (hpath : source.path = some appPath)
    (hplain : (program source.body).isPlain = true)
    (h : ∀ calls, parser calls ⟨parseCommand, .text source.text⟩ =
      .finished (program source.body).compact "" 0) :
    Parses parser appPath copyPath parseCommand source.text source := by
  intro calls
  refine ⟨_, _, { source with path := some copyPath }, h calls, ?_, ?_⟩
  · rw [Source.ofJson, Json.parse_compact hplain]
    rfl
  · rw [← hpath]

/-- The file with the title moved behind the button: now the wrapper is not in its place. -/
def titleLastApp : Source where
  path := some appPath
  text := Rule.linesText ["const Wrapper = css`${Title}`;", "const Button = css``;",
    "const Title = css``;", "<Button><Title /><Wrapper /></Button>;"]
  body := [Rule.cssStatement "Wrapper" ⟨0, 30⟩ ["Title"], Rule.cssStatement "Button" ⟨31, 52⟩ [],
    Rule.cssStatement "Title" ⟨53, 73⟩ [], Rule.elementStatement ⟨74, 112⟩]

/-- The file in the desired order. -/
def wrapperLastApp : Source where
  path := some appPath
  text := Rule.linesText ["const Button = css``;", "const Title = css``;",
    "const Wrapper = css`${Title}`;", "<Button><Title /><Wrapper /></Button>;"]
  body := [Rule.cssStatement "Button" ⟨0, 21⟩ [], Rule.cssStatement "Title" ⟨22, 42⟩ [],
    Rule.cssStatement "Wrapper" ⟨43, 73⟩ ["Title"], Rule.elementStatement ⟨74, 112⟩]

section
set_option maxRecDepth 2000

theorem desires_titleLast : parsing.config.rule.Desires parsing.strategy titleLastApp
    [Rule.cssDeclaration "Wrapper" 0 ⟨0, 30⟩ ["Title"], Rule.cssDeclaration "Button" 1 ⟨31, 52⟩ [],
      Rule.cssDeclaration "Title" 2 ⟨53, 73⟩ []] (["Button", "Title", "Wrapper"].map .text) := by
  have hsettled : Order.reconcileRanked (["Wrapper", "Button", "Title"].map .text)
      [(.text "Wrapper", ⟨.int 91⟩), (.text "Button", ⟨.int 74⟩), (.text "Title", ⟨.int 82⟩)]
      (Prerequisites.rename .text [("Wrapper", ["Title"]), ("Button", []), ("Title", [])])
      (.int 1000) = .ok ⟨["Button", "Title", "Wrapper"].map .text, 1⟩ :=
    Order.reconcileRanked_eq_ok_iff.2 ⟨by cbv, ["Button", "Title", "Wrapper"], 1000,
      ⟨["Button", "Title", "Wrapper"], 1⟩,
      Order.initialRanked_of_perm (by decide) (by decide) (by decide) (by decide), rfl, by decide,
      rfl⟩
  exact ⟨⟨[⟨0, 30⟩, ⟨31, 52⟩, ⟨53, 73⟩, ⟨74, 112⟩], rfl, by decide, by decide⟩,
    _, [(.text "Wrapper", some 91), (.text "Button", some 74), (.text "Title", some 82)], 1,
    ⟨⟨Styled.defaultMarkers.map Json.str, rfl, rfl⟩, by decide, rfl, rfl⟩, hsettled⟩

theorem desires_wrapperLast : parsing.config.rule.Desires parsing.strategy wrapperLastApp
    [Rule.cssDeclaration "Button" 0 ⟨0, 21⟩ [], Rule.cssDeclaration "Title" 1 ⟨22, 42⟩ [],
      Rule.cssDeclaration "Wrapper" 2 ⟨43, 73⟩ ["Title"]]
    (["Button", "Title", "Wrapper"].map .text) := by
  have hsettled : Order.reconcileRanked (["Button", "Title", "Wrapper"].map .text)
      [(.text "Button", ⟨.int 74⟩), (.text "Title", ⟨.int 82⟩), (.text "Wrapper", ⟨.int 91⟩)]
      (Prerequisites.rename .text [("Button", []), ("Title", []), ("Wrapper", ["Title"])])
      (.int 1000) = .ok ⟨["Button", "Title", "Wrapper"].map .text, 1⟩ :=
    Order.reconcileRanked_eq_ok_iff.2 ⟨by cbv, ["Button", "Title", "Wrapper"], 1000,
      ⟨["Button", "Title", "Wrapper"], 1⟩,
      Order.initialRanked_of_perm (by decide) (by decide) (by decide) (by decide), rfl, by decide,
      rfl⟩
  exact ⟨⟨[⟨0, 21⟩, ⟨22, 42⟩, ⟨43, 73⟩, ⟨74, 112⟩], rfl, by decide, by decide⟩,
    _, [(.text "Button", some 74), (.text "Title", some 82), (.text "Wrapper", some 91)], 1,
    ⟨⟨Styled.defaultMarkers.map Json.str, rfl, rfl⟩, by decide, rfl, rfl⟩, hsettled⟩

/-- The report that the wrapper should be behind the title. -/
def wrapperBehindTitle : Diagnostic where
  name := .text "Wrapper"
  anchor := Rule.identifierAt "Wrapper" 6
  message := "Declaration of Wrapper should be after Title"
  predecessor := some (.text "Title")
  fix := some (Edit.moveAfter titleLastApp.text ⟨0, 30⟩ ⟨53, 73⟩ ['\n'])
  position := ⟨1, 7⟩

theorem check_titleLast :
    parsing.config.rule.check parsing.strategy titleLastApp = .ok [wrapperBehindTitle] := by
  obtain ⟨_, _, _, hanalysed, hsettled⟩ := desires_titleLast.settled
  rw [hanalysed.check_of_settled hsettled]
  rfl

theorem check_wrapperLast :
    parsing.config.rule.check parsing.strategy wrapperLastApp = .ok [] := by
  obtain ⟨_, _, _, hanalysed, hsettled⟩ := desires_wrapperLast.settled
  exact hanalysed.check_eq_ok_nil_iff.2 ⟨_, hsettled, rfl⟩

/-- A parser that knows the two texts that the passes lead to. -/
def twoTextParser : List Invocation → Invocation → ParserOutcome := fun _ call =>
  if call.content = .text titleLastApp.text then
    .finished (program titleLastApp.body).compact "" 0
  else if call.content = .text wrapperLastApp.text then
    .finished (program wrapperLastApp.body).compact "" 0
  else .finished "" "unknown text" 1

theorem parses_titleLast :
    Parses twoTextParser appPath copyPath parseCommand titleLastApp.text titleLastApp :=
  parses_program rfl rfl fun _ => if_pos rfl

theorem parses_wrapperLast :
    Parses twoTextParser appPath copyPath parseCommand wrapperLastApp.text wrapperLastApp := by
  refine parses_program rfl rfl fun _ => ?_
  have hother : Content.text wrapperLastApp.text ≠ .text titleLastApp.text := by decide
  exact (if_neg hother).trans (if_pos rfl)

theorem canParse_buttonLast : parsing.CanParse twoTextParser appPath copyPath
    [".App.tsx.styled-sort.tsx"] parseCommand
    { directoryWorld buttonLastApp.text [] with parser := twoTextParser } where
  hasParser := rfl
  parser := rfl
  scratch := rfl
  command := rfl
  writable := .of_unseen rfl rfl rfl

/-- A pass with one fix, which leads to the text of a source that is parsed exactly. -/
theorem pass_singleton {source next : Source} {collection collection' : Collection}
    {diagnostic : Diagnostic} {edit : Edit}
    (hcheck : parsing.config.rule.check parsing.strategy source = .ok [diagnostic])
    (hfix : diagnostic.fix = some edit) (htext : edit.apply source.text = next.text)
    (hparsed : Parses parser path copy command next.text next)
    (hdesires : parsing.config.rule.Desires parsing.strategy next collection' desired)
    (hnames : collection'.names = (Layout.mendAll ['\n'] [diagnostic]
      (Layout.cut source.text source.text.length 0 collection)).owners.map Declaration.name) :
    parsing.config.rule.Pass parsing.strategy (Parses parser path copy command) desired source
      collection [diagnostic] next collection' := by
  have happly : applyFixes source.text [diagnostic] = (next.text, [diagnostic]) := by
    rw [applyFixes_singleton hfix, htext]
  refine ⟨hcheck, List.cons_ne_nil _ _, ?_, hdesires, fun separator hseparator => ?_⟩
  · rwa [happly]
  · obtain rfl : ['\n'] = separator := Except.ok.inj hseparator
    rwa [Source.mended, happly]

/-- Both texts are parsed exactly. -/
theorem exact_buttonLast : parsing.Exact (Parses twoTextParser appPath copyPath parseCommand)
    (["Button", "Title", "Wrapper"].map .text) buttonLastApp
    [Rule.cssDeclaration "Title" 0 ⟨0, 20⟩ [], Rule.cssDeclaration "Wrapper" 1 ⟨21, 51⟩ ["Title"],
      Rule.cssDeclaration "Button" 2 ⟨52, 73⟩ []] := by
  refine exact_of_stages (fun source collection =>
    source = buttonLastApp ∧ parsing.config.rule.Desires parsing.strategy buttonLastApp collection
        (["Button", "Title", "Wrapper"].map .text) ∨
      source = titleLastApp ∧ parsing.config.rule.Desires parsing.strategy titleLastApp collection
        (["Button", "Title", "Wrapper"].map .text) ∨ source = wrapperLastApp)
    (Or.inl ⟨rfl, desires_buttonLast⟩) fun source collection diagnostics hstage hcheck hsome => ?_
  rcases hstage with ⟨rfl, hdesires⟩ | ⟨rfl, hdesires⟩ | rfl
  · obtain ⟨rfl, -⟩ := hdesires.unique desires_buttonLast
    obtain rfl := Except.ok.inj (check_buttonLastApp.symm.trans hcheck)
    exact ⟨titleLastApp, _, _, Or.inr (Or.inl ⟨rfl, desires_titleLast⟩),
      pass_singleton hcheck rfl rfl parses_titleLast desires_titleLast rfl, check_titleLast⟩
  · obtain ⟨rfl, -⟩ := hdesires.unique desires_titleLast
    obtain rfl := Except.ok.inj (check_titleLast.symm.trans hcheck)
    exact ⟨wrapperLastApp, _, _, Or.inr (Or.inr rfl),
      pass_singleton hcheck rfl rfl parses_wrapperLast desires_wrapperLast rfl, check_wrapperLast⟩
  · exact absurd (Except.ok.inj (hcheck.symm.trans check_wrapperLast)) hsome

/-- The file that one pass leaves with its title behind the wrapper is in order in the end. -/
theorem fixPasses_converges_buttonLast :
    ∃ diagnostics passes last collection state world',
      parsing.CanParse twoTextParser appPath copyPath [".App.tsx.styled-sort.tsx"] parseCommand
        { directoryWorld buttonLastApp.text [] with parser := twoTextParser } ∧
      parsing.config.rule.check parsing.strategy buttonLastApp = .ok diagnostics ∧
      parsing.fixPasses appPath 3 ⟨buttonLastApp.text, diagnostics, 0⟩
        { directoryWorld buttonLastApp.text [] with parser := twoTextParser } =
          (.ok state, world') ∧
      parsing.config.rule.Passes parsing.strategy
        (Parses twoTextParser appPath copyPath parseCommand)
        (["Button", "Title", "Wrapper"].map .text) buttonLastApp
        [Rule.cssDeclaration "Title" 0 ⟨0, 20⟩ [],
          Rule.cssDeclaration "Wrapper" 1 ⟨21, 51⟩ ["Title"],
          Rule.cssDeclaration "Button" 2 ⟨52, 73⟩ []] passes last collection ∧
      passes.length ≤ 3 ∧ moves (appliedFixes passes) (.text "Title") ≤ 1 ∧
      state.diagnostics = [] ∧ collection.names = ["Button", "Title", "Wrapper"].map .text := by
  obtain ⟨passes, last, collection, state, world', ⟨hrun, -, -⟩, ⟨hpasses, -, -⟩, -, -, hmoves,
    hdone⟩ := fixPasses_converges canParse_buttonLast desires_buttonLast check_buttonLastApp
      exact_buttonLast 3
  obtain ⟨hclean, hnames⟩ := hdone (by decide)
  exact ⟨_, passes, last, collection, state, world', canParse_buttonLast, check_buttonLastApp, hrun,
    hpasses, hpasses.length_le desires_buttonLast, hmoves 1 (.text "Title") rfl, hclean, hnames⟩

end

end Processor
end UsageOrder
