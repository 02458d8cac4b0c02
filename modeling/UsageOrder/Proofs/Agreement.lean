import UsageOrder.Proofs.Prepared
import UsageOrder.Proofs.Splices
import UsageOrder.Proofs.Untouched

/-!
# A check after a fix

The diagnostics that a run of fixes reports are those that a check of the file would report then,
whichever way the passes have ended.  The passes keep one invariant (`Processor.Describes`): the
diagnostics that are kept are those of the text that is kept, as the parser reads it.  After the last
pass the text is written, and it is read back as it is, because it has no carriage return; the dump
beside the file is gone, so the next check has to ask the parser.

The parser is any that goes by the content of the file it is given (`Processor.Steady`).
-/

namespace UsageOrder

/-! ### The characters of a fixed text -/

namespace Text

variable {text : Text} {c : Char}

theorem mem_of_mem_slice {start stop : Int} (h : c ∈ text.slice start stop) : c ∈ text :=
  List.mem_of_mem_take (List.mem_of_mem_drop h)

theorem mem_of_mem_strip (h : c ∈ text.strip) : c ∈ text := by
  obtain ⟨left, right, heq, -⟩ := exists_eq_strip text
  rw [heq]
  exact List.mem_append_left _ (List.mem_append_right _ h)

theorem not_mem_unifyLineEnds (text : Text) : '\r' ∉ text.unifyLineEnds := by
  fun_induction unifyLineEnds text with
  | case1 rest ih => exact List.not_mem_cons_of_ne_of_not_mem (by decide) ih
  | case2 c rest _ ih =>
    refine List.not_mem_cons_of_ne_of_not_mem ?_ ih
    split_ifs with hreturn
    · decide
    · exact Ne.symm hreturn
  | case3 => exact List.not_mem_nil

end Text

theorem Edit.mem_of_mem_moveAfter {text separator : Text} {moved reference : Range} {c : Char}
    (h : c ∈ (moveAfter text moved reference separator).text) : c ∈ text ∨ c ∈ separator := by
  rw [moveAfter_text] at h
  simp only [List.mem_append] at h
  rcases h with (((h | h) | h) | h) | h
  · exact Or.inl (Text.mem_of_mem_slice (Text.mem_of_mem_strip h))
  · split_ifs at h
    · exact absurd h List.not_mem_nil
    · exact Or.inr h
  · exact Or.inl (Text.mem_of_mem_slice h)
  · exact Or.inr h
  · exact Or.inl (Text.mem_of_mem_slice h)

theorem Fixable.mem_of_mem_applyAll {text : Text} {fixes : List Fixable} {c : Char}
    (h : c ∈ applyAll text fixes) : c ∈ text ∨ ∃ fixable ∈ fixes, c ∈ fixable.edit.text := by
  induction fixes with
  | nil => exact Or.inl h
  | cons fixable fixes ih =>
    have happly : applyAll text (fixable :: fixes) = fixable.edit.apply (applyAll text fixes) := rfl
    rw [happly, Edit.apply, List.mem_append, List.mem_append] at h
    have hrest : c ∈ applyAll text fixes →
        c ∈ text ∨ ∃ other ∈ fixable :: fixes, c ∈ other.edit.text := by
      intro hc
      rcases ih hc with hc | ⟨other, hother, hc⟩
      · exact Or.inl hc
      · exact Or.inr ⟨other, List.mem_cons_of_mem _ hother, hc⟩
    rcases h with (h | h) | h
    · exact hrest (List.mem_of_mem_take h)
    · exact Or.inr ⟨fixable, List.mem_cons_self .., h⟩
    · exact hrest (List.mem_of_mem_drop h)

/-- **A fixed text is made of the characters of the text and of the separator.** -/
theorem Rule.mem_of_mem_applyFixes {rule : Rule} {strategy : UsageStrategy} {source : Source}
    {diagnostics : List Diagnostic} {separator : Text} {c : Char}
    (hseparator : separatorText rule.separator = .ok separator)
    (hcheck : rule.check strategy source = .ok diagnostics)
    (h : c ∈ (applyFixes source.text diagnostics).1) : c ∈ source.text ∨ c ∈ separator := by
  rcases Fixable.mem_of_mem_applyAll h with h | ⟨fixable, hfixable, h⟩
  · exact Or.inl h
  have hsorted := (Fixable.accepted_sublist diagnostics).subset hfixable
  obtain ⟨collection, -, hanalysed⟩ := analysed_of_check hcheck
  rcases hanalysed with rfl | ⟨prerequisites, uses, hanalysed⟩
  · exact absurd (Fixable.mem_sorted_iff.1 hsorted).1 List.not_mem_nil
  · obtain ⟨-, -, moved, -, reference, -, hmoves, -⟩ :=
      hanalysed.moves_of_fix hseparator hcheck hsorted
    rw [hmoves.edit] at h
    exact Edit.mem_of_mem_moveAfter h

/-- An accepted separator has no carriage return. -/
theorem Config.separator_of_validate {config : Config} (h : config.validate = .ok []) :
    ∃ separator, Rule.separatorText config.rule.separator = .ok separator ∧ '\r' ∉ separator := by
  obtain ⟨_, -, h⟩ := bind_eq_ok_iff.1 h
  obtain ⟨_, -, h⟩ := bind_eq_ok_iff.1 h
  obtain ⟨_, -, h⟩ := bind_eq_ok_iff.1 h
  obtain ⟨_, -, h⟩ := bind_eq_ok_iff.1 h
  have hnone := Except.ok.inj h
  simp only [List.append_eq_nil_iff] at hnone
  obtain ⟨⟨⟨⟨⟨-, hseparator⟩, -⟩, -⟩, -⟩, -⟩ := hnone
  have hsame := eq_false_of_complain hseparator
  rw [Bool.not_eq_false', Bool.or_eq_true] at hsame
  have htext : ∀ s, config.rule.separator.same (.str s) = true →
      Rule.separatorText config.rule.separator = .ok s.toList := by
    intro s hs
    obtain ⟨t, ht⟩ := exists_str_of_same hs
    rw [ht] at hs ⊢
    exact congrArg (fun text : String => Except.ok text.toList) (eq_of_beq hs)
  rcases hsame with hsame | hsame
  · exact ⟨_, htext _ hsame, by decide⟩
  · exact ⟨_, htext _ hsame, by decide⟩

/-! ### A parser that goes by the content -/

/-- What is used of a call of the parser: its output and its exit status, if it has printed a text. -/
def ParserOutcome.answer : ParserOutcome → Option (String × Int)
  | .finished output _ code => some (output, code)
  | .notStarted _ | .refused | .garbled => none

theorem ParserOutcome.answer_eq_some_iff {outcome : ParserOutcome} {output : String} {code : Int} :
    outcome.answer = some (output, code) ↔ ∃ complaint, outcome = .finished output complaint code := by
  cases outcome <;> simp [answer]

/-- What the parser is given of the file at a path. -/
def World.contentAt (world : World) (path : Path) : Content :=
  match world.at? path with
  | some (.file content _) => content
  | _ => .text []

theorem Run.callParser_eq (command : List String) (path : Path) (world : World) :
    callParser command path world =
      (.ok (world.parser world.calls ⟨command, world.contentAt path⟩),
        { world with calls := world.calls ++ [⟨command, world.contentAt path⟩] }) := by
  rw [callParser, get_bind]
  rfl

namespace Processor

/-- The parser goes by the content of the file it is given: neither the name of the file nor earlier
calls make a difference to its output and its exit status. -/
def Steady (processor : Processor) (parser : List Invocation → Invocation → ParserOutcome) : Prop :=
  ∀ calls calls' path path' command command' content,
    processor.parserCommand path = .ok command → processor.parserCommand path' = .ok command' →
      (parser calls ⟨command, content⟩).answer = (parser calls' ⟨command', content⟩).answer

/-- The parser reads a content as the tree of a text. -/
def Reads (processor : Processor) (parser : List Invocation → Invocation → ParserOutcome)
    (content : Content) (text : Text) (body : List Json) : Prop :=
  ∀ path calls, ∃ command output complaint, processor.parserCommand path = .ok command ∧
    parser calls ⟨command, content⟩ = .finished output complaint 0 ∧
      Source.ofJson (some path) text output.toList = .ok ⟨some path, text, body⟩

variable {processor : Processor} {path : Path} {text : Text} {body : List Json} {source : Source}
  {parser : List Invocation → Invocation → ParserOutcome} {world world' : World}

theorem parserCommand_of_ok {other : Path} {command : List String}
    (h : processor.parserCommand other = .ok command) (path : Path) :
    ∃ command', processor.parserCommand path = .ok command' := by
  obtain ⟨words, hwords, h⟩ := bind_eq_ok_iff.1 h
  obtain ⟨texts, htexts, -⟩ := bind_eq_ok_iff.1 h
  exact ⟨_, bind_eq_ok_iff.2 ⟨words, hwords, bind_eq_ok_iff.2 ⟨texts, htexts, rfl⟩⟩⟩

/-- The statements of a tree do not depend on the path of the file. -/
theorem ofJson_of_ok {other : Option Path} {json : Text}
    (h : Source.ofJson other text json = .ok source) (path : Option Path) :
    Source.ofJson path text json = .ok ⟨path, text, source.body⟩ := by
  rw [Source.ofJson] at h ⊢
  split at h
  · obtain ⟨statements, hstatements, h⟩ := bind_eq_ok_iff.1 h
    obtain rfl := Except.ok.inj h
    exact bind_eq_ok_iff.2 ⟨statements, hstatements, rfl⟩
  · split_ifs at h

/-- What a steady parser has made of a content it makes of it again. -/
theorem reads_of_parseFile (hsteady : processor.Steady parser) (hparser : world.parser = parser)
    (h : processor.parseFile path text world = (.ok source, world')) :
    processor.Reads parser (world.contentAt path) text source.body ∧
      source = ⟨some path, text, source.body⟩ := by
  subst hparser
  obtain ⟨command, between, hwords, h⟩ := Run.bind_iff.1 h
  obtain ⟨hcommand, rfl⟩ := Run.ofExcept_iff.1 hwords
  obtain ⟨outcome, between, hcalled, h⟩ := Run.bind_iff.1 h
  rw [Run.callParser_eq] at hcalled
  obtain ⟨hcall, rfl⟩ := Prod.mk.inj hcalled
  cases outcome with
  | notStarted | refused | garbled => exact absurd h Run.throw_ne_ok
  | finished output complaint code =>
    dsimp only at h
    split_ifs at h with hcode
    · exact absurd h Run.throw_ne_ok
    obtain ⟨hsource, -⟩ := Run.ofExcept_iff.1 h
    obtain rfl : code = 0 := by simpa using hcode
    refine ⟨fun other calls => ?_, ?_⟩
    · obtain ⟨command', hcommand'⟩ := parserCommand_of_ok hcommand other
      have hanswer := hsteady world.calls calls path other command command' (world.contentAt path)
        hcommand hcommand'
      rw [Except.ok.inj hcall] at hanswer
      obtain ⟨complaint', houtcome⟩ := ParserOutcome.answer_eq_some_iff.1 hanswer.symm
      exact ⟨command', output, complaint', hcommand', houtcome, ofJson_of_ok hsource _⟩
    · exact Except.ok.inj (hsource.symm.trans (ofJson_of_ok hsource _))

theorem parseFile_of_reads
    (h : processor.Reads world.parser (world.contentAt path) text body) :
    ∃ calls, processor.parseFile path text world =
      (.ok ⟨some path, text, body⟩, { world with calls := calls }) := by
  obtain ⟨command, output, complaint, hcommand, hanswer, hsource⟩ := h path world.calls
  refine ⟨world.calls ++ [⟨command, world.contentAt path⟩], ?_⟩
  rw [parseFile, Run.bind_ok (Run.ofExcept_iff.2 ⟨hcommand, rfl⟩),
    Run.bind_ok (Run.callParser_eq command path world), hanswer]
  exact Run.ofExcept_iff.2 ⟨hsource, rfl⟩

/-- **A fixed text is read through the copy as it would be read in the file.** -/
theorem reads_of_parseText (hsteady : processor.Steady parser) (hparser : world.parser = parser)
    (h : processor.parseText path text world = (.ok source, world')) :
    processor.Reads parser (.text text) text source.body ∧
      source = ⟨some path, text, source.body⟩ ∧ world'.parser = parser := by
  obtain ⟨copy, between, heq, hrest⟩ := Run.bind_iff.1 h
  obtain ⟨hcopy, rfl⟩ := Run.ofExcept_iff.1 heq
  obtain ⟨_, written, hwritten, -⟩ := Run.bind_iff.1 hrest
  obtain ⟨place, hplace, rfl⟩ := World.writeFile_eq_ok_iff.1 (Run.writeText_iff.1 hwritten)
  obtain ⟨calls, hparse⟩ := parseText_apply processor hcopy hplace text
  obtain ⟨houtcome, rfl⟩ := Prod.mk.inj (h.symm.trans hparse)
  have hparts : copy.parts ≠ [] := by
    rw [(Path.eq_of_withName hcopy).2]
    simp
  have hfile := hplace.hasFile_put hparts (rfl : (Entry.file (.text text) none).leaf? = _)
  rcases hparsed : processor.parseFile copy text
      { world with files := world.files.put place (.file (.text text) none) } with
    ⟨fault | parsed, called⟩
  · rw [hparsed] at houtcome
    exact absurd houtcome (by simp [Except.map])
  rw [hparsed] at houtcome
  obtain rfl := Except.ok.inj houtcome
  obtain ⟨hreads, hsource⟩ := reads_of_parseFile hsteady (by exact hparser) hparsed
  rw [World.contentAt, hfile.at?_eq] at hreads
  refine ⟨hreads, ?_, hparser⟩
  rw [hsource]

/-! ### The passes -/

/-- **The diagnostics that are kept are those of the text that is kept.**  Once a fix was applied,
this is the text as the parser reads it. -/
structure Describes (processor : Processor) (path : Path)
    (parser : List Invocation → Invocation → ParserOutcome) (state : FixState) : Prop where
  noReturn : '\r' ∉ state.text
  checked : ∃ body, processor.config.rule.check processor.strategy ⟨some path, state.text, body⟩ =
    .ok state.diagnostics ∧
      (state.applied ≠ 0 → processor.Reads parser (.text state.text) state.text body)

theorem applyFixes_of_none {diagnostics : List Diagnostic}
    (h : (applyFixes text diagnostics).2.isEmpty = true) : (applyFixes text diagnostics).1 = text := by
  have hnone : Fixable.accepted diagnostics = [] := by simpa [applyFixes] using h
  rw [applyFixes, hnone]
  rfl

/-- **What the passes leave is described as what they started from was**, whether nothing is left,
nothing can be applied or the passes are used up.  If no fix was applied, nothing was done. -/
theorem fixPasses_describes (haccepted : processor.config.validate = .ok [])
    (hhas : processor.hasParser = true) (hsteady : processor.Steady parser)
    (hparser : world.parser = parser) {left : Nat} {state final : FixState}
    (hstate : processor.Describes path parser state)
    (h : processor.fixPasses path left state world = (.ok final, world')) :
    processor.Describes path parser final ∧ world'.parser = parser ∧ state.applied ≤ final.applied ∧
      (final.applied = state.applied → final = state ∧ world' = world) := by
  induction left generalizing world state with
  | zero =>
    obtain ⟨rfl, rfl⟩ := Run.pure_iff.1 h
    exact ⟨hstate, hparser, Nat.le_refl _, fun _ => ⟨rfl, rfl⟩⟩
  | succ left ih =>
    obtain ⟨body, hcheck, -⟩ := hstate.checked
    rw [fixPasses] at h
    by_cases hnone : (applyFixes state.text state.diagnostics).2.isEmpty = true
    · simp only [hnone, if_true] at h
      obtain ⟨rfl, rfl⟩ := Run.pure_iff.1 h
      have hsame : (⟨(applyFixes state.text state.diagnostics).1, state.diagnostics,
          state.applied + (applyFixes state.text state.diagnostics).2.length⟩ : FixState) = state := by
        rw [applyFixes_of_none hnone, List.isEmpty_iff.1 hnone]
        rfl
      rw [hsame]
      exact ⟨hstate, hparser, Nat.le_refl _, fun _ => ⟨rfl, rfl⟩⟩
    · have hsome : (applyFixes state.text state.diagnostics).2.length ≠ 0 := by
        simpa using hnone
      simp only [hnone, hhas, Bool.not_true, Bool.false_eq_true, if_false] at h
      obtain ⟨source, parsed, hparse, h⟩ := Run.bind_iff.1 h
      obtain ⟨diagnostics, checked, hchecked, h⟩ := Run.bind_iff.1 h
      obtain ⟨hreads, hsource, hparsed⟩ := reads_of_parseText hsteady hparser hparse
      obtain ⟨separator, hseparator, hreturn⟩ := Config.separator_of_validate haccepted
      have hnext : processor.Describes path parser ⟨(applyFixes state.text state.diagnostics).1,
          diagnostics, state.applied + (applyFixes state.text state.diagnostics).2.length⟩ := by
        refine ⟨fun hmem => ?_, source.body, ?_, fun _ => hreads⟩
        · exact (Rule.mem_of_mem_applyFixes hseparator hcheck hmem).elim hstate.noReturn hreturn
        · rw [← hsource]
          exact rule_of_check hchecked
      have hchecked' : checked.parser = parser := by
        obtain ⟨findings, -, -, rfl⟩ := check_iff.1 hchecked
        exact hparsed
      split_ifs at h with hempty
      · obtain ⟨rfl, rfl⟩ := Run.pure_iff.1 h
        rw [List.isEmpty_iff.1 hempty] at hnext
        exact ⟨hnext, hchecked', Nat.le_add_right _ _, fun heq => absurd heq (by simp only; omega)⟩
      · obtain ⟨hfinal, hlast, hle, -⟩ := ih hchecked' hnext h
        simp only at hle
        exact ⟨hfinal, hlast, by omega, fun heq => by omega⟩

/-! ### The check after the fix -/

/-- The report of a check. -/
def checkReport (path : Path) (diagnostics : List Diagnostic) : Report :=
  if diagnostics.isEmpty then { path, status := .clean }
  else { path, status := .problems, diagnostics }

theorem checkReport_diagnostics (path : Path) (diagnostics : List Diagnostic) :
    (checkReport path diagnostics).diagnostics = diagnostics := by
  rw [checkReport]
  split_ifs with h
  · exact (List.isEmpty_iff.1 h).symm
  · rfl

theorem checkReport_status (path : Path) (diagnostics : List Diagnostic) :
    (checkReport path diagnostics).status = if diagnostics = [] then .clean else .problems := by
  cases diagnostics <;> rfl

/-- What was read and loaded is reported as the rule finds it. -/
theorem processFile_check (source : Source) {named : Option Path} {loaded : World}
    {diagnostics : List Diagnostic} (hread : world.readText path = .ok source.text)
    (hload : processor.loadSource path source.text named world = (.ok source, loaded))
    (hrule : processor.config.rule.check processor.strategy source = .ok diagnostics) :
    ∃ last, processor.processFile path false named world =
      (.ok (checkReport path diagnostics), last) := by
  obtain ⟨log, hcheck⟩ := check_of_rule hrule loaded
  refine ⟨{ loaded with log := log }, processFile_done ?_⟩
  rw [processStrictly, Run.bind_ok (Run.readText_iff.2 ⟨hread, rfl⟩), Run.bind_ok hload,
    Run.bind_ok hcheck, checkReport]
  cases diagnostics <;> rfl

/-- A text without carriage returns that was written is read as it is. -/
theorem readText_of_hasFile {place : List String} {changed : ChangeTime}
    (h : world.HasFile path place (.file (.text text) changed)) (hreturn : '\r' ∉ text) :
    world.readText path = .ok text :=
  World.readText_eq_ok_iff.2 ⟨place, text, changed, h, (Text.unifyLineEnds_eq_self hreturn).symm⟩

/-- **A written result is loaded by asking the parser:** the file has the text, and there is no dump
beside it. -/
theorem loadSource_written {backup : Option Path} (hhas : processor.hasParser = true)
    (hsuffix : processor.config.parser.astSuffix ≠ .str "") (hreturn : '\r' ∉ text)
    (hreads : processor.Reads world.parser (.text text) text body)
    (h : processor.writeFixed path text world = (.ok backup, world')) :
    world'.readText path = .ok text ∧ ∃ loaded,
      processor.loadSource path text none world' = (.ok ⟨some path, text, body⟩, loaded) := by
  obtain ⟨ready, place, hbackup, hplace, hdiscard⟩ := writeFixed_of_ok h
  obtain ⟨beside, hbeside, hgone, ⟨log, hlast⟩, -⟩ := discardSidecar_of_ok hdiscard
  have hfile := discardSidecar_hasFile hdiscard hsuffix
    (hplace.hasFile_put (parts_of_sidecar hbeside).1 rfl)
  have hparser : world'.parser = world.parser := by
    obtain ⟨files, session, log', rfl⟩ := backUp_eq_files hbackup
    rw [hlast]
  have hcontent : world'.contentAt path = .text text := by rw [World.contentAt, hfile.at?_eq]
  rw [← hparser, ← hcontent] at hreads
  obtain ⟨calls, hparse⟩ := parseFile_of_reads hreads
  have hdump : processor.dump? path none world' = (.ok none, world') := by
    rw [dump?, Run.bind_ok (Run.ofExcept_iff.2 ⟨hbeside, rfl⟩),
      Run.bind_ok (Run.pathExists_iff.2 ⟨hgone, rfl⟩)]
    rfl
  refine ⟨readText_of_hasFile hfile hreturn, { world' with calls := calls }, ?_⟩
  rw [loadSource, Run.bind_ok hdump]
  simpa only [hhas, if_true] using hparse

/-- A later world in which only the calls of the parser and the log may have changed. -/
def Later (world later : World) : Prop :=
  ∃ calls log, later = { world with calls := calls, log := log }

theorem quiet_later (world : World) : Quiet (Later world) := by
  rintro _ calls log ⟨_, _, rfl⟩
  exact ⟨calls, log, rfl⟩

/-- Checking a file changes no more than that. -/
theorem later_of_check {named : Option Path} {loaded checked : World}
    {diagnostics : List Diagnostic}
    (hload : processor.loadSource path text named world = (.ok source, loaded))
    (hcheck : processor.check source loaded = (.ok diagnostics, checked)) : Later world checked := by
  have hkept : Run.Keeps (Later world) (do
      let source ← processor.loadSource path text named
      processor.check source) :=
    (loadSource_keeps (quiet_later world) path text named).bind
      fun source => check_keeps (quiet_later world) source
  have hchecked := hkept world ⟨_, _, rfl⟩
  rwa [Run.bind_ok hload, hcheck] at hchecked

/-- Which dump describes a file is decided by the files alone. -/
theorem dump?_later {found : Option Path} {later : World} (hlater : Later world later)
    (h : processor.dump? path none world = (.ok found, world')) :
    world' = world ∧ processor.dump? path none later = (.ok found, later) := by
  obtain ⟨beside, between, hbeside, h⟩ := Run.bind_iff.1 h
  obtain ⟨hsidecar, rfl⟩ := Run.ofExcept_iff.1 hbeside
  obtain ⟨there, between, hthere, h⟩ := Run.bind_iff.1 h
  obtain ⟨hexists, rfl⟩ := Run.pathExists_iff.1 hthere
  have hexists' : later.pathExists beside = .ok there := by
    obtain ⟨_, _, rfl⟩ := hlater
    exact hexists
  rw [dump?, Run.bind_ok (Run.ofExcept_iff.2 ⟨hsidecar, rfl⟩),
    Run.bind_ok (Run.pathExists_iff.2 ⟨hexists', rfl⟩)]
  cases there with
  | false =>
    obtain ⟨rfl, rfl⟩ := Run.pure_iff.1 h
    exact ⟨rfl, rfl⟩
  | true =>
    obtain ⟨rfl, rfl⟩ := Run.pure_iff.1 h
    exact ⟨rfl, rfl⟩

/-- **What was loaded is loaded again later.** -/
theorem loadSource_later {loaded later : World} (hhas : processor.hasParser = true)
    (hsteady : processor.Steady world.parser) (hlater : Later world later)
    (h : processor.loadSource path text none world = (.ok source, loaded)) :
    ∃ last, processor.loadSource path text none later = (.ok source, last) := by
  obtain ⟨found, between, hfound, h⟩ := Run.bind_iff.1 h
  obtain ⟨rfl, hagain⟩ := dump?_later hlater hfound
  rw [loadSource, Run.bind_ok hagain]
  cases found with
  | some dump =>
    obtain ⟨json, between', hjson, h⟩ := Run.bind_iff.1 h
    obtain ⟨hread, rfl⟩ := Run.readText_iff.1 hjson
    obtain ⟨loaded, between', hloaded, h⟩ := Run.bind_iff.1 h
    obtain ⟨hsource, rfl⟩ := Run.ofExcept_iff.1 hloaded
    obtain ⟨_, between', hverified, h⟩ := Run.bind_iff.1 h
    obtain ⟨hverify, rfl⟩ := Run.ofExcept_iff.1 hverified
    obtain ⟨rfl, -⟩ := Run.pure_iff.1 h
    have hread' : later.readText dump = .ok json := by
      obtain ⟨_, _, rfl⟩ := hlater
      exact hread
    refine ⟨later, ?_⟩
    dsimp only
    rw [Run.bind_ok (Run.readText_iff.2 ⟨hread', rfl⟩),
      Run.bind_ok (Run.ofExcept_iff.2 ⟨hsource, rfl⟩),
      Run.bind_ok (Run.ofExcept_iff.2 ⟨hverify, rfl⟩)]
    rfl
  | none =>
    simp only [hhas, if_true] at h ⊢
    obtain ⟨hreads, hsource⟩ := reads_of_parseFile hsteady rfl h
    have hreads' : processor.Reads later.parser (later.contentAt path) text source.body := by
      obtain ⟨_, _, rfl⟩ := hlater
      exact hreads
    obtain ⟨calls, hparse⟩ := parseFile_of_reads hreads'
    rw [hsource]
    exact ⟨_, hparse⟩

/-- How a file with diagnostics is fixed: the passes leave a state, and if some fix was applied its
text is written. -/
theorem passes_of_processStrictly {report : Report} {named : Option Path}
    (hdry : processor.config.dryRun.truthy = false) (hclean : report.status ≠ .clean)
    (h : processor.processStrictly path true named world = (.ok report, world')) :
    ∃ source diagnostics limit loaded checked state left,
      world.readText path = .ok source.text ∧
      processor.loadSource path source.text named world = (.ok source, loaded) ∧
      processor.check source loaded = (.ok diagnostics, checked) ∧
      processor.fixPasses path limit ⟨source.text, diagnostics, 0⟩ checked = (.ok state, left) ∧
      report.diagnostics = state.diagnostics ∧
      (state.applied = 0 ∧ world' = left ∨ state.applied ≠ 0 ∧
        ∃ backup, processor.writeFixed path state.text left = (.ok backup, world')) := by
  obtain ⟨text, between, heq, h⟩ := Run.bind_iff.1 h
  obtain ⟨hread, rfl⟩ := Run.readText_iff.1 heq
  obtain ⟨source, loaded, hload, h⟩ := Run.bind_iff.1 h
  obtain ⟨diagnostics, checked, hcheck, h⟩ := Run.bind_iff.1 h
  by_cases hnone : diagnostics.isEmpty = true
  · rw [if_pos hnone] at h
    obtain ⟨rfl, -⟩ := Run.pure_iff.1 h
    exact absurd rfl hclean
  rw [if_neg hnone] at h
  obtain ⟨limit, between, heq, h⟩ := Run.bind_iff.1 h
  obtain ⟨-, rfl⟩ := Run.ofExcept_iff.1 heq
  obtain ⟨state, left, hpasses, h⟩ := Run.bind_iff.1 h
  rw [← (loadSource_text hload).2] at hread hload
  refine ⟨source, diagnostics, limit, loaded, _, state, left, hread, hload, hcheck, hpasses, ?_⟩
  by_cases hzero : state.applied = 0
  · rw [if_pos hzero] at h
    obtain ⟨rfl, rfl⟩ := Run.pure_iff.1 h
    exact ⟨rfl, Or.inl ⟨hzero, rfl⟩⟩
  · rw [if_neg hzero, hdry] at h
    obtain ⟨backup, written, hwritten, h⟩ := Run.bind_iff.1 h
    obtain ⟨rfl, rfl⟩ := Run.pure_iff.1 h
    exact ⟨rfl, Or.inr ⟨hzero, backup, hwritten⟩⟩

/-- **A check after a fix reports what the fix has reported**, whichever way its passes have ended:
nothing is left, nothing can be applied, or the passes are used up. -/
theorem processFile_agrees {report : Report} (haccepted : processor.config.validate = .ok [])
    (hsuffix : processor.config.parser.astSuffix ≠ .str "") (hhas : processor.hasParser = true)
    (hdry : processor.config.dryRun.truthy = false) (hsteady : processor.Steady world.parser)
    (h : processor.processFile path true none world = (.ok report, world'))
    (hstatus : report.status = .fixed ∨ report.status = .problems) :
    ∃ again last, processor.processFile path false none world' = (.ok again, last) ∧
      again.diagnostics = report.diagnostics ∧
      again.status = if report.diagnostics = [] then .clean else .problems := by
  suffices hagain : ∃ last, processor.processFile path false none world' =
      (.ok (checkReport path report.diagnostics), last) by
    obtain ⟨last, hagain⟩ := hagain
    exact ⟨_, last, hagain, checkReport_diagnostics .., checkReport_status ..⟩
  have hstrictly := processStrictly_of_status h (by rcases hstatus with h | h <;> simp [h])
  obtain ⟨source, diagnostics, limit, loaded, checked, state, left, hread, hload, hcheck, hpasses,
    hreport, hend⟩ := passes_of_processStrictly hdry
      (by rcases hstatus with h | h <;> simp [h]) hstrictly
  have hlater : Later world checked := later_of_check hload hcheck
  have hparser : checked.parser = world.parser := by
    obtain ⟨_, _, rfl⟩ := hlater
    rfl
  have hrule := rule_of_check hcheck
  have hstart : processor.Describes path world.parser ⟨source.text, diagnostics, 0⟩ := by
    refine ⟨?_, source.body, ?_, fun hsome => absurd rfl hsome⟩
    · obtain ⟨place, value, changed, -, heq⟩ := World.readText_eq_ok_iff.1 hread
      rw [heq]
      exact Text.not_mem_unifyLineEnds value
    · rwa [← (loadSource_text hload).1]
  obtain ⟨hstate, hleft, -, hsame⟩ :=
    fixPasses_describes haccepted hhas hsteady hparser hstart hpasses
  rw [hreport]
  rcases hend with ⟨hzero, rfl⟩ | ⟨hsome, backup, hwritten⟩
  · -- Nothing was applied, so the same source is loaded again.
    obtain ⟨rfl, rfl⟩ := hsame hzero
    obtain ⟨last, hagain⟩ := loadSource_later hhas hsteady hlater hload
    have hreadAgain : world'.readText path = .ok source.text := by
      obtain ⟨_, _, rfl⟩ := hlater
      exact hread
    exact processFile_check source hreadAgain hagain hrule
  · -- The parser reads what was written as it has read the copy.
    obtain ⟨body, hfinal, hreads⟩ := hstate.checked
    rw [← hleft] at hreads
    obtain ⟨hreadAgain, last, hagain⟩ :=
      loadSource_written hhas hsuffix hstate.noReturn (hreads hsome) hwritten
    exact processFile_check ⟨some path, state.text, body⟩ hreadAgain hagain hfinal

/-! ### A pass too few -/

/-- The settings of `parsing`, with one pass of fixes. -/
def onePass : Processor where
  config := { parsing.config with fix := { parsing.config.fix with maxFixPasses := .int 1 } }
  strategy := parsing.strategy
  store := parsing.store

theorem steady_twoTextParser : onePass.Steady twoTextParser :=
  fun _ _ _ _ _ _ _ _ _ => rfl

section
set_option maxRecDepth 2000

/-- One pass leaves the wrapper before the title. -/
theorem leaves_onePass : ∃ calls log, onePass.Leaves appPath none (parsedWorld twoTextParser)
    ⟨titleLastApp.text, [wrapperBehindTitle], 1⟩
    { parsedWorld twoTextParser with
      files := ((parsedWorld twoTextParser).files.put [".App.tsx.styled-sort.tsx"]
        (.file (.text titleLastApp.text) none)).remove [".App.tsx.styled-sort.tsx"]
      calls := calls
      log := log } := by
  have hsidecar : onePass.sidecar appPath = .ok ⟨0, ["App.tsx.estree.json"]⟩ := rfl
  obtain ⟨hfile, hdump⟩ := hasFiles_parsedWorld twoTextParser
  obtain ⟨hread, hload, log, hcheck⟩ := checks_beside hsidecar check_buttonLastApp hfile hdump
  let checked : World := { parsedWorld twoTextParser with log := log }
  have hplace : checked.Writable copyPath [".App.tsx.styled-sort.tsx"] :=
    .of_unseen rfl rfl rfl
  obtain ⟨calls, hcopied⟩ :=
    parseText_apply onePass (rfl : scratch appPath = .ok copyPath) hplace titleLastApp.text
  obtain ⟨output, complaint, source, hanswer, hsource, htitle⟩ := parses_titleLast checked.calls
  have hcommand : onePass.parserCommand copyPath = .ok parseCommand := rfl
  have hcalled : checked.parser checked.calls ⟨parseCommand, .text titleLastApp.text⟩ =
      .finished output complaint 0 := hanswer
  obtain ⟨parsed, hparse, -⟩ := parseText_run (rfl : scratch appPath = .ok copyPath) hplace hcommand
    hcalled hsource
  obtain ⟨-, rfl⟩ := Prod.mk.inj (hparse.symm.trans hcopied)
  rw [← htitle] at hparse
  obtain ⟨log', hleft⟩ := check_of_rule check_titleLast _
  refine ⟨calls, log', buttonLastApp, _, 1, _, checked, hread, hload, hcheck, List.cons_ne_nil _ _,
    rfl, ?_, Nat.one_ne_zero⟩
  have happly : applyFixes buttonLastApp.text [Rule.titleBehindButton Rule.buttonLast ⟨52, 73⟩] =
      (titleLastApp.text, [Rule.titleBehindButton Rule.buttonLast ⟨52, 73⟩]) := by
    rw [applyFixes_singleton rfl]
    rfl
  rw [fixPasses, happly]
  exact (Run.bind_ok hparse _).trans ((Run.bind_ok hleft _).trans rfl)

/-- The only pass has left a diagnostic, and the next check reports it again, for the text that was
written: the dump from before the fix is gone. -/
theorem processFile_agrees_onePass : ∃ report again written last,
    onePass.config.validate = .ok [] ∧ onePass.config.parser.astSuffix ≠ .str "" ∧
    onePass.hasParser = true ∧ onePass.config.dryRun.truthy = false ∧
    onePass.Steady (parsedWorld twoTextParser).parser ∧
    onePass.processFile appPath true none (parsedWorld twoTextParser) = (.ok report, written) ∧
    report.status = .fixed ∧ report.diagnostics = [wrapperBehindTitle] ∧
    onePass.processFile appPath false none written = (.ok again, last) ∧
    again.diagnostics = [wrapperBehindTitle] ∧ again.status = .problems := by
  obtain ⟨calls, log, hleaves⟩ := leaves_onePass
  obtain ⟨written, hwritten⟩ : ∃ written, onePass.writeFixed appPath titleLastApp.text
      { parsedWorld twoTextParser with
        files := ((parsedWorld twoTextParser).files.put [".App.tsx.styled-sort.tsx"]
          (.file (.text titleLastApp.text) none)).remove [".App.tsx.styled-sort.tsx"]
        calls := calls
        log := log } = (.ok none, written) := ⟨_, rfl⟩
  have hreport : onePass.processFile appPath true none (parsedWorld twoTextParser) =
      (.ok (fixReport appPath ⟨titleLastApp.text, [wrapperBehindTitle], 1⟩ none), written) :=
    hleaves.processFile_fixed rfl hwritten
  have hsuffix : onePass.config.parser.astSuffix ≠ .str "" :=
    fun hempty => absurd (Json.str.inj hempty) (by decide)
  obtain ⟨again, last, hagain, hsame, hstatus⟩ :=
    processFile_agrees rfl hsuffix rfl rfl steady_twoTextParser hreport (Or.inl rfl)
  exact ⟨_, again, written, last, rfl, hsuffix, rfl, rfl, steady_twoTextParser, hreport, rfl, rfl,
    hagain, hsame, hstatus⟩

end

end Processor
end UsageOrder
