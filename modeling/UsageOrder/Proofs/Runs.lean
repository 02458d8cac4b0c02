import UsageOrder.Project.Process
import UsageOrder.Proofs.Files

/-!
# Runs step by step

A run that succeeds is made of steps that succeed, each in the world that the one before it has left
(`Run.bind_iff`).  Steps that read leave the world as it is, and those that change a file or the log
change nothing else.  A fault ends a run; that of a file is reported or ends the batch
(`Processor.processFile_apply`).
-/

namespace UsageOrder
namespace Run

variable {α β : Type} {world world' : World}

theorem bind_apply (run : Run α) (next : α → Run β) (world : World) :
    (run >>= next) world =
      match run world with
      | (.ok value, between) => next value between
      | (.error fault, between) => (.error fault, between) := by
  simp only [bind, ExceptT.bind, ExceptT.mk, StateT.bind, ExceptT.bindCont]
  obtain ⟨outcome, between⟩ := run world
  cases outcome <;> rfl

/-- **A sequence of steps succeeds exactly when each of them does.** -/
theorem bind_iff {run : Run α} {next : α → Run β} {result : β} :
    (run >>= next) world = (.ok result, world') ↔
      ∃ value between, run world = (.ok value, between) ∧
        next value between = (.ok result, world') := by
  rw [bind_apply]
  obtain ⟨outcome, between⟩ := run world
  constructor
  · intro h
    cases outcome with
    | ok value => exact ⟨value, between, rfl, h⟩
    | error fault => exact absurd (Prod.mk.inj h).1 (by simp)
  · rintro ⟨value, between', hrun, hnext⟩
    obtain ⟨rfl, rfl⟩ := Prod.mk.inj hrun
    exact hnext

theorem bind_ok {run : Run α} {value : α} (h : run world = (.ok value, world'))
    (next : α → Run β) : (run >>= next) world = next value world' := by
  rw [bind_apply, h]

theorem get_bind (next : World → Run β) (world : World) :
    ((get : Run World) >>= next) world = next world world := by
  rw [bind_apply]
  rfl

theorem pure_iff {value result : α} :
    (pure value : Run α) world = (.ok result, world') ↔ value = result ∧ world = world' := by
  constructor
  · intro h
    obtain ⟨hvalue, hworld⟩ := Prod.mk.inj h
    exact ⟨Except.ok.inj hvalue, hworld⟩
  · rintro ⟨rfl, rfl⟩
    rfl

theorem throw_ne_ok {fault : Fault} {result : α} :
    (throw fault : Run α) world ≠ (.ok result, world') := by
  intro h
  exact absurd (Prod.mk.inj h).1 (by simp)

theorem ofExcept_iff {outcome : Except Fault α} {result : α} :
    ofExcept outcome world = (.ok result, world') ↔ outcome = .ok result ∧ world = world' := by
  cases outcome with
  | ok value => rw [ofExcept, pure_iff, Except.ok.injEq]
  | error fault => simpa [ofExcept] using throw_ne_ok

theorem read_apply {f : World → Except Fault α} (world : World) :
    read f world = ofExcept (f world) world := by
  rw [read, bind_apply]
  rfl

theorem read_iff {f : World → Except Fault α} {result : α} :
    read f world = (.ok result, world') ↔ f world = .ok result ∧ world = world' := by
  rw [read_apply, ofExcept_iff]

theorem change_apply {f : World → Except Fault World} (world : World) :
    change f world =
      match f world with
      | .ok world' => (.ok (), world')
      | .error fault => (.error fault, world) := by
  rw [change, bind_apply]
  change (match f world with
    | .ok next => set next
    | .error fault => throw fault : Run Unit) world = _
  cases f world <;> rfl

theorem change_iff {f : World → Except Fault World} {done : Unit} :
    change f world = (.ok done, world') ↔ f world = .ok world' := by
  rw [change_apply]
  cases f world with
  | ok next =>
    change (Except.ok (), next) = (Except.ok done, world') ↔ _
    simp
  | error fault => exact iff_of_false (fun h => absurd (Prod.mk.inj h).1 (by simp)) (by simp)

theorem outcome_apply (run : Run α) (world : World) :
    run.outcome world = (.ok (run world).1, (run world).2) := rfl

theorem readText_iff {path : Path} {text : Text} :
    readText path world = (.ok text, world') ↔ world.readText path = .ok text ∧ world = world' :=
  read_iff

theorem pathExists_iff {path : Path} {there : Bool} :
    pathExists path world = (.ok there, world') ↔
      world.pathExists path = .ok there ∧ world = world' :=
  read_iff

theorem writeText_iff {path : Path} {text : Text} {done : Unit} :
    writeText path text world = (.ok done, world') ↔ world.writeText path text = .ok world' :=
  change_iff

theorem removeFile_iff {path : Path} {done : Unit} :
    removeFile path world = (.ok done, world') ↔ world.removeFile path = .ok world' :=
  change_iff

theorem warn_apply (message : String) (world : World) :
    warn message world = (.ok (), world.record .warning message) := rfl

end Run

namespace Path

theorem name_concat (slashes : Nat) (parts : List String) (name : String) :
    Path.name ⟨slashes, parts ++ [name]⟩ = name := by
  rw [Path.name, List.getLast?_concat]
  rfl

/-- A path that has one beside it has a name. -/
theorem eq_of_withName {path beside : Path} {name : String} (h : path.withName name = .ok beside) :
    path.parts ≠ [] ∧ beside = { path with parts := path.parts.dropLast ++ [name] } := by
  rw [Path.withName] at h
  split_ifs at h with hname
  refine ⟨fun hnil => hname ?_, (Except.ok.inj h).symm⟩
  rw [Path.name, hnil]
  rfl

end Path

theorem Source.text_of_ofJson {path : Option Path} {text json : Text} {source : Source}
    (h : Source.ofJson path text json = .ok source) : source.path = path ∧ source.text = text := by
  rw [Source.ofJson] at h
  split at h
  · obtain ⟨body, -, h⟩ := bind_eq_ok_iff.1 h
    obtain rfl := Except.ok.inj h
    exact ⟨rfl, rfl⟩
  · split_ifs at h

namespace Processor

variable {processor : Processor} {path : Path} {text : Text} {named : Option Path}
  {source : Source} {diagnostics : List Diagnostic} {world world' : World}

/-! ### Checking -/

/-- A check gives what the rule finds, and logs its warning. -/
theorem check_iff : processor.check source world = (.ok diagnostics, world') ↔
    ∃ findings, processor.config.rule.findings processor.strategy source = .ok findings ∧
      findings.located source.text = .ok diagnostics ∧
        world' = { world with
          log := world.log ++ (findings.warning.map (LogRecord.mk .warning)).toList } := by
  rw [check, Run.bind_iff]
  simp only [Run.ofExcept_iff]
  constructor
  · rintro ⟨findings, between, ⟨hfindings, rfl⟩, hrest⟩
    refine ⟨findings, hfindings, ?_⟩
    cases hwarning : findings.warning with
    | none =>
      rw [hwarning] at hrest
      obtain ⟨hlocated, rfl⟩ := Run.ofExcept_iff.1 hrest
      exact ⟨hlocated, by simp⟩
    | some warning =>
      rw [hwarning] at hrest
      obtain ⟨_, between, hwarn, hrest⟩ := Run.bind_iff.1 hrest
      obtain ⟨hlocated, rfl⟩ := Run.ofExcept_iff.1 hrest
      exact ⟨hlocated, (Prod.mk.inj hwarn).2.symm⟩
  · rintro ⟨findings, hfindings, hlocated, rfl⟩
    refine ⟨findings, world, ⟨hfindings, rfl⟩, ?_⟩
    cases hwarning : findings.warning with
    | none => exact Run.ofExcept_iff.2 ⟨hlocated, by simp⟩
    | some warning =>
      exact Run.bind_iff.2 ⟨(), _, Run.warn_apply warning world, Run.ofExcept_iff.2 ⟨hlocated, rfl⟩⟩

theorem rule_of_check (h : processor.check source world = (.ok diagnostics, world')) :
    processor.config.rule.check processor.strategy source = .ok diagnostics := by
  obtain ⟨findings, hfindings, hlocated, -⟩ := check_iff.1 h
  exact bind_eq_ok_iff.2 ⟨findings, hfindings, hlocated⟩

/-- What the rule finds is what a check gives, and the files stay as they are. -/
theorem check_of_rule
    (h : processor.config.rule.check processor.strategy source = .ok diagnostics)
    (world : World) :
    ∃ log, processor.check source world = (.ok diagnostics, { world with log := log }) := by
  obtain ⟨findings, hfindings, hlocated⟩ := bind_eq_ok_iff.1 h
  exact ⟨_, check_iff.2 ⟨findings, hfindings, hlocated, rfl⟩⟩

/-- Without a parser a source is that of the present text, and the world stays as it is. -/
theorem loadSource_of_dump (hparser : processor.hasParser = false)
    (h : processor.loadSource path text named world = (.ok source, world')) :
    source.text = text ∧ world = world' := by
  obtain ⟨found, between, hfound, h⟩ := Run.bind_iff.1 h
  have hworld : world = between := by
    cases named with
    | some dump => exact (Run.pure_iff.1 hfound).2
    | none =>
      obtain ⟨beside, between', hbeside, hfound⟩ := Run.bind_iff.1 hfound
      obtain ⟨-, rfl⟩ := Run.ofExcept_iff.1 hbeside
      obtain ⟨there, between', hthere, hfound⟩ := Run.bind_iff.1 hfound
      obtain ⟨-, rfl⟩ := Run.pathExists_iff.1 hthere
      cases there <;> exact (Run.pure_iff.1 hfound).2
  subst hworld
  cases found with
  | some dump =>
    obtain ⟨json, between, hjson, h⟩ := Run.bind_iff.1 h
    obtain ⟨-, rfl⟩ := Run.readText_iff.1 hjson
    obtain ⟨loaded, between, hload, h⟩ := Run.bind_iff.1 h
    obtain ⟨hloaded, rfl⟩ := Run.ofExcept_iff.1 hload
    obtain ⟨_, between, hverify, h⟩ := Run.bind_iff.1 h
    obtain ⟨-, rfl⟩ := Run.ofExcept_iff.1 hverify
    obtain ⟨rfl, rfl⟩ := Run.pure_iff.1 h
    exact ⟨(Source.text_of_ofJson hloaded).2, rfl⟩
  | none =>
    rw [hparser] at h
    obtain ⟨beside, between, -, h⟩ := Run.bind_iff.1 h
    exact absurd h Run.throw_ne_ok

/-! ### Parsing -/

theorem callParser_apply (command : List String) {content : Content} {changed : ChangeTime}
    (h : world.at? path = some (.file content changed)) :
    Run.callParser command path world =
      (.ok (world.parser world.calls ⟨command, content⟩),
        { world with calls := world.calls ++ [⟨command, content⟩] }) := by
  rw [Run.callParser, Run.get_bind, h]
  rfl

/-- **A text is parsed through a copy that is gone afterwards.**  The parser is called once, on that
text, and no other file changes. -/
theorem parseText_run {copy : Path} {place command : List String} {output complaint : String}
    (hcopy : scratch path = .ok copy) (hplace : world.Writable copy place)
    (hcommand : processor.parserCommand copy = .ok command)
    (hanswer : world.parser world.calls ⟨command, .text text⟩ = .finished output complaint 0)
    (hsource : Source.ofJson (some copy) text output.toList = .ok source) :
    ∃ world', processor.parseText path text world =
        (.ok { source with path := some path }, world') ∧
      world'.Writable copy place ∧ world'.parser = world.parser ∧
        world'.calls = world.calls ++ [⟨command, .text text⟩] := by
  have hparts : copy.parts ≠ [] := by
    rw [(Path.eq_of_withName hcopy).2]
    simp
  let written : World := { world with files := world.files.put place (.file (.text text) none) }
  let called : World := { written with calls := world.calls ++ [⟨command, .text text⟩] }
  let removed : World := { called with files := called.files.remove place }
  have hwritten : written.HasFile copy place (.file (.text text) none) :=
    hplace.hasFile_put hparts rfl
  have hcalled : called.HasFile copy place (.file (.text text) none) :=
    ⟨hwritten.toWritable.of_place (fun _ => Iff.rfl) rfl, hwritten.seen⟩
  have hremoved : removed.Writable copy place :=
    hcalled.toWritable.of_place (fun _ => (hcalled.isDirectoryAt_remove_iff hparts).symm) rfl
  have hwrite : Run.writeText copy text world = (.ok (), written) :=
    Run.writeText_iff.2 (World.writeFile_eq_ok_iff.2 ⟨place, hplace, rfl⟩)
  have hparse : processor.parseFile copy text written = (.ok source, called) := by
    rw [parseFile, Run.bind_ok (Run.ofExcept_iff.2 ⟨hcommand, rfl⟩),
      Run.bind_ok (callParser_apply command hwritten.at?_eq)]
    have hanswer' : written.parser written.calls ⟨command, .text text⟩ =
        .finished output complaint 0 := hanswer
    rw [hanswer']
    exact Run.ofExcept_iff.2 ⟨hsource, rfl⟩
  have hremove : (do if ← Run.pathExists copy then Run.removeFile copy : Run Unit) called =
      (.ok (), removed) := by
    rw [Run.bind_ok (Run.pathExists_iff.2 ⟨hcalled.pathExists, rfl⟩)]
    refine Run.removeFile_iff.2 (World.removeFile_eq_ok_iff.2 ⟨place, hcalled.toWritable, ?_, rfl⟩)
    rw [hcalled.seen]
    simp
  refine ⟨removed, ?_, hremoved, rfl, rfl⟩
  rw [parseText, Run.bind_ok (Run.ofExcept_iff.2 ⟨hcopy, rfl⟩), Run.bind_ok hwrite]
  have hensuring : (processor.parseFile copy text).ensuring
      (do if ← Run.pathExists copy then Run.removeFile copy) written = (.ok source, removed) := by
    rw [Run.ensuring, Run.bind_ok (Run.outcome_apply ..), hparse, Run.bind_ok hremove]
    rfl
  exact Run.bind_ok hensuring _

/-! ### Fixing without a parser -/

/-- Without a parser there is one pass at most. -/
theorem fixPasses_of_dump {limit : Nat} {state : FixState} (hparser : processor.hasParser = false)
    (h : processor.fixPasses path limit ⟨text, diagnostics, 0⟩ world = (.ok state, world')) :
    world = world' ∧ (state.applied = 0 ∨
      state = ⟨(applyFixes text diagnostics).1,
        leftover diagnostics (applyFixes text diagnostics).2,
        (applyFixes text diagnostics).2.length⟩) := by
  cases limit with
  | zero =>
    obtain ⟨rfl, rfl⟩ := Run.pure_iff.1 h
    exact ⟨rfl, Or.inl rfl⟩
  | succ left =>
    rw [fixPasses, hparser] at h
    simp only [Nat.zero_add, Bool.not_false, if_true] at h
    split_ifs at h with hnone
    · obtain ⟨rfl, rfl⟩ := Run.pure_iff.1 h
      exact ⟨rfl, Or.inl (by simpa using hnone)⟩
    · obtain ⟨rfl, rfl⟩ := Run.pure_iff.1 h
      exact ⟨rfl, Or.inr rfl⟩

/-! ### Reporting faults -/

/-- **A fault of a file that is reported is logged as well;** any other one ends the run. -/
theorem processFile_apply (processor : Processor) (path : Path) (fix : Bool) (named : Option Path)
    (world : World) :
    processor.processFile path fix named world =
      match processor.processStrictly path fix named world with
      | (.ok report, last) => (.ok report, last)
      | (.error fault, last) =>
        if fault.isReported then (.ok (Report.failed path (some fault.message)),
          last.record .error ("Error processing " ++ path.toText ++ ": " ++ fault.message))
        else (.error fault, last) := by
  rw [processFile, Run.bind_ok (Run.outcome_apply ..)]
  rcases processor.processStrictly path fix named world with ⟨fault | report, last⟩
  · dsimp only
    split_ifs <;> rfl
  · rfl

/-- A report is given as it is. -/
theorem processFile_done {fix : Bool} {report : Report}
    (h : processor.processStrictly path fix named world = (.ok report, world')) :
    processor.processFile path fix named world = (.ok report, world') := by
  rw [processFile_apply, h]

theorem processFile_failed {fix : Bool} {fault : Fault}
    (h : processor.processStrictly path fix named world = (.error fault, world'))
    (hreported : fault.isReported = true) : processor.processFile path fix named world =
      (.ok (Report.failed path (some fault.message)),
        world'.record .error ("Error processing " ++ path.toText ++ ": " ++ fault.message)) := by
  rw [processFile_apply, h]
  exact if_pos hreported

theorem processFile_escaped {fix : Bool} {fault : Fault}
    (h : processor.processStrictly path fix named world = (.error fault, world'))
    (hescaped : fault.isReported = false) :
    processor.processFile path fix named world = (.error fault, world') := by
  rw [processFile_apply, h]
  simp [hescaped]

/-- Reporting a fault changes the log at most, and a report stays as it is. -/
theorem processFile_world (processor : Processor) (path : Path) (fix : Bool) (named : Option Path)
    (world : World) :
    (∃ log, (processor.processFile path fix named world).2 =
      { (processor.processStrictly path fix named world).2 with log := log }) ∧
    ∀ report, (processor.processStrictly path fix named world).1 = .ok report →
      (processor.processFile path fix named world).1 = .ok report := by
  rw [processFile_apply]
  rcases processor.processStrictly path fix named world with ⟨fault | report, last⟩
  · dsimp only
    split_ifs
    · exact ⟨⟨_, rfl⟩, fun report h => absurd h (by simp)⟩
    · exact ⟨⟨last.log, rfl⟩, fun report h => absurd h (by simp)⟩
  · exact ⟨⟨last.log, rfl⟩, fun _ h => h⟩

/-- A report that tells of no error is that of the strict run. -/
theorem processStrictly_of_status {fix : Bool} {report : Report}
    (h : processor.processFile path fix named world = (.ok report, world'))
    (hstatus : report.status ≠ .error) :
    processor.processStrictly path fix named world = (.ok report, world') := by
  rw [processFile_apply] at h
  rcases hstrictly : processor.processStrictly path fix named world with ⟨fault | found, last⟩
  · rw [hstrictly] at h
    dsimp only at h
    split_ifs at h
    · obtain rfl := Except.ok.inj (Prod.mk.inj h).1
      exact absurd rfl hstatus
    · exact absurd (Prod.mk.inj h).1 (by simp)
  · rwa [hstrictly] at h

/-! ### Writing -/

/-- A fixed text is written in the end, whatever is backed up before, and then the dump beside the
file is discarded. -/
theorem written_of_writeFixed {backup : Option Path}
    (h : processor.writeFixed path text world = (.ok backup, world')) :
    ∃ between written : World, between.writeText path text = .ok written ∧
      processor.discardSidecar path written = (.ok (), world') := by
  have hrest : ∀ {between : World} {copy : Option Path},
      (do Run.writeText path text; processor.discardSidecar path; return copy : Run (Option Path))
        between = (.ok backup, world') →
      ∃ between written : World, between.writeText path text = .ok written ∧
        processor.discardSidecar path written = (.ok (), world') := by
    intro between copy h
    obtain ⟨_, written, hwritten, h⟩ := Run.bind_iff.1 h
    obtain ⟨_, last, hdiscard, h⟩ := Run.bind_iff.1 h
    obtain ⟨-, rfl⟩ := Run.pure_iff.1 h
    exact ⟨between, written, Run.writeText_iff.1 hwritten, hdiscard⟩
  rw [writeFixed] at h
  cases hstore : processor.store with
  | none =>
    rw [hstore] at h
    exact hrest h
  | some store =>
    rw [hstore] at h
    obtain ⟨copy, between, -, h⟩ := Run.bind_iff.1 h
    exact hrest h

/-- **A fixed file has been read, loaded and checked, and its fixes written.** -/
theorem fixed_of_dump {report : Report}
    (hparser : processor.hasParser = false)
    (h : processor.processFile path true named world = (.ok report, world'))
    (hstatus : report.status = .fixed) :
    ∃ source diagnostics, world.readText path = .ok source.text ∧
      processor.loadSource path source.text named world = (.ok source, world) ∧
      processor.config.rule.check processor.strategy source = .ok diagnostics ∧
      report.diagnostics = leftover diagnostics (applyFixes source.text diagnostics).2 ∧
      (applyFixes source.text diagnostics).2 ≠ [] ∧
      (processor.config.dryRun.truthy = false → ∃ between written : World,
        between.writeText path (applyFixes source.text diagnostics).1 = .ok written ∧
          processor.discardSidecar path written = (.ok (), world')) := by
  obtain ⟨text, between, hread, h⟩ := Run.bind_iff.1 (processStrictly_of_status h (by simp [hstatus]))
  obtain ⟨htext, rfl⟩ := Run.readText_iff.1 hread
  obtain ⟨source, between, hsource, h⟩ := Run.bind_iff.1 h
  obtain ⟨rfl, rfl⟩ := loadSource_of_dump hparser hsource
  obtain ⟨diagnostics, checked, hcheck, h⟩ := Run.bind_iff.1 h
  have hrule := rule_of_check hcheck
  simp only [Bool.not_true, Bool.false_eq_true, if_false] at h
  split_ifs at h
  · obtain ⟨rfl, -⟩ := Run.pure_iff.1 h
    exact absurd hstatus (by simp)
  obtain ⟨limit, between, hlimit, h⟩ := Run.bind_iff.1 h
  obtain ⟨-, rfl⟩ := Run.ofExcept_iff.1 hlimit
  obtain ⟨state, between, hpasses, h⟩ := Run.bind_iff.1 h
  obtain ⟨rfl, hstate⟩ := fixPasses_of_dump hparser hpasses
  split_ifs at h with hnone hdry
  · obtain ⟨rfl, -⟩ := Run.pure_iff.1 h
    exact absurd hstatus (by simp)
  · obtain rfl := hstate.resolve_left hnone
    obtain ⟨backup, last, -, h⟩ := Run.bind_iff.1 h
    obtain ⟨rfl, -⟩ := Run.pure_iff.1 h
    exact ⟨source, diagnostics, htext, hsource, hrule, rfl, fun hnil => hnone (by rw [hnil]; rfl),
      fun hdry' => absurd hdry (by simp [hdry'])⟩
  · obtain rfl := hstate.resolve_left hnone
    obtain ⟨backup, last, hbackup, h⟩ := Run.bind_iff.1 h
    obtain ⟨rfl, rfl⟩ := Run.pure_iff.1 h
    exact ⟨source, diagnostics, htext, hsource, hrule, rfl, fun hnil => hnone (by rw [hnil]; rfl),
      fun _ => written_of_writeFixed hbackup⟩

/-- **The fixed text is in the file,** also once the dump beside it is discarded. -/
theorem at?_of_written {between written : World}
    (hwrite : between.writeText path text = .ok written)
    (hdiscard : processor.discardSidecar path written = (.ok (), world'))
    (hsuffix : processor.config.parser.astSuffix ≠ .str "") :
    world'.at? path = some (.file (.text text) none) := by
  obtain ⟨place, hplace, hwritten⟩ := World.writeFile_eq_ok_iff.1 hwrite
  obtain ⟨beside, last, hbeside, h⟩ := Run.bind_iff.1 hdiscard
  obtain ⟨hsidecar, rfl⟩ := Run.ofExcept_iff.1 hbeside
  rw [sidecar] at hsidecar
  split at hsidecar
  case h_2 => exact absurd hsidecar (by simp)
  rename_i suffix heq
  have hne : suffix ≠ "" := fun hempty => hsuffix (hempty ▸ heq)
  obtain ⟨hparts, rfl⟩ := Path.eq_of_withName hsidecar
  have hfile : written.HasFile path place (.file (.text text) none) := by
    rw [hwritten]
    exact hplace.hasFile_put hparts rfl
  obtain ⟨there, last, hthere, h⟩ := Run.bind_iff.1 h
  obtain ⟨-, rfl⟩ := Run.pathExists_iff.1 hthere
  cases there with
  | false =>
    obtain ⟨-, rfl⟩ := Run.pure_iff.1 h
    exact hfile.at?_eq
  | true =>
    obtain ⟨_, last, hremove, h⟩ := Run.bind_iff.1 h
    obtain ⟨place', hplace', -, rfl⟩ := World.removeFile_eq_ok_iff.1 (Run.removeFile_iff.1 hremove)
    obtain rfl := (Prod.mk.inj h).2
    have hname : path.name ≠
        Path.name ⟨path.slashes, path.parts.dropLast ++ [path.name ++ suffix]⟩ := by
      rw [Path.name_concat]
      intro heq
      have hlength := congrArg String.length heq
      rw [String.length_append] at hlength
      exact hne (String.length_eq_zero_iff.1 (by omega))
    exact (hfile.remove_other hplace' hparts (by simp) hname).at?_eq

end Processor
end UsageOrder
