import UsageOrder.Proofs.Frames

/-!
# What processing keeps until a result is written

A run *keeps* an invariant when it leads from worlds of the invariant to worlds of the invariant,
whether it ends in a value or in a fault (`Run.Keeps`).  Until a fixed text is written, processing a
file changes the log and the calls of the parser, and it writes a copy of the file that it removes
again.  Every invariant that tolerates this (`Processor.Tolerates`) is therefore kept up to the point
where the result is written (`processStrictly_ends`); the files as they are seen are one of them
(`World.Alike`).
-/

namespace UsageOrder

/-! ### Runs that keep an invariant -/

namespace Run

variable {α β : Type} {inv : World → Prop} {run : Run α} {world world' : World}

/-- A fault ends a sequence. -/
theorem bind_error {fault : Fault} (h : run world = (.error fault, world')) (next : α → Run β) :
    (run >>= next) world = (.error fault, world') := by
  rw [bind_apply, h]

/-- A run leads from worlds of an invariant to worlds of the invariant, whatever its outcome. -/
def Keeps (inv : World → Prop) (run : Run α) : Prop := ∀ world, inv world → inv (run world).2

theorem keeps_pure (value : α) : Keeps inv (pure value : Run α) := fun _ h => h

theorem keeps_throw (fault : Fault) : Keeps inv (throw fault : Run α) := fun _ h => h

/-- **A sequence of runs that keep an invariant keeps it.** -/
theorem Keeps.bind {next : α → Run β} (h : Keeps inv run) (hnext : ∀ value, Keeps inv (next value)) :
    Keeps inv (run >>= next) := by
  intro world hworld
  have hrun := h world hworld
  rw [bind_apply]
  rcases heq : run world with ⟨fault | value, between⟩
  · rwa [heq] at hrun
  · rw [heq] at hrun
    exact hnext value between hrun

/-- What holds of every fault within the invariant, and of what comes after a value, holds of a
sequence whose first run keeps the invariant. -/
theorem Keeps.bind_cases {next : α → Run β} {P : Except Fault β × World → Prop}
    (h : Keeps inv run) (hworld : inv world)
    (hfault : ∀ fault last, inv last → P (.error fault, last))
    (hnext : ∀ value between, run world = (.ok value, between) → inv between →
      P (next value between)) : P ((run >>= next) world) := by
  have hrun := h world hworld
  rw [bind_apply]
  rcases heq : run world with ⟨fault | value, between⟩
  · rw [heq] at hrun
    exact hfault fault between hrun
  · rw [heq] at hrun
    exact hnext value between heq hrun

theorem keeps_ofExcept (outcome : Except Fault α) : Keeps inv (ofExcept outcome) := by
  cases outcome with
  | ok value => exact keeps_pure value
  | error fault => exact keeps_throw fault

theorem keeps_read (f : World → Except Fault α) : Keeps inv (read f) := by
  intro world hworld
  rw [read_apply]
  exact keeps_ofExcept (f world) world hworld

theorem keeps_change {f : World → Except Fault World}
    (h : ∀ world world', inv world → f world = .ok world' → inv world') :
    Keeps inv (change f) := by
  intro world hworld
  rw [change_apply]
  cases hf : f world with
  | ok world' => exact h world world' hworld hf
  | error fault => exact hworld

theorem keeps_modify {f : World → World} (h : ∀ world, inv world → inv (f world)) :
    Keeps inv (modify f : Run Unit) :=
  fun world hworld => h world hworld

theorem Keeps.forM {γ : Type} {items : List γ} {f : γ → Run Unit}
    (h : ∀ item ∈ items, Keeps inv (f item)) : Keeps inv (items.forM f) := by
  induction items with
  | nil => exact keeps_pure ()
  | cons item items ih =>
    exact (h item (List.mem_cons_self ..)).bind fun _ =>
      ih fun other hother => h other (List.mem_cons_of_mem _ hother)

theorem Keeps.mapM {γ : Type} {items : List γ} {f : γ → Run β}
    (h : ∀ item ∈ items, Keeps inv (f item)) : Keeps inv (items.mapM f) := by
  induction items with
  | nil => exact keeps_pure []
  | cons item items ih =>
    rw [List.mapM_cons]
    refine (h item (List.mem_cons_self ..)).bind fun _ => ?_
    exact (ih fun other hother => h other (List.mem_cons_of_mem _ hother)).bind fun _ =>
      keeps_pure _

end Run

/-! ### Processing up to the result -/

namespace Processor

/-- An invariant that neither the log nor the calls of the parser can break. -/
def Quiet (inv : World → Prop) : Prop :=
  ∀ world calls log, inv world → inv { world with calls := calls, log := log }

/-- A quiet invariant that a copy beside a file, written and removed again, cannot break either. -/
structure Tolerates (path : Path) (inv : World → Prop) : Prop where
  quiet : Quiet inv
  copied : ∀ copy place text world, scratch path = .ok copy → inv world →
    world.Writable copy place →
      inv { world with files := (world.files.put place (.file (.text text) none)).remove place }

/-- The passes of fixes over a file have left a state and a world: the file has been read, loaded
and checked, something was reported, and some fix was applied. -/
def Leaves (processor : Processor) (path : Path) (named : Option Path) (world : World)
    (state : FixState) (left : World) : Prop :=
  ∃ source diagnostics limit loaded checked,
    world.readText path = .ok source.text ∧
    processor.loadSource path source.text named world = (.ok source, loaded) ∧
    processor.check source loaded = (.ok diagnostics, checked) ∧ diagnostics ≠ [] ∧
    Order.passLimit processor.config.fix.maxFixPasses = .ok limit ∧
    processor.fixPasses path limit ⟨source.text, diagnostics, 0⟩ checked = (.ok state, left) ∧
    state.applied ≠ 0

variable {processor : Processor} {path : Path} {inv : World → Prop} {named : Option Path}
  {world : World}

/-- Parsing a file changes no more than the calls of the parser. -/
theorem parseFile_world (processor : Processor) (file : Path) (text : Text) (world : World) :
    ∃ calls, (processor.parseFile file text world).2 = { world with calls := calls } := by
  rw [parseFile, Run.bind_apply]
  cases processor.parserCommand file with
  | error fault => exact ⟨world.calls, rfl⟩
  | ok command =>
    refine ⟨(Run.callParser command file world).2.calls, ?_⟩
    change ((Run.callParser command file >>= _) world).2 = _
    rw [Run.bind_apply]
    obtain ⟨outcome, hcall⟩ : ∃ outcome, Run.callParser command file world =
        (.ok outcome, (Run.callParser command file world).2) := ⟨_, rfl⟩
    rw [hcall]
    cases outcome with
    | notStarted | refused | garbled => rfl
    | finished output complaint code =>
      dsimp only
      split_ifs
      · rfl
      · cases Source.ofJson (some file) text output.toList <;> rfl

theorem parseFile_keeps (h : Quiet inv) (file : Path) (text : Text) :
    Run.Keeps inv (processor.parseFile file text) := by
  intro world hworld
  obtain ⟨calls, hcalls⟩ := parseFile_world processor file text world
  rw [hcalls]
  exact h world calls world.log hworld

theorem loadSource_keeps (h : Quiet inv) (path : Path) (text : Text) (named : Option Path) :
    Run.Keeps inv (processor.loadSource path text named) := by
  have hdump : Run.Keeps inv (processor.dump? path named) := by
    cases named with
    | some dump => exact Run.keeps_pure _
    | none =>
      refine (Run.keeps_ofExcept _).bind fun beside => ?_
      refine (Run.keeps_read _).bind fun there => ?_
      split_ifs <;> exact Run.keeps_pure _
  refine hdump.bind fun found => ?_
  cases found with
  | some dump =>
    refine (Run.keeps_read _).bind fun json => ?_
    refine (Run.keeps_ofExcept _).bind fun source => ?_
    exact (Run.keeps_ofExcept _).bind fun _ => Run.keeps_pure _
  | none =>
    dsimp only
    split_ifs
    · exact parseFile_keeps h path text
    · exact (Run.keeps_ofExcept _).bind fun _ => Run.keeps_throw _

theorem check_keeps (h : Quiet inv) (source : Source) :
    Run.Keeps inv (processor.check source) := by
  refine (Run.keeps_ofExcept _).bind fun findings => ?_
  cases findings.warning with
  | none => exact Run.keeps_ofExcept _
  | some warning =>
    exact (Run.keeps_modify fun world hworld => h world world.calls _ hworld).bind fun _ =>
      Run.keeps_ofExcept _

/-- **A fixed text is parsed through a copy that is removed again, however the parser ends.** -/
theorem parseText_apply (processor : Processor) {copy : Path} {place : List String} (hcopy : scratch path = .ok copy)
    (hplace : world.Writable copy place) (text : Text) :
    ∃ calls, processor.parseText path text world =
      ((processor.parseFile copy text
          { world with files := world.files.put place (.file (.text text) none) }).1.map
            fun source => { source with path := some path },
        { world with
          files := (world.files.put place (.file (.text text) none)).remove place
          calls := calls }) := by
  have hparts : copy.parts ≠ [] := by
    rw [(Path.eq_of_withName hcopy).2]
    simp
  let written : World := { world with files := world.files.put place (.file (.text text) none) }
  obtain ⟨calls, hcalls⟩ := parseFile_world processor copy text written
  let called : World := { written with calls := calls }
  let removed : World := { called with files := called.files.remove place }
  have hcalled : called.HasFile copy place (.file (.text text) none) := by
    have hput := hplace.hasFile_put hparts (rfl : Entry.leaf? (.file (.text text) none) = _)
    exact ⟨hput.toWritable.of_place (fun _ => Iff.rfl) rfl, hput.seen⟩
  have hwrite : Run.writeText copy text world = (.ok (), written) :=
    Run.writeText_iff.2 (World.writeFile_eq_ok_iff.2 ⟨place, hplace, rfl⟩)
  have hremove : (do if ← Run.pathExists copy then Run.removeFile copy : Run Unit) called =
      (.ok (), removed) := by
    rw [Run.bind_ok (Run.pathExists_iff.2 ⟨hcalled.pathExists, rfl⟩)]
    refine Run.removeFile_iff.2
      (World.removeFile_eq_ok_iff.2 ⟨place, hcalled.toWritable, ?_, rfl⟩)
    rw [hcalled.seen]
    simp
  have hensuring : (processor.parseFile copy text).ensuring
      (do if ← Run.pathExists copy then Run.removeFile copy) written =
        ((processor.parseFile copy text written).1, removed) := by
    rw [Run.ensuring, Run.bind_ok (Run.outcome_apply ..), hcalls, Run.bind_ok hremove]
    cases (processor.parseFile copy text written).1 <;> rfl
  refine ⟨calls, ?_⟩
  rw [parseText, Run.bind_ok (Run.ofExcept_iff.2 ⟨hcopy, rfl⟩), Run.bind_ok hwrite, Run.bind_apply,
    hensuring]
  cases (processor.parseFile copy text written).1 <;> rfl

theorem parseText_keeps (h : Tolerates path inv) (text : Text) :
    Run.Keeps inv (processor.parseText path text) := by
  intro world hworld
  cases hcopy : scratch path with
  | error fault =>
    have hfault : Run.ofExcept (scratch path) world = (.error fault, world) := by rw [hcopy]; rfl
    rw [parseText, Run.bind_error hfault]
    exact hworld
  | ok copy =>
    cases hwrite : world.writeText copy text with
    | error fault =>
      have hfault : Run.writeText copy text world = (.error fault, world) := by
        rw [Run.writeText, Run.change_apply, hwrite]
      rw [parseText, Run.bind_ok (Run.ofExcept_iff.2 ⟨hcopy, rfl⟩), Run.bind_error hfault]
      exact hworld
    | ok written =>
      obtain ⟨place, hplace, -⟩ := World.writeFile_eq_ok_iff.1 hwrite
      obtain ⟨calls, hparse⟩ := parseText_apply processor hcopy hplace text
      rw [hparse]
      exact h.quiet _ calls world.log (h.copied copy place text world hcopy hworld hplace)

/-- **The passes of fixes keep what processing tolerates.** -/
theorem fixPasses_keeps (h : Tolerates path inv) (left : Nat) (state : FixState) :
    Run.Keeps inv (processor.fixPasses path left state) := by
  induction left generalizing state with
  | zero => exact Run.keeps_pure _
  | succ left ih =>
    rw [fixPasses]
    obtain ⟨text, applied⟩ := applyFixes state.text state.diagnostics
    dsimp only
    split_ifs
    · exact Run.keeps_pure _
    · exact Run.keeps_pure _
    · refine (parseText_keeps h text).bind fun source => ?_
      refine (check_keeps h.quiet source).bind fun diagnostics => ?_
      split_ifs
      · exact Run.keeps_pure _
      · exact ih _

/-- The report on a file whose fixes have been applied. -/
def fixReport (path : Path) (state : FixState) (backup : Option Path) : Report where
  path := path
  status := .fixed
  diagnostics := state.diagnostics
  changes := state.applied
  backup := backup

/-- How processing a file ends: in a fault or a report within an invariant, or by writing what the
passes have left. -/
inductive Ends (processor : Processor) (path : Path) (fix : Bool) (named : Option Path)
    (inv : World → Prop) (world : World) : Except Fault Report × World → Prop where
  | fault {fault : Fault} {last : World} (kept : inv last) :
      Ends processor path fix named inv world (.error fault, last)
  | report {report : Report} {last : World} (kept : inv last)
      (dry : report.status = .fixed → processor.config.dryRun.truthy = true) :
      Ends processor path fix named inv world (.ok report, last)
  | write {state : FixState} {left : World} (asked : fix = true)
      (wet : processor.config.dryRun.truthy = false)
      (leaves : processor.Leaves path named world state left) (kept : inv left) :
      Ends processor path fix named inv world
        ((do return fixReport path state (← processor.writeFixed path state.text) : Run Report)
          left)

/-- A source is that of the present text. -/
theorem loadSource_text {text : Text} {source : Source} {world' : World}
    (h : processor.loadSource path text named world = (.ok source, world')) :
    source.path = some path ∧ source.text = text := by
  obtain ⟨found, between, -, h⟩ := Run.bind_iff.1 h
  cases found with
  | some dump =>
    obtain ⟨json, between, -, h⟩ := Run.bind_iff.1 h
    obtain ⟨loaded, between, hload, h⟩ := Run.bind_iff.1 h
    obtain ⟨_, between, -, h⟩ := Run.bind_iff.1 h
    obtain ⟨rfl, -⟩ := Run.pure_iff.1 h
    exact Source.text_of_ofJson (Run.ofExcept_iff.1 hload).1
  | none =>
    dsimp only at h
    split_ifs at h
    · obtain ⟨command, between, -, h⟩ := Run.bind_iff.1 h
      obtain ⟨outcome, between, -, h⟩ := Run.bind_iff.1 h
      cases outcome with
      | notStarted | refused | garbled => exact absurd h Run.throw_ne_ok
      | finished output complaint code =>
        dsimp only at h
        split_ifs at h
        · exact absurd h Run.throw_ne_ok
        · exact Source.text_of_ofJson (Run.ofExcept_iff.1 h).1
    · obtain ⟨beside, between, -, h⟩ := Run.bind_iff.1 h
      exact absurd h Run.throw_ne_ok

/-- **Processing a file keeps what it tolerates, or it comes to writing what the passes have
left.** -/
theorem processStrictly_ends (h : Tolerates path inv) (fix : Bool) (hworld : inv world) :
    processor.Ends path fix named inv world (processor.processStrictly path fix named world) := by
  have hfault : ∀ fault last, inv last →
      processor.Ends path fix named inv world (.error fault, last) := fun _ _ => .fault
  refine (Run.keeps_read _).bind_cases hworld hfault fun text between heq hbetween => ?_
  obtain ⟨hread, rfl⟩ := Run.readText_iff.1 heq
  refine (loadSource_keeps h.quiet path text named).bind_cases hbetween hfault
    fun source loaded hload hloaded => ?_
  obtain ⟨-, rfl⟩ := loadSource_text hload
  refine (check_keeps h.quiet source).bind_cases hloaded hfault
    fun diagnostics checked hcheck hchecked => ?_
  split_ifs with hnone hfix
  · exact .report hchecked (by simp)
  · exact .report hchecked (by simp)
  refine (Run.keeps_ofExcept _).bind_cases hchecked hfault fun limit between heq hbetween => ?_
  obtain ⟨hlimit, rfl⟩ := Run.ofExcept_iff.1 heq
  refine (fixPasses_keeps h limit _).bind_cases hchecked hfault fun state left hpasses hleft => ?_
  split_ifs with hzero hdry
  · exact .report hleft (by simp)
  · exact .report hleft fun _ => hdry
  · exact .write (by simpa using hfix) (by simpa using hdry)
      ⟨source, diagnostics, limit, loaded, checked, hread, hload, hcheck, by simpa using hnone,
        hlimit, hpasses, hzero⟩ hleft

/-- A file with diagnostics is fixed if asked for. -/
theorem processStrictly_eq_fixFile {source : Source} {diagnostics : List Diagnostic}
    {loaded checked : World} (hread : world.readText path = .ok source.text)
    (hload : processor.loadSource path source.text named world = (.ok source, loaded))
    (hcheck : processor.check source loaded = (.ok diagnostics, checked))
    (hsome : diagnostics ≠ []) : processor.processStrictly path true named world =
      processor.fixFile path source diagnostics checked := by
  rw [processStrictly, Run.bind_ok (Run.readText_iff.2 ⟨hread, rfl⟩), Run.bind_ok hload,
    Run.bind_ok hcheck, if_neg (by simpa using hsome)]
  rfl

/-- What the passes have left is written, unless the run is a dry one. -/
theorem Leaves.processStrictly_eq {state : FixState} {left : World}
    (h : processor.Leaves path named world state left)
    (hdry : processor.config.dryRun.truthy = false) :
    processor.processStrictly path true named world =
      (do return fixReport path state (← processor.writeFixed path state.text) : Run Report)
        left := by
  obtain ⟨source, diagnostics, limit, loaded, checked, hread, hload, hcheck, hsome, hlimit, hpasses,
    happlied⟩ := h
  rw [processStrictly_eq_fixFile hread hload hcheck hsome, fixFile,
    Run.bind_ok (Run.ofExcept_iff.2 ⟨hlimit, rfl⟩), Run.bind_ok hpasses, if_neg happlied, hdry]
  rfl

/-- What is fixed and written is reported as fixed. -/
theorem Leaves.processFile_fixed {state : FixState} {left last : World} {backup : Option Path}
    (h : processor.Leaves path named world state left)
    (hdry : processor.config.dryRun.truthy = false)
    (hwrite : processor.writeFixed path state.text left = (.ok backup, last)) :
    processor.processFile path true named world = (.ok (fixReport path state backup), last) := by
  refine processFile_done ?_
  rw [h.processStrictly_eq hdry, Run.bind_ok hwrite]
  rfl

/-- What is fixed and cannot be written is reported with an error. -/
theorem Leaves.processFile_refused {state : FixState} {left last : World} {fault : Fault}
    (h : processor.Leaves path named world state left)
    (hdry : processor.config.dryRun.truthy = false)
    (hwrite : processor.writeFixed path state.text left = (.error fault, last))
    (hreported : fault.isReported = true) : processor.processFile path true named world =
      (.ok (Report.failed path (some fault.message)),
        last.record .error ("Error processing " ++ path.toText ++ ": " ++ fault.message)) := by
  refine processFile_failed ?_ hreported
  rw [h.processStrictly_eq hdry, Run.bind_error hwrite]

end Processor

/-! ### Worlds in which the same is seen -/

namespace World

/-- A world in which the same is seen as in another one, and in which the same run is in progress. -/
structure Alike (start world : World) : Prop where
  seen : ∀ place, world.files.seen place = start.files.seen place
  workingDirectory : world.workingDirectory = start.workingDirectory
  parser : world.parser = start.parser
  session : world.session = start.session
  now : world.now = start.now

variable {start world : World} {path : Path} {place : List String} {file : Entry}

theorem Alike.refl (world : World) : world.Alike world := ⟨fun _ => rfl, rfl, rfl, rfl, rfl⟩

theorem Alike.isDirectoryAt_iff (h : start.Alike world) (place : List String) :
    world.files.IsDirectoryAt place ↔ start.files.IsDirectoryAt place := by
  rw [Entry.IsDirectoryAt, h.seen, Entry.IsDirectoryAt]

theorem Alike.writable_iff (h : start.Alike world) :
    world.Writable path place ↔ start.Writable path place :=
  ⟨fun hplace => hplace.of_place h.isDirectoryAt_iff h.workingDirectory,
    fun hplace => hplace.of_place (fun place => (h.isDirectoryAt_iff place).symm)
      h.workingDirectory.symm⟩

theorem Alike.hasFile_iff (h : start.Alike world) :
    world.HasFile path place file ↔ start.HasFile path place file :=
  ⟨fun hfile => ⟨h.writable_iff.1 hfile.toWritable, (h.seen place).symm.trans hfile.seen⟩,
    fun hfile => ⟨h.writable_iff.2 hfile.toWritable, (h.seen place).trans hfile.seen⟩⟩

/-- **Where no file has the name of the copy, the same is seen until a result is written.** -/
theorem tolerates_alike
    (h : ∀ copy place file, Processor.scratch path = .ok copy → ¬ start.HasFile copy place file) :
    Processor.Tolerates path start.Alike where
  quiet world calls log hworld := ⟨hworld.seen, hworld.workingDirectory, hworld.parser,
    hworld.session, hworld.now⟩
  copied copy place text world hscratch hworld hplace := by
    refine ⟨fun other => ?_, hworld.workingDirectory, hworld.parser, hworld.session, hworld.now⟩
    have hparts : copy.parts ≠ [] := by
      rw [(Path.eq_of_withName hscratch).2]
      simp
    have hput := hplace.hasFile_put hparts (rfl : (Entry.file (.text text) none).leaf? = _)
    rw [hput.seen_remove hparts, hplace.seen_put hparts rfl]
    split_ifs with hother
    · -- Neither a directory nor a file is seen at the place of the copy.
      rw [hother]
      have hstart := hworld.writable_iff.1 hplace
      cases hseen : start.files.seen place with
      | none => rfl
      | some found =>
        cases found with
        | none => exact absurd hseen hstart.notDirectory
        | some file => exact absurd ⟨hstart, hseen⟩ (h copy place file hscratch)
    · exact hworld.seen other

end World
end UsageOrder
