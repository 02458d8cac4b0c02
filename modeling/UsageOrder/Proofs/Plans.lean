import UsageOrder.Proofs.Writing

/-!
# What is to be done with a file

Without a parser and without a dump that is named, what is to be done with a file is decided before
anything is written, by the text of the file and the dump beside it alone (`Processor.plan`): there is
a report, or a fixed text is to be written (`Processor.processStrictly_eq_plan`).

A plan adds to the log and changes nothing else.  In two worlds in which the file and its dump are
read alike the same is decided (`Processor.plan_notesSame`).
-/

namespace UsageOrder

/-! ### Runs that only note -/

namespace Run

variable {α β : Type} {world world' : World} {run : Run α}

/-- A run that ends alike in two worlds and adds the same records to the log of each. -/
def NotesSame (world world' : World) (run : Run α) : Prop :=
  ∃ outcome entries, ∀ log log',
    run { world with log := log } = (outcome, { world with log := log ++ entries }) ∧
    run { world' with log := log' } = (outcome, { world' with log := log' ++ entries })

theorem notesSame_ofExcept (outcome : Except Fault α) :
    NotesSame world world' (ofExcept outcome) := by
  refine ⟨outcome, [], fun log log' => ?_⟩
  simp only [List.append_nil]
  cases outcome <;> exact ⟨rfl, rfl⟩

theorem notesSame_pure (value : α) : NotesSame world world' (pure value : Run α) :=
  notesSame_ofExcept (.ok value)

theorem notesSame_throw (fault : Fault) : NotesSame world world' (throw fault : Run α) :=
  notesSame_ofExcept (.error fault)

/-- What does not depend on the log is read alike where it is the same. -/
theorem notesSame_read {f : World → Except Fault α} (h : f world' = f world)
    (hlog : ∀ world log, f { world with log := log } = f world) :
    NotesSame world world' (read f) := by
  obtain ⟨outcome, entries, hsame⟩ : NotesSame world world' (ofExcept (f world)) :=
    notesSame_ofExcept (f world)
  refine ⟨outcome, entries, fun log log' => ?_⟩
  rw [read_apply, read_apply, hlog world, hlog world', h]
  exact hsame log log'

theorem notesSame_warn (message : String) : NotesSame world world' (warn message) :=
  ⟨.ok (), [⟨.warning, message⟩], fun _ _ => ⟨rfl, rfl⟩⟩

theorem NotesSame.bind {next : α → Run β} (h : NotesSame world world' run)
    (hnext : ∀ value, NotesSame world world' (next value)) :
    NotesSame world world' (run >>= next) := by
  obtain ⟨outcome, entries, hrun⟩ := h
  cases outcome with
  | error fault =>
    refine ⟨.error fault, entries, fun log log' => ?_⟩
    rw [bind_apply, bind_apply, (hrun log log').1, (hrun log log').2]
    exact ⟨rfl, rfl⟩
  | ok value =>
    obtain ⟨result, more, hvalue⟩ := hnext value
    refine ⟨result, entries ++ more, fun log log' => ?_⟩
    rw [bind_ok (hrun log log').1, bind_ok (hrun log log').2, ← List.append_assoc,
      ← List.append_assoc]
    exact hvalue _ _

end Run

namespace Processor

variable {processor : Processor} {path beside : Path} {world world' : World}

/-! ### Plans -/

/-- What is to be done with a file: there is a report on it already, or what the passes have left is to
be written. -/
def plan (processor : Processor) (path : Path) (fix : Bool) : Run (Report ⊕ FixState) := do
  let text ← Run.readText path
  let source ← processor.loadSource path text none
  let diagnostics ← processor.check source
  if diagnostics.isEmpty then return .inl { path, status := .clean }
  else if !fix then return .inl { path, status := .problems, diagnostics }
  else
    let limit ← Run.ofExcept (Order.passLimit processor.config.fix.maxFixPasses)
    let state ← processor.fixPasses path limit ⟨source.text, diagnostics, 0⟩
    if state.applied = 0 then
      return .inl { path, status := .problems, diagnostics := state.diagnostics }
    else if processor.config.dryRun.truthy then return .inl (fixReport path state none)
    else return .inr state

/-- A plan is carried out by writing a text, if there is one to be written. -/
def carryOut (processor : Processor) (path : Path) : Report ⊕ FixState → Run Report
  | .inl report => return report
  | .inr state => do return fixReport path state (← processor.writeFixed path state.text)

/-- **Processing a file is planning and carrying out.** -/
theorem processStrictly_eq_plan (processor : Processor) (path : Path) (fix : Bool) :
    processor.processStrictly path fix none =
      processor.plan path fix >>= processor.carryOut path := by
  rw [processStrictly, plan]
  simp only [bind_assoc]
  refine bind_congr fun text => bind_congr fun source => bind_congr fun diagnostics => ?_
  cases diagnostics.isEmpty with
  | true => rfl
  | false =>
    cases fix with
    | false => rfl
    | true =>
      simp only [Bool.false_eq_true, if_false, Bool.not_true, fixFile, bind_assoc]
      refine bind_congr fun limit => bind_congr fun state => ?_
      split_ifs <;> simp [carryOut, fixReport]

/-! ### What a plan depends on -/

/-- Two worlds in which a file and the dump beside it are read alike. -/
structure ReadAlike (processor : Processor) (path : Path) (world world' : World) : Prop where
  text : world'.readText path = world.readText path
  there : ∀ beside, processor.sidecar path = .ok beside →
    world'.pathExists beside = world.pathExists beside
  dump : ∀ beside, processor.sidecar path = .ok beside →
    world'.readText beside = world.readText beside

theorem ReadAlike.refl (processor : Processor) (path : Path) (world : World) :
    processor.ReadAlike path world world :=
  ⟨rfl, fun _ _ => rfl, fun _ _ => rfl⟩

theorem notesSame_sidecar {α : Type} {next : Path → Run α}
    (h : ∀ beside, processor.sidecar path = .ok beside → Run.NotesSame world world' (next beside)) :
    Run.NotesSame world world' (Run.ofExcept (processor.sidecar path) >>= next) := by
  cases hbeside : processor.sidecar path with
  | error fault => exact Run.notesSame_throw fault
  | ok beside =>
    have hrun : (Run.ofExcept (.ok beside) >>= next) = next beside := pure_bind beside next
    rw [hrun]
    exact h beside hbeside

/-- Without a parser the tree of a file is that of the dump beside it. -/
theorem loadSource_eq (hparser : processor.hasParser = false) (path : Path) (text : Text) :
    processor.loadSource path text none = (do
      let beside ← Run.ofExcept (processor.sidecar path)
      if ← Run.pathExists beside then
        let source ← Run.ofExcept (Source.ofJson (some path) text (← Run.readText beside))
        Run.ofExcept source.verify
        return source
      else
        let beside ← Run.ofExcept (processor.sidecar path)
        throw (.tree (.missing path.toText beside.name))) := by
  rw [loadSource, dump?, hparser]
  simp only [bind_assoc]
  refine bind_congr fun beside => bind_congr fun there => ?_
  cases there <;> simp

/-- The source of a file is loaded alike. -/
theorem loadSource_notesSame (hparser : processor.hasParser = false)
    (h : processor.ReadAlike path world world') (text : Text) :
    Run.NotesSame world world' (processor.loadSource path text none) := by
  rw [loadSource_eq hparser]
  refine notesSame_sidecar fun beside hbeside => ?_
  refine (Run.notesSame_read (h.there beside hbeside) fun _ _ => rfl).bind fun there => ?_
  split_ifs
  · refine (Run.notesSame_read (h.dump beside hbeside) fun _ _ => rfl).bind fun json => ?_
    refine (Run.notesSame_ofExcept _).bind fun source => ?_
    exact (Run.notesSame_ofExcept _).bind fun _ => Run.notesSame_pure _
  · exact notesSame_sidecar fun _ _ => Run.notesSame_throw _

theorem check_notesSame (source : Source) :
    Run.NotesSame world world' (processor.check source) := by
  refine (Run.notesSame_ofExcept _).bind fun findings => ?_
  cases findings.warning with
  | none => exact Run.notesSame_ofExcept _
  | some warning =>
    exact (Run.notesSame_warn warning).bind fun _ => Run.notesSame_ofExcept _

/-- Without a parser there is one pass at most, over the text in hand. -/
theorem fixPasses_notesSame (hparser : processor.hasParser = false) (path : Path) (limit : Nat)
    (state : FixState) : Run.NotesSame world world' (processor.fixPasses path limit state) := by
  cases limit with
  | zero => exact Run.notesSame_pure _
  | succ left =>
    simp only [fixPasses, hparser, Bool.not_false, if_true]
    split_ifs <;> exact Run.notesSame_pure _

/-- **The same is decided** where the file and its dump are read alike. -/
theorem plan_notesSame (hparser : processor.hasParser = false)
    (h : processor.ReadAlike path world world') (fix : Bool) :
    Run.NotesSame world world' (processor.plan path fix) := by
  refine (Run.notesSame_read h.text fun _ _ => rfl).bind fun text => ?_
  refine (loadSource_notesSame hparser h text).bind fun source => ?_
  refine (check_notesSame source).bind fun diagnostics => ?_
  cases diagnostics.isEmpty with
  | true => exact Run.notesSame_pure _
  | false =>
    cases fix with
    | false => exact Run.notesSame_pure _
    | true =>
      refine (Run.notesSame_ofExcept _).bind fun limit => ?_
      refine (fixPasses_notesSame hparser path limit _).bind fun state => ?_
      split_ifs <;> exact Run.notesSame_pure _

/-- Without a dump, and without a parser, there is no tree. -/
theorem loadSource_missing (hparser : processor.hasParser = false)
    (hbeside : processor.sidecar path = .ok beside) (hthere : world.pathExists beside = .ok false)
    (text : Text) : processor.loadSource path text none world =
      (.error (.tree (.missing path.toText beside.name)), world) := by
  rw [loadSource_eq hparser, Run.bind_ok (Run.ofExcept_iff.2 ⟨hbeside, rfl⟩),
    Run.bind_ok (Run.pathExists_iff.2 ⟨hthere, rfl⟩), if_neg Bool.false_ne_true,
    Run.bind_ok (Run.ofExcept_iff.2 ⟨hbeside, rfl⟩)]
  rfl

/-- A dump that cannot be read gives no tree. -/
theorem loadSource_unreadable (hparser : processor.hasParser = false)
    (hbeside : processor.sidecar path = .ok beside) (hthere : world.pathExists beside = .ok true)
    {fault : Fault} (hdump : world.readText beside = .error fault) (text : Text) :
    processor.loadSource path text none world = (.error fault, world) := by
  have hread : Run.readText beside world = (.error fault, world) := by
    rw [Run.readText, Run.read_apply, hdump]
    rfl
  rw [loadSource_eq hparser, Run.bind_ok (Run.ofExcept_iff.2 ⟨hbeside, rfl⟩),
    Run.bind_ok (Run.pathExists_iff.2 ⟨hthere, rfl⟩), if_pos rfl, Run.bind_error hread]

/-- Nothing is planned for a file without a tree. -/
theorem plan_error (fix : Bool) {fault : Fault}
    (h : ∀ text, processor.loadSource path text none world = (.error fault, world)) :
    processor.plan path fix world = (.error (match world.readText path with
      | .ok _ => fault
      | .error unread => unread), world) := by
  cases hread : world.readText path with
  | error unread =>
    have hrun : Run.readText path world = (.error unread, world) := by
      rw [Run.readText, Run.read_apply, hread]
      rfl
    rw [plan, Run.bind_error hrun]
  | ok text => rw [plan, Run.bind_ok (Run.readText_iff.2 ⟨hread, rfl⟩), Run.bind_error (h text)]

/-- A plan adds to the log only. -/
theorem plan_world (hparser : processor.hasParser = false) (path : Path) (fix : Bool)
    (world : World) : ∃ log, (processor.plan path fix world).2 = { world with log := log } := by
  obtain ⟨outcome, entries, hplan⟩ :=
    plan_notesSame hparser (.refl processor path world) fix
  exact ⟨_, congrArg Prod.snd (hplan world.log world.log).1⟩

/-- A report that is planned is one on the file. -/
theorem plan_path {fix : Bool} {report : Report}
    (h : processor.plan path fix world = (.ok (.inl report), world')) : report.path = path := by
  obtain ⟨text, _, -, h⟩ := Run.bind_iff.1 h
  obtain ⟨source, _, -, h⟩ := Run.bind_iff.1 h
  obtain ⟨diagnostics, _, -, h⟩ := Run.bind_iff.1 h
  cases hclean : diagnostics.isEmpty with
  | true =>
    rw [hclean] at h
    rw [← Sum.inl.inj (Run.pure_iff.1 h).1]
  | false =>
    rw [hclean] at h
    cases fix with
    | false => rw [← Sum.inl.inj (Run.pure_iff.1 h).1]
    | true =>
      obtain ⟨limit, _, -, h⟩ := Run.bind_iff.1 h
      obtain ⟨state, _, -, h⟩ := Run.bind_iff.1 h
      split_ifs at h
      · rw [← Sum.inl.inj (Run.pure_iff.1 h).1]
      · rw [← Sum.inl.inj (Run.pure_iff.1 h).1]
        rfl
      · exact absurd (Run.pure_iff.1 h).1 (by simp)

/-- **What is to be written comes from a file with a dump beside it.** -/
theorem plan_writes (hparser : processor.hasParser = false) {fix : Bool} {state : FixState}
    (h : processor.plan path fix world = (.ok (.inr state), world')) :
    ∃ beside text json, processor.sidecar path = .ok beside ∧ world.readText path = .ok text ∧
      world.readText beside = .ok json := by
  obtain ⟨text, between, heq, h⟩ := Run.bind_iff.1 h
  obtain ⟨hread, rfl⟩ := Run.readText_iff.1 heq
  obtain ⟨source, loaded, hload, -⟩ := Run.bind_iff.1 h
  rw [loadSource_eq hparser] at hload
  obtain ⟨beside, between, heq, hload⟩ := Run.bind_iff.1 hload
  obtain ⟨hbeside, rfl⟩ := Run.ofExcept_iff.1 heq
  obtain ⟨there, between, heq, hload⟩ := Run.bind_iff.1 hload
  obtain ⟨-, rfl⟩ := Run.pathExists_iff.1 heq
  cases there with
  | true =>
    obtain ⟨json, between, hjson, -⟩ := Run.bind_iff.1 hload
    exact ⟨beside, text, json, hbeside, hread, (Run.readText_iff.1 hjson).1⟩
  | false =>
    obtain ⟨_, between, -, hload⟩ := Run.bind_iff.1 hload
    exact absurd hload Run.throw_ne_ok

end Processor
end UsageOrder
