import UsageOrder.Command.Check
import UsageOrder.Proofs.Prepared
import UsageOrder.Proofs.SinglePass

/-!
# Batches of files

A fault that concerns one file becomes the report on this file, and the batch goes on; any other
fault ends the batch.  Prepared files have faults of the first kind only, so each of them gets a
report and the backup session that was opened for them is ended (`Processor.processBatch_returns`).
A dump with a statement that is no node has a fault of the other kind
(`Processor.processBatch_nullStatement`).
-/

namespace UsageOrder

/-! ### Requests for fixes -/

namespace CheckCommand

/-- A request for fixes opens a backup session: the store is made, the session is started and the
processor backs files up there. -/
structure Opens (config : Config) (request : Request) (world : World)
    (store : BackupStore) (processor : Processor) (start : World) : Prop where
  fixes : request.fix = true
  undumped : request.dump = none
  stored : ∃ between, CheckCommand.store config world = (.ok (some store), between) ∧
    ∃ directory, store.startSession (.str "fix") between = (.ok directory, start)
  made : Processor.make config (some store) = .ok processor

/-- Once all files are processed the session is ended. -/
theorem Opens.processAll_eq {config : Config} {request : Request}
    {world start : World} {store : BackupStore} {processor : Processor}
    (h : Opens config request world store processor start) (files : List Path) :
    processAll config request files world =
      (do let reports ← processor.processBatch files true none
          let _ ← store.finalize
          return reports : Run (List Report)) start := by
  obtain ⟨between, hstore, directory, hstart⟩ := h.stored
  rw [processAll, h.fixes, h.undumped]
  simp only [if_true]
  rw [Run.bind_ok hstore]
  simp only
  rw [Run.bind_ok hstart, Run.bind_ok (Run.ofExcept_iff.2 ⟨h.made, rfl⟩)]

end CheckCommand

/-! ### Batches -/

namespace Processor

variable {processor : Processor} {paths : List Path} {path : Path} {start world world' last : World}
  {report : Report} {reports : List Report} {fix : Bool}

/-- What processing a file comes to: its report, or the report on a fault, which is logged. -/
inductive Processed (processor : Processor) (fix : Bool) (path : Path) (world : World) :
    Report → World → Prop
  | done {report : Report} {world' : World}
      (run : processor.processStrictly path fix none world = (.ok report, world'))
      (on : report.path = path) : Processed processor fix path world report world'
  | failed {fault : Fault} {between : World}
      (run : processor.processStrictly path fix none world = (.error fault, between))
      (reported : fault.isReported = true) :
      Processed processor fix path world (Report.failed path (some fault.message))
        (between.record .error ("Error processing " ++ path.toText ++ ": " ++ fault.message))

/-- What processing files one after the other comes to. -/
inductive Batched (processor : Processor) (fix : Bool) :
    List Path → World → List Report → World → Prop
  | nil (world : World) : Batched processor fix [] world [] world
  | cons {path : Path} {paths : List Path} {world between last : World} {report : Report}
      {reports : List Report} (first : processor.Processed fix path world report between)
      (rest : Batched processor fix paths between reports last) :
      Batched processor fix (path :: paths) world (report :: reports) last

theorem Processed.path_eq (h : processor.Processed fix path world report world') :
    report.path = path := by
  cases h with
  | done run on => exact on
  | failed run reported => rfl

/-- There is one report on each file, in their order. -/
theorem Batched.paths_eq (h : processor.Batched fix paths world reports last) :
    reports.map Report.path = paths := by
  induction h with
  | nil => rfl
  | cons first rest ih => rw [List.map_cons, first.path_eq, ih]

/-- **A prepared file always gets a report.** -/
theorem Prepared.processFile_returns (h : processor.Prepared paths start) (hpath : path ∈ paths)
    (fix : Bool) (hworld : Prepared.Reached processor paths start world) :
    ∃ report world', processor.processFile path fix none world = (.ok report, world') ∧
      processor.Processed fix path world report world' ∧
        Prepared.Reached processor paths start world' := by
  rcases h.processStrictly_safe hpath fix world hworld with ⟨report, world', hrun, hon, hreached⟩ |
    ⟨fault, between, hrun, hfault, hreached⟩
  · exact ⟨report, world', processFile_done hrun, .done hrun hon, hreached⟩
  · exact ⟨_, _, processFile_failed hrun hfault, .failed hrun hfault,
      hreached.of_files_eq rfl rfl rfl hreached.session⟩

theorem Prepared.processBatch_batched (h : processor.Prepared paths start) (fix : Bool)
    {files : List Path} (hfiles : ∀ path ∈ files, path ∈ paths)
    (hworld : Prepared.Reached processor paths start world) :
    ∃ reports last, processor.processBatch files fix none world = (.ok reports, last) ∧
      processor.Batched fix files world reports last := by
  induction files generalizing world with
  | nil => exact ⟨[], world, rfl, .nil world⟩
  | cons path files ih =>
    obtain ⟨hpath, hfiles⟩ := List.forall_mem_cons.1 hfiles
    obtain ⟨report, between, hrun, hfirst, hbetween⟩ := h.processFile_returns hpath fix hworld
    obtain ⟨reports, last, hrest, hbatched⟩ := ih hfiles hbetween
    refine ⟨report :: reports, last, ?_, .cons hfirst hbatched⟩
    rw [processBatch, List.mapM_cons, Run.bind_ok hrun]
    exact Run.bind_ok hrest _

/-- **No file stops a batch of prepared files.**  Each of them gets one report, in their order, and
what is wrong with a file is the report on this file; so a backup session that was opened for them
is ended. -/
theorem processBatch_returns (h : processor.Prepared paths start) (fix : Bool) :
    ∃ reports last, processor.processBatch paths fix none start = (.ok reports, last) ∧
      reports.map Report.path = paths ∧ processor.Batched fix paths start reports last ∧
      ∀ config request world store, CheckCommand.Opens config request world store processor start →
        request.fix = fix → CheckCommand.processAll config request paths world =
          (do let _ ← store.finalize; return reports : Run (List Report)) last := by
  obtain ⟨reports, last, hrun, hbatched⟩ :=
    h.processBatch_batched fix (fun _ hpath => hpath) (World.From.refl _ h.session)
  refine ⟨reports, last, hrun, hbatched.paths_eq, hbatched, ?_⟩
  intro config request world store hopens hfix
  obtain rfl : true = fix := hopens.fixes.symm.trans hfix
  rw [hopens.processAll_eq, Run.bind_ok hrun]

/-! ### Two files with their dumps -/

theorem regularDump_program {body : List Json} (hplain : (program body).isPlain = true)
    (hshallow : Source.nesting false 0 (program body).compact.toList ≤ Source.deepest)
    (hregular : ∀ statement ∈ body, statement.regular = true) :
    Source.RegularDump (program body).compact.toList where
  shallow := hshallow
  readable error herror := absurd ((Json.parse_compact hplain).symm.trans herror) (by simp)
  statements tree statements htree hstatements := by
    obtain rfl := Except.ok.inj ((Json.parse_compact hplain).symm.trans htree)
    obtain rfl := Except.ok.inj hstatements
    exact hregular

/-- What is wrong with a dump ends the processing of its file. -/
theorem processStrictly_unverified {beside : Path} {body : List Json} {text : Text} {fault : Fault}
    (htext : world.readText path = .ok text) (hbeside : processor.sidecar path = .ok beside)
    (hthere : world.pathExists beside = .ok true)
    (hread : world.readText beside = .ok (program body).compact.toList)
    (hplain : (program body).isPlain = true)
    (hverify : Source.verify ⟨some path, text, body⟩ = .error fault) (fix : Bool) :
    processor.processStrictly path fix none world = (.error fault, world) := by
  rw [processStrictly, Run.bind_ok (Run.readText_iff.2 ⟨htext, rfl⟩), Run.bind_apply,
    loadSource_beside hbeside hthere hread hplain text, hverify]
  rfl

/-- The path of another source file. -/
def cardPath : Path := ⟨0, ["Card.tsx"]⟩

/-- A directory with two empty source files, the dumps of their trees and some other entries. -/
def pairWorld (first second : List Json) (others : List (String × Entry))
    (session : Option Session) : World :=
  { directoryWorld [] (
      ("App.tsx.estree.json", .file (.text (program first).compact.toList) none) ::
      ("Card.tsx", .file (.text []) none) ::
      ("Card.tsx.estree.json", .file (.text (program second).compact.toList) none) :: others) with
    session }

theorem readText_firstDump {first : List Json} (h : (program first).isPlain = true)
    (second : List Json) (others : List (String × Entry)) (session : Option Session) :
    (pairWorld first second others session).readText ⟨0, ["App.tsx.estree.json"]⟩ =
      .ok (program first).compact.toList :=
  congrArg Except.ok (Json.unifyLineEnds_compact h)

theorem readText_secondDump {second : List Json} (h : (program second).isPlain = true)
    (first : List Json) (others : List (String × Entry)) (session : Option Session) :
    (pairWorld first second others session).readText ⟨0, ["Card.tsx.estree.json"]⟩ =
      .ok (program second).compact.toList :=
  congrArg Except.ok (Json.unifyLineEnds_compact h)

/-- A store for backups beside the files. -/
def backups : BackupStore := ⟨⟨0, [".backups"]⟩, .bool true, .int 10⟩

/-- The settings of `textual`, with backups. -/
def backedUp : Processor := { textual with store := some backups }

/-- The first session of the store. -/
def firstSession : Session where
  id := "fix_19700101_000000_000000_fix"
  timestamp := "19700101_000000_000000"
  directory := ⟨0, [".backups", "fix_19700101_000000_000000_fix"]⟩

/-- The first session is opened at the start of the time, for a fix. -/
theorem id_firstSession : BackupStore.sessionMark ++ Timestamp.ofSeconds 0 ++
    ("_" ++ (Json.str "fix").plain) = firstSession.id :=
  rfl

theorem ofSeconds_firstSession : Timestamp.ofSeconds 0 = firstSession.timestamp := rfl

theorem ofText_firstSession : Path.ofText firstSession.id = ⟨0, [firstSession.id]⟩ := rfl

/-- The two files when a session has been opened. -/
def begunWorld (first second : List Json) : World :=
  pairWorld first second [(".backups", .directory [(firstSession.id, .directory [] none)] none)]
    (some firstSession)

theorem opens_begunWorld (first second : List Json) :
    CheckCommand.Opens textual.config { path := ⟨0, []⟩, fix := true }
      (pairWorld first second [] none) backups backedUp (begunWorld first second) where
  fixes := rfl
  undumped := rfl
  stored := by
    have hnow : ∀ others session, (pairWorld first second others session).now = 0 :=
      fun _ _ => rfl
    have htruthy : (Json.str "fix").truthy = true := rfl
    refine ⟨pairWorld first second [(".backups", .directory [] none)] none, rfl,
      firstSession.directory, ?_⟩
    simp only [BackupStore.startSession, Run.get_bind, hnow, htruthy, if_true]
    rw [id_firstSession, ofText_firstSession, ofSeconds_firstSession]
    rfl
  made := rfl

theorem prepared_begunWorld {first second : List Json}
    (hfirst : (program first).isPlain = true) (hsecond : (program second).isPlain = true)
    (hregular : Source.RegularDump (program first).compact.toList)
    (hregular' : Source.RegularDump (program second).compact.toList) :
    backedUp.Prepared [appPath, cardPath] (begunWorld first second) where
  accepted := rfl
  typed := ⟨⟨_, rfl⟩, ⟨_, rfl⟩, ⟨_, rfl⟩, ⟨[], rfl⟩⟩
  dumped := by
    refine List.forall_mem_cons.2 ⟨?_, List.forall_mem_singleton.2 ?_⟩
    · exact ⟨_, _, _, rfl, rfl, readText_firstDump hfirst .., hregular⟩
    · exact ⟨_, _, _, rfl, rfl, readText_secondDump hsecond .., hregular'⟩
  single := by decide
  apart := by
    have hnames : backedUp.dumpNames [appPath, cardPath] =
        ["App.tsx.estree.json", "Card.tsx.estree.json"] := rfl
    have hfirst : scratch appPath = .ok ⟨0, [".App.tsx.styled-sort.tsx"]⟩ := rfl
    have hsecond : scratch cardPath = .ok ⟨0, [".Card.tsx.styled-sort.tsx"]⟩ := rfl
    rw [hnames]
    refine List.forall_mem_cons.2 ⟨⟨by decide, fun copy hcopy => ?_⟩,
      List.forall_mem_singleton.2 ⟨by decide, fun copy hcopy => ?_⟩⟩
    · obtain rfl := Except.ok.inj (hfirst.symm.trans hcopy)
      decide
    · obtain rfl := Except.ok.inj (hsecond.symm.trans hcopy)
      decide
  words words hwords := by
    obtain rfl : words = [] := List.map_eq_nil_iff.1 (Json.arr.inj hwords).symm
    exact fun word hword => absurd hword List.not_mem_nil
  parsed _ _ hparser := absurd hparser (by decide)
  directory _ hpart := absurd hpart List.not_mem_nil
  store _ heq := Option.some.inj heq ▸ rfl
  session _ heq := Option.some.inj heq ▸ rfl

theorem isPlain_empty : (program []).isPlain = true := rfl

/-- A statement without a range. -/
def bareStatement : Json := .obj [("type", .str "EmptyStatement")]

/-- The first file is reported for a statement without a range, and the second one is checked all
the same. -/
theorem processBatch_returns_bareStatement :
    backedUp.Prepared [appPath, cardPath] (begunWorld [bareStatement] []) ∧
      ∃ reports last, backedUp.processBatch [appPath, cardPath] true none
          (begunWorld [bareStatement] []) = (.ok reports, last) ∧
        reports.map (fun report => (report.path, report.status)) =
          [(appPath, .error), (cardPath, .clean)] ∧
        CheckCommand.processAll textual.config { path := ⟨0, []⟩, fix := true } [appPath, cardPath]
          (pairWorld [bareStatement] [] [] none) =
            (do let _ ← backups.finalize; return reports : Run (List Report)) last := by
  have hplain : (program [bareStatement]).isPlain = true := rfl
  have hprepared : backedUp.Prepared [appPath, cardPath] (begunWorld [bareStatement] []) :=
    prepared_begunWorld hplain isPlain_empty
      (regularDump_program hplain (by decide) (List.forall_mem_singleton.2 (by cbv)))
      (regularDump_program isPlain_empty (by decide) (by decide))
  obtain ⟨reports, last, hrun, -, hbatched, hends⟩ := processBatch_returns hprepared true
  refine ⟨hprepared, reports, last, hrun, ?_, hends _ _ _ _ (opens_begunWorld _ _) rfl⟩
  have hfirst : backedUp.processStrictly appPath true none (begunWorld [bareStatement] []) =
      (.error (.tree (.noRange (.str "EmptyStatement"))), begunWorld [bareStatement] []) :=
    processStrictly_unverified rfl rfl rfl (readText_firstDump hplain ..) hplain rfl true
  have hsecond : ∀ message, backedUp.processStrictly cardPath true none
      ((begunWorld [bareStatement] []).record .error message) =
        (.ok { path := cardPath, status := .clean },
          (begunWorld [bareStatement] []).record .error message) := by
    intro message
    have htext : ((begunWorld [bareStatement] []).record .error message).readText cardPath =
        .ok [] := rfl
    have hbeside : backedUp.sidecar cardPath = .ok ⟨0, ["Card.tsx.estree.json"]⟩ := rfl
    have hread : ((begunWorld [bareStatement] []).record .error message).readText
        ⟨0, ["Card.tsx.estree.json"]⟩ = .ok (program []).compact.toList :=
      readText_secondDump isPlain_empty _ _ (some firstSession)
    exact processStrictly_clean htext hbeside rfl hread isPlain_empty rfl rfl true
  rcases hbatched with _ | ⟨first, rest⟩
  rcases rest with _ | ⟨second, rest⟩
  cases rest
  rcases first with ⟨run, -⟩ | ⟨run, -⟩
  · exact absurd (Prod.mk.inj (hfirst.symm.trans run)).1 (by simp)
  · obtain ⟨-, rfl⟩ := Prod.mk.inj (hfirst.symm.trans run)
    rcases second with ⟨run, -⟩ | ⟨run, -⟩
    · obtain ⟨hreport, -⟩ := Prod.mk.inj ((hsecond _).symm.trans run)
      obtain rfl := Except.ok.inj hreport
      rfl
    · exact absurd (Prod.mk.inj ((hsecond _).symm.trans run)).1 (by simp)

/-- **A statement that is no node stops the batch.**  The fault is none of those that are reported,
so the second file gets no report and the backup session stays open. -/
theorem processBatch_nullStatement :
    textual.config.validate = .ok [] ∧
      (∀ path ∈ [appPath, cardPath], ∃ text beside json tree,
        (pairWorld [.null] [] [] none).readText path = .ok text ∧
        textual.sidecar path = .ok beside ∧
        (pairWorld [.null] [] [] none).readText beside = .ok json ∧ Json.parse json = .ok tree) ∧
      (textual.processBatch [appPath, cardPath] false none (pairWorld [.null] [] [] none)).1 =
        .error .unsuitable ∧
      CheckCommand.processAll textual.config { path := ⟨0, []⟩, fix := true } [appPath, cardPath]
        (pairWorld [.null] [] [] none) = (.error .unsuitable, begunWorld [.null] []) ∧
      (begunWorld [.null] []).session = some firstSession := by
  have hplain : (program [.null]).isPlain = true := rfl
  have hstrictly : ∀ (processor : Processor) (fix : Bool) others session,
      processor.config.parser.astSuffix = .str ".estree.json" →
        processor.processStrictly appPath fix none (pairWorld [.null] [] others session) =
          (.error .unsuitable, pairWorld [.null] [] others session) := by
    intro processor fix others session hsuffix
    have hbeside : processor.sidecar appPath = .ok ⟨0, ["App.tsx.estree.json"]⟩ := by
      rw [sidecar, hsuffix]
      rfl
    exact processStrictly_unverified rfl hbeside rfl (readText_firstDump hplain ..) hplain rfl fix
  have hbatch : ∀ (processor : Processor) (fix : Bool) others session,
      processor.config.parser.astSuffix = .str ".estree.json" →
        processor.processBatch [appPath, cardPath] fix none (pairWorld [.null] [] others session) =
          (.error .unsuitable, pairWorld [.null] [] others session) := by
    intro processor fix others session hsuffix
    rw [processBatch, List.mapM_cons, Run.bind_apply,
      processFile_escaped (hstrictly processor fix others session hsuffix) rfl]
  refine ⟨rfl, ?_, ?_, ?_, rfl⟩
  · refine List.forall_mem_cons.2 ⟨?_, List.forall_mem_singleton.2 ?_⟩
    · exact ⟨_, _, _, _, rfl, rfl, readText_firstDump hplain .., Json.parse_compact hplain⟩
    · exact ⟨_, _, _, _, rfl, rfl, readText_secondDump isPlain_empty ..,
        Json.parse_compact isPlain_empty⟩
  · rw [hbatch textual false [] none rfl]
  · have hbegun : backedUp.processBatch [appPath, cardPath] true none (begunWorld [.null] []) =
        (.error .unsuitable, begunWorld [.null] []) :=
      hbatch backedUp true [(".backups", .directory [(firstSession.id, .directory [] none)] none)]
        (some firstSession) rfl
    rw [(opens_begunWorld [.null] []).processAll_eq, Run.bind_apply, hbegun]

end Processor
end UsageOrder
