import UsageOrder.Proofs.Batch
import UsageOrder.Proofs.Restoring
import UsageOrder.Proofs.Undoing

/-!
# Undoing a run

A run of fixes with backups opens a session, processes the files that were found and ends the session.
What it leaves can be undone: restoring the session gives every file that was found what it held
before the run, whether the run has written it or not, and whether the session is packed or not
(`CheckCommand.restore_execute`).

Two things are asked of where the sessions are.  No file that was found may be taken for a part of a
stored session, or it is removed with the sessions that are too many; and the way to the directory of
the sessions may not lead through one of them, or it ends when that session is removed
(`CheckCommand.restore_execute_lost`).
-/

namespace UsageOrder
namespace CheckCommand

/-! ### Requests for fixes with backups -/

/-- The files that a request is carried out on. -/
structure Concerns (config : Config) (request : Request) (world : World) (files : List Path) :
    Prop where
  found : ∃ filter, SourceFilter.make config.extensions config.parser.astSuffix = .ok filter ∧
    filter.find request.path request.recursive world = .ok files
  ne_nil : files ≠ []
  single : request.dump = none ∨ world.isFile request.path = .ok true

/-- The store in which a run that writes files keeps backups, the last session at least. -/
structure KeepsBackups (config : Config) (store : BackupStore) : Prop where
  enabled : config.backup.enabled.truthy = true
  writes : config.dryRun.truthy = false
  directory : ∃ text, config.backup.directory = .str text ∧ store.directory = Path.ofText text
  compression : store.compression = config.backup.compression
  keepSessions : store.keepSessions = config.backup.keepSessions
  keep : ∃ count, store.keepSessions.toInt? = some count ∧ 1 ≤ count

variable {config : Config} {request : Request} {store : BackupStore} {files : List Path}
  {world world' last : World} {report : Report} {reports : List Report}

/-- What printing does not change. -/
theorem print_keeps (text : String) (tree : Entry) (home : List String) :
    Run.Keeps (fun world => world.files = tree ∧ world.workingDirectory = home)
      (Run.printLine text) :=
  Run.keeps_modify fun _ hworld => hworld

theorem printReport_keeps (report : Report) (tree : Entry) (home : List String) :
    Run.Keeps (fun world => world.files = tree ∧ world.workingDirectory = home)
      (printReport config report) := by
  have hdiagnostics : Run.Keeps (fun world => world.files = tree ∧ world.workingDirectory = home)
      (report.diagnostics.forM fun diagnostic =>
        Run.printLine (diagnostic.format report.path.toText ++
          (if diagnostic.fix.isSome then "" else " (no automatic fix)"))) :=
    Run.Keeps.forM fun _ _ => print_keeps _ tree home
  rw [printReport]
  split_ifs
  · exact Run.keeps_modify fun _ hworld => hworld
  · exact (print_keeps _ tree home).bind fun _ => hdiagnostics
  · exact hdiagnostics

/-- Files that were found are processed, and what comes of it is printed. -/
theorem execute_eq (hfiles : Concerns config request world files) :
    execute config request world = (do
      let reports ← inOwnSession (processAll config request files)
      reports.forM (printReport config)
      if !config.quiet.truthy then Run.printLine (summaryLine reports)
      return summary request.path reports : Run Report) world := by
  obtain ⟨filter, hfilter, hfound⟩ := hfiles.found
  have hsome : files.isEmpty = false := by simpa using hfiles.ne_nil
  have hread : Run.read (filter.find request.path request.recursive) world = (.ok files, world) :=
    Run.read_iff.2 ⟨hfound, rfl⟩
  rw [execute, Run.bind_ok (Run.ofExcept_iff.2 ⟨hfilter, rfl⟩)]
  cases hdump : request.dump with
  | none =>
    refine (Run.bind_ok (Run.pure_iff.2 ⟨rfl, rfl⟩) _).trans ?_
    simp only [Bool.false_eq_true, if_false]
    rw [Run.bind_ok hread, hsome]
    rfl
  | some dump =>
    have hfile : Run.read (fun world => world.isFile request.path) world = (.ok true, world) :=
      Run.read_iff.2 ⟨hfiles.single.resolve_left (by simp [hdump]), rfl⟩
    refine (Run.bind_ok hfile _).trans ((Run.bind_ok (Run.pure_iff.2 ⟨rfl, rfl⟩) _).trans ?_)
    simp only [Bool.not_true, Bool.false_eq_true, if_false]
    rw [Run.bind_ok hread, hsome]
    rfl

/-- A request is carried out by processing the files in a session of their own. -/
theorem processAll_of_execute (hfiles : Concerns config request world files)
    (h : execute config request world = (.ok report, world')) :
    ∃ reports last,
      processAll config request files { world with session := none } = (.ok reports, last) ∧
        world'.files = last.files ∧ world'.workingDirectory = last.workingDirectory := by
  rw [execute_eq hfiles] at h
  obtain ⟨reports, between, hown, h⟩ := Run.bind_iff.1 h
  have hprinted : Run.Keeps (fun world => world.files = between.files ∧
      world.workingDirectory = between.workingDirectory) (do
        reports.forM (printReport config)
        if !config.quiet.truthy then Run.printLine (summaryLine reports)
        return summary request.path reports : Run Report) := by
    refine (Run.Keeps.forM fun report _ => printReport_keeps report _ _).bind fun _ => ?_
    split_ifs
    · exact (print_keeps _ _ _).bind fun _ => Run.keeps_pure _
    · exact Run.keeps_pure _
  have hlast := hprinted between ⟨rfl, rfl⟩
  rw [h] at hlast
  rw [inOwnSession, Run.get_bind] at hown
  obtain ⟨_, idle, hidle, hown⟩ := Run.bind_iff.1 hown
  obtain rfl := (Prod.mk.inj hidle).2
  rcases hrun : processAll config request files { world with session := none } with ⟨outcome, last⟩
  have houtcome : (processAll config request files).outcome { world with session := none } =
      (.ok outcome, last) := by
    rw [Run.outcome_apply, hrun]
  rw [Run.ensuring, Run.bind_ok houtcome] at hown
  obtain ⟨_, restored, hrestored, hown⟩ := Run.bind_iff.1 hown
  obtain rfl := (Prod.mk.inj hrestored).2
  obtain ⟨rfl, rfl⟩ := Run.ofExcept_iff.1 hown
  exact ⟨reports, last, rfl, hlast⟩

theorem printReport_returns (config : Config) (report : Report) (world : World) :
    ∃ last, printReport config report world = (.ok (), last) := by
  have hdiagnostics : ∀ (diagnostics : List Diagnostic) (f : Diagnostic → String) (world : World),
      ∃ last, (diagnostics.forM fun diagnostic => Run.printLine (f diagnostic)) world =
        (.ok (), last) := by
    intro diagnostics f
    induction diagnostics with
    | nil => exact fun world => ⟨world, rfl⟩
    | cons diagnostic diagnostics ih => exact fun world => ih _
  rw [printReport]
  split_ifs
  · exact ⟨_, rfl⟩
  · exact hdiagnostics report.diagnostics _ _
  · exact hdiagnostics report.diagnostics _ _

/-- When the files are processed the request is carried out. -/
theorem execute_of_processAll (hfiles : Concerns config request world files)
    (h : processAll config request files { world with session := none } = (.ok reports, last)) :
    ∃ world', execute config request world = (.ok (summary request.path reports), world') ∧
      world'.files = last.files ∧ world'.workingDirectory = last.workingDirectory := by
  have hprinted : ∀ (items : List Report) (before : World),
      ∃ after, items.forM (printReport config) before = (.ok (), after) := by
    intro items
    induction items with
    | nil => exact fun before => ⟨before, rfl⟩
    | cons report items ih =>
      intro before
      obtain ⟨between, hbetween⟩ := printReport_returns config report before
      obtain ⟨after, hafter⟩ := ih between
      exact ⟨after, (Run.bind_ok hbetween _).trans hafter⟩
  have hown : inOwnSession (processAll config request files) world =
      (.ok reports, { last with session := world.session }) := by
    have houtcome : (processAll config request files).outcome { world with session := none } =
        (.ok (.ok reports), last) := by
      rw [Run.outcome_apply, h]
    rw [inOwnSession, Run.get_bind]
    refine (Run.bind_ok (rfl : _ = (Except.ok (), { world with session := none })) _).trans ?_
    rw [Run.ensuring, Run.bind_ok houtcome]
    rfl
  obtain ⟨between, hbetween⟩ := hprinted reports { last with session := world.session }
  obtain ⟨world', hworld'⟩ : ∃ world', execute config request world =
      (.ok (summary request.path reports), world') := by
    rw [execute_eq hfiles, Run.bind_ok hown, Run.bind_ok hbetween]
    split_ifs <;> exact ⟨_, rfl⟩
  obtain ⟨reports', last', hlast', hsame⟩ := processAll_of_execute hfiles hworld'
  obtain rfl := (Prod.mk.inj (h.symm.trans hlast')).2
  exact ⟨world', hworld', hsame⟩

/-- The store of a run is made with its directory. -/
theorem store_of_ok (hkeeps : KeepsBackups config store) {made : Option BackupStore}
    (h : CheckCommand.store config world = (.ok made, last)) :
    made = some store ∧ world.makeDirectories store.directory = .ok last := by
  obtain ⟨directory, compression, keepSessions⟩ := store
  obtain ⟨text, htext, rfl⟩ := hkeeps.directory
  obtain rfl := hkeeps.compression
  obtain rfl := hkeeps.keepSessions
  rw [CheckCommand.store, hkeeps.enabled, hkeeps.writes, if_neg (by simp), htext] at h
  obtain ⟨store, between, hmake, h⟩ := Run.bind_iff.1 h
  obtain ⟨rfl, rfl⟩ := Run.pure_iff.1 h
  obtain ⟨_, grown, hgrown, hmake⟩ := Run.bind_iff.1 hmake
  obtain ⟨rfl, rfl⟩ := Run.pure_iff.1 hmake
  exact ⟨rfl, Run.change_iff.1 hgrown⟩

/-- What processing files with backups is made of: the directory of the sessions is made, a session is
opened, the files are processed, and the session is ended. -/
theorem finalize_of_processAll (hkeeps : KeepsBackups config store) (hfix : request.fix = true)
    (h : processAll config request files world = (.ok reports, last)) :
    ∃ processor grown opened between result,
      Processor.make config (some store) = .ok processor ∧
      world.makeDirectories store.directory = .ok grown ∧
      grown.makeDirectories (store.newSession (.str "fix") world.now).directory = .ok opened ∧
      processor.processBatch files true request.dump
        { opened with session := some (store.newSession (.str "fix") world.now) } =
          (.ok reports, between) ∧
      store.finalize between = (.ok result, last) := by
  rw [processAll, hfix] at h
  simp only [if_true] at h
  obtain ⟨made, grown, hstore, h⟩ := Run.bind_iff.1 h
  obtain ⟨rfl, hgrown⟩ := store_of_ok hkeeps hstore
  have hnow : grown.now = world.now := by
    rw [(World.grows_of_makeDirectories hgrown).2.eq_files]
  obtain ⟨_, begun, hbegun, h⟩ := Run.bind_iff.1 h
  rw [BackupStore.startSession_apply, hnow] at hbegun
  cases hopened : grown.makeDirectories (store.newSession (.str "fix") world.now).directory with
  | error fault =>
    rw [hopened] at hbegun
    exact absurd (Prod.mk.inj hbegun).1 (by simp)
  | ok opened =>
    rw [hopened] at hbegun
    obtain rfl := (Prod.mk.inj hbegun).2
    obtain ⟨processor, ready, hmake, h⟩ := Run.bind_iff.1 h
    obtain ⟨hprocessor, rfl⟩ := Run.ofExcept_iff.1 hmake
    obtain ⟨reports', between, hbatch, h⟩ := Run.bind_iff.1 h
    obtain ⟨result, final, hfinal, h⟩ := Run.bind_iff.1 h
    obtain ⟨rfl, rfl⟩ := Run.pure_iff.1 h
    exact ⟨processor, grown, opened, between, result, hprocessor, hgrown, hopened, hbatch, hfinal⟩

/-- When each of these steps is possible the files are processed. -/
theorem processAll_of_finalize (hkeeps : KeepsBackups config store) (hfix : request.fix = true)
    {processor : Processor} {grown opened between : World} {result : Option Path}
    (hprocessor : Processor.make config (some store) = .ok processor)
    (hgrown : world.makeDirectories store.directory = .ok grown)
    (hopened : grown.makeDirectories (store.newSession (.str "fix") world.now).directory =
      .ok opened)
    (hbatch : processor.processBatch files true request.dump
      { opened with session := some (store.newSession (.str "fix") world.now) } =
        (.ok reports, between))
    (hfinal : store.finalize between = (.ok result, last)) :
    processAll config request files world = (.ok reports, last) := by
  have hstore : CheckCommand.store config world = (.ok (some store), grown) := by
    obtain ⟨directory, compression, keepSessions⟩ := store
    obtain ⟨text, htext, rfl⟩ := hkeeps.directory
    obtain rfl := hkeeps.compression
    obtain rfl := hkeeps.keepSessions
    rw [CheckCommand.store, hkeeps.enabled, hkeeps.writes, if_neg (by simp), htext]
    have hmake : Run.makeDirectories (Path.ofText text) world = (.ok (), grown) :=
      Run.change_iff.2 hgrown
    exact Run.bind_ok (Run.bind_ok hmake _) _
  have hnow : grown.now = world.now := by
    rw [(World.grows_of_makeDirectories hgrown).2.eq_files]
  have hstart : store.startSession (.str "fix") grown =
      (.ok (store.newSession (.str "fix") world.now).directory,
        { opened with session := some (store.newSession (.str "fix") world.now) }) := by
    rw [BackupStore.startSession_apply, hnow, hopened]
  rw [processAll, hfix]
  simp only [if_true]
  rw [Run.bind_ok hstore]
  refine (Run.bind_ok hstart _).trans ?_
  rw [Run.bind_ok (Run.ofExcept_iff.2 ⟨hprocessor, rfl⟩), Run.bind_ok hbatch]
  exact Run.bind_ok hfinal _

/-! ### The setting of a request -/

/-- The dump beside a file that was found is none of the files that were found, unless it is the file
itself: names of dumps are not those of source files. -/
theorem Concerns.sidecars (hfiles : Concerns config request world files) (hworld : world.WellFormed)
    {processor : Processor} (hconfig : processor.config = config) {path other beside : Path}
    (hpath : path ∈ files) (hbeside : processor.sidecar path = .ok beside) (hother : other ∈ files)
    (hspot : beside.spot world.workingDirectory = other.spot world.workingDirectory) :
    beside.spot world.workingDirectory = path.spot world.workingDirectory := by
  obtain ⟨filter, hfilter, hfound⟩ := hfiles.found
  have hfirst := SourceFilter.finds_of_mem hworld hfound hpath
  have hsecond := SourceFilter.finds_of_mem hworld hfound hother
  obtain ⟨suffix, hsuffix, hname⟩ := Processor.sidecar_eq_ok_iff.1 hbeside
  rw [hconfig] at hsuffix
  have hfilterSuffix : filter.astSuffix = .str suffix := by
    obtain ⟨items, -, hfilter⟩ := bind_eq_ok_iff.1 hfilter
    obtain ⟨extensions, -, hfilter⟩ := bind_eq_ok_iff.1 hfilter
    obtain rfl := Except.ok.inj hfilter
    exact hsuffix
  by_cases hempty : suffix = ""
  · have hsame : beside = path := by
      have hparts := (Path.eq_of_withName hname).2
      rw [hempty, String.append_empty] at hparts
      rw [hparts]
      exact (Path.exists_parts hfirst.parts).symm
    rw [hsame]
  · have hdots := (hfirst.isName hworld).append_ne_dots suffix
    rw [Path.spot_of_withName hname hdots, Path.spot_eq_concat hsecond.parts hsecond.name] at hspot
    obtain ⟨-, hlast⟩ := List.append_inj' hspot rfl
    have hne : other.name ≠ path.name ++ suffix :=
      SourceFilter.ne_of_isSource hfilterSuffix hempty hsecond.isSource
    exact absurd (List.singleton_inj.1 hlast).symm hne

theorem Concerns.setting (hfiles : Concerns config request world files) {processor : Processor}
    (hprocessor : Processor.make config (some store) = .ok processor)
    (hreversible : store.Reversible (store.newSession (.str "fix") world.now).id files world) :
    BackupStore.Setting processor store (store.newSession (.str "fix") world.now) files
      { world with session := none } := by
  have hworld := hreversible.world
  have hconfig : processor.config = config := by
    obtain ⟨strategy, -, hmake⟩ := bind_eq_ok_iff.1 hprocessor
    rw [← Except.ok.inj hmake]
  obtain ⟨filter, -, hfound⟩ := hfiles.found
  exact {
    world := ⟨hworld.workingDirectory, hworld.names, hworld.distinct⟩
    unused := hreversible.unused
    noMetadata := hreversible.noMetadata
    noScratch := hreversible.noScratch
    earlier := hreversible.earlier
    apart := hreversible.apart
    way := hreversible.way
    id := store.sessionName_newSession (store.isName_newSession world.now)
    path := BackupStore.newSession_directory (store.isName_newSession world.now)
    files := fun path hpath =>
      have hfinds := SourceFilter.finds_of_mem hworld hfound hpath
      ⟨hfinds.parts, hfinds.name, hfinds.file⟩
    sidecars := fun path hpath beside hbeside other hother hspot =>
      hfiles.sidecars hworld hconfig hpath hbeside hother hspot }

/-- **A run of fixes can be undone.**  Its session can be restored, right after the run or later, and
then every file that was found holds what it held before the run. -/
theorem restore_execute (hfiles : Concerns config request world files) (hfix : request.fix = true)
    (hkeeps : KeepsBackups config store)
    (hreversible : store.Reversible (store.newSession (.str "fix") world.now).id files world)
    (h : execute config request world = (.ok report, world')) {later : World}
    (hlater : later = world' ∨ ∃ now, later = world'.later now) :
    ∃ last, store.restore (store.newSession (.str "fix") world.now).id later = (.ok true, last) ∧
      ∀ path ∈ files, ∃ content,
        world.files.contentAt (path.spot world.workingDirectory) = some content ∧
        last.files.contentAt (path.spot world.workingDirectory) = some content := by
  obtain ⟨reports, ended, hprocessed, hsame, hworking⟩ := processAll_of_execute hfiles h
  obtain ⟨processor, grown, opened, between, result, hprocessor, hgrown, hopened, hbatch, hfinal⟩ :=
    finalize_of_processAll hkeeps hfix hprocessed
  have hset := hfiles.setting hprocessor hreversible
  have hstore : processor.store = some store := by
    obtain ⟨strategy, -, hmake⟩ := bind_eq_ok_iff.1 hprocessor
    rw [← Except.ok.inj hmake]
  have hbegun := BackupStore.Undoable.opened hset rfl hgrown hopened
  obtain ⟨copies, hundoable⟩ := hbegun.processBatch hset hstore true request.dump
  rw [hbatch] at hundoable
  obtain ⟨keep, hkeep, hpos⟩ := hkeeps.keep
  obtain ⟨hkept, hspared⟩ := hundoable.saving.finalized hset.site hkeep hpos hfinal
  have hended := hkept.of_files hsame hworking
  have hlast : BackupStore.Kept store (store.newSession (.str "fix") world.now)
      world.workingDirectory copies later := by
    rcases hlater with rfl | ⟨now, rfl⟩
    · exact hended
    · exact hended.later now
  have hcontent : ∀ place, later.files.contentAt place = ended.files.contentAt place := by
    intro place
    rw [← hsame]
    rcases hlater with rfl | ⟨now, rfl⟩
    · rfl
    · exact Entry.contentAt_settle ..
  obtain ⟨restored, hrestore, hrestores⟩ := hlast.restored hset.site
  refine ⟨_, hrestore, fun path hpath => ?_⟩
  by_cases hcopied : path.spot world.workingDirectory ∈ copies.map BackupStore.Copy.place
  · obtain ⟨copy, hcopy, hplace⟩ := List.mem_map.1 hcopied
    rw [← hplace]
    exact ⟨copy.content, hundoable.asBefore copy hcopy, hrestores.contents copy hcopy⟩
  · -- A file that was not backed up was not written, and it is in no session that was removed.
    obtain ⟨-, -, file, hfile⟩ := hset.files path hpath
    have huntouched := hundoable.untouched path hpath hcopied
    have hdirectory : ¬ between.files.IsDirectoryAt (path.spot world.workingDirectory) := fun hthere =>
      absurd (hfile.symm.trans (huntouched.symm.trans hthere)) (by simp)
    have hended := hspared _ (BackupStore.spared_of_not_inSession (hset.apart path hpath) hdirectory)
    have hbefore := Entry.contentAt_of_seen hfile
    refine ⟨_, hbefore, ?_⟩
    calc restored.contentAt (path.spot world.workingDirectory)
        = later.files.contentAt (path.spot world.workingDirectory) :=
          Entry.contentAt_congr (hrestores.others _ hcopied)
      _ = ended.files.contentAt (path.spot world.workingDirectory) := hcontent _
      _ = world.files.contentAt (path.spot world.workingDirectory) :=
          Entry.contentAt_congr (hended.trans huntouched)
      _ = some file.undated := hbefore

/-! ### The last session is kept -/

section
set_option maxRecDepth 2000

open Processor

/-- Settings with backups in a directory, of which the last session is kept. -/
def backedUpIn (directory : String) : Config :=
  { textual.config with
    backup := { BackupSettings.default with
      directory := .str directory, compression := .bool false, keepSessions := .int 1 } }

/-- The store of these settings. -/
def storeIn (directory : String) : BackupStore := ⟨Path.ofText directory, .bool false, .int 1⟩

/-- The processor of these settings. -/
def processorIn (directory : String) : Processor :=
  ⟨backedUpIn directory, .text, some (storeIn directory)⟩

/-- The first session in a directory, once some files have been backed up. -/
def sessionIn (directory : String) (files : List String) : Session :=
  { firstSession with directory := (Path.ofText directory).join ⟨0, [firstSession.id]⟩, files }

/-- The metadata of this session. -/
def metadataIn (directory : String) (files : List String) : String × Entry :=
  ("session.json", .file (.text (BackupStore.metadata (sessionIn directory files)).indented.toList) none)

theorem keepsBackups_storeIn (directory : String) :
    KeepsBackups (backedUpIn directory) (storeIn directory) where
  enabled := rfl
  writes := rfl
  directory := ⟨directory, rfl, rfl⟩
  compression := rfl
  keepSessions := rfl
  keep := ⟨1, rfl, by decide⟩

theorem newSession_storeIn (directory : String) {seconds : Nat} (h : seconds = 0) :
    (storeIn directory).newSession (.str "fix") seconds = sessionIn directory [] := by
  subst h
  have hid : BackupStore.sessionMark ++ Timestamp.ofSeconds 0 ++
      (if (Json.str "fix").truthy then "_" ++ (Json.str "fix").plain else "") =
        firstSession.id := id_firstSession
  rw [BackupStore.newSession, hid, ofText_firstSession, ofSeconds_firstSession]
  rfl

/-- Where there is one session, none is removed. -/
theorem finalize_of_single {directory : String} {session : Session} {written : World}
    {entry : String × Entry} (hsession : world.session = some session)
    (hwrite : world.writeText (session.directory.join BackupStore.metadataFile)
      (BackupStore.metadata session).indented.toList = .ok written)
    (hentries : (storeIn directory).sessionEntries written = .ok [entry]) :
    (storeIn directory).finalize world =
      (.ok (some session.directory), { written with session := none }) := by
  have hsorted : BackupStore.newestFirst [entry] = [entry] := List.mergeSort_singleton entry
  have hwritten : Run.writeText (session.directory.join BackupStore.metadataFile)
      (BackupStore.metadata session).indented.toList world = (.ok (), written) :=
    Run.writeText_iff.2 hwrite
  have hremoved : (storeIn directory).removeOld written = (.ok 0, written) := by
    rw [BackupStore.removeOld, Run.bind_ok (Run.read_iff.2 ⟨hentries, rfl⟩), hsorted]
    rfl
  rw [BackupStore.finalize, Run.get_bind, hsession]
  refine (Run.bind_ok hwritten _).trans ?_
  exact Run.bind_ok hremoved _

/-- Of two sessions the one that was changed before is removed. -/
theorem finalize_of_pair {directory : String} {session : Session} {written : World}
    {first second : String × Entry} {time : Nat} (hsession : world.session = some session)
    (hwrite : world.writeText (session.directory.join BackupStore.metadataFile)
      (BackupStore.metadata session).indented.toList = .ok written)
    (hentries : (storeIn directory).sessionEntries written = .ok [first, second])
    (hfirst : first.2.changed = some time) (hsecond : second.2.changed = none)
    (hremove : written.removeTree ((storeIn directory).directory.join ⟨0, [first.1]⟩) = .ok last) :
    (storeIn directory).finalize world =
      (.ok (some session.directory), { last with session := none }) := by
  have hsorted : BackupStore.newestFirst [first, second] = [second, first] := by
    simp [BackupStore.newestFirst, List.mergeSort, List.MergeSort.Internal.splitInTwo, hfirst,
      hsecond, ChangeTime.le]
  have hwritten : Run.writeText (session.directory.join BackupStore.metadataFile)
      (BackupStore.metadata session).indented.toList world = (.ok (), written) :=
    Run.writeText_iff.2 hwrite
  have hgone : Run.removeTree ((storeIn directory).directory.join ⟨0, [first.1]⟩) written =
      (.ok (), last) := Run.change_iff.2 hremove
  have hremoved : (storeIn directory).removeOld written = (.ok 1, last) := by
    rw [BackupStore.removeOld, Run.bind_ok (Run.read_iff.2 ⟨hentries, rfl⟩), hsorted]
    exact (Run.bind_ok ((Run.bind_ok hgone _).trans rfl) _).trans rfl
  rw [BackupStore.finalize, Run.get_bind, hsession]
  refine (Run.bind_ok hwritten _).trans ?_
  exact Run.bind_ok hremoved _

/-! ### A file that is fixed -/

/-- A request to fix a file. -/
def fixOf (path : Path) : Request := { path, fix := true }

/-- The directory of the file with some others and that of the session in progress. -/
def appWorld (text : Text) (others inside : List (String × Entry)) (files : List String) : World :=
  { directoryWorld text (others ++ [(".backups", .directory [(firstSession.id,
      .directory inside none)] none)]) with session := some (sessionIn ".backups" files) }

/-- The dump of the file's tree. -/
def appDump : String × Entry :=
  ("App.tsx.estree.json", .file (.text (program buttonLastApp.body).compact.toList) none)

/-- The copy of the file. -/
def appCopy : String × Entry := ("App.tsx", .file (.text buttonLastApp.text) none)

/-- The directory when the session is opened. -/
def openedApp : World := appWorld buttonLastApp.text [appDump] [] []

/-- The directory when the file is fixed. -/
def fixedApp (log : List LogRecord) : World :=
  { appWorld titleLastApp.text [] [appCopy] ["/App.tsx"] with log }

/-- The report on the file. -/
def appReport : Report :=
  fixReport appPath ⟨titleLastApp.text, [], 1⟩ (some ⟨0, [".backups", firstSession.id, "App.tsx"]⟩)

theorem concerns_fixApp :
    Concerns (backedUpIn ".backups") (fixOf appPath) (dumpWorld buttonLastApp) [appPath] where
  found := ⟨_, rfl, rfl⟩
  ne_nil := List.cons_ne_nil _ _
  single := Or.inl rfl

theorem writeFixed_openedApp (log : List LogRecord) : ∃ log',
    (processorIn ".backups").writeFixed appPath titleLastApp.text { openedApp with log } =
      (.ok (some ⟨0, [".backups", firstSession.id, "App.tsx"]⟩), fixedApp log') := by
  let start : World := { openedApp with log }
  have hmade : start.makeDirectories ⟨0, [".backups", firstSession.id]⟩ = .ok start := rfl
  have hcopied : start.copyFile appPath ⟨0, [".backups", firstSession.id, "App.tsx"]⟩ =
      .ok { start with files := (appWorld buttonLastApp.text [appDump] [appCopy] []).files } := rfl
  have hthere : start.pathExists appPath = .ok true := rfl
  have hsession : start.session = some (sessionIn ".backups" []) := rfl
  have hbackup := BackupStore.backupFile_of_copied (storeIn ".backups") hsession hthere rfl
    List.not_mem_nil hmade hcopied
  exact ⟨_, writeFixed_of_backUp hbackup rfl⟩

/-- The file is fixed, and the session has a copy of it. -/
theorem processBatch_openedApp : ∃ log,
    (processorIn ".backups").processBatch [appPath] true none openedApp =
      (.ok [appReport], fixedApp log) := by
  have hfile : openedApp.HasFile appPath ["App.tsx"] (.file (.text buttonLastApp.text) none) :=
    .of_seen rfl rfl rfl
  have hdump : openedApp.HasFile ⟨0, ["App.tsx.estree.json"]⟩ ["App.tsx.estree.json"] appDump.2 :=
    .of_seen rfl rfl rfl
  obtain ⟨log, hleaves⟩ : ∃ log, (processorIn ".backups").Leaves appPath none openedApp
      ⟨titleLastApp.text, [], 1⟩ { openedApp with log } :=
    @leaves_beside (backedUpIn ".backups") openedApp rfl rfl rfl _ _ _ rfl _ _ hfile hdump
  obtain ⟨log', hwrite⟩ := writeFixed_openedApp log
  have hreport : (processorIn ".backups").processFile appPath true none openedApp =
      (.ok appReport, fixedApp log') := hleaves.processFile_fixed rfl hwrite
  refine ⟨log', ?_⟩
  rw [processBatch, List.mapM_cons, Run.bind_ok hreport]
  rfl

/-- The file is fixed by a run that ends its session. -/
theorem execute_fixApp : ∃ world',
    execute (backedUpIn ".backups") (fixOf appPath) (dumpWorld buttonLastApp) =
      (.ok (summary appPath [appReport]), world') ∧
    world'.files.contentAt ["App.tsx"] = some (.file (.text titleLastApp.text) none) := by
  obtain ⟨log, hbatch⟩ := processBatch_openedApp
  let grown : World := directoryWorld buttonLastApp.text [appDump, (".backups", .directory [] none)]
  let written : World := { appWorld titleLastApp.text []
    [appCopy, metadataIn ".backups" ["/App.tsx"]] ["/App.tsx"] with log }
  have hgrown : (dumpWorld buttonLastApp).makeDirectories (storeIn ".backups").directory =
      .ok grown := rfl
  have hnew : (storeIn ".backups").newSession (.str "fix") (dumpWorld buttonLastApp).now =
      sessionIn ".backups" [] := newSession_storeIn _ rfl
  have hopened : grown.makeDirectories ((storeIn ".backups").newSession (.str "fix")
      (dumpWorld buttonLastApp).now).directory = .ok { openedApp with session := none } := by
    rw [hnew]
    rfl
  have hsession : (fixedApp log).session = some (sessionIn ".backups" ["/App.tsx"]) :=
    rfl
  have hfinal : (storeIn ".backups").finalize (fixedApp log) =
      (.ok (some (sessionIn ".backups" ["/App.tsx"]).directory), { written with session := none }) :=
    finalize_of_single hsession rfl rfl
  have hprocessed : processAll (backedUpIn ".backups") (fixOf appPath) [appPath]
      { dumpWorld buttonLastApp with session := none } =
        (.ok [appReport], { written with session := none }) := by
    refine processAll_of_finalize (keepsBackups_storeIn ".backups") rfl rfl hgrown hopened ?_ hfinal
    rw [hnew]
    exact hbatch
  obtain ⟨world', hworld', hfiles, -⟩ := execute_of_processAll concerns_fixApp hprocessed
  refine ⟨world', hworld', ?_⟩
  rw [hfiles]
  rfl

/-- The way to the sessions does not lead through one of them. -/
theorem not_prefix_backups (count : Nat) (name : String) :
    ¬ (storeIn ".backups").base [] ++ [name] <+:
      ((storeIn ".backups").directory.upTo count).spot [] := by
  intro hprefix
  cases count with
  | zero => exact (by decide : ¬ 2 ≤ 0) hprefix.length_le
  | succ count =>
    have hall : (storeIn ".backups").directory.upTo (count + 1) = ⟨0, [".backups"]⟩ :=
      congrArg (Path.mk 0) (List.take_of_length_le (Nat.le_add_left 1 count))
    rw [hall] at hprefix
    exact (by decide : ¬ 2 ≤ 1) hprefix.length_le

theorem reversible_fixApp :
    (storeIn ".backups").Reversible firstSession.id [appPath] (dumpWorld buttonLastApp) where
  world := .of_tidy rfl (Entry.tidy_files (by decide) (by decide) (by decide))
  unused := rfl
  noMetadata := rfl
  noScratch := List.forall_mem_singleton.2 fun copy hcopy file => by
    obtain rfl : copyPath = copy := Except.ok.inj hcopy
    exact fun hfile => Option.some_ne_none (some file) (Eq.symm hfile)
  earlier members changed hmembers := absurd hmembers (Option.some_ne_none _).symm
  apart := List.forall_mem_singleton.2 fun ⟨_, _, hprefix, _⟩ =>
    (by decide : ¬ 2 ≤ 1) hprefix.length_le
  way := fun count name _ => not_prefix_backups count name

/-- The file holds what it held before it was fixed once the session is restored, at any later
time. -/
theorem restore_execute_fixApp :
    Concerns (backedUpIn ".backups") (fixOf appPath) (dumpWorld buttonLastApp) [appPath] ∧
      KeepsBackups (backedUpIn ".backups") (storeIn ".backups") ∧
      (storeIn ".backups").Reversible firstSession.id [appPath] (dumpWorld buttonLastApp) ∧
      ∃ report world', execute (backedUpIn ".backups") (fixOf appPath) (dumpWorld buttonLastApp) =
          (.ok report, world') ∧
        world'.files.contentAt ["App.tsx"] = some (.file (.text titleLastApp.text) none) ∧
        ∀ now, ∃ last, (storeIn ".backups").restore firstSession.id (world'.later now) =
            (.ok true, last) ∧
          last.files.contentAt ["App.tsx"] = some (.file (.text buttonLastApp.text) none) := by
  obtain ⟨world', hrun, hfixed⟩ := execute_fixApp
  refine ⟨concerns_fixApp, keepsBackups_storeIn _, reversible_fixApp, _, world', hrun, hfixed,
    fun now => ?_⟩
  have hnew : (storeIn ".backups").newSession (.str "fix") (dumpWorld buttonLastApp).now =
      sessionIn ".backups" [] := newSession_storeIn _ rfl
  have hreversible := reversible_fixApp
  obtain ⟨last, hrestore, hcontents⟩ := restore_execute concerns_fixApp rfl
    (keepsBackups_storeIn ".backups") (hnew ▸ reversible_fixApp) hrun (Or.inr ⟨now, rfl⟩)
  rw [hnew] at hrestore
  obtain ⟨content, hbefore, hafter⟩ := hcontents appPath (List.mem_singleton_self _)
  exact ⟨last, hrestore, hafter.trans (hbefore.symm.trans rfl)⟩

/-! ### Where the sessions are -/

/-- A directory with an empty source file and the dump of its tree. -/
def emptySource : Entry :=
  .directory [("App.tsx", .file (.text []) (some 0)),
    ("App.tsx.estree.json", .file (.text (program []).compact.toList) (some 0))] (some 0)

/-- A world with some entries at the root. -/
def rootWorld (members : List (String × Entry)) (changed : ChangeTime) : World :=
  { directoryWorld [] [] with files := .directory members changed }

theorem tidy_emptySource : emptySource.Tidy :=
  Entry.tidy_files (by decide) (by decide) (by decide)

/-- The path of a source file in a directory. -/
def sourceIn (folder : String) : Path := ⟨0, [folder, "App.tsx"]⟩

/-- There is nothing to fix in an empty file, and the session is ended. -/
theorem execute_empty {directory folder : String} {grown opened : World} {result : Option Path}
    (hconcerns : Concerns (backedUpIn directory) (fixOf (sourceIn folder)) world [sourceIn folder])
    (hbeside : (processorIn directory).sidecar (sourceIn folder) =
      .ok ⟨0, [folder, "App.tsx.estree.json"]⟩)
    (hnow : world.now = 0)
    (hgrown : ({ world with session := none } : World).makeDirectories (storeIn directory).directory =
      .ok grown)
    (hopened : grown.makeDirectories (sessionIn directory []).directory = .ok opened)
    (hsource : opened.fileAt (sourceIn folder) = .ok (.file (.text []) (some 0)))
    (hdump : opened.fileAt ⟨0, [folder, "App.tsx.estree.json"]⟩ =
      .ok (.file (.text (program []).compact.toList) (some 0)))
    (hfinal : (storeIn directory).finalize { opened with session := some (sessionIn directory []) } =
      (.ok result, last)) :
    ∃ report world', execute (backedUpIn directory) (fixOf (sourceIn folder)) world =
        (.ok report, world') ∧
      world'.files = last.files ∧ world'.workingDirectory = last.workingDirectory := by
  generalize hbegun : ({ opened with session := some (sessionIn directory []) } : World) = begun
    at hfinal
  have hfile : begun.fileAt (sourceIn folder) = .ok (.file (.text []) (some 0)) :=
    hbegun ▸ hsource
  have htext : begun.readText (sourceIn folder) = .ok [] := by
    rw [World.readText, hfile]
    rfl
  have hjson : begun.fileAt ⟨0, [folder, "App.tsx.estree.json"]⟩ =
    .ok (.file (.text (program []).compact.toList) (some 0)) := hbegun ▸ hdump
  have hread : begun.readText ⟨0, [folder, "App.tsx.estree.json"]⟩ =
      .ok (program []).compact.toList := by
    rw [World.readText, hjson]
    exact congrArg Except.ok (Json.unifyLineEnds_compact isPlain_empty)
  have hthere : begun.pathExists ⟨0, [folder, "App.tsx.estree.json"]⟩ = .ok true := by
    obtain ⟨place, hplace⟩ := World.fileAt_eq_ok_iff.1 hjson
    exact hplace.pathExists
  have hstrictly : (processorIn directory).processStrictly (sourceIn folder) true none begun =
      (.ok { path := sourceIn folder, status := .clean }, begun) :=
    processStrictly_clean htext hbeside hthere hread isPlain_empty rfl rfl true
  have hprocessed : (processorIn directory).processFile (sourceIn folder) true none begun =
      (.ok { path := sourceIn folder, status := .clean }, begun) := processFile_done hstrictly
  have hbatch : (processorIn directory).processBatch [sourceIn folder] true none begun =
      (.ok [{ path := sourceIn folder, status := .clean }], begun) := by
    rw [processBatch, List.mapM_cons, Run.bind_ok hprocessed]
    rfl
  have hnew : (storeIn directory).newSession (.str "fix") world.now = sessionIn directory [] :=
    newSession_storeIn _ hnow
  have hall : processAll (backedUpIn directory) (fixOf (sourceIn folder)) [sourceIn folder]
      { world with session := none } =
        (.ok [{ path := sourceIn folder, status := .clean }], last) := by
    refine processAll_of_finalize (keepsBackups_storeIn directory) rfl rfl hgrown (hnew ▸ hopened) ?_
      hfinal
    rw [hnew, hbegun]
    exact hbatch
  exact ⟨_, execute_of_processAll hconcerns hall⟩

/-- The world with a directory that has the name of a session. -/
def mistakenWorld : World := rootWorld [("fix_login", emptySource)] (some 0)

theorem concerns_mistaken : Concerns (backedUpIn ".") (fixOf (sourceIn "fix_login")) mistakenWorld
    [sourceIn "fix_login"] :=
  ⟨⟨_, rfl, rfl⟩, List.cons_ne_nil _ _, Or.inl rfl⟩

theorem execute_mistaken : ∃ report world',
    execute (backedUpIn ".") (fixOf (sourceIn "fix_login")) mistakenWorld = (.ok report, world') ∧
    world'.files = .directory [(firstSession.id, .directory [metadataIn "." []] none)] none ∧
    world'.workingDirectory = [] := by
  let opened : World :=
    rootWorld [("fix_login", emptySource), (firstSession.id, .directory [] none)] none
  let written : World := { rootWorld [("fix_login", emptySource),
    (firstSession.id, .directory [metadataIn "." []] none)] none with
      session := some (sessionIn "." []) }
  have hgrown : ({ mistakenWorld with session := none } : World).makeDirectories
      (storeIn ".").directory = .ok mistakenWorld := rfl
  have hopened : mistakenWorld.makeDirectories (sessionIn "." []).directory = .ok opened := rfl
  have hwrite : ({ opened with session := some (sessionIn "." []) } : World).writeText
      ((sessionIn "." []).directory.join BackupStore.metadataFile)
      (BackupStore.metadata (sessionIn "." [])).indented.toList = .ok written := rfl
  have hfinal : (storeIn ".").finalize { opened with session := some (sessionIn "." []) } =
      (.ok (some (sessionIn "." []).directory), _) :=
    finalize_of_pair rfl hwrite rfl rfl rfl rfl
  obtain ⟨report, world', hrun, hfiles, hworking⟩ :=
    execute_empty concerns_mistaken rfl rfl hgrown hopened rfl rfl hfinal
  exact ⟨report, world', hrun, hfiles, hworking⟩

theorem site_mistaken : (storeIn ".").Site (sessionIn "." []) [] where
  names name hname := absurd hname List.not_mem_nil
  id := ⟨by decide, by decide⟩
  path := rfl
  way count name _ hprefix := by
    have hroot : (storeIn ".").directory.upTo count = ⟨0, []⟩ := congrArg (Path.mk 0) List.take_nil
    rw [hroot] at hprefix
    exact (by decide : ¬ 1 ≤ 0) hprefix.length_le

theorem kept_mistaken (hfiles : world.files =
      .directory [(firstSession.id, .directory [metadataIn "." []] none)] none)
    (hworking : world.workingDirectory = []) :
    BackupStore.Kept (storeIn ".") (sessionIn "." []) [] [] world where
  stored := ⟨_, .directory (congrArg (Entry.at? [firstSession.id]) hfiles) {
    usable := fun copy hcopy => absurd hcopy List.not_mem_nil
    readable := ⟨rfl, by decide, by decide⟩
    metadata := rfl
    copies := fun copy hcopy => absurd hcopy List.not_mem_nil }⟩
  standing := ⟨hworking, ⟨by decide, fun part hpart => absurd hpart List.not_mem_nil,
    fun count hcount => absurd hcount (Nat.not_lt_zero _)⟩, by rw [hfiles]; rfl⟩
  origin copy hcopy := absurd hcopy List.not_mem_nil

/-- A way to the sessions through the directory of a session. -/
def winding : String := ".backups/fix_old/.."

/-- The world with this way. -/
def windingWorld : World := rootWorld [("src", emptySource),
  (".backups", .directory [("fix_old", .directory [] (some 0))] (some 0))] (some 0)

/-- The world when a session is opened there. -/
def windingOpened : World := rootWorld [("src", emptySource), (".backups", .directory [
  ("fix_old", .directory [] (some 0)), (firstSession.id, .directory [] none)] none)] (some 0)

/-- The tree when the session is ended: the way is not there any more. -/
def windingEnded : Entry := .directory [("src", emptySource), (".backups", .directory [
  (firstSession.id, .directory [metadataIn winding []] none)] none)] (some 0)

theorem makeDirectories_winding :
    windingWorld.makeDirectories (sessionIn winding []).directory = .ok windingOpened := rfl

theorem finalize_winding :
    (storeIn winding).finalize { windingOpened with session := some (sessionIn winding []) } =
      (.ok (some (sessionIn winding []).directory), { windingOpened with files := windingEnded }) := by
  let written : World := { rootWorld [("src", emptySource), (".backups", .directory [
    ("fix_old", .directory [] (some 0)), (firstSession.id,
      .directory [metadataIn winding []] none)] none)] (some 0) with
        session := some (sessionIn winding []) }
  have hwrite : ({ windingOpened with session := some (sessionIn winding []) } : World).writeText
      ((sessionIn winding []).directory.join BackupStore.metadataFile)
      (BackupStore.metadata (sessionIn winding [])).indented.toList = .ok written := rfl
  have hgone : written.removeTree ((storeIn winding).directory.join ⟨0, ["fix_old"]⟩) =
      .ok { written with files := windingEnded } := rfl
  have hentries : (storeIn winding).sessionEntries written = .ok [
      ("fix_old", .directory [] (some 0)),
      (firstSession.id, .directory [metadataIn winding []] none)] := rfl
  exact finalize_of_pair rfl hwrite hentries rfl rfl hgone

/-- Without the way the session is not found. -/
theorem restore_winding (hfiles : world.files = windingEnded) (hworking : world.workingDirectory = []) :
    ∃ last, (storeIn winding).restore (sessionIn winding []).id world = (.ok false, last) := by
  have hid : BackupStore.SessionName (sessionIn winding []).id := ⟨by decide, by decide⟩
  have hsession : world.pathExists ((storeIn winding).directory.join
      (Path.ofText (sessionIn winding []).id)) = .ok false := by
    rw [Path.ofText_of_isName hid.toIsName, World.pathExists, World.look, World.place, hfiles,
      hworking]
    rfl
  have harchive : world.pathExists ((storeIn winding).directory.join
      (Path.ofText ((sessionIn winding []).id ++ BackupStore.archiveEnd))) = .ok false := by
    rw [Path.ofText_of_isName hid.archive.toIsName, World.pathExists, World.look, World.place, hfiles,
      hworking]
    rfl
  refine ⟨_, BackupStore.restore_of_missing ?_ ?_⟩
  · rw [BackupStore.unpackMissing, Run.bind_ok (Run.pathExists_iff.2 ⟨hsession, rfl⟩)]
    exact (Run.bind_ok (Run.pathExists_iff.2 ⟨harchive, rfl⟩) _).trans rfl
  · rw [Path.ofText_of_isName hid.toIsName, World.pathExists, World.look, World.place, hfiles,
      hworking]
    rfl

theorem concerns_winding : Concerns (backedUpIn winding) (fixOf (sourceIn "src")) windingWorld
    [sourceIn "src"] :=
  ⟨⟨_, rfl, rfl⟩, List.cons_ne_nil _ _, Or.inl rfl⟩

theorem execute_winding : ∃ report world',
    execute (backedUpIn winding) (fixOf (sourceIn "src")) windingWorld = (.ok report, world') ∧
      world'.files = windingEnded ∧ world'.workingDirectory = [] := by
  have hgrown : ({ windingWorld with session := none } : World).makeDirectories
      (storeIn winding).directory = .ok windingWorld := rfl
  obtain ⟨report, world', hrun, hfiles, hworking⟩ := execute_empty concerns_winding rfl rfl hgrown
    makeDirectories_winding rfl rfl finalize_winding
  exact ⟨report, world', hrun, hfiles, hworking⟩

theorem ordinary_mistaken :
    (storeIn ".").Ordinary firstSession.id [sourceIn "fix_login"] mistakenWorld where
  world := .of_tidy rfl (Entry.tidy_singleton (by decide) tidy_emptySource)
  unused := rfl
  noMetadata := rfl
  noScratch := List.forall_mem_singleton.2 fun copy hcopy file hfile => by
    obtain rfl : (⟨0, ["fix_login", ".App.tsx.styled-sort.tsx"]⟩ : Path) = copy :=
      Except.ok.inj hcopy
    exact Option.some_ne_none (some file) (Eq.symm hfile)
  earlier members changed hmembers := by
    obtain ⟨rfl, -⟩ := Entry.directory.inj (Option.some.inj hmembers)
    exact List.forall_mem_singleton.2 fun _ htime => Option.some_ne_none 0 htime

theorem ordinary_winding : (storeIn winding).Ordinary firstSession.id [sourceIn "src"]
    windingWorld where
  world := .of_tidy rfl (Entry.tidy_directory (by decide) (List.forall_mem_cons.2
    ⟨⟨by decide, tidy_emptySource⟩, List.forall_mem_singleton.2 ⟨by decide,
      Entry.tidy_singleton (by decide) Entry.tidy_empty⟩⟩))
  unused := rfl
  noMetadata := rfl
  noScratch := List.forall_mem_singleton.2 fun copy hcopy file hfile => by
    obtain rfl : (⟨0, ["src", ".App.tsx.styled-sort.tsx"]⟩ : Path) = copy := Except.ok.inj hcopy
    exact Option.some_ne_none (some file) (Eq.symm hfile)
  earlier members changed hmembers := by
    obtain ⟨rfl, -⟩ := Entry.directory.inj (Option.some.inj hmembers)
    exact List.forall_mem_singleton.2 fun _ htime => Option.some_ne_none 0 htime

/-- **A file that is taken for a part of a session is lost,** and the session of a run cannot be
restored when the way to it leads through a session that is removed. -/
theorem restore_execute_lost :
    (Concerns (backedUpIn ".") (fixOf (sourceIn "fix_login")) mistakenWorld
        [sourceIn "fix_login"] ∧
      KeepsBackups (backedUpIn ".") (storeIn ".") ∧
      (storeIn ".").newSession (.str "fix") mistakenWorld.now = sessionIn "." [] ∧
      (storeIn ".").Ordinary (sessionIn "." []).id [sourceIn "fix_login"] mistakenWorld ∧
      ¬ (sourceIn "fix_login").spot [] <+: (storeIn ".").base [] ∧
      ∃ report world' last,
        execute (backedUpIn ".") (fixOf (sourceIn "fix_login")) mistakenWorld =
          (.ok report, world') ∧
        (storeIn ".").restore (sessionIn "." []).id world' = (.ok true, last) ∧
        mistakenWorld.files.contentAt ["fix_login", "App.tsx"] = some (.file (.text []) none) ∧
        last.files.contentAt ["fix_login", "App.tsx"] = none) ∧
    (Concerns (backedUpIn winding) (fixOf (sourceIn "src")) windingWorld
        [sourceIn "src"] ∧
      KeepsBackups (backedUpIn winding) (storeIn winding) ∧
      (storeIn winding).newSession (.str "fix") windingWorld.now =
        sessionIn winding [] ∧
      (storeIn winding).Ordinary (sessionIn winding []).id
        [sourceIn "src"] windingWorld ∧
      ¬ (sourceIn "src").spot [] <+: (storeIn winding).base [] ∧
      ∃ report world' last,
        execute (backedUpIn winding) (fixOf (sourceIn "src")) windingWorld =
          (.ok report, world') ∧
        (storeIn winding).restore (sessionIn winding []).id world' =
          (.ok false, last)) := by
  constructor
  · obtain ⟨report, world', hrun, hfiles, hworking⟩ := execute_mistaken
    obtain ⟨files, hrestore, hrestores⟩ := (kept_mistaken hfiles hworking).restored site_mistaken
    have hgone : world'.files.seen ["fix_login", "App.tsx"] = none := by
      rw [hfiles]
      rfl
    have hlost := (hrestores.others ["fix_login", "App.tsx"] List.not_mem_nil).trans hgone
    refine ⟨concerns_mistaken, keepsBackups_storeIn _, newSession_storeIn _ rfl, ordinary_mistaken,
      by decide, report, world', _, hrun, hrestore, rfl, ?_⟩
    rw [Entry.contentAt, hlost]
    rfl
  · obtain ⟨report, world', hrun, hfiles, hworking⟩ := execute_winding
    obtain ⟨last, hrestore⟩ := restore_winding hfiles hworking
    exact ⟨concerns_winding, keepsBackups_storeIn _, newSession_storeIn _ rfl, ordinary_winding,
      by decide, report, world', last, hrun, hrestore⟩

end

end CheckCommand
end UsageOrder
