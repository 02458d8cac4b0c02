import UsageOrder.Proofs.Untouched

/-!
# A result that was written

When a file is reported as fixed, three files may have changed and no other one: the file has the text
that the last pass has left, the dump beside it is gone, and the session in progress has a copy of the
file as it was (`Processor.processFile_written`).

This needs a suffix of dumps.  With an empty one the dump beside a file is the file itself, and it is
removed right after it was written (`Processor.processFile_discarded`).
-/

namespace UsageOrder

/-! ### Where copies are in other worlds -/

namespace World

variable {world world' : World} {source target : Path}

theorem isDirectory_iff {path : Path} : world.isDirectory path = true ↔
    ∃ place, world.place path = .ok place ∧ world.files.IsDirectoryAt place := by
  rw [isDirectory, at?]
  cases world.place path with
  | error cause => simp
  | ok place =>
    simp only [Except.ok.injEq, exists_eq_left', Option.any_eq_true]
    rw [Entry.isDirectoryAt_iff]
    constructor
    · rintro ⟨entry, hentry, hdirectory⟩
      cases entry with
      | directory members changed => exact ⟨members, changed, hentry⟩
      | _ => exact absurd hdirectory (by simp [Entry.isDirectory])
    · rintro ⟨members, changed, hentry⟩
      exact ⟨_, hentry, rfl⟩

/-- A copy goes to the same path in a world with the same directories. -/
theorem copyTarget_congr
    (h : ∀ place, world.files.IsDirectoryAt place ↔ world'.files.IsDirectoryAt place)
    (hdirectory : world.workingDirectory = world'.workingDirectory) (source target : Path) :
    world.copyTarget source target = world'.copyTarget source target := by
  have hdirectories : world.isDirectory target = world'.isDirectory target := by
    rw [Bool.eq_iff_iff, isDirectory_iff, isDirectory_iff]
    simp only [place_congr h hdirectory, h]
  rw [copyTarget, copyTarget, hdirectories]

theorem copyTarget_name (world : World) (h : target.name = source.name) :
    (world.copyTarget source target).name = source.name := by
  rw [copyTarget]
  split_ifs
  · rw [Path.join, if_pos rfl, Path.name_concat]
  · exact h

theorem Writable.of_copyTarget {spot : List String}
    (h : world.Writable (world.copyTarget source target) spot)
    (hsame : ∀ place, world.files.IsDirectoryAt place ↔ world'.files.IsDirectoryAt place)
    (hdirectory : world.workingDirectory = world'.workingDirectory) :
    world'.Writable (world'.copyTarget source target) spot := by
  rw [← copyTarget_congr hsame hdirectory]
  exact h.of_place hsame hdirectory

end World

/-! ### The copy of a file -/

namespace BackupStore

variable {store : BackupStore} {path : Path} {world ready last : World} {session : Session}
  {backup : Option Path} {place : List String} {file : Entry}

/-- A session that lists a file is in progress. -/
theorem Current.inProgress (h : store.Current world session ready)
    (hlisted : (path.resolve ready.workingDirectory).toText ∈ session.files) :
    world.session = some session ∧
      (path.resolve world.workingDirectory).toText ∈ session.files := by
  cases h with
  | running inProgress => exact ⟨inProgress, hlisted⟩
  | opened idle made => exact absurd hlisted List.not_mem_nil

/-- **A file that is there is copied,** unless the session in progress lists it. -/
theorem BackedUp.copied_or_listed (h : store.BackedUp path world (.ok backup, last))
    (hfile : world.HasFile path place file) (hparts : path.parts ≠ []) :
    last.HasFile path place file ∧
    ∃ copy, backup = some copy ∧ copy.parts ≠ [] ∧ copy.name = path.name ∧
      ((∃ spot, spot ≠ place ∧ last.Writable (last.copyTarget path copy) spot ∧
          ∀ other found, last.files.seen other = some (some found) ↔
            if other = spot then file.undated = found
            else world.files.seen other = some (some found)) ∨
        world.SameFiles last ∧ ∃ session, world.session = some session ∧
          (path.resolve world.workingDirectory).toText ∈ session.files) := by
  generalize houtcome : (Except.ok backup : Except Fault (Option Path)) = outcome at h
  cases h with
  | fault begun => exact absurd houtcome (by simp)
  | absent current gone =>
    exact absurd ((current.hasFile hfile).pathExists.symm.trans gone) (by simp)
  | @listed session ready current known =>
    obtain rfl := Except.ok.inj houtcome
    obtain ⟨hcopy, hname⟩ := copyPath_spec session last.workingDirectory hparts
      (hfile.name_ne_dots hparts)
    exact ⟨current.hasFile hfile, _, rfl, hcopy, hname,
      Or.inr ⟨current.sameFiles, session, current.inProgress known⟩⟩
  | @copied session ready grown between current new made copied =>
    obtain rfl := Except.ok.inj houtcome
    obtain ⟨hcopy, hname⟩ := copyPath_spec session ready.workingDirectory hparts
      (hfile.name_ne_dots hparts)
    have hgrows := (World.grows_of_makeDirectories made).2
    have hgrown : grown.HasFile path place file := hgrows.hasFile (current.hasFile hfile)
    obtain ⟨place', file', spot, hfile', hspot, hne, rfl⟩ := World.copyFile_eq_ok_iff.1 copied
    obtain rfl : place' = place := Except.ok.inj (hfile'.leads.symm.trans hgrown.leads)
    obtain rfl : file' = file :=
      Option.some.inj (Option.some.inj (hfile'.seen.symm.trans hgrown.seen))
    have htarget := copyTarget_parts grown path hcopy
    have hleaf := Entry.leaf?_undated hfile'.leaf?_eq
    have hsame : ∀ other, grown.files.IsDirectoryAt other ↔
        (grown.files.put spot file'.undated).IsDirectoryAt other :=
      fun _ => (hspot.isDirectoryAt_put_iff htarget hleaf).symm
    refine ⟨⟨hfile'.toWritable.of_place hsame rfl, ?_⟩, _, rfl, hcopy, hname,
      Or.inl ⟨spot, hne, hspot.of_copyTarget hsame rfl, fun other found => ?_⟩⟩
    · rw [hspot.seen_put htarget hleaf, if_neg (Ne.symm hne), hfile'.seen]
    · rw [hspot.seen_put htarget hleaf]
      split_ifs with hother
      · simp
      · exact (current.sameFiles.trans hgrows.sameFiles) other found

/-- In a session in progress a file that is there is listed, or it is copied. -/
theorem backupFile_of_running (store : BackupStore) (hsession : world.session = some session)
    (hthere : world.pathExists path = .ok true) (hnull : path.hasNull = false) :
    store.backupFile path world = (
      if (path.resolve world.workingDirectory).toText ∈ session.files then
        return some (copyPath session world.workingDirectory path)
      else do
        Run.makeDirectories (copyPath session world.workingDirectory path).parent
        Run.copyFile path (copyPath session world.workingDirectory path)
        modify fun copied => { copied with session := some { session with
          files := session.files ++ [(path.resolve world.workingDirectory).toText] } }
        return some (copyPath session world.workingDirectory path) : Run (Option Path)) world := by
  have hresolve : Run.read (fun world => world.resolve path) world =
      (.ok (path.resolve world.workingDirectory), world) := by
    rw [Run.read_apply, World.resolve, hnull]
    rfl
  rw [backupFile, Run.bind_ok (currentSession_of_running store hsession),
    Run.bind_ok (Run.pathExists_iff.2 ⟨hthere, rfl⟩)]
  exact Run.bind_ok hresolve _

/-- A file that is listed already is not copied again. -/
theorem backupFile_of_listed (store : BackupStore) (hsession : world.session = some session)
    (hthere : world.pathExists path = .ok true) (hnull : path.hasNull = false)
    (hlisted : (path.resolve world.workingDirectory).toText ∈ session.files) :
    store.backupFile path world = (.ok (some (copyPath session world.workingDirectory path)), world) := by
  rw [backupFile_of_running store hsession hthere hnull, if_pos hlisted]
  rfl

/-- A file is not copied if there can be no directory for the copy. -/
theorem backupFile_of_barred (store : BackupStore) {fault : Fault} (hsession : world.session = some session)
    (hthere : world.pathExists path = .ok true) (hnull : path.hasNull = false)
    (hnew : (path.resolve world.workingDirectory).toText ∉ session.files)
    (hbarred : world.makeDirectories (copyPath session world.workingDirectory path).parent =
      .error fault) : store.backupFile path world = (.error fault, world) := by
  have hmake : Run.makeDirectories (copyPath session world.workingDirectory path).parent world =
      (.error fault, world) := by
    rw [Run.makeDirectories, Run.change_apply, hbarred]
  rw [backupFile_of_running store hsession hthere hnull, if_neg hnew]
  exact Run.bind_error hmake _

/-- A file that is there and not listed yet is copied. -/
theorem backupFile_of_copied (store : BackupStore) {grown : World} (hsession : world.session = some session)
    (hthere : world.pathExists path = .ok true) (hnull : path.hasNull = false)
    (hnew : (path.resolve world.workingDirectory).toText ∉ session.files)
    (hmade : world.makeDirectories (copyPath session world.workingDirectory path).parent = .ok grown)
    (hcopied : grown.copyFile path (copyPath session world.workingDirectory path) = .ok last) :
    store.backupFile path world = (.ok (some (copyPath session world.workingDirectory path)),
      { last with session := some { session with
          files := session.files ++ [(path.resolve world.workingDirectory).toText] } }) := by
  have hmake : Run.makeDirectories (copyPath session world.workingDirectory path).parent world =
      (.ok (), grown) := Run.change_iff.2 hmade
  have hcopy : Run.copyFile path (copyPath session world.workingDirectory path) grown =
      (.ok (), last) := Run.change_iff.2 hcopied
  rw [backupFile_of_running store hsession hthere hnull, if_neg hnew]
  exact (Run.bind_ok hmake _).trans (Run.bind_ok hcopy _)

end BackupStore

/-! ### The files after a result was written -/

namespace Processor

variable {processor : Processor} {path beside : Path} {text : Text} {named backup : Option Path}
  {world left ready world' : World} {place : List String} {file : Entry}

/-- **What writing a text over a file has done.** -/
structure Written (processor : Processor) (path : Path) (place : List String) (file : Entry)
    (text : Text) (backup : Option Path) (world world' : World) : Prop where
  /-- The file has the text. -/
  text : world'.HasFile path place (.file (.text text) none)
  /-- There is no dump beside the file. -/
  dump : ∃ beside, processor.sidecar path = .ok beside ∧ world'.pathExists beside = .ok false
  /-- The session in progress has a copy of the file as it was, unless it had one before. -/
  copy : ∀ store, processor.store = some store →
    (∀ session, world.session = some session →
      (path.resolve world.workingDirectory).toText ∉ session.files) →
    ∃ copy spot, backup = some copy ∧
      world'.HasFile (world'.copyTarget path copy) spot file.undated
  /-- No other file has been changed, made or removed. -/
  others : ∀ other, other ≠ place →
    (∀ beside, processor.sidecar path = .ok beside → world'.place beside ≠ .ok other) →
    (∀ copy, backup = some copy → world'.place (world'.copyTarget path copy) ≠ .ok other) →
      ∀ found, world'.files.seen other = some (some found) ↔
        world.files.seen other = some (some found)

/-- **A text is written over a file, and nothing else is lost.** -/
theorem writeFixed_written (hsuffix : processor.config.parser.astSuffix ≠ .str "")
    (hfile : world.HasFile path place file)
    (h : processor.writeFixed path text world = (.ok backup, world')) :
    processor.Written path place file text backup world world' := by
  obtain ⟨ready, place', hbackup, hplace, hdiscard⟩ := writeFixed_of_ok h
  obtain ⟨beside, hbeside, hgone, ⟨log, hlast⟩, hseen⟩ := discardSidecar_of_ok hdiscard
  obtain ⟨hparts, hparts'⟩ := parts_of_sidecar hbeside
  have htext := discardSidecar_hasFile hdiscard hsuffix (hplace.hasFile_put hparts rfl)
  have hsame := discardSidecar_isDirectoryAt_iff hdiscard
  have hother : ∀ other, other ≠ place' → world'.files.seen other = ready.files.seen other ∨
      world'.Writable beside other := by
    intro other hne
    rcases hseen other with heq | ⟨hwritable, -⟩
    · exact Or.inl (by rw [heq, hplace.seen_put hparts rfl, if_neg hne])
    · exact Or.inr (hwritable.of_place hsame (by rw [hlast]))
  have hdirectories : ∀ other, ready.files.IsDirectoryAt other ↔ world'.files.IsDirectoryAt other :=
    fun other => (hplace.isDirectoryAt_put_iff hparts rfl).symm.trans (hsame other)
  have hworking : ready.workingDirectory = world'.workingDirectory := by rw [hlast]
  rcases backUp_cases hbackup with ⟨hstore, hnone, rfl⟩ | ⟨store, hstore, hbacked⟩
  · obtain rfl : place' = place := Except.ok.inj (hplace.leads.symm.trans hfile.leads)
    refine ⟨htext, ⟨beside, hbeside, hgone⟩, fun store heq => ?_, fun other hne hnot _ found => ?_⟩
    · exact absurd (hstore.symm.trans heq) (by simp)
    · rw [(hother other hne).resolve_right fun h => hnot beside hbeside h.leads]
  · obtain ⟨hready, copy, rfl, hcopyParts, hcopyName, hcopied⟩ := hbacked.copied_or_listed hfile hparts
    obtain rfl : place' = place := Except.ok.inj (hplace.leads.symm.trans hready.leads)
    refine ⟨htext, ⟨beside, hbeside, hgone⟩, fun store heq hnew => ?_,
      fun other hne hnot hcopy found => ?_⟩
    · rcases hcopied with ⟨spot, hspotNe, hspot, hframe⟩ | ⟨-, session, hsession, hlisted⟩
      · have hspot' := hspot.of_copyTarget hdirectories hworking
        have hname : (world'.copyTarget path copy).name ≠ beside.name := by
          rw [World.copyTarget_name world' hcopyName]
          exact name_ne_of_sidecar hbeside hsuffix
        refine ⟨copy, spot, rfl, hspot', ?_⟩
        rcases hother spot hspotNe with heq | hdump
        · rw [heq]
          exact (hframe spot file.undated).2 (by rw [if_pos rfl])
        · exact absurd rfl (hspot'.place_ne hdump
            (BackupStore.copyTarget_parts world' path hcopyParts) hparts' hname)
      · exact absurd hlisted (hnew session hsession)
    · rw [(hother other hne).resolve_right fun h => hnot beside hbeside h.leads]
      rcases hcopied with ⟨spot, -, hspot, hframe⟩ | ⟨hfiles, -⟩
      · have hspotNe : other ≠ spot := by
          rintro rfl
          exact hcopy copy rfl (hspot.of_copyTarget hdirectories hworking).leads
        rw [hframe other found, if_neg hspotNe]
      · exact hfiles other found

/-- In a world in which the same is seen the same was done. -/
theorem Written.of_alike (h : processor.Written path place file text backup left world')
    (halike : world.Alike left) : processor.Written path place file text backup world world' where
  text := h.text
  dump := h.dump
  copy := by
    rw [← halike.session, ← halike.workingDirectory]
    exact h.copy
  others other hne hnot hcopy found := by
    rw [h.others other hne hnot hcopy found, halike.seen]

/-- **A file that is reported as fixed has the text that the last pass has left,** the dump beside it
is gone, its copy holds what it was, and no other file has changed. -/
theorem processFile_written {report : Report}
    (hscratch : ∀ copy place file, scratch path = .ok copy → ¬ world.HasFile copy place file)
    (hsuffix : processor.config.parser.astSuffix ≠ .str "")
    (hdry : processor.config.dryRun.truthy = false)
    (h : processor.processFile path true named world = (.ok report, world'))
    (hfixed : report.status = .fixed) :
    ∃ state left place file, processor.Leaves path named world state left ∧
      world.HasFile path place file ∧
      processor.Written path place file state.text report.backup world world' := by
  have hstrictly := processStrictly_of_status h (by simp [hfixed])
  have hends : processor.Ends path true named world.Alike world
      (processor.processStrictly path true named world) :=
    processStrictly_ends (World.tolerates_alike hscratch) true (.refl world)
  generalize processor.processStrictly path true named world = result at hends hstrictly
  cases hends with
  | fault kept => exact absurd (Prod.mk.inj hstrictly).1 (by simp)
  | report kept dry =>
    obtain rfl := Except.ok.inj (Prod.mk.inj hstrictly).1
    exact absurd (dry hfixed) (by simp [hdry])
  | @write state left asked wet leaves kept =>
    obtain ⟨backup, written, hwritten, hstrictly⟩ := Run.bind_iff.1 hstrictly
    obtain ⟨rfl, rfl⟩ := Run.pure_iff.1 hstrictly
    have ⟨source, _, _, _, _, hread, _⟩ := leaves
    obtain ⟨place, value, changed, hfile, -⟩ := World.readText_eq_ok_iff.1 hread
    exact ⟨state, left, place, _, leaves, hfile,
      (writeFixed_written hsuffix (kept.hasFile_iff.2 hfile) hwritten).of_alike kept⟩

/-! ### A session in progress -/

/-- A session in progress that has no copies yet. -/
def openSession : Session where
  id := "fix_login"
  timestamp := ""
  directory := ⟨0, [".backups", "fix_login"]⟩

/-- The settings of `textual` with a store. -/
def storing : Processor where
  config := textual.config
  strategy := textual.strategy
  store := some ⟨⟨0, [".backups"]⟩, .bool false, .int 10⟩

/-- Beside the file with the button last there are its dump and the directory of a session. -/
def sessionWorld : World where
  files := .directory [("App.tsx", .file (.text buttonLastApp.text) none),
    ("App.tsx.estree.json", .file (.text (program buttonLastApp.body).compact.toList) none),
    (".backups", .directory [("fix_login", .directory [] none)] none)] none
  workingDirectory := []
  home := ⟨1, []⟩
  environment := (dumpWorld buttonLastApp).environment
  now := 0
  parser := (dumpWorld buttonLastApp).parser
  session := some openSession

section
set_option maxRecDepth 2000

/-- A file with the button last is fixed by the dump beside it, in one pass. -/
theorem leaves_beside {config : Config} {world : World} (hrule : config.rule = textual.config.rule)
    (hfix : config.fix = .default) (hparser : config.parser = .default) (store : Option BackupStore)
    {path beside : Path} (hbeside : path.withName (path.name ++ ".estree.json") = .ok beside)
    {place dumpPlace : List String}
    (hfile : world.HasFile path place (.file (.text buttonLastApp.text) none))
    (hdump : world.HasFile beside dumpPlace
      (.file (.text (program buttonLastApp.body).compact.toList) none)) :
    ∃ log, Processor.Leaves ⟨config, .text, store⟩ path none world ⟨titleLastApp.text, [], 1⟩
      { world with log := log } := by
  have hsidecar : Processor.sidecar ⟨config, .text, store⟩ path = .ok beside := by
    rw [sidecar, hparser]
    exact hbeside
  have hcheck : config.rule.check .text buttonLastApp =
      .ok [Rule.titleBehindButton Rule.buttonLast ⟨52, 73⟩] := by
    rw [hrule]
    exact check_buttonLastApp
  have hlimit : Order.passLimit config.fix.maxFixPasses = .ok 10 := by
    rw [hfix]
    rfl
  have hnone : hasParser ⟨config, .text, store⟩ = false := by
    rw [hasParser, hparser]
    rfl
  obtain ⟨hread, hload, log, hchecked⟩ := checks_beside hsidecar hcheck hfile hdump
  refine ⟨log, { buttonLastApp with path := some path }, _, 10, _, _, hread, hload, hchecked, List.cons_ne_nil _ _, hlimit, ?_,
    Nat.one_ne_zero⟩
  rw [fixPasses, applyFixes_singleton rfl, hnone]
  rfl

theorem leaves_sessionWorld : ∃ log, storing.Leaves appPath none sessionWorld
    ⟨titleLastApp.text, [], 1⟩ { sessionWorld with log := log } :=
  leaves_beside rfl rfl rfl storing.store rfl (.of_seen rfl rfl rfl) (.of_seen rfl rfl rfl)

/-- The directory once the session has a copy of the file. -/
def copiedFiles : Entry :=
  .directory [("App.tsx", .file (.text buttonLastApp.text) none),
    ("App.tsx.estree.json", .file (.text (program buttonLastApp.body).compact.toList) none),
    (".backups", .directory [("fix_login", .directory
      [("App.tsx", .file (.text buttonLastApp.text) none)] none)] none)] none

/-- The fixed text is written, and the session gets a copy. -/
theorem writeFixed_sessionWorld (log : List LogRecord) : ∃ last,
    storing.writeFixed appPath titleLastApp.text { sessionWorld with log := log } =
      (.ok (some ⟨0, [".backups", "fix_login", "App.tsx"]⟩), last) := by
  let start : World := { sessionWorld with log := log }
  have hmade : start.makeDirectories ⟨0, [".backups", "fix_login"]⟩ = .ok start := rfl
  have hcopied : start.copyFile appPath ⟨0, [".backups", "fix_login", "App.tsx"]⟩ =
      .ok { start with files := copiedFiles } := rfl
  have hsession : start.session = some openSession := rfl
  have hthere : start.pathExists appPath = .ok true := rfl
  have hbackup := BackupStore.backupFile_of_copied ⟨⟨0, [".backups"]⟩, .bool false, .int 10⟩ hsession
    hthere rfl List.not_mem_nil hmade hcopied
  exact ⟨_, writeFixed_of_backUp hbackup rfl⟩

/-- The file is fixed, its dump is gone, and the session has the file as it was. -/
theorem processFile_written_session : ∃ report last,
    (∀ copy place file, scratch appPath = .ok copy → ¬ sessionWorld.HasFile copy place file) ∧
    storing.config.parser.astSuffix ≠ .str "" ∧ storing.config.dryRun.truthy = false ∧
    storing.processFile appPath true none sessionWorld = (.ok report, last) ∧
    report.status = .fixed ∧ ∃ state left place file,
      storing.Leaves appPath none sessionWorld state left ∧
      sessionWorld.HasFile appPath place file ∧
      storing.Written appPath place file state.text report.backup sessionWorld last := by
  obtain ⟨log, hleaves⟩ := leaves_sessionWorld
  obtain ⟨last, hwrite⟩ := writeFixed_sessionWorld log
  have hreport : storing.processFile appPath true none sessionWorld =
      (.ok (fixReport appPath ⟨titleLastApp.text, [], 1⟩
        (some ⟨0, [".backups", "fix_login", "App.tsx"]⟩)), last) :=
    hleaves.processFile_fixed rfl hwrite
  have hscratch : ∀ copy place file, scratch appPath = .ok copy →
      ¬ sessionWorld.HasFile copy place file := noScratch_of_seen rfl rfl
  have hsuffix : storing.config.parser.astSuffix ≠ .str "" :=
    fun hempty => absurd (Json.str.inj hempty) (by decide)
  exact ⟨_, last, hscratch, hsuffix, rfl, hreport, rfl,
    processFile_written hscratch hsuffix rfl hreport rfl⟩

/-- **With an empty suffix a file is its own dump:** it is reported as fixed, and it is gone. -/
theorem processFile_discarded :
    (withSuffix "").config.validate = .ok [] ∧
      (∀ copy place file, scratch appPath = .ok copy →
        ¬ (namedWorld buttonLastApp).HasFile copy place file) ∧
      ∃ report last, (withSuffix "").processFile appPath true (some dumpPath)
          (namedWorld buttonLastApp) = (.ok report, last) ∧ report.status = .fixed ∧
        (namedWorld buttonLastApp).at? appPath = some (.file (.text buttonLastApp.text) none) ∧
        last.at? appPath = none := by
  obtain ⟨log, hleaves⟩ := leaves_namedWorld ""
  obtain ⟨last, hwrite, hgone⟩ : ∃ last, (withSuffix "").writeFixed appPath titleLastApp.text
      { namedWorld buttonLastApp with log := log } = (.ok none, last) ∧ last.at? appPath = none :=
    ⟨_, rfl, rfl⟩
  exact ⟨rfl, noScratch_of_seen rfl rfl, fixReport appPath ⟨titleLastApp.text, [], 1⟩ none, last,
    hleaves.processFile_fixed rfl hwrite, rfl, rfl, hgone⟩

end

end Processor

end UsageOrder
