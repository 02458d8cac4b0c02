import UsageOrder.Proofs.Contents
import UsageOrder.Proofs.Found
import UsageOrder.Proofs.Separate

/-!
# Files are processed independently

Of files that are apart from each other each one finds the same whatever has been done with the others
(`Processor.Undisturbed`): its text and the dump beside it are read alike, and it can be backed up or
not.  So it gets the verdict that it gets alone, and its places hold in the end what they hold then
(`Processor.Undisturbed.processFile`).

For a batch this means that its order does not matter (`Processor.processBatch_perm`).
-/

namespace UsageOrder

/-! ### Reading alike -/

/-- Through directories a path leads on, unless a part of it is too long. -/
theorem Entry.follow_eq_of_through {top : Entry} {start parts : List String}
    (h : ∀ count < parts.length, top.IsDirectoryAt ((parts.take count).foldl Path.advance start)) :
    top.follow start parts = if ∀ part ∈ parts, part.utf8ByteSize ≤ Path.longestPart then
      .ok (parts.foldl Path.advance start) else .error .nameTooLong := by
  induction parts generalizing start with
  | nil => simp [follow]
  | cons part parts ih =>
    obtain ⟨members, changed, hat⟩ := isDirectoryAt_iff.1 (h 0 (by simp))
    rw [List.take_zero, List.foldl_nil] at hat
    rw [follow, hat]
    simp only [List.forall_mem_cons, ← Nat.not_lt]
    by_cases hlong : Path.longestPart < part.utf8ByteSize
    · simp [hlong]
    · simp only [hlong, not_false_eq_true, true_and, if_false, Nat.not_lt, List.foldl_cons]
      exact ih fun count hcount => h (count + 1) (by simpa using hcount)

/-- What is made at a place is no file, so the place holds what it held. -/
theorem Entry.AlikeAt.contentAt_eq {top top' : Entry} {place : List String}
    (h : AlikeAt top top' place) : top'.contentAt place = top.contentAt place := by
  rcases h with hsame | ⟨hnone, hmade⟩
  · exact contentAt_congr hsame
  · rw [contentAt, contentAt, hnone, hmade]
    rfl

namespace World

variable {world world' : World} {path : Path} {place : List String}

/-- A path leads to the same place, or nowhere for the same cause, where the directories that it leads
through have stayed. -/
theorem place_eq_of_through (hdots : ".." ∉ world.workingDirectory)
    (hworking : world'.workingDirectory = world.workingDirectory)
    (hdirectories : ∀ place, world.files.IsDirectoryAt place → world'.files.IsDirectoryAt place)
    (hthrough : ∀ count < path.parts.length,
      world.files.IsDirectoryAt ((path.upTo count).spot world.workingDirectory)) :
    world'.place path = world.place path := by
  have hspot : ∀ count, (path.upTo count).spot world.workingDirectory =
      (path.parts.take count).foldl Path.advance
        (if path.slashes = 0 then world.workingDirectory else []) :=
    fun _ => Path.spot_eq_foldl hdots
  simp only [hspot] at hthrough
  rw [place, place, hworking, Entry.follow_eq_of_through hthrough,
    Entry.follow_eq_of_through fun count hcount => hdirectories _ (hthrough count hcount)]

/-- What is seen at the place of a path decides whether it is there and what can be read. -/
theorem read_congr (hplace : world'.place path = world.place path)
    (hseen : ∀ place, world.place path = .ok place →
      world'.files.seen place = world.files.seen place) :
    world'.pathExists path = world.pathExists path ∧ world'.readText path = world.readText path := by
  rw [pathExists, pathExists, look, look, readText, readText, fileAt, fileAt, locate, locate, hplace]
  cases hok : world.place path with
  | error cause => cases cause <;> exact ⟨rfl, rfl⟩
  | ok place =>
    have hsame := hseen place hok
    rw [Entry.seen, Entry.seen] at hsame
    simp only
    cases hat : world.files.at? place with
    | none =>
      rw [hat, Option.map_none, Option.map_eq_none_iff] at hsame
      rw [hsame]
      exact ⟨rfl, rfl⟩
    | some entry =>
      rw [hat, Option.map_some, Option.map_eq_some_iff] at hsame
      obtain ⟨entry', hat', hleaf⟩ := hsame
      rw [hat']
      refine ⟨rfl, ?_⟩
      cases entry with
      | directory members changed =>
        obtain ⟨members', changed', rfl⟩ := Entry.leaf?_eq_none_iff.1 hleaf
        split_ifs <;> rfl
      | file | archive =>
        obtain ⟨rfl, -⟩ := Entry.leaf?_eq_some_iff.1 hleaf
        rfl

/-- Where a directory has been made at a place at which nothing was, no text can be read either. -/
theorem read_of_made (hplace : world'.place path = world.place path)
    (hnames : world'.Nameable) (hok : world.place path = .ok place)
    (hnone : world.files.seen place = none) (hmade : world'.files.IsDirectoryAt place) :
    world.pathExists path = .ok false ∧ world'.pathExists path = .ok true ∧
      world'.readText path = .error (.file .isADirectory path.toText) := by
  obtain ⟨members, changed, hat⟩ := Entry.isDirectoryAt_iff.1 hmade
  rw [hok] at hplace
  have hthere : world'.pathExists path = .ok true := by
    rw [pathExists, look, hplace]
    simp only [hat]
    rfl
  refine ⟨?_, hthere, ?_⟩
  · rw [Entry.seen, Option.map_eq_none_iff] at hnone
    rw [pathExists, look, hok]
    simp only [hnone]
    rfl
  · rw [readText, fileAt, World.locate_eq_ok_iff.2 ⟨hnames.hasNull_of_exists hthere, hplace, hat⟩]
    rfl

end World

/-- What a report says of a file: its path, its status, the diagnostics that are left and the number of
changes. -/
def Report.verdict (report : Report) : Path × Status × List Diagnostic × Nat :=
  (report.path, report.status, report.diagnostics, report.changes)

namespace Processor

variable {processor : Processor} {paths paths' : List Path} {path other beside : Path}
  {world between world' last : World} {store : BackupStore} {place : List String} {fix : Bool}

/-! ### What a file finds -/

/-- **A file finds the same in two worlds:** at its places the same is seen, but for directories that
were made where nothing was, and in the same session it can be backed up or not. -/
structure Undisturbed (processor : Processor) (path : Path) (world world' : World) : Prop where
  workingDirectory : world'.workingDirectory = world.workingDirectory
  directories : ∀ place, world.files.IsDirectoryAt place → world'.files.IsDirectoryAt place
  seen : ∀ place, processor.Owns world.workingDirectory path place →
    world.files.AlikeAt world'.files place
  directory : ∀ store, processor.store = some store →
    (store.destination world').directory = (store.destination world).directory
  accepts : ∀ store, processor.store = some store →
    (store.Accepts world' path ↔ store.Accepts world path)

theorem Undisturbed.refl (processor : Processor) (path : Path) (world : World) :
    processor.Undisturbed path world world :=
  ⟨rfl, fun _ h => h, fun _ _ => Or.inl rfl, fun _ _ => rfl, fun _ _ => Iff.rfl⟩

theorem Undisturbed.trans (h : processor.Undisturbed path world between)
    (h' : processor.Undisturbed path between world') : processor.Undisturbed path world world' where
  workingDirectory := h'.workingDirectory.trans h.workingDirectory
  directories place hplace := h'.directories place (h.directories place hplace)
  seen place hplace := (h.seen place hplace).trans (h'.seen place (h.workingDirectory ▸ hplace))
  directory store hstore := (h'.directory store hstore).trans (h.directory store hstore)
  accepts store hstore := (h'.accepts store hstore).trans (h.accepts store hstore)

/-- The log does not count. -/
theorem Undisturbed.log (h : processor.Undisturbed path world world') (log log' : List LogRecord) :
    processor.Undisturbed path { world with log := log } { world' with log := log' } := by
  have haccepts : ∀ (store : BackupStore) (world : World) (log : List LogRecord),
      store.Accepts { world with log := log } path ↔ store.Accepts world path := by
    intro store world log
    have halong : World.Alongside
        (BackupStore.copyPath (store.destination world) world.workingDirectory path) path.name world
        { world with log := log } := .of_files rfl (fun _ => Iff.rfl) fun _ => Iff.rfl
    exact or_congr Iff.rfl halong.receives_iff
  refine ⟨h.workingDirectory, h.directories, h.seen, h.directory, fun store hstore => ?_⟩
  exact (haccepts ..).trans ((h.accepts store hstore).trans (haccepts ..).symm)

/-- **What is done with another file does not disturb a file.** -/
theorem Touches.undisturbed
    (h : processor.Touches paths other (processor.Owns world.workingDirectory other) world world')
    (hseparate : processor.Separate paths world) (hpath : path ∈ paths) (hother : other ∈ paths)
    (hne : path ≠ other) : processor.Undisturbed path world world' where
  workingDirectory := h.workingDirectory
  directories := h.directories
  seen place hplace := h.seen place (hseparate.disjoint path hpath other hother hne place hplace)
    (hseparate.outside path hpath place hplace)
  directory store hstore := (h.destination store hstore).1
  accepts store hstore := by
    obtain ⟨hdirectory, hfiles⟩ := h.destination store hstore
    have halong := h.alongside store hstore path hpath hne
    have hcopy : BackupStore.copyPath (store.destination world') world.workingDirectory path =
        BackupStore.copyPath (store.destination world) world.workingDirectory path := by
      rw [BackupStore.copyPath, hdirectory, BackupStore.copyPath]
    rw [BackupStore.Accepts, BackupStore.Accepts, h.workingDirectory, hcopy, halong.receives_iff,
      hfiles _ (hseparate.toText_ne hother hpath hne)]

/-- A dump is beside its file. -/
theorem sidecar_eq_join (h : processor.sidecar path = .ok beside) :
    ∃ name, beside = path.parent.join ⟨0, [name]⟩ := by
  obtain ⟨suffix, -, hname⟩ := sidecar_eq_ok_iff.1 h
  exact ⟨_, (Path.eq_of_withName hname).2⟩

/-- A path beside a file that is not disturbed leads where it led. -/
theorem Undisturbed.place_eq (h : processor.Undisturbed path world world')
    (hseparate : processor.Separate paths world) (hpath : path ∈ paths) (name : String) :
    world'.place (path.parent.join ⟨0, [name]⟩) = world.place (path.parent.join ⟨0, [name]⟩) := by
  have hlength : path.parent.parts.length + 1 = path.parts.length := by
    have hsome := List.length_pos_of_ne_nil (hseparate.parts path hpath)
    rw [Path.parent, List.length_dropLast]
    omega
  refine World.place_eq_of_through hseparate.dots h.workingDirectory h.directories fun count hcount => ?_
  -- The way to anything beside a file is the way to the file.
  have hless : count < path.parts.length := by
    simpa [Path.join, hlength] using hcount
  have hway : (path.parent.join ⟨0, [name]⟩).upTo count = path.upTo count := by
    rw [Path.upTo_join, if_pos (by omega), Path.parent, Path.upTo, Path.upTo,
      List.dropLast_eq_take, List.take_take, Nat.min_eq_left (by omega)]
  rw [hway]
  exact hseparate.through path hpath count hless

/-- The text of a file that is not disturbed is read alike. -/
theorem Undisturbed.readText_eq (h : processor.Undisturbed path world world')
    (hseparate : processor.Separate paths world) (hpath : path ∈ paths) :
    world'.readText path = world.readText path := by
  have hjoin : path = path.parent.join ⟨0, [path.name]⟩ := Path.exists_parts (hseparate.parts path hpath)
  have hplace := h.place_eq hseparate hpath path.name
  rw [← hjoin] at hplace
  refine (World.read_congr hplace fun place hok => ?_).2
  obtain ⟨-, rfl⟩ := (World.place_eq_ok_iff hseparate.dots).1 hok
  obtain ⟨file, hfile⟩ := hseparate.files path hpath
  exact (h.seen _ (Or.inl rfl)).seen_eq (by simp [hfile])

/-- The dump of a file that is not disturbed is read alike, unless it was not there and a directory has
been made at its place. -/
theorem Undisturbed.readDump (h : processor.Undisturbed path world world')
    (hseparate : processor.Separate paths world) (hseparate' : processor.Separate paths world')
    (hpath : path ∈ paths) (hbeside : processor.sidecar path = .ok beside) :
    (world'.pathExists beside = world.pathExists beside ∧
        world'.readText beside = world.readText beside) ∨
      world.pathExists beside = .ok false ∧ world'.pathExists beside = .ok true ∧
        world'.readText beside = .error (.file .isADirectory beside.toText) := by
  obtain ⟨name, rfl⟩ := sidecar_eq_join hbeside
  have hplace := h.place_eq hseparate hpath name
  cases hok : world.place (path.parent.join ⟨0, [name]⟩) with
  | error cause => exact Or.inl (World.read_congr hplace (by simp [hok]))
  | ok place =>
    obtain ⟨-, hspot⟩ := (World.place_eq_ok_iff hseparate.dots).1 hok
    rcases h.seen place (Or.inr ⟨_, hbeside, hspot⟩) with hsame | ⟨hnone, hmade⟩
    · refine Or.inl (World.read_congr hplace fun other hother => ?_)
      obtain rfl := Except.ok.inj (hok.symm.trans hother)
      exact hsame
    · exact Or.inr (World.read_of_made hplace hseparate'.nameable hok hnone hmade)

/-! ### What comes of a file -/

/-- Ends of processing a file that come to the same: reports with the same verdict, or faults of which
both or neither are reported. -/
inductive SameEnd : Except Fault Report → Except Fault Report → Prop
  | report {report report' : Report} (same : report'.verdict = report.verdict) :
      SameEnd (.ok report) (.ok report')
  | fault {fault fault' : Fault} (same : fault'.isReported = fault.isReported) :
      SameEnd (.error fault) (.error fault')

/-- Whether a file can be backed up, if it has to be. -/
def Accepted (processor : Processor) (path : Path) (world : World) : Prop :=
  ∀ store, processor.store = some store → store.Accepts world path

/-- A dump that is there is removed. -/
theorem discardSidecar_removes (hbeside : processor.sidecar path = .ok beside) {dump : Entry}
    (hdump : world.HasFile beside place dump) : ∃ log, processor.discardSidecar path world =
      (.ok (), { world with files := world.files.remove place, log := log }) := by
  have hremoved : Run.removeFile beside world =
      (.ok (), { world with files := world.files.remove place }) :=
    Run.removeFile_iff.2 (World.removeFile_eq_ok_iff.2
      ⟨place, hdump.toWritable, by rw [hdump.seen]; simp, rfl⟩)
  rw [discardSidecar, Run.bind_ok (Run.ofExcept_iff.2 ⟨hbeside, rfl⟩),
    Run.bind_ok (Run.pathExists_iff.2 ⟨hdump.pathExists, rfl⟩)]
  exact ⟨_, Run.bind_ok hremoved _⟩

namespace Separate

/-- A path whose text can be read leads to a file at the place that it stands for. -/
theorem hasFile_of_readText (h : processor.Separate paths world) {text : Text}
    (hread : world.readText path = .ok text) :
    ∃ file, world.HasFile path (path.spot world.workingDirectory) file := by
  obtain ⟨place, value, changed, hthere, -⟩ := World.readText_eq_ok_iff.1 hread
  obtain ⟨-, rfl⟩ := (World.place_eq_ok_iff h.dots).1 hthere.leads
  exact ⟨_, hthere⟩

/-- Backing up a file leaves its places as they are. -/
theorem touches_backUp (h : processor.Separate paths world) (hpath : path ∈ paths)
    {outcome : Except Fault (Option Path)} (hbackup : processor.backUp path world = (outcome, last)) :
    processor.Touches paths path (fun _ => False) world last := by
  rcases backUp_cases hbackup with ⟨-, -, rfl⟩ | ⟨store, hstore, hbacked⟩
  · exact .refl _
  · exact h.touches_backedUp hpath hstore hbacked

/-- **A text is written over a file that can be backed up,** and the dump beside it is removed. -/
theorem writeFixed_accepted (h : processor.Separate paths world) (hpath : path ∈ paths)
    (hbeside : processor.sidecar path = .ok beside) {value json : Text}
    (hread : world.readText path = .ok value) (hdump : world.readText beside = .ok json)
    (haccepted : processor.Accepted path world) (text : Text) :
    ∃ backup last, processor.writeFixed path text world = (.ok backup, last) ∧
      last.files.seen (path.spot world.workingDirectory) = some (some (.file (.text text) none)) ∧
      last.files.seen (beside.spot world.workingDirectory) = none := by
  obtain ⟨file, hfile⟩ := h.hasFile_of_readText hread
  obtain ⟨dump, hthere⟩ := h.hasFile_of_readText hdump
  obtain ⟨hparts, hparts'⟩ := parts_of_sidecar hbeside
  have hname := name_ne_of_sidecar hbeside h.suffix
  have hne := hfile.place_ne hthere.toWritable hparts hparts' hname
  obtain ⟨backup, ready, hbackup⟩ : ∃ backup ready,
      processor.backUp path world = (.ok backup, ready) := by
    rw [backUp]
    cases hstore : processor.store with
    | none => exact ⟨none, world, rfl⟩
    | some store =>
      exact (BackupStore.backupFile_returns_iff (h.backable hstore hpath hfile)).2 (haccepted store hstore)
  have htouches := h.touches_backUp hpath hbackup
  have hready := htouches.hasFile hfile
    (htouches.seen_eq h hpath (Or.inl rfl) id (by simp [hfile.seen]))
  have hready' := htouches.hasFile hthere
    (htouches.seen_eq h hpath (Or.inr ⟨beside, hbeside, rfl⟩) id (by simp [hthere.seen]))
  have hseen := hready.seen_put hparts (rfl : (Entry.file (.text text) none).leaf? = _)
  have hsame : ∀ other, ready.files.IsDirectoryAt other ↔
      (ready.files.put (path.spot world.workingDirectory) (.file (.text text) none)).IsDirectoryAt
        other := fun _ => (hready.isDirectoryAt_put_iff hparts rfl).symm
  obtain ⟨written, hfiles⟩ : ∃ written : World, { ready with
      files := ready.files.put (path.spot world.workingDirectory) (.file (.text text) none) } =
        written := ⟨_, rfl⟩
  have hwritten : Run.writeText path text ready = (.ok (), written) :=
    Run.writeText_iff.2 (World.writeFile_eq_ok_iff.2 ⟨_, hready.toWritable, hfiles.symm⟩)
  have hdump : written.HasFile beside (beside.spot world.workingDirectory) dump := by
    rw [← hfiles]
    exact ⟨hready'.toWritable.of_place hsame rfl, by rw [hseen, if_neg (Ne.symm hne), hready'.seen]⟩
  obtain ⟨log, hdiscarded⟩ := discardSidecar_removes hbeside hdump
  have hgone := hdump.seen_remove hparts'
  have hrun : processor.writeFixed path text world = (.ok backup, { written with
      files := written.files.remove (beside.spot world.workingDirectory), log := log }) :=
    writeFixed_of_backUp hbackup ((Run.bind_ok hwritten _).trans hdiscarded)
  refine ⟨backup, _, hrun, ?_, (hgone _).trans (if_pos rfl)⟩
  rw [hgone, if_neg hne, ← hfiles, hseen, if_pos rfl]

/-- **Nothing is written over a file that cannot be backed up;** the fault is reported unless the path
of the session has a null character. -/
theorem writeFixed_refused (h : processor.Separate paths world) (hpath : path ∈ paths) {value : Text}
    (hread : world.readText path = .ok value) (hstore : processor.store = some store)
    (hrefused : ¬ store.Accepts world path) (text : Text) : ∃ fault last,
      processor.writeFixed path text world = (.error fault, last) ∧
      fault.isReported = !(store.destination world).directory.hasNull ∧
      ∀ place, processor.Owns world.workingDirectory path place →
        last.files.contentAt place = world.files.contentAt place := by
  obtain ⟨file, hfile⟩ := h.hasFile_of_readText hread
  have hbackable := h.backable hstore hpath hfile
  rcases hbackup : store.backupFile path world with ⟨fault | backup, last⟩
  · have hfault : processor.backUp path world = (.error fault, last) := by
      rw [backUp, hstore]
      exact hbackup
    have htouches := h.touches_backUp hpath hfault
    refine ⟨fault, last, ?_, hbackable.isReported_fault hread h.nameable.workingDirectory hbackup,
      fun place hplace => (htouches.seen place id (h.outside path hpath place hplace)).contentAt_eq⟩
    rw [writeFixed_eq, Run.bind_error hfault]
  · exact absurd ((BackupStore.backupFile_returns_iff hbackable).1 ⟨backup, last, hbackup⟩) hrefused

end Separate

/-- **Carrying out a plan comes to the same** for a file that was not disturbed. -/
theorem Undisturbed.carryOut (h : processor.Undisturbed path world world')
    (hseparate : processor.Separate paths world) (hseparate' : processor.Separate paths world')
    (hpath : path ∈ paths) (halike : processor.ReadAlike path world world')
    (hbeside : processor.sidecar path = .ok beside) {value json : Text}
    (hread : world.readText path = .ok value) (hdump : world.readText beside = .ok json)
    (state : FixState) :
    SameEnd (processor.carryOut path (.inr state) world).1
        (processor.carryOut path (.inr state) world').1 ∧
      ∀ place, processor.Owns world.workingDirectory path place →
        (processor.carryOut path (.inr state) world').2.files.contentAt place =
          (processor.carryOut path (.inr state) world).2.files.contentAt place := by
  have hread' := halike.text.trans hread
  have hdump' := (halike.dump beside hbeside).trans hdump
  by_cases haccepted : processor.Accepted path world
  · have haccepted' : processor.Accepted path world' := fun store hstore =>
      (h.accepts store hstore).2 (haccepted store hstore)
    obtain ⟨backup, last, hwrite, htext, hgone⟩ :=
      hseparate.writeFixed_accepted hpath hbeside hread hdump haccepted state.text
    obtain ⟨backup', last', hwrite', htext', hgone'⟩ :=
      hseparate'.writeFixed_accepted hpath hbeside hread' hdump' haccepted' state.text
    rw [h.workingDirectory] at htext' hgone'
    rw [Processor.carryOut, Run.bind_ok hwrite, Run.bind_ok hwrite']
    refine ⟨.report rfl, ?_⟩
    rintro place (rfl | ⟨other, hother, rfl⟩)
    · exact Entry.contentAt_congr (htext'.trans htext.symm)
    · obtain rfl := Except.ok.inj (hbeside.symm.trans hother)
      exact Entry.contentAt_congr (hgone'.trans hgone.symm)
  · obtain ⟨store, hstore, hrefused⟩ : ∃ store, processor.store = some store ∧
        ¬ store.Accepts world path := by
      simpa only [Accepted, not_forall, exists_prop] using haccepted
    have hrefused' : ¬ store.Accepts world' path := fun haccepts =>
      hrefused ((h.accepts store hstore).1 haccepts)
    obtain ⟨fault, last, hwrite, hreported, hseen⟩ :=
      hseparate.writeFixed_refused hpath hread hstore hrefused state.text
    obtain ⟨fault', last', hwrite', hreported', hseen'⟩ :=
      hseparate'.writeFixed_refused hpath hread' hstore hrefused' state.text
    rw [h.workingDirectory] at hseen'
    rw [Processor.carryOut, Run.bind_error hwrite, Run.bind_error hwrite']
    refine ⟨.fault ?_, fun place hplace => ?_⟩
    · rw [hreported, hreported', h.directory store hstore]
    · rw [hseen' place hplace, (h.seen place hplace).contentAt_eq, hseen place hplace]

/-- **Checking and fixing a file comes to the same** when it was not disturbed. -/
theorem Undisturbed.processStrictly (h : processor.Undisturbed path world world')
    (hseparate : processor.Separate paths world) (hseparate' : processor.Separate paths world')
    (hpath : path ∈ paths) (hparser : processor.hasParser = false) (fix : Bool) :
    SameEnd (processor.processStrictly path fix none world).1
        (processor.processStrictly path fix none world').1 ∧
      ∀ place, processor.Owns world.workingDirectory path place →
        (processor.processStrictly path fix none world').2.files.contentAt place =
          (processor.processStrictly path fix none world).2.files.contentAt place := by
  have htext := h.readText_eq hseparate hpath
  have hcontents : ∀ place, processor.Owns world.workingDirectory path place →
      world'.files.contentAt place = world.files.contentAt place :=
    fun place hplace => (h.seen place hplace).contentAt_eq
  rw [processStrictly_eq_plan]
  by_cases hbarred : ∃ beside, processor.sidecar path = .ok beside ∧
      world.pathExists beside = .ok false ∧ world'.pathExists beside = .ok true ∧
      world'.readText beside = .error (.file .isADirectory beside.toText)
  · -- The dump is missing in the one world, and cannot be read in the other.
    obtain ⟨beside, hbeside, hmissing, hthere, hdump⟩ := hbarred
    rw [Run.bind_error (plan_error fix (loadSource_missing hparser hbeside hmissing)),
      Run.bind_error (plan_error fix (loadSource_unreadable hparser hbeside hthere hdump)), htext]
    refine ⟨.fault ?_, hcontents⟩
    cases world.readText path <;> rfl
  · have halike : processor.ReadAlike path world world' := by
      have hdump := fun beside hbeside => (h.readDump hseparate hseparate' hpath hbeside).resolve_right
        fun hdirectory => hbarred ⟨beside, hbeside, hdirectory⟩
      exact ⟨htext, fun beside hbeside => (hdump beside hbeside).1,
        fun beside hbeside => (hdump beside hbeside).2⟩
    obtain ⟨outcome, entries, hplan⟩ := plan_notesSame hparser halike fix
    obtain ⟨hplan, hplan'⟩ := hplan world.log world'.log
    cases outcome with
    | error fault =>
      rw [Run.bind_error hplan, Run.bind_error hplan']
      exact ⟨.fault rfl, hcontents⟩
    | ok decision =>
      rw [Run.bind_ok hplan, Run.bind_ok hplan']
      cases decision with
      | inl report => exact ⟨.report rfl, hcontents⟩
      | inr state =>
        have hlogged : ∀ {world : World} log, processor.Separate paths world →
            processor.Separate paths { world with log := log } := fun log hseparate =>
          ((Touches.refl _).log log).separate hseparate hpath
        obtain ⟨beside, value, json, hbeside, hread, hdump⟩ := plan_writes hparser hplan
        exact (h.log (world.log ++ entries) (world'.log ++ entries)).carryOut (hlogged _ hseparate)
          (hlogged _ hseparate') hpath ⟨halike.text, halike.there, halike.dump⟩ hbeside hread hdump state

/-! ### The verdict on a file -/

/-- What comes of a file alone. -/
def verdict? (processor : Processor) (path : Path) (fix : Bool) (world : World) :
    Option (Path × Status × List Diagnostic × Nat) :=
  (processor.processFile path fix none world).1.toOption.map Report.verdict

/-- A report is one on the file. -/
theorem processFile_path {report : Report}
    (h : processor.processFile path fix none world = (.ok report, last)) : report.path = path := by
  rw [processFile_apply] at h
  rcases hstrictly : processor.processStrictly path fix none world with ⟨fault | found, ended⟩
  · rw [hstrictly] at h
    dsimp only at h
    split_ifs at h
    · rw [← Except.ok.inj (Prod.mk.inj h).1]
      rfl
    · exact absurd (Prod.mk.inj h).1 (by simp)
  · rw [hstrictly] at h
    rw [← Except.ok.inj (Prod.mk.inj h).1]
    rw [processStrictly_eq_plan] at hstrictly
    obtain ⟨decision, between, hplan, hcarried⟩ := Run.bind_iff.1 hstrictly
    cases decision with
    | inl planned =>
      rw [← (Run.pure_iff.1 hcarried).1]
      exact plan_path hplan
    | inr state =>
      obtain ⟨backup, written, -, hcarried⟩ := Run.bind_iff.1 hcarried
      rw [← (Run.pure_iff.1 hcarried).1]
      rfl

/-- **A file that was not disturbed gets the same verdict,** and its places hold the same in the
end. -/
theorem Undisturbed.processFile (h : processor.Undisturbed path world world')
    (hseparate : processor.Separate paths world) (hseparate' : processor.Separate paths world')
    (hpath : path ∈ paths) (hparser : processor.hasParser = false) (fix : Bool) :
    processor.verdict? path fix world' = processor.verdict? path fix world ∧
      ∀ place, processor.Owns world.workingDirectory path place →
        (processor.processFile path fix none world').2.files.contentAt place =
          (processor.processFile path fix none world).2.files.contentAt place := by
  obtain ⟨hend, hcontents⟩ := h.processStrictly hseparate hseparate' hpath hparser fix
  have hfiles : ∀ world, (processor.processFile path fix none world).2.files =
      (processor.processStrictly path fix none world).2.files := by
    intro world
    obtain ⟨log, hlog⟩ := (processor.processFile_world path fix none world).1
    rw [hlog]
  refine ⟨?_, fun place hplace => by rw [hfiles, hfiles, hcontents place hplace]⟩
  rw [verdict?, verdict?, processFile_apply, processFile_apply]
  generalize processor.processStrictly path fix none world = result at hend
  generalize processor.processStrictly path fix none world' = result' at hend
  obtain ⟨outcome, last⟩ := result
  obtain ⟨outcome', last'⟩ := result'
  dsimp only at hend
  cases hend with
  | report same => exact congrArg some same
  | fault same =>
    dsimp only
    rw [same]
    split_ifs <;> rfl

/-! ### Batches -/

variable {start : World} {files others : List Path} {reports : List Report}

theorem verdict?_eq_some_iff {verdict : Path × Status × List Diagnostic × Nat} :
    processor.verdict? path fix world = some verdict ↔
      ∃ report last, processor.processFile path fix none world = (.ok report, last) ∧
        report.verdict = verdict := by
  rw [verdict?]
  rcases processor.processFile path fix none world with ⟨fault | report, last⟩
  · exact iff_of_false (by simp [Except.toOption]) fun ⟨_, _, heq, _⟩ =>
      absurd (Prod.mk.inj heq).1 (by simp)
  · constructor
    · exact fun h => ⟨report, last, rfl, Option.some.inj h⟩
    · rintro ⟨found, ended, heq, rfl⟩
      rw [Except.ok.inj (Prod.mk.inj heq).1]
      rfl

theorem processBatch_cons_iff : processor.processBatch (path :: files) fix none world =
      (.ok reports, last) ↔
    ∃ report between rest, processor.processFile path fix none world = (.ok report, between) ∧
      processor.processBatch files fix none between = (.ok rest, last) ∧ reports = report :: rest := by
  rw [processBatch, List.mapM_cons, Run.bind_iff]
  constructor
  · rintro ⟨report, between, hrun, h⟩
    obtain ⟨rest, ended, hrest, h⟩ := Run.bind_iff.1 h
    obtain ⟨rfl, rfl⟩ := Run.pure_iff.1 h
    exact ⟨report, between, rest, hrun, hrest, rfl⟩
  · rintro ⟨report, between, rest, hrun, hrest, rfl⟩
    exact ⟨report, between, hrun, Run.bind_ok hrest _⟩

theorem processBatch_pair {report report' : Report}
    (h : processor.processFile path fix none world = (.ok report, between))
    (h' : processor.processFile other fix none between = (.ok report', last)) :
    processor.processBatch [path, other] fix none world = (.ok [report, report'], last) :=
  processBatch_cons_iff.2 ⟨_, _, _, h, processBatch_cons_iff.2 ⟨_, _, _, h', rfl, rfl⟩, rfl⟩

/-- There is one report on each file, in their order. -/
theorem processBatch_paths (h : processor.processBatch files fix none world = (.ok reports, last)) :
    reports.map Report.path = files := by
  induction files generalizing world reports with
  | nil =>
    obtain rfl := Except.ok.inj (Prod.mk.inj h).1
    rfl
  | cons path files ih =>
    obtain ⟨report, between, rest, hrun, hrest, rfl⟩ := processBatch_cons_iff.1 h
    rw [List.map_cons, processFile_path hrun, ih hrest]

namespace Separate

/-- Files that are still to be processed are not disturbed by one that is. -/
theorem undisturbed_rest (h : processor.Separate paths world) (hparser : processor.hasParser = false)
    (hfiles : ∀ file ∈ path :: files, file ∈ paths) (hnodup : (path :: files).Nodup)
    (hrest : ∀ file ∈ path :: files, processor.Undisturbed file start world) (fix : Bool) :
    ∀ file ∈ files,
      processor.Undisturbed file start (processor.processFile path fix none world).2 := by
  obtain ⟨hpath, hfiles⟩ := List.forall_mem_cons.1 hfiles
  intro file hfile
  have hne : file ≠ path := fun heq => (List.nodup_cons.1 hnodup).1 (heq ▸ hfile)
  exact (hrest file (List.mem_cons_of_mem _ hfile)).trans
    ((h.touches_processFile hpath hparser fix).undisturbed h (hfiles file hfile) hpath hne)

/-- **A batch gives each file the verdict that it gets alone.** -/
theorem processBatch_verdicts (hstart : processor.Separate paths start)
    (hparser : processor.hasParser = false) (hworld : processor.Separate paths world)
    (hfiles : ∀ file ∈ files, file ∈ paths) (hnodup : files.Nodup)
    (hrest : ∀ file ∈ files, processor.Undisturbed file start world)
    {verdicts : List (Path × Status × List Diagnostic × Nat)} :
    (∃ reports last, processor.processBatch files fix none world = (.ok reports, last) ∧
        reports.map Report.verdict = verdicts) ↔
      List.Forall₂ (fun file verdict => processor.verdict? file fix start = some verdict)
        files verdicts := by
  induction files generalizing world verdicts with
  | nil =>
    rw [List.forall₂_nil_left_iff]
    constructor
    · rintro ⟨reports, last, hrun, rfl⟩
      obtain rfl := Except.ok.inj (Prod.mk.inj hrun).1
      rfl
    · rintro rfl
      exact ⟨[], world, rfl, rfl⟩
  | cons path files ih =>
    obtain ⟨hpath, hfiles'⟩ := List.forall_mem_cons.1 hfiles
    have hlater := (hworld.touches_processFile hpath hparser fix).separate hworld hpath
    have hih := fun verdicts => @ih _ hlater hfiles' (List.nodup_cons.1 hnodup).2
      (hworld.undisturbed_rest hparser hfiles hnodup hrest fix) verdicts
    have hverdict := ((hrest path (List.mem_cons_self ..)).processFile hstart hworld hpath hparser
      fix).1
    rw [List.forall₂_cons_left_iff]
    constructor
    · rintro ⟨reports, last, hrun, rfl⟩
      obtain ⟨report, between, rest, hfirst, hrests, rfl⟩ := processBatch_cons_iff.1 hrun
      rw [hfirst] at hih
      refine ⟨report.verdict, rest.map Report.verdict, ?_, (hih _).1 ⟨rest, last, hrests, rfl⟩, rfl⟩
      rw [← hverdict]
      exact verdict?_eq_some_iff.2 ⟨report, between, hfirst, rfl⟩
    · rintro ⟨verdict, verdicts, hfirst, hrest, rfl⟩
      rw [← hverdict] at hfirst
      obtain ⟨report, between, hrun, rfl⟩ := verdict?_eq_some_iff.1 hfirst
      rw [hrun] at hih
      obtain ⟨reports, last, hruns, rfl⟩ := (hih _).2 hrest
      exact ⟨report :: reports, last, processBatch_cons_iff.2 ⟨report, between, reports, hrun, hruns, rfl⟩,
        rfl⟩

/-- **A place that no file of a batch takes holds what it held,** outside of the session. -/
theorem processBatch_elsewhere (h : processor.Separate paths world)
    (hparser : processor.hasParser = false) (hfiles : ∀ file ∈ files, file ∈ paths)
    (hplace : ∀ file ∈ files, ¬ processor.Owns world.workingDirectory file place)
    (houtside : processor.OutsideSession world place)
    (hrun : processor.processBatch files fix none world = (.ok reports, last)) :
    last.files.contentAt place = world.files.contentAt place := by
  induction files generalizing world reports with
  | nil => rw [(Run.pure_iff.1 hrun).2]
  | cons path files ih =>
    obtain ⟨hpath, hfiles⟩ := List.forall_mem_cons.1 hfiles
    obtain ⟨hown, hplace⟩ := List.forall_mem_cons.1 hplace
    obtain ⟨report, between, rest, hfirst, hrest, rfl⟩ := processBatch_cons_iff.1 hrun
    have htouches := h.touches_processFile hpath hparser fix
    rw [hfirst] at htouches
    rw [ih (htouches.separate h hpath) hfiles (htouches.workingDirectory ▸ hplace)
      (htouches.outsideSession_iff.2 houtside) hrest]
    exact (htouches.seen place hown houtside).contentAt_eq

/-- **A place that a file of a batch takes holds in the end what it holds after this file alone.** -/
theorem processBatch_own (hstart : processor.Separate paths start)
    (hparser : processor.hasParser = false) (hworld : processor.Separate paths world)
    (hfiles : ∀ file ∈ files, file ∈ paths) (hnodup : files.Nodup)
    (hrest : ∀ file ∈ files, processor.Undisturbed file start world) {file : Path} (hfile : file ∈ files)
    (hplace : processor.Owns start.workingDirectory file place)
    (hrun : processor.processBatch files fix none world = (.ok reports, last)) :
    last.files.contentAt place =
      (processor.processFile file fix none start).2.files.contentAt place := by
  induction files generalizing world reports with
  | nil => exact absurd hfile List.not_mem_nil
  | cons path files ih =>
    obtain ⟨hpath, hfiles'⟩ := List.forall_mem_cons.1 hfiles
    have hundisturbed := hrest path (List.mem_cons_self ..)
    have hworking := hundisturbed.workingDirectory
    obtain ⟨report, between, rest, hfirst, hrests, rfl⟩ := processBatch_cons_iff.1 hrun
    have htouches := hworld.touches_processFile hpath hparser fix
    have hothers := hworld.undisturbed_rest hparser hfiles hnodup hrest fix
    have hend := (hundisturbed.processFile hstart hworld hpath hparser fix).2
    rw [hfirst] at htouches hothers hend
    have hlater := htouches.separate hworld hpath
    rcases List.mem_cons.1 hfile with rfl | hmem
    · -- No other file takes the place.
      have hnot : ∀ other ∈ files, ¬ processor.Owns between.workingDirectory other place := by
        intro other hother
        have hne : file ≠ other := fun heq => (List.nodup_cons.1 hnodup).1 (heq ▸ hother)
        rw [htouches.workingDirectory, hworking]
        exact hstart.disjoint file hpath other (hfiles' other hother) hne place hplace
      have houtside : processor.OutsideSession between place :=
        hlater.outside file hpath place (by rwa [htouches.workingDirectory, hworking])
      rw [hlater.processBatch_elsewhere hparser hfiles' hnot houtside hrests]
      exact hend place hplace
    · exact ih hlater hfiles' (List.nodup_cons.1 hnodup).2 hothers hmem hrests

/-- **The order of a batch of files that are apart from each other does not matter.** -/
theorem processBatch_perm (h : processor.Separate paths world) (hparser : processor.hasParser = false)
    (hnodup : paths.Nodup) (hperm : paths.Perm others)
    (hrun : processor.processBatch paths fix none world = (.ok reports, last)) :
    ∃ reports' last', processor.processBatch others fix none world = (.ok reports', last') ∧
      (reports'.map Report.verdict).Perm (reports.map Report.verdict) ∧
        ∀ place, processor.OutsideSession world place →
          last'.files.contentAt place = last.files.contentAt place := by
  have hothers : ∀ file ∈ others, file ∈ paths := fun file => hperm.mem_iff.2
  have hnodup' := hperm.nodup_iff.1 hnodup
  have hrest : ∀ (files : List Path), ∀ file ∈ files, processor.Undisturbed file world world :=
    fun _ file _ => .refl processor file world
  have hverdicts := (h.processBatch_verdicts hparser h (fun _ hfile => hfile) hnodup (hrest paths)).1
    ⟨reports, last, hrun, rfl⟩
  obtain ⟨verdicts, hverdicts', hsame⟩ := List.perm_comp_forall₂ hperm.symm hverdicts
  obtain ⟨reports', last', hrun', rfl⟩ :=
    (h.processBatch_verdicts hparser h hothers hnodup' (hrest others)).2 hverdicts'
  refine ⟨reports', last', hrun', hsame, fun place houtside => ?_⟩
  by_cases hown : ∃ file ∈ paths, processor.Owns world.workingDirectory file place
  · obtain ⟨file, hfile, hplace⟩ := hown
    rw [h.processBatch_own hparser h hothers hnodup' (hrest others) (hperm.mem_iff.1 hfile) hplace hrun',
      h.processBatch_own hparser h (fun _ hfile => hfile) hnodup (hrest paths) hfile hplace hrun]
  · have hnone : ∀ file ∈ paths, ¬ processor.Owns world.workingDirectory file place :=
      fun file hfile hplace => hown ⟨file, hfile, hplace⟩
    rw [h.processBatch_elsewhere hparser hothers (fun file hfile => hnone file (hothers file hfile))
        houtside hrun',
      h.processBatch_elsewhere hparser (fun _ hfile => hfile) hnone houtside hrun]

end Separate

end Processor
end UsageOrder
