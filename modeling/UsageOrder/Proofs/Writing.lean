import UsageOrder.Proofs.Keeping
import UsageOrder.Proofs.SafeRuns

/-!
# What writing a result can do

A result is written in three steps: the file is copied into the session in progress, its new text is
written, and the dump beside it is removed.

| step | what it can do to the files |
|---|---|
| a copy (`BackupStore.backupFile_cases`) | make directories, and write one file |
| the text (`World.writeFile_eq_ok_iff`) | write one file |
| the dump (`Processor.discardSidecar_of_ok`) | remove one file |

Each case says all that a step can do, its faults included, so what writing keeps follows case by
case.  Directories are made one after the other, each where nothing was (`World.Grows`), and no file
changes by that.
-/

namespace UsageOrder

/-! ### Worlds with the same files -/

namespace World

/-- The same files are seen at the same places; there may be other directories. -/
def SameFiles (start world : World) : Prop :=
  ∀ place file, world.files.seen place = some (some file) ↔
    start.files.seen place = some (some file)

variable {start between world world' : World} {path : Path} {place : List String} {file : Entry}

theorem SameFiles.refl (world : World) : world.SameFiles world := fun _ _ => Iff.rfl

theorem SameFiles.trans (h : start.SameFiles between) (h' : between.SameFiles world) :
    start.SameFiles world :=
  fun place file => (h' place file).trans (h place file)

theorem Alike.sameFiles (h : start.Alike world) : start.SameFiles world :=
  fun place file => by rw [h.seen]

theorem seen_ne_none_iff : world.files.seen place ≠ none ↔
    (world.files.at? place).isSome = true := by
  rw [Entry.seen, Ne, Option.map_eq_none_iff, ← Ne, Option.isSome_iff_ne_none]

/-- A path leads to an entry exactly when one is seen at its place. -/
theorem pathExists_eq_true_iff : world.pathExists path = .ok true ↔
    ∃ place, world.place path = .ok place ∧ world.files.seen place ≠ none := by
  simp only [seen_ne_none_iff]
  rw [pathExists, look]
  cases world.place path with
  | ok place =>
    change Except.ok (world.files.at? place).isSome = Except.ok true ↔ _
    simp
  | error cause =>
    refine iff_of_false ?_ (by simp)
    split
    · rename_i heq
      exact absurd heq (by simp)
    · split_ifs <;> exact fun h => absurd h (by simp [bind, Except.bind])
    · exact fun h => absurd h (by simp [bind, Except.bind])

theorem pathExists_eq_false (hplace : world.place path = .ok place)
    (hseen : world.files.seen place = none) : world.pathExists path = .ok false := by
  have hnone : world.files.at? place = none := Option.map_eq_none_iff.1 hseen
  rw [pathExists, look, hplace]
  simp only [hnone]
  rfl

/-- **More directories:** each was made where nothing was, at a place to which the first parts of a
path led. -/
inductive Grows (path : Path) (start : World) : World → Prop
  | refl : Grows path start start
  | make {world : World} {count : Nat} {place : List String} (grown : Grows path start world)
      (leads : world.place { path with parts := path.parts.take count } = .ok place)
      (free : world.files.at? place = none) :
      Grows path start { world with files := world.files.put place (.directory [] none) }

/-- Making directories adds directories. -/
theorem grows_of_makeDirectories (h : world.makeDirectories path = .ok world') :
    path.hasNull = false ∧ Grows path world world' := by
  have hrun : ∀ (counts : List Nat) (between : World), Grows path world between →
      counts.foldlM (makeDirectoryUpTo path) between = .ok world' → Grows path world world' := by
    intro counts
    induction counts with
    | nil => exact fun between hbetween heq => Except.ok.inj heq ▸ hbetween
    | cons count counts ih =>
      intro between hbetween heq
      rw [List.foldlM_cons] at heq
      obtain ⟨next, hnext, hrest⟩ := bind_eq_ok_iff.1 heq
      refine ih next ?_ hrest
      rw [makeDirectoryUpTo] at hnext
      split at hnext
      · exact absurd hnext (by simp)
      · rename_i place hplace
        split at hnext
        · rename_i hfree
          exact Except.ok.inj hnext ▸ hbetween.make hplace hfree
        · exact Except.ok.inj hnext ▸ hbetween
        · exact absurd hnext (by simp)
  rw [makeDirectories] at h
  split_ifs at h with hnull
  exact ⟨by simpa using hnull, hrun _ world .refl h⟩

namespace Grows

theorem trans (h : Grows path start between) (h' : Grows path between world) :
    Grows path start world := by
  induction h' with
  | refl => exact h
  | make _ leads free ih => exact ih.make leads free

/-- Nothing but the files changes. -/
theorem eq_files (h : Grows path start world) : world = { start with files := world.files } := by
  induction h with
  | refl => rfl
  | make _ _ _ ih =>
    rw [ih]

/-- Everything is seen as before, except new directories where nothing was. -/
theorem seen (h : Grows path start world) (place : List String) :
    world.files.seen place = start.files.seen place ∨
      start.files.seen place = none ∧ world.files.seen place = some none := by
  induction h with
  | refl => exact Or.inl rfl
  | @make world count made grown leads free ih =>
    have hfree : world.files.seen made = none := by rw [Entry.seen, free]; rfl
    rcases Entry.seen_put_directory hfree place with hsame | ⟨rfl, hnew⟩
    · rw [hsame]
      exact ih
    · rcases ih with ih | ⟨-, ih⟩
      · exact Or.inr ⟨ih.symm.trans hfree, hnew⟩
      · exact absurd (hfree.symm.trans ih) (by simp)

theorem sameFiles (h : Grows path start world) : start.SameFiles world := by
  intro place file
  rcases h.seen place with hsame | ⟨hnone, hnew⟩
  · rw [hsame]
  · rw [hnone, hnew]
    simp

theorem isDirectoryAt (h : Grows path start world) {place : List String}
    (hplace : start.files.IsDirectoryAt place) : world.files.IsDirectoryAt place := by
  rcases h.seen place with hsame | ⟨hnone, -⟩
  · exact hsame.trans hplace
  · exact absurd (hnone.symm.trans hplace) (by simp)

theorem workingDirectory (h : Grows path start world) :
    world.workingDirectory = start.workingDirectory := by
  rw [h.eq_files]

theorem writable (h : Grows path start world) {other : Path} (hplace : start.Writable other place)
    (hstart : start.files.seen place ≠ none) : world.Writable other place := by
  have hsame := (h.seen place).resolve_right fun hnew => hstart hnew.1
  refine ⟨hplace.noNull, ?_, fun hdirectory => hplace.notDirectory (hsame.symm.trans hdirectory)⟩
  have hleads := hplace.leads
  rw [World.place] at hleads ⊢
  rw [h.workingDirectory]
  split_ifs at hleads ⊢ <;> exact Entry.follow_mono (fun _ => h.isDirectoryAt) hleads

theorem hasFile (h : Grows path start world) {other : Path} (hfile : start.HasFile other place file) :
    world.HasFile other place file where
  toWritable := h.writable hfile.toWritable (by rw [hfile.seen]; simp)
  seen := (h.sameFiles place file).2 hfile.seen

end Grows

end World

/-! ### Copies -/

/-- An entry without the time of its last change, as a copy of it is. -/
def Entry.undated : Entry → Entry
  | .file content _ => .file content none
  | .archive place packed _ => .archive place packed none
  | .directory members _ => .directory members none

theorem Entry.leaf?_undated {file : Entry} (h : file.leaf? = some file) :
    file.undated.leaf? = some file.undated := by
  cases file with
  | directory members changed => exact absurd h (by simp [leaf?])
  | _ => rfl

namespace World

variable {world world' : World} {path source target : Path}

/-- What is seen as a file is no directory. -/
theorem HasFile.leaf?_eq {place : List String} {file : Entry} (h : world.HasFile path place file) :
    file.leaf? = some file :=
  Entry.leaf?_eq_some_iff.2 ⟨rfl, (Entry.seen_eq_file_iff.1 h.seen).2⟩

theorem sameEntry_eq_true_iff {other : Path} {place : List String} {file : Entry}
    (h : world.HasFile path place file) :
    world.sameEntry path other = true ↔ world.place other = .ok place := by
  have hfile : world.files.at? place = some file := (Entry.seen_eq_file_iff.1 h.seen).1
  rw [sameEntry, h.leads]
  cases world.place other with
  | ok place' => simp [hfile, eq_comm]
  | error cause => simp

/-- **A copy of a file** is written where it goes to, which is not where the file is. -/
theorem copyFile_eq_ok_iff : world.copyFile source target = .ok world' ↔
    ∃ place file spot, world.HasFile source place file ∧
      world.Writable (world.copyTarget source target) spot ∧ spot ≠ place ∧
        world' = { world with files := world.files.put spot file.undated } := by
  have hcopy : ∀ {place : List String} {file : Entry} {spot : List String},
      world.HasFile source place file → world.Writable (world.copyTarget source target) spot →
        (world.sameEntry source (world.copyTarget source target) = true ↔ spot = place) := by
    intro place file spot hfile hspot
    rw [sameEntry_eq_true_iff hfile, hspot.leads, Except.ok.injEq]
  constructor
  · intro h
    rw [copyFile] at h
    split_ifs at h with hsame
    obtain ⟨file, hfile, hwrite⟩ := bind_eq_ok_iff.1 h
    obtain ⟨place, hplace⟩ := fileAt_eq_ok_iff.1 hfile
    cases file with
    | directory members changed => exact absurd hwrite (by simp)
    | file | archive =>
      obtain ⟨spot, hspot, rfl⟩ := writeFile_eq_ok_iff.1 hwrite
      exact ⟨place, _, spot, hplace, hspot, fun heq => hsame ((hcopy hplace hspot).2 heq), rfl⟩
  · rintro ⟨place, file, spot, hfile, hspot, hne, rfl⟩
    rw [copyFile, if_neg (fun hsame => hne ((hcopy hfile hspot).1 hsame))]
    refine bind_eq_ok_iff.2 ⟨file, fileAt_eq_ok_iff.2 ⟨place, hfile⟩, ?_⟩
    cases file with
    | directory members changed =>
      exact absurd (Entry.seen_eq_file_iff.1 hfile.seen).2 (by simp [Entry.isDirectory])
    | file | archive => exact writeFile_eq_ok_iff.2 ⟨spot, hspot, rfl⟩

end World

/-! ### Backups -/

namespace BackupStore

/-- The session that is opened at a time. -/
def newSession (store : BackupStore) (description : Json) (seconds : Nat) : Session where
  id := sessionMark ++ Timestamp.ofSeconds seconds ++
    (if description.truthy then "_" ++ description.plain else "")
  timestamp := Timestamp.ofSeconds seconds
  directory := store.directory.join (Path.ofText (sessionMark ++ Timestamp.ofSeconds seconds ++
    (if description.truthy then "_" ++ description.plain else "")))

/-- Where a session has the copy of a file. -/
def copyPath (session : Session) (workingDirectory : List String) (path : Path) : Path :=
  session.directory.join (key (path.resolve workingDirectory))

/-- The session in progress, or a new one with its directory. -/
inductive Current (store : BackupStore) (world : World) : Session → World → Prop
  | running {session : Session} (inProgress : world.session = some session) :
      Current store world session world
  | opened {grown : World} (idle : world.session = none)
      (made : world.makeDirectories (store.newSession .null world.now).directory = .ok grown) :
      Current store world (store.newSession .null world.now)
        { grown with session := some (store.newSession .null world.now) }

/-- What backing up a file has done when it fails: it has made directories at most. -/
inductive Begun (store : BackupStore) (path : Path) (world : World) : World → Prop
  | start : Begun store path world world
  | session {session : Session} {ready : World} (current : store.Current world session ready) :
      Begun store path world ready
  | directories {session : Session} {ready grown : World}
      (current : store.Current world session ready)
      (made : ready.makeDirectories (copyPath session ready.workingDirectory path).parent =
        .ok grown) : Begun store path world grown

/-- How backing up a file ends. -/
inductive BackedUp (store : BackupStore) (path : Path) (world : World) :
    Except Fault (Option Path) × World → Prop
  | fault {fault : Fault} {last : World} (begun : store.Begun path world last) :
      BackedUp store path world (.error fault, last)
  | absent {session : Session} {ready : World} (current : store.Current world session ready)
      (gone : ready.pathExists path = .ok false) : BackedUp store path world
        (.ok none, ready.record .warning ("File does not exist: " ++ path.toText))
  | listed {session : Session} {ready : World} (current : store.Current world session ready)
      (known : (path.resolve ready.workingDirectory).toText ∈ session.files) :
      BackedUp store path world (.ok (some (copyPath session ready.workingDirectory path)), ready)
  | copied {session : Session} {ready grown last : World}
      (current : store.Current world session ready)
      (new : (path.resolve ready.workingDirectory).toText ∉ session.files)
      (made : ready.makeDirectories (copyPath session ready.workingDirectory path).parent =
        .ok grown)
      (copied : grown.copyFile path (copyPath session ready.workingDirectory path) = .ok last) :
      BackedUp store path world (.ok (some (copyPath session ready.workingDirectory path)),
        { last with session := some { session with
            files := session.files ++ [(path.resolve ready.workingDirectory).toText] } })

variable {store : BackupStore} {path : Path} {world : World}

theorem opened_apply (session : Session) (world : World) :
    (do Run.makeDirectories session.directory
        modify fun world : World => { world with session := some session }
        return session.directory : Run Path) world =
      match world.makeDirectories session.directory with
      | .ok grown => (.ok session.directory, { grown with session := some session })
      | .error fault => (.error fault, world) := by
  rw [Run.bind_apply, Run.makeDirectories, Run.change_apply]
  cases world.makeDirectories session.directory <;> rfl

/-- Opening a session makes its directory, if that is possible. -/
theorem startSession_apply (store : BackupStore) (description : Json) (world : World) :
    store.startSession description world =
      match world.makeDirectories (store.newSession description world.now).directory with
      | .ok grown => (.ok (store.newSession description world.now).directory,
          { grown with session := some (store.newSession description world.now) })
      | .error fault => (.error fault, world) := by
  have happly := opened_apply (store.newSession description world.now) world
  simp only [newSession] at happly ⊢
  rw [startSession, Run.get_bind]
  exact happly

/-- Where no session is in progress one is opened. -/
theorem currentSession_of_idle (store : BackupStore) (h : world.session = none) :
    store.currentSession world = (do
      let _ ← store.startSession .null
      match (← get).session with
      | some session => return session
      | none => throw .noSuchMember : Run Session) world := by
  rw [currentSession, Run.get_bind, h]
  rfl

theorem currentSession_of_running (store : BackupStore) {session : Session}
    (h : world.session = some session) : store.currentSession world = (.ok session, world) := by
  rw [currentSession, Run.get_bind, h]
  simp only [Option.isNone_some, Bool.false_eq_true, if_false]
  rw [Run.get_bind, h]
  rfl

theorem currentSession_of_made {grown : World} (h : world.session = none)
    (hmade : world.makeDirectories (store.newSession .null world.now).directory = .ok grown) :
    store.currentSession world = (.ok (store.newSession .null world.now),
      { grown with session := some (store.newSession .null world.now) }) := by
  have hstart : store.startSession .null world = (.ok (store.newSession .null world.now).directory,
      { grown with session := some (store.newSession .null world.now) }) := by
    rw [startSession_apply, hmade]
  rw [currentSession_of_idle store h, Run.bind_ok hstart, Run.get_bind]
  generalize store.newSession .null world.now = session
  rfl

/-- The session in progress is had, or its directory cannot be made and nothing has changed. -/
theorem currentSession_cases (store : BackupStore) (world : World) :
    (∃ fault, store.currentSession world = (.error fault, world)) ∨
      ∃ session ready, store.currentSession world = (.ok session, ready) ∧
        store.Current world session ready := by
  cases hsession : world.session with
  | some session =>
    exact Or.inr ⟨session, world, currentSession_of_running store hsession, .running hsession⟩
  | none =>
    cases hmade : world.makeDirectories (store.newSession .null world.now).directory with
    | error fault =>
      have hstart : store.startSession .null world = (.error fault, world) := by
        rw [startSession_apply, hmade]
      refine Or.inl ⟨fault, ?_⟩
      rw [currentSession_of_idle store hsession]
      exact Run.bind_error hstart _
    | ok grown =>
      exact Or.inr ⟨_, _, currentSession_of_made hsession hmade, .opened hsession hmade⟩

/-- A backup without a session opens one, for no purpose, and is a backup in that session. -/
theorem backupFile_of_idle (store : BackupStore) (path : Path) (h : world.session = none) :
    store.backupFile path world = (do
      let _ ← store.startSession .null
      store.backupFile path : Run (Option Path)) world := by
  cases hmade : world.makeDirectories (store.newSession .null world.now).directory with
  | error fault =>
    have hstart : store.startSession .null world = (.error fault, world) := by
      rw [startSession_apply, hmade]
    have hcurrent : store.currentSession world = (.error fault, world) := by
      rw [currentSession_of_idle store h]
      exact Run.bind_error hstart _
    rw [Run.bind_error hstart, backupFile, Run.bind_error hcurrent]
  | ok grown =>
    have hstart : store.startSession .null world =
        (.ok (store.newSession .null world.now).directory,
          { grown with session := some (store.newSession .null world.now) }) := by
      rw [startSession_apply, hmade]
    rw [Run.bind_ok hstart, backupFile, Run.bind_ok (currentSession_of_made h hmade),
      Run.bind_ok (currentSession_of_running store rfl)]

/-- **All that backing up a file can do.** -/
theorem backupFile_cases (store : BackupStore) (path : Path) (world : World) :
    store.BackedUp path world (store.backupFile path world) := by
  rcases store.currentSession_cases world with ⟨fault, hcurrent⟩ |
    ⟨session, ready, hcurrent, current⟩
  · rw [backupFile, Run.bind_error hcurrent]
    exact .fault .start
  rw [backupFile, Run.bind_ok hcurrent, Run.bind_apply, Run.pathExists, Run.read_apply]
  cases hthere : ready.pathExists path with
  | error fault => exact .fault (.session current)
  | ok there =>
  cases there with
  | false => exact .absent current hthere
  | true =>
  change store.BackedUp path world ((Run.read (fun world => world.resolve path) >>= _) ready)
  rw [Run.bind_apply, Run.read_apply, World.resolve]
  cases path.hasNull with
  | true => exact .fault (.session current)
  | false =>
  simp only [Bool.false_eq_true, if_false, Run.ofExcept]
  change store.BackedUp path world ((if (path.resolve ready.workingDirectory).toText ∈
    session.files then _ else _ : Run (Option Path)) ready)
  split_ifs with hlisted
  · exact .listed current hlisted
  change store.BackedUp path world ((Run.makeDirectories
    (copyPath session ready.workingDirectory path).parent >>= _) ready)
  rw [Run.bind_apply, Run.makeDirectories, Run.change_apply]
  cases hmade : ready.makeDirectories (copyPath session ready.workingDirectory path).parent with
  | error fault => exact .fault (.session current)
  | ok grown =>
  change store.BackedUp path world ((Run.copyFile path
    (copyPath session ready.workingDirectory path) >>= _) grown)
  rw [Run.bind_apply, Run.copyFile, Run.change_apply]
  cases hcopied : grown.copyFile path (copyPath session ready.workingDirectory path) with
  | error fault => exact .fault (.directories current hmade)
  | ok last => exact .copied current hlisted hmade hcopied

/-! ### What backing up leaves as it was -/

variable {session : Session} {ready last : World}

theorem Current.sameFiles (h : store.Current world session ready) : world.SameFiles ready := by
  cases h with
  | running inProgress => exact .refl world
  | opened idle made => exact (World.grows_of_makeDirectories made).2.sameFiles

theorem Current.eq_files (h : store.Current world session ready) :
    ready = { world with files := ready.files, session := some session } := by
  cases h with
  | running inProgress => rw [← inProgress]
  | opened idle made => rw [(World.grows_of_makeDirectories made).2.eq_files]

theorem Current.hasFile {place : List String} {file : Entry}
    (h : store.Current world session ready) (hfile : world.HasFile path place file) :
    ready.HasFile path place file := by
  cases h with
  | running inProgress => exact hfile
  | opened idle made =>
    have hgrown := (World.grows_of_makeDirectories made).2.hasFile hfile
    exact ⟨hgrown.toWritable.of_place (fun _ => Iff.rfl) rfl, hgrown.seen⟩

/-- A backup that fails has changed no file. -/
theorem Begun.sameFiles (h : store.Begun path world last) : world.SameFiles last := by
  cases h with
  | start => exact .refl world
  | session current => exact current.sameFiles
  | directories current made =>
    exact current.sameFiles.trans (World.grows_of_makeDirectories made).2.sameFiles

/-- Backing up changes the files, the session and the log, and nothing else. -/
theorem BackedUp.eq_files {outcome : Except Fault (Option Path)}
    (h : store.BackedUp path world (outcome, last)) :
    ∃ files session log, last = { world with files := files, session := session, log := log } := by
  cases h with
  | fault begun =>
    cases begun with
    | start => exact ⟨_, _, _, rfl⟩
    | session current => exact ⟨_, _, _, current.eq_files⟩
    | directories current made =>
      rw [(World.grows_of_makeDirectories made).2.eq_files, current.eq_files]
      exact ⟨_, _, _, rfl⟩
  | absent current gone =>
    rw [current.eq_files]
    exact ⟨_, _, _, rfl⟩
  | listed current known => exact ⟨_, _, _, current.eq_files⟩
  | copied current new made copied =>
    obtain ⟨place, file, spot, -, -, -, rfl⟩ := World.copyFile_eq_ok_iff.1 copied
    rw [(World.grows_of_makeDirectories made).2.eq_files, current.eq_files]
    exact ⟨_, _, _, rfl⟩

end BackupStore

/-! ### Writing the result -/

namespace Processor

variable {processor : Processor} {path beside : Path} {text : Text} {world world' : World}

/-- Backs up a file, if there is a store. -/
def backUp (processor : Processor) (path : Path) : Run (Option Path) :=
  match processor.store with
  | some store => store.backupFile path
  | none => pure none

/-- A fixed text is written between the backup of the file and the removal of its dump. -/
theorem writeFixed_eq (processor : Processor) (path : Path) (text : Text) :
    processor.writeFixed path text = (do
      let backup ← processor.backUp path
      Run.writeText path text
      processor.discardSidecar path
      return backup) := by
  rw [writeFixed, backUp]
  cases processor.store <;> rfl

/-- Where a file has been backed up, the rest decides. -/
theorem writeFixed_of_backUp {backup : Option Path} {copied last : World}
    (hbackup : processor.backUp path world = (.ok backup, copied))
    (hrest : (do Run.writeText path text; processor.discardSidecar path : Run Unit) copied =
      (.ok (), last)) : processor.writeFixed path text world = (.ok backup, last) := by
  obtain ⟨_, written, hwritten, hdiscarded⟩ := Run.bind_iff.1 hrest
  rw [writeFixed_eq, Run.bind_ok hbackup, Run.bind_ok hwritten]
  exact Run.bind_ok hdiscarded _

/-- Backing up is what the store does, if there is one. -/
theorem backUp_cases {outcome : Except Fault (Option Path)}
    (h : processor.backUp path world = (outcome, world')) :
    processor.store = none ∧ outcome = .ok none ∧ world' = world ∨
      ∃ store, processor.store = some store ∧ store.BackedUp path world (outcome, world') := by
  rw [backUp] at h
  cases hstore : processor.store with
  | none =>
    rw [hstore] at h
    obtain ⟨rfl, rfl⟩ := Prod.mk.inj h
    exact Or.inl ⟨rfl, rfl, rfl⟩
  | some store =>
    rw [hstore] at h
    exact Or.inr ⟨store, rfl, h ▸ store.backupFile_cases path world⟩

theorem backUp_eq_files {outcome : Except Fault (Option Path)}
    (h : processor.backUp path world = (outcome, world')) :
    ∃ files session log, world' = { world with files := files, session := session, log := log } := by
  rcases backUp_cases h with ⟨-, -, rfl⟩ | ⟨store, -, hbacked⟩
  · exact ⟨_, _, _, rfl⟩
  · exact hbacked.eq_files

/-- A dump beside a file has its name and the suffix of dumps. -/
theorem sidecar_eq_ok_iff : processor.sidecar path = .ok beside ↔
    ∃ suffix, processor.config.parser.astSuffix = .str suffix ∧
      path.withName (path.name ++ suffix) = .ok beside := by
  rw [sidecar]
  split
  · rename_i suffix hsuffix
    simp [hsuffix]
  · rename_i hother
    refine iff_of_false (by simp) ?_
    rintro ⟨suffix, hsuffix, -⟩
    exact hother suffix hsuffix

theorem parts_of_sidecar (h : processor.sidecar path = .ok beside) :
    path.parts ≠ [] ∧ beside.parts ≠ [] := by
  obtain ⟨suffix, -, hname⟩ := sidecar_eq_ok_iff.1 h
  obtain ⟨hparts, rfl⟩ := Path.eq_of_withName hname
  exact ⟨hparts, by simp⟩

/-- A dump has another name than its file, unless the suffix of dumps is empty. -/
theorem name_ne_of_sidecar (h : processor.sidecar path = .ok beside)
    (hsuffix : processor.config.parser.astSuffix ≠ .str "") : path.name ≠ beside.name := by
  obtain ⟨suffix, heq, hname⟩ := sidecar_eq_ok_iff.1 h
  obtain ⟨-, rfl⟩ := Path.eq_of_withName hname
  rw [Path.name_concat]
  intro hsame
  have hlength := congrArg String.length hsame
  rw [String.length_append] at hlength
  exact hsuffix (heq.trans (congrArg Json.str (String.length_eq_zero_iff.1 (by omega))))

/-- What neither the log nor the removal of the dump beside a file can break is kept when the dump is
discarded. -/
theorem discardSidecar_keeps {inv : World → Prop}
    (hlog : ∀ world log, inv world → inv { world with log := log })
    (hremoved : ∀ beside world world', processor.sidecar path = .ok beside → inv world →
      world.removeFile beside = .ok world' → inv world') :
    Run.Keeps inv (processor.discardSidecar path) := by
  intro world h
  cases hbeside : processor.sidecar path with
  | error fault =>
    have hfault : Run.ofExcept (processor.sidecar path) world = (.error fault, world) := by
      rw [hbeside]
      rfl
    rw [discardSidecar, Run.bind_error hfault]
    exact h
  | ok beside =>
    rw [discardSidecar, Run.bind_ok (Run.ofExcept_iff.2 ⟨hbeside, rfl⟩)]
    refine (Run.keeps_read _).bind (fun there => ?_) world h
    cases there with
    | false => exact Run.keeps_pure ()
    | true =>
      exact (Run.keeps_change fun before after => hremoved beside before after hbeside).bind fun _ =>
        Run.keeps_modify fun last => hlog last _

/-- **The dump beside a file is gone once it is discarded,** and everything else is seen as
before. -/
theorem discardSidecar_of_ok (h : processor.discardSidecar path world = (.ok (), world')) :
    ∃ beside, processor.sidecar path = .ok beside ∧ world'.pathExists beside = .ok false ∧
      (∃ log, world' = { world with files := world'.files, log := log }) ∧
      ∀ other, world'.files.seen other = world.files.seen other ∨
        world.Writable beside other ∧ world'.files.seen other = none := by
  obtain ⟨beside, between, heq, h⟩ := Run.bind_iff.1 h
  obtain ⟨hsidecar, rfl⟩ := Run.ofExcept_iff.1 heq
  refine ⟨beside, hsidecar, ?_⟩
  obtain ⟨there, between, heq, h⟩ := Run.bind_iff.1 h
  obtain ⟨hexists, rfl⟩ := Run.pathExists_iff.1 heq
  cases there with
  | false =>
    obtain ⟨-, rfl⟩ := Run.pure_iff.1 h
    exact ⟨hexists, ⟨_, rfl⟩, fun other => Or.inl rfl⟩
  | true =>
    obtain ⟨_, removed, hremove, h⟩ := Run.bind_iff.1 h
    obtain ⟨place, hplace, hseen, rfl⟩ :=
      World.removeFile_eq_ok_iff.1 (Run.removeFile_iff.1 hremove)
    obtain rfl := (Prod.mk.inj h).2
    have hparts := (parts_of_sidecar hsidecar).2
    have hsame : ∀ other,
        world.files.IsDirectoryAt other ↔ (world.files.remove place).IsDirectoryAt other :=
      fun _ => (hplace.isDirectoryAt_remove_iff hparts).symm
    have hafter : ({ world with files := world.files.remove place } : World).Writable beside place :=
      hplace.of_place hsame rfl
    refine ⟨World.pathExists_eq_false hafter.leads ?_, ⟨_, rfl⟩, fun other => ?_⟩
    · exact (hplace.seen_remove hparts place).trans (if_pos rfl)
    · have hother := hplace.seen_remove hparts other
      split_ifs at hother with heq
      · exact Or.inr ⟨heq ▸ hplace, hother⟩
      · exact Or.inl hother

/-- A dump is discarded without a change of the directories. -/
theorem discardSidecar_isDirectoryAt_iff
    (h : processor.discardSidecar path world = (.ok (), world')) (other : List String) :
    world.files.IsDirectoryAt other ↔ world'.files.IsDirectoryAt other := by
  obtain ⟨beside, -, -, -, hseen⟩ := discardSidecar_of_ok h
  rcases hseen other with hsame | ⟨hplace, hnone⟩
  · rw [Entry.IsDirectoryAt, Entry.IsDirectoryAt, hsame]
  · exact iff_of_false hplace.notDirectory (by simp [Entry.IsDirectoryAt, hnone])

/-- The file keeps its text when its dump is discarded, unless it is its own dump. -/
theorem discardSidecar_hasFile {place : List String} {file : Entry}
    (h : processor.discardSidecar path world = (.ok (), world'))
    (hsuffix : processor.config.parser.astSuffix ≠ .str "")
    (hfile : world.HasFile path place file) : world'.HasFile path place file := by
  obtain ⟨beside, hbeside, -, ⟨log, hworld⟩, hseen⟩ := discardSidecar_of_ok h
  obtain ⟨hparts, hparts'⟩ := parts_of_sidecar hbeside
  refine ⟨hfile.toWritable.of_place (discardSidecar_isDirectoryAt_iff h) (by rw [hworld]), ?_⟩
  rcases hseen place with hsame | ⟨hplace, -⟩
  · rw [hsame, hfile.seen]
  · exact absurd rfl (hfile.place_ne hplace hparts hparts' (name_ne_of_sidecar hbeside hsuffix))

/-- **A result that is written has been backed up before, and the dump beside it is discarded
after.** -/
theorem writeFixed_of_ok {backup : Option Path}
    (h : processor.writeFixed path text world = (.ok backup, world')) :
    ∃ ready place, processor.backUp path world = (.ok backup, ready) ∧ ready.Writable path place ∧
      processor.discardSidecar path
        { ready with files := ready.files.put place (.file (.text text) none) } =
          (.ok (), world') := by
  rw [writeFixed_eq] at h
  obtain ⟨copy, ready, hbackup, h⟩ := Run.bind_iff.1 h
  obtain ⟨_, written, hwritten, h⟩ := Run.bind_iff.1 h
  obtain ⟨place, hplace, rfl⟩ := World.writeFile_eq_ok_iff.1 (Run.writeText_iff.1 hwritten)
  obtain ⟨_, last, hdiscard, h⟩ := Run.bind_iff.1 h
  obtain ⟨rfl, rfl⟩ := Run.pure_iff.1 h
  exact ⟨ready, place, hbackup, hplace, hdiscard⟩

end Processor
end UsageOrder
