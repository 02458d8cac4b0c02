import UsageOrder.Proofs.Opening

/-!
# What a run of fixes keeps for its undoing

A run opens a session, and before it writes a file it copies it there.  So at every point of the run
each file that was found is as it was, or the session has a copy of what it was
(`BackupStore.Undoable`).  Every step keeps this, whether it succeeds or fails: the copy through which
a text is parsed is removed again, directories are made in the session only, a file is written when
the session has a copy of it, and no other file is removed than dumps.

What is stored in other sessions is not changed (`Entry.Dated`), as long as no file that was found is
in one of them.
-/

namespace UsageOrder
namespace BackupStore

/-! ### The setting of a run -/

/-- A world in which a session can be opened for the files that were found. -/
structure Ordinary (store : BackupStore) (id : String) (found : List Path) (start : World) : Prop
    extends store.Fresh id start where
  /-- No file has the name under which the session keeps its metadata. -/
  noMetadata : start.files.seen metadataFile.parts = none
  /-- No file has the name of the copy through which a fixed text is parsed. -/
  noScratch : ∀ path ∈ found, ∀ copy, Processor.scratch path = .ok copy → ∀ file,
    start.files.seen (copy.spot start.workingDirectory) ≠ some (some file)

/-- **A run of fixes that can be undone,** over the files that were found at its start. -/
structure Reversible (store : BackupStore) (id : String) (found : List Path) (start : World) : Prop
    extends store.Ordinary id found start where
  /-- No file that was found is taken for a part of a stored session. -/
  apart : ∀ path ∈ found,
    ¬ InSession (store.base start.workingDirectory) (path.spot start.workingDirectory)
  /-- The way to the directory of the sessions does not lead through a session. -/
  way : ∀ count name, sessionMark.toList.isPrefixOf name.toList = true →
    ¬ store.base start.workingDirectory ++ [name] <+:
      (store.directory.upTo count).spot start.workingDirectory

/-- What is known of a run, its session and the files that it was started on. -/
structure Setting (processor : Processor) (store : BackupStore) (session : Session)
    (found : List Path) (start : World) : Prop
    extends store.Reversible session.id found start where
  id : SessionName session.id
  path : session.directory = store.sessionPath session.id
  files : ∀ path ∈ found, path.parts ≠ [] ∧ path.name ≠ ".." ∧
    ∃ file, start.files.seen (path.spot start.workingDirectory) = some (some file)
  /-- The dump beside a file is none of the files, unless it is the file itself. -/
  sidecars : ∀ path ∈ found, ∀ beside, processor.sidecar path = .ok beside → ∀ other ∈ found,
    beside.spot start.workingDirectory = other.spot start.workingDirectory →
      beside.spot start.workingDirectory = path.spot start.workingDirectory

/-- **Every file that was found is as it was, or the session has a copy of it as it was.** -/
structure Undoable (store : BackupStore) (session : Session) (found : List Path) (start : World)
    (copies : List Copy) (world : World) : Prop where
  saving : Saving store session start.workingDirectory (· = session.id) copies world
  asBefore : ∀ copy ∈ copies, start.files.contentAt copy.place = some copy.content
  untouched : ∀ path ∈ found, path.spot start.workingDirectory ∉ copies.map Copy.place →
    world.files.seen (path.spot start.workingDirectory) =
      start.files.seen (path.spot start.workingDirectory)
  /-- There are no new files outside of the session. -/
  files : ∀ place file, world.files.seen place = some (some file) →
    store.sessionPlace session.id start.workingDirectory <+: place ∨
      ∃ old, start.files.seen place = some (some old)

variable {processor : Processor} {store : BackupStore} {session : Session} {found : List Path}
  {copies : List Copy} {start world world' : World} {path : Path}

namespace Setting

theorem site (h : Setting processor store session found start) :
    store.Site session start.workingDirectory where
  names := h.world.names _ (by rw [h.world.workingDirectory]; simp)
  id := h.id
  path := h.path
  way := h.way

/-- No file that was found is in the new session. -/
theorem not_prefix (h : Setting processor store session found start) (hpath : path ∈ found) :
    ¬ store.sessionPlace session.id start.workingDirectory <+:
      path.spot start.workingDirectory := by
  rintro ⟨rest, hrest⟩
  obtain ⟨-, -, file, hfile⟩ := h.files path hpath
  rw [← hrest, Entry.seen_append_of_none h.unused] at hfile
  exact absurd hfile (by simp)

theorem spot_eq (h : Setting processor store session found start) (hpath : path ∈ found) :
    path.spot start.workingDirectory = path.parent.spot start.workingDirectory ++ [path.name] := by
  obtain ⟨hparts, hname, -⟩ := h.files path hpath
  exact Path.spot_eq_concat hparts hname

/-- Every file that was found can be backed up. -/
theorem eligible (h : Setting processor store session found start) (hpath : path ∈ found) :
    store.Eligible session.id start.workingDirectory (path.spot start.workingDirectory) where
  ne_nil := by
    rw [h.spot_eq hpath]
    exact List.concat_ne_nil _ _
  names := by
    obtain ⟨-, -, file, hfile⟩ := h.files path hpath
    exact h.world.names _ (by rw [hfile]; simp)
  apart := h.apart path hpath
  notInside := h.not_prefix hpath
  notMetadata := by
    rintro ⟨rest, hrest⟩
    obtain ⟨-, -, file, hfile⟩ := h.files path hpath
    rw [← hrest, Entry.seen_append_of_none h.noMetadata] at hfile
    exact absurd hfile (by simp)

/-- What is beside a file that was found is not in the new session. -/
theorem eq_of_prefix_beside (h : Setting processor store session found start) (hpath : path ∈ found)
    {name : String} (hstarts : store.sessionPlace session.id start.workingDirectory <+:
      path.parent.spot start.workingDirectory ++ [name]) :
    store.sessionPlace session.id start.workingDirectory =
      path.parent.spot start.workingDirectory ++ [name] := by
  rcases List.prefix_concat_iff.1 hstarts with heq | hparent
  · exact heq
  · refine absurd ?_ (h.not_prefix hpath)
    rw [h.spot_eq hpath]
    exact hparent.trans (List.prefix_append _ _)

/-- No file that was found is in the directory of another session. -/
theorem parent_ne (h : Setting processor store session found start) (hpath : path ∈ found)
    {name : String} (hname : sessionMark.toList.isPrefixOf name.toList = true) :
    path.parent.spot start.workingDirectory ≠ store.base start.workingDirectory ++ [name] := by
  intro hparent
  have hspot := h.spot_eq hpath
  rw [hparent] at hspot
  refine h.apart path hpath ⟨name, hname, hspot ▸ List.prefix_append _ _, fun heq => ?_⟩
  rw [hspot] at heq
  exact absurd (congrArg List.length heq) (by simp)

/-! ### The times of the sessions -/

variable {top entry : Entry} {name : String}

/-- No other session changes when something is written beside a file that was found. -/
theorem dated_put (h : Setting processor store session found start) (hpath : path ∈ found)
    (hdated : top.Dated (store.base start.workingDirectory) (· = session.id))
    (hparent : top.IsDirectoryAt (path.parent.spot start.workingDirectory))
    (hleaf : entry.leaf? = some entry)
    (hentry : path.parent.spot start.workingDirectory = store.base start.workingDirectory →
      isSession (name, entry) = false) :
    (top.put (path.parent.spot start.workingDirectory ++ [name]) entry).Dated
      (store.base start.workingDirectory) (· = session.id) := by
  refine hdated.put hparent (fun rest members changed hat => ?_)
    (fun other hother hmark => absurd hother (h.parent_ne hpath hmark)) fun hbase hsession _ => ?_
  · exact Entry.members_eq_nil_of_leaf hleaf hat
  · exact absurd ((hentry hbase).symm.trans hsession) (by simp)

theorem dated_remove (h : Setting processor store session found start) (hpath : path ∈ found)
    (hdated : top.Dated (store.base start.workingDirectory) (· = session.id)) :
    (top.remove (path.parent.spot start.workingDirectory ++ [name])).Dated
      (store.base start.workingDirectory) (· = session.id) :=
  hdated.remove (fun _ hother hmark => absurd hother (h.parent_ne hpath hmark)) fun _ _ hname => hname

end Setting

/-! ### The start of a run -/

/-- **A run that has opened its session can be undone.** -/
theorem Undoable.opened (hset : Setting processor store session found start)
    (hempty : session.files = []) {grown last : World}
    (hstore : ({ start with session := none } : World).makeDirectories store.directory = .ok grown)
    (hsession : grown.makeDirectories session.directory = .ok last) :
    Undoable store session found start [] { last with session := some session } := by
  have hbase := (World.grows_of_makeDirectories hstore).2
  have hgrows := (World.grows_of_makeDirectories hsession).2
  have hdots := hset.site.dots_not_mem
  have hworking : grown.workingDirectory = start.workingDirectory := hbase.workingDirectory
  have hunused : grown.files.seen (store.sessionPlace session.id start.workingDirectory) = none := by
    rcases hbase.seen_spot hdots (store.sessionPlace session.id start.workingDirectory) with
      hsame | ⟨-, -, count, heq⟩
    · exact hsame.trans hset.unused
    · exact absurd (heq ▸ List.prefix_rfl) (hset.way count session.id hset.id.marked)
  have hdated : grown.files.Dated (store.base start.workingDirectory) (· = session.id) := by
    have hstart : start.files.Dated (store.base start.workingDirectory) (· = session.id) :=
      hset.toFresh.dated
    have hgrown := dated_grows hbase hdots hset.world.workingDirectory hstart
      fun count name hmark hstarts => absurd hstarts (hset.way count name hmark)
    exact hgrown
  have hfiles : ∀ place file, last.files.seen place = some (some file) ↔
      start.files.seen place = some (some file) :=
    fun place file => (hgrows.sameFiles place file).trans (hbase.sameFiles place file)
  exact {
    saving := Saving.opened hset.site hempty rfl hworking
      (hbase.isDirectoryAt hset.world.workingDirectory) hunused hdated hsession
    asBefore := fun copy hcopy => absurd hcopy List.not_mem_nil
    untouched := fun path hpath _ => by
      obtain ⟨-, -, file, hfile⟩ := hset.files path hpath
      exact ((hfiles _ file).2 hfile).trans hfile.symm
    files := fun place file hplace => Or.inr ⟨file, (hfiles place file).1 hplace⟩ }

namespace Undoable

/-- A change in the session that keeps the copies keeps a run undoable. -/
theorem of_frame (h : Undoable store session found start copies world)
    (hset : Setting processor store session found start)
    (hsaving : Saving store session start.workingDirectory (· = session.id) copies world')
    (hframe : ∀ place, ¬ store.sessionPlace session.id start.workingDirectory <+: place →
      world'.files.seen place = world.files.seen place) :
    Undoable store session found start copies world' where
  saving := hsaving
  asBefore := h.asBefore
  untouched path hpath hcopies :=
    (hframe _ (hset.not_prefix hpath)).trans (h.untouched path hpath hcopies)
  files place file hfile := by
    by_cases hinside : store.sessionPlace session.id start.workingDirectory <+: place
    · exact Or.inl hinside
    · exact h.files place file ((hframe place hinside).symm.trans hfile)

/-- A change that is not seen, of the log or of times, keeps a run undoable. -/
theorem of_seen (h : Undoable store session found start copies world)
    (hset : Setting processor store session found start)
    (hworking : world'.workingDirectory = world.workingDirectory)
    (hsession : world'.session = world.session)
    (hseen : ∀ place, world'.files.seen place = world.files.seen place)
    (hdated : world'.files.Dated (store.base start.workingDirectory) (· = session.id)) :
    Undoable store session found start copies world' :=
  h.of_frame hset (h.saving.of_seen hworking hsession hseen hdated) fun place _ => hseen place

theorem place_iff (h : Undoable store session found start copies world)
    (hset : Setting processor store session found start) {place : List String} :
    world.place path = .ok place ↔
      world.Leads path ∧ place = path.spot start.workingDirectory :=
  h.saving.place_iff hset.site

/-- A file beside one that was found can be written in the directory of the latter. -/
theorem parent_of_writable (h : Undoable store session found start copies world)
    (hset : Setting processor store session found start) {beside : Path} {name : String}
    {place : List String} (hbeside : path.withName name = .ok beside)
    (hplace : world.Writable beside place) :
    world.files.IsDirectoryAt (path.parent.spot start.workingDirectory) ∧
      place = path.parent.spot start.workingDirectory ++ [name] := by
  have hparts : beside.parts ≠ [] := by
    rw [(Path.eq_of_withName hbeside).2]
    simp
  have hname : beside.name = name := by
    rw [(Path.eq_of_withName hbeside).2]
    exact Path.name_concat ..
  obtain ⟨-, rfl⟩ := (h.place_iff hset).1 hplace.leads
  obtain ⟨parent, hparent, hspot⟩ := hplace.exists_parent hparts
  have hdots := hname ▸ hplace.name_ne_dots hparts
  rw [Path.spot_of_withName hbeside hdots] at hspot ⊢
  obtain ⟨rfl, -⟩ := List.append_inj' hspot rfl
  exact ⟨hparent, rfl⟩

/-- A file beside one that was found is not in the session. -/
theorem not_prefix_beside (h : Undoable store session found start copies world)
    (hset : Setting processor store session found start) (hpath : path ∈ found) {beside : Path}
    {name : String} {place : List String} (hbeside : path.withName name = .ok beside)
    (hplace : world.Writable beside place) :
    ¬ store.sessionPlace session.id start.workingDirectory <+: place := by
  intro hstarts
  obtain ⟨-, rfl⟩ := h.parent_of_writable hset hbeside hplace
  exact hplace.notDirectory (hset.eq_of_prefix_beside hpath hstarts ▸ h.saving.directory)

/-! ### The copy through which a text is parsed -/

/-- The copy through which a text is parsed takes no place that is in use. -/
theorem seen_scratch (h : Undoable store session found start copies world)
    (hset : Setting processor store session found start) (hpath : path ∈ found) {copy : Path}
    {place : List String} (hcopy : Processor.scratch path = .ok copy)
    (hplace : world.Writable copy place) : world.files.seen place = none := by
  have hspot : place = copy.spot start.workingDirectory := ((h.place_iff hset).1 hplace.leads).2
  cases hseen : world.files.seen place with
  | none => rfl
  | some entry =>
    cases entry with
    | none => exact absurd hseen hplace.notDirectory
    | some file =>
      exfalso
      rcases h.files place file hseen with hunder | ⟨old, hold⟩
      · exact h.not_prefix_beside hset hpath hcopy hplace hunder
      · exact hset.noScratch path hpath copy hcopy old (hspot ▸ hold)

/-- **Parsing a text through a copy keeps a run undoable,** and the files as they are seen. -/
theorem scratch (h : Undoable store session found start copies world)
    (hset : Setting processor store session found start) (hpath : path ∈ found) {copy : Path}
    {place : List String} (hcopy : Processor.scratch path = .ok copy)
    (hplace : world.Writable copy place) (text : Text) :
    (∀ other, ((world.files.put place (.file (.text text) none)).remove place).seen other =
        world.files.seen other) ∧
      Undoable store session found start copies { world with
        files := (world.files.put place (.file (.text text) none)).remove place } := by
  have hparts : copy.parts ≠ [] := by
    rw [(Path.eq_of_withName hcopy).2]
    simp
  have hleaf : (Entry.file (.text text) none).leaf? = some (.file (.text text) none) := rfl
  have hseen : ∀ other, ((world.files.put place (.file (.text text) none)).remove place).seen other =
      world.files.seen other := by
    intro other
    rw [(hplace.hasFile_put hparts hleaf).seen_remove hparts, hplace.seen_put hparts hleaf]
    split_ifs with hother
    · rw [hother, h.seen_scratch hset hpath hcopy hplace]
    · rfl
  refine ⟨hseen, h.of_seen hset rfl rfl hseen ?_⟩
  obtain ⟨hparent, rfl⟩ := h.parent_of_writable hset hcopy hplace
  refine hset.dated_remove hpath (hset.dated_put hpath h.saving.dated hparent hleaf fun _ => ?_)
  -- The name of the copy starts with a dot.
  simp [isSession, sessionMark]

theorem tolerates (hset : Setting processor store session found start) (hpath : path ∈ found)
    (before : World) :
    Processor.Tolerates path fun world => Undoable store session found start copies world ∧
      ∀ place file, before.HasFile path place file → world.HasFile path place file where
  quiet world calls log hworld := by
    refine ⟨hworld.1.of_seen hset rfl rfl (fun _ => rfl) hworld.1.saving.dated,
      fun place file hfile => ?_⟩
    have hold := hworld.2 place file hfile
    exact ⟨hold.toWritable.of_place (fun _ => Iff.rfl) rfl, hold.seen⟩
  copied copy place text world hcopy hworld hplace := by
    obtain ⟨hseen, hundoable⟩ := hworld.1.scratch hset hpath hcopy hplace text
    refine ⟨hundoable, fun other file hfile => ?_⟩
    have hold := hworld.2 other file hfile
    refine ⟨hold.toWritable.of_place (fun spot => ?_) rfl, (hseen other).trans hold.seen⟩
    rw [Entry.IsDirectoryAt, Entry.IsDirectoryAt, hseen]

/-! ### A file that is fixed -/

/-- **Backing up a file keeps a run undoable,** and if it succeeds, the session has a copy. -/
theorem backedUp (h : Undoable store session found start copies world)
    (hset : Setting processor store session found start) (hpath : path ∈ found)
    {place : List String} {file : Entry} {outcome : Except Fault (Option Path)}
    (hfile : world.HasFile path place file)
    (hbacked : store.BackedUp path world (outcome, world')) :
    ∃ copies', Undoable store session found start copies' world' ∧ ∀ backup,
      outcome = .ok backup → path.spot start.workingDirectory ∈ copies'.map Copy.place := by
  obtain ⟨hwithin, ⟨hsaving, hlisted⟩ | ⟨content, backup, -, hnew, hcontent, hsaving⟩⟩ :=
    h.saving.backedUp hset.site rfl (hset.eligible hpath) hfile hbacked
  · exact ⟨copies, h.of_frame hset hsaving fun _ => hwithin.seen_eq, hlisted⟩
  · refine ⟨_, ⟨hsaving, List.forall_mem_append.2 ⟨h.asBefore, List.forall_mem_singleton.2 ?_⟩,
      fun other hother hcopies => ?_, fun spot old hold => ?_⟩, fun _ _ => by simp⟩
    · exact (Entry.contentAt_congr (h.untouched path hpath hnew)).symm.trans hcontent
    · rw [List.map_append, List.mem_append, not_or] at hcopies
      exact (hwithin.seen_eq (hset.not_prefix hother)).trans (h.untouched other hother hcopies.1)
    · by_cases hinside : store.sessionPlace session.id start.workingDirectory <+: spot
      · exact Or.inl hinside
      · exact h.files spot old ((hwithin.seen_eq hinside).symm.trans hold)

/-- A file of which the session has a copy can be written. -/
theorem written (h : Undoable store session found start copies world)
    (hset : Setting processor store session found start) (hpath : path ∈ found)
    (hcopied : path.spot start.workingDirectory ∈ copies.map Copy.place)
    {text : Text} (hwritten : world.writeText path text = .ok world') :
    Undoable store session found start copies world' := by
  obtain ⟨hparts, -, hold⟩ := hset.files path hpath
  obtain ⟨place, hplace, rfl⟩ := World.writeFile_eq_ok_iff.1 hwritten
  obtain ⟨-, rfl⟩ := (h.place_iff hset).1 hplace.leads
  have hspot := hset.spot_eq hpath
  have hseen := hplace.seen_put hparts (rfl : (Entry.file (.text text) none).leaf? = _)
  refine ⟨h.saving.put hplace hparts rfl (hset.not_prefix hpath) ?_, h.asBefore,
    fun other hother hcopies => ?_, fun other new hnew => ?_⟩
  · obtain ⟨parent, hparent, heq⟩ := hplace.exists_parent hparts
    obtain ⟨rfl, -⟩ := List.append_inj' (hspot.symm.trans heq) rfl
    rw [hspot]
    refine hset.dated_put hpath h.saving.dated hparent rfl fun hbase => ?_
    -- A file in the directory of the sessions is no session, since it was found.
    rw [Bool.eq_false_iff, isSession]
    intro hsession
    obtain ⟨hmark, hend⟩ := Bool.and_eq_true_iff.1 hsession
    rw [hbase] at hspot
    exact hset.apart path hpath ⟨path.name, hmark, hspot ▸ List.prefix_rfl, fun _ => hend⟩
  · have hne : other.spot start.workingDirectory ≠ path.spot start.workingDirectory :=
      fun heq => hcopies (heq ▸ hcopied)
    rw [hseen, if_neg hne]
    exact h.untouched other hother hcopies
  · rw [hseen] at hnew
    split_ifs at hnew with hother
    · exact Or.inr (hother ▸ hold)
    · exact h.files other new hnew

/-- The dump of a file of which the session has a copy can be discarded. -/
theorem discardSidecar_keeps (hset : Setting processor store session found start)
    (hpath : path ∈ found)
    (hcopied : path.spot start.workingDirectory ∈ copies.map Copy.place) :
    Run.Keeps (Undoable store session found start copies) (processor.discardSidecar path) := by
  refine Processor.discardSidecar_keeps
    (fun last log hlast => hlast.of_seen hset rfl rfl (fun _ => rfl) hlast.saving.dated)
    fun beside before after hbeside hbefore hremoved => ?_
  obtain ⟨suffix, -, hname⟩ := Processor.sidecar_eq_ok_iff.1 hbeside
  obtain ⟨place, hplace, -, rfl⟩ := World.removeFile_eq_ok_iff.1 hremoved
  have hparts := (Processor.parts_of_sidecar hbeside).2
  have hseen := hplace.seen_remove hparts
  obtain ⟨-, hspot⟩ := (hbefore.place_iff hset).1 hplace.leads
  obtain ⟨-, hparent⟩ := hbefore.parent_of_writable hset hname hplace
  refine ⟨hbefore.saving.remove hplace hparts
    (hbefore.not_prefix_beside hset hpath hname hplace) ?_, hbefore.asBefore,
    fun other hother hcopies => ?_, fun other old hold => ?_⟩
  · rw [hparent]
    exact hset.dated_remove hpath hbefore.saving.dated
  · have hne : other.spot start.workingDirectory ≠ place := fun heq => by
      have hsame := hset.sidecars path hpath beside hbeside other hother (hspot ▸ heq.symm)
      rw [heq, hspot, hsame] at hcopies
      exact hcopies hcopied
    rw [hseen, if_neg hne]
    exact hbefore.untouched other hother hcopies
  · rw [hseen] at hold
    split_ifs at hold
    exact hbefore.files other old hold

/-- **Writing the result of fixes keeps a run undoable.** -/
theorem writeFixed (h : Undoable store session found start copies world)
    (hset : Setting processor store session found start) (hstore : processor.store = some store)
    (hpath : path ∈ found) {place : List String} {file : Entry}
    (hfile : world.HasFile path place file) (text : Text) :
    ∃ copies', Undoable store session found start copies'
      (processor.writeFixed path text world).2 := by
  have hbackUp : processor.backUp path world = store.backupFile path world := by
    rw [Processor.backUp, hstore]
  have hcases := store.backupFile_cases path world
  rw [Processor.writeFixed_eq]
  rcases hbacked : store.backupFile path world with ⟨fault | backup, ready⟩
  · rw [hbacked] at hcases hbackUp
    obtain ⟨copies', hready, -⟩ := h.backedUp hset hpath hfile hcases
    rw [Run.bind_error hbackUp]
    exact ⟨copies', hready⟩
  · rw [hbacked] at hcases hbackUp
    obtain ⟨copies', hready, hcopied⟩ := h.backedUp hset hpath hfile hcases
    rw [Run.bind_ok hbackUp]
    refine ⟨copies', ((Run.keeps_change fun before after hbefore hwritten => ?_).bind fun _ =>
      (discardSidecar_keeps hset hpath (hcopied backup rfl)).bind fun _ =>
        Run.keeps_pure backup) ready hready⟩
    exact hbefore.written hset hpath (hcopied backup rfl) hwritten

/-- **Processing a file keeps a run undoable.** -/
theorem processFile (h : Undoable store session found start copies world)
    (hset : Setting processor store session found start) (hstore : processor.store = some store)
    (hpath : path ∈ found) (fix : Bool) (named : Option Path) :
    ∃ copies', Undoable store session found start copies'
      (processor.processFile path fix named world).2 := by
  have hends : processor.Ends path fix named (fun last => Undoable store session found start copies
      last ∧ ∀ place file, world.HasFile path place file → last.HasFile path place file) world
        (processor.processStrictly path fix named world) :=
    Processor.processStrictly_ends (tolerates hset hpath world) fix ⟨h, fun _ _ hfile => hfile⟩
  obtain ⟨⟨log, hlog⟩, -⟩ := processor.processFile_world path fix named world
  rw [hlog]
  suffices hstrictly : ∃ copies', Undoable store session found start copies'
      (processor.processStrictly path fix named world).2 by
    obtain ⟨copies', hlast⟩ := hstrictly
    exact ⟨copies', hlast.of_seen hset rfl rfl (fun _ => rfl) hlast.saving.dated⟩
  generalize processor.processStrictly path fix named world = result at hends ⊢
  cases hends with
  | fault kept => exact ⟨copies, kept.1⟩
  | report kept dry => exact ⟨copies, kept.1⟩
  | @write state left asked wet leaves kept =>
    obtain ⟨source, -, -, -, -, hread, -⟩ := leaves
    obtain ⟨place, value, changed, hfile, -⟩ := World.readText_eq_ok_iff.1 hread
    obtain ⟨copies', hlast⟩ :=
      kept.1.writeFixed hset hstore hpath (kept.2 place _ hfile) state.text
    refine ⟨copies', ?_⟩
    rw [Run.bind_apply]
    rcases hwrite : processor.writeFixed path state.text left with ⟨fault | backup, last⟩ <;>
      rw [hwrite] at hlast <;> exact hlast

/-- **A run over files keeps being undoable.** -/
theorem processBatch (h : Undoable store session found start copies world)
    (hset : Setting processor store session found start) (hstore : processor.store = some store)
    (fix : Bool) (named : Option Path) :
    ∃ copies', Undoable store session found start copies'
      (processor.processBatch found fix named world).2 := by
  have hkeeps : Run.Keeps (fun world => ∃ copies', Undoable store session found start copies' world)
      (processor.processBatch found fix named) := by
    refine Run.Keeps.mapM fun path hpath between hbetween => ?_
    obtain ⟨copies', hcopies⟩ := hbetween
    exact hcopies.processFile hset hstore hpath fix named
  exact hkeeps world ⟨copies, h⟩

end Undoable

end BackupStore
end UsageOrder
