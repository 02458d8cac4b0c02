import UsageOrder.Proofs.Indented
import UsageOrder.Proofs.Storing

/-!
# The restoration of a session

A session that is stored can be restored: an archive is unpacked for the time of the restoration, the
list of copies is read back, and every copy is put where its file was.  In the end every file that was
backed up holds what its copy holds, nothing else has changed, and the same sessions are stored
(`BackupStore.Kept.restored`).
-/

namespace UsageOrder

/-! ### Paths that can be used -/

/-- A place is not too far from the root if it is not too far below a directory. -/
theorem Path.Usable.root {base : Path} {place : List String} (h : (base.join ⟨0, place⟩).Usable)
    (hbase : base.parts ≠ []) (hplace : place ≠ []) : (⟨1, place⟩ : Path).Usable := by
  have hjoin : base.join ⟨0, place⟩ = ⟨base.slashes, base.parts ++ place⟩ := if_pos rfl
  rw [hjoin] at h
  have hparts : ∀ part ∈ place, part ∈ base.parts ++ place := fun part hpart =>
    List.mem_append_right _ hpart
  refine ⟨hasNull_eq_false_iff.2 fun part hpart =>
    hasNull_eq_false_iff.1 h.noNull part (hparts part hpart), ?_, fun part hpart =>
      h.parts part (hparts part hpart)⟩
  obtain ⟨slashes, parts⟩ := base
  obtain ⟨first, rest, rfl⟩ := List.exists_cons_of_ne_nil hbase
  have hwhole : (⟨slashes, first :: rest ++ place⟩ : Path).parts ≠ [] := by simp
  have hroot : (⟨1, place⟩ : Path).parts ≠ [] := hplace
  have hshort := h.short
  have hlong := utf8ByteSize_toText hwhole
  have hsize := utf8ByteSize_toText hroot
  simp only [List.cons_append, List.map_cons, List.map_append, List.sum_cons, List.sum_append]
    at hlong hsize hshort
  omega

/-- A directory has its old members once a new one is taken away. -/
theorem Entry.remove_put_member {members : List (String × Entry)} {name : String}
    (h : members.lookup name = none) (changed : ChangeTime) (new : Entry) :
    ((directory members changed).put [name] new).remove [name] = directory members none := by
  have hnames : ∀ member ∈ members, member.1 ≠ name := fun member hmember heq =>
    lookup_eq_none_iff.1 h (List.mem_map.2 ⟨member, hmember, heq⟩)
  have hput : (directory members changed).put [name] new =
      directory (members ++ [(name, new)]) none := by
    rw [put, h]
    rfl
  have hfilter : (members.filter fun member => decide (member.1 ≠ name)) = members :=
    List.filter_eq_self.2 fun member hmember => by simpa using hnames member hmember
  rw [hput, remove, lookup_append_new new h, if_pos (by simp), List.filter_append, hfilter]
  simp

namespace BackupStore

variable {store : BackupStore} {session : Session} {home : List String}
  {copies pending : List Copy} {copy : Copy} {world world' : World} {tree : Entry} {name : String}

/-! ### Paths into a stored session -/

namespace Standing

/-- A path below the directory of the sessions leads to what is there. -/
theorem leads_join (h : store.Standing home world) {more : List String} (hdots : ".." ∉ more)
    (husable : (store.directory.join ⟨0, more⟩).Usable)
    (hthere : ∀ count < more.length, 0 < count →
      world.files.IsDirectoryAt (store.base home ++ more.take count)) :
    world.Leads (store.directory.join ⟨0, more⟩) := by
  refine h.leads.join hdots husable fun count hcount => ?_
  rw [h.workingDirectory]
  rcases Nat.eq_zero_or_pos count with rfl | hpos
  · rw [List.take_zero, List.append_nil]
    exact h.directory
  · exact hthere count hcount hpos

theorem leads_member (h : store.Standing home world) (hdots : name ≠ "..")
    (husable : (store.directory.join ⟨0, [name]⟩).Usable) :
    world.Leads (store.directory.join ⟨0, [name]⟩) :=
  h.leads_join (by simpa using hdots.symm) husable fun count hcount hpos =>
    absurd hcount (by simp only [List.length_singleton]; omega)

/-- A file of a stored session is found by its path. -/
theorem hasFile_inside (h : store.Standing home world) (hsite : store.Site session home)
    (hat : world.files.at? (store.sessionPlace session.id home) = some tree)
    {more : List String} (hdots : ".." ∉ more)
    (husable : (session.directory.join ⟨0, more⟩).Usable) {file : Entry}
    (hfile : tree.seen more = some (some file)) :
    world.HasFile (session.directory.join ⟨0, more⟩) (store.sessionPlace session.id home ++ more)
      file := by
  have hseen : world.files.seen (store.sessionPlace session.id home ++ more) =
      some (some file) := by
    rw [Entry.seen_append, hat]
    exact hfile
  have hjoin : session.directory.join ⟨0, more⟩ =
      store.directory.join ⟨0, session.id :: more⟩ := by
    rw [hsite.path, sessionPath, Path.join, Path.join, Path.join, if_pos rfl, if_pos rfl, if_pos rfl]
    simp
  have hleads : world.Leads (session.directory.join ⟨0, more⟩) := by
    rw [hjoin] at husable ⊢
    refine h.leads_join (by simp [hdots, hsite.id.ne_dots.symm]) husable fun count hcount hpos => ?_
    obtain ⟨count, rfl⟩ := Nat.exists_eq_succ_of_ne_zero (Nat.ne_of_gt hpos)
    have hsplit : store.base home ++ (session.id :: more).take (count + 1) =
        store.sessionPlace session.id home ++ more.take count := by
      simp [sessionPlace]
    have hwhole : world.files.seen (store.sessionPlace session.id home ++ more.take count ++
        more.drop count) ≠ none := by
      rw [List.append_assoc, List.take_append_drop, hseen]
      simp
    rw [hsplit]
    refine Entry.isDirectoryAt_of_seen_append hwhole ?_
    rw [Ne, List.drop_eq_nil_iff]
    simpa using hcount
  refine ⟨⟨husable.noNull, (h.place_iff hsite).2 ⟨hleads, (hsite.spot_inside hdots).symm⟩, ?_⟩,
    hseen⟩
  rw [Entry.IsDirectoryAt, hseen]
  simp

end Standing

/-! ### The copies -/

/-- A file can be put back by its path from the root. -/
theorem Origin.writable {id : String} {place : List String} (h : store.Origin id home place world)
    (hdots : ".." ∉ world.workingDirectory) (husable : (⟨1, place⟩ : Path).Usable) :
    world.Writable ⟨1, place⟩ place := by
  refine ⟨husable.noNull, (World.place_eq_ok_iff hdots).2 ⟨?_, ?_⟩, h.notDirectory⟩
  · exact .root h.dots_not_mem husable h.above
  · exact (Path.spot_root h.dots_not_mem).symm

/-- The directory of a file that can be put back is there. -/
theorem Origin.makeDirectories_parent {id : String} {place : List String}
    (h : store.Origin id home place world) (hdots : ".." ∉ world.workingDirectory)
    (husable : (⟨1, place⟩ : Path).Usable) :
    world.makeDirectories (Path.parent ⟨1, place⟩) = .ok world := by
  have hsome := List.length_pos_iff.2 h.ne_nil
  have hdots' : ".." ∉ place.dropLast := fun hmem =>
    h.dots_not_mem (List.dropLast_subset _ hmem)
  have hparent : (Path.parent ⟨1, place⟩).Usable :=
    husable.of_sublist (Nat.le_refl _) (List.dropLast_sublist _)
  have habove : ∀ count ≤ place.dropLast.length,
      world.files.IsDirectoryAt (place.dropLast.take count) := by
    intro count hcount
    rw [List.length_dropLast] at hcount
    rw [List.dropLast_eq_take, List.take_take]
    exact h.above _ (by omega)
  refine World.makeDirectories_eq_self hdots hparent.noNull
    (.root hdots' hparent fun count hcount => habove count (Nat.le_of_lt hcount)) ?_
  have hwhole := habove _ (Nat.le_refl _)
  rw [List.take_length] at hwhole
  rw [Path.parent, Path.spot_root hdots']
  exact hwhole

theorem Holds.isDirectoryAt (h : Holds session copies tree) {top : Entry} {place : List String}
    (hat : top.at? place = some tree) : top.IsDirectoryAt place := by
  obtain ⟨members, changed, rfl⟩ := h.exists_members
  exact Entry.isDirectoryAt_iff.2 ⟨members, changed, hat⟩

/-- A file that holds what a copy holds is no directory. -/
theorem Holds.leaf?_content (h : Holds session copies tree) (hcopy : copy ∈ copies) :
    copy.content.leaf? = some copy.content := by
  obtain ⟨file, hfile, heq⟩ := Entry.contentAt_eq_some_iff.1 (h.copies copy hcopy)
  rw [← heq]
  exact Entry.leaf?_undated (Entry.leaf?_eq_some_iff.2 ⟨rfl, (Entry.seen_eq_file_iff.1 hfile).2⟩)

theorem Holds.usable_root (h : Holds session copies tree) (hsite : store.Site session home)
    (hcopy : copy ∈ copies) (hsome : copy.place ≠ []) : (⟨1, copy.place⟩ : Path).Usable :=
  (h.usable copy hcopy).root (hsite.path ▸ List.concat_ne_nil _ _) hsome

/-- A copy is copied to where its file was when the directory of that is there. -/
theorem restoreFile_of_copied {directory target resolved : Path}
    (hresolve : world.resolve target = .ok resolved)
    (hthere : world.pathExists (directory.join (key resolved)) = .ok true)
    (hparent : world.makeDirectories target.parent = .ok world)
    (hcopied : world.copyFile (directory.join (key resolved)) target = .ok world') :
    restoreFile directory target world = (.ok (), world') := by
  have hmade : Run.makeDirectories target.parent world = (.ok (), world) :=
    Run.change_iff.2 hparent
  rw [restoreFile, Run.bind_ok (Run.read_iff.2 ⟨hresolve, rfl⟩)]
  refine (Run.bind_ok (Run.pathExists_iff.2 ⟨hthere, rfl⟩) _).trans ?_
  rw [if_pos rfl, Run.bind_ok hmade]
  exact Run.change_iff.2 hcopied

/-- **A copy is put back where its file was.** -/
theorem restoreFile_of_holds (hsite : store.Site session home) (hstanding : store.Standing home world)
    (hat : world.files.at? (store.sessionPlace session.id home) = some tree)
    (hholds : Holds session copies tree) (hcopy : copy ∈ copies)
    (horigin : store.Origin session.id home copy.place world) :
    restoreFile session.directory ⟨1, copy.place⟩ world =
      (.ok (), { world with files := world.files.put copy.place copy.content }) := by
  have hdots := hstanding.workingDirectory ▸ hsite.dots_not_mem
  obtain ⟨file, hfile, hcontent⟩ := Entry.contentAt_eq_some_iff.1 (hholds.copies copy hcopy)
  have hthere := hstanding.hasFile_inside hsite hat horigin.dots_not_mem
    (hholds.usable copy hcopy) hfile
  have husable := hholds.usable_root hsite hcopy horigin.ne_nil
  have htarget := horigin.writable hdots husable
  have hresolve : world.resolve ⟨1, copy.place⟩ = .ok ⟨1, copy.place⟩ := by
    rw [World.resolve, husable.noNull]
    exact congrArg (fun parts => Except.ok (Path.mk 1 parts)) (Path.spot_root horigin.dots_not_mem)
  have hcopyTarget : world.copyTarget (session.directory.join ⟨0, copy.place⟩) ⟨1, copy.place⟩ =
      ⟨1, copy.place⟩ := by
    rw [World.copyTarget, if_neg]
    rw [World.isDirectory_iff]
    rintro ⟨place, hplace, hdirectory⟩
    obtain rfl := Except.ok.inj (htarget.leads.symm.trans hplace)
    exact htarget.notDirectory hdirectory
  have hcopied : world.copyFile (session.directory.join ⟨0, copy.place⟩) ⟨1, copy.place⟩ =
      .ok { world with files := world.files.put copy.place copy.content } := by
    refine World.copyFile_eq_ok_iff.2 ⟨_, file, copy.place, hthere, ?_, fun heq => ?_, ?_⟩
    · rw [hcopyTarget]
      exact htarget
    · exact horigin.notInside (heq ▸ List.prefix_append _ _)
    · rw [hcontent]
  exact restoreFile_of_copied hresolve hthere.pathExists
    (horigin.makeDirectories_parent hdots husable) hcopied

/-- **What putting copies back does to a tree:** every file holds what its copy holds, nothing else is
seen to change, and a directory that none of the files is in is as it was. -/
structure PutBack (copies : List Copy) (before after : Entry) : Prop where
  contents : ∀ copy ∈ copies, after.contentAt copy.place = some copy.content
  others : ∀ place ∉ copies.map Copy.place, after.seen place = before.seen place
  apart : ∀ place, before.IsDirectoryAt place → (∀ copy ∈ copies, ¬ place <+: copy.place) →
    after.at? place = before.at? place

namespace PutBack

variable {before after : Entry}

theorem nil (top : Entry) : PutBack [] top top :=
  ⟨fun _ hcopy => absurd hcopy List.not_mem_nil, fun _ _ => rfl, fun _ _ _ => rfl⟩

/-- One copy is put back before the others; those of the same file hold the same. -/
theorem cons (htarget : world.Writable ⟨1, copy.place⟩ copy.place) (hsome : copy.place ≠ [])
    (hleaf : copy.content.leaf? = some copy.content)
    (hundated : copy.content.undated = copy.content)
    (hagain : ∀ other ∈ pending, other.place = copy.place → other.content = copy.content)
    (h : PutBack pending (world.files.put copy.place copy.content) after) :
    PutBack (copy :: pending) world.files after where
  contents := by
    refine List.forall_mem_cons.2 ⟨?_, h.contents⟩
    by_cases hmem : copy.place ∈ pending.map Copy.place
    · obtain ⟨other, hother, heq⟩ := List.mem_map.1 hmem
      rw [← heq, h.contents other hother, hagain other hother heq]
    · rw [Entry.contentAt_congr (h.others _ hmem),
        Entry.contentAt_of_seen ((htarget.seen_put hsome hleaf _).trans (if_pos rfl)), hundated]
  others place hplace := by
    rw [List.map_cons, List.mem_cons, not_or] at hplace
    exact (h.others place hplace.2).trans
      ((htarget.seen_put hsome hleaf place).trans (if_neg hplace.1))
  apart place hplace habove := by
    obtain ⟨hfirst, habove⟩ := List.forall_mem_cons.1 habove
    have hlater := h.apart place ((htarget.isDirectoryAt_put_iff hsome hleaf).2 hplace) habove
    -- A directory that the file is not in is not in the file either.
    exact hlater.trans (Entry.at?_put_apart
      (fun hunder => htarget.notDirectory (hplace.of_prefix hunder)) hfirst _ _)

/-- The way to the sessions stays open. -/
theorem standing (h : PutBack copies world.files after) (hstanding : store.Standing home world)
    (hnot : ∀ copy ∈ copies, ¬ world.files.IsDirectoryAt copy.place) :
    store.Standing home ({ world with files := after } : World) := by
  refine hstanding.of_directories rfl fun place hplace => (h.others place fun hmem => ?_).trans hplace
  obtain ⟨copy, hcopy, rfl⟩ := List.mem_map.1 hmem
  exact hnot copy hcopy hplace

end PutBack

/-- **Every copy that is pending is put back.** -/
theorem restoreEach_of_holds (hsite : store.Site session home) (hstanding : store.Standing home world)
    (hat : world.files.at? (store.sessionPlace session.id home) = some tree)
    (hholds : Holds session copies tree) (hpending : ∀ copy ∈ pending, copy ∈ copies)
    (horigin : ∀ copy ∈ pending, store.Origin session.id home copy.place world) :
    ∃ files, ((pending.map fun copy : Copy => Json.str (Path.mk 1 copy.place).toText).forM
        fun listed => match listed with
          | .str s => restoreFile session.directory (Path.ofText s)
          | _ => throw .unsuitable : Run Unit) world = (.ok (), { world with files := files }) ∧
      PutBack pending world.files files := by
  induction pending generalizing world with
  | nil => exact ⟨world.files, rfl, .nil _⟩
  | cons copy pending ih =>
    obtain ⟨hcopy, hpending⟩ := List.forall_mem_cons.1 hpending
    obtain ⟨hfirst, hothers⟩ := List.forall_mem_cons.1 horigin
    have hdots := hstanding.workingDirectory ▸ hsite.dots_not_mem
    have htarget := hfirst.writable hdots (hholds.usable_root hsite hcopy hfirst.ne_nil)
    have hleaf := hholds.leaf?_content hcopy
    have hsame : ∀ other, (world.files.put copy.place copy.content).IsDirectoryAt other ↔
        world.files.IsDirectoryAt other := fun _ => htarget.isDirectoryAt_put_iff hfirst.ne_nil hleaf
    have hsession : (world.files.put copy.place copy.content).at?
        (store.sessionPlace session.id home) = some tree :=
      (Entry.at?_put_apart (fun hunder => hfirst.notDirectory
        (Entry.IsDirectoryAt.of_prefix (hholds.isDirectoryAt hat) hunder)) hfirst.notInside _ _).trans hat
    let between : World := { world with files := world.files.put copy.place copy.content }
    have hstands : store.Standing home between :=
      hstanding.of_directories rfl fun other => (hsame other).2
    obtain ⟨files, hrest, hput⟩ := ih hstands hsession hpending fun other hother =>
      (hothers other hother).mono (fun spot => (hsame spot).2)
        fun spot hspot => Or.inl ((hsame spot).1 hspot)
    have hstep : restoreFile session.directory (Path.ofText (Path.mk 1 copy.place).toText) world =
        (.ok (), between) := by
      rw [Path.ofText_toText hfirst.names hfirst.ne_nil]
      exact restoreFile_of_holds hsite hstanding hat hholds hcopy hfirst
    refine ⟨files, (Run.bind_ok hstep _).trans hrest, hput.cons htarget hfirst.ne_nil hleaf
      (Entry.undated_of_contentAt (hholds.copies copy hcopy)) fun other hother heq => ?_⟩
    have hcontent := hholds.copies other (hpending other hother)
    exact Option.some.inj (hcontent.symm.trans (heq ▸ hholds.copies copy hcopy))

/-! ### The session -/

/-- The metadata of a session are made of texts. -/
theorem worded_metadata (session : Session) : (metadata session).Worded := by
  refine .obj (by simp) fun member hmember => ?_
  simp only [List.mem_cons, List.not_mem_nil, or_false] at hmember
  obtain rfl | rfl | rfl | rfl | rfl := hmember
  · exact .str _
  · exact .str _
  · exact .str _
  · refine .arr fun item hitem => ?_
    obtain ⟨text, -, rfl⟩ := List.mem_map.1 hitem
    exact .str text
  · exact .bool _

theorem listedFiles_metadata (session : Session) :
    listedFiles (metadata session) = .ok (session.files.map .str) := rfl

/-- The metadata of a stored session are read back. -/
theorem readJson_of_holds (hsite : store.Site session home) (hstanding : store.Standing home world)
    (hat : world.files.at? (store.sessionPlace session.id home) = some tree)
    (hholds : Holds session copies tree) :
    world.pathExists (session.directory.join metadataFile) = .ok true ∧
      readJson (session.directory.join metadataFile) world =
        (.ok (metadata (session.listing copies)), world) := by
  obtain ⟨file, hfile, hcontent⟩ := Entry.contentAt_eq_some_iff.1 hholds.metadata
  obtain ⟨changed, rfl⟩ : ∃ changed, file =
      .file (.text (metadata (session.listing copies)).indented.toList) changed := by
    cases file with
    | file content changed =>
      obtain ⟨rfl, -⟩ := Entry.file.inj hcontent
      exact ⟨changed, rfl⟩
    | archive | directory => exact absurd hcontent (by simp [Entry.undated])
  have hthere := hstanding.hasFile_inside hsite hat (by decide) hholds.readable hfile
  have hworded := worded_metadata (session.listing copies)
  have hread : world.readText (session.directory.join metadataFile) =
      .ok (metadata (session.listing copies)).indented.toList :=
    World.readText_eq_ok_iff.2 ⟨_, _, _, hthere, (Json.unifyLineEnds_indented hworded).symm⟩
  refine ⟨hthere.pathExists, ?_⟩
  rw [readJson, Run.bind_ok (Run.readText_iff.2 ⟨hread, rfl⟩), Json.parse_indented hworded]
  rfl

/-- What a session lists is restored where its metadata are read. -/
theorem restoreFrom_of_ok {directory : Path} {json : Json} {listed : List Json} (id : String)
    (hthere : world.pathExists (directory.join metadataFile) = .ok true)
    (hread : readJson (directory.join metadataFile) world = (.ok json, world))
    (hlisted : listedFiles json = .ok listed)
    (hrestored : (listed.forM fun listed => match listed with
      | .str s => restoreFile directory (Path.ofText s)
      | _ => throw .unsuitable : Run Unit) world = (.ok (), world')) :
    restoreFrom directory id world = (.ok true, world') := by
  have hfiles : Run.ofExcept (listedFiles json) world = (.ok listed, world) := by
    rw [hlisted]
    rfl
  rw [restoreFrom, Run.bind_ok (Run.pathExists_iff.2 ⟨hthere, rfl⟩)]
  change ((readJson _ >>= fun json => Run.ofExcept (listedFiles json) >>= _ : Run Bool) world) = _
  rw [Run.bind_ok hread, Run.bind_ok hfiles]
  exact (Run.bind_ok hrestored _).trans rfl

/-- **From the directory of a session every file is restored.** -/
theorem restoreFrom_of_holds (hsite : store.Site session home) (hstanding : store.Standing home world)
    (hat : world.files.at? (store.sessionPlace session.id home) = some tree)
    (hholds : Holds session copies tree)
    (horigin : ∀ copy ∈ copies, store.Origin session.id home copy.place world) :
    ∃ files, restoreFrom session.directory session.id world =
        (.ok true, { world with files := files }) ∧
      PutBack copies world.files files := by
  obtain ⟨hthere, hread⟩ := readJson_of_holds hsite hstanding hat hholds
  obtain ⟨files, hrestored, hput⟩ :=
    restoreEach_of_holds hsite hstanding hat hholds (fun _ hcopy => hcopy) horigin
  refine ⟨files, restoreFrom_of_ok session.id hthere hread ?_ hrestored, hput⟩
  rw [listedFiles_metadata, Session.listing, List.map_map]
  rfl

/-! ### Archives -/

theorem Holds.usable_directory (h : Holds session copies tree) : session.directory.Usable := by
  refine h.readable.of_sublist ?_ ?_
  · rw [Path.join, metadataFile, if_pos rfl]
  · rw [Path.join, metadataFile, if_pos rfl]
    exact List.sublist_append_left _ _

/-- The path of a session leads to its place, be the session there or not. -/
theorem Standing.leads_session (h : store.Standing home world) (hsite : store.Site session home)
    (husable : session.directory.Usable) :
    world.place session.directory = .ok (store.sessionPlace session.id home) := by
  refine (h.place_iff hsite).2 ⟨?_, hsite.spot_session.symm⟩
  rw [hsite.path] at husable ⊢
  exact h.leads_member hsite.id.ne_dots husable

/-- The directory of a session that is stored as one is not unpacked. -/
theorem unpackMissing_of_directory (hsite : store.Site session home)
    (hstanding : store.Standing home world)
    (hat : world.files.at? (store.sessionPlace session.id home) = some tree)
    (hholds : Holds session copies tree) (archive : Path) :
    store.unpackMissing session.directory archive world = (.ok false, world) := by
  have hthere : world.pathExists session.directory = .ok true := by
    refine World.pathExists_eq_true_iff.2
      ⟨_, hstanding.leads_session hsite hholds.usable_directory, ?_⟩
    rw [Entry.seen, hat]
    simp
  rw [unpackMissing, Run.bind_ok (Run.pathExists_iff.2 ⟨hthere, rfl⟩)]
  rfl

theorem Standing.hasFile_archive (h : store.Standing home world) (hsite : store.Site session home)
    {changed : ChangeTime} (hat : world.files.at? (store.base home ++ [session.id ++ archiveEnd]) =
      some (.archive [session.id] tree changed))
    (husable : (store.archivePath session.id).Usable) :
    world.HasFile (store.archivePath session.id) (store.base home ++ [session.id ++ archiveEnd])
      (.archive [session.id] tree changed) := by
  have hdots := hsite.id.archive.ne_dots
  have hseen : world.files.seen (store.base home ++ [session.id ++ archiveEnd]) =
      some (some (.archive [session.id] tree changed)) := by
    rw [Entry.seen, hat]
    rfl
  refine ⟨⟨husable.noNull, (h.place_iff hsite).2 ⟨h.leads_member hdots husable, ?_⟩, ?_⟩, hseen⟩
  · exact (Path.spot_join (by simpa using hdots.symm)).symm
  · rw [Entry.IsDirectoryAt, hseen]
    simp

theorem Standing.makeDirectories (h : store.Standing home world) (hsite : store.Site session home)
    (husable : (store.archivePath session.id).Usable) :
    world.makeDirectories store.directory = .ok world := by
  have hbase : store.directory.Usable := by
    refine husable.of_sublist (Nat.le_refl _) ?_
    rw [archivePath, Path.join, if_pos rfl]
    exact List.sublist_append_left _ _
  exact World.makeDirectories_eq_self (h.workingDirectory ▸ hsite.dots_not_mem) hbase.noNull h.leads
    (h.workingDirectory ▸ h.directory)

/-- What an archive holds is unpacked beside it. -/
theorem unpack_of_hasFile {archive : Path} {spot place : List String} {root : String}
    {changed : ChangeTime} (harchive : world.HasFile archive spot (.archive [root] tree changed))
    (hmade : world.makeDirectories store.directory = .ok world)
    (hplace : world.place (store.directory.join ⟨0, [root]⟩) = .ok place) :
    store.unpack archive world = (.ok (), { world with files := world.files.put place tree }) := by
  have hfile := World.fileAt_eq_ok_iff.2 ⟨_, harchive⟩
  have hparent : (store.directory.join ⟨0, [root]⟩).parent = store.directory := by
    rw [Path.join, if_pos rfl, Path.parent]
    simp
  have hbase : Run.makeDirectories store.directory world = (.ok (), world) :=
    Run.change_iff.2 hmade
  rw [unpack, Run.bind_ok (Run.read_iff.2 ⟨hfile, rfl⟩)]
  dsimp only
  rw [hparent, Run.bind_ok hbase]
  refine Run.change_iff.2 ?_
  rw [hplace]

/-- **The archive of a session is unpacked to where the session was.** -/
theorem unpackMissing_of_archive (hsite : store.Site session home)
    (hstanding : store.Standing home world)
    (hgone : world.files.seen (store.sessionPlace session.id home) = none) {changed : ChangeTime}
    (hat : world.files.at? (store.base home ++ [session.id ++ archiveEnd]) =
      some (.archive [session.id] tree changed))
    (husable : (store.archivePath session.id).Usable) (hholds : Holds session copies tree) :
    store.unpackMissing session.directory (store.archivePath session.id) world = (.ok true,
      { world with files := world.files.put (store.sessionPlace session.id home) tree }) := by
  have hsession := hstanding.leads_session hsite hholds.usable_directory
  have harchive := hstanding.hasFile_archive hsite hat husable
  have hunpacked := unpack_of_hasFile harchive (hstanding.makeDirectories hsite husable)
    (by rwa [hsite.path] at hsession)
  have hmissing := World.pathExists_eq_false hsession hgone
  rw [unpackMissing, Run.bind_ok (Run.pathExists_iff.2 ⟨hmissing, rfl⟩)]
  refine (Run.bind_ok (Run.pathExists_iff.2 ⟨harchive.pathExists, rfl⟩) _).trans ?_
  rw [if_pos rfl, Run.bind_ok hunpacked]
  rfl

/-- A session is restored from its directory, which is removed again if it was unpacked for that. -/
theorem restore_of_ok (hsite : store.Site session home) {unpacked : Bool}
    {between last cleaned : World}
    (hunpacked : store.unpackMissing session.directory (store.archivePath session.id) world =
      (.ok unpacked, between))
    (hrestored : restoreFrom session.directory session.id between = (.ok true, last))
    (hcleaned : unpacked = false ∧ cleaned = last ∨
      unpacked = true ∧ last.pathExists session.directory = .ok true ∧
        last.removeTree session.directory = .ok cleaned) :
    store.restore session.id world = (.ok true, cleaned) := by
  have hsession : store.directory.join (Path.ofText session.id) = session.directory := by
    rw [Path.ofText_of_isName hsite.id.toIsName, hsite.path, sessionPath]
  have harchive : store.directory.join (Path.ofText (session.id ++ archiveEnd)) =
      store.archivePath session.id := by
    rw [Path.ofText_of_isName hsite.id.archive.toIsName, archivePath]
  have houtcome : (store.unpackMissing session.directory (store.archivePath session.id)).outcome
      world = (.ok (.ok unpacked), between) := by
    rw [Run.outcome_apply, hunpacked]
  have hresult : (restoreFrom session.directory session.id).outcome between =
      (.ok (.ok true), last) := by
    rw [Run.outcome_apply, hrestored]
  rw [restore, hsession, harchive, Run.bind_ok houtcome]
  dsimp only
  rw [Run.bind_ok hresult]
  rcases hcleaned with ⟨rfl, rfl⟩ | ⟨rfl, hthere, hremoved⟩
  · rfl
  · have hclean : Run.removeTree session.directory last = (.ok (), cleaned) :=
      Run.change_iff.2 hremoved
    refine (Run.bind_ok (Run.pathExists_iff.2 ⟨hthere, rfl⟩) _).trans ?_
    exact (Run.bind_ok hclean _).trans rfl

/-- A session that has neither metadata nor an archive cannot be restored. -/
theorem restore_of_missing {id : String}
    (hunpacked : store.unpackMissing (store.directory.join (Path.ofText id))
      (store.directory.join (Path.ofText (id ++ archiveEnd))) world = (.ok false, world))
    (hmetadata : world.pathExists ((store.directory.join (Path.ofText id)).join metadataFile) =
      .ok false) :
    store.restore id world =
      (.ok false, world.record .error ("Backup session not found: " ++ id)) := by
  have hfrom : restoreFrom (store.directory.join (Path.ofText id)) id world =
      (.ok false, world.record .error ("Backup session not found: " ++ id)) := by
    rw [restoreFrom, Run.bind_ok (Run.pathExists_iff.2 ⟨hmetadata, rfl⟩)]
    rfl
  have houtcome := Run.outcome_apply (store.unpackMissing (store.directory.join (Path.ofText id))
    (store.directory.join (Path.ofText (id ++ archiveEnd)))) world
  have hresult := Run.outcome_apply (restoreFrom (store.directory.join (Path.ofText id)) id) world
  rw [hunpacked] at houtcome
  rw [hfrom] at hresult
  rw [restore, Run.bind_ok houtcome]
  dsimp only
  rw [Run.bind_ok hresult]
  rfl

/-- What a restoration does: every file that was backed up holds what its copy holds, nothing else is
seen to change, and the same sessions are stored. -/
structure Restores (store : BackupStore) (home : List String) (copies : List Copy)
    (before after : Entry) : Prop where
  contents : ∀ copy ∈ copies, after.contentAt copy.place = some copy.content
  others : ∀ place ∉ copies.map Copy.place, after.seen place = before.seen place
  sessions : (∀ copy ∈ copies, ¬ store.base home <+: copy.place) → ∀ members changed,
    before.at? (store.base home) = some (.directory members changed) →
      ∃ changed', after.at? (store.base home) = some (.directory members changed')

/-- A session that is stored as a directory is restored from there. -/
theorem restored_of_directory (hsite : store.Site session home)
    (hstanding : store.Standing home world)
    (horigin : ∀ copy ∈ copies, store.Origin session.id home copy.place world)
    (hat : world.files.at? (store.sessionPlace session.id home) = some tree)
    (hholds : Holds session copies tree) :
    ∃ files, store.restore session.id world = (.ok true, { world with files := files }) ∧
      store.Restores home copies world.files files := by
  obtain ⟨files, hrestored, hput⟩ := restoreFrom_of_holds hsite hstanding hat hholds horigin
  have hunpacked := unpackMissing_of_directory hsite hstanding hat hholds
    (store.archivePath session.id)
  refine ⟨files, restore_of_ok hsite hunpacked hrestored (Or.inl ⟨rfl, rfl⟩), hput.contents,
    hput.others, fun houtside members changed hmembers => ⟨changed, ?_⟩⟩
  exact (hput.apart _ hstanding.directory houtside).trans hmembers

/-- Where the directory of a session is unpacked, files can be put back as before. -/
theorem Origin.put_session {id : String} {place : List String}
    (h : store.Origin id home place world) (hstanding : store.Standing home world)
    (hgone : world.files.seen (store.sessionPlace id home) = none) (tree : Entry) :
    store.Origin id home place
      { world with files := world.files.put (store.sessionPlace id home) tree } := by
  have hput : ∀ other, ¬ store.sessionPlace id home <+: other →
      (world.files.put (store.sessionPlace id home) tree).seen other = world.files.seen other :=
    fun other hother => (Entry.seen_put_tree hstanding.directory ..).trans (if_neg hother)
  refine h.mono (fun other hother => (hput other fun hprefix => ?_).trans hother)
    fun other hother => ?_
  · exact absurd (hgone.symm.trans (hother.of_prefix hprefix)) (by simp)
  · by_cases hprefix : store.sessionPlace id home <+: other
    · exact Or.inr hprefix
    · exact Or.inl ((hput other hprefix).symm.trans hother)

/-- **Once the directory that was unpacked is removed,** the tree is what it was but for the copies. -/
theorem PutBack.restores {id : String} {files : Entry} (hstanding : store.Standing home world)
    (hgone : world.files.seen (store.sessionPlace id home) = none)
    (houtside : ∀ copy ∈ copies, ¬ store.sessionPlace id home <+: copy.place)
    (h : PutBack copies (world.files.put (store.sessionPlace id home) tree) files) :
    store.Restores home copies world.files (files.remove (store.sessionPlace id home)) := by
  have hput := fun place => Entry.seen_put_tree hstanding.directory tree id place
  have hremove := Entry.seen_remove_tree files (store.base home) id
  refine ⟨fun copy hcopy => ?_, fun place hplace => ?_, fun hsessions members changed hmembers => ?_⟩
  · exact (Entry.contentAt_congr ((hremove _).trans (if_neg (houtside copy hcopy)))).trans
      (h.contents copy hcopy)
  · by_cases hprefix : store.sessionPlace id home <+: place
    · obtain ⟨rest, rfl⟩ := hprefix
      rw [Entry.seen_append_of_none hgone]
      exact (hremove _).trans (if_pos (List.prefix_append _ _))
    · exact (hremove _).trans ((if_neg hprefix).trans
        ((h.others place hplace).trans ((hput _).trans (if_neg hprefix))))
  · have hfree : world.files.at? (store.base home ++ [id]) = none :=
      Option.map_eq_none_iff.1 hgone
    have hnone : members.lookup id = none := by
      rw [Option.eq_none_iff_forall_ne_some]
      intro entry hentry
      exact absurd (hfree.symm.trans ((Entry.at?_concat_iff hmembers).2 hentry)) (by simp)
    have hdirectory : (world.files.put (store.sessionPlace id home) tree).IsDirectoryAt
        (store.base home) :=
      ((hput _).trans (if_neg fun hstarts => absurd hstarts.length_le (by simp))).trans
        hstanding.directory
    refine ⟨none, ?_⟩
    rw [sessionPlace, Entry.at?_remove_above (by simp), h.apart _ hdirectory hsessions,
      sessionPlace, Entry.at?_put_above (by simp), hmembers]
    exact congrArg some (Entry.remove_put_member hnone changed tree)

/-- A session that is stored as an archive is restored from its directory, which is there for that
time only. -/
theorem restored_of_archive (hsite : store.Site session home)
    (hstanding : store.Standing home world)
    (horigin : ∀ copy ∈ copies, store.Origin session.id home copy.place world)
    (hgone : world.files.seen (store.sessionPlace session.id home) = none) {changed : ChangeTime}
    (hthere : world.files.at? (store.base home ++ [session.id ++ archiveEnd]) =
      some (.archive [session.id] tree changed))
    (husable : (store.archivePath session.id).Usable) (hholds : Holds session copies tree) :
    ∃ files, store.restore session.id world = (.ok true, { world with files := files }) ∧
      store.Restores home copies world.files files := by
  have hunpacked := unpackMissing_of_archive hsite hstanding hgone hthere husable hholds
  have hat : (world.files.put (store.sessionPlace session.id home) tree).at?
      (store.sessionPlace session.id home) = some tree := by
    have hunder := Entry.at?_put_under hstanding.directory tree session.id []
    rwa [List.append_nil] at hunder
  have hopen := hstanding.put hsite hsite.id.marked tree
  have horigin' := fun copy hcopy => (horigin copy hcopy).put_session hstanding hgone tree
  obtain ⟨files, hrestored, hput⟩ := restoreFrom_of_holds hsite hopen hat hholds horigin'
  have hnotInside := fun copy hcopy => (horigin copy hcopy).notInside
  -- The directory is still there when the copies are back, and it is removed.
  have hstands := hput.standing hopen fun copy hcopy => (horigin' copy hcopy).notDirectory
  have hsession := hstands.leads_session hsite hholds.usable_directory
  have hseen : files.seen (store.sessionPlace session.id home) ≠ none := by
    have hlast : files.at? (store.sessionPlace session.id home) = some tree :=
      (hput.apart _ (hholds.isDirectoryAt hat) hnotInside).trans hat
    rw [Entry.seen, hlast]
    simp
  have hremoved : ({ world with files := files } : World).removeTree session.directory =
      .ok { world with files := files.remove (store.sessionPlace session.id home) } :=
    World.removeTree_eq_ok_iff.2 ⟨_, hholds.usable_directory.noNull, hsession, hseen, rfl⟩
  exact ⟨files.remove (store.sessionPlace session.id home),
    restore_of_ok hsite hunpacked hrestored
      (Or.inr ⟨rfl, World.pathExists_eq_true_iff.2 ⟨_, hsession, hseen⟩, hremoved⟩),
    hput.restores hstanding hgone hnotInside⟩

/-- **A session that is kept can be restored.** -/
theorem Kept.restored (h : Kept store session home copies world) (hsite : store.Site session home) :
    ∃ files, store.restore session.id world = (.ok true, { world with files := files }) ∧
      store.Restores home copies world.files files := by
  obtain ⟨name, hstored⟩ := h.stored
  cases hstored with
  | directory there holds => exact restored_of_directory hsite h.standing h.origin there holds
  | archive gone there usable holds =>
    exact restored_of_archive hsite h.standing h.origin gone there usable holds

end BackupStore
end UsageOrder
