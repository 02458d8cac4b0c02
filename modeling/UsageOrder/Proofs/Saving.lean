import UsageOrder.Proofs.Contents
import UsageOrder.Proofs.Places
import UsageOrder.Proofs.Written

/-!
# A session in progress

A session in progress has a directory in which every file that was backed up has a copy, at the place
of the file below that directory, and a list of these files (`BackupStore.Saving`).  The copies are
what the files held when they were backed up first.

| step | what becomes of the copies |
|---|---|
| anything outside of the session | they stay (`Saving.put`, `Saving.remove`, `Saving.later`) |
| directories for a copy | they stay (`Saving.grows`) |
| a backup | there may be one more (`Saving.backedUp`) |

The directories of a session are made after those of the files, so no copy ever has the place of a
directory, and nothing but a file at the root can have the place of the metadata.
-/

namespace UsageOrder
namespace BackupStore

/-! ### Where a session is -/

/-- A name that a session can have. -/
structure SessionName (id : String) : Prop extends Path.IsName id where
  marked : sessionMark.toList.isPrefixOf id.toList = true

/-- A place that is lost with a stored session: that of an archive, or one in a directory that has
the name of a session. -/
def InSession (base place : List String) : Prop :=
  ∃ name, sessionMark.toList.isPrefixOf name.toList = true ∧ base ++ [name] <+: place ∧
    (place = base ++ [name] → archiveEnd.toList.isSuffixOf name.toList = true)

/-- The place of the directory of the sessions. -/
def base (store : BackupStore) (home : List String) : List String := store.directory.spot home

/-- The path of the directory of a session. -/
def sessionPath (store : BackupStore) (id : String) : Path := store.directory.join ⟨0, [id]⟩

/-- The place of the directory of a session. -/
def sessionPlace (store : BackupStore) (id : String) (home : List String) : List String :=
  store.base home ++ [id]

/-- A session by its path from a working directory: it is in the directory of the sessions, and the
way to that directory does not lead through a session. -/
structure Site (store : BackupStore) (session : Session) (home : List String) : Prop where
  names : ∀ name ∈ home, Path.IsName name
  id : SessionName session.id
  path : session.directory = store.sessionPath session.id
  way : ∀ count name, sessionMark.toList.isPrefixOf name.toList = true →
    ¬ store.base home ++ [name] <+: (store.directory.upTo count).spot home

/-- A place from which files can be backed up in a session: it is not in a session, and it is not that
of the metadata. -/
structure Eligible (store : BackupStore) (id : String) (home place : List String) : Prop where
  ne_nil : place ≠ []
  names : ∀ name ∈ place, Path.IsName name
  apart : ¬ InSession (store.base home) place
  notInside : ¬ store.sessionPlace id home <+: place
  notMetadata : ¬ metadataFile.parts <+: place

/-- A place to which a file can be put back: its directories are there, and it is not one. -/
structure Origin (store : BackupStore) (id : String) (home place : List String) (world : World) :
    Prop extends store.Eligible id home place where
  above : ∀ count < place.length, world.files.IsDirectoryAt (place.take count)
  notDirectory : ¬ world.files.IsDirectoryAt place

/-- What a session has copied: the place of a file, and what it held. -/
structure Copy where
  place : List String
  content : Entry

end BackupStore

/-- The session with copies in its list. -/
def Session.listing (session : Session) (copies : List BackupStore.Copy) : Session :=
  { session with files := copies.map fun copy => (Path.mk 1 copy.place).toText }

theorem Session.listing_id (session : Session) (copies : List BackupStore.Copy) :
    (session.listing copies).id = session.id := rfl

theorem Session.listing_directory (session : Session) (copies : List BackupStore.Copy) :
    (session.listing copies).directory = session.directory := rfl

namespace BackupStore

/-- **A session in progress** with its copies; of all sessions those with the given names are being
changed. -/
structure Saving (store : BackupStore) (session : Session) (home : List String)
    (new : String → Prop) (copies : List Copy) (world : World) : Prop where
  workingDirectory : world.workingDirectory = home
  homeThere : world.files.IsDirectoryAt home
  inProgress : world.session = some (session.listing copies)
  leads : world.Leads session.directory
  directory : world.files.IsDirectoryAt (store.sessionPlace session.id home)
  /-- The copies can be found again. -/
  usable : ∀ copy ∈ copies, (session.directory.join ⟨0, copy.place⟩).Usable
  stored : ∀ copy ∈ copies,
    world.files.contentAt (store.sessionPlace session.id home ++ copy.place) = some copy.content
  /-- There are no other files in the session. -/
  only : ∀ below content,
    world.files.contentAt (store.sessionPlace session.id home ++ below) = some content →
      below ∈ copies.map Copy.place
  origin : ∀ copy ∈ copies, store.Origin session.id home copy.place world
  /-- The directories of the session are those of files. -/
  shadows : ∀ below, world.files.IsDirectoryAt (store.sessionPlace session.id home ++ below) →
    below ≠ metadataFile.parts ∧ world.files.IsDirectoryAt below
  dated : world.files.Dated (store.base home) new

variable {store : BackupStore} {session : Session} {home place : List String}
  {new : String → Prop} {copies copies' : List Copy} {world world' : World} {path : Path}

namespace Site

theorem dots_not_mem (h : store.Site session home) : ".." ∉ home :=
  fun hmem => (h.names _ hmem).ne_dots rfl

theorem spot_session (h : store.Site session home) :
    session.directory.spot home = store.sessionPlace session.id home := by
  rw [h.path]
  exact Path.spot_join (by simpa using Ne.symm h.id.ne_dots)

theorem spot_inside (h : store.Site session home) {below : List String} (hdots : ".." ∉ below) :
    (session.directory.join ⟨0, below⟩).spot home =
      store.sessionPlace session.id home ++ below := by
  rw [Path.spot_join hdots, h.spot_session]

end Site

theorem Eligible.dots_not_mem {id : String} (h : store.Eligible id home place) : ".." ∉ place :=
  fun hmem => (h.names _ hmem).ne_dots rfl

/-- Where a file is, there are directories above it. -/
theorem Eligible.origin {id : String} (h : store.Eligible id home place) {file : Entry}
    (hfile : world.files.seen place = some (some file)) : store.Origin id home place world where
  toEligible := h
  above count hcount := by
    have hseen : world.files.seen (place.take count ++ place.drop count) ≠ none := by
      rw [List.take_append_drop, hfile]
      simp
    refine Entry.isDirectoryAt_of_seen_append hseen fun hnil => ?_
    rw [List.drop_eq_nil_iff] at hnil
    omega
  notDirectory hdirectory := absurd (hfile.symm.trans hdirectory) (by simp)

/-- A place to which a file can be put back stays one, as long as directories stay and are made in the
session only. -/
theorem Origin.mono {id : String} (h : store.Origin id home place world)
    (hkept : ∀ other, world.files.IsDirectoryAt other → world'.files.IsDirectoryAt other)
    (hmade : ∀ other, world'.files.IsDirectoryAt other → world.files.IsDirectoryAt other ∨
      store.sessionPlace id home <+: other) : store.Origin id home place world' where
  toEligible := h.toEligible
  above count hcount := hkept _ (h.above count hcount)
  notDirectory hdirectory := (hmade place hdirectory).elim h.notDirectory h.notInside

/-- No other session changes when something is set in a session. -/
theorem dated_inside {id name : String} {top entry : Entry} {parent below : List String}
    (hdated : top.Dated (store.base home) new) (hid : new id) (hparent : top.IsDirectoryAt parent)
    (hplace : store.sessionPlace id home ++ below = parent ++ [name]) (hbelow : below ≠ [])
    (hsmall : ∀ rest members changed, entry.at? rest = some (.directory members changed) →
      members = []) :
    (top.put (store.sessionPlace id home ++ below) entry).Dated (store.base home) new := by
  obtain ⟨front, last, rfl⟩ := (List.eq_nil_or_concat' below).resolve_left hbelow
  rw [← List.append_assoc] at hplace ⊢
  obtain ⟨rfl, -⟩ := List.append_inj' hplace rfl
  refine hdated.put hparent hsmall (fun other hother _ => ?_) fun heq => ?_
  · rw [sessionPlace, List.append_assoc] at hother
    have hfirst := List.append_cancel_left hother
    rwa [← (List.cons.inj hfirst).1]
  · exact absurd (congrArg List.length heq) (by simp [sessionPlace])

namespace Saving

/-- **What is left of a session in progress by a change:** directories stay and are made in the session
only, after those of files, and the session has the copies. -/
theorem change (h : Saving store session home new copies world)
    (hworking : world'.workingDirectory = world.workingDirectory)
    (hsession : world'.session = some (session.listing copies'))
    (hkept : ∀ place, world.files.IsDirectoryAt place → world'.files.IsDirectoryAt place)
    (hmade : ∀ place, world'.files.IsDirectoryAt place → world.files.IsDirectoryAt place ∨
      ∃ below, place = store.sessionPlace session.id home ++ below ∧
        below ≠ metadataFile.parts ∧ world.files.IsDirectoryAt below)
    (husable : ∀ copy ∈ copies', (session.directory.join ⟨0, copy.place⟩).Usable)
    (hstored : ∀ copy ∈ copies', world'.files.contentAt
      (store.sessionPlace session.id home ++ copy.place) = some copy.content)
    (honly : ∀ below content, world'.files.contentAt
      (store.sessionPlace session.id home ++ below) = some content →
        below ∈ copies'.map Copy.place)
    (horigin : ∀ copy ∈ copies', store.Origin session.id home copy.place world)
    (hdated : world'.files.Dated (store.base home) new) :
    Saving store session home new copies' world' where
  workingDirectory := hworking.trans h.workingDirectory
  homeThere := hkept _ h.homeThere
  inProgress := hsession
  leads := h.leads.mono fun _ _ hthere => hworking ▸ hkept _ hthere
  directory := hkept _ h.directory
  usable := husable
  stored := hstored
  only := honly
  origin copy hcopy := (horigin copy hcopy).mono hkept fun other hother =>
    (hmade other hother).imp_right fun ⟨below, heq, _⟩ => heq ▸ List.prefix_append _ _
  shadows below hbelow := by
    rcases hmade _ hbelow with hold | ⟨other, heq, hother, hthere⟩
    · exact ⟨(h.shadows below hold).1, hkept _ (h.shadows below hold).2⟩
    · obtain rfl := List.append_cancel_left heq
      exact ⟨hother, hkept _ hthere⟩
  dated := hdated

/-- A change after which all files of the session hold what they held keeps the copies. -/
theorem keep (h : Saving store session home new copies world)
    (hworking : world'.workingDirectory = world.workingDirectory)
    (hsession : world'.session = world.session)
    (hkept : ∀ place, world.files.IsDirectoryAt place → world'.files.IsDirectoryAt place)
    (hmade : ∀ place, world'.files.IsDirectoryAt place → world.files.IsDirectoryAt place ∨
      ∃ below, place = store.sessionPlace session.id home ++ below ∧
        below ≠ metadataFile.parts ∧ world.files.IsDirectoryAt below)
    (hinside : ∀ below, world'.files.contentAt (store.sessionPlace session.id home ++ below) =
      world.files.contentAt (store.sessionPlace session.id home ++ below))
    (hdated : world'.files.Dated (store.base home) new) :
    Saving store session home new copies world' :=
  h.change hworking (hsession.trans h.inProgress) hkept hmade h.usable
    (fun copy hcopy => (hinside _).trans (h.stored copy hcopy))
    (fun below content hbelow => h.only below content ((hinside below).symm.trans hbelow)) h.origin
    hdated

/-- A change that is not seen, of the log or of times, keeps the copies. -/
theorem of_seen (h : Saving store session home new copies world)
    (hworking : world'.workingDirectory = world.workingDirectory)
    (hsession : world'.session = world.session)
    (hseen : ∀ place, world'.files.seen place = world.files.seen place)
    (hdated : world'.files.Dated (store.base home) new) :
    Saving store session home new copies world' := by
  have hdirectory : ∀ place, world'.files.IsDirectoryAt place ↔ world.files.IsDirectoryAt place := by
    intro place
    rw [Entry.IsDirectoryAt, hseen, Entry.IsDirectoryAt]
  exact h.keep hworking hsession (fun place => (hdirectory place).2)
    (fun place hplace => Or.inl ((hdirectory place).1 hplace))
    (fun below => Entry.contentAt_congr (hseen _)) hdated

theorem within (h : Saving store session home new copies world) :
    Entry.Within (store.sessionPlace session.id home) world.files world.files := by
  obtain ⟨members, changed, hat⟩ := Entry.isDirectoryAt_iff.1 h.directory
  exact .refl hat

theorem place_iff (h : Saving store session home new copies world)
    (hsite : store.Site session home) :
    world.place path = .ok place ↔ world.Leads path ∧ place = path.spot home := by
  rw [World.place_eq_ok_iff (h.workingDirectory ▸ hsite.dots_not_mem), h.workingDirectory]

/-- Where nothing is at the place of a path, there is the directory of the place. -/
theorem exists_parent (h : Saving store session home new copies world)
    (hsite : store.Site session home) (hleads : world.Leads path)
    (hfree : world.files.seen (path.spot home) = none) :
    ∃ parent name, world.files.IsDirectoryAt parent ∧ path.spot home = parent ++ [name] := by
  have hdots := hsite.dots_not_mem
  have hdirectory := h.homeThere
  rw [← h.workingDirectory] at hfree hdots hdirectory ⊢
  exact hleads.exists_parent hdots hdirectory hfree

/-! ### Changes outside of the session -/

section

variable {target : Path} {file : Entry}

/-- **A file can be written** outside of the session. -/
theorem put (h : Saving store session home new copies world) (hplace : world.Writable target place)
    (hparts : target.parts ≠ []) (hleaf : file.leaf? = some file)
    (houtside : ¬ store.sessionPlace session.id home <+: place)
    (hdated : (world.files.put place file).Dated (store.base home) new) :
    Saving store session home new copies { world with files := world.files.put place file } := by
  refine h.keep rfl rfl (fun _ => (hplace.isDirectoryAt_put_iff hparts hleaf).2)
    (fun _ hother => Or.inl ((hplace.isDirectoryAt_put_iff hparts hleaf).1 hother))
    (fun below => Entry.contentAt_congr ?_) hdated
  rw [hplace.seen_put hparts hleaf, if_neg]
  exact fun heq => houtside (heq ▸ List.prefix_append _ _)

/-- A file can be removed outside of the session. -/
theorem remove (h : Saving store session home new copies world)
    (hplace : world.Writable target place) (hparts : target.parts ≠ [])
    (houtside : ¬ store.sessionPlace session.id home <+: place)
    (hdated : (world.files.remove place).Dated (store.base home) new) :
    Saving store session home new copies { world with files := world.files.remove place } := by
  refine h.keep rfl rfl (fun _ => (hplace.isDirectoryAt_remove_iff hparts).2)
    (fun _ hother => Or.inl ((hplace.isDirectoryAt_remove_iff hparts).1 hother))
    (fun below => Entry.contentAt_congr ?_) hdated
  rw [hplace.seen_remove hparts, if_neg]
  exact fun heq => houtside (heq ▸ List.prefix_append _ _)

end

/-- Time may pass. -/
theorem later (h : Saving store session home new copies world) (now : Nat) :
    Saving store session home new copies (world.later now) :=
  h.keep rfl rfl (fun _ => (Entry.isDirectoryAt_settle_iff _).2)
    (fun _ hother => Or.inl ((Entry.isDirectoryAt_settle_iff _).1 hother))
    (fun _ => Entry.contentAt_settle ..) (h.dated.settle _)

/-! ### Directories for a copy -/

/-- A directory of a copy that is not there is one of the file's, below the session's. -/
theorem spot_of_free (h : Saving store session home new copies world)
    (hsite : store.Site session home) (hplace : store.Eligible session.id home place)
    (habove : ∀ count < place.length, world.files.IsDirectoryAt (place.take count)) {count : Nat}
    (hfree : world.files.seen (((session.directory.join ⟨0, place⟩).parent.upTo count).spot home) =
      none) :
    ∃ below, ((session.directory.join ⟨0, place⟩).parent.upTo count).spot home =
        store.sessionPlace session.id home ++ below ∧
      below ≠ metadataFile.parts ∧ world.files.IsDirectoryAt below := by
  have hparent : (session.directory.join ⟨0, place⟩).parent =
      session.directory.join ⟨0, place.dropLast⟩ := by
    rw [Path.join, if_pos rfl, Path.join, if_pos rfl, Path.parent]
    dsimp only
    rw [List.dropLast_append_of_ne_nil hplace.ne_nil]
  have hthere : ∀ {other}, world.files.IsDirectoryAt other →
      ((session.directory.join ⟨0, place⟩).parent.upTo count).spot home ≠ other := by
    rintro other hother rfl
    exact absurd (hfree.symm.trans hother) (by simp)
  have hdots : ".." ∉ place.dropLast := fun hmem =>
    hplace.dots_not_mem (List.dropLast_subset _ hmem)
  rw [hparent, Path.upTo_join] at hthere ⊢
  split_ifs at hthere ⊢ with hcount
  · refine absurd rfl (hthere ?_)
    rcases Nat.lt_or_eq_of_le hcount with hlt | rfl
    · have hthrough := h.leads.through count hlt
      rwa [h.workingDirectory] at hthrough
    · rw [Path.upTo, List.take_length, hsite.spot_session]
      exact h.directory
  · rw [hsite.spot_inside fun hmem => hdots (List.mem_of_mem_take hmem)]
    refine ⟨_, rfl, fun heq => hplace.notMetadata ?_, ?_⟩
    · rw [← heq]
      exact (List.take_prefix _ _).trans (List.dropLast_prefix _)
    · have hsome := List.length_pos_iff.2 hplace.ne_nil
      rw [List.dropLast_eq_take, List.take_take]
      exact habove _ (by omega)

/-- **Making the directories of a copy keeps the copies,** and changes nothing but the session. -/
theorem grows (h : Saving store session home new copies world)
    (hsite : store.Site session home) (hid : new session.id)
    (hplace : store.Eligible session.id home place)
    (habove : ∀ count < place.length, world.files.IsDirectoryAt (place.take count))
    (hgrows : World.Grows (session.directory.join ⟨0, place⟩).parent world world') :
    Saving store session home new copies world' ∧
      Entry.Within (store.sessionPlace session.id home) world.files world'.files := by
  induction hgrows with
  | refl => exact ⟨h, h.within⟩
  | @make between count made grown leads free ih =>
    obtain ⟨ih, hwithin⟩ := ih
    obtain ⟨hleads, hmade⟩ := (ih.place_iff hsite).1 leads
    have hfree : between.files.seen made = none := by rw [Entry.seen, free]; rfl
    have hput := Entry.seen_put_directory hfree
    obtain ⟨below, hbelow, hname, hthere⟩ := ih.spot_of_free hsite hplace
      (fun count hcount => grown.isDirectoryAt (habove count hcount)) (hmade ▸ hfree)
    have hunder : made = store.sessionPlace session.id home ++ below := hmade.trans hbelow
    refine ⟨ih.keep rfl rfl (fun other hother => ?_) (fun other hother => ?_) (fun other => ?_) ?_,
      hunder ▸ hwithin.put below _⟩
    · rcases hput other with hsame | ⟨-, hnew⟩
      · exact hsame.trans hother
      · exact hnew
    · rcases hput other with hsame | ⟨rfl, -⟩
      · exact Or.inl (hsame.symm.trans hother)
      · exact Or.inr ⟨below, hunder, hname, hthere⟩
    · rcases hput (store.sessionPlace session.id home ++ other) with hsame | ⟨heq, hnew⟩
      · exact Entry.contentAt_congr hsame
      · rw [Entry.contentAt, hnew, Entry.contentAt, heq, hfree]
        rfl
    · obtain ⟨parent, name, hparent, hspot⟩ := ih.exists_parent hsite hleads (hmade ▸ hfree)
      rw [← hmade, hunder] at hspot
      have hsome : below ≠ [] := by
        rintro rfl
        rw [hunder, List.append_nil] at hfree
        exact absurd (hfree.symm.trans ih.directory) (by simp)
      rw [hunder]
      refine dated_inside ih.dated hid hparent hspot hsome fun rest members changed hat => ?_
      cases rest with
      | nil => exact (Entry.directory.inj (Option.some.inj hat)).1.symm
      | cons first rest => exact absurd hat (by simp [Entry.at?, Entry.child?])

/-! ### The backup of a file -/

/-- A file is listed when the session has a copy of it. -/
theorem mem_listing_iff (h : Saving store session home new copies world)
    (hplace : store.Eligible session.id home (path.spot home)) :
    (path.resolve home).toText ∈ (session.listing copies).files ↔
      path.spot home ∈ copies.map Copy.place := by
  have hread : ∀ {other}, store.Eligible session.id home other →
      Path.ofText (Path.mk 1 other).toText = ⟨1, other⟩ := fun hother =>
    Path.ofText_toText hother.names hother.ne_nil
  rw [Session.listing]
  dsimp only
  rw [List.mem_map, List.mem_map]
  constructor
  · rintro ⟨copy, hcopy, htext⟩
    refine ⟨copy, hcopy, ?_⟩
    have hsame := (hread (h.origin copy hcopy).toEligible).symm.trans
      ((congrArg Path.ofText htext).trans (hread hplace))
    exact (Path.mk.inj hsame).2
  · rintro ⟨copy, hcopy, heq⟩
    exact ⟨copy, hcopy, congrArg (fun parts => (Path.mk 1 parts).toText) heq⟩

/-- The session has no directory where a copy is to be, as there is none where the file is. -/
theorem copyTarget_eq (h : Saving store session home new copies world)
    (hsite : store.Site session home) (hdots : ".." ∉ path.spot home)
    (hnot : ¬ world.files.IsDirectoryAt (path.spot home)) :
    world.copyTarget path (session.directory.join ⟨0, path.spot home⟩) =
      session.directory.join ⟨0, path.spot home⟩ := by
  rw [World.copyTarget, if_neg]
  rw [World.isDirectory_iff]
  rintro ⟨other, hother, hdirectory⟩
  obtain ⟨-, rfl⟩ := (h.place_iff hsite).1 hother
  rw [hsite.spot_inside hdots] at hdirectory
  exact hnot (h.shadows _ hdirectory).2

/-- **Copying a file into the session:** there is a copy more, of what the file holds. -/
theorem copied (h : Saving store session home new copies world)
    (hsite : store.Site session home) (hid : new session.id)
    (hplace : store.Eligible session.id home (path.spot home))
    (hnew : path.spot home ∉ copies.map Copy.place)
    (hcopied : world.copyFile path (session.directory.join ⟨0, path.spot home⟩) = .ok world') :
    ∃ content, world.files.contentAt (path.spot home) = some content ∧
      Saving store session home new (copies ++ [⟨path.spot home, content⟩])
        { world' with
          session := some (session.listing (copies ++ [⟨path.spot home, content⟩])) } ∧
      Entry.Within (store.sessionPlace session.id home) world.files world'.files := by
  obtain ⟨place, file, spot, hfile, htarget, -, rfl⟩ := World.copyFile_eq_ok_iff.1 hcopied
  obtain ⟨-, rfl⟩ := (h.place_iff hsite).1 hfile.leads
  rw [h.copyTarget_eq hsite hplace.dots_not_mem hfile.notDirectory] at htarget
  obtain ⟨hleads, hspot⟩ := (h.place_iff hsite).1 htarget.leads
  obtain rfl := hspot.trans (hsite.spot_inside hplace.dots_not_mem)
  have hparts : (session.directory.join ⟨0, path.spot home⟩).parts ≠ [] := by
    simp [Path.join, hplace.ne_nil]
  have hleaf := Entry.leaf?_undated hfile.leaf?_eq
  have hseen := htarget.seen_put hparts hleaf
  have hdirectory : ∀ other, (world.files.put (store.sessionPlace session.id home ++ path.spot home)
      file.undated).IsDirectoryAt other ↔ world.files.IsDirectoryAt other :=
    fun _ => htarget.isDirectoryAt_put_iff hparts hleaf
  have hcontent : (world.files.put (store.sessionPlace session.id home ++ path.spot home)
      file.undated).contentAt (store.sessionPlace session.id home ++ path.spot home) =
        some file.undated := by
    rw [Entry.contentAt_of_seen ((hseen _).trans (if_pos rfl)), Entry.undated_undated]
  have hother : ∀ {below}, below ≠ path.spot home →
      (world.files.put (store.sessionPlace session.id home ++ path.spot home)
        file.undated).contentAt (store.sessionPlace session.id home ++ below) =
          world.files.contentAt (store.sessionPlace session.id home ++ below) := fun hne =>
    Entry.contentAt_congr ((hseen _).trans (if_neg fun heq => hne (List.append_cancel_left heq)))
  refine ⟨file.undated, Entry.contentAt_of_seen hfile.seen,
    h.change rfl rfl (fun other => (hdirectory other).2)
      (fun other hthere => Or.inl ((hdirectory other).1 hthere))
      (List.forall_mem_append.2 ⟨h.usable, List.forall_mem_singleton.2
        ⟨htarget.noNull, hleads.short, hleads.parts⟩⟩)
      (List.forall_mem_append.2 ⟨fun copy hcopy => ?_, List.forall_mem_singleton.2 hcontent⟩)
      (fun below content hbelow => ?_)
      (List.forall_mem_append.2 ⟨h.origin, List.forall_mem_singleton.2
        (hplace.origin hfile.seen)⟩) ?_, h.within.put _ _⟩
  · exact (hother fun heq => hnew (heq ▸ List.mem_map_of_mem hcopy)).trans (h.stored copy hcopy)
  · rw [List.map_append, List.mem_append]
    by_cases hbelow' : below = path.spot home
    · exact Or.inr (by simp [hbelow'])
    · exact Or.inl (h.only below content ((hother hbelow').symm.trans hbelow))
  · obtain ⟨parent, hparent, heq⟩ := htarget.exists_parent hparts
    exact dated_inside h.dated hid hparent heq hplace.ne_nil fun rest members changed =>
      Entry.members_eq_nil_of_leaf hleaf

/-- The session in progress is the one that files are backed up in. -/
theorem current_eq (h : Saving store session home new copies world) {session' : Session}
    (hcurrent : store.Current world session' world') :
    session' = session.listing copies ∧ world' = world := by
  cases hcurrent with
  | running inProgress => exact ⟨Option.some.inj (inProgress.symm.trans h.inProgress), rfl⟩
  | opened idle made => exact absurd (idle.symm.trans h.inProgress) (by simp)

/-- **All that backing up a file does to a session in progress:** the copies stay, and there is one
more if the file is copied; nothing changes but the session. -/
theorem backedUp (h : Saving store session home new copies world)
    (hsite : store.Site session home) (hid : new session.id)
    (hplace : store.Eligible session.id home (path.spot home)) {place : List String} {file : Entry}
    (hfile : world.HasFile path place file) {outcome : Except Fault (Option Path)}
    (hbacked : store.BackedUp path world (outcome, world')) :
    Entry.Within (store.sessionPlace session.id home) world.files world'.files ∧
      (Saving store session home new copies world' ∧
          (∀ backup, outcome = .ok backup → path.spot home ∈ copies.map Copy.place) ∨
        ∃ content backup, outcome = .ok (some backup) ∧ path.spot home ∉ copies.map Copy.place ∧
          world.files.contentAt (path.spot home) = some content ∧
          Saving store session home new (copies ++ [⟨path.spot home, content⟩]) world') := by
  obtain ⟨-, rfl⟩ := (h.place_iff hsite).1 hfile.leads
  have habove := (hplace.origin hfile.seen).above
  have hgrown : ∀ {grown}, world.makeDirectories (copyPath (session.listing copies)
      world.workingDirectory path).parent = .ok grown →
        Saving store session home new copies grown ∧
          Entry.Within (store.sessionPlace session.id home) world.files grown.files := by
    intro grown made
    rw [h.workingDirectory] at made
    exact h.grows hsite hid hplace habove (World.grows_of_makeDirectories made).2
  have hfault : ∀ {fault : Fault} (backup : Option Path),
      (.error fault : Except Fault (Option Path)) = .ok backup →
        path.spot home ∈ copies.map Copy.place := fun _ heq => absurd heq (by simp)
  cases hbacked with
  | fault begun =>
    cases begun with
    | start => exact ⟨h.within, Or.inl ⟨h, hfault⟩⟩
    | session current =>
      obtain ⟨-, rfl⟩ := h.current_eq current
      exact ⟨h.within, Or.inl ⟨h, hfault⟩⟩
    | directories current made =>
      obtain ⟨rfl, rfl⟩ := h.current_eq current
      obtain ⟨hready, hwithin⟩ := hgrown made
      exact ⟨hwithin, Or.inl ⟨hready, hfault⟩⟩
  | absent current gone =>
    obtain ⟨rfl, rfl⟩ := h.current_eq current
    have hthere := World.pathExists_eq_true_iff.2 ⟨_, hfile.leads, by rw [hfile.seen]; simp⟩
    exact absurd (gone.symm.trans hthere) (by simp)
  | listed current known =>
    obtain ⟨rfl, rfl⟩ := h.current_eq current
    rw [h.workingDirectory] at known
    exact ⟨h.within, Or.inl ⟨h, fun _ _ => (h.mem_listing_iff hplace).1 known⟩⟩
  | @copied _ _ grown last current unlisted made copied =>
    obtain ⟨rfl, rfl⟩ := h.current_eq current
    obtain ⟨hready, hwithin⟩ := hgrown made
    rw [h.workingDirectory] at unlisted copied ⊢
    have hnew := mt (h.mem_listing_iff hplace).2 unlisted
    obtain ⟨content, hcontent, hlast, hwithin'⟩ := hready.copied hsite hid hplace hnew copied
    have hlisting : (session.listing (copies ++ [⟨path.spot home, content⟩])).files =
        (session.listing copies).files ++ [(path.resolve home).toText] := List.map_append
    refine ⟨hwithin.trans hwithin', Or.inr ⟨content, _, rfl, hnew, ?_, hlisting ▸ hlast⟩⟩
    rw [← hcontent]
    exact (Entry.contentAt_congr (hwithin.seen_eq hplace.notInside)).symm

end Saving

end BackupStore
end UsageOrder
