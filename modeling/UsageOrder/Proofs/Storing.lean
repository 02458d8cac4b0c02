import UsageOrder.Proofs.Found
import UsageOrder.Proofs.Opening

/-!
# The session that a run leaves

When a run is over its session gets a list of the copies in it, is packed if asked for, and sessions
that are too many are removed.  The session itself is not one of them, so it is left as a directory
or as an archive (`BackupStore.Stored`).  What is outside of the stored sessions is spared
(`BackupStore.Spared`), and the way to the directory of the sessions stays open
(`BackupStore.Standing`).  So the session is kept (`BackupStore.Kept`,
`BackupStore.Saving.finalized`).
-/

namespace UsageOrder

theorem World.removeTree_eq_ok_iff {world world' : World} {path : Path} :
    world.removeTree path = .ok world' ↔
      ∃ place, path.hasNull = false ∧ world.place path = .ok place ∧
        world.files.seen place ≠ none ∧
          world' = { world with files := world.files.remove place } := by
  rw [removeTree, bind_eq_ok_iff]
  constructor
  · rintro ⟨⟨place, entry⟩, hlocate, hremove⟩
    obtain ⟨hnull, hplace, hentry⟩ := locate_eq_ok_iff.1 hlocate
    cases entry with
    | none => exact absurd hremove (by simp)
    | some entry =>
      refine ⟨place, hnull, hplace, ?_, (Except.ok.inj hremove).symm⟩
      rw [seen_ne_none_iff, hentry]
      rfl
  · rintro ⟨place, hnull, hplace, hseen, rfl⟩
    rw [seen_ne_none_iff, Option.isSome_iff_exists] at hseen
    obtain ⟨entry, hentry⟩ := hseen
    exact ⟨(place, some entry), locate_eq_ok_iff.2 ⟨hnull, hplace, hentry⟩, rfl⟩

namespace BackupStore

variable {store : BackupStore} {session : Session} {home place : List String}
  {new : String → Prop} {copies : List Copy} {world world' : World} {path : Path} {id name : String}

/-- The path of the archive of a session. -/
def archivePath (store : BackupStore) (id : String) : Path :=
  store.directory.join ⟨0, [id ++ archiveEnd]⟩

/-- The name of an archive is one that a session can have. -/
theorem SessionName.archive (h : SessionName id) : SessionName (id ++ archiveEnd) := by
  have hend : archiveEnd.toList = ['.', 't', 'a', 'r', '.', 'g', 'z'] := by decide
  have hlength : 7 ≤ (id ++ archiveEnd).toList.length := by
    rw [String.toList_append, hend, List.length_append]
    exact Nat.le_add_left ..
  have hne : ∀ {other : String}, other.toList.length < 7 → id ++ archiveEnd ≠ other := by
    rintro other hother rfl
    exact absurd hlength (Nat.not_le.2 hother)
  have hchars : ∀ c, c ∉ id.toList → c ∉ archiveEnd.toList → c ∉ (id ++ archiveEnd).toList := by
    intro c hid hend hmem
    rw [String.toList_append, List.mem_append] at hmem
    exact hmem.elim hid hend
  refine ⟨⟨hne (by decide), hne (by decide), hne (by decide), hchars _ h.noSlash (by decide),
    hchars _ h.noNull (by decide)⟩, ?_⟩
  rw [String.toList_append, List.isPrefixOf_iff_prefix]
  exact (List.isPrefixOf_iff_prefix.1 h.marked).trans (List.prefix_append _ _)

theorem archiveEnd_isSuffixOf (id : String) :
    archiveEnd.toList.isSuffixOf (id ++ archiveEnd).toList = true := by
  rw [List.isSuffixOf_iff_suffix, String.toList_append]
  exact List.suffix_append _ _

theorem ne_append_archiveEnd (id : String) : id ≠ id ++ archiveEnd := fun heq => by
  have hlength := congrArg String.length heq
  rw [String.length_append] at hlength
  exact absurd hlength (by simp [archiveEnd])

theorem concat_not_prefix_concat {base : List String} {a b : String} (h : a ≠ b) :
    ¬ base ++ [a] <+: base ++ [b] := by
  rw [List.prefix_append_right_inj]
  exact fun hstarts => h (List.cons.inj (hstarts.eq_of_length rfl)).1

/-! ### What is outside of the stored sessions -/

/-- A place that is outside of all that can be a stored session. -/
def Spared (store : BackupStore) (home place : List String) (world : World) : Prop :=
  ∀ name, sessionMark.toList.isPrefixOf name.toList = true →
    store.base home ++ [name] <+: place →
      place = store.base home ++ [name] ∧ archiveEnd.toList.isSuffixOf name.toList = false ∧
        ¬ world.files.IsDirectoryAt place

theorem Spared.of_seen (h : store.Spared home place world)
    (hseen : world'.files.seen place = world.files.seen place) : store.Spared home place world' := by
  intro name hmark hstarts
  obtain ⟨heq, hend, hdirectory⟩ := h name hmark hstarts
  refine ⟨heq, hend, fun hthere => hdirectory ?_⟩
  rwa [Entry.IsDirectoryAt, ← hseen]

theorem spared_of_not_inSession (h : ¬ InSession (store.base home) place)
    (hdirectory : ¬ world.files.IsDirectoryAt place) : store.Spared home place world := by
  intro name hmark hstarts
  refine ⟨?_, ?_, hdirectory⟩
  · by_contra hne
    exact h ⟨name, hmark, hstarts, fun heq => absurd heq hne⟩
  · rw [Bool.eq_false_iff]
    exact fun hend => h ⟨name, hmark, hstarts, fun _ => hend⟩

/-- A place to which a file can be put back stays one when all that is spared stays. -/
theorem Origin.of_spared (h : store.Origin id home place world)
    (hspared : ∀ other, store.Spared home other world →
      world'.files.seen other = world.files.seen other) : store.Origin id home place world' where
  toEligible := h.toEligible
  above count hcount := by
    -- What is above the place is in no session, or the place would be in it.
    refine (hspared _ fun name hmark hstarts => ?_).trans (h.above count hcount)
    have hshort := hstarts.length_le
    rw [List.length_take] at hshort
    refine absurd ⟨name, hmark, hstarts.trans (List.take_prefix _ _), fun heq => ?_⟩ h.apart
    rw [heq] at hshort hcount
    omega
  notDirectory hdirectory := by
    refine h.notDirectory ?_
    rwa [Entry.IsDirectoryAt,
      ← hspared place (spared_of_not_inSession h.apart h.notDirectory)]

theorem Origin.later (h : store.Origin id home place world) (now : Nat) :
    store.Origin id home place (world.later now) :=
  h.mono (fun _ => (Entry.isDirectoryAt_settle_iff _).2)
    fun _ hother => Or.inl ((Entry.isDirectoryAt_settle_iff _).1 hother)

/-- What is spared is not in the archive of a session. -/
theorem Spared.not_prefix_archive (h : store.Spared home place world) (hid : SessionName id) :
    ¬ store.base home ++ [id ++ archiveEnd] <+: place := fun hstarts =>
  absurd (archiveEnd_isSuffixOf id) (by rw [(h _ hid.archive.marked hstarts).2.1]; simp)

/-- What is spared is not in a directory with the name of a session. -/
theorem Spared.not_prefix_directory (h : store.Spared home place world)
    (hmark : sessionMark.toList.isPrefixOf name.toList = true)
    (hdirectory : world.files.IsDirectoryAt (store.base home ++ [name])) :
    ¬ store.base home ++ [name] <+: place := fun hstarts => by
  obtain ⟨rfl, -, hnot⟩ := h name hmark hstarts
  exact hnot hdirectory

/-- What is spared is not in a session. -/
theorem Spared.not_prefix_member (h : store.Spared home place world)
    {members : List (String × Entry)} {changed : ChangeTime}
    (hmembers : world.files.at? (store.base home) = some (.directory members changed))
    (hnodup : (members.map Prod.fst).Nodup) {member : String × Entry} (hmember : member ∈ members)
    (hsession : isSession member = true) : ¬ store.base home ++ [member.1] <+: place := by
  intro hstarts
  obtain ⟨name, entry⟩ := member
  obtain ⟨hmark, hkind⟩ := Bool.and_eq_true_iff.1 hsession
  rcases Bool.or_eq_true_iff.1 hkind with hdirectory | hend
  · refine h.not_prefix_directory hmark ?_ hstarts
    have hat := (Entry.at?_concat_iff hmembers).2 (lookup_eq_some_of_mem hnodup hmember)
    cases entry with
    | directory inner time => exact Entry.isDirectoryAt_iff.2 ⟨inner, time, hat⟩
    | file | archive => exact absurd hdirectory (by simp [Entry.isDirectory])
  · exact absurd hend (by rw [(h name hmark hstarts).2.1]; simp)

/-- The way to the directory of the sessions is open. -/
structure Standing (store : BackupStore) (home : List String) (world : World) : Prop where
  workingDirectory : world.workingDirectory = home
  leads : world.Leads store.directory
  directory : world.files.IsDirectoryAt (store.base home)

theorem Saving.standing (h : Saving store session home new copies world)
    (hsite : store.Site session home) : store.Standing home world where
  workingDirectory := h.workingDirectory
  leads := by
    have hbase : session.directory.upTo store.directory.parts.length = store.directory := by
      rw [hsite.path, sessionPath, Path.upTo_join, if_pos (Nat.le_refl _), Path.upTo,
        List.take_length]
    exact hbase ▸ h.leads.upTo _
  directory := h.directory.of_concat

namespace Standing

/-- A change of directories elsewhere leaves the way open. -/
theorem of_directories (h : store.Standing home world)
    (hworking : world'.workingDirectory = world.workingDirectory)
    (hkept : ∀ place, world.files.IsDirectoryAt place → world'.files.IsDirectoryAt place) :
    store.Standing home world' where
  workingDirectory := hworking.trans h.workingDirectory
  leads := h.leads.mono fun _ _ hthere => hworking ▸ hkept _ hthere
  directory := hkept _ h.directory

theorem later (h : store.Standing home world) (now : Nat) : store.Standing home (world.later now) :=
  h.of_directories rfl fun _ => (Entry.isDirectoryAt_settle_iff _).2

/-- A change in a stored session leaves the way open. -/
theorem change (h : store.Standing home world) (hsite : store.Site session home)
    (hmark : sessionMark.toList.isPrefixOf name.toList = true)
    (hworking : world'.workingDirectory = world.workingDirectory)
    (hseen : ∀ place, ¬ store.base home ++ [name] <+: place →
      world'.files.seen place = world.files.seen place) : store.Standing home world' where
  workingDirectory := hworking.trans h.workingDirectory
  leads := h.leads.mono fun count _ hthere => by
    rw [hworking, h.workingDirectory] at *
    exact (hseen _ (hsite.way count name hmark)).trans hthere
  directory := (hseen _ fun hstarts => absurd hstarts.length_le (by simp)).trans h.directory

theorem put (h : store.Standing home world) (hsite : store.Site session home)
    (hmark : sessionMark.toList.isPrefixOf name.toList = true) (entry : Entry) :
    store.Standing home
      { world with files := world.files.put (store.base home ++ [name]) entry } :=
  h.change hsite hmark rfl fun _ hplace =>
    (Entry.seen_put_tree h.directory entry name _).trans (if_neg hplace)

theorem remove (h : store.Standing home world) (hsite : store.Site session home)
    (hmark : sessionMark.toList.isPrefixOf name.toList = true) :
    store.Standing home { world with files := world.files.remove (store.base home ++ [name]) } :=
  h.change hsite hmark rfl fun _ hplace =>
    (Entry.seen_remove_tree world.files _ name _).trans (if_neg hplace)

theorem place_iff (h : store.Standing home world) (hsite : store.Site session home) :
    world.place path = .ok place ↔ world.Leads path ∧ place = path.spot home := by
  rw [World.place_eq_ok_iff (h.workingDirectory ▸ hsite.dots_not_mem), h.workingDirectory]

end Standing

/-! ### The stored session -/

/-- The directory of a session has its metadata and its copies. -/
structure Holds (session : Session) (copies : List Copy) (tree : Entry) : Prop where
  usable : ∀ copy ∈ copies, (session.directory.join ⟨0, copy.place⟩).Usable
  readable : (session.directory.join metadataFile).Usable
  metadata : tree.contentAt metadataFile.parts =
    some (.file (.text (metadata (session.listing copies)).indented.toList) none)
  copies : ∀ copy ∈ copies, tree.contentAt copy.place = some copy.content

/-- What has metadata in it is a directory. -/
theorem Holds.exists_members {tree : Entry} (h : Holds session copies tree) :
    ∃ members changed, tree = .directory members changed := by
  obtain ⟨file, hfile, -⟩ := Entry.contentAt_eq_some_iff.1 h.metadata
  cases tree with
  | directory members changed => exact ⟨members, changed, rfl⟩
  | file | archive =>
    exact absurd hfile (by simp [Entry.seen, Entry.at?, Entry.child?, metadataFile])

/-- **A session is stored under a name,** as a directory or as an archive. -/
inductive Stored (store : BackupStore) (session : Session) (home : List String)
    (copies : List Copy) : String → World → Prop
  | directory {world : World} {tree : Entry}
      (there : world.files.at? (store.sessionPlace session.id home) = some tree)
      (holds : Holds session copies tree) : Stored store session home copies session.id world
  | archive {world : World} {tree : Entry} {changed : ChangeTime}
      (gone : world.files.seen (store.sessionPlace session.id home) = none)
      (there : world.files.at? (store.base home ++ [session.id ++ archiveEnd]) =
        some (.archive [session.id] tree changed))
      (usable : (store.archivePath session.id).Usable) (holds : Holds session copies tree) :
      Stored store session home copies (session.id ++ archiveEnd) world

namespace Stored

theorem of_files (h : Stored store session home copies name world)
    (hfiles : world'.files = world.files) : Stored store session home copies name world' := by
  cases h with
  | directory there holds => exact .directory (hfiles ▸ there) holds
  | archive gone there usable holds => exact .archive (hfiles ▸ gone) (hfiles ▸ there) usable holds

/-- A stored session stays as time passes. -/
theorem later (h : Stored store session home copies name world) (now : Nat) :
    Stored store session home copies name (world.later now) := by
  cases h with
  | directory there holds =>
    refine .directory ((Entry.at?_settle ..).trans (congrArg _ there)) ⟨holds.usable, holds.readable,
      (Entry.contentAt_settle ..).trans holds.metadata, fun copy hcopy => ?_⟩
    exact (Entry.contentAt_settle ..).trans (holds.copies copy hcopy)
  | archive gone there usable holds =>
    exact .archive ((Entry.seen_settle_eq_none_iff _).2 gone)
      ((Entry.at?_settle ..).trans (congrArg _ there)) usable holds

/-- A stored session stays when its entry stays in the directory of the sessions, and nothing comes to
the place of its directory. -/
theorem of_members (h : Stored store session home copies name world)
    {members members' : List (String × Entry)} {changed changed' : ChangeTime}
    (hat : world.files.at? (store.base home) = some (.directory members changed))
    (hat' : world'.files.at? (store.base home) = some (.directory members' changed'))
    (hentry : members'.lookup name = members.lookup name)
    (hgone : members.lookup session.id = none → members'.lookup session.id = none) :
    Stored store session home copies name world' := by
  have hthere : ∀ {entry}, world.files.at? (store.base home ++ [name]) = some entry →
      world'.files.at? (store.base home ++ [name]) = some entry := fun h =>
    (Entry.at?_concat_iff hat').2 (hentry.trans ((Entry.at?_concat_iff hat).1 h))
  cases h with
  | directory there holds => exact .directory (hthere there) holds
  | archive gone there usable holds =>
    refine .archive ?_ (hthere there) usable holds
    rw [sessionPlace, Entry.seen_concat_eq_none_iff hat] at gone
    rw [sessionPlace, Entry.seen_concat_eq_none_iff hat']
    exact hgone gone

/-- A stored session is one of the sessions. -/
theorem exists_entry (h : Stored store session home copies name world)
    (hid : SessionName session.id) :
    ∃ entry, world.files.at? (store.base home ++ [name]) = some entry ∧
      isSession (name, entry) = true := by
  cases h with
  | @directory _ tree there holds =>
    obtain ⟨members, changed, rfl⟩ := holds.exists_members
    exact ⟨_, there, Bool.and_eq_true_iff.2 ⟨hid.marked, rfl⟩⟩
  | archive gone there usable holds =>
    exact ⟨_, there, Bool.and_eq_true_iff.2 ⟨hid.archive.marked, archiveEnd_isSuffixOf _⟩⟩

end Stored

/-! ### The end of a session -/

/-- Neither a copy nor a directory of a session in progress has the name of its metadata. -/
theorem Saving.seen_metadata (h : Saving store session home new copies world) :
    world.files.seen (store.sessionPlace session.id home ++ metadataFile.parts) = none := by
  cases hthere : world.files.seen (store.sessionPlace session.id home ++ metadataFile.parts) with
  | none => rfl
  | some found =>
    cases found with
    | none => exact absurd rfl (h.shadows _ hthere).1
    | some file =>
      have hmem := h.only _ _ (Entry.contentAt_of_seen hthere)
      obtain ⟨copy, hcopy, heq⟩ := List.mem_map.1 hmem
      exact absurd (heq ▸ List.prefix_rfl) (h.origin copy hcopy).notMetadata

/-- The metadata are a member more of the directory of the session. -/
theorem Saving.at?_metadata (h : Saving store session home new copies world) (file : Entry) :
    ∃ members, (world.files.put (store.sessionPlace session.id home ++ metadataFile.parts) file).at?
      (store.sessionPlace session.id home) = some (.directory members none) := by
  obtain ⟨inner, time, hinner⟩ := Entry.isDirectoryAt_iff.1 h.directory
  have hnone : inner.lookup "session.json" = none := by
    have hfree := h.seen_metadata
    rw [Entry.seen, Option.map_eq_none_iff, metadataFile, Option.eq_none_iff_forall_ne_some] at hfree
    rw [Option.eq_none_iff_forall_ne_some]
    exact fun entry hentry => hfree entry ((Entry.at?_concat_iff hinner).2 hentry)
  refine ⟨inner ++ [("session.json", file)], ?_⟩
  rw [Entry.at?_put_above (by decide), hinner, Option.map_some, metadataFile, Entry.put, hnone]
  rfl

/-- **A session whose metadata are written into its directory,** and no other one is being changed. -/
structure Described (store : BackupStore) (session : Session) (home : List String)
    (copies : List Copy) (world world' : World) (tree : Entry) : Prop where
  there : world'.files.at? (store.sessionPlace session.id home) = some tree
  changed : tree.changed = none
  holds : Holds session copies tree
  standing : store.Standing home world'
  leads : world'.Leads session.directory
  dated : world'.files.Dated (store.base home) (· = session.id)
  now : world'.now = world.now
  within : Entry.Within (store.sessionPlace session.id home) world.files world'.files

theorem Saving.described (h : Saving store session home (· = session.id) copies world)
    (hsite : store.Site session home)
    (hwritten : world.writeText (session.directory.join metadataFile)
      (metadata (session.listing copies)).indented.toList = .ok world') :
    ∃ tree, Described store session home copies world world' tree := by
  have hparts : (session.directory.join metadataFile).parts ≠ [] := by
    rw [metadataFile, Path.join, if_pos rfl]
    exact List.concat_ne_nil _ _
  obtain ⟨place, hplace, rfl⟩ := World.writeFile_eq_ok_iff.1 hwritten
  obtain ⟨hleads, hspot⟩ := (h.place_iff hsite).1 hplace.leads
  obtain rfl : place = store.sessionPlace session.id home ++ metadataFile.parts :=
    hspot.trans (hsite.spot_inside (by decide))
  generalize hfile : Entry.file (.text (metadata (session.listing copies)).indented.toList) none =
    file
  have hleaf : file.leaf? = some file := hfile ▸ rfl
  have hseen := hplace.seen_put hparts hleaf
  have hkept : ∀ other, world.files.IsDirectoryAt other →
      (world.files.put (store.sessionPlace session.id home ++ metadataFile.parts)
        file).IsDirectoryAt other := fun _ => (hplace.isDirectoryAt_put_iff hparts hleaf).2
  obtain ⟨members, hat⟩ := h.at?_metadata file
  exact ⟨_, {
    there := hat
    changed := rfl
    holds := {
      usable := h.usable
      readable := ⟨hplace.noNull, hleads.short, hleads.parts⟩
      metadata := by
        rw [← Entry.contentAt_append hat, Entry.contentAt_of_seen ((hseen _).trans (if_pos rfl)),
          hfile]
        exact congrArg some (hfile ▸ rfl)
      copies := fun copy hcopy => by
        rw [← Entry.contentAt_append hat, ← h.stored copy hcopy]
        refine Entry.contentAt_congr ((hseen _).trans (if_neg fun heq => ?_))
        exact (h.origin copy hcopy).notMetadata (List.append_cancel_left heq ▸ List.prefix_rfl) }
    standing := (h.standing hsite).of_directories rfl hkept
    leads := h.leads.mono fun _ _ => hkept _
    dated := dated_inside h.dated rfl h.directory rfl (by decide) fun rest members changed =>
      Entry.members_eq_nil_of_leaf hleaf
    now := rfl
    within := h.within.put _ _ }⟩

/-- All that is not in a session is as it was when the metadata are written. -/
theorem Described.seen_eq {tree : Entry} (h : Described store session home copies world world' tree)
    (hid : SessionName session.id)
    (hdirectory : world.files.IsDirectoryAt (store.sessionPlace session.id home))
    (hplace : store.Spared home place world) :
    world'.files.seen place = world.files.seen place :=
  h.within.seen_eq (hplace.not_prefix_directory hid.marked hdirectory)

/-! ### Packed sessions -/

/-- The tree with an archive of a session in place of its directory. -/
def packing (store : BackupStore) (home : List String) (id : String) (tree top : Entry) : Entry :=
  (top.put (store.base home ++ [id ++ archiveEnd]) (.archive [id] tree none)).remove
    (store.sessionPlace id home)

section Packing

variable {tree top : Entry} {members : List (String × Entry)} {changed : ChangeTime}

theorem seen_packing_session : (store.packing home id tree top).seen (store.sessionPlace id home) =
    none :=
  (Entry.seen_remove_tree ..).trans (if_pos List.prefix_rfl)

theorem at?_packing_archive (hdirectory : top.IsDirectoryAt (store.base home)) :
    (store.packing home id tree top).at? (store.base home ++ [id ++ archiveEnd]) =
      some (.archive [id] tree none) := by
  have hne := ne_append_archiveEnd id
  have hunder := Entry.at?_put_under hdirectory (.archive [id] tree none) (id ++ archiveEnd) []
  rw [List.append_nil] at hunder
  exact (Entry.at?_remove_apart (concat_not_prefix_concat hne) (concat_not_prefix_concat hne.symm)
    _).trans hunder

/-- Elsewhere the tree is as it was. -/
theorem seen_packing (hdirectory : top.IsDirectoryAt (store.base home))
    (hsession : ¬ store.sessionPlace id home <+: place)
    (harchive : ¬ store.base home ++ [id ++ archiveEnd] <+: place) :
    (store.packing home id tree top).seen place = top.seen place :=
  (Entry.seen_remove_tree ..).trans ((if_neg hsession).trans
    ((Entry.seen_put_tree hdirectory ..).trans (if_neg harchive)))

/-- The archive is what is being changed. -/
theorem dated_packing (hdirectory : top.IsDirectoryAt (store.base home))
    (hdated : top.Dated (store.base home) (· = id)) :
    (store.packing home id tree top).Dated (store.base home) (· = id ++ archiveEnd) := by
  have hself : ∀ {other : String}, store.base home ≠ store.base home ++ [other] :=
    fun heq => absurd (congrArg List.length heq) (by simp)
  have hboth : (top.put (store.base home ++ [id ++ archiveEnd]) (.archive [id] tree none)).Dated
      (store.base home) fun other => other = id ∨ other = id ++ archiveEnd := by
    refine Entry.Dated.put (fun members changed hmembers =>
      (hdated members changed hmembers).mono fun _ _ => Or.inl) hdirectory
        (fun rest members changed => Entry.members_eq_nil_of_leaf rfl)
        (fun other hother => absurd hother hself) fun _ _ _ => Or.inr rfl
  exact hboth.remove (fun other hother => absurd hother hself)
    fun other hother hnew => hnew.resolve_left (hother rfl)

/-- The other members of the directory of the sessions stay. -/
theorem members_packing (hmembers : top.at? (store.base home) = some (.directory members changed)) :
    ∃ members' changed', (store.packing home id tree top).at? (store.base home) =
        some (.directory members' changed') ∧
      (members'.filter fun member => decide (member.1 ≠ id ++ archiveEnd)) =
        (members.filter fun member => decide (member.1 ≠ id)).filter fun member =>
          decide (member.1 ≠ id ++ archiveEnd) := by
  obtain ⟨between, time, hput, hothers⟩ := Entry.at?_put_member hmembers (id ++ archiveEnd)
    (.archive [id] tree none)
  obtain ⟨changed', hlast⟩ := Entry.at?_remove_member hput id
  exact ⟨_, changed', hlast, by rw [List.filter_comm, hothers, List.filter_comm]⟩

end Packing

/-- A session is packed by writing its archive and removing its directory. -/
theorem pack_of_ok {archive : Path} (hid : Path.IsName (session.id ++ archiveEnd))
    (h : store.pack session world = (.ok archive, world')) :
    ∃ tree written removed, world.at? session.directory = some tree ∧
      world.writeFile (store.archivePath session.id)
        (.archive (Path.ofText session.id).parts tree none) = .ok written ∧
      written.removeTree session.directory = .ok removed ∧
      world' = { removed with session := some { session with compressed := true } } := by
  rw [pack, Run.get_bind] at h
  cases htree : world.at? session.directory with
  | none =>
    rw [htree] at h
    exact absurd (Prod.mk.inj h).1 (by simp)
  | some tree =>
    rw [htree, Path.ofText_of_isName hid] at h
    obtain ⟨_, written, hwritten, h⟩ := Run.bind_iff.1 h
    obtain ⟨_, removed, hremoved, h⟩ := Run.bind_iff.1 h
    exact ⟨tree, written, removed, rfl, Run.change_iff.1 hwritten, Run.change_iff.1 hremoved,
      (Prod.mk.inj h).2.symm⟩

/-- **A packed session has its archive in place of its directory.** -/
theorem files_of_pack (hsite : store.Site session home) (hstanding : store.Standing home world)
    (hleads : world.Leads session.directory) {tree : Entry} {archive : Path}
    (hat : world.files.at? (store.sessionPlace session.id home) = some tree)
    (hpack : store.pack (session.listing copies) world = (.ok archive, world')) :
    (store.archivePath session.id).Usable ∧ ∃ packed, world' =
      { world with files := store.packing home session.id tree world.files, session := packed } := by
  have hname := hsite.id.archive
  have hlisting := session.listing_id copies
  obtain ⟨tree', written, removed, htree, hwritten, hremoved, rfl⟩ :=
    pack_of_ok (hlisting.symm ▸ hname.toIsName) hpack
  rw [session.listing_directory] at htree hremoved
  rw [hlisting, Path.ofText_of_isName hsite.id.toIsName] at hwritten
  obtain rfl : tree' = tree := by
    rw [World.at?, (hstanding.place_iff hsite).2 ⟨hleads, rfl⟩, hsite.spot_session] at htree
    exact Option.some.inj (htree.symm.trans hat)
  obtain ⟨place, hplace, rfl⟩ := World.writeFile_eq_ok_iff.1 hwritten
  obtain ⟨hleads', hspot⟩ := (hstanding.place_iff hsite).1 hplace.leads
  obtain rfl : place = store.base home ++ [session.id ++ archiveEnd] :=
    hspot.trans (Path.spot_join (by simpa using hname.ne_dots.symm))
  have hput := hstanding.put hsite hname.marked (.archive [session.id] tree' none)
  obtain ⟨place, -, hsession, -, rfl⟩ := World.removeTree_eq_ok_iff.1 hremoved
  obtain rfl : place = store.sessionPlace session.id home :=
    ((hput.place_iff hsite).1 hsession).2.trans hsite.spot_session
  exact ⟨⟨hplace.noNull, hleads'.short, hleads'.parts⟩, _, rfl⟩

/-- The name under which a session is stored when it has ended. -/
def storedName (store : BackupStore) (id : String) : String :=
  if store.compression.truthy then id ++ archiveEnd else id

/-- **What a session in progress has become at its end,** before others are removed: it is stored and
is the only one that is being changed. -/
structure Filed (store : BackupStore) (session : Session) (home : List String) (copies : List Copy)
    (world world' : World) : Prop where
  stored : Stored store session home copies (store.storedName session.id) world'
  standing : store.Standing home world'
  changed : ∀ entry, world'.files.at? (store.base home ++ [store.storedName session.id]) =
    some entry → entry.changed = none
  dated : world'.files.Dated (store.base home) (· = store.storedName session.id)
  now : world'.now = world.now
  outside : ∀ place, store.Spared home place world →
    world'.files.seen place = world.files.seen place
  others : ∀ members changed, world.files.at? (store.base home) = some (.directory members changed) →
    ∃ members' changed', world'.files.at? (store.base home) = some (.directory members' changed') ∧
      (members'.filter fun member => decide (member.1 ≠ store.storedName session.id)) =
        (members.filter fun member => decide (member.1 ≠ session.id)).filter fun member =>
          decide (member.1 ≠ store.storedName session.id)

/-- A session that is not packed is stored as its directory. -/
theorem Described.filed {tree : Entry} (h : Described store session home copies world world' tree)
    (hid : SessionName session.id)
    (hdirectory : world.files.IsDirectoryAt (store.sessionPlace session.id home))
    (hname : store.storedName session.id = session.id) :
    Filed store session home copies world world' where
  stored := by
    rw [hname]
    exact .directory h.there h.holds
  standing := h.standing
  changed entry hentry := by
    rw [hname] at hentry
    exact Option.some.inj (h.there.symm.trans hentry) ▸ h.changed
  dated := by
    rw [hname]
    exact h.dated
  now := h.now
  outside _ hplace := h.seen_eq hid hdirectory hplace
  others members changed hmembers := by
    obtain ⟨child, hat⟩ := h.within.members_eq hmembers
    refine ⟨_, changed, hat, ?_⟩
    rw [hname, Entry.filter_setMember, List.filter_filter]
    simp

/-- A session that is packed is stored as its archive. -/
theorem Described.filed_packing {tree : Entry} {written : World}
    (h : Described store session home copies world written tree) (hsite : store.Site session home)
    (hdirectory : world.files.IsDirectoryAt (store.sessionPlace session.id home))
    (hname : store.storedName session.id = session.id ++ archiveEnd)
    (husable : (store.archivePath session.id).Usable) (packed : Option Session) :
    Filed store session home copies world { written with
      files := store.packing home session.id tree written.files, session := packed } where
  stored := by
    rw [hname]
    exact .archive seen_packing_session (at?_packing_archive h.standing.directory) husable h.holds
  standing := ((h.standing.put hsite hsite.id.archive.marked (.archive [session.id] tree none)).remove
    hsite hsite.id.marked).of_directories rfl fun _ hother => hother
  changed entry hentry := by
    rw [hname] at hentry
    exact Option.some.inj ((at?_packing_archive h.standing.directory).symm.trans hentry) ▸ rfl
  dated := by
    rw [hname]
    exact dated_packing h.standing.directory h.dated
  now := h.now
  outside place hplace :=
    (seen_packing h.standing.directory (hplace.not_prefix_directory hsite.id.marked hdirectory)
      (hplace.not_prefix_archive hsite.id)).trans (h.seen_eq hsite.id hdirectory hplace)
  others members changed hmembers := by
    obtain ⟨child, hat⟩ := h.within.members_eq hmembers
    rw [hname, ← Entry.filter_setMember session.id child members]
    exact members_packing hat

/-- **The end of a session:** it is stored, and then sessions that are too many are removed. -/
theorem Saving.filed (h : Saving store session home (· = session.id) copies world)
    (hsite : store.Site session home) {result : Option Path}
    (hfinal : store.finalize world = (.ok result, world')) :
    ∃ filed count removed, Filed store session home copies world filed ∧
      store.removeOld filed = (.ok count, removed) ∧ world' = { removed with session := none } := by
  rw [finalize, Run.get_bind, h.inProgress] at hfinal
  obtain ⟨_, written, hwritten, hfinal⟩ := Run.bind_iff.1 hfinal
  obtain ⟨tree, hdescribed⟩ := h.described hsite (Run.writeText_iff.1 hwritten)
  dsimp only at hfinal
  split_ifs at hfinal with hcompressed
  · obtain ⟨archive, filed, hpacked, hfinal⟩ := Run.bind_iff.1 hfinal
    obtain ⟨count, removed, hremoved, hrest⟩ := Run.bind_iff.1 hfinal
    obtain ⟨husable, packed, rfl⟩ :=
      files_of_pack hsite hdescribed.standing hdescribed.leads hdescribed.there hpacked
    have hfiled := hdescribed.filed_packing hsite h.directory (if_pos hcompressed) husable packed
    exact ⟨_, count, removed, hfiled, hremoved, (Prod.mk.inj hrest).2.symm⟩
  · obtain ⟨directory, filed, hfiled, hrest⟩ := Run.bind_iff.1 hfinal
    obtain ⟨-, rfl⟩ := Run.pure_iff.1 hfiled
    obtain ⟨count, removed, hremoved, hrest⟩ := Run.bind_iff.1 hrest
    exact ⟨written, count, removed, hdescribed.filed hsite.id h.directory (if_neg hcompressed),
      hremoved, (Prod.mk.inj hrest).2.symm⟩

/-! ### Sessions that are removed -/

/-- **Sessions that are removed are no longer in their directory,** and nothing else changes. -/
theorem removeEach_of_ok (hsite : store.Site session home) {old : List (String × Entry)}
    (hold : ∀ member ∈ old, sessionMark.toList.isPrefixOf member.1.toList = true)
    (hstanding : store.Standing home world)
    (h : (old.forM fun member => Run.removeTree (store.directory.join ⟨0, [member.1]⟩)) world =
      (.ok (), world')) :
    store.Standing home world' ∧ world'.now = world.now ∧
      (∀ members changed, world.files.at? (store.base home) = some (.directory members changed) →
        ∃ changed', world'.files.at? (store.base home) =
          some (.directory (members.filter fun member => decide (member.1 ∉ old.map Prod.fst))
            changed')) ∧
      ∀ place, (∀ member ∈ old, ¬ store.base home ++ [member.1] <+: place) →
        world'.files.seen place = world.files.seen place := by
  induction old generalizing world with
  | nil =>
    obtain ⟨-, rfl⟩ := Run.pure_iff.1 h
    exact ⟨hstanding, rfl, fun members changed hat => ⟨changed, by simpa using hat⟩, fun _ _ => rfl⟩
  | cons member old ih =>
    obtain ⟨hmark, hrest⟩ := List.forall_mem_cons.1 hold
    obtain ⟨_, between, hremoved, h⟩ := Run.bind_iff.1 h
    obtain ⟨place, -, hplace, -, rfl⟩ := World.removeTree_eq_ok_iff.1 (Run.change_iff.1 hremoved)
    have hdots : member.1 ≠ ".." := fun hdots => by
      rw [hdots] at hmark
      exact absurd hmark (by decide)
    obtain rfl : place = store.base home ++ [member.1] :=
      ((hstanding.place_iff hsite).1 hplace).2.trans (Path.spot_join (by simpa using hdots.symm))
    obtain ⟨hstands, hnow, hmembers, hframe⟩ := ih hrest (hstanding.remove hsite hmark) h
    refine ⟨hstands, hnow, fun members changed hat => ?_, fun other hother => ?_⟩
    · obtain ⟨time, htime⟩ := Entry.at?_remove_member hat member.1
      obtain ⟨changed', hlast⟩ := hmembers _ _ htime
      have hboth : ∀ other : String × Entry,
          (decide (other.1 ∉ old.map Prod.fst) && decide (other.1 ≠ member.1)) =
            decide (other.1 ∉ (member :: old).map Prod.fst) := fun other => by
        rw [List.map_cons, ← Bool.decide_and]
        exact decide_eq_decide.2 (by rw [List.mem_cons, not_or, and_comm])
      rw [List.filter_filter, List.filter_congr fun other _ => hboth other] at hlast
      exact ⟨changed', hlast⟩
    · obtain ⟨hfirst, hothers⟩ := List.forall_mem_cons.1 hother
      exact (hframe other hothers).trans ((Entry.seen_remove_tree ..).trans (if_neg hfirst))

/-- The sessions that are too many are removed, and they are counted. -/
theorem removeOld_of_ok (hsite : store.Site session home) (hstanding : store.Standing home world)
    {members : List (String × Entry)} {changed : ChangeTime}
    (hat : world.files.at? (store.base home) = some (.directory members changed)) {count : Nat}
    (h : store.removeOld world = (.ok count, world')) :
    ∃ old, store.surplus (newestFirst (members.filter isSession)) = .ok old ∧ count = old.length ∧
      (old.forM fun member => Run.removeTree (store.directory.join ⟨0, [member.1]⟩)) world =
        (.ok (), world') := by
  obtain ⟨entries, between, hread, h⟩ := Run.bind_iff.1 h
  obtain ⟨hentries, rfl⟩ := Run.read_iff.1 hread
  obtain ⟨found, hfound, heq⟩ := bind_eq_ok_iff.1 hentries
  obtain rfl := Except.ok.inj heq
  obtain ⟨old, between, hold, h⟩ := Run.bind_iff.1 h
  obtain ⟨hsurplus, rfl⟩ := Run.ofExcept_iff.1 hold
  obtain ⟨_, last, hremoved, h⟩ := Run.bind_iff.1 h
  obtain ⟨rfl, rfl⟩ := Run.pure_iff.1 h
  obtain ⟨time, hfound⟩ := World.at?_of_directoryAt
    (hstanding.workingDirectory ▸ hsite.dots_not_mem) hfound
  rw [hstanding.workingDirectory] at hfound
  obtain ⟨rfl, -⟩ := Entry.directory.inj (Option.some.inj (hat.symm.trans hfound))
  exact ⟨old, hsurplus, rfl, hremoved⟩

/-- **A stored session is not among the sessions that are too many,** if it is the only one that is
being changed. -/
theorem stored_of_removeOld (hsite : store.Site session home) {keep : Int}
    (hkeep : store.keepSessions.toInt? = some keep) (hpos : 1 ≤ keep)
    (hstored : Stored store session home copies name world) (hstanding : store.Standing home world)
    (htime : ∀ entry, world.files.at? (store.base home ++ [name]) = some entry →
      entry.changed = none)
    (hdated : world.files.Dated (store.base home) (· = name)) {count : Nat}
    (h : store.removeOld world = (.ok count, world')) :
    Stored store session home copies name world' ∧ store.Standing home world' ∧
      ∀ place, store.Spared home place world →
        world'.files.seen place = world.files.seen place := by
  obtain ⟨members, changed, hat⟩ := Entry.isDirectoryAt_iff.1 hstanding.directory
  obtain ⟨old, hsurplus, -, hremoved⟩ := removeOld_of_ok hsite hstanding hat h
  have hmembers := hdated members changed hat
  obtain ⟨entry, hentry, hsession⟩ := hstored.exists_entry hsite.id
  have hmem : (name, entry) ∈ members := mem_of_lookup ((Entry.at?_concat_iff hat).1 hentry)
  have hothers : ∀ member ∈ old,
      member ∈ members ∧ isSession member = true ∧ member.1 ≠ name := fun member =>
    ne_of_mem_surplus hkeep hpos hmembers hmem hsession (htime entry hentry) hsurplus
  obtain ⟨hstands, -, hleft, hframe⟩ := removeEach_of_ok hsite (fun member hmember =>
    (Bool.and_eq_true_iff.1 (hothers member hmember).2.1).1) hstanding hremoved
  obtain ⟨changed', hat'⟩ := hleft members changed hat
  have hkept : name ∉ old.map Prod.fst := fun hname => by
    obtain ⟨member, hmember, heq⟩ := List.mem_map.1 hname
    exact (hothers member hmember).2.2 heq
  refine ⟨hstored.of_members hat hat' ?_ ?_, hstands, fun place hplace =>
    hframe place fun member hmember => ?_⟩
  · rw [lookup_filter fun key => decide (key ∉ old.map Prod.fst), if_pos (decide_eq_true hkept)]
  · intro hgone
    rw [lookup_filter fun key => decide (key ∉ old.map Prod.fst), hgone, ite_self]
  · obtain ⟨hthere, hkind, -⟩ := hothers member hmember
    exact hplace.not_prefix_member hat hmembers.nodup hthere hkind

/-- **A session that is kept:** it is stored, the way to it is open, and so are the ways back to the
files of its copies. -/
structure Kept (store : BackupStore) (session : Session) (home : List String) (copies : List Copy)
    (world : World) : Prop where
  stored : ∃ name, Stored store session home copies name world
  standing : store.Standing home world
  origin : ∀ copy ∈ copies, store.Origin session.id home copy.place world

theorem Kept.of_files (h : Kept store session home copies world) (hfiles : world'.files = world.files)
    (hworking : world'.workingDirectory = world.workingDirectory) :
    Kept store session home copies world' where
  stored := h.stored.imp fun _ hstored => hstored.of_files hfiles
  standing := h.standing.of_directories hworking fun _ => hfiles ▸ id
  origin copy hcopy :=
    (h.origin copy hcopy).mono (fun _ => hfiles ▸ id) fun _ => hfiles ▸ Or.inl

theorem Kept.later (h : Kept store session home copies world) (now : Nat) :
    Kept store session home copies (world.later now) where
  stored := h.stored.imp fun _ hstored => hstored.later now
  standing := h.standing.later now
  origin copy hcopy := (h.origin copy hcopy).later now

/-- **A session that is ended is kept,** packed or not, and all that is not in a session stays. -/
theorem Saving.finalized (h : Saving store session home (· = session.id) copies world)
    (hsite : store.Site session home) {keep : Int}
    (hkeep : store.keepSessions.toInt? = some keep) (hpos : 1 ≤ keep) {result : Option Path}
    (hfinal : store.finalize world = (.ok result, world')) :
    Kept store session home copies world' ∧ ∀ place, store.Spared home place world →
      world'.files.seen place = world.files.seen place := by
  obtain ⟨filed, count, removed, hfiled, hremoved, rfl⟩ := h.filed hsite hfinal
  obtain ⟨hstored, hstands, hlast⟩ := stored_of_removeOld hsite hkeep hpos hfiled.stored
    hfiled.standing hfiled.changed hfiled.dated hremoved
  have hframe : ∀ place, store.Spared home place world →
      removed.files.seen place = world.files.seen place := fun place hplace =>
    (hlast place (hplace.of_seen (hfiled.outside place hplace))).trans (hfiled.outside place hplace)
  exact ⟨⟨⟨_, hstored.of_files rfl⟩, hstands.of_directories rfl fun _ hother => hother,
    fun copy hcopy => (h.origin copy hcopy).of_spared hframe⟩, hframe⟩

end BackupStore
end UsageOrder
