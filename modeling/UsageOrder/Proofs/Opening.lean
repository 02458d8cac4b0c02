import UsageOrder.Proofs.Saving

/-!
# A session that is opened

Opening a session makes the directory of the sessions, if it is missing, and in it that of the new
session.  Nothing else changes: every file is as it was, and the directories that were made are on the
way to the session (`World.Grows.seen_spot`).  So the session is in progress and has no copies yet
(`BackupStore.Saving.opened`).
-/

namespace UsageOrder

theorem Entry.IsDirectoryAt.root {top : Entry} {place : List String} (h : top.IsDirectoryAt place) :
    top.IsDirectoryAt [] := by
  by_cases hnil : place = []
  · exact hnil ▸ h
  · have hseen : top.seen ([] ++ place) ≠ none := by
      rw [List.nil_append, h]
      simp
    exact isDirectoryAt_of_seen_append hseen hnil

namespace BackupStore

variable {store : BackupStore} {session : Session} {home : List String} {new : String → Prop}
  {world world' : World} {path : Path}

/-! ### The name of a session -/

/-- The name of a session that is opened starts with the mark of sessions. -/
theorem sessionName_newSession (store : BackupStore) {description : Json} {seconds : Nat}
    (h : Path.IsName (store.newSession description seconds).id) :
    SessionName (store.newSession description seconds).id := by
  refine ⟨h, ?_⟩
  rw [newSession, String.append_assoc, String.toList_append, List.isPrefixOf_iff_prefix]
  exact List.prefix_append _ _

/-- The name of a session for fixes: a mark, a time and what the session is for. -/
theorem isName_newSession (store : BackupStore) (seconds : Nat) :
    Path.IsName (store.newSession (.str "fix") seconds).id := by
  have hid : (store.newSession (.str "fix") seconds).id.toList =
      'f' :: 'i' :: 'x' :: '_' :: ((Timestamp.ofSeconds seconds).toList ++ ['_', 'f', 'i', 'x']) := by
    have hsuffix : (if (Json.str "fix").truthy then "_" ++ (Json.str "fix").plain else "") =
        "_fix" := rfl
    have hmark : sessionMark.toList = ['f', 'i', 'x', '_'] := by decide
    have hend : "_fix".toList = ['_', 'f', 'i', 'x'] := by decide
    rw [newSession, hsuffix, String.toList_append, String.toList_append, hmark, hend,
      List.append_assoc, List.cons_append, List.cons_append, List.cons_append, List.cons_append,
      List.nil_append]
  have hplain : ∀ c ∈ (store.newSession (.str "fix") seconds).id.toList, c ≠ '/' ∧ c ≠ '\x00' := by
    rw [hid]
    simp only [List.forall_mem_cons, List.forall_mem_append]
    refine ⟨by decide, by decide, by decide, by decide, fun c hc => ?_, by decide, by decide,
      by decide, by decide, fun c hc => absurd hc List.not_mem_nil⟩
    rcases Timestamp.mem_ofSeconds hc with hdigit | rfl
    · constructor <;> rintro rfl <;> exact absurd hdigit (by decide)
    · decide
  refine ⟨fun h => ?_, fun h => ?_, fun h => ?_, fun h => (hplain _ h).1 rfl,
    fun h => (hplain _ h).2 rfl⟩
  · exact absurd (hid.symm.trans (congrArg String.toList h)) (by simp)
  · exact absurd (hid.symm.trans (congrArg String.toList h)) (by simp)
  · exact absurd (hid.symm.trans (congrArg String.toList h)) (by simp)

/-- The directory of a session that is opened is in that of the sessions. -/
theorem newSession_directory {description : Json} {seconds : Nat}
    (h : Path.IsName (store.newSession description seconds).id) :
    (store.newSession description seconds).directory =
      store.sessionPath (store.newSession description seconds).id := by
  simp only [newSession] at h ⊢
  rw [sessionPath, Path.ofText_of_isName h]

/-! ### The directories that are made -/

/-- Making directories on a way that does not lead through other sessions changes none of them. -/
theorem dated_grows (hgrows : World.Grows path world world') (hdots : ".." ∉ world.workingDirectory)
    (hhome : world.files.IsDirectoryAt world.workingDirectory)
    (hdated : world.files.Dated (store.base world.workingDirectory) new)
    (hway : ∀ count name, sessionMark.toList.isPrefixOf name.toList = true →
      store.base world.workingDirectory ++ [name] <+:
        (path.upTo count).spot world.workingDirectory → new name) :
    world'.files.Dated (store.base world.workingDirectory) new := by
  induction hgrows with
  | refl => exact hdated
  | @make between count made grown leads free ih =>
    have hworking : between.workingDirectory = world.workingDirectory := grown.workingDirectory
    obtain ⟨hleads, hmade⟩ := (World.place_eq_ok_iff (hworking ▸ hdots)).1 leads
    have hfree : between.files.seen made = none := by rw [Entry.seen, free]; rfl
    obtain ⟨parent, name, hparent, hspot⟩ := hleads.exists_parent (hworking ▸ hdots)
      (hworking ▸ grown.isDirectoryAt hhome) (hmade ▸ hfree)
    obtain rfl := hmade.trans hspot
    rw [hworking] at hspot
    refine ih.put hparent (fun rest members changed hat => ?_) (fun other hother hmark => ?_)
      fun hbase hsession _ => ?_
    · cases rest with
      | nil => exact (Entry.directory.inj (Option.some.inj hat)).1.symm
      | cons first rest => exact absurd hat (by simp [Entry.at?, Entry.child?])
    · refine hway count other hmark ?_
      rw [Path.upTo, hspot, hother]
      exact List.prefix_append _ _
    · refine hway count name (Bool.and_eq_true_iff.1 hsession).1 ?_
      rw [Path.upTo, hspot, hbase]

/-- The way to the session leads to the directory of the sessions, or it is at its end. -/
theorem Site.spot_upTo (h : store.Site session home) (count : Nat) :
    (∃ count', (session.directory.upTo count).spot home =
        (store.directory.upTo count').spot home) ∨
      (session.directory.upTo count).spot home = store.sessionPlace session.id home := by
  rw [h.path, sessionPath, Path.upTo_join]
  split_ifs with hcount
  · exact Or.inl ⟨count, rfl⟩
  · obtain ⟨more, hmore⟩ := Nat.exists_eq_add_of_lt (Nat.lt_of_not_le hcount)
    have htake : [session.id].take (count - store.directory.parts.length) = [session.id] :=
      List.take_of_length_le (by simp only [List.length_singleton]; omega)
    rw [htake]
    exact Or.inr (Path.spot_join (by simpa using Ne.symm h.id.ne_dots))

/-- No place on the way to the session is in another session. -/
theorem Site.eq_of_prefix_upTo (h : store.Site session home) {count : Nat} {name : String}
    (hmark : sessionMark.toList.isPrefixOf name.toList = true)
    (hstarts : store.base home ++ [name] <+: (session.directory.upTo count).spot home) :
    name = session.id ∧
      (session.directory.upTo count).spot home = store.sessionPlace session.id home := by
  rcases h.spot_upTo count with ⟨count', heq⟩ | heq
  · exact absurd (heq ▸ hstarts) (h.way count' name hmark)
  · rw [heq, sessionPlace, List.prefix_append_right_inj] at hstarts
    exact ⟨(List.cons.inj (hstarts.eq_of_length rfl)).1, heq⟩

/-- A world in which a session can be opened under a name. -/
structure Fresh (store : BackupStore) (id : String) (start : World) : Prop where
  world : start.WellFormed
  /-- The session is a new one. -/
  unused : start.files.seen (store.sessionPlace id start.workingDirectory) = none
  /-- The stored sessions have been changed before. -/
  earlier : ∀ members changed, start.files.at? (store.base start.workingDirectory) =
    some (.directory members changed) → ∀ member ∈ members, isSession member = true →
      member.2.changed ≠ none

theorem Fresh.dated {id : String} (h : store.Fresh id world) :
    world.files.Dated (store.base world.workingDirectory) new :=
  fun members changed hmembers => ⟨h.world.distinct _ members changed hmembers,
    fun member hmember hsession htime =>
      absurd htime (h.earlier members changed hmembers member hmember hsession)⟩

/-- **A session that was opened is in progress** and has no copies. -/
theorem Saving.opened (hsite : store.Site session home) (hempty : session.files = [])
    (hid : new session.id) (hworking : world.workingDirectory = home)
    (hhome : world.files.IsDirectoryAt home)
    (hunused : world.files.seen (store.sessionPlace session.id home) = none)
    (hdated : world.files.Dated (store.base home) new)
    (hmade : world.makeDirectories session.directory = .ok world') :
    Saving store session home new [] { world' with session := some session } := by
  subst hworking
  have hdots := hsite.dots_not_mem
  have hgrows := (World.grows_of_makeDirectories hmade).2
  obtain ⟨hleads, hthere⟩ := World.isDirectoryAt_of_makeDirectories hdots hhome hmade
  have hlisting : session.listing [] = session := by
    rw [Session.listing, List.map_nil, ← hempty]
  have hdated' := dated_grows hgrows hdots hhome hdated fun count name hmark hstarts =>
    (hsite.eq_of_prefix_upTo hmark hstarts).1 ▸ hid
  exact {
    workingDirectory := hgrows.workingDirectory
    homeThere := hgrows.isDirectoryAt hhome
    inProgress := by rw [hlisting]
    leads := hleads.mono fun _ _ hplace => hplace
    directory := hsite.spot_session ▸ hthere
    usable := fun copy hcopy => absurd hcopy List.not_mem_nil
    stored := fun copy hcopy => absurd hcopy List.not_mem_nil
    only := fun below content hcontent => by
      obtain ⟨file, hfile, -⟩ := Entry.contentAt_eq_some_iff.1 hcontent
      have hold := (hgrows.sameFiles _ file).1 hfile
      rw [Entry.seen_append_of_none hunused] at hold
      exact absurd hold (by simp)
    origin := fun copy hcopy => absurd hcopy List.not_mem_nil
    shadows := fun below hbelow => by
      have hnone : world.files.seen (store.sessionPlace session.id world.workingDirectory ++ below) =
          none := Entry.seen_append_of_none hunused below
      rcases hgrows.seen_spot hdots _ with hsame | ⟨-, -, count, heq⟩
      · exact absurd (hnone.symm.trans (hsame.symm.trans hbelow)) (by simp)
      · have hunder := (heq ▸ List.prefix_append _ _ :
          store.base world.workingDirectory ++ [session.id] <+:
            (session.directory.upTo count).spot world.workingDirectory)
        have hend := heq.trans (hsite.eq_of_prefix_upTo hsite.id.marked hunder).2
        obtain rfl := List.append_right_eq_self.1 hend
        exact ⟨by decide, hbelow.root⟩
    dated := hdated' }

end BackupStore
end UsageOrder
