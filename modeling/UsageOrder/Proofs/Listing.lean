import UsageOrder.Proofs.Storing

/-!
# The list of sessions

Listing the stored sessions changes nothing, and what is listed is read from the directory of the
sessions.  So the same is listed in two worlds in which the way to this directory is open and its
entries are the same, whatever else may be different (`BackupStore.sessions_congr`).
-/

namespace UsageOrder

/-! ### Runs that only read -/

namespace Run

variable {α β γ : Type} {world world' : World} {run : Run α}

/-- A run reads the same in two worlds and changes neither. -/
def ReadsSame (world world' : World) (run : Run α) : Prop :=
  ∃ outcome, run world = (outcome, world) ∧ run world' = (outcome, world')

theorem readsSame_pure (value : α) : ReadsSame world world' (pure value : Run α) :=
  ⟨.ok value, rfl, rfl⟩

theorem readsSame_ofExcept (outcome : Except Fault α) :
    ReadsSame world world' (ofExcept outcome) := by
  cases outcome with
  | ok value => exact ⟨.ok value, rfl, rfl⟩
  | error fault => exact ⟨.error fault, rfl, rfl⟩

theorem readsSame_read {f : World → Except Fault α} (h : f world' = f world) :
    ReadsSame world world' (read f) := by
  obtain ⟨outcome, hleft, hright⟩ : ReadsSame world world' (ofExcept (f world)) :=
    readsSame_ofExcept (f world)
  exact ⟨outcome, (read_apply world).trans hleft, (read_apply world').trans (h ▸ hright)⟩

theorem ReadsSame.bind {next : α → Run β} (h : ReadsSame world world' run)
    (hnext : ∀ value, run world = (.ok value, world) → ReadsSame world world' (next value)) :
    ReadsSame world world' (run >>= next) := by
  obtain ⟨outcome, hleft, hright⟩ := h
  cases outcome with
  | error fault =>
    refine ⟨.error fault, ?_, ?_⟩ <;> rw [bind_apply]
    · rw [hleft]
    · rw [hright]
  | ok value =>
    obtain ⟨result, hleft', hright'⟩ := hnext value hleft
    exact ⟨result, (bind_ok hleft _).trans hleft', (bind_ok hright _).trans hright'⟩

theorem ReadsSame.mapM {items : List γ} {f : γ → Run β}
    (h : ∀ item ∈ items, ReadsSame world world' (f item)) :
    ReadsSame world world' (items.mapM f) := by
  induction items with
  | nil => exact readsSame_pure []
  | cons item items ih =>
    obtain ⟨hitem, hitems⟩ := List.forall_mem_cons.1 h
    rw [List.mapM_cons]
    exact hitem.bind fun _ _ => (ih hitems).bind fun _ _ => readsSame_pure _

end Run

/-! ### Paths into a directory -/

namespace Entry

variable {top top' : Entry} {place : List String} {members : List (String × Entry)}
  {changed changed' : ChangeTime}

/-- A path leads to the same place where the same is seen on the way. -/
theorem follow_congr_below (h : ∀ rest, top'.seen (place ++ rest) = top.seen (place ++ rest))
    {more : List String} (hdots : ".." ∉ more) : top'.follow place more = top.follow place more := by
  induction more generalizing place with
  | nil => rfl
  | cons part more ih =>
    rw [List.mem_cons, not_or] at hdots
    have hplace := h []
    rw [List.append_nil] at hplace
    have hrest : top'.follow (place ++ [part]) more = top.follow (place ++ [part]) more := by
      refine ih (fun rest => ?_) hdots.2
      rw [List.append_assoc]
      exact h (part :: rest)
    rw [follow, follow, if_neg (Ne.symm hdots.1)]
    rw [seen, seen] at hplace
    cases hat : top.at? place with
    | none =>
      rw [hat, Option.map_none, Option.map_eq_none_iff] at hplace
      rw [hplace]
    | some entry =>
      rw [hat, Option.map_some, Option.map_eq_some_iff] at hplace
      obtain ⟨entry', hat', hleaf⟩ := hplace
      rw [hat']
      cases entry with
      | directory members changed =>
        obtain ⟨members', changed', rfl⟩ := leaf?_eq_none_iff.1 hleaf
        simp only [hrest]
      | file content changed =>
        obtain ⟨rfl, -⟩ := leaf?_eq_some_iff.1 hleaf
        rfl
      | archive inner packed changed =>
        obtain ⟨rfl, -⟩ := leaf?_eq_some_iff.1 hleaf
        rfl

end Entry

/-! ### What is listed -/

namespace BackupStore

variable {store : BackupStore} {home : List String} {world world' : World}

/-- Two worlds with the same entries in the directory of the sessions, at the same time. -/
structure SameSessions (store : BackupStore) (home : List String) (world world' : World) : Prop where
  before : store.Standing home world
  after : store.Standing home world'
  now : world'.now = world.now
  members : ∃ members changed changed',
    world.files.at? (store.base home) = some (.directory members changed) ∧
      world'.files.at? (store.base home) = some (.directory members changed')

namespace SameSessions

theorem at?_eq (h : store.SameSessions home world world') {rest : List String} (hrest : rest ≠ []) :
    world'.files.at? (store.base home ++ rest) = world.files.at? (store.base home ++ rest) := by
  obtain ⟨members, changed, changed', hbefore, hafter⟩ := h.members
  obtain ⟨name, rest, rfl⟩ := List.exists_cons_of_ne_nil hrest
  rw [Entry.at?_append, Entry.at?_append, hbefore, hafter]
  rfl

theorem seen_eq (h : store.SameSessions home world world') (rest : List String) :
    world'.files.seen (store.base home ++ rest) = world.files.seen (store.base home ++ rest) := by
  cases rest with
  | nil =>
    rw [List.append_nil]
    exact h.after.directory.trans h.before.directory.symm
  | cons name rest => rw [Entry.seen, h.at?_eq (List.cons_ne_nil _ _), Entry.seen]

/-- A path into the directory of the sessions leads to the same entry. -/
theorem locate_eq (h : store.SameSessions home world world') (hhome : ".." ∉ home)
    {more : List String} (hdots : ".." ∉ more) (hsome : more ≠ []) :
    world'.locate (store.directory.join ⟨0, more⟩) = world.locate (store.directory.join ⟨0, more⟩) ∧
      world'.look (store.directory.join ⟨0, more⟩) = world.look (store.directory.join ⟨0, more⟩) := by
  have hbefore : world.files.follow (if store.directory.slashes = 0 then home else [])
      store.directory.parts = .ok (store.base home) := by
    have hplace := (World.place_eq_ok_iff (h.before.workingDirectory ▸ hhome)).2
      ⟨h.before.leads, rfl⟩
    rw [World.place, if_neg (Nat.not_le.2 h.before.leads.short), h.before.workingDirectory] at hplace
    exact hplace
  have hafter : world'.files.follow (if store.directory.slashes = 0 then home else [])
      store.directory.parts = .ok (store.base home) := by
    have hplace := (World.place_eq_ok_iff (h.after.workingDirectory ▸ hhome)).2
      ⟨h.after.leads, rfl⟩
    rw [World.place, if_neg (Nat.not_le.2 h.after.leads.short), h.after.workingDirectory] at hplace
    exact hplace
  have hplace : world'.place (store.directory.join ⟨0, more⟩) =
      world.place (store.directory.join ⟨0, more⟩) := by
    rw [World.place, World.place, h.before.workingDirectory, h.after.workingDirectory, Path.join,
      if_pos rfl]
    simp only
    rw [Entry.follow_append hbefore, Entry.follow_append hafter,
      Entry.follow_congr_below h.seen_eq hdots]
  have hat : ∀ place, world.place (store.directory.join ⟨0, more⟩) = .ok place →
      world'.files.at? place = world.files.at? place := by
    intro place hok
    obtain ⟨-, rfl⟩ := (World.place_eq_ok_iff (h.before.workingDirectory ▸ hhome)).1 hok
    rw [h.before.workingDirectory, Path.spot_join hdots]
    exact h.at?_eq hsome
  rw [World.locate, World.locate, World.look, World.look, hplace]
  cases hok : world.place (store.directory.join ⟨0, more⟩) with
  | error cause => cases cause <;> exact ⟨rfl, rfl⟩
  | ok place => simp only [hat place hok, and_self]

/-- The sessions themselves are the same. -/
theorem sessionEntries_eq (h : store.SameSessions home world world') (hhome : ".." ∉ home) :
    store.sessionEntries world' = store.sessionEntries world := by
  obtain ⟨members, changed, changed', hbefore, hafter⟩ := h.members
  have hplace : ∀ {between : World}, store.Standing home between →
      between.place store.directory = .ok (store.base home) := by
    intro between hstanding
    have hspot := (World.place_eq_ok_iff (hstanding.workingDirectory ▸ hhome)).2
      ⟨hstanding.leads, rfl⟩
    rwa [hstanding.workingDirectory] at hspot
  have hsame : world'.directoryAt store.directory = world.directoryAt store.directory := by
    rw [World.directoryAt, World.directoryAt, World.locate, World.locate, hplace h.before,
      hplace h.after]
    split_ifs
    · rfl
    · simp only [hbefore, hafter]
      rfl
  rw [sessionEntries, sessionEntries, hsame]

/-- What is told of a session is the same. -/
theorem describe (h : store.SameSessions home world world') (hhome : ".." ∉ home)
    {member : String × Entry} (hname : member.1 ≠ "..") :
    Run.ReadsSame world world' (store.describe member) := by
  have hpath : (store.directory.join ⟨0, [member.1]⟩).join metadataFile =
      store.directory.join ⟨0, [member.1, "session.json"]⟩ := by
    rw [metadataFile, Path.join, Path.join, Path.join, if_pos rfl, if_pos rfl, if_pos rfl]
    simp
  have hdots : ".." ∉ [member.1, "session.json"] := by simp [Ne.symm hname]
  obtain ⟨hlocate, hlook⟩ := h.locate_eq hhome hdots (List.cons_ne_nil _ _)
  have hthere : world'.pathExists (store.directory.join ⟨0, [member.1, "session.json"]⟩) =
      world.pathExists (store.directory.join ⟨0, [member.1, "session.json"]⟩) := by
    rw [World.pathExists, World.pathExists, hlook]
  have hread : world'.readText (store.directory.join ⟨0, [member.1, "session.json"]⟩) =
      world.readText (store.directory.join ⟨0, [member.1, "session.json"]⟩) := by
    rw [World.readText, World.readText, World.fileAt, World.fileAt, hlocate]
  have hjson : Run.ReadsSame world world'
      (readJson (store.directory.join ⟨0, [member.1, "session.json"]⟩)) := by
    refine (Run.readsSame_read hread).bind fun text _ => ?_
    cases Json.parse text with
    | ok value => exact Run.readsSame_pure value
    | error fault => exact ⟨_, rfl, rfl⟩
  rw [BackupStore.describe]
  simp only [hpath]
  refine (Run.readsSame_read hthere).bind fun there _ => ?_
  split_ifs
  · exact hjson
  · refine ⟨_, rfl, ?_⟩
    rw [Run.get_bind, h.now]
    rfl

end SameSessions

/-- **The same sessions are listed** where the same are stored, at the same time. -/
theorem sessions_congr (h : store.SameSessions home world world') (hhome : ".." ∉ home) :
    (store.sessions world').1 = (store.sessions world).1 := by
  have hentries : Run.ReadsSame world world' (Run.read store.sessionEntries) :=
    Run.readsSame_read (h.sessionEntries_eq hhome)
  have hlisted : Run.ReadsSame world world' store.sessions := by
    refine hentries.bind fun entries hread => ?_
    refine (Run.ReadsSame.mapM fun member hmember => h.describe hhome ?_).bind fun descriptions _ =>
      Run.readsSame_ofExcept _
    obtain ⟨members, -, heq⟩ := bind_eq_ok_iff.1 (Run.read_iff.1 hread).1
    obtain rfl := Except.ok.inj heq
    obtain ⟨hmark, -⟩ := Bool.and_eq_true_iff.1 (List.mem_filter.1 hmember).2
    intro hdots
    rw [hdots] at hmark
    exact absurd hmark (by decide)
  obtain ⟨outcome, hbefore, hafter⟩ := hlisted
  rw [hbefore, hafter]

end BackupStore
end UsageOrder
