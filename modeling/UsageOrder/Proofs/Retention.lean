import UsageOrder.Proofs.Resting

/-!
# Retention

From a directory without sessions on, sessions are opened, used and ended one after the other, and
between these steps sessions are restored and there are changes elsewhere (`BackupStore.History`).
Whenever no session is in progress, the sessions that are stored are the latest ones that have ended,
as many as are to be kept, and each of them can be restored (`BackupStore.retains_latest`).

This holds for sessions that are stored where their names say, and for copies of files outside of the
directory of the sessions that do not have the place of the metadata
(`BackupStore.retains_latest_lost`).
-/

namespace UsageOrder
namespace BackupStore

variable {store : BackupStore} {home place : List String} {others members : List (String × Entry)}
  {changed : ChangeTime} {world world' start : World} {limit : Nat}

/-! ### The history of a store -/

/-- The sessions that there have been: those that have ended, the latest first, and the one in progress
with its copies. -/
structure Chronicle where
  ended : List Ended
  current : Option (Session × List Copy)

/-- **What happens to a store:** a session is opened; a file outside of the directory of the sessions
is backed up, whether that succeeds or not; the session ends, packed or not; one of those that are
retained is restored; or there is a change elsewhere. -/
inductive Happens (store : BackupStore) (home : List String) (keep : Nat) :
    Chronicle → World → Chronicle → World → Prop
  | opened {ended : List Ended} {world world' : World} {description : Json} {directory : Path}
      (isName : Path.IsName (store.newSession description world.now).id)
      (result : store.startSession description world = (.ok directory, world')) :
      Happens store home keep ⟨ended, none⟩ world
        ⟨ended, some (store.newSession description world.now, [])⟩ world'
  | backedUp {ended : List Ended} {session : Session} {copies : List Copy} {world world' : World}
      {text : String} {outcome : Except Fault (Option Path)}
      (outside : ¬ store.base home <+: (Path.ofText text).spot home)
      (notMetadata : ¬ metadataFile.parts <+: (Path.ofText text).spot home)
      (notDirectory : ¬ world.files.IsDirectoryAt ((Path.ofText text).spot home))
      (result : store.backupFile (Path.ofText text) world = (outcome, world')) :
      Happens store home keep ⟨ended, some (session, copies)⟩ world
        ⟨ended, some (session, noted copies ((Path.ofText text).spot home)
          (world.files.contentAt ((Path.ofText text).spot home)) outcome)⟩ world'
  | ended {ended : List Ended} {session : Session} {copies : List Copy} {world world' : World}
      {compression : Json} {result : Option Path}
      (result : (store.compressing compression).finalize world = (.ok result, world')) :
      Happens store home keep ⟨ended, some (session, copies)⟩ world
        ⟨⟨session, copies, (store.compressing compression).storedName session.id, world.now⟩ :: ended,
          none⟩ world'
  | restored {chronicle : Chronicle} {world world' : World} {ended : Ended}
      {outcome : Except Fault Bool} (stored : ended ∈ chronicle.ended.take keep)
      (result : store.restore ended.session.id world = (outcome, world')) :
      Happens store home keep chronicle world chronicle world'
  | elsewhere {chronicle : Chronicle} {world world' : World}
      (change : store.Elsewhere home world world') (later : world.now ≤ world'.now) :
      Happens store home keep chronicle world chronicle world'

/-- **The history of a store,** one thing after the other; each has its own time. -/
inductive History (store : BackupStore) (home : List String) (keep : Nat) (start : World) :
    Chronicle → World → Prop
  | start : History store home keep start ⟨[], none⟩ start
  | step {chronicle chronicle' : Chronicle} {world world' : World} {now : Nat}
      (history : History store home keep start chronicle world) (tick : world.now < now)
      (happens : store.Happens home keep chronicle (world.later now) chronicle' world') :
      History store home keep start chronicle' world'

/-- A world with a directory for sessions in which there are none yet. -/
structure Blank (store : BackupStore) (start : World) : Prop where
  world : start.WellFormed
  noNull : store.directory.hasNull = false
  standing : store.Standing start.workingDirectory start
  idle : start.session = none
  others : ∀ members changed, start.files.at? (store.base start.workingDirectory) =
    some (.directory members changed) → ∀ member ∈ members,
      isSession member = false ∧ ∀ now, member.2.settle now = member.2

namespace Blank

/-- Nothing that is there is in a session. -/
theorem aside (h : store.Blank start) (hplace : start.files.IsDirectoryAt place) :
    store.Aside start.workingDirectory place := by
  intro name hmark hstarts
  obtain ⟨members, changed, hat⟩ := Entry.isDirectoryAt_iff.1 h.standing.directory
  obtain ⟨inner, time, hinner⟩ := Entry.isDirectoryAt_iff.1 (hplace.of_prefix hstarts)
  have hmember := mem_of_lookup ((Entry.at?_concat_iff hat).1 hinner)
  have hsession := (h.others members changed hat _ hmember).1
  rw [isSession, hmark] at hsession
  exact absurd hsession (by simp [Entry.isDirectory])

theorem ground (h : store.Blank start) : store.Ground start.workingDirectory where
  noNull := h.noNull
  names := h.world.names _ (by rw [h.world.workingDirectory]; simp)
  apart := h.aside h.world.workingDirectory
  way count := h.aside (h.standing.isDirectoryAt_upTo count)

variable (hat : start.files.at? (store.base start.workingDirectory) =
  some (.directory members changed))

include hat

theorem settled (h : store.Blank start) (now : Nat) : Entry.settleMembers now members = members := by
  rw [Entry.settleMembers_eq_map]
  refine (List.map_congr_left fun member hmember => ?_).trans (List.map_id _)
  exact congrArg (Prod.mk member.1) ((h.others members changed hat member hmember).2 now)

theorem keeps (h : store.Blank start) :
    Keeps store start.workingDirectory members (start.now + 1) [] none start where
  standing := h.standing
  homeThere := h.world.workingDirectory
  lists := by
    refine ⟨members, changed, hat, h.world.distinct _ _ _ hat, ?_, ?_⟩
    · exact List.filter_eq_self.2 fun member hmember => by
        rw [(h.others members changed hat member hmember).1]
        rfl
    · have hnone : members.filter isSession = [] := List.filter_eq_nil_iff.2 fun member hmember => by
        rw [(h.others members changed hat member hmember).1]
        simp
      rw [besides, hnone]
      exact .refl _
  rests ended hended := absurd hended List.not_mem_nil
  sorted := List.Pairwise.nil
  past ended hended := absurd hended List.not_mem_nil
  stamped ended hended := absurd hended List.not_mem_nil
  underway := .idle h.idle

end Blank

/-- **What a store keeps stays known,** whatever happens to it. -/
theorem Keeps.happens {keep : Int} {chronicle chronicle' : Chronicle}
    (h : Keeps store home others limit (chronicle.ended.take keep.toNat) chronicle.current world)
    (hground : store.Ground home) (hsettled : ∀ now, Entry.settleMembers now others = others)
    (hlimit : limit ≤ world.now) (hkeep : store.keepSessions.toInt? = some keep) (hpos : 1 ≤ keep)
    (hhappens : store.Happens home keep.toNat chronicle world chronicle' world') :
    Keeps store home others (world'.now + 1) (chronicle'.ended.take keep.toNat) chronicle'.current
      world' := by
  cases hhappens with
  | opened isName result => exact h.opened hground hlimit isName result
  | backedUp outside notMetadata notDirectory result =>
    have hnow := now_of_backupFile result
    exact (h.backedUp outside notMetadata notDirectory result).mono (by omega)
  | @ended earlier session copies _ _ compression _ result =>
    have hended := h.ended hground hlimit hkeep hpos result
    obtain ⟨kept, hkept⟩ : ∃ kept, keep.toNat = kept + 1 := ⟨keep.toNat - 1, by omega⟩
    rw [hkept, List.take_succ_cons, List.take_take, Nat.min_eq_left (Nat.le_succ _)] at hended
    rw [hkept]
    exact hended
  | restored stored result =>
    obtain ⟨files, hrestored, -, hkeeps⟩ := h.restored stored
    obtain ⟨-, rfl⟩ := Prod.mk.inj (hrestored.symm.trans result)
    exact hkeeps.mono (hlimit.trans (Nat.le_succ _))
  | elsewhere change later =>
    exact (h.elsewhere hground hsettled change).mono (by omega)

/-- **What a store keeps is known at every time of its history.** -/
theorem History.keeps {keep : Int} {chronicle : Chronicle} (hstart : store.Blank start)
    (hat : start.files.at? (store.base start.workingDirectory) = some (.directory members changed))
    (hkeep : store.keepSessions.toInt? = some keep) (hpos : 1 ≤ keep)
    (h : store.History start.workingDirectory keep.toNat start chronicle world) :
    Keeps store start.workingDirectory members (world.now + 1) (chronicle.ended.take keep.toNat)
      chronicle.current world := by
  induction h with
  | start =>
    rw [List.take_nil]
    exact hstart.keeps hat
  | step history tick happens ih =>
    have hsettled := hstart.settled hat
    exact (ih.later hsettled _).happens hstart.ground hsettled tick hkeep hpos happens

/-- **Retention.**  Whenever no session is in progress, the sessions that are stored are the latest
ones that have ended, as many as are to be kept; what is no session has stayed in the directory; each
of the sessions can be restored; and none is too many. -/
theorem retains_latest {keep : Int} {ended : List Ended} (hstart : store.Blank start)
    (hat : start.files.at? (store.base start.workingDirectory) = some (.directory members changed))
    (hkeep : store.keepSessions.toInt? = some keep) (hpos : 1 ≤ keep)
    (h : store.History start.workingDirectory keep.toNat start ⟨ended, none⟩ world) :
    (∃ entries, store.sessionEntries world = .ok entries ∧
        (newestFirst entries).map Prod.fst = (ended.take keep.toNat).map Ended.name) ∧
      (∃ members' changed', world.files.at? (store.base start.workingDirectory) =
          some (.directory members' changed') ∧
        (members'.filter fun member => !isSession member) = members) ∧
      (∀ latest ∈ ended.take keep.toNat, ∃ files,
        store.restore latest.session.id world = (.ok true, { world with files := files }) ∧
          store.Restores start.workingDirectory latest.copies world.files files) ∧
      store.removeOld world = (.ok 0, world) := by
  have hkeeps := h.keeps hstart hat hkeep hpos
  have hground := hstart.ground
  refine ⟨?_, ?_, fun latest hlatest => ?_,
    hkeeps.removeOld_eq hground (Nat.le_refl _) hkeep (by rw [List.length_take]; omega)⟩
  · obtain ⟨entries, hentries, hlisted⟩ := hkeeps.exists_entries hground (Nat.le_refl _)
    refine ⟨entries, hentries, ?_⟩
    have hnames := congrArg (List.map Prod.fst) hlisted
    rw [List.map_map, List.map_map] at hnames
    exact hnames
  · obtain ⟨members', changed', hat', hlists⟩ := hkeeps.lists
    exact ⟨members', changed', hat', hlists.others⟩
  · obtain ⟨files, hrestored, hrestores, -⟩ := hkeeps.restored hlatest
    exact ⟨files, hrestored, hrestores⟩

/-! ### The second of two sessions -/

section
set_option maxRecDepth 4000

open CheckCommand

/-- A file with a text. -/
def shelfFile (text : Text) (changed : ChangeTime) : Entry := .file (.text text) changed

/-- A file, and beside it the directory of the sessions, in which there are notes. -/
def shelfWorld (now : Nat) (file notes : Entry) (sessions : List (String × Entry))
    (changed : ChangeTime) (session : Option Session) : World :=
  { rootWorld [("a.txt", file), (".backups", .directory (("notes.txt", notes) :: sessions) changed)]
      (some 0) with now := now, session := session }

/-- The file before the sessions. -/
def oldFile : Entry := shelfFile ['x'] (some 0)

/-- The notes before the sessions. -/
def oldNotes : Entry := shelfFile ['n'] (some 0)

/-- A session in this directory. -/
def shelfSession (id stamp : String) (files : List String) : Session :=
  ⟨id, stamp, ⟨0, [".backups", id]⟩, files, false⟩

/-- The session that is opened at the time 1. -/
def earlySession : Session := shelfSession "fix_19700101_000001_000000" "19700101_000001_000000" []

/-- The session that is opened at the time 3. -/
def lateSession (files : List String) : Session :=
  shelfSession "fix_19700101_000003_000000" "19700101_000003_000000" files

theorem newSession_shelf {seconds : Nat} {id stamp : String}
    (hstamp : Timestamp.ofSeconds seconds = stamp) (hid : sessionMark ++ stamp = id)
    (hname : Path.IsName id) :
    (storeIn ".backups").newSession .null seconds = shelfSession id stamp [] := by
  have hall : sessionMark ++ stamp ++
      (if Json.null.truthy then "_" ++ Json.null.plain else "") = id :=
    String.append_empty.trans hid
  rw [newSession, hstamp, hall, Path.ofText_of_isName hname]
  rfl

theorem newSession_early : (storeIn ".backups").newSession .null 1 = earlySession :=
  newSession_shelf rfl rfl (by decide)

theorem newSession_late : (storeIn ".backups").newSession .null 3 = lateSession [] :=
  newSession_shelf rfl rfl (by decide)

/-- The metadata of a session in this directory. -/
def shelfMetadata (session : Session) (changed : ChangeTime) : String × Entry :=
  ("session.json", .file (.text (metadata session).indented.toList) changed)

/-- The directory of the first session. -/
def earlyEntry : String × Entry :=
  (earlySession.id, .directory [shelfMetadata earlySession (some 2)] (some 2))

theorem standing_backups {world : World} (hworking : world.workingDirectory = [])
    (hthere : world.files.IsDirectoryAt [".backups"]) : (storeIn ".backups").Standing [] world where
  workingDirectory := hworking
  leads := ⟨by decide, by decide, fun count hcount => by
    obtain rfl : count = 0 := Nat.lt_one_iff.1 hcount
    rw [hworking]
    exact hthere.root⟩
  directory := hthere

/-- The world before the sessions. -/
def shelfStart : World := shelfWorld 0 oldFile oldNotes [] (some 0) none

theorem blank_shelfStart : (storeIn ".backups").Blank shelfStart where
  world := .of_tidy rfl (Entry.tidy_directory (by decide) (List.forall_mem_cons.2
    ⟨⟨by decide, Entry.tidy_leaf rfl⟩, List.forall_mem_singleton.2 ⟨by decide,
      Entry.tidy_singleton (by decide) (Entry.tidy_leaf rfl)⟩⟩))
  noNull := rfl
  standing := standing_backups rfl rfl
  idle := rfl
  others members changed hmembers := by
    obtain ⟨rfl, -⟩ := Entry.directory.inj (Option.some.inj hmembers)
    exact List.forall_mem_singleton.2 ⟨rfl, fun now => rfl⟩

theorem startSession_early : (storeIn ".backups").startSession .null (shelfStart.later 1) =
    (.ok earlySession.directory, shelfWorld 1 oldFile oldNotes
      [(earlySession.id, .directory [] none)] none (some earlySession)) := by
  have hmade : (shelfStart.later 1).makeDirectories earlySession.directory =
      .ok (shelfWorld 1 oldFile oldNotes [(earlySession.id, .directory [] none)] none none) := rfl
  have hnow : (shelfStart.later 1).now = 1 := rfl
  rw [startSession_apply, hnow, newSession_early, hmade]
  rfl

theorem finalize_early : (storeIn ".backups").finalize
    (shelfWorld 2 oldFile oldNotes [(earlySession.id, .directory [] (some 1))] (some 1)
      (some earlySession)) = (.ok (some earlySession.directory),
        shelfWorld 2 oldFile oldNotes
          [(earlySession.id, .directory [shelfMetadata earlySession none] none)] (some 1) none) := by
  let written : World := shelfWorld 2 oldFile oldNotes
    [(earlySession.id, .directory [shelfMetadata earlySession none] none)] (some 1)
    (some earlySession)
  have hwrite : (shelfWorld 2 oldFile oldNotes [(earlySession.id, .directory [] (some 1))]
      (some 1) (some earlySession)).writeText (earlySession.directory.join metadataFile)
        (metadata earlySession).indented.toList = .ok written := rfl
  have hentries : (storeIn ".backups").sessionEntries written =
      .ok [(earlySession.id, .directory [shelfMetadata earlySession none] none)] := rfl
  exact finalize_of_single rfl hwrite hentries

theorem startSession_late : (storeIn ".backups").startSession .null
    (shelfWorld 3 oldFile oldNotes [earlyEntry] (some 1) none) =
      (.ok (lateSession []).directory, shelfWorld 3 oldFile oldNotes
        [earlyEntry, ((lateSession []).id, .directory [] none)] none (some (lateSession []))) := by
  have hmade : (shelfWorld 3 oldFile oldNotes [earlyEntry] (some 1) none).makeDirectories
      (lateSession []).directory = .ok (shelfWorld 3 oldFile oldNotes
        [earlyEntry, ((lateSession []).id, .directory [] none)] none none) := rfl
  have hnow : (shelfWorld 3 oldFile oldNotes [earlyEntry] (some 1) none).now = 3 := rfl
  rw [startSession_apply, hnow, newSession_late, hmade]
  rfl

/-- The world once the file has been backed up in the second session. -/
def shelfSaved (now : Nat) (file : Entry) (changed : ChangeTime) : World :=
  shelfWorld now file oldNotes [earlyEntry, ((lateSession []).id,
    .directory [("a.txt", shelfFile ['x'] changed)] changed)] (some 3)
    (some (lateSession ["/a.txt"]))

/-- A file is copied to another place where no directory is. -/
theorem copyFile_of_apart {world world' : World} {source target : Path} {place spot : List String}
    {content : Content} {changed : ChangeTime} (hsource : source.hasNull = false)
    (hplace : world.place source = .ok place)
    (hfile : world.files.at? place = some (.file content changed)) (htarget : target.hasNull = false)
    (hspot : world.place target = .ok spot) (hnone : ¬ world.files.IsDirectoryAt spot)
    (hapart : spot ≠ place)
    (hput : world' = { world with files := world.files.put spot (.file content none) }) :
    world.copyFile source target = .ok world' := by
  have hkept : world.copyTarget source target = target := by
    rw [World.copyTarget, if_neg]
    rw [World.isDirectory_iff]
    rintro ⟨other, hother, hdirectory⟩
    obtain rfl := Except.ok.inj (hspot.symm.trans hother)
    exact hnone hdirectory
  have hseen : world.files.seen place = some (some (.file content changed)) :=
    Entry.seen_eq_file_iff.2 ⟨hfile, rfl⟩
  refine World.copyFile_eq_ok_iff.2 ⟨place, _, spot,
    ⟨⟨hsource, hplace, fun hdirectory => ?_⟩, hseen⟩,
    hkept.symm ▸ ⟨htarget, hspot, hnone⟩, hapart, hput⟩
  exact absurd (hseen.symm.trans hdirectory) (by simp)

/-- A file is copied to where nothing is. -/
theorem copyFile_of_free {world world' : World} {source target : Path} {place spot : List String}
    {content : Content} {changed : ChangeTime} (hsource : source.hasNull = false)
    (hplace : world.place source = .ok place)
    (hfile : world.files.at? place = some (.file content changed)) (htarget : target.hasNull = false)
    (hspot : world.place target = .ok spot) (hfree : world.files.at? spot = none)
    (hput : world' = { world with files := world.files.put spot (.file content none) }) :
    world.copyFile source target = .ok world' := by
  refine copyFile_of_apart hsource hplace hfile htarget hspot ?_ ?_ hput
  · rw [Entry.IsDirectoryAt, Entry.seen, hfree]
    simp
  · rintro rfl
    exact absurd (hfree.symm.trans hfile) (by simp)

/-- The copy of the file. -/
def lateCopy : Path := ⟨0, [".backups", (lateSession []).id, "a.txt"]⟩

theorem backupFile_late : (storeIn ".backups").backupFile (Path.ofText "a.txt")
    (shelfWorld 4 oldFile oldNotes [earlyEntry, ((lateSession []).id,
      .directory [] (some 3))] (some 3) (some (lateSession []))) =
        (.ok (some lateCopy), shelfSaved 4 oldFile none) := by
  let opened : World := shelfWorld 4 oldFile oldNotes [earlyEntry, ((lateSession []).id,
    .directory [] (some 3))] (some 3) (some (lateSession []))
  have hsession : opened.session = some (lateSession []) := rfl
  have hthere : opened.pathExists ⟨0, ["a.txt"]⟩ = .ok true := rfl
  have hmade : opened.makeDirectories lateCopy.parent = .ok opened := rfl
  have hcopied : opened.copyFile ⟨0, ["a.txt"]⟩ lateCopy =
      .ok { shelfSaved 4 oldFile none with session := some (lateSession []) } :=
    copyFile_of_free rfl rfl rfl rfl rfl rfl rfl
  have hbackup := backupFile_of_copied (storeIn ".backups") hsession hthere rfl List.not_mem_nil
    hmade hcopied
  rw [ofText_note]
  exact hbackup

/-- The directory of the second session. -/
def lateEntry : String × Entry := ((lateSession []).id, .directory
  [("a.txt", shelfFile ['x'] (some 4)), shelfMetadata (lateSession ["/a.txt"]) none] none)

/-- The world when both sessions have ended. -/
def shelfLast : World := shelfWorld 6 (shelfFile ['y'] (some 5)) oldNotes [lateEntry] none none

theorem finalize_late : (storeIn ".backups").finalize
    (shelfSaved 6 (shelfFile ['y'] (some 5)) (some 4)) =
      (.ok (some (lateSession []).directory), shelfLast) := by
  let written : World := shelfWorld 6 (shelfFile ['y'] (some 5)) oldNotes [earlyEntry, lateEntry]
    (some 3) (some (lateSession ["/a.txt"]))
  have hsession : (shelfSaved 6 (shelfFile ['y'] (some 5)) (some 4)).session =
      some (lateSession ["/a.txt"]) := rfl
  have hwrite : (shelfSaved 6 (shelfFile ['y'] (some 5)) (some 4)).writeText
      ((lateSession ["/a.txt"]).directory.join metadataFile)
      (metadata (lateSession ["/a.txt"])).indented.toList = .ok written := rfl
  have hentries : (storeIn ".backups").sessionEntries written = .ok [earlyEntry, lateEntry] := rfl
  have hremove : written.removeTree ((storeIn ".backups").directory.join ⟨0, [earlyEntry.1]⟩) =
      .ok { shelfLast with session := some (lateSession ["/a.txt"]) } := rfl
  exact finalize_of_pair hsession hwrite hentries rfl rfl hremove

/-- The first session when it has ended. -/
def earlyEnded : Ended := ⟨earlySession, [], earlySession.id, 2⟩

/-- The second session when it has ended. -/
def lateEnded : Ended :=
  ⟨lateSession [], [⟨["a.txt"], shelfFile ['x'] none⟩], (lateSession []).id, 6⟩

theorem happens_opened {store : BackupStore} {home : List String} {keep : Nat} {ended : List Ended}
    {world world' : World} {description : Json} {session : Session} {directory : Path}
    (hnew : store.newSession description world.now = session) (hname : Path.IsName session.id)
    (hresult : store.startSession description world = (.ok directory, world')) :
    store.Happens home keep ⟨ended, none⟩ world ⟨ended, some (session, [])⟩ world' := by
  subst hnew
  exact .opened hname hresult

/-- One session is opened and ended, then another one, in which the file is backed up before it is
rewritten. -/
theorem history_shelf : (storeIn ".backups").History [] 1 shelfStart
    ⟨[lateEnded, earlyEnded], none⟩ shelfLast := by
  have hspot : (Path.ofText "a.txt").spot [] = ["a.txt"] := congrArg (Path.spot []) ofText_note
  have hended : ∀ {ended session copies world world' result},
      (storeIn ".backups").finalize world = (.ok result, world') →
        (storeIn ".backups").Happens [] 1 ⟨ended, some (session, copies)⟩ world
          ⟨⟨session, copies, session.id, world.now⟩ :: ended, none⟩ world' := by
    intro ended session copies world world' result hresult
    have hcompressing : ((storeIn ".backups").compressing (.bool false)).finalize world =
        (.ok result, world') := hresult
    exact .ended hcompressing
  have hsaved : (storeIn ".backups").Happens [] 1 ⟨[earlyEnded], some (lateSession [], [])⟩
      (shelfWorld 4 oldFile oldNotes [earlyEntry, ((lateSession []).id,
        .directory [] (some 3))] (some 3) (some (lateSession [])))
      ⟨[earlyEnded], some (lateSession [], [⟨["a.txt"], shelfFile ['x'] none⟩])⟩
      (shelfSaved 4 oldFile none) := by
    have hmetadata : ¬ metadataFile.parts <+: (Path.ofText "a.txt").spot [] := by
      rw [hspot]
      decide
    have hbackedUp : (storeIn ".backups").Happens [] 1
        ⟨[earlyEnded], some (lateSession [], [])⟩ _ _ _ :=
      .backedUp outside_note hmetadata (fun hdirectory => by
        rw [hspot] at hdirectory
        exact Option.some_ne_none _ (Option.some.inj hdirectory)) backupFile_late
    rw [hspot] at hbackedUp
    exact hbackedUp
  have hwritten : (storeIn ".backups").Elsewhere [] (shelfSaved 5 oldFile (some 4))
      (shelfSaved 5 (shelfFile ['y'] none) (some 4)) := by
    have hwrite : (shelfSaved 5 oldFile (some 4)).writeFile (Path.ofText "a.txt")
        (shelfFile ['y'] none) = .ok (shelfSaved 5 (shelfFile ['y'] none) (some 4)) := by
      rw [ofText_note]
      rfl
    exact .written parts_note outside_note hwrite
  have hfirst := (History.start.step (by decide : 0 < 1)
    (happens_opened newSession_early (by decide) startSession_early)).step (by decide : 1 < 2)
      (hended finalize_early)
  have hsecond := (hfirst.step (by decide : 2 < 3) (happens_opened newSession_late (by decide)
    startSession_late)).step (by decide : 3 < 4) hsaved
  exact (hsecond.step (by decide : 4 < 5) (.elsewhere hwritten (Nat.le_refl 5))).step
    (by decide : 5 < 6) (hended finalize_late)

/-- **The second of two sessions is retained,** and the file is given back as it was before. -/
theorem retains_latest_shelf :
    (storeIn ".backups").Blank shelfStart ∧
      (storeIn ".backups").History [] 1 shelfStart ⟨[lateEnded, earlyEnded], none⟩ shelfLast ∧
      (∃ entries, (storeIn ".backups").sessionEntries shelfLast = .ok entries ∧
        (newestFirst entries).map Prod.fst = [(lateSession []).id]) ∧
      (∃ files, (storeIn ".backups").restore (lateSession []).id shelfLast =
          (.ok true, { shelfLast with files := files }) ∧
        files.contentAt ["a.txt"] = some (shelfFile ['x'] none)) ∧
      (storeIn ".backups").removeOld shelfLast = (.ok 0, shelfLast) := by
  obtain ⟨hentries, -, hrestored, hfew⟩ := retains_latest blank_shelfStart rfl
    (rfl : (Json.int 1).toInt? = some 1) le_rfl history_shelf
  obtain ⟨files, hfiles, hrestores⟩ := hrestored lateEnded (List.mem_singleton_self _)
  exact ⟨blank_shelfStart, history_shelf, hentries,
    ⟨files, hfiles, hrestores.contents _ (List.mem_singleton_self _)⟩, hfew⟩

/-! ### Where sessions and files are -/

/-- The directory that is made on the way to a session whose name leads back from there. -/
def strayName : String := "fix_19700101_000000_000000_"

/-- The world in which this session is in progress, or has been. -/
def lostWorld (now : Nat) (inside : List (String × Entry)) (changed : ChangeTime)
    (session : Option Session) : World :=
  { rootWorld [("a.txt", .file (.text ['x']) (some 0)),
      (".backups", .directory [(strayName, .directory [] (some 0))] (some 0)),
      ("x", .directory inside changed)] (some 0) with now := now, session := session }

/-- The session once the file has been backed up. -/
def strayListing : Session := { straySession with files := ["/a.txt"] }

theorem blank_firstNote : (storeIn ".backups").Blank firstNote where
  world := openable_firstNote.world
  noNull := rfl
  standing := standing_backups rfl rfl
  idle := rfl
  others members changed hmembers := by
    obtain ⟨rfl, -⟩ := Entry.directory.inj (Option.some.inj hmembers)
    exact fun _ hmember => absurd hmember List.not_mem_nil

/-- The copy of the file in this session. -/
def strayCopy : Path :=
  ⟨0, [".backups", "fix_19700101_000000_000000_", "..", "..", "x", "a.txt"]⟩

theorem backupFile_stray : (storeIn ".backups").backupFile (Path.ofText "a.txt")
    (lostWorld 1 [] (some 0) (some straySession)) =
      (.ok (some strayCopy),
        lostWorld 1 [("a.txt", .file (.text ['x']) none)] none (some strayListing)) := by
  let opened : World := lostWorld 1 [] (some 0) (some straySession)
  have hsession : opened.session = some straySession := rfl
  have hthere : opened.pathExists ⟨0, ["a.txt"]⟩ = .ok true := rfl
  have hmade : opened.makeDirectories strayCopy.parent = .ok opened := rfl
  have hcopied : opened.copyFile ⟨0, ["a.txt"]⟩ strayCopy =
      .ok (lostWorld 1 [("a.txt", .file (.text ['x']) none)] none (some straySession)) :=
    copyFile_of_free rfl rfl rfl rfl rfl rfl rfl
  have hbackup := backupFile_of_copied (storeIn ".backups") hsession hthere rfl List.not_mem_nil
    hmade hcopied
  rw [ofText_note]
  exact hbackup

theorem finalize_strayListing : ∃ ended, (storeIn ".backups").finalize
    (lostWorld 2 [("a.txt", .file (.text ['x']) (some 1))] (some 1) (some strayListing)) =
      (.ok (some strayDirectory), ended) ∧
    (storeIn ".backups").sessionEntries ended = .ok [(strayName, .directory [] (some 0))] ∧
    ∃ last, (storeIn ".backups").restore strayName (ended.later 3) = (.ok false, last) := by
  let written : World := lostWorld 2 [("a.txt", .file (.text ['x']) (some 1)),
    ("session.json", .file (.text (metadata strayListing).indented.toList) none)] none
    (some strayListing)
  have hwrite : (lostWorld 2 [("a.txt", .file (.text ['x']) (some 1))] (some 1)
      (some strayListing)).writeText (strayListing.directory.join metadataFile)
        (metadata strayListing).indented.toList = .ok written := rfl
  have hentries : (storeIn ".backups").sessionEntries written =
      .ok [(strayName, .directory [] (some 0))] := rfl
  have hname : (Path.ofText ".backups").join (Path.ofText strayName) =
      ⟨0, [".backups", strayName]⟩ := rfl
  refine ⟨_, finalize_of_single rfl hwrite hentries, hentries, _, restore_of_missing ?_ ?_⟩
  · have hthere : (({ written with session := none } : World).later 3).pathExists
        ⟨0, [".backups", strayName]⟩ = .ok true := rfl
    rw [storeIn, hname, unpackMissing, Run.bind_ok (Run.pathExists_iff.2 ⟨hthere, rfl⟩)]
    rfl
  · rw [storeIn, hname]
    rfl

/-- The session in which the notes have been backed up. -/
def notesListing : Session := { earlySession with files := ["/.backups/notes.txt"] }

/-- The directory of this session. -/
def notesEntry (times changed : ChangeTime) (others : List (String × Entry)) : String × Entry :=
  (earlySession.id, .directory ((".backups", .directory
    [("notes.txt", shelfFile ['n'] times)] times) :: others) changed)

/-- The copy of the notes. -/
def notesCopy : Path := ⟨0, [".backups", earlySession.id, ".backups", "notes.txt"]⟩

theorem ofText_notes : Path.ofText ".backups/notes.txt" = ⟨0, [".backups", "notes.txt"]⟩ :=
  rfl

theorem backupFile_notes : (storeIn ".backups").backupFile (Path.ofText ".backups/notes.txt")
    (shelfWorld 2 oldFile oldNotes [(earlySession.id, .directory [] (some 1))] (some 1)
      (some earlySession)) = (.ok (some notesCopy), shelfWorld 2 oldFile oldNotes
        [notesEntry none none []] (some 1) (some notesListing)) := by
  let opened : World := shelfWorld 2 oldFile oldNotes
    [(earlySession.id, .directory [] (some 1))] (some 1) (some earlySession)
  let grown : World := shelfWorld 2 oldFile oldNotes [(earlySession.id,
    .directory [(".backups", .directory [] none)] none)] (some 1) (some earlySession)
  have hsession : opened.session = some earlySession := rfl
  have hthere : opened.pathExists ⟨0, [".backups", "notes.txt"]⟩ = .ok true := rfl
  have hmade : opened.makeDirectories notesCopy.parent = .ok grown := rfl
  have hcopied : grown.copyFile ⟨0, [".backups", "notes.txt"]⟩ notesCopy =
      .ok (shelfWorld 2 oldFile oldNotes [notesEntry none none []] (some 1)
        (some earlySession)) := copyFile_of_free rfl rfl rfl rfl rfl rfl rfl
  have hbackup := backupFile_of_copied (storeIn ".backups") hsession hthere rfl List.not_mem_nil
    hmade hcopied
  rw [ofText_notes]
  exact hbackup

theorem finalize_notes : (storeIn ".backups").finalize
    (shelfWorld 4 oldFile (shelfFile ['m'] (some 3)) [notesEntry (some 2) (some 2) []] (some 1)
      (some notesListing)) =
        (.ok (some earlySession.directory), shelfWorld 4 oldFile (shelfFile ['m'] (some 3))
          [notesEntry (some 2) none [shelfMetadata notesListing none]] (some 1) none) := by
  let written : World := shelfWorld 4 oldFile (shelfFile ['m'] (some 3))
    [notesEntry (some 2) none [shelfMetadata notesListing none]] (some 1) (some notesListing)
  have hwrite : (shelfWorld 4 oldFile (shelfFile ['m'] (some 3)) [notesEntry (some 2) (some 2) []]
      (some 1) (some notesListing)).writeText (notesListing.directory.join metadataFile)
        (metadata notesListing).indented.toList = .ok written := rfl
  have hentries : (storeIn ".backups").sessionEntries written =
      .ok [notesEntry (some 2) none [shelfMetadata notesListing none]] := rfl
  exact finalize_of_single rfl hwrite hentries

/-- The world when this session has ended. -/
def notesEnded : World := shelfWorld 5 oldFile (shelfFile ['m'] (some 3))
  [notesEntry (some 2) (some 4) [shelfMetadata notesListing (some 4)]] (some 1) none

theorem site_early : (storeIn ".backups").Site earlySession [] where
  names name hname := absurd hname List.not_mem_nil
  id := ⟨by decide, by decide⟩
  path := rfl
  way count name _ := not_prefix_backups count name

theorem kept_notes : Kept (storeIn ".backups") earlySession []
    [⟨[".backups", "notes.txt"], shelfFile ['n'] none⟩] notesEnded where
  stored := ⟨_, .directory rfl {
    usable := List.forall_mem_singleton.2 ⟨rfl, by decide, by decide⟩
    readable := ⟨rfl, by decide, by decide⟩
    metadata := rfl
    copies := List.forall_mem_singleton.2 rfl }⟩
  standing := standing_backups rfl rfl
  origin := List.forall_mem_singleton.2 {
    ne_nil := List.cons_ne_nil _ _
    names := by decide
    apart := fun ⟨name, hmark, hstarts, _⟩ => by
      have hsame : [".backups", name] = [".backups", "notes.txt"] := hstarts.eq_of_length rfl
      obtain rfl : name = "notes.txt" := (List.cons.inj (List.cons.inj hsame).2).1
      exact absurd hmark (by decide)
    notInside := by decide
    notMetadata := by decide
    above := fun count hcount =>
      match count, hcount with
      | 0, _ => rfl
      | 1, _ => rfl
    notDirectory := fun h => Option.some_ne_none _ (Option.some.inj h) }

/-- A file with the name of the metadata, and beside it the directory of the sessions, in which there
is the first session with what is in it. -/
def namesakeWorld (now : Nat) (file : Entry) (inside : List (String × Entry))
    (times changed : ChangeTime) (session : Option Session) : World :=
  { rootWorld [("session.json", file),
      (".backups", .directory [(earlySession.id, .directory inside times)] changed)] (some 0) with
    now := now, session := session }

/-- The world before this session. -/
def namesakeStart : World :=
  rootWorld [("session.json", oldFile), (".backups", .directory [] (some 0))] (some 0)

/-- The session in which this file has been backed up. -/
def namesakeListing : Session := { earlySession with files := ["/session.json"] }

/-- The copy of this file. -/
def namesakeCopy : Path := ⟨0, [".backups", earlySession.id, "session.json"]⟩

/-- The file that holds the metadata of this session. -/
def namesakeFile : Entry := shelfFile (metadata namesakeListing).indented.toList none

theorem blank_namesakeStart : (storeIn ".backups").Blank namesakeStart where
  world := .of_tidy rfl (Entry.tidy_directory (by decide) (List.forall_mem_cons.2
    ⟨⟨by decide, Entry.tidy_leaf rfl⟩, List.forall_mem_singleton.2 ⟨by decide, Entry.tidy_empty⟩⟩))
  noNull := rfl
  standing := standing_backups rfl rfl
  idle := rfl
  others members changed hmembers := by
    obtain ⟨rfl, -⟩ := Entry.directory.inj (Option.some.inj hmembers)
    exact List.forall_mem_nil _

theorem startSession_namesake : (storeIn ".backups").startSession .null (namesakeStart.later 1) =
    (.ok earlySession.directory, namesakeWorld 1 oldFile [] none none (some earlySession)) := by
  have hmade : (namesakeStart.later 1).makeDirectories earlySession.directory =
      .ok (namesakeWorld 1 oldFile [] none none none) := rfl
  have hnow : (namesakeStart.later 1).now = 1 := rfl
  rw [startSession_apply, hnow, newSession_early, hmade]
  rfl

theorem ofText_namesake : Path.ofText "session.json" = ⟨0, ["session.json"]⟩ :=
  Path.ofText_of_isName (by decide)

theorem backupFile_namesake : (storeIn ".backups").backupFile (Path.ofText "session.json")
    (namesakeWorld 2 oldFile [] (some 1) (some 1) (some earlySession)) =
      (.ok (some namesakeCopy), namesakeWorld 2 oldFile [("session.json", shelfFile ['x'] none)] none
        (some 1) (some namesakeListing)) := by
  let opened : World := namesakeWorld 2 oldFile [] (some 1) (some 1) (some earlySession)
  have hsession : opened.session = some earlySession := rfl
  have hthere : opened.pathExists ⟨0, ["session.json"]⟩ = .ok true := rfl
  have hmade : opened.makeDirectories namesakeCopy.parent = .ok opened := rfl
  have hcopied : opened.copyFile ⟨0, ["session.json"]⟩ namesakeCopy = .ok (namesakeWorld 2 oldFile
      [("session.json", shelfFile ['x'] none)] none (some 1) (some earlySession)) :=
    copyFile_of_free rfl rfl rfl rfl rfl rfl rfl
  have hbackup := backupFile_of_copied (storeIn ".backups") hsession hthere rfl List.not_mem_nil
    hmade hcopied
  rw [ofText_namesake]
  exact hbackup

theorem finalize_namesake : (storeIn ".backups").finalize
    (namesakeWorld 3 oldFile [("session.json", shelfFile ['x'] (some 2))] (some 2) (some 1)
      (some namesakeListing)) = (.ok (some earlySession.directory),
        namesakeWorld 3 oldFile [shelfMetadata namesakeListing none] (some 2) (some 1) none) := by
  let written : World := namesakeWorld 3 oldFile [shelfMetadata namesakeListing none] (some 2)
    (some 1) (some namesakeListing)
  have hwrite : (namesakeWorld 3 oldFile [("session.json", shelfFile ['x'] (some 2))] (some 2)
      (some 1) (some namesakeListing)).writeText (namesakeListing.directory.join metadataFile)
        (metadata namesakeListing).indented.toList = .ok written := rfl
  have hentries : (storeIn ".backups").sessionEntries written =
      .ok [(earlySession.id, .directory [shelfMetadata namesakeListing none] (some 2))] := rfl
  exact finalize_of_single rfl hwrite hentries

theorem restore_namesake : (storeIn ".backups").restore earlySession.id
    (namesakeWorld 4 oldFile [shelfMetadata namesakeListing (some 3)] (some 2) (some 1) none) =
      (.ok true, namesakeWorld 4 namesakeFile [shelfMetadata namesakeListing (some 3)] (some 2)
        (some 1) none) := by
  let ended : World := namesakeWorld 4 oldFile [shelfMetadata namesakeListing (some 3)] (some 2)
    (some 1) none
  let tree : Entry := .directory [shelfMetadata namesakeListing (some 3)] (some 2)
  have hat : ended.files.at? ((storeIn ".backups").sessionPlace earlySession.id []) = some tree :=
    rfl
  -- The directory is that of a session whose copy is the metadata.
  have hholds : Holds earlySession [⟨["session.json"], namesakeFile⟩] tree := {
    usable := List.forall_mem_singleton.2 ⟨rfl, by decide, by decide⟩
    readable := ⟨rfl, by decide, by decide⟩
    metadata := rfl
    copies := List.forall_mem_singleton.2 rfl }
  have hstanding : (storeIn ".backups").Standing [] ended := standing_backups rfl rfl
  obtain ⟨hthere, hread⟩ := readJson_of_holds site_early hstanding hat hholds
  have hunpacked := unpackMissing_of_directory site_early hstanding hat hholds
    ((storeIn ".backups").archivePath earlySession.id)
  have hpath : Path.ofText "/session.json" = ⟨1, ["session.json"]⟩ := rfl
  have hcopied : ended.copyFile namesakeCopy ⟨1, ["session.json"]⟩ = .ok (namesakeWorld 4 namesakeFile
      [shelfMetadata namesakeListing (some 3)] (some 2) (some 1) none) :=
    copyFile_of_apart rfl rfl rfl rfl rfl
      (fun hdirectory => Option.some_ne_none _ (Option.some.inj hdirectory)) (by decide) rfl
  have hfile : restoreFile earlySession.directory (Path.ofText "/session.json") ended = (.ok (),
      namesakeWorld 4 namesakeFile [shelfMetadata namesakeListing (some 3)] (some 2) (some 1)
        none) := by
    rw [hpath]
    exact restoreFile_of_copied rfl hthere rfl hcopied
  have hlisted : listedFiles (metadata (earlySession.listing [⟨["session.json"], namesakeFile⟩])) =
      .ok [.str "/session.json"] := rfl
  have hrestored := restoreFrom_of_ok earlySession.id hthere hread hlisted
    ((Run.bind_ok hfile _).trans rfl)
  exact restore_of_ok site_early hunpacked hrestored (Or.inl ⟨rfl, rfl⟩)

/-- **What is retained can be lost or changed** when the name of a session leads out of the directory
of the sessions, when a file in that directory is backed up, or when the copy of a file is in the place
of the metadata: what is stored is then not the session that has ended and cannot be restored, what is
no session is changed by a restoration, or the file holds the metadata after it. -/
theorem retains_latest_lost :
    ((storeIn ".backups").Blank firstNote ∧
      ∃ opened backed ended last,
        (storeIn ".backups").startSession (.str "/../../x") firstNote =
          (.ok strayDirectory, opened) ∧
        (storeIn ".backups").backupFile (Path.ofText "a.txt") (opened.later 1) =
          (.ok (some strayCopy), backed) ∧
        (storeIn ".backups").finalize (backed.later 2) = (.ok (some strayDirectory), ended) ∧
        (storeIn ".backups").sessionEntries ended = .ok [(strayName, .directory [] (some 0))] ∧
        strayName ≠ strayId ∧
        (storeIn ".backups").restore strayName (ended.later 3) = (.ok false, last)) ∧
    ((storeIn ".backups").Blank shelfStart ∧
      ∃ opened backed written ended restored,
        (storeIn ".backups").startSession .null (shelfStart.later 1) =
          (.ok earlySession.directory, opened) ∧
        (storeIn ".backups").backupFile (Path.ofText ".backups/notes.txt") (opened.later 2) =
          (.ok (some notesCopy), backed) ∧
        (backed.later 3).writeFile (Path.ofText ".backups/notes.txt") (shelfFile ['m'] none) =
          .ok written ∧
        (storeIn ".backups").finalize (written.later 4) =
          (.ok (some earlySession.directory), ended) ∧
        ended.files.contentAt [".backups", "notes.txt"] = some (shelfFile ['m'] none) ∧
        (storeIn ".backups").restore earlySession.id (ended.later 5) = (.ok true, restored) ∧
        restored.files.contentAt [".backups", "notes.txt"] = some (shelfFile ['n'] none)) ∧
    ((storeIn ".backups").Blank namesakeStart ∧
      ∃ opened backed ended restored,
        (storeIn ".backups").startSession .null (namesakeStart.later 1) =
          (.ok earlySession.directory, opened) ∧
        (storeIn ".backups").backupFile (Path.ofText "session.json") (opened.later 2) =
          (.ok (some namesakeCopy), backed) ∧
        (storeIn ".backups").finalize (backed.later 3) =
          (.ok (some earlySession.directory), ended) ∧
        ended.files.contentAt ["session.json"] = some (shelfFile ['x'] none) ∧
        (storeIn ".backups").restore earlySession.id (ended.later 4) = (.ok true, restored) ∧
        restored.files.contentAt ["session.json"] = some namesakeFile ∧
        namesakeFile ≠ shelfFile ['x'] none) := by
  refine ⟨?_, ?_, ?_⟩
  · obtain ⟨ended, hended, hentries, last, hlast⟩ := finalize_strayListing
    exact ⟨blank_firstNote, _, _, ended, last, startSession_stray, backupFile_stray, hended,
      hentries, by decide, hlast⟩
  · have hwritten : ((shelfWorld 2 oldFile oldNotes [notesEntry none none []] (some 1)
        (some notesListing)).later 3).writeFile (Path.ofText ".backups/notes.txt")
          (shelfFile ['m'] none) = .ok (shelfWorld 3 oldFile (shelfFile ['m'] none)
            [notesEntry (some 2) (some 2) []] (some 1) (some notesListing)) := by
      rw [ofText_notes]
      rfl
    obtain ⟨files, hrestored, hrestores⟩ := kept_notes.restored site_early
    exact ⟨blank_shelfStart, _, _, _, _, _, startSession_early, backupFile_notes, hwritten,
      finalize_notes, rfl, hrestored, hrestores.contents _ (List.mem_singleton_self _)⟩
  · have hdiffers : (metadata namesakeListing).indented.toList ≠ ['x'] := by decide +kernel
    refine ⟨blank_namesakeStart, _, _, _, _, startSession_namesake, backupFile_namesake,
      finalize_namesake, rfl, restore_namesake, rfl, fun heq => ?_⟩
    exact hdiffers (Content.text.inj (Entry.file.inj heq).1)

end

end BackupStore
end UsageOrder
