import UsageOrder.Proofs.Copying
import UsageOrder.Proofs.SafeRuns

/-!
# When a file can be backed up

A file is backed up in the session in progress, or in a new one (`BackupStore.destination`).  That
succeeds exactly when the session lists the file or the copy can be made
(`BackupStore.backupFile_returns_iff`), and a fault that it ends in is reported unless the path of the
session has a null character, in whatever world (`BackupStore.Backable.isReported_fault`).
-/

namespace UsageOrder
namespace BackupStore

variable {store : BackupStore} {session : Session} {path : Path} {world ready last : World}
  {file : Entry} {fault : Fault}

/-! ### The session that files are backed up in -/

/-- The session that files are backed up in: the one in progress, or else a new one. -/
def destination (store : BackupStore) (world : World) : Session :=
  world.session.getD (store.newSession .null world.now)

theorem destination_of_running (h : world.session = some session) :
    store.destination world = session := by
  rw [destination, h, Option.getD_some]

theorem Current.eq_destination (h : store.Current world session ready) :
    session = store.destination world := by
  cases h with
  | running inProgress => exact (destination_of_running inProgress).symm
  | opened idle made => rw [destination, idle, Option.getD_none]

/-- Opening a session makes it the one in progress. -/
theorem Current.destination_eq (h : store.Current world session ready) :
    store.destination ready = store.destination world := by
  cases h with
  | running inProgress => rfl
  | opened idle made => rw [destination, destination, idle, Option.getD_some, Option.getD_none]

theorem copyPath_parent (session : Session) {home : List String} (hparts : path.parts ≠ [])
    (hname : path.name ≠ "..") :
    (copyPath session home path).parent = session.directory.join ⟨0, path.parent.spot home⟩ := by
  have hspot : (path.resolve home).parts = path.parent.spot home ++ [path.name] :=
    Path.spot_eq_concat hparts hname
  rw [copyPath, key, hspot, Path.join, if_pos rfl, Path.join, if_pos rfl, Path.parent,
    ← List.append_assoc, List.dropLast_concat]

theorem spot_copyPath (session : Session) (home : List String) (path : Path) :
    (copyPath session home path).spot home = session.directory.spot home ++ path.spot home :=
  Path.spot_join (Path.dots_not_mem_spot path home)

theorem spot_inside (session : Session) {home : List String} (hname : path.name ≠ "..") :
    ((copyPath session home path).join ⟨0, [path.name]⟩).spot home =
      session.directory.spot home ++ (path.spot home ++ [path.name]) := by
  rw [Path.spot_join (by simpa using Ne.symm hname), spot_copyPath, List.append_assoc]

/-- The way to the directory of a session is a part of the way to its copies. -/
theorem exists_upTo_copyPath (session : Session) {home : List String} (hparts : path.parts ≠ [])
    (hname : path.name ≠ "..") (count : Nat) : ∃ count',
      session.directory.upTo count = (copyPath session home path).parent.upTo count' := by
  refine ⟨min count session.directory.parts.length, ?_⟩
  rw [copyPath_parent session hparts hname, Path.upTo_join, if_pos (Nat.min_le_right _ _), Path.upTo,
    Path.upTo, List.take_eq_take_min]

/-- The directory of a session can be made if copies can. -/
theorem receives_directory {session : Session} (hparts : path.parts ≠ []) (hname : path.name ≠ "..")
    (h : world.Receives (copyPath session world.workingDirectory path) path.name) :
    session.directory.Usable ∧ world.Passable session.directory := by
  refine ⟨h.usable.of_sublist (Nat.le_refl _) (List.sublist_append_left _ _), fun count file => ?_⟩
  obtain ⟨count', hcount'⟩ := exists_upTo_copyPath session hparts hname count
  rw [hcount']
  exact h.passable count' file

/-- Copies can be made alike when the session has been opened for them. -/
theorem Current.alongside (h : store.Current world session ready)
    (hdots : ".." ∉ world.workingDirectory) (hparts : path.parts ≠ []) (hname : path.name ≠ "..") :
    World.Alongside (copyPath session world.workingDirectory path) path.name world ready := by
  cases h with
  | running inProgress =>
    exact .of_files rfl (fun _ => Iff.rfl) fun _ => Iff.rfl
  | opened idle made =>
    have hgrows := (World.grows_of_makeDirectories made).2
    have hway : ∀ count, ∃ count', (store.newSession .null world.now).directory.upTo count =
        (copyPath (store.newSession .null world.now) world.workingDirectory path).parent.upTo count' :=
      exists_upTo_copyPath _ hparts hname
    have halong : World.Alongside _ path.name world _ := .of_grows hdots hgrows fun count _ =>
      (hway count).imp fun count' hcount' => congrArg (Path.spot world.workingDirectory) hcount'
    exact ⟨halong.workingDirectory, halong.files, halong.reaches, halong.inside⟩

/-! ### Backups that succeed -/

/-- What is known of a file that can be backed up: it is not in the session. -/
structure Backable (store : BackupStore) (world : World) (path : Path) (file : Entry) : Prop where
  dots : ".." ∉ world.workingDirectory
  home : world.files.IsDirectoryAt world.workingDirectory
  parts : path.parts ≠ []
  there : world.HasFile path (path.spot world.workingDirectory) file
  apart : ¬ (store.destination world).directory.spot world.workingDirectory <+:
    path.spot world.workingDirectory

/-- The session lists a file, or a copy of it can be made there. -/
def Accepts (store : BackupStore) (world : World) (path : Path) : Prop :=
  (path.resolve world.workingDirectory).toText ∈ (store.destination world).files ∨
    world.Receives (copyPath (store.destination world) world.workingDirectory path) path.name

namespace Backable

theorem name (h : Backable store world path file) : path.name ≠ ".." :=
  h.there.name_ne_dots h.parts

theorem copies_iff (h : Backable store world path file) :
    (∃ grown last, world.makeDirectories
        (copyPath (store.destination world) world.workingDirectory path).parent = .ok grown ∧
        grown.copyFile path (copyPath (store.destination world) world.workingDirectory path) =
          .ok last) ↔
      world.Receives (copyPath (store.destination world) world.workingDirectory path) path.name := by
  refine World.copies_iff h.dots h.home h.there (fun heq => h.apart ?_) fun heq => h.apart ?_
  · rw [← heq, spot_copyPath]
    exact List.prefix_append _ _
  · rw [← heq, spot_inside _ h.name]
    exact List.prefix_append _ _

/-- A file can be backed up once the session has been opened. -/
theorem current (h : Backable store world path file) (hcurrent : store.Current world session ready) :
    Backable store ready path file := by
  have hworking : ready.workingDirectory = world.workingDirectory := by rw [hcurrent.eq_files]
  refine ⟨hworking ▸ h.dots, hworking ▸ ?_, h.parts, hworking ▸ hcurrent.hasFile h.there, ?_⟩
  · cases hcurrent with
    | running inProgress => exact h.home
    | opened idle made => exact (World.grows_of_makeDirectories made).2.isDirectoryAt h.home
  · rw [hcurrent.destination_eq, hworking]
    exact h.apart

/-- In a session in progress a file is backed up if it is listed or a copy can be made. -/
theorem returns_of_running (h : Backable store world path file)
    (hsession : world.session = some session) (haccepts : store.Accepts world path) :
    ∃ backup last, store.backupFile path world = (.ok backup, last) := by
  have hthere := h.there.pathExists
  by_cases hlisted : (path.resolve world.workingDirectory).toText ∈ session.files
  · refine ⟨some (copyPath session world.workingDirectory path), world, ?_⟩
    rw [backupFile_of_running store hsession hthere h.there.noNull, if_pos hlisted]
    rfl
  · have hdestination : store.destination world = session := destination_of_running hsession
    rw [Accepts, hdestination] at haccepts
    obtain ⟨grown, last, hmade, hcopied⟩ := h.copies_iff.2 (by
      rw [hdestination]
      exact haccepts.resolve_left hlisted)
    rw [hdestination] at hmade hcopied
    exact ⟨_, _, backupFile_of_copied store hsession hthere h.there.noNull hlisted hmade hcopied⟩

end Backable

/-- A file is accepted alike once the session has been opened for it. -/
theorem Backable.accepts_iff (h : Backable store world path file)
    (hcurrent : store.Current world session ready) :
    store.Accepts ready path ↔ store.Accepts world path := by
  have halong := hcurrent.alongside h.dots h.parts h.name
  rw [hcurrent.eq_destination] at halong
  rw [Accepts, Accepts, hcurrent.destination_eq, halong.workingDirectory, halong.receives_iff]

/-- **Whether a backup succeeds:** the session lists the file, or a copy of it can be made. -/
theorem backupFile_returns_iff (h : Backable store world path file) :
    (∃ backup last, store.backupFile path world = (.ok backup, last)) ↔
      store.Accepts world path := by
  constructor
  · rintro ⟨backup, last, hbackup⟩
    have hcases := store.backupFile_cases path world
    rw [hbackup] at hcases
    cases hcases with
    | absent current gone =>
      exact absurd ((h.current current).there.pathExists.symm.trans gone) (by simp)
    | listed current known =>
      refine (h.accepts_iff current).1 (Or.inl ?_)
      rwa [current.destination_eq, ← current.eq_destination]
    | @copied session ready grown last current new made copied =>
      refine (h.accepts_iff current).1 (Or.inr ((h.current current).copies_iff.1 ?_))
      rw [current.destination_eq, ← current.eq_destination]
      exact ⟨grown, last, made, copied⟩
  · intro haccepts
    cases hsession : world.session with
    | some session => exact h.returns_of_running hsession haccepts
    | none =>
      have hnew : store.destination world = store.newSession .null world.now := by
        rw [destination, hsession, Option.getD_none]
      have hreceives := haccepts.resolve_left (by rw [hnew]; exact List.not_mem_nil)
      rw [hnew] at hreceives
      obtain ⟨grown, hmade⟩ := (World.makeDirectories_returns_iff h.dots h.home).2
        (receives_directory h.parts h.name hreceives)
      have hcurrent : store.Current world _ _ := .opened hsession hmade
      have hstart : store.startSession .null world =
          (.ok (store.newSession .null world.now).directory,
            { grown with session := some (store.newSession .null world.now) }) := by
        rw [startSession_apply, hmade]
      rw [backupFile_of_idle store path hsession, Run.bind_ok hstart]
      exact (h.current hcurrent).returns_of_running rfl ((h.accepts_iff hcurrent).2 haccepts)

/-! ### Backups that fail -/

theorem hasNull_join_of_left {base more : Path} (h : base.hasNull = true) (hmore : more.slashes = 0) :
    (base.join more).hasNull = true := by
  rw [Path.join, if_pos hmore, Path.hasNull, List.any_append, Bool.or_eq_true]
  exact Or.inl h

/-- In a session in progress a backup fails by a fault that is reported, unless the path of the session
has a null character. -/
theorem Backable.fault_of_running (h : Backable store world path file) {text : Text}
    (hread : world.readText path = .ok text)
    (hhome : ∀ part ∈ world.workingDirectory, '\x00' ∉ part.toList)
    (hsession : world.session = some session)
    (hfault : store.backupFile path world = (.error fault, last)) :
    fault.isReported = !session.directory.hasNull := by
  have hdestination : store.destination world = session := destination_of_running hsession
  cases hnull : session.directory.hasNull with
  | false =>
    -- The directory of the store plays no part any more: it may be any other one.
    have hother : BackupStore.backupFile ⟨⟨0, []⟩, .null, .null⟩ path world =
        (.error fault, last) := by
      rw [← hfault, backupFile, backupFile, Run.bind_ok (currentSession_of_running _ hsession),
        Run.bind_ok (currentSession_of_running store hsession)]
    have hsafe : Run.Safe (world.From []) (fun _ => True)
        (BackupStore.backupFile ⟨⟨0, []⟩, .null, .null⟩ path) :=
      backupFile_safe rfl hhome hread h.parts List.not_mem_nil
    have hsafe := hsafe world (.refl [] fun other heq => by
      rw [← Option.some.inj (hsession.symm.trans heq), hnull])
    rw [hother] at hsafe
    rcases hsafe with ⟨value, world', heq, -⟩ | ⟨fault', world', heq, hreported, -⟩
    · exact absurd (Prod.mk.inj heq).1 (by simp)
    · rwa [Except.error.inj (Prod.mk.inj heq).1]
  | true =>
    have hlisted : (path.resolve world.workingDirectory).toText ∉ session.files := by
      intro hlisted
      obtain ⟨backup, last', hbackup⟩ := h.returns_of_running hsession
        (Or.inl (by rwa [hdestination]))
      exact absurd (Prod.mk.inj (hbackup.symm.trans hfault)).1 (by simp)
    have hmade : Run.makeDirectories (copyPath session world.workingDirectory path).parent world =
        (.error .badValue, world) := by
      rw [copyPath_parent session h.parts h.name, Run.makeDirectories, Run.change_apply,
        World.makeDirectories, hasNull_join_of_left hnull rfl, if_pos rfl]
    rw [backupFile_of_running store hsession h.there.pathExists h.there.noNull, if_neg hlisted,
      Run.bind_error hmade] at hfault
    rw [← Except.error.inj (Prod.mk.inj hfault).1]
    rfl

/-- **What a backup fails by** is reported, unless the path of the session has a null character. -/
theorem Backable.isReported_fault (h : Backable store world path file) {text : Text}
    (hread : world.readText path = .ok text)
    (hhome : ∀ part ∈ world.workingDirectory, '\x00' ∉ part.toList)
    (hfault : store.backupFile path world = (.error fault, last)) :
    fault.isReported = !(store.destination world).directory.hasNull := by
  cases hsession : world.session with
  | some session =>
    rw [destination_of_running hsession]
    exact h.fault_of_running hread hhome hsession hfault
  | none =>
    rw [destination, hsession, Option.getD_none]
    rw [backupFile_of_idle store path hsession] at hfault
    cases hmade : world.makeDirectories (store.newSession .null world.now).directory with
    | ok grown =>
      have hcurrent : store.Current world _ _ := .opened hsession hmade
      have hstart : store.startSession .null world =
          (.ok (store.newSession .null world.now).directory,
            { grown with session := some (store.newSession .null world.now) }) := by
        rw [startSession_apply, hmade]
      have hworking : grown.workingDirectory = world.workingDirectory :=
        (World.grows_of_makeDirectories hmade).2.workingDirectory
      rw [Run.bind_ok hstart] at hfault
      obtain ⟨place, value, changed, hfile, htext⟩ := World.readText_eq_ok_iff.1 hread
      refine (h.current hcurrent).fault_of_running (World.readText_eq_ok_iff.2
        ⟨place, value, changed, hcurrent.hasFile hfile, htext⟩) ?_ rfl hfault
      exact fun part hpart => hhome part (hworking ▸ hpart)
    | error cause =>
      have hstart : store.startSession .null world = (.error cause, world) := by
        rw [startSession_apply, hmade]
      rw [Run.bind_error hstart] at hfault
      obtain rfl := Except.error.inj (Prod.mk.inj hfault).1
      cases hnull : (store.newSession .null world.now).directory.hasNull with
      | false => exact World.makeDirectories_contained world hnull _ hmade
      | true =>
        rw [World.makeDirectories, hnull, if_pos rfl] at hmade
        rw [← Except.error.inj hmade]
        rfl

end BackupStore
end UsageOrder
