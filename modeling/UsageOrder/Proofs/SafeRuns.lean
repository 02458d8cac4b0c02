import UsageOrder.Proofs.Frames

/-!
# Safe runs

A run is *safe* for an invariant when it keeps it and ends in a value of some kind or in a fault
that is reported (`Run.Safe`).  A sequence of safe runs is safe.
-/

namespace UsageOrder

/-! ### Where a copy goes to -/

namespace World

theorem copyTarget_spec {world : World} {source target : Path} (hnull : source.hasNull = false)
    (hparts : source.parts ≠ []) (hnull' : target.hasNull = false) (hparts' : target.parts ≠ [])
    (hname : target.name = source.name) :
    (world.copyTarget source target).hasNull = false ∧
      (world.copyTarget source target).parts ≠ [] ∧
        (world.copyTarget source target).name = source.name := by
  rw [copyTarget]
  split_ifs
  · refine ⟨Path.hasNull_join hnull' (Path.hasNull_eq_false_iff.2 fun part hpart => ?_), ?_, ?_⟩
    · obtain rfl := List.mem_singleton.1 hpart
      exact Path.hasNull_eq_false_iff.1 hnull _ (Path.name_mem hparts)
    · simp [Path.join]
    · rw [Path.join, if_pos rfl, Path.name_concat]
  · exact ⟨hnull', hparts', hname⟩

end World

/-! ### Sequences of safe runs -/

namespace Run

variable {α β : Type} {inv : World → Prop} {post : α → Prop} {post' : β → Prop} {run : Run α}

/-- From every world of an invariant a run leads to another one, and it gives a value of some kind
or ends in a fault that is reported. -/
def Safe (inv : World → Prop) (post : α → Prop) (run : Run α) : Prop :=
  ∀ world, inv world →
    (∃ value world', run world = (.ok value, world') ∧ post value ∧ inv world') ∨
      ∃ fault world', run world = (.error fault, world') ∧ fault.isReported = true ∧ inv world'

theorem safe_pure {value : α} (h : post value) : Safe inv post (pure value) :=
  fun world hworld => Or.inl ⟨value, world, rfl, h, hworld⟩

theorem safe_throw {fault : Fault} (h : fault.isReported = true) :
    Safe inv post (throw fault : Run α) :=
  fun world hworld => Or.inr ⟨fault, world, rfl, h, hworld⟩

/-- **A sequence of safe runs is safe.** -/
theorem Safe.bind {next : α → Run β} (h : Safe inv post run)
    (hnext : ∀ value, post value → Safe inv post' (next value)) :
    Safe inv post' (run >>= next) := by
  intro world hworld
  rcases h world hworld with ⟨value, between, hrun, hvalue, hbetween⟩ |
    ⟨fault, between, hrun, hfault, hbetween⟩
  · rw [bind_ok hrun]
    exact hnext value hvalue between hbetween
  · exact Or.inr ⟨fault, between, by rw [bind_apply, hrun], hfault, hbetween⟩

theorem safe_ofExcept {outcome : Except Fault α} (h : Contained outcome)
    (hpost : ∀ value, outcome = .ok value → post value) : Safe inv post (ofExcept outcome) := by
  cases outcome with
  | ok value => exact safe_pure (hpost value rfl)
  | error fault => exact safe_throw (h fault rfl)

theorem safe_read {f : World → Except Fault α} (h : ∀ world, inv world → Contained (f world))
    (hpost : ∀ world value, inv world → f world = .ok value → post value) :
    Safe inv post (read f) := by
  intro world hworld
  rw [read_apply]
  exact safe_ofExcept (h world hworld) (hpost world · hworld ·) world hworld

theorem safe_change {f : World → Except Fault World} (h : ∀ world, inv world → Contained (f world))
    (hinv : ∀ world world', inv world → f world = .ok world' → inv world') :
    Safe inv (fun _ => True) (change f) := by
  intro world hworld
  cases hf : f world with
  | ok world' => exact Or.inl ⟨(), world', change_iff.2 hf, trivial, hinv world world' hworld hf⟩
  | error fault =>
    exact Or.inr ⟨fault, world, by rw [change_apply, hf], h world hworld fault hf, hworld⟩

theorem safe_modify {f : World → World} (hinv : ∀ world, inv world → inv (f world)) :
    Safe inv (fun _ => True) (modify f : Run Unit) :=
  fun world hworld => Or.inl ⟨(), f world, rfl, trivial, hinv world hworld⟩

/-- What is done after a safe run in any case may be safe as well. -/
theorem Safe.ensuring {after : Run Unit} (h : Safe inv post run)
    (hafter : Safe inv (fun _ => True) after) : Safe inv post (run.ensuring after) := by
  have houtcome : Safe inv (fun outcome => Contained outcome ∧
      ∀ value, outcome = .ok value → post value) run.outcome := by
    intro world hworld
    rw [outcome_apply]
    rcases h world hworld with ⟨value, between, hrun, hvalue, hbetween⟩ |
      ⟨fault, between, hrun, hfault, hbetween⟩
    all_goals
      rw [hrun]
      refine Or.inl ⟨_, between, rfl, ?_, hbetween⟩
    · exact ⟨Contained.ok value, fun _ heq => Except.ok.inj heq ▸ hvalue⟩
    · exact ⟨fun _ heq => Except.error.inj heq ▸ hfault, fun _ heq => absurd heq (by simp)⟩
  refine houtcome.bind fun outcome ⟨hcontained, hvalue⟩ => ?_
  exact hafter.bind fun _ _ => safe_ofExcept hcontained hvalue

theorem safe_pathExists (path : Path) : Safe inv (fun _ => True) (pathExists path) :=
  safe_read (fun world _ => world.pathExists_contained path) fun _ _ _ _ => trivial

/-! ### Operations on files -/

section Files

variable {dumps : List String} {start : World} {path target : Path}

/-- **Writing a text under a name that is not that of a dump is safe.** -/
theorem safe_writeText (hnull : path.hasNull = false) (hparts : path.parts ≠ [])
    (hname : path.name ∉ dumps) (text : Text) :
    Safe (start.From dumps) (fun _ => True) (writeText path text) := by
  refine safe_change (fun world _ => world.writeFile_contained hnull _) ?_
  intro world world' hworld hwrite
  obtain ⟨place, hplace, rfl⟩ := World.writeFile_eq_ok_iff.1 hwrite
  exact hworld.write hplace hparts hname text none

theorem safe_removeFile (hnull : path.hasNull = false) (hparts : path.parts ≠ []) :
    Safe (start.From dumps) (fun _ => True) (removeFile path) := by
  refine safe_change (fun world _ => world.removeFile_contained hnull) ?_
  intro world world' hworld hremove
  obtain ⟨place, hplace, -, rfl⟩ := World.removeFile_eq_ok_iff.1 hremove
  exact hworld.remove hplace hparts

theorem safe_makeDirectories (hnull : path.hasNull = false) :
    Safe (start.From dumps) (fun _ => True) (makeDirectories path) :=
  safe_change (fun world _ => world.makeDirectories_contained hnull)
    fun _ _ hworld hmake => hworld.makeDirectories hmake

theorem safe_warn (message : String) : Safe (start.From dumps) (fun _ => True) (warn message) :=
  safe_modify fun _ hworld => hworld.of_files_eq rfl rfl rfl hworld.session

/-- Copying a text to a path of the same name is safe. -/
theorem safe_copyFile {text : Text} (hread : start.readText path = .ok text)
    (hparts : path.parts ≠ []) (hname : path.name ∉ dumps) (hnull : target.hasNull = false)
    (hparts' : target.parts ≠ []) (hname' : target.name = path.name) :
    Safe (start.From dumps) (fun _ => True) (copyFile path target) := by
  obtain ⟨place, value, changed, hstart, -⟩ := World.readText_eq_ok_iff.1 hread
  have hplaced : ∀ world : World, (world.copyTarget path target).hasNull = false ∧
      (world.copyTarget path target).parts ≠ [] ∧
        (world.copyTarget path target).name = path.name := fun world =>
    World.copyTarget_spec hstart.noNull hparts hnull hparts' hname'
  have hfound : ∀ {world : World}, start.From dumps world → ∀ {file : Entry},
      world.fileAt path = .ok file → ∃ text changed, file = .file (.text text) changed := by
    intro world hworld file hfile
    obtain ⟨place, hplace⟩ := World.fileAt_eq_ok_iff.1 hfile
    exact hworld.exists_text hread hplace
  refine safe_change (fun world hworld => ?_) fun world world' hworld hcopied => ?_
  · rw [World.copyFile]
    split_ifs
    · exact fun fault hfault => Except.error.inj hfault ▸ rfl
    refine (world.fileAt_contained hstart.noNull).bind fun file hfile => ?_
    obtain ⟨text, changed, rfl⟩ := hfound hworld hfile
    exact world.writeFile_contained (hplaced world).1 _
  · rw [World.copyFile] at hcopied
    split_ifs at hcopied
    obtain ⟨file, hfile, hwrite⟩ := bind_eq_ok_iff.1 hcopied
    obtain ⟨text, changed, rfl⟩ := hfound hworld hfile
    obtain ⟨place, hplace, rfl⟩ := World.writeFile_eq_ok_iff.1 hwrite
    obtain ⟨-, hplacedParts, hplacedName⟩ := hplaced world
    have hnot : (world.copyTarget path target).name ∉ dumps := by rwa [hplacedName]
    exact hworld.write hplace hplacedParts hnot text none

end Files
end Run

/-! ### Backups -/

namespace BackupStore

variable {store : BackupStore} {dumps : List String} {start : World} {path : Path}

/-- A session that is opened is the session in progress. -/
theorem opened_safe {directory : Path} (h : directory.hasNull = false) (id timestamp : String) :
    Run.Safe (start.From dumps) (fun session => session.directory.hasNull = false) (do
      Run.makeDirectories directory
      modify fun world : World => { world with session := some { id, timestamp, directory } }
      match (← get).session with
      | some session => return session
      | none => throw .noSuchMember) := by
  refine (Run.safe_makeDirectories h).bind fun _ _ world hworld => ?_
  let session : Session := { id, timestamp, directory }
  refine Or.inl ⟨session, { world with session := some session }, rfl, h, ?_⟩
  exact hworld.of_files_eq rfl rfl rfl fun session' heq => Option.some.inj heq ▸ h

theorem hasNull_sessionDirectory (h : store.directory.hasNull = false) (seconds : Nat) :
    (store.directory.join (Path.ofText
      (sessionMark ++ Timestamp.ofSeconds seconds ++ ""))).hasNull = false := by
  refine Path.hasNull_join h (Path.hasNull_ofText fun hmem => ?_)
  simp only [String.toList_append, List.mem_append] at hmem
  rcases hmem with (hmem | hmem) | hmem
  · exact absurd hmem (by decide)
  · exact (Timestamp.mem_ofSeconds hmem).elim (by decide) (by decide)
  · exact absurd hmem List.not_mem_nil

/-- **The session in progress can be had,** being opened where there is none. -/
theorem currentSession_safe (h : store.directory.hasNull = false) :
    Run.Safe (start.From dumps) (fun session => session.directory.hasNull = false)
      store.currentSession := by
  intro world hworld
  rw [currentSession, Run.get_bind]
  cases hsession : world.session with
  | some session =>
    refine Or.inl ⟨session, world, ?_, hworld.session session hsession, hworld⟩
    simp only [Option.isNone_some, Bool.false_eq_true, if_false]
    rw [Run.get_bind, hsession]
    rfl
  | none =>
    simp only [Option.isNone_none, if_true, startSession, Json.truthy, Bool.false_eq_true, if_false,
      bind_assoc, pure_bind, Run.get_bind]
    exact opened_safe (hasNull_sessionDirectory h world.now) _ _ world hworld

/-- **Backing up a text is safe.** -/
theorem backupFile_safe {text : Text} (h : store.directory.hasNull = false)
    (hdirectory : ∀ part ∈ start.workingDirectory, '\x00' ∉ part.toList)
    (hread : start.readText path = .ok text) (hparts : path.parts ≠ [])
    (hname : path.name ∉ dumps) :
    Run.Safe (start.From dumps) (fun _ => True) (store.backupFile path) := by
  obtain ⟨place, value, changed, hfile, -⟩ := World.readText_eq_ok_iff.1 hread
  have hresolve : ∀ world : World, start.From dumps world →
      world.resolve path = .ok (path.resolve start.workingDirectory) := by
    intro world hworld
    rw [World.resolve, hfile.noNull, hworld.workingDirectory]
    rfl
  obtain ⟨front, hfront⟩ : ∃ front, (path.resolve start.workingDirectory).parts =
      front ++ [path.name] := Path.resolve_parts hparts (hfile.name_ne_dots hparts)
  refine (currentSession_safe h).bind fun session hsession => ?_
  refine (Run.safe_pathExists path).bind fun there _ => ?_
  split_ifs
  · exact (Run.safe_warn _).bind fun _ _ => Run.safe_pure trivial
  · have hresolved : Run.Safe (start.From dumps)
        (fun resolved => resolved = path.resolve start.workingDirectory)
        (Run.read fun world => world.resolve path) :=
      Run.safe_read (fun world hworld => Contained.of_eq_ok (hresolve world hworld))
        fun world resolved hworld heq => Except.ok.inj (heq.symm.trans (hresolve world hworld))
    refine hresolved.bind fun resolved hresolved => ?_
    subst hresolved
    have hnull : (session.directory.join (key (path.resolve start.workingDirectory))).hasNull =
        false := Path.hasNull_join hsession (Path.hasNull_resolve hdirectory hfile.noNull)
    have hcopyParts :
        (session.directory.join (key (path.resolve start.workingDirectory))).parts ≠ [] := by
      simp [Path.join, key, hfront]
    have hcopyName :
        (session.directory.join (key (path.resolve start.workingDirectory))).name = path.name := by
      rw [Path.join, key, hfront, if_pos rfl, ← List.append_assoc]
      exact Path.name_concat ..
    dsimp only
    split_ifs
    · exact Run.safe_pure trivial
    · refine (Run.safe_makeDirectories (Path.hasNull_parent hnull)).bind fun _ _ => ?_
      refine (Run.safe_copyFile hread hparts hname hnull hcopyParts hcopyName).bind fun _ _ => ?_
      have hlist : Run.Safe (start.From dumps) (fun _ => True) (modify fun world : World =>
          { world with session := some { session with
              files := session.files ++ [(path.resolve start.workingDirectory).toText] } }) :=
        Run.safe_modify fun world hworld => hworld.of_files_eq rfl rfl rfl
          fun session' heq => Option.some.inj heq ▸ hsession
      exact hlist.bind fun _ _ => Run.safe_pure trivial

end BackupStore
end UsageOrder
