import UsageOrder.Proofs.Backing
import UsageOrder.Proofs.Plans

/-!
# Files that are apart from each other

To process a file is to read it and the dump beside it, to copy it into the session in progress, to
write it and to remove its dump.  So it takes two places outside of the session, which are its own
(`Processor.Owns`), and the place of its copy.

All that processing a file can do to a world is said once (`Processor.Touches`), and every step does no
more, whether it succeeds or fails (`Processor.Separate.touches_processFile`): outside of the session
nothing is changed but the places of the file, directories are made only where nothing was, and copies
of other files can be made as before.
-/

namespace UsageOrder

/-! ### The way to a copy -/

namespace BackupStore

/-- The way to a copy is the way to the session and that to the file below it. -/
theorem upTo_copyPath (session : Session) {home : List String} {path : Path} (hparts : path.parts ≠ [])
    (hname : path.name ≠ "..") (count : Nat) :
    (∃ count', (copyPath session home path).parent.upTo count = session.directory.upTo count') ∨
      ∃ front, front <+: path.parent.spot home ∧
        ((copyPath session home path).parent.upTo count).spot home =
          session.directory.spot home ++ front := by
  rw [copyPath_parent session hparts hname, Path.upTo_join]
  split_ifs with hcount
  · exact Or.inl ⟨count, rfl⟩
  · have hdots : ".." ∉ (path.parent.spot home).take (count - session.directory.parts.length) :=
      fun hmem => Path.dots_not_mem_spot path.parent home (List.mem_of_mem_take hmem)
    exact Or.inr ⟨_, List.take_prefix _ _, Path.spot_join hdots⟩

/-- A copy goes to the place of its file below the session, or into a directory there. -/
theorem copyTarget_spot (session : Session) {home : List String} {path : Path} (world : World)
    (hname : path.name ≠ "..") : ∃ more,
      (world.copyTarget path (copyPath session home path)).spot home =
        session.directory.spot home ++ (path.spot home ++ more) := by
  rw [World.copyTarget]
  split_ifs
  · exact ⟨[path.name], spot_inside session hname⟩
  · exact ⟨[], by rw [spot_copyPath, List.append_nil]⟩

end BackupStore

/-- At a place of two trees the same is seen, or a directory of the second one where nothing is in the
first one. -/
def Entry.AlikeAt (top top' : Entry) (place : List String) : Prop :=
  top'.seen place = top.seen place ∨ top.seen place = none ∧ top'.IsDirectoryAt place

namespace Entry.AlikeAt

variable {top between top' : Entry} {place : List String}

theorem trans (h : AlikeAt top between place) (h' : AlikeAt between top' place) :
    AlikeAt top top' place := by
  rcases h' with hsame | ⟨hnone, hmade⟩
  · exact h.imp hsame.trans (And.imp_right hsame.trans)
  · rcases h with hsame | ⟨-, hmade'⟩
    · exact Or.inr ⟨hsame.symm.trans hnone, hmade⟩
    · exact absurd (hnone.symm.trans hmade') (by simp)

theorem seen_eq (h : AlikeAt top top' place) (hthere : top.seen place ≠ none) :
    top'.seen place = top.seen place :=
  h.resolve_right fun hmade => hthere hmade.1

end Entry.AlikeAt

namespace Processor

variable {processor : Processor} {paths : List Path} {path other beside : Path} {home : List String}
  {world between world' grown last : World} {own : List String → Prop} {store : BackupStore}
  {session : Session} {place : List String} {text : Text}

/-! ### Places -/

/-- A place that a file takes: that of the file, and that of the dump beside it. -/
def Owns (processor : Processor) (home : List String) (path : Path) (place : List String) : Prop :=
  place = path.spot home ∨ ∃ beside, processor.sidecar path = .ok beside ∧ place = beside.spot home

/-- A place outside of the session that files are backed up in, if they are. -/
def OutsideSession (processor : Processor) (world : World) (place : List String) : Prop :=
  ∀ store, processor.store = some store →
    ¬ (store.destination world).directory.spot world.workingDirectory <+: place

/-- A place on the way to the session that files are backed up in. -/
def OnWay (processor : Processor) (world : World) (place : List String) : Prop :=
  ∃ store, processor.store = some store ∧ ∃ count,
    place = ((store.destination world).directory.upTo count).spot world.workingDirectory

/-- **Files that are apart from each other** and from the session that they are backed up in. -/
structure Separate (processor : Processor) (paths : List Path) (world : World) : Prop where
  dots : ".." ∉ world.workingDirectory
  home : world.files.IsDirectoryAt world.workingDirectory
  nameable : world.Nameable
  suffix : processor.config.parser.astSuffix ≠ .str ""
  parts : ∀ path ∈ paths, path.parts ≠ []
  name : ∀ path ∈ paths, path.name ≠ ".."
  names : ∀ path ∈ paths, ∀ name ∈ path.spot world.workingDirectory, Path.IsName name
  /-- There is a file at each path, behind directories; the path may be too long all the same. -/
  files : ∀ path ∈ paths, ∃ file,
    world.files.seen (path.spot world.workingDirectory) = some (some file)
  through : ∀ path ∈ paths, ∀ count < path.parts.length,
    world.files.IsDirectoryAt ((path.upTo count).spot world.workingDirectory)
  /-- No place is taken by two files. -/
  disjoint : ∀ path ∈ paths, ∀ other ∈ paths, path ≠ other → ∀ place,
    processor.Owns world.workingDirectory path place →
      ¬ processor.Owns world.workingDirectory other place
  outside : ∀ path ∈ paths, ∀ place, processor.Owns world.workingDirectory path place →
    processor.OutsideSession world place
  /-- What the files take on the way to the session are no files, so none of them opens or bars it. -/
  way : ∀ path ∈ paths, ∀ place, processor.Owns world.workingDirectory path place →
    processor.OnWay world place → ∀ file, world.files.seen place ≠ some (some file)

namespace Separate

theorem spot_eq (h : processor.Separate paths world) (hpath : path ∈ paths) :
    path.spot world.workingDirectory = path.parent.spot world.workingDirectory ++ [path.name] :=
  Path.spot_eq_concat (h.parts path hpath) (h.name path hpath)

/-- No file is on the way to another one. -/
theorem not_prefix_parent (h : processor.Separate paths world) (hpath : path ∈ paths)
    (hother : other ∈ paths) :
    ¬ path.spot world.workingDirectory <+: other.parent.spot world.workingDirectory := by
  intro hprefix
  obtain ⟨file, hfile⟩ := h.files path hpath
  obtain ⟨file', hfile'⟩ := h.files other hother
  rw [h.spot_eq hother] at hfile'
  have hparent := Entry.isDirectoryAt_of_seen_append (by rw [hfile']; simp) (List.cons_ne_nil _ _)
  exact absurd (hfile.symm.trans (hparent.of_prefix hprefix)) (by simp)

theorem backable (h : processor.Separate paths world) (hstore : processor.store = some store)
    (hpath : path ∈ paths) {file : Entry}
    (hfile : world.HasFile path (path.spot world.workingDirectory) file) :
    store.Backable world path file :=
  ⟨h.dots, h.home, h.parts path hpath, hfile, h.outside path hpath _ (Or.inl rfl) store hstore⟩

/-- Different files are listed by different texts. -/
theorem toText_ne (h : processor.Separate paths world) (hpath : path ∈ paths) (hother : other ∈ paths)
    (hne : other ≠ path) :
    (other.resolve world.workingDirectory).toText ≠ (path.resolve world.workingDirectory).toText := by
  have hresolved : ∀ path ∈ paths, Path.ofText (path.resolve world.workingDirectory).toText =
      ⟨1, path.spot world.workingDirectory⟩ := by
    intro path hpath
    have hspot : path.spot world.workingDirectory ≠ [] := by
      rw [h.spot_eq hpath]
      exact List.concat_ne_nil _ _
    exact Path.ofText_toText (h.names path hpath) hspot
  intro heq
  have hspots := (hresolved other hother).symm.trans (heq ▸ hresolved path hpath)
  exact h.disjoint other hother path hpath hne _ (Or.inl rfl) (Or.inl (Path.mk.inj hspots).2)

end Separate

/-! ### What processing a file can do -/

/-- **All that processing a file can do to a world:** places of its own may change, directories may be
made where nothing was, the session may list the file, and in the session there may be a copy of it,
which leaves the places free that copies of the other files need.  Outside of the session no file is
new. -/
structure Touches (processor : Processor) (paths : List Path) (path : Path)
    (own : List String → Prop) (world world' : World) : Prop where
  workingDirectory : world'.workingDirectory = world.workingDirectory
  nameable : world.Nameable → world'.Nameable
  directories : ∀ place, world.files.IsDirectoryAt place → world'.files.IsDirectoryAt place
  file : (∃ file, world.files.seen (path.spot world.workingDirectory) = some (some file)) →
    ∃ file, world'.files.seen (path.spot world.workingDirectory) = some (some file)
  known : ∀ place, processor.OutsideSession world place →
    (∃ file, world'.files.seen place = some (some file)) →
      ∃ file, world.files.seen place = some (some file)
  seen : ∀ place, ¬ own place → processor.OutsideSession world place →
    world.files.AlikeAt world'.files place
  destination : ∀ store, processor.store = some store →
    (store.destination world').directory = (store.destination world).directory ∧
      ∀ listed, listed ≠ (path.resolve world.workingDirectory).toText →
        (listed ∈ (store.destination world').files ↔ listed ∈ (store.destination world).files)
  alongside : ∀ store, processor.store = some store → ∀ other ∈ paths, other ≠ path →
    World.Alongside
      (BackupStore.copyPath (store.destination world) world.workingDirectory other) other.name
      world world'

namespace Touches

/-- What does not concern the files and the session touches nothing. -/
theorem of_files_eq (hfiles : world'.files = world.files)
    (hworking : world'.workingDirectory = world.workingDirectory)
    (hsession : world'.session = world.session) (hnow : world'.now = world.now) :
    processor.Touches paths path own world world' := by
  have hdestination : ∀ store : BackupStore, store.destination world' = store.destination world := by
    intro store
    rw [BackupStore.destination, hsession, hnow, BackupStore.destination]
  exact {
    workingDirectory := hworking
    nameable := fun hnames => hnames.of_seen (fun _ => by rw [hfiles]) hworking
    directories := fun place hplace => hfiles ▸ hplace
    file := fun hfile => hfiles ▸ hfile
    known := fun place _ hfile => hfiles ▸ hfile
    seen := fun place _ _ => Or.inl (by rw [hfiles])
    destination := fun store _ => by
      rw [hdestination]
      exact ⟨rfl, fun _ _ => Iff.rfl⟩
    alongside := fun store _ other _ _ =>
      .of_files hworking (fun _ => by rw [hfiles]) fun _ => by rw [hfiles] }

theorem refl (world : World) : processor.Touches paths path own world world :=
  .of_files_eq rfl rfl rfl rfl

theorem log (h : processor.Touches paths path own world world') (log : List LogRecord) :
    processor.Touches paths path own world { world' with log := log } where
  workingDirectory := h.workingDirectory
  nameable hnames := (h.nameable hnames).of_seen (fun _ => rfl) rfl
  directories := h.directories
  file := h.file
  known := h.known
  seen := h.seen
  destination := h.destination
  alongside store hstore other hother hne :=
    (h.alongside store hstore other hother hne).trans (.of_files rfl (fun _ => Iff.rfl) fun _ => Iff.rfl)

theorem outsideSession_iff (h : processor.Touches paths path own world world') :
    processor.OutsideSession world' place ↔ processor.OutsideSession world place := by
  refine forall_congr' fun store => forall_congr' fun hstore => ?_
  rw [(h.destination store hstore).1, h.workingDirectory]

theorem onWay_iff (h : processor.Touches paths path own world world') :
    processor.OnWay world' place ↔ processor.OnWay world place := by
  refine exists_congr fun store => and_congr_right fun hstore => ?_
  rw [(h.destination store hstore).1, h.workingDirectory]

theorem trans (h : processor.Touches paths path own world between)
    (h' : processor.Touches paths path own between world') :
    processor.Touches paths path own world world' where
  workingDirectory := h'.workingDirectory.trans h.workingDirectory
  nameable hnames := h'.nameable (h.nameable hnames)
  directories place hplace := h'.directories place (h.directories place hplace)
  file hfile := by
    have hlater := h'.file
    rw [h.workingDirectory] at hlater
    exact hlater (h.file hfile)
  known place houtside hfile :=
    h.known place houtside (h'.known place (h.outsideSession_iff.2 houtside) hfile)
  seen place hown houtside :=
    (h.seen place hown houtside).trans (h'.seen place hown (h.outsideSession_iff.2 houtside))
  destination store hstore := by
    obtain ⟨hdirectory, hfiles⟩ := h.destination store hstore
    obtain ⟨hdirectory', hfiles'⟩ := h'.destination store hstore
    rw [h.workingDirectory] at hfiles'
    exact ⟨hdirectory'.trans hdirectory, fun listed hne => (hfiles' listed hne).trans (hfiles listed hne)⟩
  alongside store hstore other hother hne := by
    have hlater := h'.alongside store hstore other hother hne
    rw [BackupStore.copyPath, (h.destination store hstore).1, h.workingDirectory] at hlater
    exact (h.alongside store hstore other hother hne).trans hlater

theorem mono {own' : List String → Prop} (h : processor.Touches paths path own world world')
    (hown : ∀ place, own place → own' place) : processor.Touches paths path own' world world' :=
  { h with seen := fun place hnot => h.seen place fun hplace => hnot (hown place hplace) }

/-- What is at a place that a file takes stays, unless the place is one of those that may change. -/
theorem seen_eq (h : processor.Touches paths path own world world')
    (hseparate : processor.Separate paths world) (hother : other ∈ paths)
    (hplace : processor.Owns world.workingDirectory other place) (hown : ¬ own place)
    (hthere : world.files.seen place ≠ none) : world'.files.seen place = world.files.seen place :=
  (h.seen place hown (hseparate.outside other hother place hplace)).seen_eq hthere

/-- A path through directories that have stayed leads where it led. -/
theorem hasFile (h : processor.Touches paths path own world world') {file : Entry}
    (hfile : world.HasFile other place file)
    (hseen : world'.files.seen place = world.files.seen place) : world'.HasFile other place file where
  noNull := hfile.noNull
  leads := by
    have hleads := hfile.leads
    rw [World.place] at hleads ⊢
    rw [h.workingDirectory]
    split_ifs at hleads ⊢ <;> exact Entry.follow_mono h.directories hleads
  notDirectory hdirectory := hfile.notDirectory (hseen.symm.trans hdirectory)
  seen := hseen.trans hfile.seen

/-- **Files stay apart from each other** when one of them is processed. -/
theorem separate (h : processor.Touches paths path (processor.Owns world.workingDirectory path) world world')
    (hseparate : processor.Separate paths world) (hpath : path ∈ paths) :
    processor.Separate paths world' where
  dots := h.workingDirectory ▸ hseparate.dots
  home := h.workingDirectory ▸ h.directories _ hseparate.home
  nameable := h.nameable hseparate.nameable
  suffix := hseparate.suffix
  parts := hseparate.parts
  name := hseparate.name
  names := h.workingDirectory ▸ hseparate.names
  files other hother := by
    rw [h.workingDirectory]
    by_cases heq : other = path
    · rw [heq]
      exact h.file (hseparate.files path hpath)
    · have hnot := hseparate.disjoint other hother path hpath heq _ (Or.inl rfl)
      obtain ⟨file, hfile⟩ := hseparate.files other hother
      exact ⟨file, (h.seen_eq hseparate hother (Or.inl rfl) hnot (by simp [hfile])).trans hfile⟩
  through other hother count hcount := by
    rw [h.workingDirectory]
    exact h.directories _ (hseparate.through other hother count hcount)
  disjoint := h.workingDirectory ▸ hseparate.disjoint
  outside other hother place hplace := by
    rw [h.workingDirectory] at hplace
    exact h.outsideSession_iff.2 (hseparate.outside other hother place hplace)
  way other hother place hplace hway file hfile := by
    rw [h.workingDirectory] at hplace
    obtain ⟨old, hold⟩ := h.known place (hseparate.outside other hother place hplace) ⟨file, hfile⟩
    exact hseparate.way other hother place hplace (h.onWay_iff.1 hway) old hold

end Touches

/-! ### The steps -/

namespace Separate

/-- Opening the session makes directories on its way at most. -/
theorem touches_current (h : processor.Separate paths world)
    (hstore : processor.store = some store) (hcurrent : store.Current world session last) :
    processor.Touches paths path own world last := by
  have hsession := hcurrent.eq_destination
  have hdestination := hcurrent.destination_eq
  have halong : ∀ other ∈ paths, World.Alongside
      (BackupStore.copyPath (store.destination world) world.workingDirectory other) other.name
      world last := fun other hother =>
    hsession ▸ hcurrent.alongside h.dots (h.parts other hother) (h.name other hother)
  have hfiles := hcurrent.sameFiles
  cases hcurrent with
  | running inProgress => exact .refl world
  | opened idle made =>
    obtain ⟨hnull, hgrows⟩ := World.grows_of_makeDirectories made
    exact {
      workingDirectory := hgrows.workingDirectory
      nameable := fun hnames => (hnames.grows hnull hgrows).of_seen (fun _ => rfl) rfl
      directories := fun place => hgrows.isDirectoryAt
      file := fun hthere => hthere.imp fun _ => (hfiles _ _).2
      known := fun place _ hthere => hthere.imp fun _ => (hfiles _ _).1
      seen := fun place _ _ => hgrows.seen place
      destination := fun store' hstore' => by
        obtain rfl := Option.some.inj (hstore.symm.trans hstore')
        rw [hdestination]
        exact ⟨rfl, fun _ _ => Iff.rfl⟩
      alongside := fun store' hstore' other hother _ => by
        obtain rfl := Option.some.inj (hstore.symm.trans hstore')
        exact halong other hother }

/-- Making the directories for a copy makes them in the session at most, once it is open. -/
theorem touches_made (h : processor.Separate paths world) (hpath : path ∈ paths)
    (hstore : processor.store = some store) (hsession : world.session = some session)
    (hmade : world.makeDirectories
      (BackupStore.copyPath session world.workingDirectory path).parent = .ok grown) :
    processor.Touches paths path own world grown := by
  obtain ⟨hnull, hgrows⟩ := World.grows_of_makeDirectories hmade
  have hdestination : ∀ world' : World, world'.session = some session →
      store.destination world' = session := fun _ => BackupStore.destination_of_running
  have hgrown : grown.session = some session := by rw [hgrows.eq_files, hsession]
  exact {
    workingDirectory := hgrows.workingDirectory
    nameable := fun hnames => hnames.grows hnull hgrows
    directories := fun place => hgrows.isDirectoryAt
    file := fun hthere => hthere.imp fun _ => (hgrows.sameFiles _ _).2
    known := fun place _ hthere => hthere.imp fun _ => (hgrows.sameFiles _ _).1
    seen := fun place _ _ => hgrows.seen place
    destination := fun store' hstore' => by
      obtain rfl := Option.some.inj (hstore.symm.trans hstore')
      rw [hdestination world hsession, hdestination grown hgrown]
      exact ⟨rfl, fun _ _ => Iff.rfl⟩
    alongside := fun store' hstore' other hother hne => by
      obtain rfl := Option.some.inj (hstore.symm.trans hstore')
      rw [hdestination world hsession]
      refine .of_grows h.dots hgrows fun count hcount => ?_
      rcases BackupStore.upTo_copyPath session (h.parts path hpath) (h.name path hpath) count with
        ⟨count', hway⟩ | ⟨front, hfront, hbelow⟩
      · obtain ⟨count'', hcount''⟩ :=
          BackupStore.exists_upTo_copyPath session (h.parts other hother) (h.name other hother) count'
        exact ⟨count'', by rw [hway, hcount'']⟩
      · -- What would be made there is above the file, but the other file is no directory.
        refine absurd ?_ (h.not_prefix_parent hother hpath)
        rw [hbelow, BackupStore.spot_copyPath, BackupStore.spot_inside session (h.name other hother),
          List.append_cancel_left_eq, List.append_cancel_left_eq] at hcount
        rcases hcount with rfl | rfl
        · exact hfront
        · exact (List.prefix_append _ _).trans hfront }

/-- A copy in the session is on the way to no other one. -/
theorem touches_copied (h : processor.Separate paths world) (hpath : path ∈ paths)
    (hstore : processor.store = some store) (hsession : world.session = some session)
    (hthere : ∀ count, world.files.IsDirectoryAt
      ((session.directory.upTo count).spot world.workingDirectory))
    (hcopied : world.copyFile path (BackupStore.copyPath session world.workingDirectory path) =
      .ok last) :
    processor.Touches paths path own world { last with session := some { session with
      files := session.files ++ [(path.resolve world.workingDirectory).toText] } } := by
  obtain ⟨place, file, spot, hfile, hspot, hne, rfl⟩ := World.copyFile_eq_ok_iff.1 hcopied
  have hleaf := Entry.leaf?_undated hfile.leaf?_eq
  have hparts := BackupStore.copyTarget_parts world path
    (BackupStore.copyPath_spec session world.workingDirectory (h.parts path hpath) (h.name path hpath)).1
  obtain ⟨more, hmore⟩ := BackupStore.copyTarget_spot session world (h.name path hpath)
  have hplace := ((World.place_eq_ok_iff h.dots).1 hspot.leads).2
  rw [hmore] at hplace
  have hsame : ∀ other, world.files.IsDirectoryAt other ↔
      (world.files.put spot file.undated).IsDirectoryAt other :=
    fun _ => (hspot.isDirectoryAt_put_iff hparts hleaf).symm
  have hdestination : store.destination world = session := BackupStore.destination_of_running hsession
  -- The copy is in the session.
  have helsewhere : ∀ place, processor.OutsideSession world place →
      (world.files.put spot file.undated).seen place = world.files.seen place := by
    intro place houtside
    have hne : place ≠ spot := by
      rintro rfl
      refine houtside store hstore ?_
      rw [hdestination, hplace]
      exact List.prefix_append _ _
    rw [hspot.seen_put hparts hleaf, if_neg hne]
  exact {
    workingDirectory := rfl
    nameable := fun hnames => (hnames.put hspot hparts hleaf).of_seen (fun _ => rfl) rfl
    directories := fun place => (hsame place).1
    file := fun hthere => by
      obtain ⟨-, rfl⟩ := (World.place_eq_ok_iff h.dots).1 hfile.leads
      rw [hspot.seen_put hparts hleaf, if_neg (Ne.symm hne)]
      exact hthere
    known := fun place houtside hthere => helsewhere place houtside ▸ hthere
    seen := fun place _ houtside => Or.inl (helsewhere place houtside)
    destination := fun store' hstore' => by
      obtain rfl := Option.some.inj (hstore.symm.trans hstore')
      rw [hdestination, BackupStore.destination_of_running rfl]
      refine ⟨rfl, fun listed hne => ?_⟩
      rw [List.mem_append, List.mem_singleton, or_iff_left hne]
    alongside := fun store' hstore' other hother _ => by
      obtain rfl := Option.some.inj (hstore.symm.trans hstore')
      rw [hdestination]
      refine .of_files rfl (fun place => (hsame place).symm) fun count => ?_
      rw [hspot.seen_put hparts hleaf, if_neg]
      rcases BackupStore.upTo_copyPath session (h.parts other hother) (h.name other hother) count with
        ⟨count', hway⟩ | ⟨front, hfront, hbelow⟩
      · rw [hway]
        intro heq
        exact hspot.notDirectory (heq ▸ hthere count')
      · rw [hbelow, hplace, List.append_cancel_left_eq]
        rintro rfl
        exact h.not_prefix_parent hpath hother ((List.prefix_append _ _).trans hfront) }

/-- A text that is written takes the place of the file. -/
theorem touches_written (h : processor.Separate paths world) (hpath : path ∈ paths)
    (hplace : world.Writable path place) (text : Text) :
    processor.Touches paths path (processor.Owns world.workingDirectory path) world
      { world with files := world.files.put place (.file (.text text) none) } := by
  have hparts := h.parts path hpath
  obtain ⟨-, rfl⟩ := (World.place_eq_ok_iff h.dots).1 hplace.leads
  obtain ⟨file, hfile⟩ := h.files path hpath
  have hseen := hplace.seen_put hparts (rfl : (Entry.file (.text text) none).leaf? = _)
  have hsame : ∀ other, (world.files.put (path.spot world.workingDirectory)
      (.file (.text text) none)).IsDirectoryAt other ↔ world.files.IsDirectoryAt other :=
    fun _ => hplace.isDirectoryAt_put_iff hparts rfl
  exact {
    workingDirectory := rfl
    nameable := fun hnames => hnames.put hplace hparts rfl
    directories := fun place => (hsame place).2
    file := fun _ => ⟨_, (hseen _).trans (if_pos rfl)⟩
    known := fun place _ hthere => by
      rw [hseen] at hthere
      split_ifs at hthere with heq
      · exact heq ▸ ⟨file, hfile⟩
      · exact hthere
    seen := fun place hown _ => Or.inl (by rw [hseen, if_neg fun heq => hown (Or.inl heq)])
    destination := fun store _ => ⟨rfl, fun _ _ => Iff.rfl⟩
    alongside := fun store _ other _ _ => by
      refine .of_files rfl hsame fun count => ?_
      rw [hseen]
      split_ifs with heq
      · rw [heq, hfile]
        simp
      · exact Iff.rfl }

/-- A dump that is removed is on the way to no copy. -/
theorem touches_discarded (h : processor.Separate paths world) (hpath : path ∈ paths)
    (hbeside : processor.sidecar path = .ok beside) (hplace : world.Writable beside place)
    (hthere : world.files.seen place ≠ none) :
    processor.Touches paths path (processor.Owns world.workingDirectory path) world
      { world with files := world.files.remove place } := by
  obtain ⟨hparts, hparts'⟩ := parts_of_sidecar hbeside
  obtain ⟨-, hspot⟩ := (World.place_eq_ok_iff h.dots).1 hplace.leads
  have hown : processor.Owns world.workingDirectory path place := Or.inr ⟨beside, hbeside, hspot⟩
  have hseen := hplace.seen_remove hparts'
  have hsame : ∀ other, (world.files.remove place).IsDirectoryAt other ↔
      world.files.IsDirectoryAt other := fun _ => hplace.isDirectoryAt_remove_iff hparts'
  have hkept : ∀ other, (world.files.remove place).seen other ≠ none →
      (world.files.remove place).seen other = world.files.seen other := by
    intro other hother
    rw [hseen] at hother ⊢
    split_ifs at hother ⊢
    · exact absurd rfl hother
    · rfl
  obtain ⟨dump, hdump⟩ : ∃ dump, world.files.seen place = some (some dump) := by
    obtain ⟨shown, hshown⟩ := Option.ne_none_iff_exists'.1 hthere
    cases shown with
    | none => exact absurd hshown hplace.notDirectory
    | some dump => exact ⟨dump, hshown⟩
  exact {
    workingDirectory := rfl
    nameable := fun hnames => ⟨hnames.workingDirectory, fun other hother =>
      hnames.names other (hkept other hother ▸ hother)⟩
    directories := fun place => (hsame place).2
    file := fun hthere => by
      rw [hseen, if_neg]
      · exact hthere
      · obtain ⟨parent, -, hparent⟩ := hplace.exists_parent hparts'
        rw [h.spot_eq hpath, hparent]
        exact fun heq => name_ne_of_sidecar hbeside h.suffix
          (List.singleton_inj.1 (List.append_inj' heq rfl).2)
    known := fun other _ ⟨file, hfile⟩ => ⟨file, (hkept other (by simp [hfile])).symm.trans hfile⟩
    seen := fun other hnot _ => Or.inl (by
      rw [hseen, if_neg]
      rintro rfl
      exact hnot hown)
    destination := fun store _ => ⟨rfl, fun _ _ => Iff.rfl⟩
    alongside := fun store hstore other hother _ => by
      refine .of_files rfl hsame fun count => ?_
      rw [hseen, if_neg]
      rcases BackupStore.upTo_copyPath (store.destination world) (h.parts other hother)
        (h.name other hother) count with ⟨count', hway⟩ | ⟨front, -, hbelow⟩
      · rintro heq
        refine h.way path hpath place hown ⟨store, hstore, count', ?_⟩ dump hdump
        rw [← heq, hway]
      · rintro rfl
        refine h.outside path hpath _ hown store hstore ?_
        rw [hbelow]
        exact List.prefix_append _ _ }

/-- Backing up a file changes no place that is taken by a file. -/
theorem touches_backedUp (h : processor.Separate paths world) (hpath : path ∈ paths)
    (hstore : processor.store = some store) {outcome : Except Fault (Option Path)}
    (hbacked : store.BackedUp path world (outcome, last)) :
    processor.Touches paths path (fun _ => False) world last := by
  have hcurrent : ∀ {session ready}, store.Current world session ready →
      processor.Touches paths path (fun _ => False) world ready ∧ processor.Separate paths ready ∧
        ready.session = some session := by
    intro session ready hcurrent
    have htouches : ∀ {own}, processor.Touches paths path own world ready :=
      h.touches_current hstore hcurrent
    exact ⟨htouches, htouches.separate h hpath, by rw [hcurrent.eq_files]⟩
  cases hbacked with
  | fault begun =>
    cases begun with
    | start => exact .refl world
    | session current => exact (hcurrent current).1
    | directories current made =>
      obtain ⟨htouches, hready, hsession⟩ := hcurrent current
      exact htouches.trans (hready.touches_made hpath hstore hsession made)
  | absent current gone => exact (hcurrent current).1.log _
  | listed current known => exact (hcurrent current).1
  | @copied session ready grown copied current new made hcopied =>
    obtain ⟨htouches, hready, hsession⟩ := hcurrent current
    have hmade : ∀ {own}, processor.Touches paths path own ready grown :=
      hready.touches_made hpath hstore hsession made
    have hgrows := (World.grows_of_makeDirectories made).2
    have hthere : ∀ count, grown.files.IsDirectoryAt
        ((session.directory.upTo count).spot grown.workingDirectory) := by
      intro count
      obtain ⟨count', hcount'⟩ := BackupStore.exists_upTo_copyPath session (hready.parts path hpath)
        (hready.name path hpath) count
      rw [hgrows.workingDirectory]
      exact (World.isDirectoryAt_made_iff hready.dots hready.home made).2
        (Or.inr ⟨count', by rw [hcount']⟩)
    have hlast : processor.Touches paths path (fun _ => False) _ _ :=
      (hmade.separate hready hpath).touches_copied hpath hstore
        (by rw [hgrows.eq_files, hsession]) hthere (hgrows.workingDirectory ▸ hcopied)
    rw [hgrows.workingDirectory] at hlast
    exact (htouches.trans hmade).trans hlast

/-! ### Whole runs -/

variable {start : World}

/-- What touches no more from a world in which the files are apart from each other touches no more
later. -/
theorem touches_trans (h : processor.Separate paths start) (hpath : path ∈ paths)
    (htouches : processor.Touches paths path (processor.Owns start.workingDirectory path) start world)
    (hstep : processor.Separate paths world →
      processor.Touches paths path (processor.Owns world.workingDirectory path) world world') :
    processor.Touches paths path (processor.Owns start.workingDirectory path) start world' := by
  have hlater := hstep (htouches.separate h hpath)
  rw [htouches.workingDirectory] at hlater
  exact htouches.trans hlater

theorem backUp_keeps (h : processor.Separate paths start) (hpath : path ∈ paths) : Run.Keeps
    (processor.Touches paths path (processor.Owns start.workingDirectory path) start)
    (processor.backUp path) := by
  refine fun world hworld => h.touches_trans hpath hworld fun hseparate => ?_
  rcases heq : processor.backUp path world with ⟨outcome, last⟩
  rcases backUp_cases heq with ⟨-, -, rfl⟩ | ⟨store, hstore, hbacked⟩
  · exact .refl _
  · exact (hseparate.touches_backedUp hpath hstore hbacked).mono fun _ hfalse => hfalse.elim

theorem discardSidecar_keeps (h : processor.Separate paths start) (hpath : path ∈ paths) : Run.Keeps
    (processor.Touches paths path (processor.Owns start.workingDirectory path) start)
    (processor.discardSidecar path) := by
  refine Processor.discardSidecar_keeps (fun last log hlast => hlast.log log)
    fun beside world world' hbeside hworld hremoved => h.touches_trans hpath hworld fun hseparate => ?_
  obtain ⟨place, hplace, hthere, rfl⟩ := World.removeFile_eq_ok_iff.1 hremoved
  exact hseparate.touches_discarded hpath hbeside hplace hthere

/-- **What happens while a file is written touches no more,** whether it succeeds or fails. -/
theorem writeFixed_keeps (h : processor.Separate paths start) (hpath : path ∈ paths) (text : Text) :
    Run.Keeps (processor.Touches paths path (processor.Owns start.workingDirectory path) start)
      (processor.writeFixed path text) := by
  rw [writeFixed_eq]
  refine (h.backUp_keeps hpath).bind fun backup => (Run.keeps_change fun world world' hworld heq => ?_).bind
    fun _ => (h.discardSidecar_keeps hpath).bind fun _ => Run.keeps_pure _
  obtain ⟨place, hplace, rfl⟩ := World.writeFile_eq_ok_iff.1 heq
  exact h.touches_trans hpath hworld fun hseparate => hseparate.touches_written hpath hplace text

/-- **Processing a file touches its places and its copy only,** whatever comes of it. -/
theorem touches_processFile (h : processor.Separate paths world) (hpath : path ∈ paths)
    (hparser : processor.hasParser = false) (fix : Bool) :
    processor.Touches paths path (processor.Owns world.workingDirectory path) world
      (processor.processFile path fix none world).2 := by
  have hkeeps : Run.Keeps
      (processor.Touches paths path (processor.Owns world.workingDirectory path) world)
      (processor.processStrictly path fix none) := by
    rw [processStrictly_eq_plan]
    refine Run.Keeps.bind (fun between hbetween => ?_) fun decision => ?_
    · obtain ⟨log, hlog⟩ := plan_world hparser path fix between
      rw [hlog]
      exact hbetween.log log
    · cases decision with
      | inl report => exact Run.keeps_pure report
      | inr state => exact (h.writeFixed_keeps hpath state.text).bind fun _ => Run.keeps_pure _
  obtain ⟨log, hlog⟩ := (processor.processFile_world path fix none world).1
  rw [hlog]
  exact (hkeeps world (.refl world)).log log

end Separate

end Processor
end UsageOrder
