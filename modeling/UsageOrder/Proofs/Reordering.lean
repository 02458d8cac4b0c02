import UsageOrder.Proofs.Batch
import UsageOrder.Proofs.Independence
import UsageOrder.Proofs.Searching

/-!
# The order of the files that a search finds

A search below a directory finds files that are apart from each other: no dump is a source file, and
two dumps beside files of different places have different places
(`Processor.separate_of_find`).  So the files that a search finds may be processed in any order, as
long as their backups are kept outside of the directory (`Processor.processBatch_reordered`).

Outside means more than not below it: if the directory is itself kept in the session, or if the way to
the session leads over a file in it, the order can matter (`Processor.orderMatters_of_backups`).
-/

namespace UsageOrder

/-! ### What is found below a directory -/

namespace SourceFilter

variable {filter : SourceFilter} {path found : Path} {recursive : Bool} {world : World}
  {files : List Path}

/-- **A search finds one file at most, or files below a directory.** -/
theorem find_cases (hworld : world.WellFormed) (h : filter.find path recursive world = .ok files) :
    files.length ≤ 1 ∨ world.Leads path ∧
      ∀ found ∈ files, ∃ place ≠ [], ".." ∉ place ∧ found = path.join ⟨0, place⟩ := by
  obtain ⟨isFile, -, hfound⟩ := bind_eq_ok_iff.1 h
  cases isFile with
  | true =>
    obtain ⟨kept, hkept, hfound⟩ := bind_eq_ok_iff.1 hfound
    obtain ⟨takes, -, hkept⟩ := bind_eq_ok_iff.1 hkept
    obtain rfl := Except.ok.inj hfound
    obtain rfl := Except.ok.inj hkept
    cases takes <;> exact Or.inl (by simp)
  | false =>
    obtain ⟨members, hmembers, hfound⟩ := bind_eq_ok_iff.1 hfound
    obtain ⟨⟨place, entry⟩, hlocate, -⟩ := bind_eq_ok_iff.1 hmembers
    obtain ⟨-, hplace, -⟩ := World.locate_eq_ok_iff.1 hlocate
    obtain ⟨-, -, hfound⟩ := bind_eq_ok_iff.1 hfound
    refine Or.inr ⟨((World.place_eq_ok_iff hworld.dots_not_mem).1 hplace).1, fun found hmem => ?_⟩
    obtain ⟨place, hplace, rfl, -⟩ := exists_place_of_inDirectory hfound hmem
    obtain ⟨hsome, file, hseen⟩ := seen_of_directoryAt hworld hmembers hplace
    refine ⟨place, hsome, fun hdots => ?_, rfl⟩
    exact (hworld.names _ (by rw [hseen]; simp) _ (List.mem_append_right _ hdots)).ne_dots rfl

end SourceFilter

/-- **Backups are kept outside of a place:** the directory of the session in progress, or of the one
that will be opened, is neither at the place nor below it nor above it; and where the way to this
directory leads through the place all the same, it does not lead over a file there. -/
structure BackupStore.KeptOutside (store : BackupStore) (world : World) (place : List String) :
    Prop where
  notBelow : ¬ place <+: (store.destination world).directory.spot world.workingDirectory
  notAbove : ¬ (store.destination world).directory.spot world.workingDirectory <+: place
  way : ∀ count,
    place <+: ((store.destination world).directory.upTo count).spot world.workingDirectory →
      ∀ file, world.files.seen
        (((store.destination world).directory.upTo count).spot world.workingDirectory) ≠ some (some file)

namespace Processor

variable {processor : Processor} {filter : SourceFilter} {path file other : Path}
  {recursive fix : Bool} {world last : World} {found files others : List Path} {suffix : String}
  {place : List String} {reports : List Report}

/-- The places of a file that is found are in its directory, under its name or that of its dump. -/
theorem exists_name_of_owns (hworld : world.WellFormed) (hfile : filter.Finds world file)
    (hsuffix : processor.config.parser.astSuffix = .str suffix)
    (hplace : processor.Owns world.workingDirectory file place) :
    ∃ name, place = file.parent.spot world.workingDirectory ++ [name] ∧
      (name = file.name ∨ name = file.name ++ suffix) := by
  rcases hplace with rfl | ⟨beside, hbeside, rfl⟩
  · exact ⟨file.name, Path.spot_eq_concat hfile.parts hfile.name, Or.inl rfl⟩
  · obtain ⟨other, hother, hname⟩ := sidecar_eq_ok_iff.1 hbeside
    obtain rfl := Json.str.inj (hsuffix.symm.trans hother)
    exact ⟨_, Path.spot_of_withName hname ((hfile.isName hworld).append_ne_dots suffix), Or.inr rfl⟩

/-- **No place is taken by two files that are found:** no source file is a dump. -/
theorem parent_name_of_owns (hworld : world.WellFormed) (hfile : filter.Finds world file)
    (hother : filter.Finds world other) (hsuffix : processor.config.parser.astSuffix = .str suffix)
    (hdumps : filter.astSuffix = .str suffix) (hsome : suffix ≠ "")
    (hplace : processor.Owns world.workingDirectory file place)
    (hplace' : processor.Owns world.workingDirectory other place) :
    file.spot world.workingDirectory = other.spot world.workingDirectory := by
  obtain ⟨name, rfl, hname⟩ := exists_name_of_owns hworld hfile hsuffix hplace
  obtain ⟨name', hsame, hname'⟩ := exists_name_of_owns hworld hother hsuffix hplace'
  obtain ⟨hparent, hnames⟩ := List.append_inj' hsame rfl
  obtain rfl := List.singleton_inj.1 hnames
  rw [Path.spot_eq_concat hfile.parts hfile.name, Path.spot_eq_concat hother.parts hother.name,
    hparent]
  rcases hname with rfl | rfl <;> rcases hname' with hname' | hname'
  · rw [hname']
  · exact absurd hname' (SourceFilter.ne_of_isSource hdumps hsome hfile.isSource)
  · exact absurd hname'.symm (SourceFilter.ne_of_isSource hdumps hsome hother.isSource)
  · rw [(String.append_left_inj suffix).1 hname']

/-- What a file below a directory takes is at or below the place of this directory. -/
theorem exists_below_of_owns {more : List String} (hworld : world.WellFormed) (hmore : more ≠ [])
    (hdots : ".." ∉ more) (hfile : filter.Finds world (path.join ⟨0, more⟩))
    (hsuffix : processor.config.parser.astSuffix = .str suffix)
    (hplace : processor.Owns world.workingDirectory (path.join ⟨0, more⟩) place) :
    ∃ rest ≠ [], place = path.spot world.workingDirectory ++ rest := by
  obtain ⟨name, rfl, -⟩ := exists_name_of_owns hworld hfile hsuffix hplace
  have hparent : (path.join ⟨0, more⟩).parent = path.join ⟨0, more.dropLast⟩ := by
    rw [Path.join, if_pos rfl, Path.parent, Path.join, if_pos rfl]
    simp only [List.dropLast_append_of_ne_nil hmore]
  refine ⟨more.dropLast ++ [name], List.concat_ne_nil _ _, ?_⟩
  rw [hparent, Path.spot_join fun hmem => hdots (List.dropLast_subset _ hmem), List.append_assoc]

/-- **The files that a search finds below a directory are apart from each other,** and from the session
if backups are kept outside of the directory. -/
theorem separate_of_find (hworld : world.WellFormed)
    (hsuffix : processor.config.parser.astSuffix = .str suffix) (hsome : suffix ≠ "")
    (hdumps : filter.astSuffix = .str suffix)
    (hleads : world.Leads path)
    (hfiles : ∀ file ∈ files, filter.Finds world file)
    (hbelow : ∀ file ∈ files, ∃ place ≠ [], ".." ∉ place ∧ file = path.join ⟨0, place⟩)
    (hstore : ∀ store, processor.store = some store →
      store.KeptOutside world (path.spot world.workingDirectory)) :
    processor.Separate files world := by
  have hunder : ∀ file ∈ files, ∀ place, processor.Owns world.workingDirectory file place →
      ∃ rest ≠ [], place = path.spot world.workingDirectory ++ rest := by
    intro file hfile place hplace
    obtain ⟨more, hmore, hdots, rfl⟩ := hbelow file hfile
    exact exists_below_of_owns hworld hmore hdots (hfiles _ hfile) hsuffix hplace
  exact {
    dots := hworld.dots_not_mem
    home := hworld.workingDirectory
    nameable := hworld.nameable
    suffix := fun hempty => hsome (Json.str.inj (hsuffix.symm.trans hempty))
    parts := fun file hfile => (hfiles file hfile).parts
    name := fun file hfile => (hfiles file hfile).name
    names := fun file hfile => by
      obtain ⟨entry, hentry⟩ := (hfiles file hfile).file
      exact hworld.names _ (by rw [hentry]; simp)
    files := fun file hfile => (hfiles file hfile).file
    through := fun file hfile => by
      obtain ⟨entry, hentry⟩ := (hfiles file hfile).file
      obtain ⟨more, -, hdots, rfl⟩ := hbelow file hfile
      rw [Path.spot_join hdots] at hentry
      refine hleads.through_join hdots fun count hcount => ?_
      have hrest : more.drop count ≠ [] := fun hnil =>
        absurd (List.drop_eq_nil_iff.1 hnil) (Nat.not_le.2 hcount)
      refine Entry.isDirectoryAt_of_seen_append ?_ hrest
      rw [List.append_assoc, List.take_append_drop, hentry]
      simp
    disjoint := fun file hfile other hother hne place hplace hplace' => by
      have hspots := parent_name_of_owns hworld (hfiles file hfile) (hfiles other hother) hsuffix hdumps
        hsome hplace hplace'
      obtain ⟨rest, -, hdots, rfl⟩ := hbelow file hfile
      obtain ⟨rest', -, hdots', rfl⟩ := hbelow other hother
      rw [Path.spot_join hdots, Path.spot_join hdots', List.append_cancel_left_eq] at hspots
      exact hne (hspots ▸ rfl)
    outside := fun file hfile place hplace store hsome hstarts => by
      obtain ⟨rest, -, rfl⟩ := hunder file hfile place hplace
      rcases List.prefix_or_prefix_of_prefix hstarts (List.prefix_append _ rest) with hup | hdown
      · exact (hstore store hsome).notAbove hup
      · exact (hstore store hsome).notBelow hdown
    way := fun file hfile place hplace hway old => by
      obtain ⟨rest, -, rfl⟩ := hunder file hfile place hplace
      obtain ⟨store, hsome, count, hcount⟩ := hway
      rw [hcount]
      exact (hstore store hsome).way count (hcount ▸ List.prefix_append _ rest) old }

/-- **The files that a search finds may be processed in any order:** if no fault ends the batch in one
order, none does in any other, each file gets the same verdict, and outside of the session every file
holds the same. -/
theorem processBatch_reordered (hworld : world.WellFormed)
    (hfilter : filter.astSuffix = .str suffix) (hsome : suffix ≠ "")
    (hsuffix : processor.config.parser.astSuffix = filter.astSuffix)
    (hparser : processor.hasParser = false)
    (hfound : filter.find path recursive world = .ok found) (hfiles : files ⊆ found)
    (hnodup : files.Nodup) (hperm : files.Perm others)
    (hstore : ∀ store, processor.store = some store →
      store.KeptOutside world (path.spot world.workingDirectory))
    (hrun : processor.processBatch files fix none world = (.ok reports, last)) :
    ∃ reports' last', processor.processBatch others fix none world = (.ok reports', last') ∧
      reports.map Report.path = files ∧ reports'.map Report.path = others ∧
      (∀ report ∈ reports, ∀ report' ∈ reports', report'.path = report.path →
        report'.verdict = report.verdict) ∧
      ∀ place, processor.OutsideSession world place →
        last'.files.contentAt place = last.files.contentAt place := by
  have hpaths := processBatch_paths hrun
  -- A report is known by its path.
  have hone : ∀ report ∈ reports, ∀ other ∈ reports, other.path = report.path → other = report :=
    fun report hreport other hother => List.inj_on_of_nodup_map (hpaths ▸ hnodup) hother hreport
  rcases SourceFilter.find_cases hworld hfound with hshort | ⟨hleads, hbelow⟩
  · have hsame : others = files := by
      have hlength := Nat.le_trans (List.subperm_of_subset hnodup hfiles).length_le hshort
      rcases Nat.le_one_iff_eq_zero_or_eq_one.1 hlength with hnone | hsingle
      · rw [List.length_eq_zero_iff.1 hnone] at hperm ⊢
        exact hperm.nil_eq.symm
      · obtain ⟨file, rfl⟩ := List.length_eq_one_iff.1 hsingle
        exact List.perm_singleton.1 hperm.symm
    rw [hsame]
    exact ⟨reports, last, hrun, hpaths, hpaths, fun report hreport report' hreport' heq =>
      congrArg Report.verdict (hone report hreport report' hreport' heq), fun _ _ => rfl⟩
  · have hseparate := separate_of_find hworld (hsuffix.trans hfilter) hsome hfilter hleads
      (fun file hfile => SourceFilter.finds_of_mem hworld hfound (hfiles hfile))
      (fun file hfile => hbelow file (hfiles hfile)) hstore
    obtain ⟨reports', last', hrun', hverdicts, hcontents⟩ :=
      hseparate.processBatch_perm hparser hnodup hperm hrun
    refine ⟨reports', last', hrun', hpaths, processBatch_paths hrun',
      fun report hreport report' hreport' heq => ?_, hcontents⟩
    obtain ⟨other, hother, hverdict⟩ :=
      List.mem_map.1 (hverdicts.mem_iff.1 (List.mem_map_of_mem hreport'))
    have hpath : other.path = report'.path := congrArg Prod.fst hverdict
    rw [← hverdict, hone report hreport other hother (hpath.trans heq)]

/-! ### Two files, one of which has no dump -/

section
set_option maxRecDepth 2000

/-- The settings of `textual` with a store beside the directory of the files. -/
def storingAside : Processor where
  config := textual.config
  strategy := textual.strategy
  store := some ⟨⟨1, [".backups"]⟩, .bool false, .int 10⟩

/-- The session in this store. -/
def sessionAside (files : List String) : Session :=
  { openSession with directory := ⟨1, [".backups", "fix_login"]⟩, files }

/-- A directory with the file with the button last and another one, and the directory of the session. -/
def sourcesWorld (sources copies : List (String × Entry)) (files : List String)
    (log : List LogRecord) : World :=
  { sessionWorld with
    files := .directory [("src", .directory sources none), (".backups", .directory
      [("fix_login", .directory copies none)] none)] none
    workingDirectory := ["src"]
    session := some (sessionAside files)
    log }

/-- The files before they are processed. -/
def unsortedSources : List (String × Entry) :=
  [("App.tsx", .file (.text buttonLastApp.text) none),
    ("App.tsx.estree.json", .file (.text (program buttonLastApp.body).compact.toList) none),
    ("Card.tsx", .file (.text []) none)]

/-- The files after they have been processed. -/
def sortedSources : List (String × Entry) :=
  [("App.tsx", .file (.text titleLastApp.text) none), ("Card.tsx", .file (.text []) none)]

/-- The directories that the copy of the first file is in. -/
def copiedSources : List (String × Entry) :=
  [("src", .directory [("App.tsx", .file (.text buttonLastApp.text) none)] none)]

/-- The filter of source files. -/
def tsxFilter : SourceFilter := ⟨[".tsx".toList], .str ".estree.json"⟩

theorem writeFixed_sourcesWorld (log : List LogRecord) : ∃ backup log',
    storingAside.writeFixed appPath titleLastApp.text (sourcesWorld unsortedSources [] [] log) =
      (.ok backup, sourcesWorld sortedSources copiedSources ["/src/App.tsx"] log') := by
  have hmade : (sourcesWorld unsortedSources [] [] log).makeDirectories
      ⟨1, [".backups", "fix_login", "src"]⟩ =
        .ok (sourcesWorld unsortedSources [("src", .directory [] none)] [] log) := rfl
  have hcopied : (sourcesWorld unsortedSources [("src", .directory [] none)] [] log).copyFile appPath
      ⟨1, [".backups", "fix_login", "src", "App.tsx"]⟩ =
        .ok (sourcesWorld unsortedSources copiedSources [] log) := rfl
  have hsession : (sourcesWorld unsortedSources [] [] log).session = some (sessionAside []) := rfl
  have hthere : (sourcesWorld unsortedSources [] [] log).pathExists appPath = .ok true := rfl
  have hbackup := BackupStore.backupFile_of_copied ⟨⟨1, [".backups"]⟩, .bool false, .int 10⟩ hsession
    hthere rfl List.not_mem_nil hmade hcopied
  exact ⟨_, _, writeFixed_of_backUp hbackup rfl⟩

/-- The first file is fixed, the second one is reported for the dump that is missing. -/
theorem processBatch_sourcesWorld : ∃ reports log,
    storingAside.processBatch [appPath, cardPath] true none (sourcesWorld unsortedSources [] [] []) =
      (.ok reports, sourcesWorld sortedSources copiedSources ["/src/App.tsx"] log) ∧
      reports.map Report.status = [.fixed, .error] := by
  obtain ⟨log, hleaves⟩ := @leaves_beside textual.config (sourcesWorld unsortedSources [] [] []) rfl rfl
    rfl storingAside.store appPath _ rfl _ _ (.of_seen rfl rfl rfl) (.of_seen rfl rfl rfl)
  obtain ⟨backup, log', hwrite⟩ := writeFixed_sourcesWorld log
  have hsecond : storingAside.processStrictly cardPath true none
      (sourcesWorld sortedSources copiedSources ["/src/App.tsx"] log') =
        (.error (.tree (.missing "Card.tsx" "Card.tsx.estree.json")),
          sourcesWorld sortedSources copiedSources ["/src/App.tsx"] log') := rfl
  exact ⟨_, _, processBatch_pair (hleaves.processFile_fixed rfl hwrite)
    (processFile_failed hsecond rfl), rfl⟩

/-- Among these names those of source files are not those of dumps. -/
theorem isSource_tsxFilter : ∀ name ∈ ["App.tsx", "Card.tsx", "App.tsx.estree.json",
    "Card.tsx.estree.json"], tsxFilter.isSource name =
      .ok (decide (name ∈ ["App.tsx", "Card.tsx"])) :=
  List.forall_mem_cons.2 ⟨by cbv, List.forall_mem_cons.2 ⟨by cbv, List.forall_mem_cons.2 ⟨by cbv,
    List.forall_mem_singleton.2 (by cbv)⟩⟩⟩

/-- The source files in a directory are found if all that is listed there can be looked for. -/
theorem find_tsxFilter {world : World} {members : List (String × Entry)} {places : List (List String)}
    (hmembers : world.directoryAt path = .ok members)
    (hlook : SourceFilter.lookBelow path recursive members world = .ok ())
    (hplaces : Entry.filesOfMembers (SourceFilter.enters recursive) members [] = places)
    (hnames : ∀ place ∈ places, (path.join ⟨0, place⟩).name ∈ ["App.tsx", "Card.tsx",
      "App.tsx.estree.json", "Card.tsx.estree.json"])
    (hfound : ((places.map fun place => path.join ⟨0, place⟩).filter
      fun file => decide (file.name ∈ ["App.tsx", "Card.tsx"])).mergeSort Path.le = found) :
    tsxFilter.find path recursive world = .ok found := by
  have hselect : tsxFilter.select (places.map fun place => path.join ⟨0, place⟩) =
      .ok ((places.map fun place => path.join ⟨0, place⟩).filter
        fun file => decide (file.name ∈ ["App.tsx", "Card.tsx"])) := by
    refine SourceFilter.filterM_eq_ok fun file hfile => ?_
    obtain ⟨place, hplace, rfl⟩ := List.mem_map.1 hfile
    exact isSource_tsxFilter _ (hnames place hplace)
  have hbelow : tsxFilter.inDirectory path recursive members = .ok found := by
    rw [SourceFilter.inDirectory, hplaces]
    exact bind_eq_ok_iff.2 ⟨_, hselect, congrArg Except.ok hfound⟩
  exact bind_eq_ok_iff.2 ⟨false, SourceFilter.isFile_of_directoryAt hmembers, bind_eq_ok_iff.2
    ⟨members, hmembers, bind_eq_ok_iff.2 ⟨(), hlook, hbelow⟩⟩⟩

/-- Both files are found, and the dump is not. -/
theorem find_sourcesWorld : tsxFilter.find ⟨0, []⟩ false (sourcesWorld unsortedSources [] [] []) =
    .ok [appPath, cardPath] := by
  have hmembers : (sourcesWorld unsortedSources [] [] []).directoryAt ⟨0, []⟩ = .ok unsortedSources := rfl
  have hlook : SourceFilter.lookBelow ⟨0, []⟩ false unsortedSources
      (sourcesWorld unsortedSources [] [] []) = .ok () := rfl
  have hplaces : Entry.filesOfMembers (SourceFilter.enters false) unsortedSources [] =
      [["App.tsx"], ["App.tsx.estree.json"], ["Card.tsx"]] := rfl
  exact find_tsxFilter hmembers hlook hplaces (by decide) (by cbv)

theorem wellFormed_sourcesWorld : (sourcesWorld unsortedSources [] [] []).WellFormed := by
  have hsources : (Entry.directory unsortedSources none).Tidy :=
    Entry.tidy_files (by decide) (by decide) (by decide)
  have hsessions : (Entry.directory [("fix_login", .directory [] none)] none).Tidy :=
    Entry.tidy_singleton (by decide) Entry.tidy_empty
  exact .of_tidy rfl (Entry.tidy_directory (by decide) (List.forall_mem_cons.2
    ⟨⟨by decide, hsources⟩, List.forall_mem_singleton.2 ⟨by decide, hsessions⟩⟩))

/-- The directory of the session is not on the way of the files, nor are they on its way. -/
theorem keptOutside_sourcesWorld : BackupStore.KeptOutside ⟨⟨1, [".backups"]⟩, .bool false, .int 10⟩
    (sourcesWorld unsortedSources [] [] []) ["src"] := by
  have hspot : ∀ parts : List String, parts <+: [".backups", "fix_login"] →
      (⟨1, parts⟩ : Path).spot ["src"] = parts := fun parts hparts =>
    Path.spot_root fun hmem => absurd (hparts.subset hmem) (by decide)
  have hnot : ∀ parts : List String, parts <+: [".backups", "fix_login"] →
      ¬ ["src"] <+: (⟨1, parts⟩ : Path).spot ["src"] := by
    intro parts hparts hstarts
    rw [hspot parts hparts] at hstarts
    exact absurd (List.cons_prefix_cons.1 (hstarts.trans hparts)).1 (by decide)
  refine ⟨hnot _ (List.prefix_refl _), ?_, fun count hcount =>
    absurd hcount (hnot _ (List.take_prefix count _))⟩
  change ¬ (⟨1, [".backups", "fix_login"]⟩ : Path).spot ["src"] <+: ["src"]
  rw [hspot _ (List.prefix_refl _)]
  decide

/-- **The second file may come first:** each of the two has the same outcome, and the directory holds the
same. -/
theorem processBatch_reordered_pair : ∃ found reports reports' last last',
    (sourcesWorld unsortedSources [] [] []).WellFormed ∧
      tsxFilter.find ⟨0, []⟩ false (sourcesWorld unsortedSources [] [] []) = .ok found ∧
      [appPath, cardPath] ⊆ found ∧ [appPath, cardPath].Perm [cardPath, appPath] ∧
      (∀ store, storingAside.store = some store →
        store.KeptOutside (sourcesWorld unsortedSources [] [] []) ["src"]) ∧
      storingAside.processBatch [appPath, cardPath] true none (sourcesWorld unsortedSources [] [] []) =
        (.ok reports, last) ∧ reports.map Report.status = [.fixed, .error] ∧
      storingAside.processBatch [cardPath, appPath] true none (sourcesWorld unsortedSources [] [] []) =
        (.ok reports', last') ∧ reports'.map Report.status = [.error, .fixed] ∧
      ∀ place, storingAside.OutsideSession (sourcesWorld unsortedSources [] [] []) place →
        last'.files.contentAt place = last.files.contentAt place := by
  obtain ⟨reports, log, hrun, hstatus⟩ := processBatch_sourcesWorld
  have hworld := wellFormed_sourcesWorld
  have hfound := find_sourcesWorld
  have hstore : ∀ store, storingAside.store = some store →
      store.KeptOutside (sourcesWorld unsortedSources [] [] []) ["src"] :=
    fun _ hsome => Option.some.inj hsome ▸ keptOutside_sourcesWorld
  have hnodup : [appPath, cardPath].Nodup := by decide
  obtain ⟨reports', last', hrun', hpaths, hpaths', hverdicts, hcontents⟩ :=
    processBatch_reordered hworld (rfl : tsxFilter.astSuffix = .str ".estree.json") (by decide) rfl rfl
      hfound (List.Subset.refl _) hnodup (List.Perm.swap cardPath appPath []) hstore hrun
  refine ⟨_, reports, reports', _, last', hworld, hfound, List.Subset.refl _, List.Perm.swap _ _ [],
    hstore, hrun, hstatus, hrun', ?_, hcontents⟩
  obtain ⟨app, card, rfl⟩ : ∃ app card, reports = [app, card] :=
    List.length_eq_two.1 (by simpa using congrArg List.length hpaths)
  obtain ⟨card', app', rfl⟩ : ∃ card' app', reports' = [card', app'] :=
    List.length_eq_two.1 (by simpa using congrArg List.length hpaths')
  simp only [List.map_cons, List.map_nil, List.cons.injEq, and_true] at hpaths hpaths' hstatus ⊢
  have happ := hverdicts app (by simp) app' (by simp) (hpaths'.2.trans hpaths.1.symm)
  have hcard := hverdicts card (by simp) card' (by simp) (hpaths'.1.trans hpaths.2.symm)
  exact ⟨(congrArg (fun verdict => verdict.2.1) hcard).trans hstatus.2,
    (congrArg (fun verdict => verdict.2.1) happ).trans hstatus.1⟩

/-! ### Backups that are not kept outside of the directory -/

/-- **The order matters:** a search finds two files, the directory of the store is neither at the place
that is searched nor below it, nor is that of the session, and the second file has another status when
it comes first. -/
structure OrderMatters (processor : Processor) (filter : SourceFilter) (path : Path) (recursive : Bool)
    (world : World) (first second : Path) : Prop where
  wellFormed : world.WellFormed
  found : filter.find path recursive world = .ok [first, second]
  suffix : processor.config.parser.astSuffix = filter.astSuffix ∧
    filter.astSuffix = .str ".estree.json"
  noParser : processor.hasParser = false
  stored : ∃ store, processor.store = some store ∧
    ¬ path.spot world.workingDirectory <+: store.directory.spot world.workingDirectory ∧
    ¬ path.spot world.workingDirectory <+:
      (store.destination world).directory.spot world.workingDirectory
  runs : ∃ reports reports' last last',
    processor.processBatch [first, second] true none world = (.ok reports, last) ∧
    processor.processBatch [second, first] true none world = (.ok reports', last') ∧
    ∃ status status', reports.map (fun report => (report.path, report.status)) =
        [(first, .fixed), (second, status)] ∧
      reports'.map (fun report => (report.path, report.status)) =
        [(second, status'), (first, .fixed)] ∧ status ≠ status'

/-- The settings of `textual` with a store above the directory of the files. -/
def storingAbove : Processor :=
  { textual with store := some ⟨⟨1, ["backups"]⟩, .bool false, .int 10⟩ }

/-- A directory that is in the one of the session, and in it the place of a copy of its file. -/
def insideWorld (sources inner : List (String × Entry)) (files : List String) (log : List LogRecord) :
    World :=
  { sessionWorld with
    files := .directory [("backups", .directory [("fix_login", .directory [("backups", .directory
      (sources ++ [("fix_login", .directory [("backups", .directory inner none)] none)])
        none)] none)] none)] none
    workingDirectory := ["backups", "fix_login", "backups"]
    session := some { openSession with directory := ⟨1, ["backups", "fix_login"]⟩, files }
    log }

/-- The path of the file at the place of the copy. -/
def innerPath : Path := ⟨0, ["fix_login", "backups", "App.tsx"]⟩

/-- A statement that is longer than the file with the button last. -/
def longStatement : Json := .obj [("type", .str "EmptyStatement"), ("range", .arr [.int 0, .int 120])]

/-- The file with the button last, and the dump of its tree. -/
def unsortedApp : List (String × Entry) :=
  [("App.tsx", .file (.text buttonLastApp.text) none),
    ("App.tsx.estree.json", .file (.text (program buttonLastApp.body).compact.toList) none)]

/-- A file with a text, and the dump of the long statement beside it. -/
def innerSources (text : Text) : List (String × Entry) :=
  [("App.tsx", .file (.text text) none),
    ("App.tsx.estree.json", .file (.text (program [longStatement]).compact.toList) none)]

/-- The text of the long statement. -/
def longText : Text := List.replicate 120 ';'

theorem copyFile_insideWorld (log : List LogRecord) :
    (insideWorld unsortedApp (innerSources longText) [] log).copyFile appPath
        ⟨1, ["backups", "fix_login", "backups", "fix_login", "backups", "App.tsx"]⟩ =
      .ok (insideWorld unsortedApp (innerSources buttonLastApp.text) [] log) := by
  have hfile : (insideWorld unsortedApp (innerSources longText) [] log).HasFile appPath
      ["backups", "fix_login", "backups", "App.tsx"] (.file (.text buttonLastApp.text) none) :=
    .of_seen rfl rfl rfl
  have htarget : (insideWorld unsortedApp (innerSources longText) [] log).HasFile
      ⟨1, ["backups", "fix_login", "backups", "fix_login", "backups", "App.tsx"]⟩
      ["backups", "fix_login", "backups", "fix_login", "backups", "App.tsx"]
      (.file (.text longText) none) := .of_seen rfl rfl rfl
  exact World.copyFile_eq_ok_iff.2 ⟨_, _, _, hfile, htarget.toWritable, by decide, rfl⟩

/-- The outer file is fixed, and its copy takes the place of the inner file. -/
theorem processFile_insideWorld (log : List LogRecord) : ∃ backup log',
    storingAbove.processFile appPath true none (insideWorld unsortedApp (innerSources longText) [] log) =
      (.ok (fixReport appPath ⟨titleLastApp.text, [], 1⟩ backup),
        insideWorld [("App.tsx", .file (.text titleLastApp.text) none)]
          (innerSources buttonLastApp.text) ["/backups/fix_login/backups/App.tsx"] log') := by
  obtain ⟨left, hleaves⟩ := @leaves_beside textual.config
    (insideWorld unsortedApp (innerSources longText) [] log) rfl rfl rfl storingAbove.store appPath _ rfl
    _ _ (.of_seen rfl rfl rfl) (.of_seen rfl rfl rfl)
  let world : World := insideWorld unsortedApp (innerSources longText) [] left
  have hsession : world.session =
    some { openSession with directory := ⟨1, ["backups", "fix_login"]⟩ } := rfl
  have hthere : world.pathExists appPath = .ok true := rfl
  have hmade : world.makeDirectories
      ⟨1, ["backups", "fix_login", "backups", "fix_login", "backups"]⟩ = .ok world := rfl
  have hbackup := BackupStore.backupFile_of_copied ⟨⟨1, ["backups"]⟩, .bool false, .int 10⟩ hsession
    hthere rfl List.not_mem_nil hmade (copyFile_insideWorld left)
  exact ⟨_, _, hleaves.processFile_fixed rfl (writeFixed_of_backUp hbackup rfl)⟩

/-- The inner file is clean, and it is not any more when the copy of the outer one has taken its place. -/
theorem processFile_innerPath (files : List String) (log : List LogRecord) :
    storingAbove.processFile innerPath true none (insideWorld unsortedApp (innerSources longText) [] log) =
        (.ok { path := innerPath, status := .clean },
          insideWorld unsortedApp (innerSources longText) [] log) ∧
      ∃ message last, storingAbove.processFile innerPath true none
        (insideWorld [("App.tsx", .file (.text titleLastApp.text) none)]
          (innerSources buttonLastApp.text) files log) = (.ok (Report.failed innerPath message), last) := by
  have hplain : (program [longStatement]).isPlain = true := rfl
  have hbeside : storingAbove.sidecar innerPath =
      .ok ⟨0, ["fix_login", "backups", "App.tsx.estree.json"]⟩ := rfl
  have hdump := congrArg (Except.ok (ε := Fault)) (Json.unifyLineEnds_compact hplain)
  constructor
  · have htext : (insideWorld unsortedApp (innerSources longText) [] log).readText innerPath =
        .ok longText := congrArg Except.ok (Text.unifyLineEnds_eq_self (by decide))
    have hverify : Source.verify ⟨some innerPath, longText, [longStatement]⟩ = .ok () := by cbv
    exact processFile_done (processStrictly_clean htext hbeside rfl hdump hplain hverify rfl true)
  · have htext : (insideWorld [("App.tsx", .file (.text titleLastApp.text) none)]
        (innerSources buttonLastApp.text) files log).readText innerPath = .ok buttonLastApp.text :=
      congrArg Except.ok unifyLineEnds_buttonLast
    exact ⟨_, _, processFile_failed
      (processStrictly_unverified htext hbeside rfl hdump hplain rfl true) rfl⟩

theorem wellFormed_insideWorld : (insideWorld unsortedApp (innerSources longText) [] []).WellFormed := by
  have hinner : (Entry.directory (innerSources longText) none).Tidy :=
    Entry.tidy_files (by decide) (by decide) (by decide)
  have houter : (Entry.directory (unsortedApp ++ [("fix_login", .directory [("backups",
      .directory (innerSources longText) none)] none)]) none).Tidy :=
    Entry.tidy_directory (by decide) (List.forall_mem_cons.2 ⟨⟨by decide, Entry.tidy_leaf rfl⟩,
      List.forall_mem_cons.2 ⟨⟨by decide, Entry.tidy_leaf rfl⟩,
        List.forall_mem_singleton.2 ⟨by decide, Entry.tidy_singleton (by decide) hinner⟩⟩⟩)
  exact .of_tidy rfl (Entry.tidy_singleton (by decide) (Entry.tidy_singleton (by decide)
    (Entry.tidy_singleton (by decide) houter)))

theorem find_insideWorld :
    tsxFilter.find ⟨0, []⟩ true (insideWorld unsortedApp (innerSources longText) [] []) =
      .ok [appPath, innerPath] := by
  let members : List (String × Entry) := unsortedApp ++ [("fix_login", .directory [("backups",
    .directory (innerSources longText) none)] none)]
  have hmembers : (insideWorld unsortedApp (innerSources longText) [] []).directoryAt ⟨0, []⟩ =
    .ok members := rfl
  have hlook : SourceFilter.lookBelow ⟨0, []⟩ true members
      (insideWorld unsortedApp (innerSources longText) [] []) = .ok () := rfl
  have hplaces : Entry.filesOfMembers (SourceFilter.enters true) members [] =
      [["App.tsx"], ["App.tsx.estree.json"], ["fix_login", "backups", "App.tsx"],
        ["fix_login", "backups", "App.tsx.estree.json"]] := rfl
  exact find_tsxFilter hmembers hlook hplaces (by decide) (by cbv)

/-- A store to which the way leads over the dump of the first file. -/
def throughStore : BackupStore :=
  ⟨⟨0, ["App.tsx.estree.json", "..", "..", ".backups"]⟩, .bool false, .int 10⟩

/-- The settings of `textual` with this store. -/
def storingThrough : Processor := { textual with store := some throughStore }

/-- The session in this store, which has a copy of the first file. -/
def throughSession : Session where
  id := "fix_login"
  timestamp := ""
  directory := ⟨0, ["App.tsx.estree.json", "..", "..", ".backups", "fix_login"]⟩
  files := ["/src/App.tsx"]

/-- A directory of source files, and the directory of the session. -/
def throughWorld (sources copies : List (String × Entry)) (log : List LogRecord) : World :=
  { sourcesWorld sources [("src", .directory copies none)] [] log with session := some throughSession }

/-- Another file with the button last, and the dump of its tree. -/
def unsortedCard : List (String × Entry) :=
  [("Card.tsx", .file (.text buttonLastApp.text) none),
    ("Card.tsx.estree.json", .file (.text (program buttonLastApp.body).compact.toList) none)]

/-- The copy of the first file. -/
def copiedApp : List (String × Entry) := [("App.tsx", .file (.text buttonLastApp.text) none)]

/-- The sources when the first file has been fixed. -/
def fixedFirst : List (String × Entry) :=
  ("App.tsx", .file (.text titleLastApp.text) none) :: unsortedCard

/-- The first file is fixed without another copy, and its dump is removed. -/
theorem processFile_throughWorld (log : List LogRecord) : ∃ backup log',
    storingThrough.processFile appPath true none
        (throughWorld (unsortedApp ++ unsortedCard) copiedApp log) =
      (.ok (fixReport appPath ⟨titleLastApp.text, [], 1⟩ backup),
        throughWorld fixedFirst copiedApp log') := by
  obtain ⟨left, hleaves⟩ := @leaves_beside textual.config
    (throughWorld (unsortedApp ++ unsortedCard) copiedApp log) rfl rfl rfl (some throughStore) appPath _
    rfl _ _ (.of_seen rfl rfl rfl) (.of_seen rfl rfl rfl)
  let world : World := throughWorld (unsortedApp ++ unsortedCard) copiedApp left
  have hsession : world.session = some throughSession := rfl
  have hlisted : (appPath.resolve world.workingDirectory).toText ∈ throughSession.files :=
    List.mem_singleton.2 rfl
  have hbackup := throughStore.backupFile_of_listed hsession rfl rfl hlisted
  exact ⟨_, _, hleaves.processFile_fixed rfl (writeFixed_of_backUp hbackup rfl)⟩

theorem not_mem_throughSession : (cardPath.resolve ["src"]).toText ∉ throughSession.files := by decide

/-- The second file is fixed when the dump of the first one does not bar the way any more. -/
theorem processFile_freed (log : List LogRecord) : ∃ backup last,
    storingThrough.processFile cardPath true none (throughWorld fixedFirst copiedApp log) =
      (.ok (fixReport cardPath ⟨titleLastApp.text, [], 1⟩ backup), last) := by
  obtain ⟨left, hleaves⟩ := @leaves_beside textual.config (throughWorld fixedFirst copiedApp log) rfl rfl
    rfl (some throughStore) cardPath _ rfl _ _ (.of_seen rfl rfl rfl) (.of_seen rfl rfl rfl)
  let sources : List (String × Entry) := fixedFirst ++ [("App.tsx.estree.json", .directory [] none)]
  let world : World := throughWorld fixedFirst copiedApp left
  let grown : World := throughWorld sources copiedApp left
  have hsession : world.session = some throughSession := rfl
  have hthere : world.pathExists cardPath = .ok true := rfl
  have hmade : world.makeDirectories
      ⟨0, ["App.tsx.estree.json", "..", "..", ".backups", "fix_login", "src"]⟩ = .ok grown := rfl
  have hfile : grown.HasFile cardPath ["src", "Card.tsx"] (.file (.text buttonLastApp.text) none) :=
    .of_seen rfl rfl rfl
  have htarget : grown.Writable
      ⟨0, ["App.tsx.estree.json", "..", "..", ".backups", "fix_login", "src", "Card.tsx"]⟩
      [".backups", "fix_login", "src", "Card.tsx"] :=
    .of_unseen rfl rfl rfl
  have hcopied : grown.copyFile cardPath
      ⟨0, ["App.tsx.estree.json", "..", "..", ".backups", "fix_login", "src", "Card.tsx"]⟩ =
        .ok (throughWorld sources
          (copiedApp ++ [("Card.tsx", .file (.text buttonLastApp.text) none)]) left) :=
    World.copyFile_eq_ok_iff.2 ⟨_, _, _, hfile, htarget, by decide, rfl⟩
  have hbackup := throughStore.backupFile_of_copied hsession hthere rfl not_mem_throughSession hmade
    hcopied
  exact ⟨_, _, hleaves.processFile_fixed rfl (writeFixed_of_backUp hbackup rfl)⟩

/-- The second file is not fixed when the dump of the first one bars the way. -/
theorem processFile_barred (log : List LogRecord) : ∃ message log',
    storingThrough.processFile cardPath true none
        (throughWorld (unsortedApp ++ unsortedCard) copiedApp log) =
      (.ok (Report.failed cardPath message),
        throughWorld (unsortedApp ++ unsortedCard) copiedApp log') := by
  obtain ⟨left, hleaves⟩ := @leaves_beside textual.config
    (throughWorld (unsortedApp ++ unsortedCard) copiedApp log) rfl rfl rfl (some throughStore) cardPath _
    rfl _ _ (.of_seen rfl rfl rfl) (.of_seen rfl rfl rfl)
  let target : Path := ⟨0, ["App.tsx.estree.json", "..", "..", ".backups", "fix_login", "src"]⟩
  let world : World := throughWorld (unsortedApp ++ unsortedCard) copiedApp left
  have hsession : world.session = some throughSession := rfl
  have hthere : world.pathExists cardPath = .ok true := rfl
  have hbarred : world.makeDirectories target = .error (.file .notADirectory target.toText) := rfl
  have hbackup := throughStore.backupFile_of_barred hsession hthere rfl not_mem_throughSession hbarred
  have hwrite : storingThrough.writeFixed cardPath titleLastApp.text world =
      (.error (.file .notADirectory target.toText), world) := by
    rw [writeFixed_eq]
    exact Run.bind_error hbackup _
  exact ⟨_, _, hleaves.processFile_refused rfl hwrite rfl⟩

theorem wellFormed_throughWorld :
    (throughWorld (unsortedApp ++ unsortedCard) copiedApp []).WellFormed := by
  have hsources : (Entry.directory (unsortedApp ++ unsortedCard) none).Tidy :=
    Entry.tidy_files (by decide) (by decide) (by decide)
  have hsessions : (Entry.directory [("fix_login", .directory [("src",
      .directory copiedApp none)] none)] none).Tidy :=
    Entry.tidy_singleton (by decide) (Entry.tidy_singleton (by decide)
      (Entry.tidy_singleton (by decide) (Entry.tidy_leaf rfl)))
  exact .of_tidy rfl (Entry.tidy_directory (by decide) (List.forall_mem_cons.2
    ⟨⟨by decide, hsources⟩, List.forall_mem_singleton.2 ⟨by decide, hsessions⟩⟩))

theorem find_throughWorld :
    tsxFilter.find ⟨0, []⟩ false (throughWorld (unsortedApp ++ unsortedCard) copiedApp []) =
      .ok [appPath, cardPath] := by
  have hmembers : (throughWorld (unsortedApp ++ unsortedCard) copiedApp []).directoryAt ⟨0, []⟩ =
    .ok (unsortedApp ++ unsortedCard) := rfl
  have hlook : SourceFilter.lookBelow ⟨0, []⟩ false (unsortedApp ++ unsortedCard)
      (throughWorld (unsortedApp ++ unsortedCard) copiedApp []) = .ok () := rfl
  have hplaces : Entry.filesOfMembers (SourceFilter.enters false) (unsortedApp ++ unsortedCard) [] =
      [["App.tsx"], ["App.tsx.estree.json"], ["Card.tsx"], ["Card.tsx.estree.json"]] := rfl
  exact find_tsxFilter hmembers hlook hplaces (by decide) (by cbv)

/-- **A session above the directory that is searched, or a way to it over a file there, is enough for the
order to matter.**  A copy may take the place of another file that is found, and a dump that is removed
may have barred the way. -/
theorem orderMatters_of_backups :
    OrderMatters storingAbove tsxFilter ⟨0, []⟩ true (insideWorld unsortedApp (innerSources longText) [] [])
        appPath innerPath ∧
      OrderMatters storingThrough tsxFilter ⟨0, []⟩ false
        (throughWorld (unsortedApp ++ unsortedCard) copiedApp []) appPath cardPath := by
  constructor
  · obtain ⟨backup, log, hfirst⟩ := processFile_insideWorld []
    obtain ⟨-, message, last, hsecond⟩ :=
      processFile_innerPath ["/backups/fix_login/backups/App.tsx"] log
    exact {
      wellFormed := wellFormed_insideWorld
      found := find_insideWorld
      suffix := ⟨rfl, rfl⟩
      noParser := rfl
      stored := ⟨_, rfl, by decide, by decide⟩
      runs := ⟨_, _, _, _, processBatch_pair hfirst hsecond,
        processBatch_pair (processFile_innerPath [] []).1 hfirst, .error, .clean, rfl, rfl, by decide⟩ }
  · obtain ⟨backup, log, hfirst⟩ := processFile_throughWorld []
    obtain ⟨backup', last, hsecond⟩ := processFile_freed log
    obtain ⟨message, log', hbarred⟩ := processFile_barred []
    obtain ⟨backup'', log'', hlast⟩ := processFile_throughWorld log'
    exact {
      wellFormed := wellFormed_throughWorld
      found := find_throughWorld
      suffix := ⟨rfl, rfl⟩
      noParser := rfl
      stored := ⟨_, rfl, by decide, by decide⟩
      runs := ⟨_, _, _, _, processBatch_pair hfirst hsecond, processBatch_pair hbarred hlast, .fixed,
        .error, rfl, rfl, by decide⟩ }

end

end Processor
end UsageOrder
