import UsageOrder.Config.Validation
import UsageOrder.Proofs.FixLoop
import UsageOrder.Proofs.Writing

/-!
# Files that are not reported as fixed

Processing a file that does not come to writing its result leaves every file as it was, whatever the
parser does and wherever it fails (`Processor.processStrictly_ends`).  Once it comes to writing, a
fault of the file system apart, only two things can fail: the backup, which has changed no file then,
and forming the path of the dump beside the file, when the file is written already
(`Processor.writeFixed_fault`).

So a file that is not reported as fixed is as it was (`Processor.processFile_untouched`), unless its
tree comes from a dump that is named and the suffix of dumps makes no path beside it
(`Processor.processFile_written_unreported`).
-/

namespace UsageOrder

/-! ### Names without a null character -/

/-- What a path leads to has the names of where it starts and of its parts. -/
theorem Entry.mem_of_follow {top : Entry} {start parts place : List String} {name : String}
    (h : top.follow start parts = .ok place) (hname : name ∈ place) : name ∈ start ∨ name ∈ parts := by
  induction parts generalizing start with
  | nil => exact Or.inl (Except.ok.inj h ▸ hname)
  | cons part parts ih =>
    obtain ⟨-, -, hrest⟩ := follow_cons_iff.1 h
    rcases ih hrest with hstart | hparts
    · split_ifs at hstart
      · exact Or.inl (List.dropLast_subset _ hstart)
      · rcases List.mem_append.1 hstart with hstart | hpart
        · exact Or.inl hstart
        · exact Or.inr (List.mem_singleton.1 hpart ▸ List.mem_cons_self ..)
    · exact Or.inr (List.mem_cons_of_mem _ hparts)

namespace World

/-- No name in a world has a null character, as on every disk. -/
structure Nameable (world : World) : Prop where
  workingDirectory : ∀ name ∈ world.workingDirectory, '\x00' ∉ name.toList
  names : ∀ place, world.files.seen place ≠ none → ∀ name ∈ place, '\x00' ∉ name.toList

namespace Nameable

variable {world world' : World} {path : Path} {place : List String} {file : Entry}

theorem of_seen (h : world.Nameable)
    (hseen : ∀ place, world'.files.seen place = world.files.seen place)
    (hdirectory : world'.workingDirectory = world.workingDirectory) : world'.Nameable where
  workingDirectory := by rw [hdirectory]; exact h.workingDirectory
  names place hplace := h.names place (by rwa [← hseen])

/-- A path without a null character leads to a place without one. -/
theorem not_mem_place (h : world.Nameable) (hnull : path.hasNull = false)
    (hplace : world.place path = .ok place) : ∀ name ∈ place, '\x00' ∉ name.toList := by
  intro name hname
  rw [World.place] at hplace
  split_ifs at hplace
  · exact (Entry.mem_of_follow hplace hname).elim (h.workingDirectory name)
      (Path.hasNull_eq_false_iff.1 hnull name)
  · exact (Entry.mem_of_follow hplace hname).elim (fun hnil => absurd hnil List.not_mem_nil)
      (Path.hasNull_eq_false_iff.1 hnull name)

theorem put (h : world.Nameable) (hplace : world.Writable path place) (hparts : path.parts ≠ [])
    (hfile : file.leaf? = some file) :
    ({ world with files := world.files.put place file } : World).Nameable where
  workingDirectory := h.workingDirectory
  names other hother := by
    rw [hplace.seen_put hparts hfile] at hother
    split_ifs at hother with heq
    · exact heq ▸ h.not_mem_place hplace.noNull hplace.leads
    · exact h.names other hother

theorem grows {start : World} (h : start.Nameable) (hnull : path.hasNull = false)
    (hgrows : Grows path start world) : world.Nameable := by
  induction hgrows with
  | refl => exact h
  | @make world count made grown leads free ih =>
    have hpart : ({ path with parts := path.parts.take count } : Path).hasNull = false :=
      Path.hasNull_eq_false_iff.2 fun part hmem =>
        Path.hasNull_eq_false_iff.1 hnull part (List.mem_of_mem_take hmem)
    have hfree : world.files.seen made = none := by rw [Entry.seen, free]; rfl
    refine ⟨ih.workingDirectory, fun place hplace => ?_⟩
    rcases Entry.seen_put_directory hfree place with hsame | ⟨rfl, -⟩
    · exact ih.names place (hsame ▸ hplace)
    · exact ih.not_mem_place hpart leads

/-- A path that leads to something has no null character. -/
theorem noNull_of_follow (h : world.Nameable) {start parts : List String}
    (hfollow : world.files.follow start parts = .ok place) (hseen : world.files.seen place ≠ none) :
    ∀ part ∈ parts, '\x00' ∉ part.toList := by
  induction parts generalizing start with
  | nil => exact fun part hpart => absurd hpart List.not_mem_nil
  | cons part parts ih =>
    obtain ⟨-, -, hrest⟩ := Entry.follow_cons_iff.1 hfollow
    refine List.forall_mem_cons.2 ⟨?_, ih hrest⟩
    split_ifs at hrest with hdots
    · rw [hdots]
      decide
    -- What the part leads to is seen: it is the place itself, or a directory on the way.
    have hpart : world.files.seen (start ++ [part]) ≠ none := by
      cases parts with
      | nil => rwa [Except.ok.inj hrest]
      | cons next parts =>
        rw [(Entry.follow_cons_iff.1 hrest).1]
        simp
    exact h.names _ hpart part (List.mem_append_right _ (List.mem_singleton_self part))

theorem hasNull_of_exists (h : world.Nameable) (hthere : world.pathExists path = .ok true) :
    path.hasNull = false := by
  obtain ⟨place, hplace, hseen⟩ := pathExists_eq_true_iff.1 hthere
  rw [Path.hasNull_eq_false_iff]
  rw [World.place] at hplace
  split_ifs at hplace <;> exact h.noNull_of_follow hplace hseen

end Nameable

/-! ### Faults of the file system -/

end World

/-- A fault of the file system. -/
def Fault.OfFiles (fault : Fault) : Prop := ∃ cause name, fault = .file cause name

namespace World

variable {world : World} {path : Path} {fault : Fault}

theorem locate_fault (hnull : path.hasNull = false) (h : world.locate path = .error fault) :
    fault.OfFiles := by
  rw [locate, hnull] at h
  simp only [Bool.false_eq_true, if_false] at h
  split at h
  · exact absurd h (by simp)
  · exact ⟨_, _, (Except.error.inj h).symm⟩

theorem writeFile_fault {file : Entry} (hnull : path.hasNull = false)
    (h : world.writeFile path file = .error fault) : fault.OfFiles := by
  rcases bind_eq_error_iff.1 h with h | ⟨found, -, h⟩
  · exact locate_fault hnull h
  · split at h
    · exact ⟨_, _, (Except.error.inj h).symm⟩
    · exact absurd h (by simp)

theorem removeFile_fault (hnull : path.hasNull = false)
    (h : world.removeFile path = .error fault) : fault.OfFiles := by
  rcases bind_eq_error_iff.1 h with h | ⟨found, -, h⟩
  · exact locate_fault hnull h
  · split at h
    · exact ⟨_, _, (Except.error.inj h).symm⟩
    · exact ⟨_, _, (Except.error.inj h).symm⟩
    · exact absurd h (by simp)

theorem pathExists_fault (h : world.pathExists path = .error fault) : fault.OfFiles := by
  rcases bind_eq_error_iff.1 h with h | ⟨found, -, h⟩
  · rw [look] at h
    split at h
    · exact absurd h (by simp)
    · split_ifs at h
      exact ⟨_, _, (Except.error.inj h).symm⟩
    · exact absurd h (by simp)
  · exact absurd h (by simp)

end World

/-! ### Faults of the last step -/

namespace BackupStore

variable {store : BackupStore} {path : Path} {world ready : World} {session : Session}

theorem Current.nameable (h : store.Current world session ready) (hworld : world.Nameable) :
    ready.Nameable := by
  cases h with
  | running inProgress => exact hworld
  | opened idle made =>
    obtain ⟨hnull, hgrows⟩ := World.grows_of_makeDirectories made
    exact (hworld.grows hnull hgrows).of_seen (fun _ => rfl) rfl

/-- The path of a copy keeps the name of the file. -/
theorem copyPath_spec (session : Session) (workingDirectory : List String) (hparts : path.parts ≠ [])
    (hdots : path.name ≠ "..") : (copyPath session workingDirectory path).parts ≠ [] ∧
      (copyPath session workingDirectory path).name = path.name := by
  obtain ⟨front, hfront⟩ : ∃ front, (path.resolve workingDirectory).parts = front ++ [path.name] :=
    Path.resolve_parts hparts hdots
  have hcopy : copyPath session workingDirectory path =
      ⟨session.directory.slashes, (session.directory.parts ++ front) ++ [path.name]⟩ := by
    rw [copyPath, key, Path.join, hfront, List.append_assoc]
    rfl
  rw [hcopy]
  exact ⟨by simp, Path.name_concat ..⟩

theorem copyTarget_parts (world : World) (path : Path) {target : Path} (h : target.parts ≠ []) :
    (world.copyTarget path target).parts ≠ [] := by
  rw [World.copyTarget]
  split_ifs
  · simp [Path.join]
  · exact h

theorem BackedUp.nameable {backup : Option Path} (hparts : path.parts ≠ [])
    (hworld : world.Nameable) (h : store.BackedUp path world (.ok backup, ready)) :
    ready.Nameable := by
  cases h with
  | absent current gone => exact (current.nameable hworld).of_seen (fun _ => rfl) rfl
  | listed current known => exact current.nameable hworld
  | @copied session opened grown last current new made copied =>
    obtain ⟨hnull, hgrows⟩ := World.grows_of_makeDirectories made
    obtain ⟨place, file, spot, hfile, hspot, -, rfl⟩ := World.copyFile_eq_ok_iff.1 copied
    have htarget := copyTarget_parts grown path (copyPath_spec session opened.workingDirectory hparts
      (hfile.name_ne_dots hparts)).1
    have hleaf := Entry.leaf?_undated hfile.leaf?_eq
    exact ((current.nameable hworld).grows hnull hgrows |>.put hspot htarget hleaf).of_seen
      (fun _ => rfl) rfl

end BackupStore

namespace Processor

variable {processor : Processor} {path beside : Path} {text : Text} {named : Option Path}
  {world left ready last : World} {fault : Fault}

theorem backUp_fault (h : processor.backUp path left = (.error fault, ready)) :
    left.SameFiles ready := by
  rcases backUp_cases h with ⟨-, hnone, -⟩ | ⟨store, -, hbacked⟩
  · exact absurd hnone (by simp)
  · cases hbacked with
    | fault begun => exact begun.sameFiles

theorem backUp_nameable {backup : Option Path} (hparts : path.parts ≠ []) (hleft : left.Nameable)
    (h : processor.backUp path left = (.ok backup, ready)) : ready.Nameable := by
  rcases backUp_cases h with ⟨-, -, rfl⟩ | ⟨store, -, hbacked⟩
  · exact hleft
  · exact hbacked.nameable hparts hleft

theorem discardSidecar_fault (hworld : world.Nameable) (hbeside : processor.sidecar path = .ok beside)
    (h : processor.discardSidecar path world = (.error fault, last)) : fault.OfFiles := by
  rw [discardSidecar, Run.bind_ok (Run.ofExcept_iff.2 ⟨hbeside, rfl⟩), Run.bind_apply,
    Run.pathExists, Run.read_apply] at h
  cases hthere : world.pathExists beside with
  | error cause =>
    rw [hthere] at h
    obtain rfl := Except.error.inj (Prod.mk.inj h).1
    exact World.pathExists_fault hthere
  | ok there =>
    rw [hthere] at h
    cases there with
    | false => exact absurd (Prod.mk.inj h).1 (by simp)
    | true =>
      change (Run.removeFile beside >>= _) world = _ at h
      rw [Run.bind_apply, Run.removeFile, Run.change_apply] at h
      cases hremove : world.removeFile beside with
      | ok removed =>
        rw [hremove] at h
        exact absurd (Prod.mk.inj h).1 (by simp)
      | error cause =>
        rw [hremove] at h
        obtain rfl := Except.error.inj (Prod.mk.inj h).1
        exact World.removeFile_fault (hworld.hasNull_of_exists hthere) hremove

/-- **What fails once a result is to be written** is an operation of the file system, or else no
file has changed.  The path of the dump has to be one that can be formed. -/
theorem writeFixed_fault (hleft : left.Nameable) (hnull : path.hasNull = false)
    (hbeside : processor.sidecar path = .ok beside)
    (h : processor.writeFixed path text left = (.error fault, last)) :
    fault.OfFiles ∨ left.SameFiles last := by
  obtain ⟨suffix, -, hname⟩ := sidecar_eq_ok_iff.1 hbeside
  have hparts := (Path.eq_of_withName hname).1
  rw [writeFixed_eq] at h
  rcases hbackup : processor.backUp path left with ⟨cause | backup, ready⟩
  · rw [Run.bind_error hbackup] at h
    obtain ⟨-, rfl⟩ := Prod.mk.inj h
    exact Or.inr (backUp_fault hbackup)
  left
  rw [Run.bind_ok hbackup, Run.bind_apply, Run.writeText, Run.change_apply] at h
  cases hwrite : ready.writeText path text with
  | error cause =>
    rw [hwrite] at h
    obtain rfl := Except.error.inj (Prod.mk.inj h).1
    exact World.writeFile_fault hnull hwrite
  | ok written =>
    rw [hwrite] at h
    obtain ⟨place, hplace, rfl⟩ := World.writeFile_eq_ok_iff.1 hwrite
    have hwritten := (backUp_nameable hparts hleft hbackup).put hplace hparts
      (rfl : (Entry.file (.text text) none).leaf? = _)
    dsimp only at h
    rcases hdiscard : processor.discardSidecar path
        { ready with files := ready.files.put place (.file (.text text) none) } with
      ⟨cause | _, final⟩
    · rw [Run.bind_error hdiscard] at h
      obtain rfl := Except.error.inj (Prod.mk.inj h).1
      exact discardSidecar_fault hwritten hbeside hdiscard
    · rw [Run.bind_ok hdiscard] at h
      exact absurd (Prod.mk.inj h).1 (by simp)

/-! ### Processing a file -/

/-- Where no dump is named, the path of the dump beside a file can be formed if it is loaded. -/
theorem exists_sidecar_of_loadSource {source : Source}
    (h : processor.loadSource path text none world = (.ok source, last)) :
    ∃ beside, processor.sidecar path = .ok beside := by
  obtain ⟨found, between, hfound, -⟩ := Run.bind_iff.1 h
  obtain ⟨beside, between', hbeside, -⟩ := Run.bind_iff.1 hfound
  exact ⟨beside, (Run.ofExcept_iff.1 hbeside).1⟩

/-- **A file that is not reported as fixed is as it was, and so is every other file.**  This holds of
a dry run as well, and of every fault that ends the run: whatever the parser answers, no file is
changed, made or removed. -/
theorem processFile_untouched {fix : Bool}
    (hscratch : ∀ copy place file, scratch path = .ok copy → ¬ world.HasFile copy place file)
    (hnames : world.Nameable)
    (hsidecar : processor.config.dryRun.truthy = true ∨ named = none ∨
      ∃ beside, processor.sidecar path = .ok beside)
    (hwrites : ∀ state left fault, processor.Leaves path named world state left →
      (processor.writeFixed path state.text left).1 = .error fault → ¬ fault.OfFiles)
    (hstatus : processor.config.dryRun.truthy = true ∨ ∀ report,
      (processor.processFile path fix named world).1 = .ok report → report.status ≠ .fixed) :
    world.SameFiles (processor.processFile path fix named world).2 := by
  obtain ⟨⟨log, hlog⟩, hreport⟩ := processFile_world processor path fix named world
  rw [hlog]
  have hends : processor.Ends path fix named world.Alike world
      (processor.processStrictly path fix named world) :=
    processStrictly_ends (World.tolerates_alike hscratch) fix (.refl world)
  generalize hresult : processor.processStrictly path fix named world = result at hends hreport ⊢
  cases hends with
  | fault kept => exact kept.sameFiles
  | report kept dry => exact kept.sameFiles
  | @write state left asked wet leaves kept =>
    have ⟨source, _, _, _, _, hread, hload, _⟩ := leaves
    rcases hwritten : processor.writeFixed path state.text left with ⟨fault | backup, last⟩
    · rw [Run.bind_error hwritten]
      obtain ⟨beside, hbeside⟩ : ∃ beside, processor.sidecar path = .ok beside := by
        rcases hsidecar with hdry | rfl | hbeside
        · exact absurd hdry (by simp [wet])
        · exact exists_sidecar_of_loadSource hload
        · exact hbeside
      obtain ⟨place, value, changed, hfile, -⟩ := World.readText_eq_ok_iff.1 hread
      rcases writeFixed_fault (hnames.of_seen kept.seen kept.workingDirectory) hfile.noNull hbeside
        hwritten with hfault | hsame
      · exact absurd hfault (hwrites state left fault leaves (by rw [hwritten]))
      · exact kept.sameFiles.trans hsame
    · rw [Run.bind_ok hwritten] at hreport
      rcases hstatus with hdry | hstatus
      · exact absurd hdry (by simp [wet])
      · exact absurd rfl (hstatus _ (hreport _ rfl))

/-! ### A parser that fails after a pass -/

/-- The names in a directory of files. -/
theorem nameable_directoryWorld {text : Text} {others : List (String × Entry)}
    (h : ∀ member ∈ others, member.2.isDirectory = false ∧ '\x00' ∉ member.1.toList) :
    (directoryWorld text others).Nameable where
  workingDirectory name hname := absurd hname List.not_mem_nil
  names place hplace := by
    have hmembers : ∀ member ∈ ("App.tsx", Entry.file (.text text) none) :: others,
        member.2.isDirectory = false ∧ '\x00' ∉ member.1.toList :=
      List.forall_mem_cons.2 ⟨⟨rfl, (by decide : '\x00' ∉ "App.tsx".toList)⟩, h⟩
    cases place with
    | nil => exact fun name hname => absurd hname List.not_mem_nil
    | cons first rest =>
      rw [directoryWorld, Entry.seen_directory_cons] at hplace
      obtain ⟨entry, hentry⟩ := Option.ne_none_iff_exists'.1 hplace
      obtain ⟨child, hchild, hseen⟩ := Option.bind_eq_some_iff.1 hentry
      obtain ⟨hleaf, hname⟩ := hmembers (first, child) (mem_of_lookup hchild)
      cases rest with
      | nil => exact List.forall_mem_singleton.2 hname
      | cons next rest =>
        rw [Entry.seen_cons_of_leaf] at hseen
        · exact absurd hseen (by simp)
        · rw [(Entry.leaf?_eq_some_iff.2 ⟨rfl, hleaf⟩ : child.leaf? = some child)]
          simp

/-- A parser that refuses every text. -/
def refusingParser : List Invocation → Invocation → ParserOutcome :=
  fun _ _ => .finished "" "unexpected token" 1

/-- Beside the file with the button last there is the dump of its tree, and there is a parser. -/
def parsedWorld (parser : List Invocation → Invocation → ParserOutcome) : World :=
  { dumpWorld buttonLastApp with parser := parser }

/-- A text that the parser refuses is not parsed. -/
theorem parseText_refused {copy : Path} {place command : List String}
    (hcopy : scratch path = .ok copy) (hplace : world.Writable copy place)
    (hcommand : processor.parserCommand copy = .ok command)
    (hparser : world.parser = refusingParser) (text : Text) :
    ∃ last, processor.parseText path text world =
      (.error (.parserFailed command 1 "unexpected token"), last) := by
  obtain ⟨calls, hparse⟩ := parseText_apply processor hcopy hplace text
  refine ⟨_, hparse.trans (Prod.ext ?_ rfl)⟩
  rw [parseFile, Run.bind_ok (Run.ofExcept_iff.2 ⟨hcommand, rfl⟩), Run.callParser, hparser]
  rfl

/-- Where nothing is seen at the place of the copy there is no file of its name. -/
theorem noScratch_of_seen (hplace : world.place copyPath = .ok [".App.tsx.styled-sort.tsx"])
    (hnone : world.files.seen [".App.tsx.styled-sort.tsx"] = none) :
    ∀ copy place file, scratch appPath = .ok copy → ¬ world.HasFile copy place file := by
  intro copy place file hcopy hfile
  obtain rfl : copyPath = copy := Except.ok.inj hcopy
  obtain rfl := Except.ok.inj (hplace.symm.trans hfile.leads)
  exact absurd (hnone.symm.trans hfile.seen) (by simp)

section
set_option maxRecDepth 2000

/-- A file with the button last is checked by the dump beside it. -/
theorem checks_beside {path beside : Path} (hsidecar : processor.sidecar path = .ok beside)
    (hrule : processor.config.rule.check processor.strategy buttonLastApp =
      .ok [Rule.titleBehindButton Rule.buttonLast ⟨52, 73⟩])
    {place dumpPlace : List String}
    (hfile : world.HasFile path place (.file (.text buttonLastApp.text) none))
    (hdump : world.HasFile beside dumpPlace
      (.file (.text (program buttonLastApp.body).compact.toList) none)) :
    world.readText path = .ok buttonLastApp.text ∧
      processor.loadSource path buttonLastApp.text none world =
        (.ok { buttonLastApp with path := some path }, world) ∧
      ∃ log, processor.check { buttonLastApp with path := some path } world =
        (.ok [Rule.titleBehindButton Rule.buttonLast ⟨52, 73⟩], { world with log := log }) := by
  have hplain := isPlain_buttonLast
  have hread : world.readText path = .ok buttonLastApp.text := World.readText_eq_ok_iff.2
    ⟨_, _, _, hfile, unifyLineEnds_buttonLast.symm⟩
  have hjson : world.readText beside =
      .ok (program buttonLastApp.body).compact.toList := World.readText_eq_ok_iff.2
    ⟨_, _, _, hdump, (Json.unifyLineEnds_compact hplain).symm⟩
  exact ⟨hread, (loadSource_beside hsidecar hdump.pathExists hjson hplain _).trans
      (Run.bind_iff.2 ⟨_, _, Run.ofExcept_iff.2 ⟨verify_buttonLast (some path), rfl⟩, rfl⟩),
    check_of_rule ((Rule.check_path ..).trans hrule) _⟩

/-- Both files are there. -/
theorem hasFiles_parsedWorld (parser : List Invocation → Invocation → ParserOutcome) :
    (parsedWorld parser).HasFile appPath ["App.tsx"] (.file (.text buttonLastApp.text) none) ∧
      (parsedWorld parser).HasFile ⟨0, ["App.tsx.estree.json"]⟩ ["App.tsx.estree.json"]
        (.file (.text (program buttonLastApp.body).compact.toList) none) :=
  ⟨.of_seen rfl rfl rfl, .of_seen rfl rfl rfl⟩

/-- The first fix is applied to the text, which the parser refuses. -/
theorem processStrictly_refused : ∃ last,
    parsing.processStrictly appPath true none (parsedWorld refusingParser) =
      (.error (.parserFailed parseCommand 1 "unexpected token"), last) := by
  have hsidecar : parsing.sidecar appPath = .ok ⟨0, ["App.tsx.estree.json"]⟩ := rfl
  obtain ⟨hfile, hdump⟩ := hasFiles_parsedWorld refusingParser
  obtain ⟨hread, hload, log, hcheck⟩ := checks_beside hsidecar check_buttonLastApp hfile hdump
  have hlimit : Order.passLimit parsing.config.fix.maxFixPasses = .ok 10 := rfl
  obtain ⟨last, hparse⟩ : ∃ last, parsing.parseText appPath
      (applyFixes buttonLastApp.text [Rule.titleBehindButton Rule.buttonLast ⟨52, 73⟩]).1
      { parsedWorld refusingParser with log := log } =
        (.error (.parserFailed parseCommand 1 "unexpected token"), last) :=
    parseText_refused rfl (.of_unseen rfl rfl rfl) rfl rfl _
  have hpasses : parsing.fixPasses appPath 10 ⟨buttonLastApp.text,
      [Rule.titleBehindButton Rule.buttonLast ⟨52, 73⟩], 0⟩
      { parsedWorld refusingParser with log := log } =
        (.error (.parserFailed parseCommand 1 "unexpected token"), last) := by
    have happlied : (applyFixes buttonLastApp.text
        [Rule.titleBehindButton Rule.buttonLast ⟨52, 73⟩]).2.isEmpty = false := by
      rw [applyFixes_singleton rfl]
      rfl
    rw [fixPasses]
    simp only [happlied, Bool.false_eq_true, if_false]
    exact Run.bind_error hparse _
  refine ⟨last, ?_⟩
  rw [processStrictly_eq_fixFile hread hload hcheck (List.cons_ne_nil _ _), fixFile,
    Run.bind_ok (Run.ofExcept_iff.2 ⟨hlimit, rfl⟩), Run.bind_error hpasses]

/-- A pass was made when the parser fails, and all files are as they were: the copy that was parsed
is gone, and the dump is still there. -/
theorem processFile_untouched_refused :
    (∀ copy place file, scratch appPath = .ok copy →
        ¬ (parsedWorld refusingParser).HasFile copy place file) ∧
      (parsedWorld refusingParser).Nameable ∧
      (∃ message, (parsing.processFile appPath true none (parsedWorld refusingParser)).1 =
        .ok (Report.failed appPath message)) ∧
      (parsedWorld refusingParser).SameFiles
        (parsing.processFile appPath true none (parsedWorld refusingParser)).2 := by
  have hscratch : ∀ copy place file, scratch appPath = .ok copy →
      ¬ (parsedWorld refusingParser).HasFile copy place file := noScratch_of_seen rfl rfl
  have hnames : (parsedWorld refusingParser).Nameable := by
    refine (nameable_directoryWorld fun member hmember => ?_).of_seen (fun _ => rfl) rfl
    obtain rfl := List.mem_singleton.1 hmember
    exact ⟨rfl, (by decide : '\x00' ∉ "App.tsx.estree.json".toList)⟩
  obtain ⟨last, hstrictly⟩ := processStrictly_refused
  have hreport : (parsing.processFile appPath true none (parsedWorld refusingParser)).1 =
      .ok (Report.failed appPath (some (Fault.parserFailed parseCommand 1 "unexpected token").message)) := by
    rw [processFile_failed hstrictly rfl]
  refine ⟨hscratch, hnames, ⟨_, hreport⟩, ?_⟩
  refine processFile_untouched hscratch hnames (Or.inr (Or.inl rfl)) ?_ (Or.inr ?_)
  · intro state left fault hleaves hfault
    have heq := hleaves.processStrictly_eq rfl
    rcases hwritten : parsing.writeFixed appPath state.text left with ⟨cause | backup, written⟩
    · rw [hstrictly, Run.bind_error hwritten] at heq
      rw [hwritten] at hfault
      obtain rfl := Except.error.inj hfault
      obtain rfl := Except.error.inj (Prod.mk.inj heq).1
      rintro ⟨cause, name, hfile⟩
      exact absurd hfile (by simp)
    · rw [hwritten] at hfault
      exact absurd hfault (by simp)
  · intro report heq
    obtain rfl := Except.ok.inj (hreport.symm.trans heq)
    simp [Report.failed]

/-! ### A suffix that makes no path -/

/-- The path of a dump that is named. -/
def dumpPath : Path := ⟨0, ["dump.json"]⟩

/-- A directory with a source file and a dump of its tree under another name. -/
def namedWorld (source : Source) : World :=
  directoryWorld source.text
    [("dump.json", .file (.text (program source.body).compact.toList) none)]

/-- The settings of `textual`, with another suffix of dumps. -/
def withSuffix (suffix : String) : Processor where
  config := { textual.config with
    parser := { textual.config.parser with astSuffix := .str suffix } }
  strategy := textual.strategy
  store := textual.store

theorem nameable_namedWorld (source : Source) : (namedWorld source).Nameable := by
  refine nameable_directoryWorld fun member hmember => ?_
  obtain rfl := List.mem_singleton.1 hmember
  exact ⟨rfl, (by decide : '\x00' ∉ "dump.json".toList)⟩

/-- The file with the button last is fixed by the dump that is named, in one pass. -/
theorem leaves_namedWorld (suffix : String) :
    ∃ log, (withSuffix suffix).Leaves appPath (some dumpPath) (namedWorld buttonLastApp)
      ⟨titleLastApp.text, [], 1⟩ { namedWorld buttonLastApp with log := log } := by
  have hplain := isPlain_buttonLast
  have hread : (namedWorld buttonLastApp).readText appPath = .ok buttonLastApp.text :=
    congrArg Except.ok unifyLineEnds_buttonLast
  have hdump : (namedWorld buttonLastApp).readText dumpPath =
      .ok (program buttonLastApp.body).compact.toList :=
    congrArg Except.ok (Json.unifyLineEnds_compact hplain)
  have hsource : Source.ofJson (some appPath) buttonLastApp.text
      (program buttonLastApp.body).compact.toList = .ok buttonLastApp := by
    rw [Source.ofJson, Json.parse_compact hplain]
    rfl
  have hload : (withSuffix suffix).loadSource appPath buttonLastApp.text (some dumpPath)
      (namedWorld buttonLastApp) = (.ok buttonLastApp, namedWorld buttonLastApp) := by
    have hfound : (withSuffix suffix).dump? appPath (some dumpPath) (namedWorld buttonLastApp) =
        (.ok (some dumpPath), namedWorld buttonLastApp) := rfl
    rw [loadSource, Run.bind_ok hfound]
    simp only
    rw [Run.bind_ok (Run.readText_iff.2 ⟨hdump, rfl⟩),
      Run.bind_ok (Run.ofExcept_iff.2 ⟨hsource, rfl⟩)]
    exact Run.bind_ok (Run.ofExcept_iff.2 ⟨verify_buttonLast (some appPath), rfl⟩) _
  obtain ⟨log, hcheck⟩ : ∃ log, (withSuffix suffix).check buttonLastApp (namedWorld buttonLastApp) =
      (.ok [Rule.titleBehindButton Rule.buttonLast ⟨52, 73⟩],
        { namedWorld buttonLastApp with log := log }) :=
    check_of_rule check_buttonLastApp _
  refine ⟨log, buttonLastApp, _, 10, _, _, hread, hload, hcheck, List.cons_ne_nil _ _, rfl, ?_,
    Nat.one_ne_zero⟩
  rw [fixPasses, applyFixes_singleton rfl]
  rfl

/-- **A file may be changed by a run that ends in a fault.**  The dump is named, so that no dump is
looked for beside the file until the fixed text is written; then the suffix makes no path. -/
theorem processFile_written_unreported :
    (withSuffix "/estree.json").config.validate = .ok [] ∧
      (∀ copy place file, scratch appPath = .ok copy →
        ¬ (namedWorld buttonLastApp).HasFile copy place file) ∧
      (namedWorld buttonLastApp).Nameable ∧
      ∃ last, (withSuffix "/estree.json").processFile appPath true (some dumpPath)
          (namedWorld buttonLastApp) = (.error .badValue, last) ∧
        (namedWorld buttonLastApp).at? appPath =
          some (.file (.text buttonLastApp.text) none) ∧
        last.at? appPath = some (.file (.text (Rule.linesText ["const Wrapper = css`${Title}`;",
          "const Button = css``;", "const Title = css``;",
          "<Button><Title /><Wrapper /></Button>;"])) none) ∧
        ¬ (namedWorld buttonLastApp).SameFiles last := by
  obtain ⟨log, hleaves⟩ := leaves_namedWorld "/estree.json"
  let last : World := { directoryWorld titleLastApp.text
      [("dump.json", .file (.text (program buttonLastApp.body).compact.toList) none)] with log := log }
  have hwrite : (withSuffix "/estree.json").writeFixed appPath titleLastApp.text
      { namedWorld buttonLastApp with log := log } = (.error .badValue, last) := rfl
  have hstrictly := hleaves.processStrictly_eq rfl
  rw [Run.bind_error hwrite] at hstrictly
  refine ⟨rfl, noScratch_of_seen rfl rfl, nameable_namedWorld _, last, ?_, rfl, rfl,
    fun hsame => ?_⟩
  · exact processFile_escaped hstrictly rfl
  · have hseen := (hsame ["App.tsx"] (.file (.text buttonLastApp.text) none)).2 rfl
    have htext : titleLastApp.text = buttonLastApp.text :=
      Content.text.inj (Entry.file.inj (Option.some.inj (Option.some.inj hseen))).1
    exact absurd htext (by decide)

end

end Processor
end UsageOrder
