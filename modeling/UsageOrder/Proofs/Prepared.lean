import UsageOrder.Config.Validation
import UsageOrder.Proofs.SafeRuns
import UsageOrder.Proofs.SoundChecks

/-!
# Processing a file with a regular dump

Files are *prepared* when the settings are of their kinds, every file has a regular dump beside it
and a parser prints regular dumps (`Processor.Prepared`).  Whatever is done to a prepared file, in a
world that comes from the first one by doing so to others, ends in a report or in a fault that is
reported (`processStrictly_safe`).

| step | why it is safe |
|---|---|
| a dump is read | no text was written under its name, so it is regular or gone |
| a source is checked | it is regular (`Rule.check_contained`) |
| a fixed text is parsed | through a copy whose name is not that of a dump |
| a file is backed up | the copy keeps its name, in a directory that a disk can have |
-/

namespace UsageOrder

/-! ### Settings -/

namespace Config

/-- The settings by which files are processed are of the kinds that they are declared with. -/
structure Typed (config : Config) : Prop where
  markers : ∃ markers : List String, config.rule.markerNames = .arr (markers.map .str)
  passes : ∃ limit, config.rule.maxPasses = .int limit
  fixPasses : ∃ limit, config.fix.maxFixPasses = .int limit
  command : ∃ words : List String, config.parser.command = .arr (words.map .str)

theorem eq_false_of_complain {condition : Bool} {message : String}
    (h : complain condition message = []) : condition = false := by
  cases condition with
  | true => exact absurd h (by simp [complain])
  | false => rfl

theorem exists_str_of_same {value : Json} {s : String} (h : value.same (.str s) = true) :
    ∃ t, value = .str t := by
  cases value with
  | str t => exact ⟨t, rfl⟩
  | arr | obj => exact absurd h (by simp [Json.same])
  | null | bool | int | real => exact absurd h (by simp [Json.same, Json.sameScalar, Json.size?])

/-- An accepted separator is a text, so the rule is of the kind that a check relies on. -/
theorem Typed.rule {config : Config} (h : config.Typed) (haccepted : config.validate = .ok []) :
    config.rule.Typed := by
  refine ⟨h.markers, ?_, h.passes⟩
  obtain ⟨_, -, haccepted⟩ := bind_eq_ok_iff.1 haccepted
  obtain ⟨_, -, haccepted⟩ := bind_eq_ok_iff.1 haccepted
  obtain ⟨_, -, haccepted⟩ := bind_eq_ok_iff.1 haccepted
  obtain ⟨_, -, haccepted⟩ := bind_eq_ok_iff.1 haccepted
  have hnone := Except.ok.inj haccepted
  simp only [List.append_eq_nil_iff] at hnone
  obtain ⟨⟨⟨⟨⟨-, hseparator⟩, -⟩, -⟩, -⟩, -⟩ := hnone
  have hsame := eq_false_of_complain hseparator
  rw [Bool.not_eq_false', Bool.or_eq_true] at hsame
  exact hsame.elim exists_str_of_same exists_str_of_same

end Config

/-! ### Files with dumps beside them -/

/-- A call of the parser that can be dealt with: what it prints, if it ends well, is a regular dump, and
in any case it is a text. -/
def ParserOutcome.Regular : ParserOutcome → Prop
  | .finished output _ code => code = 0 → Source.RegularDump output.toList
  | .notStarted _ => True
  | .refused | .garbled => False

namespace Processor

variable {processor : Processor} {paths : List Path} {path : Path} {start : World}

/-- The names of the dumps beside some files. -/
def dumpNames (processor : Processor) (paths : List Path) : List String :=
  paths.filterMap fun path => (processor.sidecar path).toOption.map Path.name

/-- Files that can be processed one after the other: the settings are accepted and of their kinds,
every file is a text with a regular dump beside it, none of them is written under the name of a
dump, and a parser can be called and prints regular dumps. -/
structure Prepared (processor : Processor) (paths : List Path) (start : World) : Prop where
  accepted : processor.config.validate = .ok []
  typed : processor.config.Typed
  dumped : ∀ path ∈ paths, ∃ text beside json, start.readText path = .ok text ∧
    processor.sidecar path = .ok beside ∧ start.readText beside = .ok json ∧
      Source.RegularDump json
  single : ∀ path ∈ paths, '/' ∉ path.name.toList
  apart : ∀ path ∈ paths, path.name ∉ processor.dumpNames paths ∧
    ∀ copy, scratch path = .ok copy → copy.name ∉ processor.dumpNames paths
  /-- The system can be asked for the parser. -/
  words : ∀ words : List String, processor.config.parser.command = .arr (words.map .str) →
    ∀ word ∈ words, '\x00' ∉ word.toList
  parsed : ∀ calls call, processor.hasParser = true →
    (∀ word ∈ call.command, '\x00' ∉ word.toList) → (start.parser calls call).Regular
  directory : ∀ part ∈ start.workingDirectory, '\x00' ∉ part.toList
  store : ∀ store, processor.store = some store → store.directory.hasNull = false
  session : ∀ session, start.session = some session → session.directory.hasNull = false

theorem exists_withName {beside : Path} (h : processor.sidecar path = .ok beside) :
    ∃ suffix, path.withName (path.name ++ suffix) = .ok beside := by
  rw [sidecar] at h
  split at h
  · exact ⟨_, h⟩
  · exact absurd h (by simp)

/-- The copy of a file through which it is parsed can be named. -/
theorem exists_scratch (hname : path.name ≠ "") (hsingle : '/' ∉ path.name.toList)
    (hnull : path.hasNull = false) :
    ∃ copy, scratch path = .ok copy ∧ copy.hasNull = false ∧ copy.parts ≠ [] := by
  have hparts : path.parts ≠ [] := fun hnil => hname (by rw [Path.name, hnil]; rfl)
  have hchars : ∀ c ∈ ("." ++ path.name ++ ".styled-sort" ++ path.suffix).toList,
      c ∈ ".styled-sort".toList ∨ c ∈ path.name.toList := by
    intro c hc
    simp only [String.toList_append, List.mem_append, Path.suffix, String.toList_ofList] at hc
    rcases hc with ((hc | hc) | hc) | hc
    · obtain rfl := List.mem_singleton.1 hc
      exact Or.inl (by decide)
    · exact Or.inr hc
    · exact Or.inl hc
    · rcases Path.mem_of_mem_suffixOf hc with rfl | hc
      · exact Or.inl (by decide)
      · exact Or.inr hc
  have hnotNull := Path.hasNull_eq_false_iff.1 hnull _ (Path.name_mem hparts)
  refine ⟨_, Path.withName_of_plain hname (fun hslash => ?_) (by simp) (by simp), ?_, by simp⟩
  · exact (hchars '/' hslash).elim (by decide) hsingle
  · refine Path.hasNull_eq_false_iff.2 (List.forall_mem_append.2 ⟨fun part hpart => ?_, ?_⟩)
    · exact Path.hasNull_eq_false_iff.1 hnull part (List.dropLast_subset _ hpart)
    · exact List.forall_mem_singleton.2 fun hmem => (hchars _ hmem).elim (by decide) hnotNull

theorem parserCommand_eq {words : List String}
    (hwords : processor.config.parser.command = .arr (words.map .str)) (path : Path) :
    processor.parserCommand path = .ok (words ++ [path.toText]) := by
  rw [parserCommand, hwords]
  refine bind_eq_ok_iff.2 ⟨_, rfl, bind_eq_ok_iff.2 ⟨words, ?_, rfl⟩⟩
  exact mapM_eq_ok_iff.2 (List.forall₂_map_left_iff.2 (List.forall₂_same.2 fun _ _ => rfl))

namespace Prepared

/-- A prepared file is a text with a name of its own. -/
theorem exists_text (h : processor.Prepared paths start) (hpath : path ∈ paths) :
    (∃ text, start.readText path = .ok text) ∧ path.hasNull = false ∧ path.parts ≠ [] ∧
      path.name ≠ "" := by
  obtain ⟨text, beside, -, htext, hbeside, -, -⟩ := h.dumped path hpath
  obtain ⟨place, value, changed, hfile, -⟩ := World.readText_eq_ok_iff.1 htext
  obtain ⟨suffix, hname⟩ := exists_withName hbeside
  exact ⟨⟨text, htext⟩, hfile.noNull, (Path.eq_of_withName hname).1, Path.name_ne_of_withName hname⟩

/-- The dump beside a prepared file is regular and has the name of a dump. -/
theorem exists_dump (h : processor.Prepared paths start) (hpath : path ∈ paths) :
    ∃ beside, processor.sidecar path = .ok beside ∧ beside.hasNull = false ∧ beside.parts ≠ [] ∧
      beside.name ∈ processor.dumpNames paths ∧
        ∃ json, start.readText beside = .ok json ∧ Source.RegularDump json := by
  obtain ⟨-, beside, json, -, hbeside, hjson, hregular⟩ := h.dumped path hpath
  obtain ⟨place, value, changed, hfile, -⟩ := World.readText_eq_ok_iff.1 hjson
  obtain ⟨suffix, hname⟩ := exists_withName hbeside
  refine ⟨beside, hbeside, hfile.noNull, ?_, ?_, json, hjson, hregular⟩
  · rw [(Path.eq_of_withName hname).2]
    simp
  · exact List.mem_filterMap.2 ⟨path, hpath, by rw [hbeside]; rfl⟩

/-! ### Loading and checking -/

/-- The worlds that are reached while prepared files are processed. -/
abbrev Reached (processor : Processor) (paths : List Path) (start : World) : World → Prop :=
  start.From (processor.dumpNames paths)

theorem parseFile_safe (h : processor.Prepared paths start) (hparser : processor.hasParser = true)
    {copy : Path} (hnull : copy.hasNull = false) (text : Text) :
    Run.Safe (Reached processor paths start) Source.Regular (processor.parseFile copy text) := by
  obtain ⟨words, hwords⟩ := h.typed.command
  have hcommand : Run.Safe (Reached processor paths start) (· = words ++ [copy.toText])
      (Run.ofExcept (processor.parserCommand copy)) := by
    rw [parserCommand_eq hwords]
    exact Run.safe_ofExcept (Contained.ok _) fun command heq => (Except.ok.inj heq).symm
  have hplain : ∀ word ∈ words ++ [copy.toText], '\x00' ∉ word.toList :=
    List.forall_mem_append.2 ⟨h.words words hwords,
      List.forall_mem_singleton.2 (Path.not_mem_toText hnull)⟩
  have hcall : Run.Safe (Reached processor paths start) ParserOutcome.Regular
      (Run.callParser (words ++ [copy.toText]) copy) := by
    intro world hworld
    refine Or.inl ⟨_, _, rfl, ?_, hworld.of_files_eq rfl rfl rfl hworld.session⟩
    rw [hworld.parser]
    exact h.parsed _ _ hparser hplain
  refine hcommand.bind fun command heq => ?_
  subst heq
  refine hcall.bind fun outcome houtcome => ?_
  cases outcome with
  | notStarted reason => exact Run.safe_throw rfl
  | refused | garbled => exact houtcome.elim
  | finished output complaint code =>
    dsimp only
    split_ifs with hcode
    · exact Run.safe_throw rfl
    · obtain ⟨hcontained, hregular⟩ :=
        Source.ofJson_contained (houtcome (not_not.1 hcode)) (some copy) text
      exact Run.safe_ofExcept hcontained hregular

/-- **Loading a prepared file is safe** and gives a regular source. -/
theorem loadSource_safe (h : processor.Prepared paths start) (hpath : path ∈ paths) (text : Text) :
    Run.Safe (Reached processor paths start) Source.Regular
      (processor.loadSource path text none) := by
  obtain ⟨beside, hbeside, hnull, hparts, hname, json, hjson, hregular⟩ := h.exists_dump hpath
  have hfound : Run.Safe (Reached processor paths start)
      (fun found => found = none ∨ found = some beside) (processor.dump? path none) := by
    rw [dump?, hbeside]
    refine (Run.safe_pathExists beside).bind fun there _ => ?_
    split_ifs
    · exact Run.safe_pure (Or.inr rfl)
    · exact Run.safe_pure (Or.inl rfl)
  have hread : Run.Safe (Reached processor paths start) Source.RegularDump
      (Run.readText beside) := by
    refine Run.safe_read (fun world hworld => ?_) fun world dump hworld hdump => ?_
    · exact World.readText_contained hnull fun place file hfile => hworld.exists_text hjson hfile
    · rw [hworld.dump_eq hjson hparts hname hdump]
      exact hregular
  refine hfound.bind fun found hfound => ?_
  rcases hfound with rfl | rfl
  · dsimp only
    split_ifs with hparser
    · exact h.parseFile_safe hparser (h.exists_text hpath).2.1 text
    · rw [hbeside]
      exact Run.safe_throw rfl
  · refine hread.bind fun dump hdump => ?_
    obtain ⟨hcontained, hsource⟩ := Source.ofJson_contained hdump (some path) text
    refine (Run.safe_ofExcept hcontained hsource).bind fun source hregular => ?_
    refine (Run.safe_ofExcept (Source.verify_contained hregular) fun _ _ => trivial).bind
      fun _ _ => ?_
    exact Run.safe_pure hregular

/-- Checking a regular source is safe. -/
theorem check_safe (h : processor.Prepared paths start) {source : Source}
    (hsource : source.Regular) :
    Run.Safe (Reached processor paths start) (fun _ => True) (processor.check source) := by
  have hcheck := Rule.check_contained (h.typed.rule h.accepted) processor.strategy hsource
  have hfindings : Contained (processor.config.rule.findings processor.strategy source) :=
    fun fault hfault => hcheck fault (bind_eq_error_iff.2 (Or.inl hfault))
  refine (Run.safe_ofExcept hfindings fun _ hfindings => hfindings).bind
    fun findings hfindings => ?_
  have hlocated : Run.Safe (Reached processor paths start) (fun _ => True)
      (Run.ofExcept (findings.located source.text)) :=
    Run.safe_ofExcept (fun fault hfault =>
      hcheck fault (bind_eq_error_iff.2 (Or.inr ⟨findings, hfindings, hfault⟩)))
      fun _ _ => trivial
  cases findings.warning with
  | none => exact hlocated
  | some warning => exact (Run.safe_warn warning).bind fun _ _ => hlocated

/-! ### Fixing -/

theorem parseText_safe (h : processor.Prepared paths start) (hpath : path ∈ paths)
    (hparser : processor.hasParser = true) (text : Text) :
    Run.Safe (Reached processor paths start) Source.Regular (processor.parseText path text) := by
  obtain ⟨-, hnull, -, hname⟩ := h.exists_text hpath
  obtain ⟨copy, hcopy, hcopyNull, hcopyParts⟩ := exists_scratch hname (h.single path hpath) hnull
  have hremove : Run.Safe (Reached processor paths start) (fun _ => True)
      (do if ← Run.pathExists copy then Run.removeFile copy) := by
    refine (Run.safe_pathExists copy).bind fun there _ => ?_
    split_ifs
    · exact Run.safe_removeFile hcopyNull hcopyParts
    · exact Run.safe_pure trivial
  rw [parseText, hcopy]
  refine (Run.safe_writeText hcopyNull hcopyParts ((h.apart path hpath).2 copy hcopy) text).bind
    fun _ _ => ?_
  refine ((h.parseFile_safe hparser hcopyNull text).ensuring hremove).bind fun source hsource => ?_
  exact Run.safe_pure hsource

/-- **Every pass of a fix is safe.** -/
theorem fixPasses_safe (h : processor.Prepared paths start) (hpath : path ∈ paths) (left : Nat)
    (state : FixState) :
    Run.Safe (Reached processor paths start) (fun _ => True)
      (processor.fixPasses path left state) := by
  induction left generalizing state with
  | zero => exact Run.safe_pure trivial
  | succ left ih =>
    rw [fixPasses]
    obtain ⟨text, applied⟩ := applyFixes state.text state.diagnostics
    dsimp only
    split_ifs with hnone hparser
    · exact Run.safe_pure trivial
    · exact Run.safe_pure trivial
    · have hparser : processor.hasParser = true := by simpa using hparser
      refine (h.parseText_safe hpath hparser text).bind fun source hsource => ?_
      refine (h.check_safe hsource).bind fun diagnostics _ => ?_
      split_ifs
      · exact Run.safe_pure trivial
      · exact ih _

theorem writeFixed_safe (h : processor.Prepared paths start) (hpath : path ∈ paths) (text : Text) :
    Run.Safe (Reached processor paths start) (fun _ => True)
      (processor.writeFixed path text) := by
  obtain ⟨⟨before, hread⟩, hnull, hparts, -⟩ := h.exists_text hpath
  obtain ⟨beside, hbeside, hnull', hparts', -⟩ := h.exists_dump hpath
  have hname := (h.apart path hpath).1
  have hdiscard : Run.Safe (Reached processor paths start) (fun _ => True)
      (processor.discardSidecar path) := by
    rw [discardSidecar, hbeside]
    refine (Run.safe_pathExists beside).bind fun there _ => ?_
    split_ifs
    · exact (Run.safe_removeFile hnull' hparts').bind fun _ _ => Run.safe_warn _
    · exact Run.safe_pure trivial
  have hwrite : ∀ backup, Run.Safe (Reached processor paths start) (fun _ => True)
      (do Run.writeText path text; processor.discardSidecar path; return backup :
        Run (Option Path)) :=
    fun backup => (Run.safe_writeText hnull hparts hname text).bind fun _ _ =>
      hdiscard.bind fun _ _ => Run.safe_pure trivial
  rw [writeFixed]
  cases hstore : processor.store with
  | none => exact hwrite none
  | some store =>
    exact (BackupStore.backupFile_safe (h.store store hstore) h.directory hread hparts hname).bind
      fun backup _ => hwrite backup

theorem fixFile_safe (h : processor.Prepared paths start) (hpath : path ∈ paths) (source : Source)
    (diagnostics : List Diagnostic) :
    Run.Safe (Reached processor paths start) (fun report => report.path = path)
      (processor.fixFile path source diagnostics) := by
  obtain ⟨limit, hlimit⟩ := h.typed.fixPasses
  rw [fixFile, hlimit]
  refine (h.fixPasses_safe hpath limit.toNat _).bind fun state _ => ?_
  split_ifs
  · exact Run.safe_pure rfl
  · exact Run.safe_pure rfl
  · exact (h.writeFixed_safe hpath state.text).bind fun backup _ => Run.safe_pure rfl

/-- **Processing a prepared file is safe,** and the report is on this file. -/
theorem processStrictly_safe (h : processor.Prepared paths start) (hpath : path ∈ paths)
    (fix : Bool) :
    Run.Safe (Reached processor paths start) (fun report => report.path = path)
      (processor.processStrictly path fix none) := by
  obtain ⟨⟨before, hstart⟩, hnull, -, -⟩ := h.exists_text hpath
  have hread : Run.Safe (Reached processor paths start) (fun _ => True) (Run.readText path) :=
    Run.safe_read (fun world hworld => World.readText_contained hnull fun place file hfile =>
      hworld.exists_text hstart hfile) fun _ _ _ _ => trivial
  refine hread.bind fun text _ => ?_
  refine (h.loadSource_safe hpath text).bind fun source hsource => ?_
  refine (h.check_safe hsource).bind fun diagnostics _ => ?_
  split_ifs
  · exact Run.safe_pure rfl
  · exact Run.safe_pure rfl
  · exact h.fixFile_safe hpath source diagnostics

end Prepared

end Processor
end UsageOrder
