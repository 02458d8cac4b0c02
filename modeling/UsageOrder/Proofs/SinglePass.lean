import UsageOrder.Proofs.FixPass
import UsageOrder.Proofs.ReadBack
import UsageOrder.Proofs.Runs

/-!
# A file that is fixed without a parser

Without a parser there is one pass of fixes, and what is left is what was reported before and not
applied.  A report that leaves nothing therefore says that every fix was applied, and not that the
declarations stand in the desired order: a fix may move a declaration over its own successor in that
order, which was in place before and is not reported.  Nothing else can go wrong
(`Processor.processFile_reaches_iff`).
-/

namespace UsageOrder

/-- A check whose fixes are applied has a desired order. -/
theorem Rule.exists_desires {rule : Rule} {strategy : UsageStrategy} {source : Source}
    {diagnostics : List Diagnostic} (hlaidOut : source.LaidOut)
    (hcheck : rule.check strategy source = .ok diagnostics)
    (happlied : (applyFixes source.text diagnostics).2 ≠ []) :
    ∃ collection desired separator, rule.Desires strategy source collection desired ∧
      separatorText rule.separator = .ok separator := by
  obtain ⟨diagnostic, hmem⟩ := List.exists_mem_of_ne_nil _ happlied
  obtain ⟨fixable, haccepted, rfl⟩ := List.mem_map.1 hmem
  obtain ⟨hmem, hfix⟩ :=
    Fixable.mem_sorted_iff.1 ((Fixable.accepted_sublist diagnostics).subset haccepted)
  obtain ⟨collection, -, hanalysed⟩ := analysed_of_check hcheck
  rcases hanalysed with rfl | ⟨prerequisites, uses, hanalysed⟩
  · exact absurd hmem List.not_mem_nil
  · obtain ⟨settled, hsettled⟩ := hanalysed.settled_of_fix hcheck hmem (by rw [hfix]; simp)
    have hdesires : rule.Desires strategy source collection settled.order :=
      ⟨hlaidOut, prerequisites, uses, settled.passes, hanalysed, hsettled⟩
    obtain ⟨separator, -, hseparator, -⟩ := hdesires.exists_edit hcheck hmem
    exact ⟨collection, settled.order, separator, hdesires, hseparator⟩

namespace Processor

variable {processor : Processor} {path : Path} {named : Option Path} {world world' : World}
  {report : Report}

/-- Nothing is left over exactly when every reported name is among the applied ones. -/
theorem leftover_eq_nil_iff {diagnostics applied : List Diagnostic} :
    leftover diagnostics applied = [] ↔ ∀ diagnostic ∈ diagnostics, ∃ other ∈ applied,
      (other.name == diagnostic.name) = true := by
  rw [leftover, List.map_eq_nil_iff, List.filter_eq_nil_iff]
  simp

/-- **A file that is fixed with nothing left is in the desired order exactly when no declaration has
been moved over its own successor.**  The file holds the text of a layout with the blocks of all its
declarations; it is as the fixes have left it, and all of them were applied. -/
theorem processFile_reaches_iff (hparser : processor.hasParser = false)
    (hexact : ∀ source, world.readText path = .ok source.text →
      processor.loadSource path source.text named world = (.ok source, world) → source.LaidOut)
    (hrun : processor.processFile path true named world = (.ok report, world'))
    (hstatus : report.status = .fixed) (hleft : report.diagnostics = []) :
    ∃ source collection desired separator diagnostics,
      (world.readText path = .ok source.text ∧
        processor.loadSource path source.text named world = (.ok source, world) ∧
        processor.config.rule.Desires processor.strategy source collection desired ∧
        Rule.separatorText processor.config.rule.separator = .ok separator ∧
        processor.config.rule.check processor.strategy source = .ok diagnostics) ∧
      let fixed := source.mended collection separator diagnostics
      (processor.config.dryRun.truthy = false → processor.config.parser.astSuffix ≠ .str "" →
        world'.at? path = some (.file (.text fixed.text) none)) ∧
      (fixed.text = (applyFixes source.text diagnostics).1 ∧ fixed.Holds source.text ∧
        fixed.owners.Perm collection) ∧
      (fixed.owners.map Declaration.name = desired ↔
        ¬ ∃ before ∈ collection, ∃ moved ∈ collection, ∃ after ∈ collection,
          Order.Neighbours desired before.name moved.name ∧
            Order.Neighbours desired moved.name after.name ∧
              moved.position < after.position ∧ after.position < before.position) := by
  obtain ⟨source, diagnostics, htext, hload, hcheck, hreport, happlied, hwritten⟩ :=
    fixed_of_dump hparser hrun hstatus
  obtain ⟨collection, desired, separator, hdesires, hseparator⟩ :=
    Rule.exists_desires (hexact source htext hload) hcheck happlied
  refine ⟨source, collection, desired, separator, diagnostics,
    ⟨htext, hload, hdesires, hseparator, hcheck⟩, fun hdry hsuffix => ?_, ⟨?_, ?_, ?_⟩, ?_⟩
  · obtain ⟨between, written, hwrite, hdiscard⟩ := hwritten hdry
    rw [hdesires.text_mended hseparator hcheck]
    exact at?_of_written hwrite hdiscard hsuffix
  · exact hdesires.text_mended hseparator hcheck
  · exact Rule.Desires.holds_mended source collection separator diagnostics
  · exact hdesires.owners_mended_perm hseparator hcheck
  · rw [hleft] at hreport
    exact hdesires.owners_mended_eq_iff hseparator hcheck (leftover_eq_nil_iff.1 hreport.symm)

/-! ### A file with a dump beside it -/

/-- A program with some statements. -/
def program (body : List Json) : Json := .obj [("type", .str "Program"), ("body", .arr body)]

/-- The default settings, with uses that are found in the text. -/
def textual : Processor where
  config := { Config.default with rule := { Rule.default with usageStrategy := .str "text" } }
  strategy := .text
  store := none

/-- The path of a source file. -/
def appPath : Path := ⟨0, ["App.tsx"]⟩

/-- A directory with a source file and some other files. -/
def directoryWorld (text : Text) (others : List (String × Entry)) : World where
  files := .directory (("App.tsx", .file (.text text) none) :: others) none
  workingDirectory := []
  home := ⟨1, []⟩
  environment := []
  now := 0
  parser := fun _ _ => .notStarted ""

/-- A directory with a source file and the dump of its tree. -/
def dumpWorld (source : Source) : World :=
  directoryWorld source.text
    [("App.tsx.estree.json", .file (.text (program source.body).compact.toList) none)]

/-- A file is loaded with the dump beside it, which is compared with its text. -/
theorem loadSource_beside {processor : Processor} {world : World} {path beside : Path}
    {body : List Json} (hbeside : processor.sidecar path = .ok beside)
    (hthere : world.pathExists beside = .ok true)
    (hread : world.readText beside = .ok (program body).compact.toList)
    (hplain : (program body).isPlain = true) (text : Text) :
    processor.loadSource path text none world =
      (do Run.ofExcept (Source.verify ⟨some path, text, body⟩)
          return ⟨some path, text, body⟩ : Run Source) world := by
  have hfound : processor.dump? path none world = (.ok (some beside), world) := by
    rw [dump?, hbeside]
    exact Run.bind_ok (Run.pathExists_iff.2 ⟨hthere, rfl⟩) _
  have hsource : Source.ofJson (some path) text (program body).compact.toList =
      .ok ⟨some path, text, body⟩ := by
    rw [Source.ofJson, Json.parse_compact hplain]
    rfl
  rw [loadSource, Run.bind_ok hfound]
  simp only
  rw [Run.bind_ok (Run.readText_iff.2 ⟨hread, rfl⟩),
    Run.bind_ok (Run.ofExcept_iff.2 ⟨hsource, rfl⟩)]

/-- A directory with a source file as it is on the disk and a dump of its tree. -/
def worldOnDisk (raw : Text) (body : List Json) : World :=
  directoryWorld raw
    [("App.tsx.estree.json", .file (.text (program body).compact.toList) none)]

/-- A file whose tree is dumped beside it is loaded with that tree, whatever its line ends are. -/
theorem loadSource_worldOnDisk {source : Source} (raw : Text) (hpath : source.path = some appPath)
    (hplain : (program source.body).isPlain = true) (hverify : source.verify = .ok ()) :
    textual.loadSource appPath source.text none (worldOnDisk raw source.body) =
      (.ok source, worldOnDisk raw source.body) := by
  have hdump : (worldOnDisk raw source.body).readText ⟨0, ["App.tsx.estree.json"]⟩ =
      .ok (program source.body).compact.toList :=
    congrArg Except.ok (Json.unifyLineEnds_compact hplain)
  have hsource : (⟨some appPath, source.text, source.body⟩ : Source) = source := by rw [← hpath]
  rw [loadSource_beside rfl rfl hdump hplain, hsource]
  exact Run.bind_iff.2 ⟨_, _, Run.ofExcept_iff.2 ⟨hverify, rfl⟩, rfl⟩

theorem loadSource_dumpWorld {source : Source} (hpath : source.path = some appPath)
    (hplain : (program source.body).isPlain = true) (hverify : source.verify = .ok ()) :
    textual.loadSource appPath source.text none (dumpWorld source) =
      (.ok source, dumpWorld source) :=
  loadSource_worldOnDisk source.text hpath hplain hverify

/-- A file is clean if the dump beside it fits its text and nothing is found in it. -/
theorem processStrictly_clean {processor : Processor} {world : World} {path beside : Path}
    {text : Text} {body : List Json} (htext : world.readText path = .ok text)
    (hbeside : processor.sidecar path = .ok beside) (hthere : world.pathExists beside = .ok true)
    (hread : world.readText beside = .ok (program body).compact.toList)
    (hplain : (program body).isPlain = true) (hverify : Source.verify ⟨some path, text, body⟩ = .ok ())
    (hcheck : processor.check ⟨some path, text, body⟩ world = (.ok [], world)) (fix : Bool) :
    processor.processStrictly path fix none world =
      (.ok { path := path, status := .clean }, world) := by
  have hload : processor.loadSource path text none world = (.ok ⟨some path, text, body⟩, world) := by
    rw [loadSource_beside hbeside hthere hread hplain, hverify]
    rfl
  rw [processStrictly, Run.bind_ok (Run.readText_iff.2 ⟨htext, rfl⟩), Run.bind_ok hload,
    Run.bind_ok hcheck]
  rfl

/-- The report on the file when some of its diagnostics have been applied. -/
def fixedReport (diagnostics applied : List Diagnostic) : Report where
  path := appPath
  status := .fixed
  diagnostics := leftover diagnostics applied
  changes := applied.length

/-- Without a parser there is one pass. -/
theorem fixPasses_textual {text : Text} {diagnostics : List Diagnostic}
    (happlied : (applyFixes text diagnostics).2 ≠ []) (world : World) :
    textual.fixPasses appPath 10 ⟨text, diagnostics, 0⟩ world =
      (.ok ⟨(applyFixes text diagnostics).1, leftover diagnostics (applyFixes text diagnostics).2,
        (applyFixes text diagnostics).2.length⟩, world) := by
  have hparser : textual.hasParser = false := rfl
  have hsome : (applyFixes text diagnostics).2.isEmpty = false := List.isEmpty_eq_false_iff.2 happlied
  rw [fixPasses]
  simp only [hsome, hparser, Bool.false_eq_true, if_false, Bool.not_false, if_true, Nat.zero_add]
  rfl

theorem fixFile_worldOnDisk {source : Source} {diagnostics : List Diagnostic} (raw : Text)
    (log : List LogRecord) (happlied : (applyFixes source.text diagnostics).2 ≠ []) :
    ∃ world', textual.fixFile appPath source diagnostics
        { worldOnDisk raw source.body with log := log } =
        (.ok (fixedReport diagnostics (applyFixes source.text diagnostics).2), world') ∧
      world'.at? appPath = some (.file (.text (applyFixes source.text diagnostics).1) none) := by
  have hlimit : Order.passLimit textual.config.fix.maxFixPasses = .ok 10 := rfl
  have hcount : (applyFixes source.text diagnostics).2.length ≠ 0 :=
    fun hzero => happlied (List.length_eq_zero_iff.1 hzero)
  obtain ⟨world', hwrite, hwritten⟩ : ∃ world',
      textual.writeFixed appPath (applyFixes source.text diagnostics).1
          { worldOnDisk raw source.body with log := log } = (.ok none, world') ∧
        world'.at? appPath = some (.file (.text (applyFixes source.text diagnostics).1) none) :=
    ⟨_, rfl, rfl⟩
  refine ⟨world', ?_, hwritten⟩
  rw [fixFile, Run.bind_ok (Run.ofExcept_iff.2 ⟨hlimit, rfl⟩),
    Run.bind_ok (fixPasses_textual happlied _), if_neg hcount]
  exact Run.bind_ok hwrite _

/-- A file with a dump beside it is fixed in one pass, and the result is written. -/
theorem processFile_worldOnDisk {source : Source} {raw : Text} {diagnostics : List Diagnostic}
    (hpath : source.path = some appPath) (hplain : (program source.body).isPlain = true)
    (hverify : source.verify = .ok ()) (hraw : raw.unifyLineEnds = source.text)
    (hcheck : Rule.default.check .text source = .ok diagnostics)
    (happlied : (applyFixes source.text diagnostics).2 ≠ []) :
    ∃ world', textual.processFile appPath true none (worldOnDisk raw source.body) =
        (.ok (fixedReport diagnostics (applyFixes source.text diagnostics).2), world') ∧
      world'.at? appPath = some (.file (.text (applyFixes source.text diagnostics).1) none) := by
  have hread : (worldOnDisk raw source.body).readText appPath = .ok source.text := by
    have hfile : (worldOnDisk raw source.body).fileAt appPath = .ok (.file (.text raw) none) := rfl
    rw [World.readText, hfile]
    exact congrArg Except.ok hraw
  have hsome : diagnostics.isEmpty = false := by
    rw [List.isEmpty_eq_false_iff]
    rintro rfl
    exact happlied (by rw [applyFixes_nil])
  obtain ⟨log, hlog⟩ : ∃ log, textual.check source (worldOnDisk raw source.body) =
      (.ok diagnostics, { worldOnDisk raw source.body with log := log }) :=
    check_of_rule hcheck _
  obtain ⟨world', hfix, hwritten⟩ := fixFile_worldOnDisk raw log happlied
  have hstrictly : textual.processStrictly appPath true none (worldOnDisk raw source.body) =
      (.ok (fixedReport diagnostics (applyFixes source.text diagnostics).2), world') := by
    rw [processStrictly, Run.bind_ok (Run.readText_iff.2 ⟨hread, rfl⟩),
      Run.bind_ok (loadSource_worldOnDisk raw hpath hplain hverify), Run.bind_ok hlog]
    simp only [hsome, Bool.false_eq_true, if_false, Bool.not_true]
    exact hfix
  exact ⟨world', processFile_done hstrictly, hwritten⟩

theorem processFile_dumpWorld {source : Source} {diagnostics : List Diagnostic}
    (hpath : source.path = some appPath) (hplain : (program source.body).isPlain = true)
    (hverify : source.verify = .ok ()) (hlines : source.text.unifyLineEnds = source.text)
    (hcheck : Rule.default.check .text source = .ok diagnostics)
    (happlied : (applyFixes source.text diagnostics).2 ≠ []) :
    ∃ world', textual.processFile appPath true none (dumpWorld source) =
        (.ok (fixedReport diagnostics (applyFixes source.text diagnostics).2), world') ∧
      world'.at? appPath = some (.file (.text (applyFixes source.text diagnostics).1) none) :=
  processFile_worldOnDisk hpath hplain hverify hlines hcheck happlied

section
set_option maxRecDepth 2000

/-- The file with the button last, at its path. -/
def buttonLastApp : Source := { Rule.buttonLast with path := some appPath }

theorem desires_buttonLast : textual.config.rule.Desires textual.strategy buttonLastApp
    [Rule.cssDeclaration "Title" 0 ⟨0, 20⟩ [], Rule.cssDeclaration "Wrapper" 1 ⟨21, 51⟩ ["Title"],
      Rule.cssDeclaration "Button" 2 ⟨52, 73⟩ []] (["Button", "Title", "Wrapper"].map .text) :=
  ⟨⟨[⟨0, 20⟩, ⟨21, 51⟩, ⟨52, 73⟩, ⟨74, 112⟩], rfl, by decide, by decide⟩, _, _, 1,
    ⟨Rule.analysed_buttonLast.collected, Rule.analysed_buttonLast.two_le,
      Rule.analysed_buttonLast.extracted, Rule.analysed_buttonLast.ranked⟩,
    Rule.reconcileRanked_buttonLast⟩

theorem check_buttonLastApp : textual.config.rule.check textual.strategy buttonLastApp =
    .ok [Rule.titleBehindButton Rule.buttonLast ⟨52, 73⟩] :=
  (Rule.check_path ..).trans Rule.check_buttonLast

theorem isPlain_buttonLast : (program buttonLastApp.body).isPlain = true := rfl

theorem verify_buttonLast (path : Option Path) :
    ({ buttonLastApp with path } : Source).verify = .ok () := by
  cbv

theorem unifyLineEnds_buttonLast : buttonLastApp.text.unifyLineEnds = buttonLastApp.text :=
  Text.unifyLineEnds_eq_self (by decide)

/-- **A file may be reported as fixed with nothing left and not be in the desired order.**  The
title is moved over the wrapper, which comes right behind it in the desired order. -/
theorem processFile_buttonLast :
    textual.hasParser = false ∧ buttonLastApp.LaidOut ∧
      (dumpWorld buttonLastApp).readText appPath = .ok buttonLastApp.text ∧
      textual.loadSource appPath buttonLastApp.text none (dumpWorld buttonLastApp) =
        (.ok buttonLastApp, dumpWorld buttonLastApp) ∧
      ∃ report world' collection diagnostics,
        textual.processFile appPath true none (dumpWorld buttonLastApp) = (.ok report, world') ∧
        report.status = .fixed ∧ report.diagnostics = [] ∧
        textual.config.rule.Desires textual.strategy buttonLastApp collection
          (["Button", "Title", "Wrapper"].map .text) ∧
        textual.config.rule.check textual.strategy buttonLastApp = .ok diagnostics ∧
        (buttonLastApp.mended collection ['\n'] diagnostics).owners.map Declaration.name =
          ["Wrapper", "Button", "Title"].map .text ∧
        world'.at? appPath = some (.file (.text (Rule.linesText ["const Wrapper = css`${Title}`;",
          "const Button = css``;", "const Title = css``;",
          "<Button><Title /><Wrapper /></Button>;"])) none) := by
  have hplain := isPlain_buttonLast
  have hverify := verify_buttonLast (some appPath)
  have happly : applyFixes buttonLastApp.text [Rule.titleBehindButton Rule.buttonLast ⟨52, 73⟩] =
      ((Edit.moveAfter Rule.buttonLast.text ⟨0, 20⟩ ⟨52, 73⟩ ['\n']).apply buttonLastApp.text,
        [Rule.titleBehindButton Rule.buttonLast ⟨52, 73⟩]) := applyFixes_singleton rfl
  have hread : (dumpWorld buttonLastApp).readText appPath = .ok buttonLastApp.text :=
    congrArg Except.ok unifyLineEnds_buttonLast
  obtain ⟨world', hrun, hwritten⟩ := processFile_dumpWorld rfl hplain hverify
    unifyLineEnds_buttonLast check_buttonLastApp (by rw [happly]; simp)
  refine ⟨rfl, desires_buttonLast.laidOut, hread, loadSource_dumpWorld rfl hplain hverify, _,
    world', _, _, hrun, rfl, ?_, desires_buttonLast, check_buttonLastApp, ?_, ?_⟩
  · rw [happly]
    rfl
  · rw [Source.mended, happly]
    rfl
  · rw [hwritten, happly]
    rfl

/-- The file with the button second, at its path. -/
def buttonSecondApp : Source := { Rule.buttonSecond with path := some appPath }

theorem isPlain_buttonSecond : (program buttonSecondApp.body).isPlain = true := rfl

theorem verify_buttonSecond : buttonSecondApp.verify = .ok () := by
  cbv

theorem unifyLineEnds_buttonSecond : buttonSecondApp.text.unifyLineEnds = buttonSecondApp.text :=
  Text.unifyLineEnds_eq_self (by decide)

theorem check_buttonSecondApp : Rule.default.check .text buttonSecondApp =
    .ok [Rule.titleBehindButton Rule.buttonSecond ⟨21, 42⟩] :=
  (Rule.check_path ..).trans Rule.check_buttonSecond

/-- The title is moved behind the button only, and all is in the desired order. -/
theorem processFile_reaches_buttonSecond :
    textual.hasParser = false ∧ buttonSecondApp.LaidOut ∧
      (dumpWorld buttonSecondApp).readText appPath = .ok buttonSecondApp.text ∧
      textual.loadSource appPath buttonSecondApp.text none (dumpWorld buttonSecondApp) =
        (.ok buttonSecondApp, dumpWorld buttonSecondApp) ∧
      ∃ report world' collection diagnostics,
        textual.processFile appPath true none (dumpWorld buttonSecondApp) = (.ok report, world') ∧
        report.status = .fixed ∧ report.diagnostics = [] ∧
        textual.config.rule.check textual.strategy buttonSecondApp = .ok diagnostics ∧
        (buttonSecondApp.mended collection ['\n'] diagnostics).owners.map Declaration.name =
          ["Button", "Title", "Wrapper"].map .text ∧
        world'.at? appPath = some (.file (.text
          (buttonSecondApp.mended collection ['\n'] diagnostics).text) none) := by
  have hlaidOut : buttonSecondApp.LaidOut :=
    ⟨[⟨0, 20⟩, ⟨21, 42⟩, ⟨43, 73⟩, ⟨74, 112⟩], rfl, by decide, by decide⟩
  have happly : applyFixes buttonSecondApp.text
        [Rule.titleBehindButton Rule.buttonSecond ⟨21, 42⟩] =
      ((Edit.moveAfter Rule.buttonSecond.text ⟨0, 20⟩ ⟨21, 42⟩ ['\n']).apply buttonSecondApp.text,
        [Rule.titleBehindButton Rule.buttonSecond ⟨21, 42⟩]) := applyFixes_singleton rfl
  have hread : (dumpWorld buttonSecondApp).readText appPath = .ok buttonSecondApp.text :=
    congrArg Except.ok unifyLineEnds_buttonSecond
  have hload := loadSource_dumpWorld rfl isPlain_buttonSecond verify_buttonSecond
  have hdesires : textual.config.rule.Desires textual.strategy buttonSecondApp
      [Rule.cssDeclaration "Title" 0 ⟨0, 20⟩ [], Rule.cssDeclaration "Button" 1 ⟨21, 42⟩ [],
        Rule.cssDeclaration "Wrapper" 2 ⟨43, 73⟩ ["Title"]]
      (["Button", "Title", "Wrapper"].map .text) :=
    ⟨hlaidOut, _, _, 1, ⟨Rule.analysed_buttonSecond.collected, Rule.analysed_buttonSecond.two_le,
      Rule.analysed_buttonSecond.extracted, Rule.analysed_buttonSecond.ranked⟩,
      Rule.reconcileRanked_buttonSecond⟩
  obtain ⟨world', hrun, -⟩ := processFile_dumpWorld rfl isPlain_buttonSecond verify_buttonSecond
    unifyLineEnds_buttonSecond check_buttonSecondApp (by rw [happly]; simp)
  have hleft : (fixedReport [Rule.titleBehindButton Rule.buttonSecond ⟨21, 42⟩]
      (applyFixes buttonSecondApp.text
        [Rule.titleBehindButton Rule.buttonSecond ⟨21, 42⟩]).2).diagnostics = [] := by
    rw [happly]
    rfl
  have hexact : ∀ source, (dumpWorld buttonSecondApp).readText appPath = .ok source.text →
      textual.loadSource appPath source.text none (dumpWorld buttonSecondApp) =
        (.ok source, dumpWorld buttonSecondApp) → source = buttonSecondApp := by
    intro source htext hloaded
    rw [← Except.ok.inj (hread.symm.trans htext), hload] at hloaded
    exact (Except.ok.inj (Prod.mk.inj hloaded).1).symm
  obtain ⟨source, collection, desired, separator, diagnostics,
    ⟨htext, hloaded, hdesires', hseparator, hcheck'⟩, hwritten, -, hreaches⟩ :=
    processFile_reaches_iff rfl (fun source htext hloaded => hexact source htext hloaded ▸ hlaidOut)
      hrun rfl hleft
  obtain rfl := hexact source htext hloaded
  obtain ⟨rfl, rfl⟩ := hdesires.unique hdesires'
  obtain rfl : ['\n'] = separator := Except.ok.inj hseparator
  refine ⟨rfl, hlaidOut, hread, hload, _, world', _, diagnostics, hrun, rfl, hleft, hcheck', ?_,
    hwritten rfl (by simp [textual, Config.default, ParserSettings.default])⟩
  refine hreaches.2 ?_
  rintro ⟨before, hbefore, moved, hmoved, after, -, hfirst, -, hlt, hlt'⟩
  -- Three declarations declared in the opposite order leave only the wrapper and the title.
  have hplaces : ∀ declaration ∈ [Rule.cssDeclaration "Title" 0 ⟨0, 20⟩ [],
      Rule.cssDeclaration "Button" 1 ⟨21, 42⟩ [],
      Rule.cssDeclaration "Wrapper" 2 ⟨43, 73⟩ ["Title"]],
      declaration.position = 0 ∧ declaration.name = .text "Title" ∨ declaration.position = 1 ∨
        declaration.position = 2 ∧ declaration.name = .text "Wrapper" := by
    simp [Rule.cssDeclaration]
  have hnames : before.name = .text "Wrapper" ∧ moved.name = .text "Title" := by
    rcases hplaces before hbefore with ⟨hbefore, -⟩ | hbefore | ⟨hbefore, hwrapper⟩
    · omega
    · omega
    rcases hplaces moved hmoved with ⟨-, htitle⟩ | hmoved | ⟨hmoved, -⟩
    · exact ⟨hwrapper, htitle⟩
    · omega
    · omega
  rw [hnames.1, hnames.2] at hfirst
  have hlast : Order.Precedes (["Button", "Title", "Wrapper"].map Name.text) (.text "Title")
      (.text "Wrapper") := List.sublist_cons_self ..
  exact hlast.asymm hdesires.nodup hfirst.precedes

end

end Processor
end UsageOrder
