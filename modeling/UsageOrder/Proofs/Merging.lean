import Mathlib.Data.List.Induction
import Mathlib.Data.List.Nodup
import UsageOrder.Config.Basic
import UsageOrder.Proofs.Keys
import UsageOrder.Proofs.Outcome

/-!
# Merging configurations

A configuration is its flags, its settings and the file it was read from (`Config.ext_of`), and each of
these is merged by itself: a flag stays set once it is set, and a setting gives way to one that differs
from its default (`Setting.of_merge`).  Over a sequence of configurations the last one that differs
counts (`Config.merge_sequence`).

Which settings a value gives is lost when it is read, so a setting that is given with its default value
cannot take the place of another one: merging lets the later configuration take precedence only where
it differs from the default (`Config.merge_precedence_iff`).
-/

namespace UsageOrder

/-- The flags of a configuration. -/
inductive Flag where
  | dryRun
  | verbose
  | quiet
deriving DecidableEq

/-- The settings of a configuration that are merged by comparison with their defaults. -/
inductive Setting where
  | extensions
  | markerNames
  | separator
  | usageStrategy
  | maxPasses
  | maxFixPasses
  | command
  | astSuffix
  | enabled
  | directory
  | compression
  | keepSessions
deriving DecidableEq

namespace Flag

/-- The value of a flag. -/
def of : Flag → Config → Json
  | .dryRun, config => config.dryRun
  | .verbose, config => config.verbose
  | .quiet, config => config.quiet

/-- Each flag is merged by itself. -/
theorem of_merge (flag : Flag) (base other : Config) :
    flag.of (base.merge other) = Config.mergeFlag (flag.of base) (flag.of other) := by
  cases flag <;> rfl

end Flag

namespace Setting

/-- The value of a setting. -/
def of : Setting → Config → Json
  | .extensions, config => config.extensions
  | .markerNames, config => config.rule.markerNames
  | .separator, config => config.rule.separator
  | .usageStrategy, config => config.rule.usageStrategy
  | .maxPasses, config => config.rule.maxPasses
  | .maxFixPasses, config => config.fix.maxFixPasses
  | .command, config => config.parser.command
  | .astSuffix, config => config.parser.astSuffix
  | .enabled, config => config.backup.enabled
  | .directory, config => config.backup.directory
  | .compression, config => config.backup.compression
  | .keepSessions, config => config.backup.keepSessions

/-- The default value of a setting. -/
def default (setting : Setting) : Json := setting.of Config.default

/-- Whether a configuration has a value for a setting that differs from its default. -/
def differs (setting : Setting) (config : Config) : Bool :=
  !(setting.of config).same setting.default

/-- Each setting is merged by itself. -/
theorem of_merge (setting : Setting) (base other : Config) : setting.of (base.merge other) =
    setting.default.override (setting.of base) (setting.of other) := by
  cases setting <;> rfl

theorem of_merge_eq (setting : Setting) (base other : Config) : setting.of (base.merge other) =
    if setting.differs other then setting.of other else setting.of base := by
  rw [of_merge, Json.override, differs]
  cases (setting.of other).same setting.default <;> rfl

/-- A default is equal to itself. -/
theorem differs_default (setting : Setting) : setting.differs Config.default = false := by
  cases setting <;> decide

theorem differs_merge (setting : Setting) (base other : Config) :
    setting.differs (base.merge other) = (setting.differs other || setting.differs base) := by
  simp only [differs, of_merge, Json.override]
  cases hsame : (setting.of other).same setting.default <;> simp [hsame]

end Setting

namespace Config

/-- **A configuration is its flags, its settings and its file.** -/
theorem ext_of {a b : Config} (hflags : ∀ flag : Flag, flag.of a = flag.of b)
    (hsettings : ∀ setting : Setting, setting.of a = setting.of b)
    (hfile : a.configFile = b.configFile) : a = b := by
  obtain ⟨_, _, _, _, ⟨_, _, _, _⟩, ⟨_⟩, ⟨_, _⟩, ⟨_, _, _, _⟩, _⟩ := a
  obtain ⟨_, _, _, _, ⟨_, _, _, _⟩, ⟨_⟩, ⟨_, _⟩, ⟨_, _, _, _⟩, _⟩ := b
  simp only [mk.injEq, Rule.mk.injEq, FixSettings.mk.injEq, ParserSettings.mk.injEq,
    BackupSettings.mk.injEq]
  exact ⟨hflags .dryRun, hflags .verbose, hflags .quiet, hsettings .extensions,
    ⟨hsettings .markerNames, hsettings .separator, hsettings .usageStrategy, hsettings .maxPasses⟩,
    hsettings .maxFixPasses, ⟨hsettings .command, hsettings .astSuffix⟩,
    ⟨hsettings .enabled, hsettings .directory, hsettings .compression, hsettings .keepSessions⟩,
    hfile⟩

/-! ### Sequences of configurations -/

variable {configs : List Config}

/-- **The last configuration that differs from the default has its way.** -/
theorem of_foldl_merge (setting : Setting) (base : Config) (configs : List Config) :
    setting.of (configs.foldl merge base) =
      setting.of ((configs.filter setting.differs).getLast?.getD base) := by
  induction configs using List.reverseRecOn with
  | nil => rfl
  | append_singleton configs last ih =>
    rw [List.foldl_append, List.foldl_cons, List.foldl_nil, Setting.of_merge_eq, List.filter_append]
    cases hdiffers : setting.differs last with
    | true => rw [if_pos rfl, List.filter_singleton, hdiffers]; simp
    | false => rw [List.filter_singleton, hdiffers, ih]; simp

/-- A flag is set once any configuration has set it. -/
theorem flag_foldl_merge (flag : Flag) (base : Config) (configs : List Config) :
    flag.of (configs.foldl merge base) =
      if configs.any fun config => (flag.of config).truthy then .bool true else flag.of base := by
  induction configs generalizing base with
  | nil => rfl
  | cons first configs ih =>
    rw [List.foldl_cons, ih, Flag.of_merge, mergeFlag, List.any_cons]
    cases (flag.of first).truthy <;> simp

theorem mergeFlag_of_set {other : Json} (h : other.truthy = true) (base : Json) :
    mergeFlag base other = .bool true :=
  if_pos h

theorem mergeFlag_of_unset {other : Json} (h : ¬ other.truthy = true) (base : Json) :
    mergeFlag base other = base :=
  if_neg h

theorem mergeFlag_assoc (a b c : Json) :
    mergeFlag (mergeFlag a b) c = mergeFlag a (mergeFlag b c) := by
  by_cases hc : c.truthy = true
  · rw [mergeFlag_of_set hc, mergeFlag_of_set hc, mergeFlag_of_set rfl]
  · rw [mergeFlag_of_unset hc, mergeFlag_of_unset hc]

theorem mergeFlag_again (base other : Json) :
    mergeFlag (mergeFlag base other) other = mergeFlag base other := by
  by_cases hset : other.truthy = true
  · rw [mergeFlag_of_set hset, mergeFlag_of_set hset]
  · rw [mergeFlag_of_unset hset]

theorem mergeFile_assoc (a b c : Option String) :
    mergeFile (mergeFile a b) c = mergeFile a (mergeFile b c) := by
  cases c with
  | none => rfl
  | some file =>
    by_cases hempty : file = "" <;> simp [mergeFile, hempty]

theorem merge_assoc (a b c : Config) : (a.merge b).merge c = a.merge (b.merge c) := by
  refine ext_of (fun flag => ?_) (fun setting => ?_) (mergeFile_assoc _ _ _)
  · simp only [Flag.of_merge, mergeFlag_assoc]
  · simp only [Setting.of_merge_eq, Setting.differs_merge]
    cases setting.differs c <;> simp

theorem merge_default (base : Config) : base.merge default = base := by
  refine ext_of (fun flag => ?_) (fun setting => ?_) rfl
  · rw [Flag.of_merge]
    cases flag <;> rfl
  · rw [Setting.of_merge_eq, Setting.differs_default]
    rfl

theorem mergeFile_again (base other : Option String) :
    mergeFile (mergeFile base other) other = mergeFile base other := by
  cases other with
  | none => rfl
  | some file => by_cases hempty : file = "" <;> simp [mergeFile, hempty]

theorem merge_again (base other : Config) : (base.merge other).merge other = base.merge other := by
  refine ext_of (fun flag => ?_) (fun setting => ?_) (mergeFile_again _ _)
  · simp only [Flag.of_merge, mergeFlag_again]
  · rw [Setting.of_merge_eq]
    cases hdiffers : setting.differs other with
    | true => rw [if_pos rfl, Setting.of_merge_eq, hdiffers, if_pos rfl]
    | false => rfl

/-- **What a sequence of merges gives.**  Each setting has its value in the last configuration in which
it differs from its default, or else in the base, and a flag is true once it is set in any of them.  So
merging is associative, the default configuration changes nothing, and merging a configuration again
changes nothing either. -/
theorem merge_sequence (base : Config) (configs : List Config) :
    (∀ setting : Setting, setting.of (configs.foldl merge base) =
        setting.of ((configs.filter setting.differs).getLast?.getD base)) ∧
      (∀ flag : Flag, flag.of (configs.foldl merge base) =
        if configs.any fun config => (flag.of config).truthy then .bool true else flag.of base) ∧
      (∀ other later, (base.merge other).merge later = base.merge (other.merge later)) ∧
      base.merge default = base ∧
      ∀ other, (base.merge other).merge other = base.merge other :=
  ⟨fun setting => of_foldl_merge setting base configs, fun flag => flag_foldl_merge flag base configs,
    merge_assoc base, merge_default base, merge_again base⟩

end Config

/-! ### What a value gives -/

namespace Json

/-- An object has no key twice. -/
def KeysDiffer : Json → Prop
  | .obj members => (members.map Prod.fst).Nodup
  | _ => True

variable {σ : Type} {set : σ → String → Json → Option σ} {toJson : σ → Json}

/-- **Settings that are assigned take the place of those in the base.**  What is said of setting one of
them is said of all that a value gives. -/
theorem get?_assign
    (hset : ∀ s key value s', set s key value = some s' → ∃ members, toJson s = .obj members ∧
      toJson s' = .obj (setMember key value members))
    {value : Json} (hkeys : value.KeysDiffer) {base result : σ}
    (h : value.assign set base = .ok result) (key : String) :
    (toJson result).get? key = (value.get? key).or ((toJson base).get? key) := by
  cases value with
  | obj members =>
    rw [assign] at h
    induction members generalizing base with
    | nil =>
      rw [← Except.ok.inj h]
      rfl
    | cons member members ih =>
      obtain ⟨name, value⟩ := member
      obtain ⟨hnew, hkeys⟩ := List.nodup_cons.1 hkeys
      rw [List.foldlM_cons] at h
      obtain ⟨next, hnext, h⟩ := bind_eq_ok_iff.1 h
      have hstep : set base name value = some next := by
        dsimp only at hnext
        split at hnext
        · rename_i found hfound
          rw [hfound, Except.ok.inj hnext]
        · exact absurd hnext (by simp)
      obtain ⟨inner, hbase, hresult⟩ := hset _ _ _ _ hstep
      rw [ih hkeys h, hbase, hresult, get?, get?, get?, get?, memberOf?_setMember, memberOf?_cons]
      by_cases hkey : key = name
      · have hnone : memberOf? key members = none := lookup_eq_none_iff.2 (hkey ▸ hnew)
        rw [if_pos hkey, if_pos hkey, hnone]
        rfl
      · rw [if_neg hkey, if_neg hkey]
  | _ => exact absurd h (by simp [assign])

end Json

/-! ### Setting one setting -/

theorem Rule.toJson_set? (rule : Rule) (key : String) (value : Json) (rule' : Rule)
    (h : rule.set? key value = some rule') : ∃ members, rule.toJson = .obj members ∧
      rule'.toJson = .obj (Json.setMember key value members) := by
  refine ⟨_, rfl, ?_⟩
  rw [set?] at h
  split_ifs at h with hmarkers hseparator hstrategy hpasses
  all_goals
    obtain rfl := Option.some.inj h
    subst key
    rfl

theorem FixSettings.toJson_set? (fix : FixSettings) (key : String) (value : Json)
    (fix' : FixSettings) (h : fix.set? key value = some fix') : ∃ members, fix.toJson = .obj members ∧
      fix'.toJson = .obj (Json.setMember key value members) := by
  refine ⟨_, rfl, ?_⟩
  rw [set?] at h
  split_ifs at h
  obtain rfl := Option.some.inj h
  subst key
  rfl

theorem ParserSettings.toJson_set? (parser : ParserSettings) (key : String) (value : Json)
    (parser' : ParserSettings) (h : parser.set? key value = some parser') :
    ∃ members, parser.toJson = .obj members ∧
      parser'.toJson = .obj (Json.setMember key value members) := by
  refine ⟨_, rfl, ?_⟩
  rw [set?] at h
  split_ifs at h
  all_goals
    obtain rfl := Option.some.inj h
    subst key
    rfl

theorem BackupSettings.toJson_set? (backup : BackupSettings) (key : String) (value : Json)
    (backup' : BackupSettings) (h : backup.set? key value = some backup') :
    ∃ members, backup.toJson = .obj members ∧
      backup'.toJson = .obj (Json.setMember key value members) := by
  refine ⟨_, rfl, ?_⟩
  rw [set?] at h
  split_ifs at h
  all_goals
    obtain rfl := Option.some.inj h
    subst key
    rfl

namespace Setting

/-- The section that a setting is in, if it is in one. -/
def part? : Setting → Option String
  | .extensions => none
  | .markerNames | .separator | .usageStrategy | .maxPasses => some "rule"
  | .maxFixPasses => some "fix"
  | .command | .astSuffix => some "parser"
  | .enabled | .directory | .compression | .keepSessions => some "backup"

/-- The key of a setting in its section. -/
def key : Setting → String
  | .extensions => "extensions"
  | .markerNames => "marker_names"
  | .separator => "separator"
  | .usageStrategy => "usage_strategy"
  | .maxPasses => "max_passes"
  | .maxFixPasses => "max_fix_passes"
  | .command => "command"
  | .astSuffix => "ast_suffix"
  | .enabled => "enabled"
  | .directory => "directory"
  | .compression => "compression"
  | .keepSessions => "keep_sessions"

/-- The value that data give for a setting, if they mention it. -/
def given? (setting : Setting) (data : Json) : Option Json :=
  match setting.part? with
  | none => data.get? setting.key
  | some part => (data.get? part).bind (Json.get? setting.key)

end Setting

namespace Config

variable {data : Json} {config other : Config}

/-- A part of a configuration is read from what stands under its key, or else that of the base. -/
theorem setting_cases {σ : Type} {key : String} {read : Json → Except Fault σ} {base result : σ}
    (h : setting data key read base = .ok result) :
    data.get? key = none ∧ result = base ∨
      ∃ value, data.get? key = some value ∧ read value = .ok result := by
  obtain ⟨there, hthere, h⟩ := bind_eq_ok_iff.1 h
  cases there with
  | true =>
    obtain ⟨value, hvalue, h⟩ := bind_eq_ok_iff.1 h
    refine Or.inr ⟨value, ?_, h⟩
    cases data with
    | obj members =>
      rw [Json.require] at hvalue
      split at hvalue
      · rename_i found hfound
        rw [← Except.ok.inj hvalue]
        exact hfound
      · exact absurd hvalue (by simp)
    | _ => exact absurd hvalue (by simp [Json.require])
  | false =>
    refine Or.inl ⟨?_, (Except.ok.inj h).symm⟩
    cases data with
    | obj members =>
      exact Option.isNone_iff_eq_none.1 (Option.isSome_eq_false_iff.1 (Except.ok.inj hthere))
    | _ => rfl

/-- What data give for the settings of a section takes the place of the defaults. -/
theorem get?_setting {σ : Type} {set : σ → String → Json → Option σ} {toJson : σ → Json}
    (hset : ∀ s key value s', set s key value = some s' → ∃ members, toJson s = .obj members ∧
      toJson s' = .obj (Json.setMember key value members))
    {part : String} (hkeys : ∀ value, data.get? part = some value → value.KeysDiffer)
    {base result : σ} (h : setting data part (Json.assign set base) base = .ok result) (key : String) :
    (toJson result).get? key =
      ((data.get? part).bind (Json.get? key)).or ((toJson base).get? key) := by
  rcases setting_cases h with ⟨hnone, rfl⟩ | ⟨value, hvalue, hread⟩
  · rw [hnone]
    rfl
  · rw [hvalue, Json.get?_assign hset (hkeys value hvalue) hread]
    rfl

/-- Each part of a configuration is read from what stands under its key. -/
structure ReadFrom (data : Json) (config : Config) : Prop where
  extensions : setting data "extensions" .ok default.extensions = .ok config.extensions
  rule : setting data "rule" Rule.ofJson default.rule = .ok config.rule
  fix : setting data "fix" FixSettings.ofJson default.fix = .ok config.fix
  parser : setting data "parser" ParserSettings.ofJson default.parser = .ok config.parser
  backup : setting data "backup" BackupSettings.ofJson default.backup = .ok config.backup

theorem readFrom_of_ofJson (h : ofJson data = .ok config) : ReadFrom data config := by
  obtain ⟨dryRun, -, h⟩ := bind_eq_ok_iff.1 h
  obtain ⟨verbose, -, h⟩ := bind_eq_ok_iff.1 h
  obtain ⟨quiet, -, h⟩ := bind_eq_ok_iff.1 h
  obtain ⟨extensions, hextensions, h⟩ := bind_eq_ok_iff.1 h
  obtain ⟨rule, hrule, h⟩ := bind_eq_ok_iff.1 h
  obtain ⟨fix, hfix, h⟩ := bind_eq_ok_iff.1 h
  obtain ⟨parser, hparser, h⟩ := bind_eq_ok_iff.1 h
  obtain ⟨backup, hbackup, h⟩ := bind_eq_ok_iff.1 h
  obtain rfl := Except.ok.inj h
  exact ⟨hextensions, hrule, hfix, hparser, hbackup⟩

/-- **A configuration that is read has the settings that are given, and else the defaults.** -/
theorem of_ofJson (hkeys : ∀ part value, data.get? part = some value → value.KeysDiffer)
    (h : ofJson data = .ok config) (setting : Setting) :
    setting.of config = (setting.given? data).getD setting.default := by
  have hread := readFrom_of_ofJson h
  have hrule := get?_setting Rule.toJson_set? (hkeys "rule") hread.rule
  have hfix := get?_setting FixSettings.toJson_set? (hkeys "fix") hread.fix
  have hparser := get?_setting ParserSettings.toJson_set? (hkeys "parser") hread.parser
  have hbackup := get?_setting BackupSettings.toJson_set? (hkeys "backup") hread.backup
  have hgiven : some (setting.of config) = (setting.given? data).or (some setting.default) := by
    cases setting with
    | extensions =>
      rcases setting_cases hread.extensions with ⟨hnone, hdefault⟩ | ⟨value, hvalue, hok⟩
      · exact (congrArg some hdefault).trans (congrArg (Option.or · _) hnone).symm
      · obtain rfl := Except.ok.inj hok
        exact (congrArg (Option.or · _) hvalue).symm
    | markerNames => exact hrule "marker_names"
    | separator => exact hrule "separator"
    | usageStrategy => exact hrule "usage_strategy"
    | maxPasses => exact hrule "max_passes"
    | maxFixPasses => exact hfix "max_fix_passes"
    | command => exact hparser "command"
    | astSuffix => exact hparser "ast_suffix"
    | enabled => exact hbackup "enabled"
    | directory => exact hbackup "directory"
    | compression => exact hbackup "compression"
    | keepSessions => exact hbackup "keep_sessions"
  exact Option.some.inj (hgiven.trans Option.or_some)

/-! ### Which settings take precedence -/

/-- **When a setting that is given takes precedence.**  After a merge a setting has the value that is
given exactly when this value differs from the default or the base has it already, and a setting that
is not mentioned is that of the base. -/
theorem merge_precedence_iff
    (hkeys : ∀ part value, data.get? part = some value → value.KeysDiffer)
    (h : ofJson data = .ok other) (base : Config) (setting : Setting) :
    (∀ value, setting.given? data = some value → (setting.of (base.merge other) = value ↔
        value.same setting.default = false ∨ setting.of base = value)) ∧
      (setting.given? data = none → setting.of (base.merge other) = setting.of base) := by
  have hof := of_ofJson hkeys h setting
  constructor
  · intro value hvalue
    rw [hvalue, Option.getD_some] at hof
    rw [Setting.of_merge, hof, Json.override]
    cases hsame : value.same setting.default with
    | true => simp
    | false => simp
  · intro hnone
    rw [hnone, Option.getD_none] at hof
    have hdiffers : setting.differs other = false := by
      rw [Setting.differs, hof]
      exact setting.differs_default
    rw [Setting.of_merge_eq, hdiffers]
    rfl

/-- Data that give one setting of a section. -/
def oneSetting (part key : String) (value : Json) : Json := .obj [(part, .obj [(key, value)])]

theorem keysDiffer_of_oneSetting {part key name : String} {value found : Json}
    (h : (oneSetting part key value).get? name = some found) : found.KeysDiffer := by
  rw [oneSetting, Json.get?, Json.memberOf?_cons] at h
  split_ifs at h
  · obtain rfl := Option.some.inj h
    exact List.nodup_singleton key
  · exact absurd h (by simp [Json.memberOf?])

/-- Two line feeds take the place of the default separator, and markers that are not mentioned stay. -/
theorem merge_precedence_twoLineFeeds :
    ∃ base other : Config,
      ofJson (oneSetting "rule" "marker_names" (.arr [.str "styled"])) = .ok base ∧
      ofJson (oneSetting "rule" "separator" (.str "\n\n")) = .ok other ∧
      Setting.separator.of (base.merge other) = .str "\n\n" ∧
      Setting.markerNames.of (base.merge other) = .arr [.str "styled"] := by
  have hother : ofJson (oneSetting "rule" "separator" (.str "\n\n")) =
      .ok { default with rule := { default.rule with separator := .str "\n\n" } } := rfl
  have hmerge := merge_precedence_iff (fun _ _ => keysDiffer_of_oneSetting) hother
    { default with rule := { default.rule with markerNames := .arr [.str "styled"] } }
  exact ⟨_, _, rfl, hother, ((hmerge .separator).1 _ rfl).2 (Or.inl rfl), (hmerge .markerNames).2 rfl⟩

/-- **A setting that is given with its default value does not take precedence:** one line feed as the
separator, given on top of two, leaves two. -/
theorem merge_keepsTwoLineFeeds :
    ∃ base other : Config,
      ofJson (oneSetting "rule" "separator" (.str "\n\n")) = .ok base ∧
      ofJson (oneSetting "rule" "separator" (.str "\n")) = .ok other ∧
      Setting.separator.given? (oneSetting "rule" "separator" (.str "\n")) = some (.str "\n") ∧
      Setting.separator.of (base.merge other) = .str "\n\n" ∧
      Setting.separator.of (base.merge other) ≠ .str "\n" :=
  ⟨_, _, rfl, rfl, rfl, rfl,
    fun h => absurd (Json.str.inj (h : Json.str "\n\n" = .str "\n")) (by decide)⟩

end Config
end UsageOrder
