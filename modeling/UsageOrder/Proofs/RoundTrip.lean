import UsageOrder.Proofs.Merging

/-!
# Configurations as values and back

The value of a configuration has every setting in it, each section under its key.  Reading it gives
every section back (`Rule.ofJson_toJson` and its companions) and so the whole configuration but for the
file that it was read from (`Config.ofJson_toJson`).

In the other direction, data that are read may leave settings out.  The value of what they give is the
default one with the members that are given in place of its own, section by section
(`Config.toJson_of_ofJson`): a member of a section stands under the key of a setting, and a setting is
the one that is given or else its default (`Config.of_ofJson`).  Keys that are not those of a setting are
lost where they stand beside the sections, and inside a section they are refused.
-/

namespace UsageOrder

namespace Json

/-- An object with what data give under its keys in place of its members, each of which is replaced by
itself.  A value of another kind is replaced as a whole. -/
def overlayBy (replace : Json → Json → Json) (base data : Json) : Json :=
  match base with
  | .obj members => .obj (members.map fun member =>
      (member.1, ((data.get? member.1).map (replace member.2)).getD member.2))
  | _ => data

/-- The members of a section with those that are given in their place. -/
def overlay : Json → Json → Json := overlayBy fun _ given => given

/-- In place of a value that is not an object stands what is given. -/
theorem getD_map_overlay {base : Json} (h : ∀ members, base ≠ .obj members) (given : Option Json) :
    (given.map (overlay base)).getD base = given.getD base := by
  cases given with
  | none => rfl
  | some value =>
    cases base with
    | obj members => exact absurd rfl (h members)
    | _ => rfl

end Json

/-! ### Reading a value that has every setting -/

theorem Rule.ofJson_toJson (rule : Rule) : ofJson rule.toJson = .ok rule := rfl

theorem FixSettings.ofJson_toJson (fix : FixSettings) : ofJson fix.toJson = .ok fix := rfl

theorem ParserSettings.ofJson_toJson (parser : ParserSettings) :
    ofJson parser.toJson = .ok parser := rfl

theorem BackupSettings.ofJson_toJson (backup : BackupSettings) :
    ofJson backup.toJson = .ok backup := rfl

namespace Flag

/-- The key of a flag. -/
def key : Flag → String
  | .dryRun => "dry_run"
  | .verbose => "verbose"
  | .quiet => "quiet"

/-- The default value of a flag. -/
def default (flag : Flag) : Json := flag.of Config.default

end Flag

/-- The sections of a configuration with their settings. -/
def Setting.parts : List (String × List Setting) := [
  ("rule", [.markerNames, .separator, .usageStrategy, .maxPasses]), ("fix", [.maxFixPasses]),
  ("parser", [.command, .astSuffix]), ("backup", [.enabled, .directory, .compression, .keepSessions])]

theorem Setting.part?_of_mem_parts {part : String × List Setting} (hpart : part ∈ parts)
    {setting : Setting} (h : setting ∈ part.2) : setting.part? = some part.1 := by
  revert part setting
  decide

namespace Config

variable {data : Json} {config : Config}

/-- What stands under the key of a part is read for it. -/
theorem setting_of_member {σ : Type} {key : String} {members : List (String × Json)} {value : Json}
    (h : Json.memberOf? key members = some value) (read : Json → Except Fault σ) (base : σ) :
    setting (.obj members) key read base = read value := by
  simp only [setting, Json.mentions, Json.require, h, Option.isSome_some]
  rfl

/-- **A configuration is read back from its value**, but for the file that it was read from. -/
theorem ofJson_toJson (config : Config) :
    ofJson config.toJson = .ok { config with configFile := none } := by
  rw [ofJson, toJson]
  rw [setting_of_member rfl, setting_of_member rfl, setting_of_member rfl, setting_of_member rfl,
    setting_of_member rfl, setting_of_member rfl, setting_of_member rfl, setting_of_member rfl,
    Rule.ofJson_toJson, FixSettings.ofJson_toJson, ParserSettings.ofJson_toJson,
    BackupSettings.ofJson_toJson]
  rfl

/-! ### The value of what is read -/

/-- A general setting that is read is the one that is given, or else the default. -/
theorem eq_getD_of_setting {key : String} {base result : Json}
    (h : setting data key .ok base = .ok result) : result = (data.get? key).getD base := by
  rcases setting_cases h with ⟨hnone, rfl⟩ | ⟨value, hvalue, hread⟩
  · rw [hnone, Option.getD_none]
  · rw [hvalue, Option.getD_some, Except.ok.inj hread]

/-- A flag that is read is the one that is given, or else it is not set. -/
theorem flag_of_ofJson (h : ofJson data = .ok config) (flag : Flag) :
    flag.of config = (data.get? flag.key).getD flag.default := by
  obtain ⟨dryRun, hdryRun, h⟩ := bind_eq_ok_iff.1 h
  obtain ⟨verbose, hverbose, h⟩ := bind_eq_ok_iff.1 h
  obtain ⟨quiet, hquiet, h⟩ := bind_eq_ok_iff.1 h
  have hflags : config.dryRun = dryRun ∧ config.verbose = verbose ∧ config.quiet = quiet := by
    obtain ⟨_, -, h⟩ := bind_eq_ok_iff.1 h
    obtain ⟨_, -, h⟩ := bind_eq_ok_iff.1 h
    obtain ⟨_, -, h⟩ := bind_eq_ok_iff.1 h
    obtain ⟨_, -, h⟩ := bind_eq_ok_iff.1 h
    obtain ⟨_, -, h⟩ := bind_eq_ok_iff.1 h
    rw [← Except.ok.inj h]
    exact ⟨rfl, rfl, rfl⟩
  obtain ⟨rfl, rfl, rfl⟩ := hflags
  cases flag with
  | dryRun => exact eq_getD_of_setting hdryRun
  | verbose => exact eq_getD_of_setting hverbose
  | quiet => exact eq_getD_of_setting hquiet

/-- The members of some settings. -/
def membersOf (config : Config) (settings : List Setting) : List (String × Json) :=
  settings.map fun setting => (setting.key, setting.of config)

/-- The value of a configuration has its flags, its extensions and its sections. -/
theorem toJson_eq (config : Config) : config.toJson = .obj
    ([Flag.dryRun, Flag.verbose, Flag.quiet].map (fun flag => (flag.key, flag.of config)) ++
      config.membersOf [.extensions] ++
      Setting.parts.map fun part => (part.1, .obj (config.membersOf part.2))) :=
  rfl

/-- The settings of a section are the default ones with those that are given in their place. -/
theorem section_eq (hof : ∀ setting : Setting,
      setting.of config = (setting.given? data).getD setting.default)
    {part : String} {settings : List Setting}
    (hpart : ∀ setting ∈ settings, setting.part? = some part) :
    Json.obj (config.membersOf settings) =
      ((data.get? part).map (Json.overlay (.obj (default.membersOf settings)))).getD
        (.obj (default.membersOf settings)) := by
  have hmember {setting : Setting} (hmem : setting ∈ settings) : setting.of config =
      (((data.get? part).bind (Json.get? setting.key)).getD setting.default) := by
    rw [hof, Setting.given?, hpart setting hmem]
  cases hgiven : data.get? part with
  | none =>
    refine congrArg Json.obj (List.map_congr_left fun setting hmem => ?_)
    rw [hmember hmem, hgiven]
    rfl
  | some value =>
    rw [Option.map_some, Option.getD_some, Json.overlay, Json.overlayBy, membersOf, membersOf,
      List.map_map]
    refine congrArg Json.obj (List.map_congr_left fun setting hmem => ?_)
    rw [hmember hmem, hgiven, Function.comp_apply, Option.map_id']
    rfl

/-- **The value of a configuration that is read** is that of the default one with the members that are
given in place of its own, section by section. -/
theorem toJson_of_ofJson (hkeys : ∀ part value, data.get? part = some value → value.KeysDiffer)
    (h : ofJson data = .ok config) : config.toJson = default.toJson.overlayBy Json.overlay data := by
  rw [toJson_eq, toJson_eq default, Json.overlayBy, List.map_append, List.map_append, List.map_map,
    List.map_map]
  refine congrArg Json.obj (congrArg₂ (· ++ ·) (congrArg₂ (· ++ ·) ?flags ?extensions) ?sections)
  case flags =>
    refine List.map_congr_left fun flag _ => ?_
    have hdefault (members) : flag.default ≠ .obj members := by cases flag <;> exact Json.noConfusion
    rw [flag_of_ofJson h, ← Json.getD_map_overlay hdefault]
    rfl
  case extensions =>
    rw [membersOf, membersOf, List.map_map]
    refine List.map_congr_left fun setting hmem => ?_
    obtain rfl := List.mem_singleton.1 hmem
    rw [of_ofJson hkeys h, ← Json.getD_map_overlay fun _ => Json.noConfusion]
    rfl
  case sections =>
    refine List.map_congr_left fun part hpart => ?_
    rw [section_eq (of_ofJson hkeys h) fun setting => Setting.part?_of_mem_parts hpart]
    rfl

/-- **A configuration and its value.**  Reading the value of any configuration gives it back but for the
file that it was read from, and the value of a configuration that is read from an object is that of the
default one with the members that are given in place of its own, section by section. -/
theorem roundTrip :
    (∀ config : Config, ofJson config.toJson = .ok { config with configFile := none }) ∧
      ∀ {members : List (String × Json)} {config : Config},
        (∀ part value, Json.get? part (.obj members) = some value → value.KeysDiffer) →
        ofJson (.obj members) = .ok config →
        config.toJson = default.toJson.overlayBy Json.overlay (.obj members) :=
  ⟨ofJson_toJson, toJson_of_ofJson⟩

/-- Two line feeds as the separator stand in the default value in place of the default separator. -/
theorem roundTrip_twoLineFeeds :
    ∃ config : Config, ofJson (oneSetting "rule" "separator" (.str "\n\n")) = .ok config ∧
      config.toJson = default.toJson.overlayBy Json.overlay
        (oneSetting "rule" "separator" (.str "\n\n")) ∧
      config.toJson.get? "rule" = some (.obj [("marker_names", default.rule.markerNames),
        ("separator", .str "\n\n"), ("usage_strategy", default.rule.usageStrategy),
        ("max_passes", default.rule.maxPasses)]) ∧
      ofJson config.toJson = .ok config :=
  have hread : ofJson (oneSetting "rule" "separator" (.str "\n\n")) =
      .ok { default with rule := { default.rule with separator := .str "\n\n" } } := rfl
  have hvalue := roundTrip.2 (fun _ _ => keysDiffer_of_oneSetting) hread
  ⟨_, hread, hvalue, rfl, roundTrip.1 _⟩

end Config
end UsageOrder
