import UsageOrder.Config.Basic

/-!
# Validation

The complaints about a configuration, in the order of its settings.  A setting of a kind that cannot
even be looked at is a fault rather than a complaint.
-/

namespace UsageOrder
namespace Config

/-- Whether a value is a number below one. -/
def belowOne (value : Json) : Except Fault Bool :=
  match value.size? with
  | some size => .ok (size.less (.finite 1))
  | none => .error .unsuitable

/-- A complaint about a setting if a condition holds. -/
def complain (condition : Bool) (message : String) : List String :=
  if condition then [message] else []

/-- The complaint about an extension that does not start with a dot. -/
def extensionComplaint (extension : Json) : Except Fault (List String) :=
  match extension with
  | .str s => .ok (complain (s.toList.head? != some '.') ("Invalid extension: " ++ s))
  | _ => .error .noSuchMember

/-- The complaints about a configuration. -/
def validate (config : Config) : Except Fault (List String) := do
  let rule := config.rule
  let markers := complain (!rule.markerNames.truthy) "At least one marker name is required"
  let separator := complain (!(rule.separator.same (.str "\n") || rule.separator.same (.str "\n\n")))
    ("Invalid separator: " ++ rule.separator.shown ++ " (use one or two newlines)")
  let strategy :=
    complain (!(rule.usageStrategy.same (.str "structural") || rule.usageStrategy.same (.str "text")))
      ("Invalid usage strategy: " ++ rule.usageStrategy.plain)
  let passes := complain (← belowOne rule.maxPasses) "max_passes must be positive"
  let fixPasses := complain (← belowOne config.fix.maxFixPasses) "max_fix_passes must be positive"
  let extensions ← (← config.extensions.items).mapM extensionComplaint
  .ok (markers ++ separator ++ strategy ++ passes ++ fixPasses ++ extensions.flatten)

end Config
end UsageOrder
