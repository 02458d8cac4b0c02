import UsageOrder.Styled.References
import UsageOrder.Order.Reconcile
import UsageOrder.Order.Usage
import UsageOrder.Patch.Fixes
import UsageOrder.Tree.Source

/-!
# The ordering rule

A file is checked in four steps: its styled declarations are collected, what each refers to is
listed, each is ranked by its first use, and the desired order is worked out.  A declaration is out
of place when it stands before the one that immediately precedes it in the desired order.  Where
there is no desired order, the first of the declarations concerned is reported without a fix.
-/

namespace UsageOrder

/-- The settings of the rule; they may be values of any kind. -/
structure Rule where
  markerNames : Json
  separator : Json
  usageStrategy : Json
  maxPasses : Json

/-- What a check finds: diagnostics without a position, and a warning if there is no order. -/
structure Findings where
  warning : Option String := none
  diagnostics : List Diagnostic := []

namespace Findings

/-- The diagnostics with their positions in the text. -/
def located (findings : Findings) (text : Text) : Except Fault (List Diagnostic) :=
  findings.diagnostics.mapM (Diagnostic.locate text)

end Findings

namespace Rule

/-- The settings where none are given. -/
def default : Rule where
  markerNames := .arr (Styled.defaultMarkers.map Json.str)
  separator := .str "\n"
  usageStrategy := .str "structural"
  maxPasses := .int 1000

/-- The text of a separator. -/
def separatorText (separator : Json) : Except Fault Text :=
  match separator with
  | .str s => .ok s.toList
  | _ => .error .noSuchMember

/-- The diagnostic for a declaration that stands before its predecessor in the desired order. -/
def misplaced (text : Text) (separator : Json) (declaration reference : Declaration) :
    Except Fault Diagnostic := do
  let separator ← separatorText separator
  .ok {
    name := declaration.name
    anchor := declaration.anchor
    message := "Declaration of " ++ declaration.name.plain ++ " should be after " ++
      reference.name.plain
    predecessor := some reference.name
    fix := some (Edit.moveAfter text declaration.range reference.range separator) }

/-- The declarations, in the desired order, that stand before the one in front of them. -/
def displacedPairs (desired : List Declaration) : List (Declaration × Declaration) :=
  (desired.zip (desired.drop 1)).filter fun pair => decide (pair.2.position ≤ pair.1.position)

/-- Diagnostics for the declarations that are out of place. -/
def displaced (text : Text) (separator : Json) (collection : Collection) (order : List Name) :
    Except Fault (List Diagnostic) :=
  (displacedPairs (order.filterMap collection.named?)).mapM fun pair =>
    misplaced text separator pair.2 pair.1

/-- The declaration at which an unresolvable order is reported: the first one on the cycle, or of
all if there is no cycle. -/
def firstConcerned (collection : Collection) (cycle : List String) : Option Declaration :=
  let involved := collection.filter fun declaration =>
    cycle.any fun name => declaration.name == .text name
  if involved.isEmpty then collection.head? else involved.head?

/-- The diagnostic for an order that cannot be resolved. -/
def unresolvable (collection : Collection) (cause : OrderFault) : List Diagnostic :=
  let detail := if cause.path.isEmpty then cause.message else " -> ".intercalate cause.path
  ((firstConcerned collection cause.path).map fun declaration => {
    name := declaration.name
    anchor := declaration.anchor
    message := "Unresolvable ordering of styled declarations: " ++ detail }).toList

/-- What the rule finds in a source whose uses are found by a strategy. -/
def findings (rule : Rule) (strategy : UsageStrategy) (source : Source) :
    Except Fault Findings := do
  let collection ← Collection.ofStatements (← rule.markerNames.items) source.body
  if collection.length < 2 then .ok {}
  else
    let prerequisites ← collection.prerequisites
    let uses ← FirstUses.find strategy source.body source.text collection
    match Order.reconcileRanked collection.names uses.ranks prerequisites rule.maxPasses with
    | .ok settled =>
      .ok { diagnostics := ← displaced source.text rule.separator collection settled.order }
    | .error (.unresolvable cause) =>
      .ok { warning := some (source.label ++ ": " ++ cause.message)
            diagnostics := unresolvable collection cause }
    | .error fault => .error fault

/-- The diagnostics of a source. -/
def check (rule : Rule) (strategy : UsageStrategy) (source : Source) :
    Except Fault (List Diagnostic) := do
  (← rule.findings strategy source).located source.text

end Rule
end UsageOrder
