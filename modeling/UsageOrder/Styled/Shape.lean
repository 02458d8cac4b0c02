import UsageOrder.Name
import UsageOrder.Json.Access
import UsageOrder.Tree.Node

/-!
# The shape of a styled initializer

An initializer is styled when the chain of its tag or callee leads down to a marker, such as
`styled` or `css`.

| shape | written as |
|---|---|
| `taggedTemplate` | the tag is no call |
| `taggedCall` | the tag is a call |
| `chainedCall` | a call without a template |
-/

namespace UsageOrder

/-- The shapes of a styled initializer. -/
inductive Shape where
  | taggedTemplate
  | taggedCall
  | chainedCall
deriving DecidableEq, Repr

/-- What makes an initializer styled: its shape and the marker at its root. -/
structure Styled where
  shape : Shape
  marker : Name
deriving Repr

namespace Json

mutual
/-- The name at the root of a chain of member accesses and calls, null if the chain ends in
anything else. -/
def root : Json → Except Fault Json
  | .obj members =>
    match (Json.obj members).kind with
    | .identifier => (Json.obj members).require "name"
    | .member => rootUnder "object" members
    | .call => rootUnder "callee" members
    | _ => .ok .null
  | _ => .ok .null
termination_by structural value => value

/-- The root of the member under a key. -/
def rootUnder (key : String) : List (String × Json) → Except Fault Json
  | [] => .ok .null
  | member :: members => if member.1 = key then rootOfMember member else rootUnder key members
termination_by structural members => members

/-- The root of a member. -/
def rootOfMember : String × Json → Except Fault Json
  | (_, value) => root value
termination_by structural member => member
end

end Json

namespace Styled

/-- The markers of a styled initializer unless others are configured. -/
def defaultMarkers : List String := ["styled", "css", "keyframes", "createGlobalStyle"]

/-- Classifies an initializer: none if it is not styled. -/
def classify (markers : List Json) (init : Json) : Except Fault (Option Styled) := do
  let markers ← markers.mapM Name.ofJson
  match init.kind with
  | .taggedTemplate =>
    let tag := init.getD "tag"
    let root ← Name.ofJson (← tag.root)
    let shape := if tag.kind = .call then Shape.taggedCall else Shape.taggedTemplate
    .ok (if markers.contains root then some ⟨shape, root⟩ else none)
  | .call =>
    let root ← Name.ofJson (← (init.getD "callee").root)
    .ok (if markers.contains root then some ⟨.chainedCall, root⟩ else none)
  | _ => .ok none

end Styled
end UsageOrder
