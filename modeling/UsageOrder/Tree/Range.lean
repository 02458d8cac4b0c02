import UsageOrder.Json.Access
import UsageOrder.Tree.Node

/-!
# Source ranges of nodes

A node has its offsets in the source text as a pair under `range`, or else under `start` and `end`.
-/

namespace UsageOrder

/-- The offsets at which a piece of source text starts and ends. -/
structure Range where
  start : Int
  stop : Int
deriving DecidableEq, Repr, Inhabited

namespace Json

/-- Whether both ends of a range are given apart. -/
def mentionsEnds (value : Json) : Except Fault Bool := do
  if ← value.mentions "start" then value.mentions "end" else .ok false

/-- Whether a node has a source range. -/
def hasRange (node : Json) : Except Fault Bool := do
  if ← node.mentions "range" then .ok true else node.mentionsEnds

/-- The source range of a node. -/
def range (node : Json) : Except Fault Range := do
  if ← node.mentions "range" then
    let (start, stop) ← (← node.require "range").pair
    .ok ⟨← start.toOffset, ← stop.toOffset⟩
  else if ← node.mentionsEnds then
    let start ← (← node.require "start").toOffset
    let stop ← (← node.require "end").toOffset
    .ok ⟨start, stop⟩
  else .error (.tree (.noRange node.typeOf))

end Json
end UsageOrder
