import UsageOrder.Name
import UsageOrder.Patch.Edit
import UsageOrder.Text.Position

/-!
# Diagnostics

A diagnostic reports one declaration that is out of place, at the place of its identifier, and may
come with the edit that mends it.
-/

namespace UsageOrder

/-- A reported problem. -/
structure Diagnostic where
  name : Name
  anchor : Json
  message : String
  /-- The declaration that should come before. -/
  predecessor : Option Name := none
  fix : Option Edit := none
  position : Position := ⟨0, 0⟩
  /-- Whether the position is one in the text before fixes were written. -/
  stale : Bool := false

namespace Diagnostic

/-- The offset at which a problem is reported. -/
def offset (diagnostic : Diagnostic) : Except Fault Int := do
  .ok (← diagnostic.anchor.range).start

/-- Fills in the position in a text. -/
def locate (text : Text) (diagnostic : Diagnostic) : Except Fault Diagnostic := do
  .ok { diagnostic with position := text.position (← diagnostic.offset) }

/-- The diagnostic once the text has been written anew. -/
def outdated (diagnostic : Diagnostic) : Diagnostic := { diagnostic with stale := true }

/-- The wording of a diagnostic in a file. -/
def format (file : String) (diagnostic : Diagnostic) : String :=
  file ++ ":" ++ toString diagnostic.position.line ++ ":" ++ toString diagnostic.position.column ++
    ": " ++ diagnostic.message ++ (if diagnostic.stale then " (position before fixing)" else "")

/-- How a text without a file is called. -/
def unnamedFile : String := "<source>"

end Diagnostic
end UsageOrder
