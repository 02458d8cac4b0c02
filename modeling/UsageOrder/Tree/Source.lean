import UsageOrder.Files.Path
import UsageOrder.Tree.Range
import UsageOrder.Tree.Walk

/-!
# Source files and their syntax trees

A source is a text with the top-level statements of the program that it was parsed into.  A tree
may wrap its program in a file node.  `Source.verify` makes sure that the tree was parsed from the
text: every statement ends inside it, and every declared identifier stands where the tree says.
-/

namespace UsageOrder

/-- A source text with the statements of its program. -/
structure Source where
  path : Option Path
  text : Text
  body : List Json

namespace Source

/-- How a source is called in messages. -/
def labelOf (path : Option Path) : String := (path.map Path.toText).getD "content"

/-- How the source is called in messages. -/
def label (source : Source) : String := labelOf source.path

/-- The program of a tree, which may be wrapped in a file node. -/
def unwrap (tree : Json) : Json := if tree.kind = .file then tree.getD "program" else tree

/-- The statements of a tree. -/
def statements (tree : Json) : Except Fault (List Json) :=
  let program := unwrap tree
  if program.kind ≠ .program then .error (.tree (.notAProgram program.typeOf))
  else
    match program.getD "body" with
    | .arr body => .ok body
    | _ => .error (.tree .noStatements)

/-- The source of a text and its tree. -/
def ofTree (path : Option Path) (text : Text) (tree : Json) : Except Fault Source := do
  .ok ⟨path, text, ← statements tree⟩

/-- The source of a text and its tree in JSON. -/
def ofJson (path : Option Path) (text json : Text) : Except Fault Source :=
  match Json.parse json with
  | .ok tree => ofTree path text tree
  | .error e =>
    if e.problem = .tooManyDigits then .error .badValue
    else .error (.tree (.unreadable (labelOf path) e))

/-- Checks that a declared identifier stands where the tree says. -/
def verifyDeclarator (source : Source) (node : Json) : Except Fault Unit := do
  if node.kind ≠ .variableDeclarator then return
  let identifier := node.getD "id"
  if identifier.kind ≠ .identifier then return
  if !(← identifier.hasRange) then return
  let offset := (← identifier.range).start
  match ← identifier.require "name" with
  | .str name =>
    if Text.standsAt name.toList source.text offset then return
    else .error (.tree (.nameNotAt source.label name offset))
  | _ => .error .unsuitable

/-- Checks that a statement ends inside the text and that its identifiers stand where the tree
says. -/
def verifyStatement (source : Source) (statement : Json) : Except Fault Unit := do
  let range ← statement.range
  if source.text.length < range.stop then
    .error (.tree (.statementPastEnd source.label range.start range.stop source.text.length))
  else statement.walk.forM source.verifyDeclarator

/-- Checks that the tree was parsed from the text. -/
def verify (source : Source) : Except Fault Unit := source.body.forM source.verifyStatement

end Source
end UsageOrder
