import UsageOrder.Styled.Shape
import UsageOrder.Tree.Range

/-!
# Styled declarations

A statement holds a styled declaration when it is a variable declaration, plain or exported by
name, with one declarator, whose target is an identifier and whose initializer is styled.  Of two
statements that declare the same name the first counts.
-/

namespace UsageOrder

/-- A styled declaration at the top level of a file. -/
structure Declaration where
  name : Name
  /-- Its place among the styled declarations of the file, counted from zero. -/
  position : Nat
  /-- The range of the whole statement. -/
  range : Range
  initializer : Json
  /-- The declared identifier, at which problems are reported. -/
  anchor : Json
  styled : Styled

/-- What a statement declares, before its name is looked at. -/
structure Candidate where
  identifier : Json
  initializer : Json
  styled : Styled

namespace Declaration

/-- The variable declaration that a statement holds. -/
def held (statement : Json) : Option Json :=
  match statement.kind with
  | .variableDeclaration => some statement
  | .exportNamedDeclaration =>
    let inner := statement.getD "declaration"
    if inner.kind = .variableDeclaration then some inner else none
  | _ => none

/-- The declarator of a declaration that has exactly one. -/
def soleDeclarator (declaration : Json) : Except Fault (Option Json) :=
  let declarators := declaration.getD "declarations"
  if !declarators.truthy then .ok none
  else
    match declarators with
    | .arr [declarator] => .ok (some declarator)
    | .arr _ => .ok none
    | .str s => .ok (if s.length = 1 then some (.str s) else none)
    | .obj [_] => .error .missingKey
    | .obj _ => .ok none
    | _ => .error .unsuitable

/-- What a statement declares, if it holds a styled declaration. -/
def candidate (markers : List Json) (statement : Json) : Except Fault (Option Candidate) := do
  match held statement with
  | none => .ok none
  | some declaration =>
    match ← soleDeclarator declaration with
    | none => .ok none
    | some declarator =>
      let identifier ← declarator.member "id"
      if identifier.kind ≠ .identifier then .ok none
      else
        let init := declarator.getD "init"
        match ← Styled.classify markers init with
        | none => .ok none
        | some styled => .ok (some ⟨identifier, init, styled⟩)

end Declaration

/-- The styled declarations of a file, in the order of the file. -/
abbrev Collection := List Declaration

namespace Collection

/-- The names of the declarations. -/
def names (collection : Collection) : List Name := collection.map Declaration.name

/-- The declaration of a name. -/
def named? (collection : Collection) (name : Name) : Option Declaration :=
  collection.find? fun declaration => declaration.name == name

/-- Takes in what a statement declares, unless its name is taken. -/
def extend (markers : List Json) (found : Collection) (statement : Json) :
    Except Fault Collection := do
  match ← Declaration.candidate markers statement with
  | none => .ok found
  | some candidate =>
    let name ← Name.ofJson (← candidate.identifier.require "name")
    if found.names.contains name then .ok found
    else
      let range ← statement.range
      .ok (found ++ [{
        name, position := found.length, range, initializer := candidate.initializer,
        anchor := candidate.identifier, styled := candidate.styled }])

/-- The styled declarations among statements. -/
def ofStatements (markers body : List Json) : Except Fault Collection :=
  body.foldlM (extend markers) []

/-- The styled declarations of a body, both it and the markers being values of any kind. -/
def ofBody (markers body : Json) : Except Fault Collection := do
  let markers ← markers.items
  ofStatements markers (← body.items)

end Collection
end UsageOrder
