import UsageOrder.Json.Basic

/-!
# Nodes of a syntax tree

A syntax tree comes from a parser as a structured value.  A node is an object with a `type`, and
the types that matter here are the constructors of `Kind`.
-/

namespace UsageOrder

/-- The types of node that are looked into. -/
inductive Kind where
  | file
  | program
  | variableDeclaration
  | exportNamedDeclaration
  | variableDeclarator
  | identifier
  | member
  | call
  | construct
  | taggedTemplate
  | templateLiteral
  | conditional
  | logical
  | binary
  | array
  | object
  | spread
  | openingElement
  | elementName
  | other
deriving DecidableEq, Repr

namespace Kind

/-- The type that a word stands for. -/
def ofName (name : String) : Kind :=
  if name = "File" then .file
  else if name = "Program" then .program
  else if name = "VariableDeclaration" then .variableDeclaration
  else if name = "ExportNamedDeclaration" then .exportNamedDeclaration
  else if name = "VariableDeclarator" then .variableDeclarator
  else if name = "Identifier" then .identifier
  else if name = "MemberExpression" then .member
  else if name = "CallExpression" then .call
  else if name = "NewExpression" then .construct
  else if name = "TaggedTemplateExpression" then .taggedTemplate
  else if name = "TemplateLiteral" then .templateLiteral
  else if name = "ConditionalExpression" then .conditional
  else if name = "LogicalExpression" then .logical
  else if name = "BinaryExpression" then .binary
  else if name = "ArrayExpression" then .array
  else if name = "ObjectExpression" then .object
  else if name = "SpreadElement" then .spread
  else if name = "JSXOpeningElement" then .openingElement
  else if name = "JSXIdentifier" then .elementName
  else .other

/-- The type that the value of a `type` member stands for. -/
def ofJson : Json → Kind
  | .str name => ofName name
  | _ => .other

end Kind

namespace Json

/-- Whether a value is a node: an object with a type. -/
def isNode (value : Json) : Bool := value.has "type"

/-- The type of a node as it is written, null for what is no node. -/
def typeOf (value : Json) : Json := value.getD "type"

/-- The type of a node. -/
def kind (value : Json) : Kind := Kind.ofJson value.typeOf

end Json
end UsageOrder
