import UsageOrder.Yaml.Scalar.Block
import UsageOrder.Yaml.Scalar.Plain
import UsageOrder.Yaml.Token

/-!
# The layout of a YAML text

A text is cut into tokens from its start to its end.  Two things are not seen where they start:

| what | where it shows |
|---|---|
| a block collection ends | at the first token that is indented less |
| a token is the start of a key | at the colon behind it, on the same line |

So the columns of the open block collections are kept, and on every level of flow collections the
place where a key may have started.  A key in front of its colon takes up one line and no more than
1024 characters; where a block mapping goes on, there has to be one.
-/

namespace UsageOrder
namespace Yaml

/-- A place where a key may have started. -/
structure Candidate where
  /-- The number of tokens in front of it. -/
  place : Nat
  /-- Whether a key has to start there. -/
  required : Bool
  index : Nat
  line : Nat
  column : Nat

/-- How far a text has been cut into tokens. -/
structure Layout where
  cursor : Cursor
  /-- The tokens so far, last one first. -/
  tokens : List Token := []
  /-- For each open block collection, innermost first, the least column that is further in than the
  collection itself. -/
  margins : List Nat := []
  /-- Where a key may have started on the current level of flow collections. -/
  candidate : Option Candidate := none
  /-- Where a key may have started on the levels around it, innermost first. -/
  outer : List (Option Candidate) := []
  /-- Whether a key may start here. -/
  keyAllowed : Bool := true

namespace Layout

/-- The least column that is further in than the innermost block collection. -/
def margin (layout : Layout) : Nat := layout.margins.headD 0

/-- Whether a flow collection is open. -/
def inFlow (layout : Layout) : Bool := !layout.outer.isEmpty

/-- Adds a token. -/
def emit (token : Token) (layout : Layout) : Layout :=
  { layout with tokens := token :: layout.tokens }

/-- Adds a token in front of those from a place on. -/
def emitAt (place : Nat) (token : Token) (layout : Layout) : Layout :=
  { layout with tokens := layout.tokens.insertIdx (layout.tokens.length - place) token }

/-- Adds a token of one character. -/
def emitMark (token : Token) (layout : Layout) : Layout :=
  { layout with tokens := token :: layout.tokens, cursor := layout.cursor.step }

/-- The cursor at the next token: behind spaces, comments and line ends.  Behind a line end a key
may start, unless a flow collection is open. -/
def skipBlank : Nat → Layout → Layout
  | 0, layout => layout
  | fuel + 1, layout =>
    match layout.cursor.skipSpaces.skipComment.lineBreak with
    | ([], cursor) => { layout with cursor }
    | (_, cursor) =>
      skipBlank fuel { layout with cursor, keyAllowed := layout.keyAllowed || !layout.inFlow }

/-- The number of characters that a key in front of its colon may have. -/
def longestKey : Nat := 1024

/-- Whether the key that may have started at a place would be too long, or not on one line. -/
def isStale (layout : Layout) (candidate : Candidate) : Bool :=
  decide (candidate.line ≠ layout.cursor.line) ||
    decide (candidate.index + longestKey < layout.cursor.index)

/-- A place where a key may have started, unless it is stale; a key that is required may not be. -/
def fresh? (layout : Layout) (candidate : Option Candidate) : Option (Option Candidate) :=
  match candidate with
  | none => some none
  | some candidate =>
    if !layout.isStale candidate then some (some candidate)
    else if candidate.required then none
    else some none

/-- Forgets all places where a key can no longer have started. -/
def dropStale (layout : Layout) : Option Layout := do
  let candidate ← layout.fresh? layout.candidate
  let outer ← layout.outer.mapM layout.fresh?
  some { layout with candidate, outer }

/-- Forgets where a key may have started on the current level. -/
def forget (layout : Layout) : Option Layout :=
  if layout.candidate.any Candidate.required then none
  else some { layout with candidate := none }

/-- Remembers that a key may start here, if one may. -/
def remember (layout : Layout) : Option Layout :=
  if layout.keyAllowed then do
    let layout ← layout.forget
    let cursor := layout.cursor
    some { layout with candidate := some {
      place := layout.tokens.length
      required := !layout.inFlow && layout.margin = cursor.column + 1
      index := cursor.index, line := cursor.line, column := cursor.column } }
  else some layout

/-- Closes the block collections whose margin is beyond a limit. -/
def closeBeyond (limit : Nat) (layout : Layout) : Layout :=
  if layout.inFlow then layout
  else
    let closed := (layout.margins.takeWhile fun margin => decide (limit < margin)).length
    { layout with
      margins := layout.margins.drop closed
      tokens := List.replicate closed .blockEnd ++ layout.tokens }

/-- Opens a block collection at a column, if none is open there; its start comes at a place. -/
def openBlock (column place : Nat) (token : Token) (layout : Layout) : Layout :=
  if layout.margin ≤ column then
    { layout.emitAt place token with margins := (column + 1) :: layout.margins }
  else layout

/-- Opens a block collection here, if none is open at this column. -/
def openHere (token : Token) (layout : Layout) : Layout :=
  layout.openBlock layout.cursor.column layout.tokens.length token

/-- A directive or a mark that separates documents closes every block collection. -/
def separate (layout : Layout) : Option Layout := do
  let layout ← (layout.closeBeyond 0).forget
  some { layout with keyAllowed := false }

/-- A mark that separates documents. -/
def separator (token : Token) (layout : Layout) : Option Layout := do
  let layout ← layout.separate
  some ({ layout with cursor := layout.cursor.skip 3 }.emit token)

/-- A directive. -/
def directive (layout : Layout) : Option Layout := do
  let layout ← layout.separate
  let (directive, cursor) ← directive? layout.cursor.step
  some ({ layout with cursor }.emit (.directive directive))

/-- The start of a flow collection, which may be a key. -/
def openFlow (token : Token) (layout : Layout) : Option Layout := do
  let layout ← layout.remember
  some { layout.emitMark token with
    candidate := none, outer := layout.candidate :: layout.outer, keyAllowed := true }

/-- The end of a flow collection. -/
def closeFlow (token : Token) (layout : Layout) : Option Layout := do
  let layout ← layout.forget
  match layout.outer with
  | [] => none
  | candidate :: outer =>
    some { layout.emitMark token with candidate, outer, keyAllowed := false }

/-- The comma between the parts of a flow collection. -/
def flowEntry (layout : Layout) : Option Layout := do
  let layout ← layout.forget
  some { layout.emitMark .flowEntry with keyAllowed := true }

/-- The dash in front of an item. -/
def blockEntry (layout : Layout) : Option Layout := do
  if !layout.inFlow && !layout.keyAllowed then none
  else
    let layout ← (if layout.inFlow then layout else layout.openHere .blockListStart).forget
    some { layout.emitMark .blockEntry with keyAllowed := true }

/-- The question mark in front of a key. -/
def key (layout : Layout) : Option Layout := do
  if !layout.inFlow && !layout.keyAllowed then none
  else
    let layout ← (if layout.inFlow then layout else layout.openHere .blockMappingStart).forget
    some { layout.emitMark .key with keyAllowed := !layout.inFlow }

/-- The colon in front of a value: what stands in front of it is a key if one may have started
there, and otherwise a key with a question mark came before. -/
def value (layout : Layout) : Option Layout := do
  match layout.candidate with
  | some candidate =>
    let layout := layout.emitAt candidate.place .key
    let layout :=
      if layout.inFlow then layout
      else layout.openBlock candidate.column candidate.place .blockMappingStart
    some { layout.emitMark .value with candidate := none, keyAllowed := false }
  | none =>
    if !layout.inFlow && !layout.keyAllowed then none
    else
      let layout := if layout.inFlow then layout else layout.openHere .blockMappingStart
      some { layout.emitMark .value with keyAllowed := !layout.inFlow }

/-- A token that may be the start of a key and that is read by a function. -/
def content (read? : Cursor → Option (Token × Cursor)) (layout : Layout) : Option Layout := do
  let layout ← layout.remember
  let (token, cursor) ← read? layout.cursor
  some ({ layout with cursor, keyAllowed := false }.emit token)

/-- A quoted scalar. -/
def quoted (quote : Quote) (layout : Layout) : Option Layout :=
  layout.content fun cursor => (quoted? quote cursor.step).map fun r => (.scalar r.1 false, r.2)

/-- A block scalar, behind which a key may start. -/
def block (folded : Bool) (layout : Layout) : Option Layout := do
  let layout ← layout.forget
  let (text, cursor) ← blockScalar? folded layout.margin layout.cursor.step
  some ({ layout with cursor, keyAllowed := true }.emit (.scalar text false))

/-- A plain scalar; a key may start behind it if a line ended there. -/
def plain (layout : Layout) : Option Layout := do
  let layout ← layout.remember
  let scalar := plainScalar layout.inFlow layout.margin layout.cursor
  some ({ layout with cursor := scalar.cursor, keyAllowed := scalar.lineEnded }.emit
    (.scalar scalar.text true))

/-- The next token, which starts with a character in front of a text. -/
def next (layout : Layout) (c : Char) (rest : Text) : Option Layout :=
  let starts := layout.cursor.column = 0
  let text := layout.cursor.rest
  if c = '%' && starts then layout.directive
  else if starts && startsWithMark startMark text then layout.separator .documentStart
  else if starts && startsWithMark endMark text then layout.separator .documentEnd
  else if c = '[' then layout.openFlow .flowListStart
  else if c = '\x7b' then layout.openFlow .flowMappingStart
  else if c = ']' then layout.closeFlow .flowListEnd
  else if c = '\x7d' then layout.closeFlow .flowMappingEnd
  else if c = ',' then layout.flowEntry
  else if c = '-' && endsWord rest then layout.blockEntry
  else if c = '?' && (layout.inFlow || endsWord rest) then layout.key
  else if c = ':' && (layout.inFlow || endsWord rest) then layout.value
  else if c = '*' then
    layout.content fun cursor => (anchorName? cursor.step).map fun r => (.aliasOf r.1, r.2)
  else if c = '&' then
    layout.content fun cursor => (anchorName? cursor.step).map fun r => (.anchor r.1, r.2)
  else if c = '!' then layout.content fun cursor => (tag? cursor).map fun r => (.tag r.1, r.2)
  else if c = '|' && !layout.inFlow then layout.block false
  else if c = '>' && !layout.inFlow then layout.block true
  else if c = '\'' then layout.quoted .single
  else if c = '"' then layout.quoted .double
  else if startsPlain layout.inFlow text then layout.plain
  else none

/-- The end of the text. -/
def finish (layout : Layout) : Option (List Token) := do
  let layout ← (layout.closeBeyond 0).forget
  some layout.tokens.reverse

/-- Cuts the rest of a text into tokens. -/
def run : Nat → Layout → Option (List Token)
  | 0, _ => none
  | fuel + 1, layout => do
    let layout ← (skipBlank (layout.cursor.rest.length + 1) layout).dropStale
    let layout := layout.closeBeyond (layout.cursor.column + 1)
    match layout.cursor.rest with
    | [] => layout.finish
    | c :: rest => run fuel (← layout.next c rest)

end Layout

/-- The tokens of a text; none if it is not well-formed.  A byte order mark may come first. -/
def tokens? (text : Text) : Option (List Token) :=
  let cursor : Cursor := ⟨text, 0, 0, 0⟩
  let cursor := if text.head? = some '\uFEFF' then cursor.step else cursor
  Layout.run (text.length + 1) { cursor }

end Yaml
end UsageOrder
