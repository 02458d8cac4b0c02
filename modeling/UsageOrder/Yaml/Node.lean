import UsageOrder.Yaml.Scalar.Form
import UsageOrder.Yaml.Token

/-!
# Nodes of YAML

The tree that the tokens of a document make up.  A node has a kind, which its tag names or else its
form shows, and an alias stands for the node that its anchor marks, which has to be complete.

| collection | its parts |
|---|---|
| block list | items behind dashes, between a start and an end |
| list without indentation | items behind dashes, as the value of a key |
| block mapping | keys and values, between a start and an end |
| flow list | items between commas; an item may be a single pair |
| flow mapping | pairs between commas; a key may stand alone |

Whatever is missing, be it an item, a key or a value, is null.
-/

namespace UsageOrder
namespace Yaml

/-- A node of a YAML document. -/
inductive Node where
  | scalar (kind : Kind) (text : Text)
  | list (kind : Kind) (items : List Node)
  | mapping (kind : Kind) (members : List (Node × Node))

namespace Node

/-- The node where nothing is written. -/
def missing : Node := .scalar .null []

end Node

/-- The handles of tags and what they stand for. -/
abbrev Handles := List (Text × Text)

/-- What the names of the common tags start with. -/
def commonTags : Text := "tag:yaml.org,2002:".toList

/-- The handles that every document has, unless it gives them another meaning. -/
def defaultHandles : Handles := [(['!'], ['!']), (['!', '!'], commonTags)]

/-- The common tags and their kinds. -/
def tagKinds : List (String × Kind) := [
  ("null", .null), ("bool", .bool), ("int", .int), ("float", .real), ("timestamp", .date),
  ("str", .text), ("seq", .list), ("map", .mapping), ("omap", .pairs), ("pairs", .pairs),
  ("set", .set), ("merge", .mergeKey), ("value", .defaultKey)]

/-- The kind that a full tag names. -/
def Kind.ofTag (tag : Text) : Kind :=
  if commonTags.isPrefixOf tag then
    (tagKinds.lookup (String.ofList (tag.drop commonTags.length))).getD .unknown
  else .unknown

/-- What a tag says of the kind of a node: none if it leaves it to the form of the node. -/
def Tag.kind? (handles : Handles) (tag : Tag) : Option (Option Kind) := do
  let full ←
    match tag.handle with
    | none => some tag.rest
    | some handle => (handles.lookup handle).map fun start => start ++ tag.rest
  some (if full = ['!'] then none else some (Kind.ofTag full))

/-- What may stand in front of the content of a node. -/
structure Properties where
  anchor : Option Text := none
  tag : Option Tag := none

/-- The tokens that are left, and the nodes that anchors mark. -/
structure Feed where
  tokens : List Token
  anchors : List (Text × Node) := []

namespace Feed

/-- The next token. -/
def peek? (feed : Feed) : Option Token := feed.tokens.head?

/-- The feed behind the next token. -/
def drop (feed : Feed) : Feed := { feed with tokens := feed.tokens.drop 1 }

/-- Whether one of some tokens comes next. -/
def atOne (tokens : List Token) (feed : Feed) : Bool := feed.peek?.any tokens.contains

/-- The anchor and the tag that come next, in either order. -/
def properties (feed : Feed) : Properties × Feed :=
  match feed.tokens with
  | .anchor name :: .tag tag :: tokens => (⟨some name, some tag⟩, { feed with tokens })
  | .anchor name :: tokens => (⟨some name, none⟩, { feed with tokens })
  | .tag tag :: .anchor name :: tokens => (⟨some name, some tag⟩, { feed with tokens })
  | .tag tag :: tokens => (⟨none, some tag⟩, { feed with tokens })
  | _ => ({}, feed)

/-- Marks a node by its anchor, if it has one; an anchor marks one node only. -/
def mark (anchor : Option Text) (node : Node) (feed : Feed) : Option (Node × Feed) :=
  match anchor with
  | none => some (node, feed)
  | some name =>
    if (feed.anchors.lookup name).isSome then none
    else some (node, { feed with anchors := (name, node) :: feed.anchors })

end Feed

/-- Where a node stands, which decides what it may be. -/
inductive Context where
  /-- In a flow collection. -/
  | flow
  /-- In a block list, or on its own. -/
  | block
  /-- A key or a value of a block mapping, which may be a list without indentation. -/
  | member
deriving DecidableEq

/-- The kind of a scalar: the one that its tag names, or the one that a plain scalar has the form
of. -/
def scalarKind (tagged : Option (Option Kind)) (plain : Bool) (text : Text) : Kind :=
  match tagged with
  | some (some kind) => kind
  | some none => Kind.ofForm text
  | none => if plain then Kind.ofForm text else .text

/-- The kind of a collection. -/
def collectionKind (tagged : Option (Option Kind)) (usual : Kind) : Kind :=
  (tagged.getD none).getD usual

/-- How deep collections may be nested. -/
def deepest : Nat := 480

mutual
/-- Reads a node; `depth` more levels of collections may be opened. -/
def node? (handles : Handles) : Nat → Nat → Context → Feed → Option (Node × Feed)
  | 0, _, _, _ => none
  | fuel + 1, depth, context, feed => do
    match feed.peek? with
    | some (.aliasOf name) => (feed.anchors.lookup name).map fun node => (node, feed.drop)
    | _ =>
      let (properties, feed) := feed.properties
      let tagged ← properties.tag.mapM (Tag.kind? handles)
      let (node, feed) ←
        match feed.peek? with
        | some (.scalar text plain) => some (.scalar (scalarKind tagged plain text) text, feed.drop)
        | token => do
          match depth with
          | 0 => none
          | depth + 1 =>
            if context = .member && token = some .blockEntry then
              let (items, feed) ← looseItems? handles fuel depth [] feed
              some (.list (collectionKind tagged .list) items, feed)
            else if token = some .flowListStart then
              let (items, feed) ← flowItems? handles fuel depth [] feed.drop
              some (.list (collectionKind tagged .list) items, feed)
            else if token = some .flowMappingStart then
              let (members, feed) ← flowMembers? handles fuel depth [] feed.drop
              some (.mapping (collectionKind tagged .mapping) members, feed)
            else if context ≠ .flow && token = some .blockListStart then
              let (items, feed) ← blockItems? handles fuel depth [] feed.drop
              some (.list (collectionKind tagged .list) items, feed)
            else if context ≠ .flow && token = some .blockMappingStart then
              let (members, feed) ← blockMembers? handles fuel depth [] feed.drop
              some (.mapping (collectionKind tagged .mapping) members, feed)
            else if properties.anchor.isSome || properties.tag.isSome then
              some (.scalar (scalarKind tagged true []) [], feed)
            else none
      feed.mark properties.anchor node

/-- Reads a node, or nothing in front of one of some tokens. -/
def nodeUnless? (handles : Handles) :
    Nat → Nat → Context → List Token → Feed → Option (Node × Feed)
  | 0, _, _, _, _ => none
  | fuel + 1, depth, context, ends, feed =>
    if feed.atOne ends then some (.missing, feed) else node? handles fuel depth context feed

/-- Reads the items of a block list up to its end; `done` holds those read, last one first. -/
def blockItems? (handles : Handles) : Nat → Nat → List Node → Feed → Option (List Node × Feed)
  | 0, _, _, _ => none
  | fuel + 1, depth, done, feed =>
    match feed.peek? with
    | some .blockEntry => do
      let (item, feed) ← nodeUnless? handles fuel depth .block [.blockEntry, .blockEnd] feed.drop
      blockItems? handles fuel depth (item :: done) feed
    | some .blockEnd => some (done.reverse, feed.drop)
    | _ => none

/-- Reads the items of a list without indentation; `done` holds those read, last one first. -/
def looseItems? (handles : Handles) : Nat → Nat → List Node → Feed → Option (List Node × Feed)
  | 0, _, _, _ => none
  | fuel + 1, depth, done, feed =>
    match feed.peek? with
    | some .blockEntry => do
      let (item, feed) ←
        nodeUnless? handles fuel depth .block [.blockEntry, .key, .value, .blockEnd] feed.drop
      looseItems? handles fuel depth (item :: done) feed
    | _ => some (done.reverse, feed)

/-- Reads a value behind its colon; nothing if there is no colon. -/
def valueNode? (handles : Handles) :
    Nat → Nat → Context → List Token → Feed → Option (Node × Feed)
  | 0, _, _, _, _ => none
  | fuel + 1, depth, context, ends, feed =>
    if feed.peek? = some .value then nodeUnless? handles fuel depth context ends feed.drop
    else some (.missing, feed)

/-- Reads the members of a block mapping up to its end; `done` holds those read, last one first. -/
def blockMembers? (handles : Handles) :
    Nat → Nat → List (Node × Node) → Feed → Option (List (Node × Node) × Feed)
  | 0, _, _, _ => none
  | fuel + 1, depth, done, feed =>
    match feed.peek? with
    | some .key => do
      let ends := [Token.key, .value, .blockEnd]
      let (key, feed) ← nodeUnless? handles fuel depth .member ends feed.drop
      let (value, feed) ← valueNode? handles fuel depth .member ends feed
      blockMembers? handles fuel depth ((key, value) :: done) feed
    | some .blockEnd => some (done.reverse, feed.drop)
    | _ => none

/-- Reads the items of a flow list up to its end; `done` holds those read, last one first. -/
def flowItems? (handles : Handles) : Nat → Nat → List Node → Feed → Option (List Node × Feed)
  | 0, _, _, _ => none
  | fuel + 1, depth, done, feed => do
    if feed.peek? = some .flowListEnd then some (done.reverse, feed.drop)
    else if !done.isEmpty && feed.peek? ≠ some .flowEntry then none
    else
      let feed := if done.isEmpty then feed else feed.drop
      match feed.peek? with
      | some .key =>
        match depth with
        | 0 => none
        | inner + 1 =>
          let ends := [Token.value, .flowEntry, .flowListEnd]
          let (key, feed) ← nodeUnless? handles fuel inner .flow ends feed.drop
          let (value, feed) ← valueNode? handles fuel inner .flow [.flowEntry, .flowListEnd] feed
          flowItems? handles fuel depth (.mapping .mapping [(key, value)] :: done) feed
      | some .flowListEnd => some (done.reverse, feed.drop)
      | _ =>
        let (item, feed) ← node? handles fuel depth .flow feed
        flowItems? handles fuel depth (item :: done) feed

/-- Reads the members of a flow mapping up to its end; `done` holds those read, last one first. -/
def flowMembers? (handles : Handles) :
    Nat → Nat → List (Node × Node) → Feed → Option (List (Node × Node) × Feed)
  | 0, _, _, _ => none
  | fuel + 1, depth, done, feed => do
    if feed.peek? = some .flowMappingEnd then some (done.reverse, feed.drop)
    else if !done.isEmpty && feed.peek? ≠ some .flowEntry then none
    else
      let feed := if done.isEmpty then feed else feed.drop
      match feed.peek? with
      | some .key =>
        let ends := [Token.value, .flowEntry, .flowMappingEnd]
        let (key, feed) ← nodeUnless? handles fuel depth .flow ends feed.drop
        let (value, feed) ← valueNode? handles fuel depth .flow [.flowEntry, .flowMappingEnd] feed
        flowMembers? handles fuel depth ((key, value) :: done) feed
      | some .flowMappingEnd => some (done.reverse, feed.drop)
      | _ =>
        let (key, feed) ← node? handles fuel depth .flow feed
        flowMembers? handles fuel depth ((key, .missing) :: done) feed
end

/-- The directives in front of a document: whether a version was named, and the handles of tags. -/
def directives? (version : Bool) (handles : Handles) : List Token → Option (Handles × List Token)
  | .directive (.version major) :: tokens =>
    if version || major ≠ 1 then none else directives? true handles tokens
  | .directive (.handle name full) :: tokens =>
    if (handles.lookup name).isSome then none
    else directives? version (handles ++ [(name, full)]) tokens
  | .directive .other :: tokens => directives? version handles tokens
  | tokens => some (handles ++ defaultHandles, tokens)

/-- Reads the content of a document whose start is not marked. -/
def content? (handles : Handles) (tokens : List Token) : Option (Node × Feed) :=
  node? handles (4 * tokens.length + 4) deepest .block { tokens }

/-- Reads a document: one without directives whose start is not marked, or one whose start is. -/
def document? (tokens : List Token) : Option (Node × Feed) :=
  match tokens with
  | .directive _ :: _ | .documentStart :: _ => do
    match ← directives? false [] tokens with
    | (handles, .documentStart :: rest) =>
      match rest with
      | [] | .directive _ :: _ | .documentStart :: _ | .documentEnd :: _ =>
        some (.missing, { tokens := rest })
      | rest => content? handles rest
    | _ => none
  | tokens => content? defaultHandles tokens

/-- The node of the only document among some tokens; where there is no document, nothing is
written. -/
def onlyNode? (tokens : List Token) : Option Node :=
  if tokens.isEmpty then some .missing
  else do
    let (node, feed) ← document? tokens
    if feed.tokens.all (· = .documentEnd) then some node else none

end Yaml
end UsageOrder
