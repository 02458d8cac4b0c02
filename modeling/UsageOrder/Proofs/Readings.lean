import UsageOrder.Proofs.SoundTrees

/-!
# How the parts of an initializer are read

What an initializer refers to is read off some of its parts, each in its own way: as an expression, as
an entry of an object, as lists of these, or as a name.  A table tells which members of a node are
read, and how (`Reading.fields`), and what a node refers to is what these members give
(`Reading.read_obj`).

A position is a sequence of steps into a value, and how the value there is read follows from the ways
in which the values above it are read (`Reading.at`).  A node that is not entered at its position may be
replaced by any other one that is not (`Reading.read_replace`).
-/

namespace UsageOrder

/-- Whether an expression of a kind is entered. -/
def Kind.isEntered : Kind → Bool
  | .identifier | .taggedTemplate | .templateLiteral | .call | .construct | .member => true
  | .conditional | .logical | .binary | .array | .object | .spread => true
  | _ => false

/-- Whether a node says that its key or its property is computed. -/
def Json.computed (node : Json) : Bool := (node.getD "computed").truthy

/-- How a value is read while an initializer is evaluated. -/
inductive Reading where
  /-- As an expression. -/
  | expression
  /-- As a list of expressions. -/
  | expressions
  /-- As an entry of an object expression. -/
  | entry
  /-- As a list of such entries. -/
  | entries
  /-- As the name of an identifier. -/
  | name
  /-- Not at all. -/
  | unread
deriving DecidableEq

namespace Reading

/-- The members of a node that are read, and how they are read. -/
def fields : Reading → Json → List (String × Reading)
  | .expression, node =>
    match node.kind with
    | .identifier => [("name", .name)]
    | .taggedTemplate => [("tag", .expression), ("quasi", .expression)]
    | .templateLiteral => [("expressions", .expressions)]
    | .call => [("callee", .expression), ("arguments", .expressions)]
    | .construct => [("callee", .expression), ("arguments", .expressions)]
    | .member =>
      ("object", .expression) :: if node.computed then [("property", .expression)] else []
    | .conditional =>
      [("test", .expression), ("consequent", .expression), ("alternate", .expression)]
    | .logical => [("left", .expression), ("right", .expression)]
    | .binary => [("left", .expression), ("right", .expression)]
    | .array => [("elements", .expressions)]
    | .object => [("properties", .entries)]
    | .spread => [("argument", .expression)]
    | _ => []
  | .entry, node =>
    match node.kind with
    | .spread => [("argument", .expression)]
    | _ => (if node.computed then [("key", .expression)] else []) ++ [("value", .expression)]
  | _, _ => []

/-- What is read off a value. -/
def read : Reading → Json → List (Except Fault Json)
  | .expression, value => value.references
  | .expressions, value => Json.referencesOfItems ("", value)
  | .entry, value => Json.referencesOfProperty value
  | .entries, value => Json.referencesOfPropertyList ("", value)
  | .name, value => [.ok value]
  | .unread, _ => []

/-- What is read off a member, if it is there: only a name has to be. -/
def readMember : Reading → Option Json → List (Except Fault Json)
  | reading, some value => reading.read value
  | .name, none => [.error .missingKey]
  | _, none => []

variable {members : List (String × Json)} {reading : Reading} {key : String}

theorem referencesUnder_eq_readMember :
    Json.referencesUnder key members = readMember .expression (Json.memberOf? key members) := by
  rw [Json.referencesUnder_eq]
  cases Json.memberOf? key members <;> rfl

theorem referencesOfList_eq_readMember :
    Json.referencesOfList key members = readMember .expressions (Json.memberOf? key members) := by
  rw [Json.referencesOfList_eq]
  cases Json.memberOf? key members with
  | none => rfl
  | some value => cases value <;> rfl

theorem referencesOfProperties_eq_readMember :
    Json.referencesOfProperties members =
      readMember .entries (Json.memberOf? "properties" members) := by
  rw [Json.referencesOfProperties_eq]
  cases Json.memberOf? "properties" members with
  | none => rfl
  | some value => cases value <;> rfl

theorem require_eq_readMember :
    [(Json.obj members).require "name"] = readMember .name (Json.memberOf? "name" members) := by
  rw [Json.require]
  cases Json.memberOf? "name" members <;> rfl

theorem readMember_ite (condition : Bool) :
    (if condition then readMember .expression (Json.memberOf? key members) else []) =
      (if condition then [(key, expression)] else []).flatMap fun field =>
        readMember field.2 (Json.memberOf? field.1 members) := by
  cases condition with
  | true => exact (List.append_nil _).symm
  | false => rfl

/-- **What is read off a node is what is read off some of its members.** -/
theorem read_obj (h : reading = .expression ∨ reading = .entry) :
    reading.read (.obj members) = (reading.fields (.obj members)).flatMap fun field =>
      readMember field.2 (Json.memberOf? field.1 members) := by
  have hcomputed : Json.isComputed members = (Json.obj members).computed := rfl
  rcases h with rfl | rfl
  · rw [read, Json.references, fields]
    cases (Json.obj members).kind <;> simp only [referencesUnder_eq_readMember,
      referencesOfList_eq_readMember, referencesOfProperties_eq_readMember, require_eq_readMember,
      hcomputed, readMember_ite, List.flatMap_cons, List.flatMap_nil, List.append_nil,
      List.append_assoc]
  · rw [read, Json.referencesOfProperty, fields]
    cases (Json.obj members).kind <;> simp only [referencesUnder_eq_readMember, hcomputed,
      readMember_ite, List.flatMap_append, List.flatMap_cons, List.flatMap_nil, List.append_nil]

/-- No member is read twice. -/
theorem nodup_fields (reading : Reading) (node : Json) :
    ((reading.fields node).map Prod.fst).Nodup := by
  cases reading with
  | expression =>
    rw [fields]
    cases node.kind <;> cases node.computed <;> decide
  | entry =>
    rw [fields]
    cases node.kind <;> cases node.computed <;> decide
  | _ => exact List.nodup_nil

/-- Whether a node that is read in some way is entered. -/
def enters : Reading → Json → Bool
  | .expression, node => node.kind.isEntered
  | .entry, _ => true
  | .name, _ => true
  | _, _ => false

end Reading

/-! ### Positions -/

/-- A step into a value: to a member of an object or to an item of a list. -/
inductive Step where
  | member (key : String)
  | item (index : Nat)

/-- How a value is read that is one step into a value that is read in some way.  Whatever is in a name
is part of the name. -/
def Reading.into (value : Json) : Reading → Step → Reading
  | .name, _ => .name
  | reading, .member key => ((reading.fields value).lookup key).getD .unread
  | .expressions, .item _ => .expression
  | .entries, .item _ => .entry
  | _, .item _ => .unread

namespace Json

/-- The value one step into a value. -/
def inside? : Json → Step → Option Json
  | .obj members, .member key => memberOf? key members
  | .arr items, .item index => items[index]?
  | _, _ => none

/-- A value with another one put one step into it. -/
def putInside : Json → Step → Json → Json
  | .obj members, .member key, new => .obj (setMember key new members)
  | .arr items, .item index, new => .arr (items.set index new)
  | value, _, _ => value

/-- The value at a position. -/
def at? : Json → List Step → Option Json
  | value, [] => some value
  | value, step :: position => (value.inside? step).bind fun inner => inner.at? position

/-- A value with another one in the place of what is at a position. -/
def replace : Json → List Step → Json → Json
  | _, [], new => new
  | value, step :: position, new =>
    match value.inside? step with
    | some inner => value.putInside step (inner.replace position new)
    | none => value

end Json

/-- How the value at a position is read, in a value that is read in some way. -/
def Reading.at : Reading → Json → List Step → Reading
  | reading, _, [] => reading
  | reading, value, step :: position =>
    match value.inside? step with
    | some inner => (reading.into value step).at inner position
    | none => .unread

namespace Json

/-- Two values that look the same from outside: both are objects or both are lists, and neither is
empty. -/
inductive Alike : Json → Json → Prop
  | obj {members members' : List (String × Json)} (some : members ≠ []) (some' : members' ≠ []) :
      Alike (.obj members) (.obj members')
  | arr {items items' : List Json} (some : items ≠ []) (some' : items' ≠ []) :
      Alike (.arr items) (.arr items')

theorem ne_nil_of_isNode {members : List (String × Json)} (h : (Json.obj members).isNode = true) :
    members ≠ [] := by
  rintro rfl
  exact absurd h (by simp [isNode, has, get?, memberOf?])

theorem setMember_ne_nil (key : String) (new : Json) (members : List (String × Json)) :
    setMember key new members ≠ [] := by
  cases members with
  | nil => exact List.cons_ne_nil _ _
  | cons member members =>
    rw [setMember]
    split_ifs <;> exact List.cons_ne_nil _ _

namespace Alike

variable {a b : Json}

theorem truthy (h : Alike a b) : a.truthy = b.truthy := by
  cases h with
  | obj hsome hsome' | arr hsome hsome' =>
    rw [Json.truthy, Json.truthy, List.isEmpty_eq_false_iff.2 hsome,
      List.isEmpty_eq_false_iff.2 hsome']

/-- Neither is the name of a kind. -/
theorem kind (h : Alike a b) : Kind.ofJson a = Kind.ofJson b := by
  cases h <;> rfl

theorem of_isNode (ha : a.isNode = true) (hb : b.isNode = true) : Alike a b := by
  obtain ⟨members, rfl⟩ := exists_members ha
  obtain ⟨members', rfl⟩ := exists_members hb
  exact .obj (ne_nil_of_isNode ha) (ne_nil_of_isNode hb)

end Alike

theorem putInside_alike {value inner : Json} {step : Step} (h : value.inside? step = some inner)
    (new : Json) : Alike (value.putInside step new) value := by
  match value, step, h with
  | .obj (first :: members), .member key, _ =>
    exact .obj (setMember_ne_nil key new _) (List.cons_ne_nil _ _)
  | .arr (first :: items), .item index, _ =>
    exact .arr (by cases index <;> exact List.cons_ne_nil _ _) (List.cons_ne_nil _ _)

/-- A value looks as before when a node in it is replaced by another one. -/
theorem replace_alike {position : List Step} {value old new : Json}
    (h : value.at? position = some old) (hold : old.isNode = true) (hnew : new.isNode = true) :
    Alike (value.replace position new) value := by
  cases position with
  | nil =>
    obtain rfl := Option.some.inj h
    exact .of_isNode hnew hold
  | cons step position =>
    obtain ⟨inner, hinner, -⟩ := Option.bind_eq_some_iff.1 h
    rw [replace, hinner]
    exact putInside_alike hinner _

theorem getD_setMember (key : String) (new : Json) (members : List (String × Json))
    (other : String) :
    (Json.obj (setMember key new members)).getD other =
      if other = key then new else (Json.obj members).getD other := by
  rw [getD, get?, memberOf?_setMember]
  split_ifs <;> rfl

end Json

namespace Reading

variable {members : List (String × Json)} {reading : Reading} {key : String} {inner new : Json}

/-- The same members are read, and in the same ways, when one of them is set to a value that looks the
same. -/
theorem fields_setMember (h : Json.memberOf? key members = some inner)
    (halike : Json.Alike new inner) :
    reading.fields (.obj (Json.setMember key new members)) = reading.fields (.obj members) := by
  have hinner : (Json.obj members).getD key = inner := by rw [Json.getD, Json.get?, h]; rfl
  have hkind : (Json.obj (Json.setMember key new members)).kind = (Json.obj members).kind := by
    rw [Json.kind, Json.kind, Json.typeOf, Json.typeOf, Json.getD_setMember]
    split_ifs with htype
    · rw [htype, hinner, halike.kind]
    · rfl
  have hcomputed :
      (Json.obj (Json.setMember key new members)).computed = (Json.obj members).computed := by
    rw [Json.computed, Json.computed, Json.getD_setMember]
    split_ifs with hkey
    · rw [hkey, hinner, halike.truthy]
    · rfl
  cases reading <;> simp only [fields, hkind, hcomputed]

/-- What is one step into a value is read as the table says. -/
theorem into_member {node : Json} {field : String × Reading} (h : field ∈ reading.fields node) :
    reading.into node (.member field.1) = field.2 := by
  have hlookup := lookup_eq_some_of_mem (nodup_fields reading node) h
  cases reading with
  | expression | entry => exact congrArg (Option.getD · .unread) hlookup
  | _ => exact absurd h List.not_mem_nil

theorem flatMap_set {α β : Type} {items : List α} {index : Nat} {inner new : α} {f : α → List β}
    (h : items[index]? = some inner) (hf : f new = f inner) :
    (items.set index new).flatMap f = items.flatMap f := by
  obtain ⟨hlt, rfl⟩ := List.getElem?_eq_some_iff.1 h
  rw [List.flatMap, List.map_set, hf, ← List.map_set, List.set_getElem_self, List.flatMap]

/-- An object in the place of a list of entries is a fault. -/
theorem read_entries_obj (h : members ≠ []) :
    Reading.entries.read (.obj members) = [.error .noSuchMember] :=
  if_neg (by rwa [List.isEmpty_iff])

/-- What is read off a value stays the same when a value inside is replaced by one off which the same
is read. -/
theorem read_putInside {value : Json} {step : Step} (hinner : value.inside? step = some inner)
    (halike : Json.Alike new inner) (hname : reading ≠ .name)
    (hread : (reading.into value step).read new = (reading.into value step).read inner) :
    reading.read (value.putInside step new) = reading.read value := by
  match value, step, hinner with
  | .obj members, .member key, hinner =>
    have hinner : Json.memberOf? key members = some inner := hinner
    have hnode : reading = .expression ∨ reading = .entry →
        reading.read (.obj (Json.setMember key new members)) = reading.read (.obj members) := by
      intro htable
      rw [read_obj htable, read_obj htable, fields_setMember hinner halike]
      refine List.flatMap_congr fun field hfield => ?_
      rw [Json.memberOf?_setMember]
      split_ifs with hkey
      · rw [← hkey, into_member hfield] at hread
        rw [hkey, hinner, readMember, readMember, hread]
      · rfl
    cases reading with
    | expression => exact hnode (Or.inl rfl)
    | entry => exact hnode (Or.inr rfl)
    | entries =>
      have hmembers : members ≠ [] := by
        rintro rfl
        exact absurd hinner (by simp [Json.memberOf?])
      exact (read_entries_obj (Json.setMember_ne_nil key new members)).trans
        (read_entries_obj hmembers).symm
    | name => exact absurd rfl hname
    | expressions | unread => rfl
  | .arr items, .item index, hinner =>
    have hinner : items[index]? = some inner := hinner
    cases reading with
    | expressions =>
      change Json.referencesOfEach (items.set index new) = Json.referencesOfEach items
      rw [Json.referencesOfEach_eq, Json.referencesOfEach_eq]
      exact flatMap_set hinner hread
    | entries =>
      change Json.referencesOfEachProperty (items.set index new) = Json.referencesOfEachProperty items
      rw [Json.referencesOfEachProperty_eq, Json.referencesOfEachProperty_eq]
      exact flatMap_set hinner hread
    | name => exact absurd rfl hname
    | _ => rfl

theorem references_of_not_isEntered {node : Json} (h : node.kind.isEntered = false) :
    node.references = [] := by
  cases node with
  | obj members =>
    revert h
    rw [Json.references]
    cases (Json.obj members).kind <;> simp [Kind.isEntered]
  | _ => rfl

/-- Nothing but the same fault is read off two nodes that are not entered. -/
theorem read_of_not_enters {old : Json} (hold : old.isNode = true) (hnew : new.isNode = true)
    (houter : reading.enters old = false) (houter' : reading.enters new = false) :
    reading.read new = reading.read old := by
  cases reading with
  | expression =>
    exact (references_of_not_isEntered houter').trans (references_of_not_isEntered houter).symm
  | entry | name => exact absurd houter (by simp [enters])
  | expressions =>
    obtain ⟨members, rfl⟩ := Json.exists_members hold
    obtain ⟨members', rfl⟩ := Json.exists_members hnew
    rfl
  | entries =>
    obtain ⟨members, rfl⟩ := Json.exists_members hold
    obtain ⟨members', rfl⟩ := Json.exists_members hnew
    exact (read_entries_obj (Json.ne_nil_of_isNode hnew)).trans
      (read_entries_obj (Json.ne_nil_of_isNode hold)).symm
  | unread => rfl

/-- What is in a name is part of it. -/
theorem at_name {position : List Step} {value old : Json} (h : value.at? position = some old) :
    Reading.name.at value position = .name := by
  induction position generalizing value with
  | nil => rfl
  | cons step position ih =>
    obtain ⟨inner, hinner, hrest⟩ := Option.bind_eq_some_iff.1 h
    rw [Reading.at, hinner]
    exact ih hrest

/-- **A node that is not entered may be replaced by any other one that is not.** -/
theorem read_replace {position : List Step} {value old : Json} (h : value.at? position = some old)
    (hold : old.isNode = true) (hnew : new.isNode = true)
    (houter : (reading.at value position).enters old = false)
    (houter' : (reading.at value position).enters new = false) :
    reading.read (value.replace position new) = reading.read value := by
  induction position generalizing reading value with
  | nil =>
    obtain rfl := Option.some.inj h
    exact read_of_not_enters hold hnew houter houter'
  | cons step position ih =>
    obtain ⟨inner, hinner, hrest⟩ := Option.bind_eq_some_iff.1 h
    have hname : reading ≠ .name := by
      rintro rfl
      rw [at_name h] at houter
      exact absurd houter (by simp [enters])
    rw [Reading.at, hinner] at houter houter'
    rw [Json.replace, hinner]
    exact read_putInside hinner (Json.replace_alike hrest hold hnew) hname (ih hrest houter houter')

end Reading
end UsageOrder
