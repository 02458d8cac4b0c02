import Mathlib.Data.List.Perm.Subperm
import UsageOrder.Proofs.Readings

/-!
# What is evaluated, among all that is written

The walk of an initializer visits all its nodes.  A visit also tells where its node stands
(`Json.Visit`): as an entry of an object expression, or in a name, that is in a property or a key that
is not computed.

Every name that is read off a node is that of an identifier below it that is visited, and no identifier
is read twice (`Visit.yields_subperm`).  A standard tree has its nodes in the slots of their kinds
(`Kind.slots`), and there the identifiers that are not read are those that lie in names
(`Visit.yields_perm`).  Together they say what an initializer refers to (`Json.references_evaluated`).
-/

namespace UsageOrder
namespace Json

/-- The name of a node that is an identifier. -/
def identifierName? (node : Json) : Option Json :=
  if node.kind = .identifier then node.get? "name" else none

/-- A node that a walk visits, and where it stands. -/
structure Visit where
  node : Json
  /-- Whether it is an entry of an object expression. -/
  isEntry : Bool
  /-- Whether it lies in a property or in a key that is not computed. -/
  inName : Bool

namespace Visit

/-- Whether the member under a key is a name: the property of a member access, or the key of an entry,
that is not computed. -/
def holdsName (visit : Visit) (key : String) : Bool :=
  !visit.node.computed &&
    (decide (visit.node.kind = .member ∧ key = "property") || (visit.isEntry && key == "key"))

/-- The visits of the nodes that a member holds. -/
def below (visit : Visit) (member : String × Json) : List Visit :=
  (memberNodes member).map fun child =>
    ⟨child, decide (visit.node.kind = .object ∧ member.1 = "properties"),
      visit.inName || visit.holdsName member.1⟩

/-- The visits of the children of a node. -/
def next (visit : Visit) : List Visit :=
  match visit.node with
  | .obj members => members.flatMap visit.below
  | _ => []

theorem map_node_next (visit : Visit) : visit.next.map node = visit.node.children := by
  obtain ⟨value, isEntry, inName⟩ := visit
  cases value with
  | obj members =>
    rw [next, children, List.map_flatMap]
    refine List.flatMap_congr fun member _ => ?_
    rw [below, List.map_map]
    exact List.map_id _
  | _ => rfl

theorem mem_children_of_mem_next {visit later : Visit} (h : later ∈ visit.next) :
    later.node ∈ visit.node.children := by
  rw [← map_node_next]
  exact List.mem_map_of_mem h

theorem weight_lt_of_mem_next {visit later : Visit} (h : later ∈ visit.next) :
    later.node.weight < visit.node.weight :=
  weight_lt_of_mem_children (mem_children_of_mem_next h)

/-- A visit, then all visits below it. -/
def walk (visit : Visit) : List Visit :=
  visit :: visit.next.attach.flatMap fun later => walk later.1
termination_by visit.node.weight
decreasing_by exact weight_lt_of_mem_next later.2

theorem walk_eq (visit : Visit) : visit.walk = visit :: visit.next.flatMap walk := by
  rw [walk, List.flatMap_subtype fun _ _ => rfl, List.unattach_attach]

theorem mem_walk_self (visit : Visit) : visit ∈ visit.walk := by
  rw [walk_eq]
  exact List.mem_cons_self ..

theorem walk_subset_of_mem_next {visit later : Visit} (h : later ∈ visit.next) :
    later.walk ⊆ visit.walk := by
  intro below hbelow
  rw [walk_eq visit]
  exact List.mem_cons_of_mem _ (List.mem_flatMap.2 ⟨later, h, hbelow⟩)

/-- What holds of a visit whenever it holds of the visits of its children holds of every visit. -/
theorem next_induction {P : Visit → Prop}
    (h : ∀ visit : Visit, (∀ later ∈ visit.next, P later) → P visit) (visit : Visit) : P visit := by
  induction hweight : visit.node.weight using Nat.strongRecOn generalizing visit with
  | ind weight ih =>
    exact h visit fun later hlater =>
      ih later.node.weight (hweight ▸ weight_lt_of_mem_next hlater) later rfl

/-- **The visits are those of the walk.** -/
theorem map_node_walk (visit : Visit) : visit.walk.map node = visit.node.walk := by
  induction visit using next_induction with
  | h visit ih =>
    rw [walk_eq, List.map_cons, List.map_flatMap, List.flatMap_congr ih, Json.walk_eq,
      ← map_node_next, List.flatMap_map]

/-- The names of the identifiers among the visits that are selected. -/
def names (select : Visit → Bool) (visit : Visit) : List Json :=
  (visit.walk.filter select).filterMap fun later => identifierName? later.node

theorem names_eq (select : Visit → Bool) (visit : Visit) :
    visit.names select =
      (if select visit then (identifierName? visit.node).toList else []) ++
        visit.next.flatMap (names select) := by
  rw [names, walk_eq, List.filter_cons, List.filter_flatMap]
  split_ifs with hselect
  · rw [List.filterMap_cons, List.filterMap_flatMap]
    cases identifierName? visit.node <;> rfl
  · rw [List.filterMap_flatMap]
    rfl

/-- How the node of a visit is read. -/
def reading (visit : Visit) : Reading := if visit.isEntry then .entry else .expression

end Visit
end Json

/-! ### The members of standard nodes -/

/-- What a member holds in which a standard node has children. -/
inductive Slot where
  /-- A node, or nothing. -/
  | node
  /-- A list of nodes. -/
  | nodes
  /-- A list of the entries of an object expression. -/
  | entries
  /-- A list of nodes that are not entered, such as the texts between the expressions of a template. -/
  | leaves
deriving DecidableEq

/-- Whether a value is what a member is meant to hold. -/
def Slot.fits : Slot → Json → Bool
  | .node, value => !value.isList false
  | .nodes, value => value.isList false
  | .entries, value => value.isList true
  | .leaves, .arr items => items.all fun item => !item.kind.isEntered
  | .leaves, _ => false

/-- The members in which a standard node of a kind has its children. -/
def Kind.slots : Kind → List (String × Slot)
  | .taggedTemplate => [("tag", .node), ("quasi", .node)]
  | .templateLiteral => [("quasis", .leaves), ("expressions", .nodes)]
  | .call => [("callee", .node), ("arguments", .nodes)]
  | .construct => [("callee", .node), ("arguments", .nodes)]
  | .member => [("object", .node), ("property", .node)]
  | .conditional => [("test", .node), ("consequent", .node), ("alternate", .node)]
  | .logical => [("left", .node), ("right", .node)]
  | .binary => [("left", .node), ("right", .node)]
  | .array => [("elements", .nodes)]
  | .object => [("properties", .entries)]
  | .spread => [("argument", .node)]
  | _ => []

/-- What a member that is read has to hold. -/
def Reading.slot? : Reading → Option Slot
  | .expression => some .node
  | .expressions => some .nodes
  | .entries => some .entries
  | _ => none

namespace Json.Visit

/-- The members in which a standard node has its children: an entry that is no spread argument has a
key and a value. -/
def slots (visit : Visit) : List (String × Slot) :=
  if visit.isEntry ∧ visit.node.kind ≠ .spread then [("key", .node), ("value", .node)]
  else visit.node.kind.slots

/-- Whether a node is standard: no key occurs twice, its children are where the nodes of its kind have
them, and an entry is a spread argument or of a kind that is no expression.  A node that is not entered
has no children. -/
def standard (visit : Visit) : Bool :=
  match visit.node with
  | .obj members =>
    decide (members.map Prod.fst).Nodup &&
      (!visit.isEntry || visit.node.kind == .spread || !visit.node.kind.isEntered) &&
      members.all fun member =>
        match visit.slots.lookup member.1 with
        | some slot => slot.fits member.2
        | none => (memberNodes member).isEmpty
  | _ => false

/-- What is read off a node are no names in the sense of `holdsName`, and it is what the node has in its
slots. -/
theorem forall_fields (visit : Visit) : ∀ field ∈ visit.reading.fields visit.node,
    field.1 ∉ metadataKeys ∧
      decide (visit.node.kind = .object ∧ field.1 = "properties") = decide (field.2 = .entries) ∧
      visit.holdsName field.1 = false ∧ visit.slots.lookup field.1 = field.2.slot? := by
  obtain ⟨node, isEntry, inName⟩ := visit
  cases isEntry with
  | true =>
    simp only [reading, Reading.fields, slots, holdsName, if_true]
    cases node.kind <;> cases node.computed <;> decide
  | false =>
    simp only [reading, Reading.fields, slots, holdsName, Bool.false_eq_true, false_and, if_false]
    cases node.kind <;> cases node.computed <;> decide

/-- What a standard node has in its slots is read, or is a name, or is not entered. -/
theorem forall_slots (visit : Visit) : ∀ slot ∈ visit.slots,
    slot.1 ∈ (visit.reading.fields visit.node).map Prod.fst ∨ visit.holdsName slot.1 = true ∨
      slot.2 = .leaves ∧ visit.node.kind ≠ .object := by
  obtain ⟨node, isEntry, inName⟩ := visit
  cases isEntry with
  | true =>
    simp only [reading, Reading.fields, slots, holdsName, if_true]
    cases node.kind <;> cases node.computed <;> decide
  | false =>
    simp only [reading, Reading.fields, slots, holdsName, Bool.false_eq_true, false_and, if_false]
    cases node.kind <;> cases node.computed <;> decide

end Json.Visit

/-! ### Names that are read -/

/-- The names among what is read off a value. -/
def Reading.names (reading : Reading) (value : Json) : List Json :=
  (reading.read value).filterMap Except.toOption

theorem Reading.names_expression_of_not_isNode {value : Json} (h : value.isNode = false) :
    Reading.expression.names value = [] := by
  rw [names, read, Json.references_of_not_isNode h, List.filterMap_nil]

theorem Reading.names_expressions (items : List Json) :
    Reading.expressions.names (.arr items) = items.flatMap Reading.expression.names := by
  rw [names, read, Json.referencesOfItems, Json.referencesOfEach_eq, List.filterMap_flatMap]
  rfl

theorem Reading.names_entries (items : List Json) :
    Reading.entries.names (.arr items) = items.flatMap Reading.entry.names := by
  rw [names, read, Json.referencesOfPropertyList, Json.referencesOfEachProperty_eq,
    List.filterMap_flatMap]
  rfl

theorem flatMap_filter_of_forall {α β : Type} {items : List α} {p : α → Bool} {f : α → List β}
    (h : ∀ item ∈ items, p item = false → f item = []) :
    (items.filter p).flatMap f = items.flatMap f := by
  induction items with
  | nil => rfl
  | cons item items ih =>
    obtain ⟨hitem, hitems⟩ := List.forall_mem_cons.1 h
    rw [List.filter_cons, List.flatMap_cons]
    cases hp : p item with
    | true => rw [if_pos rfl, List.flatMap_cons, ih hitems]
    | false => rw [if_neg Bool.false_ne_true, ih hitems, hitem hp, List.nil_append]

namespace Json.Visit

/-- The names that are read off the node of a visit. -/
def yields (visit : Visit) : List Json := visit.reading.names visit.node

/-- The nodes of a list are visited. -/
theorem flatMap_below_arr (visit : Visit) {key : String} (hkey : key ∉ metadataKeys)
    (items : List Json) {β : Type} (f : Visit → List β) :
    (visit.below (key, .arr items)).flatMap f = (items.filter isNode).flatMap fun item =>
      f ⟨item, decide (visit.node.kind = .object ∧ key = "properties"),
        visit.inName || visit.holdsName key⟩ := by
  have hnodes : memberNodes (key, .arr items) = items.filter isNode := by
    rw [memberNodes, if_neg hkey, if_neg (by simp [isNode, has, get?])]
  rw [below, hnodes, List.flatMap_map]

/-- **What is read off a member is what is read off the nodes that are visited there,** if the member
holds what it is meant to hold. -/
theorem names_eq_flatMap_below {visit : Visit} {field : String × Reading}
    (hfield : field ∈ visit.reading.fields visit.node) {slot : Slot}
    (hslot : field.2.slot? = some slot) {value : Json} (hfits : slot.fits value = true) :
    field.2.names value = (visit.below (field.1, value)).flatMap yields := by
  obtain ⟨hkey, hentry, -, -⟩ := forall_fields visit field hfield
  obtain ⟨key, reading⟩ := field
  cases reading with
  | expression =>
    obtain rfl := Option.some.inj hslot
    cases hnode : value.isNode with
    | true =>
      rw [below, memberNodes, if_neg hkey, if_pos hnode, hentry]
      exact (List.append_nil _).symm
    | false =>
      have hnone : memberNodes (key, value) = [] := by
        rw [memberNodes, if_neg hkey, if_neg (by rw [hnode]; simp)]
        cases value with
        | arr items => exact absurd hfits (by simp [Slot.fits, isList])
        | _ => rfl
      rw [below, hnone, Reading.names_expression_of_not_isNode hnode]
      rfl
  | expressions =>
    obtain rfl := Option.some.inj hslot
    cases value with
    | arr items =>
      rw [flatMap_below_arr visit hkey, hentry, Reading.names_expressions]
      exact (flatMap_filter_of_forall fun item _ => Reading.names_expression_of_not_isNode).symm
    | _ => exact absurd hfits (by simp [Slot.fits, isList])
  | entries =>
    obtain rfl := Option.some.inj hslot
    cases value with
    | arr items =>
      have hnodes : items.all isNode = true := by simpa [Slot.fits, isList] using hfits
      rw [flatMap_below_arr visit hkey, hentry, Reading.names_entries,
        List.filter_eq_self.2 (List.all_eq_true.1 hnodes)]
      rfl
    | _ => exact absurd hfits (by simp [Slot.fits, isList])
  | entry | name | unread => exact absurd hslot (by simp [Reading.slot?])

/-- Nothing is read off a member that does not hold what it is meant to hold, unless it is a list of
entries that are no nodes. -/
theorem names_of_not_fits {reading : Reading} {slot : Slot} (hslot : reading.slot? = some slot)
    {value : Json} (hfits : slot.fits value = false)
    (hentries : reading = .entries → ∀ items, value = .arr items → ∀ item ∈ items,
      item.isNode = true) : reading.names value = [] := by
  cases reading with
  | expression =>
    obtain rfl := Option.some.inj hslot
    cases value with
    | arr items => rfl
    | _ => exact absurd hfits (by simp [Slot.fits, isList])
  | expressions =>
    obtain rfl := Option.some.inj hslot
    cases value with
    | arr items => exact absurd hfits (by simp [Slot.fits, isList])
    | _ => rfl
  | entries =>
    obtain rfl := Option.some.inj hslot
    cases value with
    | arr items =>
      have hnodes : items.all isNode = true := List.all_eq_true.2 (hentries rfl items rfl)
      exact absurd hfits (by simp [Slot.fits, isList, hnodes])
    | str s =>
      rw [Reading.names, Reading.read, referencesOfPropertyList]
      split_ifs <;> rfl
    | obj members =>
      rw [Reading.names, Reading.read, referencesOfPropertyList]
      split_ifs <;> rfl
    | _ => rfl
  | entry | name | unread => exact absurd hslot (by simp [Reading.slot?])

/-- What a function gives for the member under a key, nothing if there is none. -/
def ofMember {β : Type} (f : String × Json → List β) (members : List (String × Json))
    (key : String) : List β :=
  ((memberOf? key members).map fun value => f (key, value)).getD []

/-- What two functions give for a member is related as it is for all members under its key. -/
theorem ofMember_rel {β : Type} {R : List β → List β → Prop} (hnil : R [] [])
    {f g : String × Json → List β} {members : List (String × Json)} {key : String}
    (h : ∀ value, (key, value) ∈ members → R (f (key, value)) (g (key, value))) :
    R (ofMember f members key) (ofMember g members key) := by
  rw [ofMember, ofMember]
  cases hvalue : memberOf? key members with
  | none => exact hnil
  | some value => exact h value (mem_of_lookup hvalue)

/-- **The members of an object are those under some keys, and others.**  If no key occurs twice, the
others have none of the keys. -/
theorem flatMap_members_perm {β : Type} (f : String × Json → List β)
    (members : List (String × Json)) {keys : List String} (hkeys : keys.Nodup) :
    ∃ others ⊆ members,
      (members.flatMap f).Perm (keys.flatMap (ofMember f members) ++ others.flatMap f) ∧
      ((members.map Prod.fst).Nodup → ∀ member ∈ others, member.1 ∉ keys) := by
  induction members generalizing keys with
  | nil => exact ⟨[], List.Subset.refl _, by simp [ofMember, memberOf?], by simp⟩
  | cons first members ih =>
    have hfirst : ofMember f (first :: members) first.1 = f first := by
      rw [ofMember, memberOf?_cons, if_pos rfl]
      rfl
    have hlater : ∀ key, key ≠ first.1 →
        ofMember f (first :: members) key = ofMember f members key := by
      intro key hne
      rw [ofMember, memberOf?_cons, if_neg hne]
      rfl
    by_cases hmem : first.1 ∈ keys
    · obtain ⟨others, hsub, hperm, hnone⟩ := ih (hkeys.erase first.1)
      refine ⟨others, fun member hmember => List.mem_cons_of_mem _ (hsub hmember), ?_, ?_⟩
      · have hrest : (keys.erase first.1).flatMap (ofMember f (first :: members)) =
            (keys.erase first.1).flatMap (ofMember f members) :=
          List.flatMap_congr fun key hkey => hlater key (hkeys.mem_erase_iff.1 hkey).1
        refine .trans ?_ (((List.perm_cons_erase hmem).symm.flatMap_right _).append_right _)
        rw [List.flatMap_cons, List.flatMap_cons, hfirst, hrest, List.append_assoc]
        exact hperm.append_left _
      · intro hnodup member hmember hkey
        obtain ⟨hnew, hnodup⟩ := List.nodup_cons.1 hnodup
        have hne : member.1 ≠ first.1 := fun heq => hnew (heq ▸ List.mem_map_of_mem (hsub hmember))
        exact hnone hnodup member hmember ((List.mem_erase_of_ne hne).2 hkey)
    · obtain ⟨others, hsub, hperm, hnone⟩ := ih hkeys
      refine ⟨first :: others, List.cons_subset_cons _ hsub, ?_, ?_⟩
      · have hrest : keys.flatMap (ofMember f (first :: members)) = keys.flatMap (ofMember f members) :=
          List.flatMap_congr fun key hkey => hlater key fun heq => hmem (heq ▸ hkey)
        rw [hrest, List.flatMap_cons, List.flatMap_cons]
        exact (hperm.append_left _).trans (List.perm_append_comm_assoc ..)
      · intro hnodup
        exact List.forall_mem_cons.2 ⟨hmem, hnone (List.nodup_cons.1 hnodup).2⟩

/-- What a visit of a node yields is what is read off its members. -/
theorem yields_obj {visit : Visit} {members : List (String × Json)} (h : visit.node = .obj members) :
    visit.yields = (visit.reading.fields visit.node).flatMap fun field =>
      (Reading.readMember field.2 (memberOf? field.1 members)).filterMap Except.toOption := by
  have hreading : visit.reading = .expression ∨ visit.reading = .entry := by
    rw [reading]
    split_ifs
    · exact Or.inr rfl
    · exact Or.inl rfl
  rw [yields, Reading.names, h, Reading.read_obj hreading, List.filterMap_flatMap]

/-- An identifier yields its name; whatever else a visit yields is read off its slots. -/
theorem identifier_or_slots (visit : Visit) : visit.isEntry = false ∧ visit.node.kind = .identifier ∨
    ∀ field ∈ visit.reading.fields visit.node, field.2.slot?.isSome = true := by
  obtain ⟨node, isEntry, inName⟩ := visit
  cases isEntry with
  | true =>
    simp only [reading, Reading.fields, if_true]
    cases node.kind <;> cases node.computed <;> decide
  | false =>
    simp only [reading, Reading.fields, Bool.false_eq_true, if_false]
    cases node.kind <;> cases node.computed <;> decide

theorem yields_of_identifier {visit : Visit} (hentry : visit.isEntry = false)
    (hkind : visit.node.kind = .identifier) :
    visit.yields = (identifierName? visit.node).toList := by
  obtain ⟨members, hmembers⟩ := exists_members (isNode_of_kind (ne_of_eq_of_ne hkind (by simp)))
  have hfields : visit.reading.fields visit.node = [("name", .name)] := by
    rw [reading, hentry, if_neg Bool.false_ne_true, Reading.fields, hkind]
  rw [yields_obj hmembers, hfields, identifierName?, if_pos hkind, hmembers, get?,
    List.flatMap_singleton]
  cases memberOf? "name" members <;> rfl

theorem readMember_none {reading : Reading} {slot : Slot} (h : reading.slot? = some slot) :
    reading.readMember none = [] := by
  cases reading with
  | name => exact absurd h (by simp [Reading.slot?])
  | _ => rfl

/-- **What is read off a member is what is read off the nodes that are visited there,** if it holds what
it is meant to hold, or if there is no such member. -/
theorem readMember_eq {visit : Visit} {field : String × Reading}
    (hfield : field ∈ visit.reading.fields visit.node) {slot : Slot}
    (hslot : field.2.slot? = some slot) {members : List (String × Json)}
    (hfits : ∀ value, memberOf? field.1 members = some value → slot.fits value = true) :
    (Reading.readMember field.2 (memberOf? field.1 members)).filterMap Except.toOption =
      ofMember (fun member => (visit.below member).flatMap yields) members field.1 := by
  cases hvalue : memberOf? field.1 members with
  | none =>
    rw [readMember_none hslot, ofMember, hvalue]
    rfl
  | some value =>
    rw [ofMember, hvalue]
    exact names_eq_flatMap_below hfield hslot (hfits value hvalue)

theorem mem_next {visit later : Visit} {members : List (String × Json)} {member : String × Json}
    (h : visit.node = .obj members) (hmember : member ∈ members) (hlater : later ∈ visit.below member) :
    later ∈ visit.next := by
  rw [next, h]
  exact List.mem_flatMap.2 ⟨member, hmember, hlater⟩

/-- The names among the visits below a node are those among the visits below its members: below the
members that are read, and below others. -/
theorem names_next_perm (select : Visit → Bool) {visit : Visit} {members : List (String × Json)}
    (h : visit.node = .obj members) :
    ∃ others ⊆ members,
      (visit.next.flatMap (names select)).Perm
        ((visit.reading.fields visit.node).flatMap (fun field =>
          ofMember (fun member => (visit.below member).flatMap (names select)) members field.1) ++
            others.flatMap fun member => (visit.below member).flatMap (names select)) ∧
      ((members.map Prod.fst).Nodup →
        ∀ member ∈ others, member.1 ∉ (visit.reading.fields visit.node).map Prod.fst) := by
  obtain ⟨others, hsub, hperm, hnone⟩ := flatMap_members_perm
    (fun member => (visit.below member).flatMap (names select)) members
    (Reading.nodup_fields visit.reading visit.node)
  rw [List.flatMap_map] at hperm
  have hnext : visit.next = members.flatMap visit.below := by rw [next, h]
  exact ⟨others, hsub, by rwa [hnext, List.flatMap_assoc], hnone⟩

theorem subperm_flatMap {α β : Type} {items : List α} {f g : α → List β}
    (h : ∀ item ∈ items, (f item).Subperm (g item)) :
    (items.flatMap f).Subperm (items.flatMap g) := by
  induction items with
  | nil => exact List.nil_subperm
  | cons item items ih =>
    obtain ⟨hitem, hitems⟩ := List.forall_mem_cons.1 h
    exact hitem.append (ih hitems)

end Json.Visit

/-- Whether the entries of a node are nodes, if it is an object expression. -/
def Json.hasNodeEntries (node : Json) : Bool :=
  match node.kind, node.get? "properties" with
  | .object, some (.arr items) => items.all isNode
  | _, _ => true

namespace Json.Visit

/-- Off any other member nothing is read, if the entries of object expressions are nodes. -/
theorem readMember_eq_or_nil {visit : Visit} {members : List (String × Json)}
    (hnode : visit.node = .obj members) (hentries : visit.node.hasNodeEntries = true)
    {field : String × Reading} (hfield : field ∈ visit.reading.fields visit.node) {slot : Slot}
    (hslot : field.2.slot? = some slot) :
    (Reading.readMember field.2 (memberOf? field.1 members)).filterMap Except.toOption =
        ofMember (fun member => (visit.below member).flatMap yields) members field.1 ∨
      (Reading.readMember field.2 (memberOf? field.1 members)).filterMap Except.toOption = [] := by
  by_cases hfits : ∀ value, memberOf? field.1 members = some value → slot.fits value = true
  · exact Or.inl (readMember_eq hfield hslot hfits)
  · obtain ⟨value, hvalue, hfits⟩ : ∃ value, memberOf? field.1 members = some value ∧
        slot.fits value = false := by simpa using hfits
    rw [hvalue]
    refine Or.inr (names_of_not_fits hslot hfits fun hreading items hitems => ?_)
    have hobject := (forall_fields visit field hfield).2.1
    rw [hreading, decide_eq_decide] at hobject
    obtain ⟨hkind, hkey⟩ := hobject.2 rfl
    have hproperties : visit.node.get? "properties" = some (.arr items) := by
      rw [hnode, get?, ← hkey, hvalue, hitems]
    rw [hasNodeEntries, hkind, hproperties] at hentries
    exact List.all_eq_true.1 hentries

/-- **Every name that is read is that of an identifier that is visited,** and it is read at most as
often as there are such identifiers. -/
theorem yields_subperm (visit : Visit) (h : ∀ node ∈ visit.node.walk, node.hasNodeEntries = true) :
    visit.yields.Subperm (visit.names fun _ => true) := by
  induction visit using next_induction with
  | h visit ih =>
    rw [names_eq, if_pos rfl]
    rcases identifier_or_slots visit with ⟨hentry, hkind⟩ | hslots
    · rw [yields_of_identifier hentry hkind]
      exact (List.sublist_append_left _ _).subperm
    · cases hnode : visit.node with
      | obj members =>
        obtain ⟨others, -, hperm, -⟩ := names_next_perm (fun _ => true) hnode
        refine List.Subperm.trans ?_ (List.sublist_append_right _ _).subperm
        rw [hperm.subperm_left, yields_obj hnode]
        refine List.Subperm.trans (subperm_flatMap fun field hfield => ?_)
          (List.sublist_append_left _ _).subperm
        obtain ⟨slot, hslot⟩ := Option.isSome_iff_exists.1 (hslots field hfield)
        rcases readMember_eq_or_nil hnode (h visit.node (Json.mem_walk_self _)) hfield hslot with
          hread | hread
        · rw [hread]
          refine ofMember_rel List.nil_subperm fun value hmember => ?_
          refine subperm_flatMap fun later hlater => ?_
          have hnext := mem_next hnode hmember hlater
          exact ih later hnext fun node hwalk =>
            h node (walk_subset_of_mem_children (mem_children_of_mem_next hnext) hwalk)
        · rw [hread]
          exact List.nil_subperm
      | _ =>
        have hnone : visit.yields = [] := by
          rw [yields, reading, hnode]
          split_ifs <;> rfl
        rw [hnone]
        exact List.nil_subperm

/-! ### Standard trees -/

theorem mem_items_of_mem_memberNodes {key : String} {items : List Json} {child : Json}
    (h : child ∈ memberNodes (key, .arr items)) : child ∈ items := by
  rw [memberNodes] at h
  split_ifs at h with hkey hnode
  · exact absurd h List.not_mem_nil
  · exact absurd hnode (by simp [isNode, has, get?])
  · exact (List.mem_filter.1 h).1

/-- What a standard node looks like. -/
theorem exists_members_of_standard {visit : Visit} (h : visit.standard = true) :
    ∃ members, visit.node = .obj members ∧ (members.map Prod.fst).Nodup ∧
      (visit.isEntry = true → visit.node.kind ≠ .identifier) ∧
      ∀ member ∈ members, (∀ slot, visit.slots.lookup member.1 = some slot →
          slot.fits member.2 = true) ∧
        (visit.slots.lookup member.1 = none → visit.below member = []) := by
  rw [standard] at h
  split at h
  case h_1 members hmembers =>
    simp only [Bool.and_eq_true, decide_eq_true_eq, List.all_eq_true] at h
    obtain ⟨⟨hnodup, hentry⟩, hall⟩ := h
    refine ⟨members, hmembers, hnodup, fun hisEntry hkind => ?_, fun member hmember => ?_⟩
    · rw [hisEntry, hkind] at hentry
      exact absurd hentry (by decide)
    · have hfits := hall member hmember
      refine ⟨fun slot hslot => by rwa [hslot] at hfits, fun hnone => ?_⟩
      rw [hnone] at hfits
      rw [below, List.isEmpty_iff.1 hfits, List.map_nil]
  case h_2 => exact absurd h Bool.false_ne_true

/-- The visits inside a name are all inside it. -/
theorem names_of_inName (visit : Visit) (h : visit.inName = true) :
    (visit.names fun later => !later.inName) = [] := by
  induction visit using next_induction with
  | h visit ih =>
    rw [names_eq, h]
    refine List.flatMap_eq_nil_iff.2 fun later hlater => ih later hlater ?_
    rw [next] at hlater
    split at hlater
    case h_1 members _ =>
      obtain ⟨member, -, hlater⟩ := List.mem_flatMap.1 hlater
      obtain ⟨child, -, rfl⟩ := List.mem_map.1 hlater
      exact Bool.or_eq_true_iff.2 (Or.inl h)
    case h_2 => exact absurd hlater List.not_mem_nil

/-- A standard node without slots has no children. -/
theorem next_of_slots_eq_nil {visit : Visit} (h : visit.standard = true) (hslots : visit.slots = []) :
    visit.next = [] := by
  obtain ⟨members, hmembers, -, -, hall⟩ := exists_members_of_standard h
  rw [next, hmembers]
  refine List.flatMap_eq_nil_iff.2 fun member hmember => (hall member hmember).2 ?_
  rw [hslots, List.lookup_nil]

/-- A standard node that is not entered yields no name, and no identifier is below it. -/
theorem names_of_leaf (select : Visit → Bool) {visit : Visit} (h : visit.standard = true)
    (hentry : visit.isEntry = false) (hkind : visit.node.kind.isEntered = false) :
    visit.names select = [] := by
  have hslots : visit.slots = [] := by
    rw [slots, if_neg (by simp [hentry])]
    revert hkind
    cases visit.node.kind <;> simp [Kind.isEntered, Kind.slots]
  have hname : identifierName? visit.node = none :=
    if_neg fun heq => absurd hkind (by rw [heq]; decide)
  rw [names_eq, next_of_slots_eq_nil h hslots, hname]
  split_ifs <;> rfl

/-- Below a member of a standard node that is not read there are no names but those inside names. -/
theorem names_below_of_not_read {visit : Visit} {members : List (String × Json)}
    (hnode : visit.node = .obj members) (h : ∀ later ∈ visit.walk, later.standard = true)
    {member : String × Json} (hmember : member ∈ members)
    (hunread : member.1 ∉ (visit.reading.fields visit.node).map Prod.fst) :
    ((visit.below member).flatMap (names fun later => !later.inName)) = [] := by
  obtain ⟨members', hmembers', -, -, hall⟩ := exists_members_of_standard (h visit (mem_walk_self visit))
  obtain rfl := Json.obj.inj (hnode.symm.trans hmembers')
  obtain ⟨hfits, hnone⟩ := hall member hmember
  cases hslot : visit.slots.lookup member.1 with
  | none =>
    rw [hnone hslot]
    rfl
  | some slot =>
    refine List.flatMap_eq_nil_iff.2 fun later hlater => ?_
    have hstandard := h later (walk_subset_of_mem_next (mem_next hnode hmember hlater)
      (mem_walk_self later))
    obtain ⟨child, hchild, rfl⟩ := List.mem_map.1 hlater
    rcases forall_slots visit _ (mem_of_lookup hslot) with hread | hname | ⟨hleaves, hkind⟩
    · exact absurd hread hunread
    · exact names_of_inName _ (Bool.or_eq_true_iff.2 (Or.inr hname))
    · obtain rfl : slot = .leaves := hleaves
      refine names_of_leaf _ hstandard (decide_eq_false fun hobject => hkind hobject.1) ?_
      obtain ⟨key, value⟩ := member
      cases value with
      | arr items =>
        have hitems := List.all_eq_true.1 (hfits _ hslot) child (mem_items_of_mem_memberNodes hchild)
        simpa using hitems
      | _ => exact absurd (hfits _ hslot) (by simp [Slot.fits])

/-- **In a standard tree every identifier is read once that does not lie inside a name.** -/
theorem yields_perm (visit : Visit) (hname : visit.inName = false)
    (h : ∀ later ∈ visit.walk, later.standard = true) :
    visit.yields.Perm (visit.names fun later => !later.inName) := by
  induction visit using next_induction with
  | h visit ih =>
    have hstandard := h visit (mem_walk_self visit)
    obtain ⟨members, hnode, hnodup, hentry, hall⟩ := exists_members_of_standard hstandard
    rw [names_eq, hname, Bool.not_false, if_pos rfl]
    rcases identifier_or_slots visit with ⟨hisEntry, hkind⟩ | hslots
    · have hnone : visit.slots = [] := by
        rw [slots, if_neg (by simp [hisEntry]), hkind]
        rfl
      rw [yields_of_identifier hisEntry hkind, next_of_slots_eq_nil hstandard hnone,
        List.flatMap_nil, List.append_nil]
    · have hown : identifierName? visit.node = none := by
        refine if_neg fun hkind => ?_
        have hisEntry : visit.isEntry = false := Bool.eq_false_iff.2 fun heq => hentry heq hkind
        have hfield : ("name", .name) ∈ visit.reading.fields visit.node := by
          rw [reading, hisEntry, if_neg Bool.false_ne_true, Reading.fields, hkind]
          exact List.mem_singleton_self _
        exact absurd (hslots _ hfield) (by simp [Reading.slot?])
      obtain ⟨others, hsub, hperm, hunread⟩ := names_next_perm (fun later => !later.inName) hnode
      have hothers : (others.flatMap fun member =>
          (visit.below member).flatMap (names fun later => !later.inName)) = [] :=
        List.flatMap_eq_nil_iff.2 fun member hmember =>
          names_below_of_not_read hnode h (hsub hmember) (hunread hnodup member hmember)
      rw [hothers, List.append_nil] at hperm
      rw [hown, Option.toList_none, List.nil_append, yields_obj hnode]
      refine .trans (.flatMap_left _ fun field hfield => ?_) hperm.symm
      obtain ⟨slot, hslot⟩ := Option.isSome_iff_exists.1 (hslots field hfield)
      obtain ⟨-, -, hnoName, hlookup⟩ := forall_fields visit field hfield
      rw [readMember_eq hfield hslot fun value hvalue =>
        (hall _ (mem_of_lookup hvalue)).1 slot (hlookup.trans hslot)]
      refine ofMember_rel (.refl _) fun value hmember => .flatMap_left _ fun later hlater => ?_
      have hnext := mem_next hnode hmember hlater
      refine ih later hnext ?_ fun below hbelow => h below (walk_subset_of_mem_next hnext hbelow)
      obtain ⟨child, -, rfl⟩ := List.mem_map.1 hlater
      exact Bool.or_eq_false_iff.2 ⟨hname, hnoName⟩

end Json.Visit

namespace Json

/-- The visits of a walk through an initializer. -/
def visits (tree : Json) : List Visit := Visit.walk ⟨tree, false, false⟩

/-- The names of the identifiers among nodes. -/
def identifierNames (nodes : List Json) : List Json := nodes.filterMap identifierName?

theorem names_of_references {tree : Json} {names : List Json}
    (h : tree.references = names.map .ok) : Visit.yields ⟨tree, false, false⟩ = names := by
  have hread : Visit.yields ⟨tree, false, false⟩ = tree.references.filterMap Except.toOption := rfl
  rw [hread, h, List.filterMap_map]
  exact List.filterMap_some

theorem names_visits (select : Visit → Bool) (tree : Json) :
    Visit.names select ⟨tree, false, false⟩ =
      identifierNames ((tree.visits.filter select).map Visit.node) := by
  rw [identifierNames, List.filterMap_map]
  rfl

/-- **What an initializer refers to is what is evaluated in it.**  A node that is not entered where it
stands may be replaced by any other one that is not.  Every name is that of an identifier that the walk
visits, and in a standard tree the names are, as often as they occur, those of the identifiers that do
not lie in a property or a key that is not computed. -/
theorem references_evaluated (tree : Json) :
    (∀ position old (new : Json), tree.at? position = some old → old.isNode = true → new.isNode = true →
      (Reading.expression.at tree position).enters old = false →
        (Reading.expression.at tree position).enters new = false →
          (tree.replace position new).references = tree.references) ∧
      ∀ names : List Json, tree.references = names.map .ok →
        ((∀ node ∈ tree.walk, node.hasNodeEntries = true) →
          names.Subperm (identifierNames tree.walk)) ∧
        tree.visits.map Visit.node = tree.walk ∧
        ((∀ visit ∈ tree.visits, visit.standard = true) →
          names.Perm
            (identifierNames ((tree.visits.filter fun visit => !visit.inName).map Visit.node))) := by
  refine ⟨fun position old new h hold hnew houter houter' =>
    Reading.read_replace h hold hnew houter houter', fun names hnames => ⟨fun hentries => ?_,
      Visit.map_node_walk _, fun hstandard => ?_⟩⟩
  · have hsub := Visit.yields_subperm ⟨tree, false, false⟩ hentries
    rwa [names_of_references hnames, names_visits, List.filter_true, visits, Visit.map_node_walk]
      at hsub
  · have hperm := Visit.yields_perm ⟨tree, false, false⟩ rfl hstandard
    rwa [names_of_references hnames, names_visits] at hperm

/-! ### A themed button -/

/-- An identifier. -/
def identifier (name : String) : Json := .obj [("type", .str "Identifier"), ("name", .str name)]

/-- An access to a member of an object, computed or not. -/
def memberAccess (object property : String) (computed : Bool) : Json :=
  .obj [("type", .str "MemberExpression"), ("object", identifier object),
    ("property", identifier property), ("computed", .bool computed)]

/-- A button with a template in which an object, two members and one more expression stand. -/
def themedButton (last : Json) : Json :=
  .obj [("type", .str "TaggedTemplateExpression"),
    ("tag", .obj [("type", .str "CallExpression"), ("callee", identifier "styled"),
      ("arguments", .arr [identifier "Base"])]),
    ("quasi", .obj [("type", .str "TemplateLiteral"),
      ("quasis", .arr [.obj [("type", .str "TemplateElement"), ("tail", .bool true)]]),
      ("expressions", .arr [memberAccess "theme" "color" false, memberAccess "sizes" "level" true,
        .obj [("type", .str "ObjectExpression"), ("properties", .arr [
          .obj [("type", .str "Property"), ("key", identifier "margin"),
            ("value", identifier "space")],
          .obj [("type", .str "SpreadElement"), ("argument", identifier "rest")]])],
        last])])]

/-- A number. -/
def numberOne : Json := .obj [("type", .str "NumericLiteral"), ("value", .int 1)]

/-- A function that refers to something when it is called. -/
def laterFunction : Json :=
  .obj [("type", .str "ArrowFunctionExpression"), ("body", identifier "later")]

/-- The button refers to what is evaluated in it, with a number or with a function in the end. -/
theorem references_evaluated_themedButton :
    let tree := themedButton numberOne
    let names := ["styled", "Base", "theme", "sizes", "level", "space", "rest"].map Json.str
    let position := [Step.member "quasi", .member "expressions", .item 3]
    tree.references = names.map .ok ∧
      tree.at? position = some numberOne ∧ tree.replace position laterFunction =
        themedButton laterFunction ∧
      (themedButton laterFunction).references = names.map .ok ∧
      (∀ node ∈ tree.walk, node.hasNodeEntries = true) ∧ names.Subperm (identifierNames tree.walk) ∧
      (∀ visit ∈ tree.visits, visit.standard = true) ∧
      names.Perm (identifierNames ((tree.visits.filter fun visit => !visit.inName).map Visit.node)) := by
  intro tree names position
  have hnames : tree.references = names.map .ok := rfl
  have hat : tree.at? position = some numberOne := rfl
  have hentries : tree.walk.all hasNodeEntries = true := by cbv
  have hstandard : tree.visits.all Visit.standard = true := by cbv
  have hentries := List.all_eq_true.1 hentries
  have hstandard := List.all_eq_true.1 hstandard
  obtain ⟨hreplace, hread⟩ := references_evaluated tree
  obtain ⟨hsub, -, hperm⟩ := hread names hnames
  refine ⟨hnames, hat, rfl, ?_, hentries, hsub hentries, hstandard, hperm hstandard⟩
  rw [← hnames, ← hreplace position numberOne laterFunction hat rfl rfl rfl rfl]
  rfl

end Json
end UsageOrder
