import UsageOrder.Proofs.Unresolvable
import UsageOrder.Proofs.Walking

/-!
# Trees that a check can go through

A fault that concerns one file is reported; any other fault ends the run.  A step is *contained*
when it fails with reported faults only.  What a check asks of a tree is little: offsets are whole
numbers, identifiers have texts for names, and lists are lists.  `Json.regular` says so of a node
and of all nodes below it, and can be computed.

| part of a regular node | what it gives |
|---|---|
| its range | a range, or the fault that there is none (`range_contained`) |
| its references | texts (`references_of_regular`) |
| the root of its chain | a text or nothing (`root_of_regular`) |
-/

namespace UsageOrder

/-! ### Contained steps -/

/-- A step that fails only with a fault that is reported. -/
def Contained {α : Type} (step : Except Fault α) : Prop :=
  ∀ fault, step = .error fault → fault.isReported = true

namespace Contained

variable {α β : Type}

theorem ok (value : α) : Contained (.ok value) := fun _ h => absurd h (by simp)

theorem of_eq_ok {step : Except Fault α} {value : α} (h : step = .ok value) : Contained step :=
  h ▸ ok value

theorem bind {step : Except Fault α} {next : α → Except Fault β} (h : Contained step)
    (hnext : ∀ value, step = .ok value → Contained (next value)) : Contained (step >>= next) := by
  intro fault hfault
  rcases bind_eq_error_iff.1 hfault with hstep | ⟨value, hvalue, hrest⟩
  · exact h fault hstep
  · exact hnext value hvalue fault hrest

theorem mapM {f : α → Except Fault β} {items : List α} (h : ∀ item ∈ items, Contained (f item)) :
    Contained (items.mapM f) := by
  intro fault hfault
  obtain ⟨item, hitem, hstep⟩ := exists_mem_of_mapM_error hfault
  exact h item hitem fault hstep

theorem forM {f : α → Except Fault Unit} {items : List α}
    (h : ∀ item ∈ items, Contained (f item)) : Contained (items.forM f) := by
  intro fault hfault
  obtain ⟨item, hitem, hstep⟩ := exists_mem_of_forM_error hfault
  exact h item hitem fault hstep

end Contained

/-! ### Regular trees -/

namespace Json

/-- Whether a value is a whole number. -/
def isInt : Json → Bool
  | .int _ => true
  | _ => false

/-- Whether a value is a pair of whole numbers. -/
def isIntPair : Json → Bool
  | .arr [start, stop] => start.isInt && stop.isInt
  | _ => false

/-- Whether a value is a list, and if need be one of nodes. -/
def isList (ofNodes : Bool) : Json → Bool
  | .arr items => !ofNodes || items.all isNode
  | _ => false

/-- The list that nodes of some types have, and whether it is one of nodes. -/
def listOf : Kind → Option (String × Bool)
  | .variableDeclaration => some ("declarations", true)
  | .object => some ("properties", true)
  | .templateLiteral => some ("expressions", false)
  | .call => some ("arguments", false)
  | .construct => some ("arguments", false)
  | .array => some ("elements", false)
  | _ => none

/-- What a check relies on in a node: its offsets, if it has any, are whole numbers, an identifier
has a text for its name, and the list that it has by its type is a list. -/
def sound (node : Json) : Bool :=
  (node.get? "range").all isIntPair && (node.get? "start").all isInt &&
    (node.get? "end").all isInt &&
    (!(node.kind = .identifier || node.kind = .elementName) ||
      (node.get? "name").any fun name => name.text?.isSome) &&
    (listOf node.kind).all fun list => (node.get? list.1).all (isList list.2)

/-- Whether a value is a node on whose nodes, its own included, a check can rely. -/
def regular (node : Json) : Bool := node.isNode && node.walk.all sound

theorem regular_iff {node : Json} :
    node.regular = true ↔ node.isNode = true ∧ ∀ below ∈ node.walk, below.sound = true := by
  rw [regular, Bool.and_eq_true, List.all_eq_true]

theorem isNode_of_mem_children {node child : Json} (h : child ∈ node.children) :
    child.isNode = true := by
  cases node with
  | obj members =>
    obtain ⟨⟨key, value⟩, -, hmember⟩ := List.mem_flatMap.1 h
    rw [memberNodes] at hmember
    split_ifs at hmember with hkey hnode
    · exact absurd hmember List.not_mem_nil
    · exact List.mem_singleton.1 hmember ▸ hnode
    · split at hmember
      · exact (List.mem_filter.1 hmember).2
      · exact absurd hmember List.not_mem_nil
  | _ => exact absurd h (by simp [children])

/-- A value that is no node has no type. -/
theorem isNode_of_kind {value : Json} (h : value.kind ≠ .other) : value.isNode = true := by
  by_contra hnode
  have hnone : value.get? "type" = none := by
    rw [isNode, has] at hnode
    simpa using hnode
  exact h (by rw [kind, typeOf, getD, hnone]; rfl)

theorem get?_of_isNode {node : Json} {key : String} (h : (node.getD key).isNode = true) :
    node.get? key = some (node.getD key) := by
  rw [getD] at h ⊢
  cases hget : node.get? key with
  | none => rw [hget] at h; exact absurd h (by simp [isNode, has, get?])
  | some value => rfl

section Regular

variable {node child : Json}

theorem sound_of_regular (h : node.regular = true) : node.sound = true :=
  (regular_iff.1 h).2 node (mem_walk_self node)

theorem regular_of_mem_children (h : node.regular = true) (hchild : child ∈ node.children) :
    child.regular = true :=
  regular_iff.2 ⟨isNode_of_mem_children hchild, fun below hbelow =>
    (regular_iff.1 h).2 below (walk_subset_of_mem_children hchild hbelow)⟩

/-- The nodes of a walk from a regular node are regular. -/
theorem regular_of_mem_walk {below : Json} (h : node.regular = true) (hbelow : below ∈ node.walk) :
    below.regular = true := by
  induction node using below_induction with
  | h node ih =>
    rw [walk_eq] at hbelow
    rcases List.mem_cons.1 hbelow with rfl | hbelow
    · exact h
    · obtain ⟨child, hchild, hbelow⟩ := List.mem_flatMap.1 hbelow
      exact ih child hchild child (mem_walk_self child) (regular_of_mem_children h hchild) hbelow

/-- A node under a key of a regular node is regular. -/
theorem regular_getD {key : String} (h : node.regular = true) (hkey : key ∉ metadataKeys)
    (hnode : (node.getD key).isNode = true) : (node.getD key).regular = true :=
  regular_of_mem_children h (mem_children_of_isNode (get?_of_isNode hnode) hkey hnode)

theorem exists_members (h : node.isNode = true) : ∃ members, node = .obj members := by
  cases node with
  | obj members => exact ⟨members, rfl⟩
  | _ => exact absurd h (by simp [isNode, has, get?])

/-! ### Ranges and names -/

theorem mentions_of_isNode (h : node.isNode = true) (key : String) :
    node.mentions key = .ok (node.get? key).isSome := by
  obtain ⟨members, rfl⟩ := exists_members h
  rfl

theorem require_of_isNode (h : node.isNode = true) {key : String} {value : Json}
    (hvalue : node.get? key = some value) : node.require key = .ok value := by
  obtain ⟨members, rfl⟩ := exists_members h
  have hmember : memberOf? key members = some value := hvalue
  simp only [require, hmember]

theorem hasRange_of_isNode (h : node.isNode = true) : ∃ there, node.hasRange = .ok there := by
  rw [hasRange, mentionsEnds]
  simp only [mentions_of_isNode h, bind, Except.bind]
  split_ifs <;> exact ⟨_, rfl⟩

/-- The range of a regular node can only be missing. -/
theorem range_contained (h : node.regular = true) : Contained node.range := by
  have hnode := (regular_iff.1 h).1
  have hsound := sound_of_regular h
  simp only [sound, Bool.and_eq_true, Option.all_eq_true] at hsound
  obtain ⟨⟨⟨⟨hrange, hstart⟩, hstop⟩, -⟩, -⟩ := hsound
  have hint : ∀ value : Json, value.isInt = true → ∃ n, value.toOffset = .ok n := by
    intro value hvalue
    cases value with
    | int n => exact ⟨n, rfl⟩
    | _ => exact absurd hvalue (by simp [isInt])
  rw [range, mentionsEnds]
  simp only [mentions_of_isNode hnode, bind, Except.bind]
  cases hpair : node.get? "range" with
  | some value =>
    have hvalue := hrange value hpair
    rw [require_of_isNode hnode hpair]
    unfold isIntPair at hvalue
    split at hvalue
    · rename_i start stop
      obtain ⟨hfirst, hsecond⟩ := Bool.and_eq_true_iff.1 hvalue
      obtain ⟨m, hm⟩ := hint start hfirst
      obtain ⟨n, hn⟩ := hint stop hsecond
      simp only [Option.isSome_some, if_true, pair, items, bind, Except.bind, hm, hn]
      exact Contained.ok _
    · exact absurd hvalue Bool.false_ne_true
  | none =>
    cases hfirst : node.get? "start" with
    | none => exact fun fault hfault => Except.error.inj hfault ▸ rfl
    | some start =>
      cases hsecond : node.get? "end" with
      | none => exact fun fault hfault => Except.error.inj hfault ▸ rfl
      | some stop =>
        obtain ⟨m, hm⟩ := hint start (hstart start hfirst)
        obtain ⟨n, hn⟩ := hint stop (hstop stop hsecond)
        simp only [Option.isSome_none, Option.isSome_some, Bool.false_eq_true, if_false, if_true,
          require_of_isNode hnode hfirst, require_of_isNode hnode hsecond, hm, hn]
        exact Contained.ok _

/-- An identifier has a text for its name. -/
theorem exists_name (h : node.regular = true)
    (hkind : node.kind = .identifier ∨ node.kind = .elementName) :
    ∃ s, node.require "name" = .ok (.str s) := by
  have hsound := sound_of_regular h
  simp only [sound, Bool.and_eq_true, Bool.or_eq_true, Bool.not_eq_true',
    Bool.or_eq_false_iff, decide_eq_false_iff_not] at hsound
  obtain ⟨⟨-, hname⟩, -⟩ := hsound
  rcases hname with ⟨hnot, hnot'⟩ | hname
  · exact absurd hkind (not_or.2 ⟨hnot, hnot'⟩)
  · obtain ⟨value, hvalue, htext⟩ := (Option.any_eq_true _ _).1 hname
    rw [require_of_isNode (regular_iff.1 h).1 hvalue]
    cases value with
    | str s => exact ⟨s, rfl⟩
    | _ => exact absurd htext (by simp [text?])

/-- The list that a node has by its type. -/
theorem exists_items (h : node.regular = true) {key : String} {ofNodes : Bool}
    (hkey : listOf node.kind = some (key, ofNodes)) {value : Json}
    (hvalue : node.get? key = some value) :
    ∃ items, value = .arr items ∧ (ofNodes = true → ∀ item ∈ items, item.isNode = true) := by
  have hsound := sound_of_regular h
  rw [sound, Bool.and_eq_true, hkey] at hsound
  have hlist : value.isList ofNodes = true := by
    have hall := hsound.2
    simp only [Option.all_some, hvalue] at hall
    exact hall
  cases value with
  | arr items =>
    refine ⟨items, rfl, fun hnodes => ?_⟩
    rw [isList, hnodes] at hlist
    exact List.all_eq_true.1 (by simpa using hlist)
  | _ => exact absurd hlist (by simp [isList])

end Regular

/-! ### References -/

/-- A function that goes through members up to the one under a key. -/
theorem eq_of_members {β : Type} {key : String} {f : List (String × Json) → β}
    {g : String × Json → β} {none : β} (hnil : f [] = none)
    (hcons : ∀ member members,
      f (member :: members) = if member.1 = key then g member else f members)
    (members : List (String × Json)) :
    f members = ((memberOf? key members).map fun value => g (key, value)).getD none := by
  induction members with
  | nil => exact hnil
  | cons member members ih =>
    obtain ⟨name, value⟩ := member
    rw [hcons, memberOf?, List.lookup_cons]
    by_cases hkey : name = key
    · rw [if_pos hkey, hkey, BEq.rfl]
      rfl
    · rw [if_neg hkey, beq_false_of_ne (Ne.symm hkey)]
      exact ih

theorem referencesUnder_eq (key : String) (members : List (String × Json)) :
    referencesUnder key members = ((memberOf? key members).map references).getD [] :=
  eq_of_members (g := referencesOfMember) rfl (fun _ _ => rfl) members

theorem referencesOfList_eq (key : String) (members : List (String × Json)) :
    referencesOfList key members =
      ((memberOf? key members).map fun value => referencesOfItems (key, value)).getD [] :=
  eq_of_members rfl (fun _ _ => rfl) members

theorem referencesOfProperties_eq (members : List (String × Json)) :
    referencesOfProperties members = ((memberOf? "properties" members).map fun value =>
      referencesOfPropertyList ("properties", value)).getD [] :=
  eq_of_members rfl (fun _ _ => rfl) members

theorem rootUnder_eq (key : String) (members : List (String × Json)) :
    rootUnder key members = ((memberOf? key members).map root).getD (.ok .null) :=
  eq_of_members (g := rootOfMember) rfl (fun _ _ => rfl) members

theorem referencesOfEach_eq (items : List Json) :
    referencesOfEach items = items.flatMap references := by
  induction items with
  | nil => rfl
  | cons item items ih => rw [referencesOfEach, ih, List.flatMap_cons]

theorem referencesOfEachProperty_eq (items : List Json) :
    referencesOfEachProperty items = items.flatMap referencesOfProperty := by
  induction items with
  | nil => rfl
  | cons item items ih => rw [referencesOfEachProperty, ih, List.flatMap_cons]

theorem kind_of_not_isNode {value : Json} (h : value.isNode = false) : value.kind = .other := by
  by_contra hkind
  exact Bool.false_ne_true (h.symm.trans (isNode_of_kind hkind))

theorem references_of_not_isNode {value : Json} (h : value.isNode = false) :
    value.references = [] := by
  cases value with
  | obj members => rw [references, kind_of_not_isNode h]
  | _ => rfl

theorem root_of_not_isNode {value : Json} (h : value.isNode = false) :
    value.root = .ok .null := by
  cases value with
  | obj members => rw [root, kind_of_not_isNode h]
  | _ => rfl

section References

variable {members : List (String × Json)} {T : Except Fault Json → Prop}

/-- What holds of the references of a node under a key holds of those under the key. -/
theorem forall_referencesUnder {key : String}
    (h : ∀ value, (Json.obj members).get? key = some value → value.isNode = true →
      ∀ reference ∈ value.references, T reference) :
    ∀ reference ∈ referencesUnder key members, T reference := by
  rw [referencesUnder_eq]
  intro reference hreference
  cases hvalue : memberOf? key members with
  | none => rw [hvalue] at hreference; exact absurd hreference List.not_mem_nil
  | some value =>
    rw [hvalue, Option.map_some, Option.getD_some] at hreference
    cases hnode : value.isNode with
    | true => exact h value hvalue hnode reference hreference
    | false =>
      rw [references_of_not_isNode hnode] at hreference
      exact absurd hreference List.not_mem_nil

theorem forall_referencesOfList {key : String}
    (hlist : ∀ value, (Json.obj members).get? key = some value → ∃ items, value = .arr items)
    (h : ∀ items, (Json.obj members).get? key = some (.arr items) → ∀ item ∈ items,
      item.isNode = true → ∀ reference ∈ item.references, T reference) :
    ∀ reference ∈ referencesOfList key members, T reference := by
  rw [referencesOfList_eq]
  intro reference hreference
  cases hvalue : memberOf? key members with
  | none => rw [hvalue] at hreference; exact absurd hreference List.not_mem_nil
  | some value =>
    obtain ⟨items, rfl⟩ := hlist value hvalue
    rw [hvalue, Option.map_some, Option.getD_some, referencesOfItems, referencesOfEach_eq]
      at hreference
    obtain ⟨item, hitem, hreference⟩ := List.mem_flatMap.1 hreference
    cases hnode : item.isNode with
    | true => exact h items hvalue item hitem hnode reference hreference
    | false =>
      rw [references_of_not_isNode hnode] at hreference
      exact absurd hreference List.not_mem_nil

/-- A property refers to nodes under three of its keys. -/
theorem forall_referencesOfProperty
    (h : ∀ key ∈ ["argument", "key", "value"], ∀ value, (Json.obj members).get? key = some value →
      value.isNode = true → ∀ reference ∈ value.references, T reference) :
    ∀ reference ∈ referencesOfProperty (.obj members), T reference := by
  have hunder : ∀ key ∈ ["argument", "key", "value"],
      ∀ reference ∈ referencesUnder key members, T reference :=
    fun key hkey => forall_referencesUnder (h key hkey)
  rw [referencesOfProperty]
  split
  · exact hunder "argument" (by simp)
  · refine List.forall_mem_append.2 ⟨?_, hunder "value" (by simp)⟩
    split
    · exact hunder "key" (by simp)
    · exact fun _ hnil => absurd hnil List.not_mem_nil

theorem forall_referencesOfProperties
    (hlist : ∀ value, (Json.obj members).get? "properties" = some value →
      ∃ items, value = .arr items)
    (h : ∀ items, (Json.obj members).get? "properties" = some (.arr items) →
      ∀ property ∈ items, ∀ reference ∈ referencesOfProperty property, T reference) :
    ∀ reference ∈ referencesOfProperties members, T reference := by
  rw [referencesOfProperties_eq]
  cases hvalue : memberOf? "properties" members with
  | none => exact fun _ hnil => absurd hnil List.not_mem_nil
  | some value =>
    obtain ⟨items, rfl⟩ := hlist value hvalue
    rw [Option.map_some, Option.getD_some, referencesOfPropertyList, referencesOfEachProperty_eq]
    exact List.forall_mem_flatMap.2 (h items hvalue)

end References

/-- **The references of a regular node are texts.** -/
theorem references_of_regular (node : Json) : node.regular = true →
    ∀ reference ∈ node.references, ∃ s, reference = .ok (.str s) := by
  induction node using below_induction with
  | h node ih =>
    intro h
    obtain ⟨members, rfl⟩ := exists_members (regular_iff.1 h).1
    -- The nodes under a key are children, and so are those in a list.
    have hunder : ∀ key, key ∉ metadataKeys → ∀ reference ∈ referencesUnder key members,
        ∃ s, reference = .ok (.str s) := by
      intro key hkey
      refine forall_referencesUnder fun value hvalue hnode => ?_
      have hchild := mem_children_of_isNode hvalue hkey hnode
      exact ih value hchild value (mem_walk_self value) (regular_of_mem_children h hchild)
    have hlist : ∀ key, key ∉ metadataKeys →
        listOf (Json.obj members).kind = some (key, false) →
          ∀ reference ∈ referencesOfList key members, ∃ s, reference = .ok (.str s) := by
      intro key hkey hkind
      refine forall_referencesOfList (fun value hvalue =>
        (exists_items h hkind hvalue).imp fun _ => And.left) fun items hitems item hitem hnode => ?_
      have hchild := mem_children_of_mem_items hitems hkey hitem hnode
      exact ih item hchild item (mem_walk_self item) (regular_of_mem_children h hchild)
    rw [references]
    split
    case h_1 hkind =>
      obtain ⟨s, hs⟩ := exists_name h (Or.inl hkind)
      exact List.forall_mem_singleton.2 ⟨s, hs⟩
    case h_2 =>
      exact List.forall_mem_append.2 ⟨hunder "tag" (by decide), hunder "quasi" (by decide)⟩
    case h_3 hkind => exact hlist "expressions" (by decide) (by rw [hkind]; rfl)
    case h_4 hkind =>
      exact List.forall_mem_append.2
        ⟨hunder "callee" (by decide), hlist "arguments" (by decide) (by rw [hkind]; rfl)⟩
    case h_5 hkind =>
      exact List.forall_mem_append.2
        ⟨hunder "callee" (by decide), hlist "arguments" (by decide) (by rw [hkind]; rfl)⟩
    case h_6 =>
      refine List.forall_mem_append.2 ⟨hunder "object" (by decide), ?_⟩
      split
      · exact hunder "property" (by decide)
      · exact fun _ hnil => absurd hnil List.not_mem_nil
    case h_7 =>
      exact List.forall_mem_append.2 ⟨List.forall_mem_append.2
        ⟨hunder "test" (by decide), hunder "consequent" (by decide)⟩,
        hunder "alternate" (by decide)⟩
    case h_8 =>
      exact List.forall_mem_append.2 ⟨hunder "left" (by decide), hunder "right" (by decide)⟩
    case h_9 =>
      exact List.forall_mem_append.2 ⟨hunder "left" (by decide), hunder "right" (by decide)⟩
    case h_10 hkind => exact hlist "elements" (by decide) (by rw [hkind]; rfl)
    case h_11 hkind =>
      have hproperties : listOf (Json.obj members).kind = some ("properties", true) := by
        rw [hkind]
        rfl
      refine forall_referencesOfProperties (fun value hvalue =>
        (exists_items h hproperties hvalue).imp fun _ => And.left)
        fun items hitems property hproperty => ?_
      obtain ⟨_, heq, hnodes⟩ := exists_items h hproperties hitems
      obtain rfl := Json.arr.inj heq
      -- A property is a child, and what it refers to is below it.
      have hnode := hnodes rfl property hproperty
      have hchild := mem_children_of_mem_items hitems (by decide) hproperty hnode
      have hregular := regular_of_mem_children h hchild
      obtain ⟨inner, rfl⟩ := exists_members hnode
      have hkeys : ∀ key ∈ ["argument", "key", "value"], key ∉ metadataKeys := by decide
      refine forall_referencesOfProperty fun key hkey value hvalue hnode => ?_
      have hbelow := mem_children_of_isNode hvalue (hkeys key hkey) hnode
      exact ih _ hchild value (walk_subset_of_mem_children hbelow (mem_walk_self value))
        (regular_of_mem_children hregular hbelow)
    case h_12 => exact hunder "argument" (by decide)
    case h_13 => exact fun _ hnil => absurd hnil List.not_mem_nil

/-- **The chain of a regular node ends in a text or in nothing.** -/
theorem root_of_regular (node : Json) (h : node.isNode = true → node.regular = true) :
    node.root = .ok .null ∨ ∃ s, node.root = .ok (.str s) := by
  induction node using below_induction with
  | h node ih =>
    cases node with
    | obj members =>
      have hunder : ∀ key, key ∉ metadataKeys → (Json.obj members).isNode = true →
          rootUnder key members = .ok .null ∨ ∃ s, rootUnder key members = .ok (.str s) := by
        intro key hkey hnode
        rw [rootUnder_eq]
        cases hvalue : memberOf? key members with
        | none => exact Or.inl rfl
        | some value =>
          cases hnode' : value.isNode with
          | false => exact Or.inl (root_of_not_isNode hnode')
          | true =>
            have hget : (Json.obj members).get? key = some value := hvalue
            have hchild := mem_children_of_isNode hget hkey hnode'
            exact ih value hchild value (mem_walk_self value)
              fun _ => regular_of_mem_children (h hnode) hchild
      rw [root]
      split
      case h_1 hkind =>
        have hnode : (Json.obj members).isNode = true := isNode_of_kind (by rw [hkind]; simp)
        exact Or.inr (exists_name (h hnode) (Or.inl hkind))
      case h_2 hkind => exact hunder "object" (by decide) (isNode_of_kind (by rw [hkind]; simp))
      case h_3 hkind => exact hunder "callee" (by decide) (isNode_of_kind (by rw [hkind]; simp))
      case h_4 => exact Or.inl rfl
    | _ => exact Or.inl rfl

end Json
end UsageOrder
