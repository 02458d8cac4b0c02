import Mathlib.Logic.Function.Iterate
import UsageOrder.Proofs.Precedence
import UsageOrder.Proofs.Walking

/-!
# The walk in pre-order

Equal nodes may stand at several places of a tree, so a node is told by its place: the branches that
lead there from the root, each to a member and, where the member holds a list, to one of its items.

| place | what stands there |
|---|---|
| `[]` | the root |
| `(i, none) :: place` | what stands at `place` below the node that is the value of member `i` |
| `(i, some j) :: place` | the same below the node that is item `j` of the list in member `i` |

`Arranged` tells that values are given in the order of their places, with every place once.  Such
arrangements are put together from smaller ones (`Arranged.bind`, `Arranged.cons`), so the children
of a node are in the order in which they are written (`exists_arranged_children`), and the walk is
in the order of the places (`exists_arranged_walk`), in which a place comes before all places below
it.

The walk itself is a loop over a stack, from whose end the next node is taken.  What is pending are
the walks of the nodes on the stack, one after the other.  A turn of the loop visits the first of
the pending nodes and leaves the others pending (`Traversal.next_visits`), so the turns visit one
node of the walk after the other (`Traversal.iterate_next`).  The main statement is `walk_preorder`.
-/

namespace UsageOrder

/-! ### Values in the order of their places -/

/-- **Values are arranged by their places:** a value is given with a place exactly when it stands
there, and the places are in order. -/
structure Arranged {α ι : Type} (before : ι → ι → Prop) (at? : ι → Option α)
    (entries : List (α × ι)) : Prop where
  sorted : entries.Pairwise fun entry later => before entry.2 later.2
  mem_iff : ∀ value place, (value, place) ∈ entries ↔ at? place = some value

namespace Arranged

variable {α β ι κ : Type} {before : ι → ι → Prop} {before' : κ → κ → Prop} {at? : ι → Option α}
  {entries : List (α × ι)}

/-- The items of a list, by their numbers. -/
theorem items (items : List α) : Arranged (· < ·) (fun number => items[number]?) items.zipIdx where
  sorted := by
    have hnumbers : (items.zipIdx.map Prod.snd).Pairwise (· < ·) := by
      rw [List.zipIdx_map_snd]
      exact List.pairwise_lt_range'
    exact List.pairwise_map.1 hnumbers
  mem_iff value number := List.mk_mem_zipIdx_iff_getElem?

/-- The values that are selected. -/
theorem filter (h : Arranged before at? entries) (p : α → Bool) :
    Arranged before (fun place => (at? place).filter p)
      (entries.filter fun entry => p entry.1) where
  sorted := h.sorted.filter _
  mem_iff value place := by
    rw [List.mem_filter, h.mem_iff, Option.filter_eq_some_iff]

/-- Values that all stand at a place with a number. -/
theorem numbered {at? : Option ι → Option α} (hnone : at? none = none)
    (h : Arranged before (fun place => at? (some place)) entries) :
    Arranged (Option.lt before) at? (entries.map fun entry => (entry.1, some entry.2)) where
  sorted := List.pairwise_map.2 h.sorted
  mem_iff value place := by
    rw [List.mem_map]
    cases place with
    | none => simp [hnone]
    | some place =>
      rw [← h.mem_iff value place]
      simp

/-- What stands below each value, by the place of the value and the place below it. -/
theorem bind {below? : α → κ → Option β} {below : α → List (β × κ)}
    (h : Arranged before at? entries)
    (hbelow : ∀ entry ∈ entries, Arranged before' (below? entry.1) (below entry.1)) :
    Arranged (Prod.Lex before before')
      (fun place => (at? place.1).bind fun value => below? value place.2)
      (entries.flatMap fun entry =>
        (below entry.1).map fun found => (found.1, entry.2, found.2)) where
  sorted := by
    rw [List.pairwise_flatMap]
    constructor
    · intro entry hentry
      rw [List.pairwise_map]
      refine (hbelow entry hentry).sorted.imp ?_
      intro found later hlt
      exact Prod.Lex.right entry.2 hlt
    · refine h.sorted.imp ?_
      intro entry later hlt found hfound found' hfound'
      obtain ⟨found, -, rfl⟩ := List.mem_map.1 hfound
      obtain ⟨found', -, rfl⟩ := List.mem_map.1 hfound'
      exact Prod.Lex.left _ _ hlt
  mem_iff found place := by
    obtain ⟨place, rest⟩ := place
    simp only [List.mem_flatMap, List.mem_map, Option.bind_eq_some_iff]
    constructor
    · rintro ⟨⟨value, place⟩, hentry, ⟨found, rest⟩, hfound, heq⟩
      obtain ⟨rfl, rfl, rfl⟩ := by simpa using heq
      exact ⟨value, (h.mem_iff _ _).1 hentry, ((hbelow _ hentry).mem_iff _ _).1 hfound⟩
    · rintro ⟨value, hvalue, hfound⟩
      have hentry := (h.mem_iff _ _).2 hvalue
      exact ⟨(value, place), hentry, (found, rest), ((hbelow _ hentry).mem_iff _ _).2 hfound, rfl⟩

theorem map_fst_bind (entries : List (α × ι)) (below : α → List (β × κ)) :
    (entries.flatMap fun entry => (below entry.1).map fun found =>
      (found.1, entry.2, found.2)).map Prod.fst =
      (entries.map Prod.fst).flatMap fun value => (below value).map Prod.fst := by
  simp [List.map_flatMap, List.flatMap_map, Function.comp_def]

/-- A value at the empty place, then what stands at the other places. -/
theorem cons {first : α} {at? : List ι → Option α} {entries : List (α × ι × List ι)}
    (hfirst : at? [] = some first)
    (h : Arranged (Prod.Lex before (List.Lex before)) (fun place => at? (place.1 :: place.2))
      entries) :
    Arranged (List.Lex before) at?
      ((first, []) :: entries.map fun entry => (entry.1, entry.2.1 :: entry.2.2)) where
  sorted := by
    rw [List.pairwise_cons, List.pairwise_map]
    constructor
    · intro entry hentry
      obtain ⟨entry, -, rfl⟩ := List.mem_map.1 hentry
      exact List.Lex.nil
    · refine h.sorted.imp ?_
      rintro ⟨value, step, place⟩ ⟨value', step', place'⟩ hlt
      cases hlt with
      | left _ _ hstep => exact List.Lex.rel hstep
      | right _ hplace => exact List.Lex.cons hplace
  mem_iff value place := by
    rw [List.mem_cons, List.mem_map]
    cases place with
    | nil =>
      rw [hfirst]
      simp [eq_comm]
    | cons step place =>
      rw [← h.mem_iff value (step, place)]
      simp

theorem mem_places_iff (h : Arranged before at? entries) {place : ι} :
    place ∈ entries.map Prod.snd ↔ (at? place).isSome := by
  rw [List.mem_map, Option.isSome_iff_exists]
  constructor
  · rintro ⟨⟨value, place⟩, hentry, rfl⟩
    exact ⟨value, (h.mem_iff value place).1 hentry⟩
  · rintro ⟨value, hvalue⟩
    exact ⟨(value, place), (h.mem_iff value place).2 hvalue, rfl⟩

/-- No place is given twice. -/
theorem nodup_places (h : Arranged before at? entries) (hirrefl : ∀ place, ¬ before place place) :
    (entries.map Prod.snd).Nodup := by
  refine (List.pairwise_map.2 h.sorted).imp ?_
  rintro place _ hlt rfl
  exact hirrefl place hlt

/-- A place is given before another one unless it comes after it. -/
theorem precedes (h : Arranged before at? entries) {place other : ι}
    (hplace : (at? place).isSome) (hother : (at? other).isSome) (hne : place ≠ other)
    (hnot : ¬ before other place) :
    Order.Precedes (entries.map Prod.snd) place other := by
  rcases Order.precedes_total (h.mem_places_iff.2 hplace) (h.mem_places_iff.2 hother) hne with
    hprecedes | hprecedes
  · exact hprecedes
  · have hpair := (List.pairwise_map.2 h.sorted).sublist hprecedes
    exact absurd (List.pairwise_pair.1 hpair) hnot

end Arranged

namespace Json

/-! ### Places in a tree -/

/-- A branch to a child: the number of the member, and the number of the item if the member holds a
list. -/
abbrev Branch := Nat × Option Nat

/-- A branch comes before another one: its member is written earlier, or its item in the same
member. -/
def Branch.Before : Branch → Branch → Prop := Prod.Lex (· < ·) (Option.lt (· < ·))

/-- The node that a member has as its value or as an item of its list; a member that tells about a
node has none. -/
def nodeAt? (member : String × Json) (item : Option Nat) : Option Json :=
  if member.1 ∈ metadataKeys then none
  else
    match item, member.2 with
    | none, value => if value.isNode then some value else none
    | some number, .arr items => items[number]?.filter isNode
    | some _, _ => none

/-- The child at a branch. -/
def childAt? (node : Json) (branch : Branch) : Option Json :=
  match node with
  | .obj members => members[branch.1]?.bind fun member => nodeAt? member branch.2
  | _ => none

/-- The node at a place. -/
def descend (node : Json) : List Branch → Option Json
  | [] => some node
  | branch :: place => (node.childAt? branch).bind fun child => child.descend place

theorem Branch.before_irrefl (branch : Branch) : ¬ branch.Before branch := by
  obtain ⟨number, item⟩ := branch
  intro h
  cases h with
  | left _ _ h => exact Nat.lt_irrefl number h
  | right _ h =>
    cases item with
    | none => exact h
    | some item => exact Nat.lt_irrefl item h

/-- No place comes before one that it is below, or before itself. -/
theorem not_lex_append (place rest : List Branch) :
    ¬ List.Lex Branch.Before (place ++ rest) place := by
  induction place with
  | nil => exact fun h => nomatch h
  | cons branch place ih =>
    intro h
    cases h with
    | rel h => exact branch.before_irrefl h
    | cons h => exact ih h

theorem descend_append (node : Json) (place rest : List Branch) :
    node.descend (place ++ rest) = (node.descend place).bind fun below => below.descend rest := by
  induction place generalizing node with
  | nil => rfl
  | cons branch place ih =>
    rw [List.cons_append, descend, descend]
    cases node.childAt? branch with
    | none => rfl
    | some child => exact ih child

theorem exists_arranged_memberNodes (member : String × Json) :
    ∃ entries, Arranged (Option.lt (· < ·)) (nodeAt? member) entries ∧
      memberNodes member = entries.map Prod.fst := by
  obtain ⟨key, value⟩ := member
  by_cases hkey : key ∈ metadataKeys
  · refine ⟨[], ⟨List.Pairwise.nil, ?_⟩, ?_⟩
    · simp [nodeAt?, hkey]
    · simp [memberNodes, hkey]
  by_cases hnode : value.isNode = true
  · refine ⟨[(value, none)], ⟨List.pairwise_singleton _ _, ?_⟩, ?_⟩
    · rintro found (_ | number)
      · simp [nodeAt?, hkey, hnode, eq_comm]
      · cases value with
        | obj members => simp [nodeAt?, hkey]
        | _ => exact absurd hnode (by simp [isNode, has, get?])
    · simp [memberNodes, hkey, hnode]
  cases value with
  | arr items =>
    have hitems : Arranged (· < ·) (fun number => nodeAt? (key, arr items) (some number))
        (items.zipIdx.filter fun entry => entry.1.isNode) := by
      simp only [nodeAt?, hkey, if_false]
      exact (Arranged.items items).filter isNode
    refine ⟨_, hitems.numbered (by simp [nodeAt?, hkey, hnode]), ?_⟩
    have hvalues : items.filter isNode =
        (items.zipIdx.filter fun entry => entry.1.isNode).map Prod.fst := by
      have hmap := List.filter_map (f := Prod.fst) (p := isNode) (l := items.zipIdx)
      rwa [List.zipIdx_map_fst] at hmap
    rw [memberNodes, if_neg hkey, if_neg hnode, List.map_map]
    exact hvalues
  | _ =>
    refine ⟨[], ⟨List.Pairwise.nil, ?_⟩, ?_⟩
    · rintro found (_ | number) <;> simp [nodeAt?, hkey, hnode]
    · simp [memberNodes, hkey, hnode]

/-- **The children of a node are in the order in which they are written.** -/
theorem exists_arranged_children (node : Json) :
    ∃ branches, Arranged Branch.Before node.childAt? branches ∧
      node.children = branches.map Prod.fst := by
  cases node with
  | obj members =>
    choose entries hentries hnodes using exists_arranged_memberNodes
    refine ⟨_, (Arranged.items members).bind fun entry _ => hentries entry.1, ?_⟩
    rw [Arranged.map_fst_bind, List.zipIdx_map_fst, children]
    exact List.flatMap_congr fun member _ => hnodes member
  | _ => exact ⟨[], ⟨List.Pairwise.nil, by simp [childAt?]⟩, rfl⟩

/-- **The walk is in the order of the places.** -/
theorem exists_arranged_walk (node : Json) :
    ∃ visits, Arranged (List.Lex Branch.Before) node.descend visits ∧
      node.walk = visits.map Prod.fst := by
  induction node using below_induction with
  | h node ih =>
    have hchildren : ∀ child ∈ node.children, ∃ visits,
        Arranged (List.Lex Branch.Before) child.descend visits ∧ child.walk = visits.map Prod.fst :=
      fun child hchild => ih child hchild child (mem_walk_self child)
    choose! visits hvisits hwalk using hchildren
    obtain ⟨branches, hbranches, heq⟩ := exists_arranged_children node
    have hmem : ∀ entry ∈ branches, entry.1 ∈ node.children :=
      fun entry hentry => heq ▸ List.mem_map_of_mem hentry
    have hbelow := hbranches.bind fun entry hentry => hvisits entry.1 (hmem entry hentry)
    have hroot : node.descend [] = some node := rfl
    refine ⟨_, Arranged.cons hroot hbelow, ?_⟩
    have hrest : node.children.flatMap walk =
        (branches.map Prod.fst).flatMap fun child => (visits child).map Prod.fst := by
      rw [heq]
      exact List.flatMap_congr fun child hchild => hwalk child (heq ▸ hchild)
    rw [walk_eq, hrest, ← Arranged.map_fst_bind, List.map_cons, List.map_map]
    rfl

/-! ### The loop over a stack -/

/-- A walk under way: the stack of the nodes to go on with, the next one at its end, and the nodes
that have been visited. -/
structure Traversal where
  stack : List Json
  visited : List Json

namespace Traversal

/-- The walk from a node before its first turn. -/
def start (node : Json) : Traversal := ⟨[node], []⟩

/-- A turn of the loop: the node at the end of the stack is taken off and visited, and its children
are put on the stack, the first of them at the end.  Without a node the loop has ended. -/
def next (traversal : Traversal) : Traversal :=
  match traversal.stack.getLast? with
  | some node =>
    ⟨traversal.stack.dropLast ++ node.children.reverse, traversal.visited ++ [node]⟩
  | none => traversal

/-- The nodes that are still to be visited, in order: the walks of the nodes on the stack. -/
def pending (traversal : Traversal) : List Json := traversal.stack.reverse.flatMap walk

theorem next_concat (stack visited : List Json) (node : Json) :
    next ⟨stack ++ [node], visited⟩ = ⟨stack ++ node.children.reverse, visited ++ [node]⟩ := by
  simp [next]

theorem pending_concat (stack visited : List Json) (node : Json) :
    pending ⟨stack ++ [node], visited⟩ =
      node :: pending ⟨stack ++ node.children.reverse, visited ++ [node]⟩ := by
  simp [pending, walk_eq node]

theorem pending_eq_nil_iff {traversal : Traversal} :
    traversal.pending = [] ↔ traversal.stack = [] := by
  rw [pending, List.flatMap_eq_nil_iff]
  constructor
  · intro h
    refine List.eq_nil_iff_forall_not_mem.2 fun node hnode => ?_
    have hwalk := h node (List.mem_reverse.2 hnode)
    exact absurd (walk_eq node ▸ hwalk) (List.cons_ne_nil _ _)
  · intro h
    simp [h]

/-- **A turn visits the first of the pending nodes and leaves the others pending.** -/
theorem next_visits (traversal : Traversal) :
    traversal.next.visited = traversal.visited ++ traversal.pending.take 1 ∧
      traversal.next.pending = traversal.pending.drop 1 := by
  obtain ⟨stack, visited⟩ := traversal
  rcases List.eq_nil_or_concat' stack with rfl | ⟨stack, node, rfl⟩
  · simp [next, pending]
  · rw [next_concat, pending_concat]
    simp

/-- **After some turns the walk has come as far as that.** -/
theorem iterate_next (node : Json) (turns : Nat) :
    (next^[turns] (start node)).visited = node.walk.take turns ∧
      (next^[turns] (start node)).pending = node.walk.drop turns := by
  induction turns with
  | zero => simp [start, pending]
  | succ turns ih =>
    obtain ⟨hvisited, hpending⟩ := ih
    obtain ⟨hnext, hrest⟩ := next_visits (next^[turns] (start node))
    rw [Function.iterate_succ_apply', hnext, hrest, hvisited, hpending, List.drop_drop,
      ← List.take_add]
    exact ⟨rfl, rfl⟩

end Traversal

/-! ### The walk -/

/-- **The walk is the pre-order.**  From an object the walk has a result, and the loop ends after as
many turns as this has nodes, having visited them one by one.  The result is the object and then the
walks of its children, which are the nodes among its members and in the lists among them, in the
order in which they are written.  So the walk visits what stands at the places of the tree, every
place once, in the order of the places, and behind the place that it branches off from. -/
theorem walk_preorder (members : List (String × Json)) :
    let node := obj members
    walkFrom node = .ok node.walk ∧
      (∀ turns, (Traversal.next^[turns] (.start node)).visited = node.walk.take turns ∧
        ((Traversal.next^[turns] (.start node)).stack = [] ↔ node.walk.length ≤ turns)) ∧
      node.walk = node :: node.children.flatMap walk ∧
      (∃ branches, Arranged Branch.Before node.childAt? branches ∧
        node.children = branches.map Prod.fst) ∧
      ∃ visits, Arranged (List.Lex Branch.Before) node.descend visits ∧
        node.walk = visits.map Prod.fst ∧ (visits.map Prod.snd).Nodup ∧
        ∀ place branch, (node.descend (place ++ [branch])).isSome →
          Order.Precedes (visits.map Prod.snd) place (place ++ [branch]) := by
  intro node
  refine ⟨rfl, fun turns => ?_, walk_eq node, exists_arranged_children node, ?_⟩
  · obtain ⟨hvisited, hpending⟩ := Traversal.iterate_next node turns
    refine ⟨hvisited, ?_⟩
    rw [← Traversal.pending_eq_nil_iff, hpending, List.drop_eq_nil_iff]
  · obtain ⟨visits, hvisits, hwalk⟩ := exists_arranged_walk node
    refine ⟨visits, hvisits, hwalk, ?_, fun place branch hchild => ?_⟩
    · refine hvisits.nodup_places fun place hlt => ?_
      exact not_lex_append place [] (by rwa [List.append_nil])
    · have hparent : (node.descend place).isSome := by
        rw [descend_append] at hchild
        exact Option.isSome_of_isSome_bind hchild
      refine hvisits.precedes hparent hchild ?_ (not_lex_append place [branch])
      exact fun heq => absurd heq (by simp)

/-- Equal nodes at two places, and none under a member that tells about a node. -/
example :
    let name := obj [("type", .str "Identifier"), ("name", .str "a")]
    let node := obj [("type", .str "Call"), ("callee", name), ("loc", name),
      ("arguments", .arr [.null, name])]
    node.descend [(1, none)] = some name ∧ node.descend [(2, none)] = none ∧
      node.descend [(3, some 1)] = some name ∧ node.walk = [node, name, name] := by
  cbv

end Json
end UsageOrder
