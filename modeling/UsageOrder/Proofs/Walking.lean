import UsageOrder.Proofs.Keys
import UsageOrder.Tree.Walk

/-!
# The walk of a tree, node by node

The walk keeps a list of nodes still to be visited; what it visits is the node itself and then,
child by child, what the walks of its children visit (`walk_eq`).  A statement about all nodes of a
walk is therefore one about a node and about the walks of its children, and may be proved with its
truth for all nodes below at hand (`below_induction`).
-/

namespace UsageOrder
namespace Json

theorem visit_append (pending later : List Json) :
    visit (pending ++ later) = visit pending ++ visit later := by
  induction pending using visit.induct with
  | case1 => rw [visit, List.nil_append, List.nil_append]
  | case2 node pending ih =>
    rw [List.cons_append, visit, visit, ← List.append_assoc, ih, List.cons_append]

theorem visit_eq_flatMap (pending : List Json) : visit pending = pending.flatMap walk := by
  induction pending with
  | nil => rw [visit, List.flatMap_nil]
  | cons node pending ih =>
    have happend := visit_append [node] pending
    rw [List.singleton_append] at happend
    rw [happend, ih, List.flatMap_cons, walk]

/-- **The walk of a node is the node, then the walks of its children in order.** -/
theorem walk_eq (node : Json) : node.walk = node :: node.children.flatMap walk := by
  rw [walk, visit, List.append_nil, visit_eq_flatMap]

theorem mem_walk_self (node : Json) : node ∈ node.walk := by
  rw [walk_eq]
  exact List.mem_cons_self ..

theorem walk_subset_of_mem_children {node child : Json} (h : child ∈ node.children) :
    child.walk ⊆ node.walk := by
  intro below hbelow
  rw [walk_eq]
  exact List.mem_cons_of_mem _ (List.mem_flatMap.2 ⟨child, h, hbelow⟩)

/-! ### What weighs less -/

theorem weight_le_weightItems {item : Json} {items : List Json} (h : item ∈ items) :
    item.weight ≤ weightItems items := by
  induction items with
  | nil => exact absurd h List.not_mem_nil
  | cons first items ih =>
    rw [weightItems]
    rcases List.mem_cons.1 h with rfl | h
    · exact Nat.le_add_right _ _
    · exact Nat.le_trans (ih h) (Nat.le_add_left _ _)

theorem weight_lt_of_mem_children {node child : Json} (h : child ∈ node.children) :
    child.weight < node.weight :=
  Nat.lt_of_le_of_lt (weight_le_weightItems h) (weightItems_children_lt node)

/-- **Induction over the nodes below.**  What holds of a node whenever it holds of everything below
its children holds of every node. -/
theorem below_induction {P : Json → Prop}
    (h : ∀ node : Json, (∀ child ∈ node.children, ∀ below ∈ child.walk, P below) → P node)
    (node : Json) : P node := by
  -- The weight bounds the node; what is below a child is the child or below one of its children.
  have hall : ∀ bound (node : Json), node.weight < bound → ∀ below ∈ node.walk, P below := by
    intro bound
    induction bound with
    | zero => exact fun _ hlt => absurd hlt (Nat.not_lt_zero _)
    | succ bound ih =>
      intro node hlt below hbelow
      have hchildren : ∀ child ∈ node.children, ∀ below ∈ child.walk, P below :=
        fun child hchild => ih child
          (Nat.lt_of_lt_of_le (weight_lt_of_mem_children hchild) (Nat.le_of_lt_succ hlt))
      rw [walk_eq] at hbelow
      rcases List.mem_cons.1 hbelow with rfl | hbelow
      · exact h _ hchildren
      · obtain ⟨child, hchild, hbelow⟩ := List.mem_flatMap.1 hbelow
        exact hchildren child hchild below hbelow
  exact hall _ node (Nat.lt_succ_self _) node (mem_walk_self node)

/-! ### Children under a key -/

/-- The nodes that a member holds are children. -/
theorem mem_children_of_get? {node value child : Json} {key : String}
    (h : node.get? key = some value) (hchild : child ∈ memberNodes (key, value)) :
    child ∈ node.children := by
  cases node with
  | obj members => exact List.mem_flatMap.2 ⟨(key, value), mem_of_lookup h, hchild⟩
  | _ => exact absurd h (by simp [get?])

/-- A node under a key is a child. -/
theorem mem_children_of_isNode {node value : Json} {key : String} (h : node.get? key = some value)
    (hkey : key ∉ metadataKeys) (hnode : value.isNode = true) : value ∈ node.children := by
  refine mem_children_of_get? h ?_
  rw [memberNodes, if_neg hkey, if_pos hnode]
  exact List.mem_singleton_self value

/-- A node in a list under a key is a child. -/
theorem mem_children_of_mem_items {node item : Json} {key : String} {items : List Json}
    (h : node.get? key = some (.arr items)) (hkey : key ∉ metadataKeys) (hitem : item ∈ items)
    (hnode : item.isNode = true) : item ∈ node.children := by
  refine mem_children_of_get? h ?_
  rw [memberNodes, if_neg hkey, if_neg (by simp [isNode, has, get?])]
  exact List.mem_filter.2 ⟨hitem, hnode⟩

end Json
end UsageOrder
