import UsageOrder.Fault
import UsageOrder.Tree.Node

/-!
# Walking a syntax tree

The children of a node are the nodes among its members, and in the lists among them, in the order
in which they are written.  Members that only tell where a node stands are passed over.  The walk
keeps the nodes still to be visited in a list and puts the children of a visited node in front of
it, so a node is visited before its children and they before its later siblings.
-/

namespace UsageOrder
namespace Json

mutual
/-- The number of values that a value is made of, itself included. -/
def weight : Json → Nat
  | .arr items => weightItems items + 1
  | .obj members => weightMembers members + 1
  | _ => 1
termination_by structural value => value

/-- The weight of a list of values. -/
def weightItems : List Json → Nat
  | [] => 0
  | item :: items => weight item + weightItems items
termination_by structural items => items

/-- The weight of the members of an object. -/
def weightMembers : List (String × Json) → Nat
  | [] => 0
  | member :: members => weightMember member + weightMembers members
termination_by structural members => members

/-- The weight of a member of an object. -/
def weightMember : String × Json → Nat
  | (_, value) => weight value
termination_by structural member => member
end

/-- The members that tell about a node rather than hold its children. -/
def metadataKeys : List String :=
  ["loc", "range", "start", "end", "comments", "tokens", "extra", "type"]

/-- The nodes that a member holds. -/
def memberNodes (member : String × Json) : List Json :=
  if member.1 ∈ metadataKeys then []
  else if member.2.isNode then [member.2]
  else
    match member.2 with
    | .arr items => items.filter isNode
    | _ => []

/-- The children of a node. -/
def children : Json → List Json
  | .obj members => members.flatMap memberNodes
  | _ => []

theorem weightItems_append (a b : List Json) :
    weightItems (a ++ b) = weightItems a + weightItems b := by
  induction a with
  | nil => simp [weightItems]
  | cons x a ih => simp [weightItems, ih]; omega

theorem weightItems_filter_le (p : Json → Bool) (items : List Json) :
    weightItems (items.filter p) ≤ weightItems items := by
  induction items with
  | nil => simp
  | cons x items ih =>
    rw [List.filter_cons]
    split <;> simp only [weightItems] <;> omega

theorem weightItems_memberNodes_le (member : String × Json) :
    weightItems (memberNodes member) ≤ weightMember member := by
  obtain ⟨key, value⟩ := member
  unfold memberNodes
  simp only [weightMember]
  split
  · simp [weightItems]
  · split
    · simp [weightItems]
    · split
      · rename_i items _
        have := weightItems_filter_le isNode items
        simp only [weight]
        omega
      · simp [weightItems]

/-- The children of a node weigh less than the node. -/
theorem weightItems_children_lt (node : Json) : weightItems node.children < node.weight := by
  cases node with
  | obj members =>
    have key : weightItems (members.flatMap memberNodes) ≤ weightMembers members := by
      induction members with
      | nil => simp [weightItems]
      | cons m ms ih =>
        have := weightItems_memberNodes_le m
        simp only [List.flatMap_cons, weightItems_append, weightMembers]
        omega
    simp only [children, weight]
    omega
  | _ => simp [children, weightItems, weight]

/-- Visits the pending nodes and all nodes below them. -/
def visit : List Json → List Json
  | [] => []
  | node :: pending => node :: visit (node.children ++ pending)
termination_by pending => weightItems pending
decreasing_by
  rw [weightItems_append]
  have := weightItems_children_lt node
  simp only [weightItems]
  omega

/-- The node and all nodes below it, each before its children. -/
def walk (node : Json) : List Json := visit [node]

/-- The children of a value that has members at all. -/
def childrenOf (value : Json) : Except Fault (List Json) :=
  match value with
  | .obj _ => .ok value.children
  | _ => .error .noSuchMember

/-- The walk from a value that has members at all. -/
def walkFrom (value : Json) : Except Fault (List Json) :=
  match value with
  | .obj _ => .ok value.walk
  | _ => .error .noSuchMember

end Json
end UsageOrder
