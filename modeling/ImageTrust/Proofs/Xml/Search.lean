import ImageTrust.Xml.Search
import Mathlib.Tactic.SplitIfs

/-!
Searching a tree is searching the list of its elements in document order.
-/

namespace ImageTrust.Xml

mutual

/-- The elements in a node in document order, each before those inside it. -/
def Node.preorder : Node → List Element
  | .element tag children => ⟨tag, children⟩ :: Node.preorderAll children
  | _ => []

/-- The elements in nodes in document order. -/
def Node.preorderAll : List Node → List Element
  | [] => []
  | n :: ns => n.preorder ++ Node.preorderAll ns

end

theorem node_mem_of_elements {e : Element} : ∀ {ns : List Node}, e ∈ Node.elements ns → e.node ∈ ns
  | .element tag children :: ns, h => by
    rcases List.mem_cons.1 h with rfl | h
    · exact List.mem_cons_self
    · exact List.mem_cons_of_mem _ (node_mem_of_elements h)
  | .text _ :: _, h | .literal _ :: _, h | .comment :: _, h | .instruction _ _ :: _, h =>
    List.mem_cons_of_mem _ (node_mem_of_elements h)

theorem Node.preorderAll_eq_flatMap : ∀ ns : List Node,
    Node.preorderAll ns = ns.flatMap Node.preorder
  | [] => rfl
  | n :: ns => by rw [Node.preorderAll, Node.preorderAll_eq_flatMap ns, List.flatMap_cons]

mutual

theorem Node.firstNamed?_eq (base : String) : ∀ n : Node,
    n.firstNamed? base = n.preorder.find? (·.tag.name.base = base)
  | .element tag children => by
    rw [Node.firstNamed?, Node.preorder, List.find?_cons, Node.firstNamedAmong?_eq base children]
    split_ifs with h <;> simp [h]
  | .text _ | .literal _ | .comment | .instruction _ _ => rfl

theorem Node.firstNamedAmong?_eq (base : String) : ∀ ns : List Node,
    Node.firstNamedAmong? base ns = (Node.preorderAll ns).find? (·.tag.name.base = base)
  | [] => rfl
  | n :: ns => by
    rw [Node.firstNamedAmong?, Node.preorderAll, List.find?_append, Node.firstNamed?_eq base n,
      Node.firstNamedAmong?_eq base ns]
    cases n.preorder.find? (·.tag.name.base = base) <;> rfl

end

mutual

theorem Node.collectNamed_eq (base : String) : ∀ (n : Node) (found : List Element),
    n.collectNamed base found
      = (n.preorder.filter (·.tag.name.base = base)).reverse ++ found
  | .element tag children, found => by
    rw [Node.collectNamed, Node.collectNamedAmong_eq base children, Node.preorder]
    by_cases h : tag.name.base = base
    · simp [h]
    · simp [h]
  | .text _, _ | .literal _, _ | .comment, _ | .instruction _ _, _ => rfl

theorem Node.collectNamedAmong_eq (base : String) : ∀ (ns : List Node) (found : List Element),
    Node.collectNamedAmong base found ns
      = ((Node.preorderAll ns).filter (·.tag.name.base = base)).reverse ++ found
  | [], _ => rfl
  | n :: ns, found => by
    rw [Node.collectNamedAmong, Node.collectNamedAmong_eq base ns, Node.collectNamed_eq base n,
      Node.preorderAll, List.filter_append, List.reverse_append, List.append_assoc]

end

/-- The first element with a base name is the first in document order. -/
theorem Element.firstNamed?_eq (e : Element) (base : String) :
    e.firstNamed? base = (Node.preorderAll e.children).find? (·.tag.name.base = base) :=
  Node.firstNamedAmong?_eq base e.children

/-- All elements with a base name are found, in document order. -/
theorem Element.allNamed_eq (e : Element) (base : String) :
    e.allNamed base = (Node.preorderAll e.children).filter (·.tag.name.base = base) := by
  rw [Element.allNamed, Node.collectNamedAmong_eq, List.append_nil, List.reverse_reverse]

end ImageTrust.Xml
