import Mathlib.Data.List.Forall2
import ImageTrust.Proofs.Xml.Search

/-!
Document order by places. A place is a way down from an element: at each level the number of the
child to go to. Of two places the one that is a beginning of the other or turns off to an earlier
child comes first, and a search comes to elements in the order of their places.
-/

namespace ImageTrust.Xml

/-- The element at a place, if there is one. -/
def Node.at? : Node → List Nat → Option Element
  | .element tag children, [] => some ⟨tag, children⟩
  | .element _ children, i :: place => children[i]?.bind fun n => Node.at? n place
  | _, _ => none

/-- The element at a place in an element, which is itself at the place without a step. -/
def Element.at? (e : Element) (place : List Nat) : Option Element :=
  e.node.at? place

/-- The proper descendants of an element with a property, each once and in document order, together with
their places. -/
structure Element.Enumerated (e : Element) (holds : Element → Prop) (places : List (List Nat))
    (found : List Element) : Prop where
  ascending : places.Pairwise (· < ·)
  complete : ∀ place, place ∈ places ↔ place ≠ [] ∧ ∃ f, e.at? place = some f ∧ holds f
  placed : List.Forall₂ (fun place f => e.at? place = some f) places found

mutual

/-- The elements in a node with their places, in the order in which a search comes to them. -/
def Node.placed : Node → List (List Nat × Element)
  | .element tag children => ([], ⟨tag, children⟩) :: Node.placedFrom 0 children
  | _ => []

/-- The elements in nodes, the first of which is the child with a number. -/
def Node.placedFrom (i : Nat) : List Node → List (List Nat × Element)
  | [] => []
  | n :: ns => n.placed.map (fun f => (i :: f.1, f.2)) ++ Node.placedFrom (i + 1) ns

end

mutual

theorem Node.placed_elements : ∀ n : Node, n.placed.map (·.2) = n.preorder
  | .element tag children => by
    rw [Node.placed, Node.preorder, List.map_cons, Node.placedFrom_elements 0 children]
  | .text _ | .literal _ | .comment | .instruction _ _ => rfl

theorem Node.placedFrom_elements : ∀ (i : Nat) (ns : List Node),
    (Node.placedFrom i ns).map (·.2) = Node.preorderAll ns
  | _, [] => rfl
  | i, n :: ns => by
    rw [Node.placedFrom, Node.preorderAll, List.map_append, List.map_map,
      Node.placedFrom_elements (i + 1) ns, ← Node.placed_elements n]
    rfl

end

mutual

theorem Node.mem_placed {f : Element} : ∀ (n : Node) (place : List Nat),
    (place, f) ∈ n.placed ↔ n.at? place = some f
  | .element tag children, place => by
    rw [Node.placed, List.mem_cons, Node.mem_placedFrom 0 children]
    cases place with
    | nil => simp [Node.at?, eq_comm]
    | cons i place => simp [Node.at?, Option.bind_eq_some_iff]
  | .text _, _ | .literal _, _ | .comment, _ | .instruction _ _, _ => by
    simp [Node.placed, Node.at?]

theorem Node.mem_placedFrom {f : Element} : ∀ (i : Nat) (ns : List Node) (place : List Nat),
    (place, f) ∈ Node.placedFrom i ns
      ↔ ∃ j n below, place = (i + j) :: below ∧ ns[j]? = some n ∧ n.at? below = some f
  | _, [], _ => by simp [Node.placedFrom]
  | i, n :: ns, place => by
    rw [Node.placedFrom, List.mem_append, Node.mem_placedFrom (i + 1) ns]
    constructor
    · rintro (h | ⟨j, m, below, rfl, hm, hat⟩)
      · obtain ⟨⟨below, _⟩, hbelow, h⟩ := List.mem_map.1 h
        cases h
        exact ⟨0, n, below, rfl, rfl, (Node.mem_placed n below).1 hbelow⟩
      · exact ⟨j + 1, m, below, by rw [Nat.add_assoc, Nat.add_comm 1 j], hm, hat⟩
    · rintro ⟨j, m, below, rfl, hm, hat⟩
      cases j with
      | zero =>
        cases hm
        exact .inl (List.mem_map.2 ⟨(below, f), (Node.mem_placed n below).2 hat, rfl⟩)
      | succ j => exact .inr ⟨j, m, below, by rw [Nat.add_assoc, Nat.add_comm 1 j], hm, hat⟩

end

mutual

theorem Node.placed_ascending : ∀ n : Node, n.placed.Pairwise fun f g => f.1 < g.1
  | .element tag children => by
    rw [Node.placed, List.pairwise_cons]
    refine ⟨fun ⟨place, f⟩ hf => ?_, Node.placedFrom_ascending 0 children⟩
    obtain ⟨j, -, below, rfl, -⟩ := (Node.mem_placedFrom 0 children place).1 hf
    exact List.nil_lt_cons _ below
  | .text _ | .literal _ | .comment | .instruction _ _ => .nil

theorem Node.placedFrom_ascending : ∀ (i : Nat) (ns : List Node),
    (Node.placedFrom i ns).Pairwise fun f g => f.1 < g.1
  | _, [] => .nil
  | i, n :: ns => by
    rw [Node.placedFrom, List.pairwise_append, List.pairwise_map]
    refine ⟨?_, Node.placedFrom_ascending (i + 1) ns, ?_⟩
    · refine (Node.placed_ascending n).imp fun h => ?_
      exact List.cons_lt_cons_iff.2 (.inr ⟨rfl, h⟩)
    · rintro f hf ⟨place, g⟩ hg
      obtain ⟨below, -, rfl⟩ := List.mem_map.1 hf
      obtain ⟨j, -, turned, rfl, -⟩ := (Node.mem_placedFrom (i + 1) ns place).1 hg
      exact List.cons_lt_cons_iff.2 (.inl (by omega))

end

/-- What a search keeps of the descendants of an element is enumerated. -/
theorem Element.enumerated_filter (e : Element) (keeps : Element → Bool) :
    ∃ places, e.Enumerated (keeps · = true) places ((Node.preorderAll e.children).filter keeps) := by
  have hfound : (Node.preorderAll e.children).filter keeps
      = ((Node.placedFrom 0 e.children).filter fun f => keeps f.2).map (·.2) := by
    rw [← Node.placedFrom_elements 0, List.filter_map]
    rfl
  have hat : ∀ place f, (place, f) ∈ Node.placedFrom 0 e.children
      ↔ place ≠ [] ∧ e.at? place = some f := by
    intro place f
    rw [Node.mem_placedFrom]
    cases place with
    | nil => simp
    | cons i place => simp [Element.at?, Element.node, Node.at?, Option.bind_eq_some_iff]
  refine ⟨((Node.placedFrom 0 e.children).filter fun f => keeps f.2).map (·.1), ?_, ?_, ?_⟩
  · rw [List.pairwise_map]
    exact (Node.placedFrom_ascending 0 e.children).filter _
  · intro place
    simp only [List.mem_map, List.mem_filter, Prod.exists, hat]
    constructor
    · rintro ⟨_, f, ⟨⟨hne, hplace⟩, hkeeps⟩, rfl⟩
      exact ⟨hne, f, hplace, hkeeps⟩
    · rintro ⟨hne, f, hplace, hkeeps⟩
      exact ⟨place, f, ⟨⟨hne, hplace⟩, hkeeps⟩, rfl⟩
  · rw [hfound, List.forall₂_map_left_iff, List.forall₂_map_right_iff, List.forall₂_same]
    rintro ⟨place, f⟩ hf
    exact ((hat place f).1 (List.mem_filter.1 hf).1).2

theorem Element.Enumerated.nil_iff {e : Element} {holds : Element → Prop} {places : List (List Nat)}
    {found : List Element} (h : e.Enumerated holds places found) :
    found = [] ↔ ∀ place f, place ≠ [] → e.at? place = some f → ¬ holds f := by
  have hnone : found = [] ↔ places = [] := by
    rw [← List.length_eq_zero_iff, ← h.placed.length_eq, List.length_eq_zero_iff]
  rw [hnone, List.eq_nil_iff_forall_not_mem]
  simp only [h.complete]
  constructor
  · intro hplaces place f hne hat hholds
    exact hplaces place ⟨hne, f, hat, hholds⟩
  · rintro hfound place ⟨hne, f, hat, hholds⟩
    exact hfound place f hne hat hholds

/-- Both searches come to the same descendants in the same order. The one that collects puts all of them
behind what it has, the other stops at the first. -/
theorem Element.searches_enumerate (e : Element) (base : String) : ∃ places named,
    e.Enumerated (·.tag.name.base = base) places named
      ∧ (∀ found : List Element,
        (Node.collectNamedAmong base found.reverse e.children).reverse = found ++ named)
      ∧ e.firstNamed? base = named.head? := by
  obtain ⟨places, henumerated⟩ := e.enumerated_filter (·.tag.name.base = base)
  simp only [decide_eq_true_eq] at henumerated
  refine ⟨places, _, henumerated, fun found => ?_, ?_⟩
  · rw [Node.collectNamedAmong_eq, List.reverse_append, List.reverse_reverse, List.reverse_reverse]
  · rw [Element.firstNamed?_eq, List.head?_filter]

end ImageTrust.Xml
