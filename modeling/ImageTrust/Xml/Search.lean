import ImageTrust.Xml.Node

/-!
Elements inside an element, at any depth, in document order: an element comes before the elements
inside it. `firstNamed?` stops at the first match; `allNamed` visits the whole tree and also finds a
match inside a match.
-/

namespace ImageTrust.Xml

mutual

/-- The first element with a base name among the node and what is inside it. -/
def Node.firstNamed? (base : String) : Node → Option Element
  | .element tag children =>
    if tag.name.base = base then some ⟨tag, children⟩ else Node.firstNamedAmong? base children
  | _ => none

/-- The first element with a base name among nodes and what is inside them. -/
def Node.firstNamedAmong? (base : String) : List Node → Option Element
  | [] => none
  | n :: ns =>
    match Node.firstNamed? base n with
    | some e => some e
    | none => Node.firstNamedAmong? base ns

end

mutual

/-- Puts the elements with a base name, the last first, in front of those found before. -/
def Node.collectNamed (base : String) (found : List Element) : Node → List Element
  | .element tag children =>
    let found := if tag.name.base = base then ⟨tag, children⟩ :: found else found
    Node.collectNamedAmong base found children
  | _ => found

def Node.collectNamedAmong (base : String) (found : List Element) : List Node → List Element
  | [] => found
  | n :: ns => Node.collectNamedAmong base (Node.collectNamed base found n) ns

end

/-- The first element with a base name inside the element. -/
def Element.firstNamed? (e : Element) (base : String) : Option Element :=
  Node.firstNamedAmong? base e.children

/-- All elements with a base name inside the element. -/
def Element.allNamed (e : Element) (base : String) : List Element :=
  (Node.collectNamedAmong base [] e.children).reverse

def Element.child? (e : Element) (base : String) : Option Element :=
  (Node.elements e.children).find? (·.tag.name.base = base)

end ImageTrust.Xml
