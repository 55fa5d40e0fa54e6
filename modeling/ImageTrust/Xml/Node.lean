import ImageTrust.Xml.Character

/-!
XML documents as trees. A tag keeps the namespace bindings in force where it stands, innermost first,
so that the namespace of a name is a look-up and a subtree can be read apart from its surroundings.
-/

namespace ImageTrust.Xml

/-- A name in two parts; the qualifier is empty when there is none. -/
structure Name where
  qualifier : String
  base : String
  deriving DecidableEq, Repr

def Name.text (n : Name) : String :=
  if n.qualifier.isEmpty then n.base else n.qualifier ++ ":" ++ n.base

structure Attribute where
  name : Name
  value : String
  deriving DecidableEq, Repr

/-- Namespace bindings in force, innermost first; the empty qualifier is the default namespace. -/
abbrev Scope := List (String × String)

/-- The namespace of the qualifier `xml`. -/
def xmlSpace : String :=
  "http://www.w3.org/XML/1998/namespace"

/-- The namespace of the qualifier `xmlns`. -/
def xmlnsSpace : String :=
  "http://www.w3.org/2000/xmlns/"

def Scope.base : Scope :=
  [("xml", xmlSpace), ("xmlns", xmlnsSpace), ("", "")]

/-- The namespace a qualifier is bound to, empty when it is not bound. -/
def Scope.space (s : Scope) (qualifier : String) : String :=
  (s.lookup qualifier).getD ""

/-- The start of an element. -/
structure Tag where
  name : Name
  attributes : List Attribute
  scope : Scope
  deriving DecidableEq, Repr

def Tag.space (t : Tag) : String :=
  t.scope.space t.name.qualifier

/-- Whether the element has this namespace and base name. -/
def Tag.isNamed (t : Tag) (space base : String) : Bool :=
  t.name.base = base && t.space = space

/-- The value of the last attribute with a base name, whatever its qualifier. -/
def Tag.attribute? (t : Tag) (base : String) : Option String :=
  (t.attributes.reverse.find? (·.name.base = base)).map (·.value)

inductive Node where
  | element (tag : Tag) (children : List Node)
  | text (content : String)
  /-- Text that was written as a literal section. -/
  | literal (content : String)
  | comment
  | instruction (target : String) (data : Option String)
  deriving Repr

/-- An element: its tag and what stands inside it. -/
structure Element where
  tag : Tag
  children : List Node
  deriving Repr

def Element.node (e : Element) : Node :=
  .element e.tag e.children

def Node.elements (nodes : List Node) : List Element :=
  nodes.filterMap fun
    | .element tag children => some ⟨tag, children⟩
    | _ => none

/-- The text of a node that is text. Blank text between tags does not count, a literal section
always does. -/
def Node.content? : Node → Option String
  | .text content =>
    if content.toList.all isBlank then none else some content
  | .literal content => some content
  | _ => none

/-- The text directly inside an element, when there is any. -/
def Element.text? (e : Element) : Option String :=
  let parts := e.children.filterMap Node.content?
  if parts.isEmpty then none else some (String.join parts)

end ImageTrust.Xml
