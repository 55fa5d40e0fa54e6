import ImageTrust.Xml.Reader

/-!
A document as the sequence of what its tags, texts and instructions say, in the order in which they
stand. Comments say nothing. An element whose end tag was not read has a start and no end, so the
sequence of a damaged document is that of its readable beginning.
-/

namespace ImageTrust.Xml

/-- A piece of a document. -/
inductive Event where
  | start (tag : Tag)
  | stop (name : Name)
  | text (content : String)
  | instruction (target : String) (data : Option String)
  deriving DecidableEq, Repr

mutual

/-- The events of a node, in front of those that follow it. -/
def Node.events : Node → List Event → List Event
  | .element tag children, rest =>
    .start tag :: Node.allEvents children (.stop tag.name :: rest)
  | .text content, rest => .text content :: rest
  | .literal content, rest => .text content :: rest
  | .comment, rest => rest
  | .instruction target data, rest => .instruction target data :: rest

/-- The events of nodes one after the other, in front of those that follow them. -/
def Node.allEvents : List Node → List Event → List Event
  | [], rest => rest
  | n :: ns, rest => n.events (Node.allEvents ns rest)

end

/-- The events of elements that were not closed, each inside the one before. -/
def Frame.events : List Frame → List Event
  | [] => []
  | f :: fs => .start f.tag :: Node.allEvents f.children (Frame.events fs)

def Reading.events (d : Reading) : List Event :=
  Node.allEvents d.nodes (Frame.events d.unclosed.reverse)

end ImageTrust.Xml
