import ImageTrust.Signature.Fault
import ImageTrust.Xml.Canonical
import ImageTrust.Xml.Event

/-!
The parts of a document that an enveloped signature speaks about: the document with or without its
signatures, and the signed information inside a signature. A part is written in canonical form while
the document passes by, with counters of depth to tell where it begins, ends and leaves something
out. It counts as found as soon as its end tag is read, whatever comes behind it.
-/

namespace ImageTrust.Signature

open ImageTrust.Xml

def space : String := "http://www.w3.org/2000/09/xmldsig#"

/-- A part of a document. -/
inductive Region where
  /-- The document element. -/
  | document
  /-- The document element without the signatures among its children. -/
  | enveloped
  /-- The signed information of a signature among the children of the document element. -/
  | signedInfo
  deriving DecidableEq, Repr

/-- How far a document has been scanned for a region. -/
structure Scan where
  /-- How many elements are open. -/
  depth : Nat
  /-- Whether a signature among the children of the document element is open. -/
  inSignature : Bool
  /-- The depth of the region, once it has begun. -/
  captured : Option Nat
  /-- The depth of the signature that is being left out. -/
  skipped : Option Nat
  output : Canonical.Output
  deriving DecidableEq, Repr

namespace Scan

def initial : Scan :=
  ⟨0, false, none, none, .empty⟩

/-- Whether a region begins with a tag that has just been counted. -/
def begins (s : Scan) (region : Region) (t : Tag) : Bool :=
  match region with
  | .document | .enveloped => s.depth = 1
  | .signedInfo => s.depth = 3 && s.inSignature && t.isNamed space "SignedInfo"

/-- Writes inside the region, except in what is left out. -/
def write (s : Scan) (f : Canonical.Output → Canonical.Output) : Scan :=
  if s.captured.isSome && s.skipped.isNone then { s with output := f s.output } else s

def start (region : Region) (listed : List String) (s : Scan) (t : Tag) : Scan :=
  let depth := s.depth + 1
  let isSignature := depth = 2 && t.isNamed space "Signature"
  let s := { s with depth, inSignature := s.inSignature || isSignature }
  if s.skipped.isSome then s
  else if s.captured.isSome then
    if isSignature && region = .enveloped then { s with skipped := some depth }
    else { s with output := s.output.start listed t }
  else if s.begins region t then
    { s with captured := some depth, output := s.output.start listed t }
  else s

def stop (s : Scan) (name : Name) : Scan :=
  let s := { s with inSignature := s.inSignature && s.depth ≠ 2 }
  let s := if s.skipped = some s.depth then { s with skipped := none } else s.write (·.stop name)
  { s with depth := s.depth - 1 }

/-- Whether the next end tag is that of the region. -/
def closes (s : Scan) : Bool :=
  s.skipped.isNone && s.captured = some s.depth

/-- Scans events up to the end of a region and returns its canonical form, with the listed
qualifiers declared wherever they are bound. -/
def run (region : Region) (listed : List String) : Scan → List Event → Option String
  | _, [] => none
  | s, .start tag :: events => run region listed (s.start region listed tag) events
  | s, .stop name :: events =>
    if s.closes then some (s.stop name).output.text else run region listed (s.stop name) events
  | s, .text content :: events => run region listed (s.write (·.characters content)) events
  | s, .instruction target data :: events =>
    run region listed (s.write (·.instruction target data)) events

end Scan

/-- The canonical form of a region; `listed` are the qualifiers to declare wherever bound. -/
def Region.canonical (region : Region) (listed : List String) (document : Octets) :
    Except Fault String :=
  let d := Reading.ofOctets document
  match Scan.initial.run region listed d.events with
  | some text => .ok text
  | none => .error (.malformed (if d.sound then .regionMissing else .unreadable))

end ImageTrust.Signature
