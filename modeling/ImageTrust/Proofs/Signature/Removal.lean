import ImageTrust.Proofs.Signature.Envelope
import ImageTrust.Proofs.Xml.Content
import ImageTrust.Proofs.Xml.Encoding

/-!
Leaving the signatures out of a document is deleting them from it. The scan that leaves them out
counts depths in a sequence of tags; it comes to the canonical form of the tree from which they have
been deleted. What a document says does not depend on the pieces its text is in, so it does not matter
either that text before and after a signature runs together in a document without it.
-/

namespace ImageTrust.Xml

/-- What an event says, with its text character by character. -/
def Event.spelt : Event → List Event
  | .text content => content.toList.map fun c => .text (String.singleton c)
  | .start tag => [.start tag]
  | .stop name => [.stop name]
  | .instruction target data => [.instruction target data]

/-- Two documents say the same in the same order, in whatever pieces their text is. -/
def Reading.Agrees (d e : Reading) : Prop :=
  d.events.flatMap Event.spelt = e.events.flatMap Event.spelt

instance (d e : Reading) : Decidable (d.Agrees e) :=
  inferInstanceAs (Decidable (_ = _))

end ImageTrust.Xml

namespace ImageTrust.Signature

open ImageTrust.Xml

/-- An element without the signatures among its children. -/
def unsigned : Node → Node
  | .element tag children => .element tag (children.filter (!isPart "Signature" ·))
  | n => n

/-- A document without the signatures among the children of the document element. -/
def unsignedReading (d : Reading) : Reading :=
  { d with nodes := d.nodes.map unsigned }

section Pieces

namespace Scan

variable {region : Region} {listed : List String} {s : Scan}

theorem write_write (f g : Canonical.Output → Canonical.Output) :
    (s.write f).write g = s.write fun o => g (f o) := by
  unfold Scan.write
  split_ifs <;> rfl

theorem write_nothing : s.write (·.characters "") = s := by
  unfold Scan.write
  split_ifs <;> rfl

theorem characters_cons (o : Canonical.Output) (c : Char) (cs : List Char) :
    o.characters (String.ofList (c :: cs))
      = (o.characters (String.singleton c)).characters (String.ofList cs) := by
  simp [Canonical.Output.characters, Canonical.writeChars]

/-- Characters that pass by one after the other are written as the text they make up. -/
theorem run_characters (cs : List Char) (s : Scan) (rest : List Event) :
    run region listed s ((cs.map fun c => Event.text (String.singleton c)) ++ rest)
      = run region listed (s.write (·.characters (String.ofList cs))) rest := by
  induction cs generalizing s with
  | nil =>
    rw [show String.ofList [] = "" from rfl, write_nothing]
    rfl
  | cons c cs ih =>
    simp only [List.map_cons, List.cons_append, run]
    rw [ih, write_write]
    simp only [characters_cons]

/-- A scan does not see into how many pieces a text was divided. -/
theorem run_spelt (es : List Event) (s : Scan) :
    run region listed s (es.flatMap Event.spelt) = run region listed s es := by
  induction es generalizing s with
  | nil => rfl
  | cons e es ih =>
    rw [List.flatMap_cons]
    cases e with
    | start tag => exact ih _
    | stop name =>
      simp only [Event.spelt, List.singleton_append, run, ih]
    | text content =>
      rw [Event.spelt, run_characters, String.ofList_toList, ih]
      rfl
    | instruction target data => exact ih _

end Scan

theorem run_of_agrees {d e : Reading} (h : d.Agrees e) (region : Region) (listed : List String) :
    Scan.initial.run region listed d.events = Scan.initial.run region listed e.events := by
  rw [← Scan.run_spelt d.events, ← Scan.run_spelt e.events, h]

end Pieces

section Deletion

variable {document : Octets} {root : Element}

theorem elements_unsigned : ∀ ns : List Node, Node.elements (ns.map unsigned)
    = (Node.elements ns).map fun e => ⟨e.tag, Region.enveloped.keep e.children⟩
  | [] => rfl
  | .element t children :: ns => by
    have he : Node.elements (.element t children :: ns) = ⟨t, children⟩ :: Node.elements ns := rfl
    rw [he, List.map_cons, List.map_cons, ← elements_unsigned ns]
    rfl
  | .text _ :: ns | .literal _ :: ns | .comment :: ns | .instruction _ _ :: ns =>
    elements_unsigned ns

/-- The region without signatures is the document element of the document without them. -/
theorem find?_unsigned (d : Reading) :
    Region.document.find? (unsignedReading d) = Region.enveloped.find? d := by
  change (Node.elements (d.nodes.map unsigned)).head?.map _ = (Node.elements d.nodes).head?.map _
  rw [elements_unsigned, List.head?_map, Option.map_map]
  rfl

theorem run_unsigned (d : Reading) (listed : List String) :
    Scan.initial.run .enveloped listed d.events
      = Scan.initial.run .document listed (unsignedReading d).events := by
  rw [Scan.run_events, Scan.run_events, find?_unsigned]

theorem canonical_ok_iff_run {region : Region} {listed : List String} {c : String} :
    region.canonical listed document = .ok c
      ↔ Scan.initial.run region listed (Reading.ofOctets document).events = some c := by
  unfold Region.canonical
  dsimp only
  cases Scan.initial.run region listed (Reading.ofOctets document).events <;> simp

/-- Canonical form of nodes is that of each one after the other. -/
theorem writeAll_eq_join (listed : List String) (rendered : Scope) (out : String)
    (ns : List Node) : Canonical.writeAll listed rendered out ns
      = out ++ String.join (ns.map (Canonical.write listed rendered "")) := by
  induction ns generalizing out with
  | nil => simp [Canonical.writeAll]
  | cons n ns ih =>
    have hn : Canonical.write listed rendered out n
        = out ++ Canonical.write listed rendered "" n := by
      rw [← String.toList_inj, String.toList_append, Canonical.toList_write,
        Canonical.toList_write, String.toList_empty, List.nil_append]
    rw [Canonical.writeAll, ih, hn, List.map_cons, String.join_cons, String.append_assoc]

/-- The tags of an element with what its children say between them. -/
def framed (listed : List String) (t : Tag) (children : List Node) : String :=
  let declared := Canonical.declarations listed [] t
  Canonical.writeStart "" declared t
    ++ String.join (children.map (Canonical.write listed declared ""))
    ++ "</" ++ t.name.text ++ ">"

theorem text_eq_framed (listed : List String) (t : Tag) (children : List Node) :
    Canonical.text listed (.element t children) = framed listed t children := by
  unfold Canonical.text framed
  rw [Canonical.write, writeAll_eq_join, List.append_nil]

/-- The canonical form of a document with its signatures left out is that of the document from which
they have been deleted. Each other child of the document element is written as before, with all
signatures that are in it. -/
theorem enveloped_eq_unsigned (hr : (Reading.ofOctets document).root? = some root)
    (listed : List String) :
    Scan.initial.run .enveloped listed (Reading.ofOctets document).events
        = Scan.initial.run .document listed (unsignedReading (Reading.ofOctets document)).events
      ∧ (∀ other, (Reading.ofOctets other).Agrees (unsignedReading (Reading.ofOctets document)) →
        Region.document.canonical listed other = Region.enveloped.canonical listed document)
      ∧ Region.document.canonical listed document = .ok (framed listed root.tag root.children)
      ∧ Region.enveloped.canonical listed document
        = .ok (framed listed root.tag (root.children.filter (!isPart "Signature" ·))) := by
  have henveloped : Region.enveloped.canonical listed document
      = .ok (framed listed root.tag (root.children.filter (!isPart "Signature" ·))) := by
    rw [covered_canonical hr .enveloped (by decide), text_eq_framed]
    rfl
  have hdocument : Region.document.canonical listed document
      = .ok (framed listed root.tag root.children) := by
    rw [covered_canonical hr .document (by decide), text_eq_framed]
    rfl
  refine ⟨run_unsigned _ listed, ?_, hdocument, henveloped⟩
  intro other hother
  have hrun := canonical_ok_iff_run.1 henveloped
  rw [run_unsigned, ← run_of_agrees hother] at hrun
  rw [henveloped]
  exact canonical_ok_iff_run.2 hrun

end Deletion

section Slip

/-- A slip of paper with text around a place for a signature and a signature further down. -/
def slip (signature : String) : Octets :=
  Text.encode ("<s xmlns:d='http://www.w3.org/2000/09/xmldsig#'>a" ++ signature
    ++ "b<i><d:Signature/></i></s>")

theorem slip_unsigned :
    (∃ root, (Reading.ofOctets (slip "<d:Signature>c</d:Signature>")).root? = some root)
    ∧ Region.document.canonical ["d"] (slip "")
      = Region.enveloped.canonical ["d"] (slip "<d:Signature>c</d:Signature>") := by
  have hsome : (Reading.ofOctets (slip "<d:Signature>c</d:Signature>")).root?.isSome = true := by
    decide +kernel
  obtain ⟨root, hr⟩ := Option.isSome_iff_exists.1 hsome
  have hagrees : (Reading.ofOctets (slip "")).Agrees
      (unsignedReading (Reading.ofOctets (slip "<d:Signature>c</d:Signature>"))) := by
    decide +kernel
  obtain ⟨-, hother, -⟩ := enveloped_eq_unsigned hr ["d"]
  exact ⟨⟨root, hr⟩, hother (slip "") hagrees⟩

end Slip

end ImageTrust.Signature
