import ImageTrust.Proofs.Signature.Exact
import ImageTrust.Proofs.Xml.Rereading

/-!
Canonical form written once more. The canonical form of a region is a document of its own, and its
canonical form is itself. The reader accepts every value as it is written, the end of a literal section
included; in text that end is written with a reference.
-/

namespace ImageTrust.Signature

open ImageTrust.Xml

variable {region : Region} {document : Octets} {listed : List String} {n : Node}

/-- The region that the canonical form of a region is when it stands alone. -/
def Region.alone : Region → Region
  | .signedInfo => .document
  | region => region

theorem Region.find?_element {d : Reading} (h : region.find? d = some n) :
    ∃ tag children, n = .element tag children := by
  have hfirst : (Node.elements d.nodes).head?.map
      (fun e => Node.element e.tag (region.keep e.children)) = some n →
      ∃ tag children, n = .element tag children := by
    intro h
    obtain ⟨e, -, rfl⟩ := Option.map_eq_some_iff.1 h
    exact ⟨_, _, rfl⟩
  cases region with
  | document => exact hfirst h
  | enveloped => exact hfirst h
  | signedInfo =>
    obtain ⟨e, -, hn⟩ := List.exists_of_findSome?_eq_some h
    have hpart := List.find?_some hn
    cases n with
    | element tag children => exact ⟨tag, children, rfl⟩
    | _ => cases hpart

section Parts

/-- Whether a piece of a shape is an element of a signature with this base name. -/
def isPartShape (base : String) : Shape → Bool
  | .element name space' _ _ _ => name.base = base && space' = space
  | _ => false

theorem any_isPart (base : String) (listed : List String) (ns : List Node) :
    (Node.shapeAll listed ns).any (isPartShape base) = ns.any (isPart base) := by
  have hcharacters : ∀ cs : List Char, (cs.map Shape.character).any (isPartShape base) = false := by
    intro cs
    simp [isPartShape]
  induction ns with
  | nil => rfl
  | cons n ns ih =>
    rw [Node.shapeAll, List.any_append, ih, List.any_cons]
    congr 1
    cases n with
    | element tag children => simp [Node.shape, isPartShape, isPart, Tag.isNamed]
    | text s => exact hcharacters s.toList
    | literal s => exact hcharacters s.toList
    | comment => rfl
    | instruction target data => rfl

/-- Nothing is left out of children that show like ones of which something was left out before. -/
theorem keep_of_shape {children kept : List Node}
    (h : Node.shapeAll [] kept = Node.shapeAll [] (region.keep children)) : region.keep kept = kept := by
  unfold Region.keep at h ⊢
  split_ifs at h ⊢ with hr
  · have hnone : kept.any (isPart "Signature") = false := by
      rw [← any_isPart "Signature" [], h, any_isPart, List.any_eq_false]
      intro n hn
      simpa using (List.mem_filter.1 hn).2
    rw [List.filter_eq_self]
    intro n hn
    simpa using List.any_eq_false.1 hnone n hn
  · rfl

end Parts

theorem keep_reread {c : String} {t u : Tag} {cs cs' : List Node}
    (hn : region.find? (Reading.ofOctets document) = some (.element t cs))
    (hread : Reading.ofOctets (Text.encode c) = ⟨[.element u cs'], [], true⟩)
    (hcontent : Canonical.content listed [] (.element u cs')
      = Canonical.content listed [] (.element t cs)) : region.alone.keep cs' = cs' := by
  have hfound : Region.document.find? (Reading.ofOctets (Text.encode c)) = some (.element u cs') := by
    rw [hread]
    rfl
  have hshape : (Node.element u cs').shape [] = (Node.element t cs).shape [] := by
    rw [← Canonical.content_shape listed _ [] (Region.find?_wellFormed hfound)
      (Region.find?_legible hfound) rfl, hcontent, Canonical.content_shape listed _ []
      (Region.find?_wellFormed hn) (Region.find?_legible hn) rfl]
  -- what is a signature shows in the shape, and none of the children that were kept is one
  have hinside : Node.shapeAll [] cs' = Node.shapeAll [] cs := by
    simp only [Node.shape, List.cons.injEq, Shape.element.injEq] at hshape
    exact hshape.1.2.2.2.2
  cases region with
  | document => rfl
  | signedInfo => rfl
  | enveloped =>
    obtain ⟨e, -, he⟩ := Option.map_eq_some_iff.1 hn
    obtain ⟨rfl, rfl⟩ := Node.element.inj he
    exact keep_of_shape hinside

/-- The canonical form of a region is a document, and the canonical form of that document is itself. -/
theorem canonical_form_fixed {c : String}
    (hfirst : (Manuscript.ofOctets document).edition = .first) (hlisted : "xmlns" ∉ listed)
    (hc : region.canonical listed document = .ok c) :
    (Reading.ofOctets (Text.encode c)).sound = true
      ∧ region.alone.canonical listed (Text.encode c) = .ok c := by
  obtain ⟨n, hn, rfl⟩ := Region.canonical_ok_iff.1 hc
  obtain ⟨t, cs, rfl⟩ := Region.find?_element hn
  have hw := Region.find?_wellFormed hn
  have hl := Region.find?_legible hn
  rw [hfirst] at hl
  obtain ⟨u, cs', hread, hcontent⟩ := Canonical.reading_text hlisted hw hl
  have hkeep : region.alone.keep cs' = cs' := keep_reread hn hread hcontent
  have hfound : region.alone.find? (Reading.ofOctets (Text.encode
      (Canonical.text listed (.element t cs)))) = some (.element u (region.alone.keep cs')) := by
    rw [hread]
    cases region <;> rfl
  rw [hkeep] at hfound
  constructor
  · rw [hread]
  · refine Region.canonical_ok_iff.2 ⟨_, hfound, ?_⟩
    rw [← String.toList_inj, Canonical.toList_text, Canonical.toList_text, hcontent]

/-- A document with a signature to leave out, a default namespace, attributes out of order and the end
of a literal section in a value. -/
def signedNote : Octets :=
  Text.encode ("<n:note xmlns='d' c='&quot;]]>' b='2' xmlns:n=\"u\"><i>1&gt;0</i>"
    ++ "<Signature xmlns='http://www.w3.org/2000/09/xmldsig#'/></n:note>")

theorem signedNote_fixed :
    Region.enveloped.canonical ["#default"] signedNote = .ok
        "<n:note xmlns=\"d\" xmlns:n=\"u\" b=\"2\" c=\"&quot;]]>\"><i>1&gt;0</i></n:note>"
      ∧ (Reading.ofOctets (Text.encode
          "<n:note xmlns=\"d\" xmlns:n=\"u\" b=\"2\" c=\"&quot;]]>\"><i>1&gt;0</i></n:note>")).sound = true
      ∧ Region.enveloped.canonical ["#default"] (Text.encode
          "<n:note xmlns=\"d\" xmlns:n=\"u\" b=\"2\" c=\"&quot;]]>\"><i>1&gt;0</i></n:note>") = .ok
        "<n:note xmlns=\"d\" xmlns:n=\"u\" b=\"2\" c=\"&quot;]]>\"><i>1&gt;0</i></n:note>" := by
  have hc : Region.enveloped.canonical ["#default"] signedNote = .ok
      "<n:note xmlns=\"d\" xmlns:n=\"u\" b=\"2\" c=\"&quot;]]>\"><i>1&gt;0</i></n:note>" := by
    decide +kernel
  exact ⟨hc, canonical_form_fixed (by decide +kernel) (by decide) hc⟩

end ImageTrust.Signature
