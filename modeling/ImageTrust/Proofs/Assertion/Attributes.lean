import ImageTrust.Proofs.Assertion.Coverage
import ImageTrust.Proofs.Xml.DocumentOrder

/-!
What an assertion lists. Its attributes are the attribute elements with a name, wherever they stand in
the document and also inside each other, in document order; the first that bears a name answers for it.
-/

namespace ImageTrust.Assertion

open ImageTrust.Xml

/-- An element is an attribute with a name. -/
def IsAttribute (name : String) (e : Element) : Prop :=
  e.tag.name.base = "Attribute" ∧ e.tag.attribute? "Name" = some name

instance (name : String) (e : Element) : Decidable (IsAttribute name e) :=
  inferInstanceAs (Decidable (_ ∧ _))

/-- The text of the first value element, without blanks around it. -/
def valueOf (e : Element) : String :=
  Text.trim (((e.child? "AttributeValue").bind (·.text?)).getD "")

variable {e root : Element} {a : Assertion}

theorem asserted?_eq_some_iff {b : Attribute} :
    asserted? e = some b ↔ IsAttribute b.name e ∧ b.value = valueOf e := by
  obtain ⟨name, value⟩ := b
  unfold asserted? attributeOf? IsAttribute
  split_ifs with hbase
  · rw [Option.bind_eq_bind, Option.bind_eq_some_iff]
    constructor
    · rintro ⟨_, hname, h⟩
      cases h
      exact ⟨⟨hbase, hname⟩, rfl⟩
    · rintro ⟨⟨-, hname⟩, rfl⟩
      exact ⟨name, hname, rfl⟩
  · exact iff_of_false nofun fun h => hbase h.1.1

theorem asserted?_isSome_iff : (asserted? e).isSome = true ↔ ∃ name, IsAttribute name e := by
  rw [Option.isSome_iff_exists]
  constructor
  · rintro ⟨b, hb⟩
    exact ⟨b.name, (asserted?_eq_some_iff.1 hb).1⟩
  · rintro ⟨name, hname⟩
    exact ⟨⟨name, valueOf e⟩, asserted?_eq_some_iff.2 ⟨hname, rfl⟩⟩

theorem forall₂_filterMap {α β : Type} (f : α → Option β) : ∀ xs : List α,
    List.Forall₂ (fun x y => f x = some y) (xs.filter fun x => (f x).isSome) (xs.filterMap f)
  | [] => .nil
  | x :: xs => by
    have ih := forall₂_filterMap f xs
    cases hx : f x with
    | none => simpa [hx] using ih
    | some y => simpa [hx] using ih

/-- The list of an assertion goes through the attributes with a name in document order. -/
theorem attributes_enumerated (h : ofElement root = .ok a) : ∃ places elements,
    root.Enumerated (fun e => ∃ name, IsAttribute name e) places elements
      ∧ List.Forall₂ (fun e b => IsAttribute b.name e ∧ b.value = valueOf e) elements a.attributes := by
  obtain ⟨-, -, -, hattributes, -⟩ := ofElement_ok_iff.1 h
  obtain ⟨places, henumerated⟩ := root.enumerated_filter fun e => (asserted? e).isSome
  simp only [asserted?_isSome_iff] at henumerated
  refine ⟨places, _, henumerated, ?_⟩
  rw [← hattributes]
  exact (forall₂_filterMap asserted? _).imp fun e b => asserted?_eq_some_iff.1

/-- The first attribute with a name in document order answers for the name. -/
theorem attribute?_enumerated (h : ofElement root = .ok a) (name : String) : ∃ places elements,
    root.Enumerated (IsAttribute name) places elements
      ∧ a.attribute? name = elements.head?.map valueOf := by
  obtain ⟨-, -, -, hattributes, -⟩ := ofElement_ok_iff.1 h
  obtain ⟨places, henumerated⟩ := root.enumerated_filter (decide <| IsAttribute name ·)
  simp only [decide_eq_true_eq] at henumerated
  refine ⟨places, _, henumerated, ?_⟩
  have hnamed : ∀ e, (asserted? e).any (·.name = name) = decide (IsAttribute name e) := by
    intro e
    rw [Bool.eq_iff_iff, Option.any_eq_true, decide_eq_true_eq]
    constructor
    · rintro ⟨b, hb, hname⟩
      exact of_decide_eq_true hname ▸ (asserted?_eq_some_iff.1 hb).1
    · intro hname
      exact ⟨⟨name, valueOf e⟩, asserted?_eq_some_iff.2 ⟨hname, rfl⟩, decide_eq_true rfl⟩
  unfold attribute?
  rw [← hattributes, List.find?_filterMap, List.head?_filter]
  simp only [hnamed]
  cases hfirst : (Node.preorderAll root.children).find? (decide <| IsAttribute name ·) with
  | none => rfl
  | some e =>
    have hname : IsAttribute name e := by simpa using List.find?_some hfirst
    have hasserted : asserted? e = some ⟨name, valueOf e⟩ := asserted?_eq_some_iff.2 ⟨hname, rfl⟩
    rw [Option.bind_some, hasserted]
    rfl

/-- Both searches in a tree follow the document order, and what is read from a document follows them.
Its attributes are the attribute elements with a name, nested ones included, and what it says about the
host as a whole is the value of the first of them with that name, wherever it stands. -/
theorem read_in_document_order :
    (∀ (e : Element) (base : String), ∃ places named,
      e.Enumerated (·.tag.name.base = base) places named
        ∧ (∀ found : List Element,
          (Node.collectNamedAmong base found.reverse e.children).reverse = found ++ named)
        ∧ e.firstNamed? base = named.head?
        ∧ (e.firstNamed? base = none
          ↔ ∀ place f, place ≠ [] → e.at? place = some f → f.tag.name.base ≠ base))
    ∧ ∀ (document : Octets) (a : Assertion), ofOctets document = .ok a →
      ∃ root, (Reading.ofOctets document).root? = some root
        ∧ (∃ places elements, root.Enumerated (fun e => ∃ name, IsAttribute name e) places elements
          ∧ List.Forall₂ (fun e b => IsAttribute b.name e ∧ b.value = valueOf e) elements a.attributes)
        ∧ ∃ places elements, root.Enumerated (IsAttribute "TRUST_OVERALL") places elements
          ∧ a.trustOverall? = elements.head?.map valueOf
          ∧ (a.reportsUntrusted = true ↔ ∃ e, elements.head? = some e
            ∧ Text.sameIgnoringAsciiCase (Text.trim (valueOf e)) "false" = true) := by
  constructor
  · intro e base
    obtain ⟨places, named, henumerated, hcollected, hfirst⟩ := e.searches_enumerate base
    refine ⟨places, named, henumerated, hcollected, hfirst, ?_⟩
    rw [hfirst, List.head?_eq_none_iff]
    exact henumerated.nil_iff
  · intro document a h
    obtain ⟨-, root, hroot, helement⟩ := ofOctets_ok_iff.1 h
    obtain ⟨places, elements, henumerated, htrust⟩ := attribute?_enumerated helement "TRUST_OVERALL"
    refine ⟨root, hroot, attributes_enumerated helement, places, elements, henumerated, htrust, ?_⟩
    unfold reportsUntrusted trustOverall?
    rw [htrust]
    cases elements.head? with
    | none => simp
    | some e => simp

/-- An assertion in which a nested attribute comes before one with the same name. -/
def nestedDocument : Octets :=
  Text.encode ("<Assertion><Attribute Name='A'><Attribute Name='TRUST_OVERALL'>"
    ++ "<AttributeValue>False</AttributeValue></Attribute></Attribute><Attribute/>"
    ++ "<Attribute Name='TRUST_OVERALL'><AttributeValue>true</AttributeValue></Attribute></Assertion>")

def nestedAssertion : Assertion where
  notBefore := none
  notOnOrAfter := none
  attributes := [⟨"A", ""⟩, ⟨"TRUST_OVERALL", "False"⟩, ⟨"TRUST_OVERALL", "true"⟩]
  certificate := none

theorem nested_attribute_decides : ofOctets nestedDocument = .ok nestedAssertion
    ∧ nestedAssertion.reportsUntrusted = true
    ∧ ∃ root places elements e, (Reading.ofOctets nestedDocument).root? = some root
      ∧ root.Enumerated (IsAttribute "TRUST_OVERALL") places elements ∧ elements.head? = some e
      ∧ valueOf e = "False" := by
  have hread : ofOctets nestedDocument = .ok nestedAssertion := by decide +kernel
  obtain ⟨root, hroot, -, places, elements, henumerated, htrust, -⟩ :=
    read_in_document_order.2 nestedDocument nestedAssertion hread
  have hoverall : nestedAssertion.trustOverall? = some "False" := by decide
  obtain ⟨e, he, hvalue⟩ := Option.map_eq_some_iff.1 (htrust.symm.trans hoverall)
  exact ⟨hread, by decide +kernel, root, places, elements, e, hroot, henumerated, he, hvalue⟩

end ImageTrust.Assertion
