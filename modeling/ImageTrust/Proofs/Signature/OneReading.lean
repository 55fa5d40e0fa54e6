import ImageTrust.Proofs.Signature.Envelope
import ImageTrust.Proofs.Xml.Encoding

/-!
Whether an accepted signature can be read in one way only. The reader counts signatures and
references. Of every other part it takes the first, and of the lists of transforms it looks at no
other than the first. So an accepted signature has one reading exactly when it repeats nothing of
that, given that the attributes which are read carry no qualifier: these are found by their base
names.
-/

namespace ImageTrust.Signature

open ImageTrust.Xml

section Attributes

variable {e : Element} {name : String}

/-- The value of the attribute with this name and no qualifier. -/
def ownAttribute? (e : Element) (name : String) : Option String :=
  (e.tag.attributes.reverse.find? (·.name = ⟨"", name⟩)).map (·.value)

/-- No attribute with this base name has a qualifier. -/
def Unqualified (e : Element) (name : String) : Prop :=
  ∀ a ∈ e.tag.attributes, a.name.base = name → a.name.qualifier = ""

instance (e : Element) (name : String) : Decidable (Unqualified e name) :=
  inferInstanceAs (Decidable (∀ a ∈ e.tag.attributes, a.name.base = name → a.name.qualifier = ""))

theorem attribute_eq_own (h : Unqualified e name) : e.tag.attribute? name = ownAttribute? e name := by
  unfold Tag.attribute? ownAttribute?
  rw [← List.head?_filter, ← List.head?_filter]
  congr 2
  apply List.filter_congr
  intro a ha
  have hq := h a (List.mem_reverse.1 ha)
  rw [decide_eq_decide]
  constructor
  · intro hb
    rw [← hb, ← hq hb]
  · intro hn
    rw [hn]

end Attributes

section Reading

/-- There is one child of this name and no other. -/
def Single (e : Element) (name : String) : Prop :=
  ∃ c, parts e name = [c]

def NotRepeated (e : Element) (name : String) : Prop :=
  (parts e name).length ≤ 1

instance (e : Element) (name : String) : Decidable (NotRepeated e name) :=
  inferInstanceAs (Decidable (_ ≤ _))

/-- The element names one of the two transforms that there are. -/
def NamesTransform (t : Element) : Prop :=
  ownAttribute? t "Algorithm" = some envelopedTransform
    ∨ ownAttribute? t "Algorithm" = some exclusive

instance (t : Element) : Decidable (NamesTransform t) :=
  inferInstanceAs (Decidable (_ ∨ _))

/-- The address of a reference is absent, empty, or the name of the document element. -/
def RefersHome (root r : Element) : Prop :=
  ownAttribute? r "URI" = none ∨ ownAttribute? r "URI" = some ""
    ∨ ∃ id, id ≠ "" ∧ ownAttribute? root "ID" = some id ∧ ownAttribute? r "URI" = some ("#" ++ id)

structure OneReference (root r : Element) : Prop where
  target : RefersHome root r
  transforms : ∀ list ∈ parts r "Transforms", ∀ t ∈ parts list "Transform", NamesTransform t
  canonical : ∃ list ∈ parts r "Transforms", ∃ t ∈ parts list "Transform",
    ownAttribute? t "Algorithm" = some exclusive
  method : Single r "DigestMethod"
  value : Single r "DigestValue"

structure OneInfo (root info : Element) : Prop where
  canonicalization : ∃ m, parts info "CanonicalizationMethod" = [m]
    ∧ ownAttribute? m "Algorithm" = some exclusive
  scheme : Single info "SignatureMethod"
  reference : ∃ r, parts info "Reference" = [r] ∧ OneReference root r

/-- Each part of the signature of a document element is there once, and nothing in the list of
transforms is passed over. -/
def OneReading (root : Element) : Prop :=
  ∃ signature, parts root "Signature" = [signature] ∧ Single signature "SignatureValue"
    ∧ ∃ info, parts signature "SignedInfo" = [info] ∧ OneInfo root info

end Reading

section Conditions

/-- What the reader would pass over in a reference is not there. -/
structure UnrepeatedReference (r : Element) : Prop where
  transforms : ∀ list ∈ (parts r "Transforms").tail, ∀ t ∈ parts list "Transform", NamesTransform t
  method : NotRepeated r "DigestMethod"
  value : NotRepeated r "DigestValue"

instance (r : Element) : Decidable (UnrepeatedReference r) :=
  decidable_of_iff ((∀ list ∈ (parts r "Transforms").tail, ∀ t ∈ parts list "Transform",
      NamesTransform t) ∧ NotRepeated r "DigestMethod" ∧ NotRepeated r "DigestValue")
    ⟨fun ⟨ht, hm, hv⟩ => ⟨ht, hm, hv⟩, fun ⟨ht, hm, hv⟩ => ⟨ht, hm, hv⟩⟩

structure UnrepeatedInfo (info : Element) : Prop where
  canonicalization : NotRepeated info "CanonicalizationMethod"
  scheme : NotRepeated info "SignatureMethod"
  reference : ∀ r ∈ parts info "Reference", UnrepeatedReference r

instance (info : Element) : Decidable (UnrepeatedInfo info) :=
  decidable_of_iff (NotRepeated info "CanonicalizationMethod" ∧ NotRepeated info "SignatureMethod"
      ∧ ∀ r ∈ parts info "Reference", UnrepeatedReference r)
    ⟨fun ⟨hc, hs, hr⟩ => ⟨hc, hs, hr⟩, fun ⟨hc, hs, hr⟩ => ⟨hc, hs, hr⟩⟩

/-- What the reader would pass over in the signatures of a document element is not there. -/
def Unrepeated (root : Element) : Prop :=
  ∀ signature ∈ parts root "Signature", NotRepeated signature "SignatureValue"
    ∧ NotRepeated signature "SignedInfo"
    ∧ ∀ info ∈ parts signature "SignedInfo", UnrepeatedInfo info

instance (root : Element) : Decidable (Unrepeated root) :=
  inferInstanceAs (Decidable (∀ signature ∈ parts root "Signature", _ ∧ _ ∧ _))

def UnqualifiedReference (r : Element) : Prop :=
  Unqualified r "URI"
    ∧ ∀ list ∈ parts r "Transforms", ∀ t ∈ parts list "Transform", Unqualified t "Algorithm"

instance (r : Element) : Decidable (UnqualifiedReference r) :=
  inferInstanceAs (Decidable (_ ∧ _))

/-- No attribute that says where a signature refers to, or what it applies, has a qualifier. -/
def UnqualifiedSignature (root : Element) : Prop :=
  Unqualified root "ID" ∧ ∀ signature ∈ parts root "Signature",
    ∀ info ∈ parts signature "SignedInfo",
      (∀ m ∈ parts info "CanonicalizationMethod", Unqualified m "Algorithm")
        ∧ ∀ r ∈ parts info "Reference", UnqualifiedReference r

instance (root : Element) : Decidable (UnqualifiedSignature root) :=
  inferInstanceAs (Decidable (_ ∧ _))

end Conditions

section Parts

variable {e c root r info : Element} {name : String}

theorem notRepeated_of_single (h : Single e name) : NotRepeated e name := by
  obtain ⟨c, hc⟩ := h
  unfold NotRepeated
  rw [hc]
  exact Nat.le_refl 1

theorem eq_singleton_of_head (h : (parts e name).head? = some c) (hn : NotRepeated e name) :
    parts e name = [c] := by
  obtain ⟨more, hm⟩ := List.head?_eq_some_iff.1 h
  unfold NotRepeated at hn
  rw [hm, List.length_cons] at hn
  have hmore : more = [] := List.eq_nil_of_length_eq_zero (by omega)
  rw [hm, hmore]

theorem head_ok_of_partOctets {octets : Octets} (h : partOctets e name = .ok octets) :
    ∃ c, (parts e name).head? = some c := by
  obtain ⟨c, hc, -⟩ := (bind_ok_iff _ _ _).1 h
  exact ⟨c, part_ok_iff.1 hc⟩

theorem refersHome_of_refersTo (hr : Unqualified r "URI") (hroot : Unqualified root "ID")
    (h : RefersTo r root) : RefersHome root r := by
  unfold RefersTo at h
  rw [attribute_eq_own hr, attribute_eq_own hroot] at h
  unfold RefersHome
  cases hu : ownAttribute? r "URI" with
  | none => exact .inl rfl
  | some uri =>
    rw [hu] at h
    rcases h with h | ⟨hid, h⟩
    · exact .inr (.inl (congrArg some h))
    · cases hi : ownAttribute? root "ID" with
      | none =>
        rw [hi] at hid
        exact absurd rfl hid
      | some id =>
        rw [hi] at hid h
        exact .inr (.inr ⟨id, hid, rfl, congrArg some h⟩)

end Parts

section Transforms

variable {enveloped : Bool} {listed : Option (List String)} {ts : List Element}

/-- Transforms that are followed to the end are all known. -/
theorem accepted_of_transforms {applied : Bool × Option (List String)}
    (h : transforms enveloped listed ts = .ok applied) :
    ∀ t ∈ ts, t.tag.attribute? "Algorithm" = some envelopedTransform
      ∨ t.tag.attribute? "Algorithm" = some exclusive := by
  induction ts generalizing enveloped listed with
  | nil => nofun
  | cons t ts ih =>
    rw [transforms, bind_ok_iff] at h
    obtain ⟨method, hm, h⟩ := h
    have hm := algorithm_ok_iff.1 hm
    rw [List.forall_mem_cons]
    split_ifs at h with henveloped hexclusive
    · exact ⟨.inl (henveloped ▸ hm), ih h⟩
    · exact ⟨.inr (hexclusive ▸ hm), ih h⟩

theorem exclusive_of_transforms {applied : Bool} {qs : List String}
    (h : transforms enveloped listed ts = .ok (applied, some qs)) :
    listed.isSome = true ∨ ∃ t ∈ ts, t.tag.attribute? "Algorithm" = some exclusive := by
  induction ts generalizing enveloped listed with
  | nil =>
    cases h
    exact .inl rfl
  | cons t ts ih =>
    rw [transforms, bind_ok_iff] at h
    obtain ⟨method, hm, h⟩ := h
    have hm := algorithm_ok_iff.1 hm
    split_ifs at h with henveloped hexclusive
    · rcases ih h with hl | ⟨u, hu, ha⟩
      · exact .inl hl
      · exact .inr ⟨u, List.mem_cons_of_mem t hu, ha⟩
    · exact .inr ⟨t, List.mem_cons_self, hexclusive ▸ hm⟩

/-- The first list of transforms is the one that is followed. -/
theorem first_transforms {r : Element} {applied : Bool × List String}
    (h : referenceTransforms r = .ok applied) : ∃ list, (parts r "Transforms").head? = some list
      ∧ (∀ t ∈ parts list "Transform", t.tag.attribute? "Algorithm" = some envelopedTransform
        ∨ t.tag.attribute? "Algorithm" = some exclusive)
      ∧ ∃ t ∈ parts list "Transform", t.tag.attribute? "Algorithm" = some exclusive := by
  unfold referenceTransforms at h
  rw [bind_ok_iff] at h
  obtain ⟨⟨enveloped, listed⟩, hsteps, h⟩ := h
  cases listed with
  | none => cases h
  | some qs =>
    cases hp : parts r "Transforms" with
    | nil =>
      rw [hp] at hsteps
      cases hsteps
    | cons list more =>
      rw [hp] at hsteps
      rcases exclusive_of_transforms hsteps with hl | hx
      · cases hl
      · exact ⟨list, rfl, accepted_of_transforms hsteps, hx⟩

end Transforms

section Repetition

variable {root info r : Element}

theorem unrepeatedReference_of_one (h : OneReference root r) : UnrepeatedReference r := by
  refine ⟨?_, notRepeated_of_single h.method, notRepeated_of_single h.value⟩
  intro list hlist
  exact h.transforms list (List.mem_of_mem_tail hlist)

theorem unrepeatedInfo_of_one (h : OneInfo root info) : UnrepeatedInfo info := by
  obtain ⟨m, hm, -⟩ := h.canonicalization
  obtain ⟨r, hr, hone⟩ := h.reference
  refine ⟨notRepeated_of_single ⟨m, hm⟩, notRepeated_of_single h.scheme, ?_⟩
  intro r' hr'
  rw [hr] at hr'
  obtain rfl := List.mem_singleton.1 hr'
  exact unrepeatedReference_of_one hone

theorem unrepeated_of_oneReading (h : OneReading root) : Unrepeated root := by
  obtain ⟨signature, hs, hv, info, hi, hone⟩ := h
  intro signature' hs'
  rw [hs] at hs'
  obtain rfl := List.mem_singleton.1 hs'
  refine ⟨notRepeated_of_single hv, notRepeated_of_single ⟨info, hi⟩, ?_⟩
  intro info' hi'
  rw [hi] at hi'
  obtain rfl := List.mem_singleton.1 hi'
  exact unrepeatedInfo_of_one hone

end Repetition

section Acceptance

variable {document : Octets} {root signature info r : Element} {e : Envelope}

theorem oneReference_of_unrepeated {applied : Bool × List String} {m : Element} {digest : Octets}
    (hroot : Unqualified root "ID") (hplain : UnqualifiedReference r) (ht : RefersTo r root)
    (htransforms : referenceTransforms r = .ok applied)
    (hm : (parts r "DigestMethod").head? = some m) (hv : partOctets r "DigestValue" = .ok digest)
    (h : UnrepeatedReference r) : OneReference root r := by
  obtain ⟨huri, hplain⟩ := hplain
  obtain ⟨list, hlist, haccepted, t, hmem, hexclusive⟩ := first_transforms htransforms
  obtain ⟨v, hv⟩ := head_ok_of_partOctets hv
  obtain ⟨later, hparts⟩ := List.head?_eq_some_iff.1 hlist
  have hfirst : list ∈ parts r "Transforms" := List.mem_of_head? hlist
  constructor
  case target => exact refersHome_of_refersTo huri hroot ht
  case transforms =>
    have hlater := h.transforms
    rw [hparts, List.tail_cons] at hlater
    rw [hparts]
    refine List.forall_mem_cons.2 ⟨?_, hlater⟩
    intro u hu
    have hu' := haccepted u hu
    rwa [attribute_eq_own (hplain list hfirst u hu)] at hu'
  case canonical =>
    rw [attribute_eq_own (hplain list hfirst t hmem)] at hexclusive
    exact ⟨list, hfirst, t, hmem, hexclusive⟩
  case method => exact ⟨m, eq_singleton_of_head hm h.method⟩
  case value => exact ⟨v, eq_singleton_of_head hv h.value⟩

theorem oneInfo_of_unrepeated (hw : e.WrittenIn root signature info)
    (hroot : Unqualified root "ID")
    (hcanonicalization : ∀ m ∈ parts info "CanonicalizationMethod", Unqualified m "Algorithm")
    (hreference : ∀ r ∈ parts info "Reference", UnqualifiedReference r)
    (h : UnrepeatedInfo info) : OneInfo root info := by
  constructor
  case canonicalization =>
    obtain ⟨m, hm, hexclusive, -⟩ := hw.canonicalization
    rw [attribute_eq_own (hcanonicalization m (List.mem_of_head? hm))] at hexclusive
    exact ⟨m, eq_singleton_of_head hm h.canonicalization, hexclusive⟩
  case scheme =>
    obtain ⟨m, -, hm, -⟩ := hw.scheme
    exact ⟨m, eq_singleton_of_head hm h.scheme⟩
  case reference =>
    obtain ⟨r, hr, ht, htransforms, ⟨m, -, hm, -⟩, hv⟩ := hw.reference
    have hmem : r ∈ parts info "Reference" := hr ▸ List.mem_singleton_self r
    exact ⟨r, hr, oneReference_of_unrepeated hroot (hreference r hmem) ht htransforms hm hv
      (h.reference r hmem)⟩

/-- An accepted signature has one reading exactly when nothing stands in it that is passed over. -/
theorem one_reading_iff_unrepeated (hr : (Reading.ofOctets document).root? = some root)
    (he : Envelope.ofOctets document = .ok e) (hplain : UnqualifiedSignature root) :
    OneReading root ↔ Unrepeated root := by
  refine ⟨unrepeated_of_oneReading, ?_⟩
  intro h
  obtain ⟨root', signature, info, hr', hw⟩ := ofOctets_ok_iff.1 he
  obtain rfl : root = root' := Option.some.inj (hr.symm.trans hr')
  have hs : signature ∈ parts root "Signature" := hw.only ▸ List.mem_singleton_self signature
  have hi : info ∈ parts signature "SignedInfo" := List.mem_of_head? hw.first
  obtain ⟨hroot, hplain⟩ := hplain
  obtain ⟨hcanonicalization, hreference⟩ := hplain signature hs info hi
  obtain ⟨hvalues, hinfos, hinfo⟩ := h signature hs
  obtain ⟨value, hvalue⟩ := head_ok_of_partOctets hw.value
  exact ⟨signature, hw.only, ⟨value, eq_singleton_of_head hvalue hvalues⟩, info,
    eq_singleton_of_head hw.first hinfos,
    oneInfo_of_unrepeated hw hroot hcanonicalization hreference (hinfo info hi)⟩

end Acceptance

section Letter

def letterOpening : String :=
  "<Letter xmlns:d=\"http://www.w3.org/2000/09/xmldsig#\">
  <d:Signature><d:SignedInfo>
    <d:CanonicalizationMethod Algorithm=\"http://www.w3.org/2001/10/xml-exc-c14n#\"/>
    <d:SignatureMethod Algorithm=\"http://www.w3.org/2001/04/xmldsig-more#rsa-sha256\"/>
    <d:Reference><d:Transforms>
      <d:Transform Algorithm=\"http://www.w3.org/2000/09/xmldsig#enveloped-signature\"/>
      <d:Transform Algorithm=\"http://www.w3.org/2001/10/xml-exc-c14n#\"/>
    </d:Transforms>"

def letterClosing : String :=
  "<d:DigestMethod Algorithm=\"http://www.w3.org/2001/04/xmlenc#sha256\"/>
    <d:DigestValue>AA==</d:DigestValue></d:Reference>
  </d:SignedInfo><d:SignatureValue>AA==</d:SignatureValue></d:Signature>
</Letter>"

/-- A second list of transforms, with one that the reader does not know. -/
def pathTransforms : String :=
  "<d:Transforms>
      <d:Transform Algorithm=\"http://www.w3.org/TR/1999/REC-xpath-19991116\"/>
    </d:Transforms>"

/-- A letter under a signature that has more in its reference than it needs. -/
def letter (more : String) : Octets :=
  Text.encode (letterOpening ++ more ++ letterClosing)

def letterEnvelope : Envelope :=
  ⟨[], .sha256, true, [], .sha256, [0], [0], none⟩

theorem reading_letter (more : String) : Reading.ofOctets (letter more)
    = .ofManuscript ⟨.first, false,
      letterOpening.toList ++ more.toList ++ letterClosing.toList, true⟩ := by
  obtain ⟨cs, hcs⟩ : ∃ cs, letterOpening.toList = '<' :: 'L' :: cs := by
    unfold letterOpening
    rw [String.toList_ofList]
    exact ⟨_, rfl⟩
  exact Reading.ofOctets_encode_between hcs (by decide)

/-- Both letters are accepted. One of them has a list of transforms that is passed over. -/
theorem letter_roots : ∃ root root', (Reading.ofOctets (letter "")).root? = some root
    ∧ (Reading.ofOctets (letter pathTransforms)).root? = some root'
    ∧ (Envelope.ofElement root = .ok letterEnvelope ∧ UnqualifiedSignature root ∧ Unrepeated root)
    ∧ Envelope.ofElement root' = .ok letterEnvelope ∧ ¬ Unrepeated root' := by
  have h : (Reading.ofOctets (letter "")).root?.any (fun root =>
      (Reading.ofOctets (letter pathTransforms)).root?.any fun root' =>
        decide ((Envelope.ofElement root = .ok letterEnvelope ∧ UnqualifiedSignature root
            ∧ Unrepeated root)
          ∧ Envelope.ofElement root' = .ok letterEnvelope ∧ ¬ Unrepeated root')) = true := by
    rw [reading_letter, reading_letter]
    unfold letterOpening letterClosing pathTransforms
    repeat rw [String.toList_ofList]
    decide +kernel
  simp only [Option.any_eq_true, decide_eq_true_eq] at h
  obtain ⟨root, hr, root', hr', hm⟩ := h
  exact ⟨root, root', hr, hr', hm⟩

theorem letter_one_reading : ∃ root, (Reading.ofOctets (letter "")).root? = some root
    ∧ Envelope.ofOctets (letter "") = .ok letterEnvelope ∧ OneReading root := by
  obtain ⟨root, -, hr, -, ⟨he, hplain, hunrepeated⟩, -⟩ := letter_roots
  have he : Envelope.ofOctets (letter "") = .ok letterEnvelope := by
    rw [Envelope.ofOctets, hr]
    exact he
  exact ⟨root, hr, he, (one_reading_iff_unrepeated hr he hplain).2 hunrepeated⟩

/-- Acceptance does not leave one reading only: a second list of transforms is not looked at. -/
theorem transforms_passed_over : ¬ ∀ (document : Octets) (e : Envelope) (root : Element),
    Envelope.ofOctets document = .ok e → (Reading.ofOctets document).root? = some root →
    OneReading root := by
  intro h
  obtain ⟨-, root, -, hr, -, he, hrepeated⟩ := letter_roots
  have he : Envelope.ofOctets (letter pathTransforms) = .ok letterEnvelope := by
    rw [Envelope.ofOctets, hr]
    exact he
  exact hrepeated (unrepeated_of_oneReading (h _ _ root he hr))

end Letter

end ImageTrust.Signature
