import ImageTrust.Assertion.Basic
import ImageTrust.Proofs.Signature.Envelope
import ImageTrust.Proofs.Xml.Alike
import ImageTrust.Proofs.Xml.Encoding

/-!
How much of what is read from an assertion its signature covers. The canonical form that is signed
leaves out the signature itself, the order of attributes and the pieces of text, while the reader of
assertions looks at every element and takes attributes and text as they were written. Two documents
with one canonical form therefore read alike as far as neither makes use of what is left out, which is
a condition on each document alone.
-/

namespace ImageTrust.Assertion

open ImageTrust.Xml ImageTrust.Signature

/-- The children of the document element that a region leaves out. -/
def leaveOut (region : Region) (children : List Node) : List Node :=
  if region = .enveloped then children.filter (isPart "Signature") else []

/-- What an element asserts about the host. -/
def asserted? (e : Element) : Option Attribute :=
  if e.tag.name.base = "Attribute" then attributeOf? e else none

/-- What an element asserts according to its canonical form. -/
def canonicallyAsserted? (e : Element) : Option Attribute :=
  if e.tag.name.base = "Attribute" then do
    let name ← e.tag.canonical? "Name"
    let value := (e.child? "AttributeValue").map (·.wholeText)
    some ⟨name, Text.trim (value.getD "")⟩
  else none

/-- The element that bounds the use of an assertion. -/
def window? (elements : List Element) : Option Element :=
  elements.find? (·.tag.name.base = "SubjectConfirmationData")

/-- A bound of the window as it is read. -/
def bound (name : String) (root : Element) : Except Fault (Option Clock.Timestamp) :=
  timestamp ((window? (Node.preorderAll root.children)).bind (·.tag.attribute? name))

/-- A bound of the window according to the canonical form of a region. -/
def canonicalBound (region : Region) (name : String) (root : Element) :
    Except Fault (Option Clock.Timestamp) :=
  timestamp ((window? (Node.preorderAll (region.keep root.children))).bind
    (·.tag.canonical? name))

/-- A document element asserts no more than a region of it covers: nothing outside the region counts,
and everything in it reads as its canonical form does. -/
structure Covered (region : Region) (root : Element) : Prop where
  outside : ∀ e ∈ Node.preorderAll (leaveOut region root.children), asserted? e = none
  inside : ∀ e ∈ Node.preorderAll (region.keep root.children),
    asserted? e = canonicallyAsserted? e
  notBefore : bound "NotBefore" root = canonicalBound region "NotBefore" root
  notOnOrAfter : bound "NotOnOrAfter" root = canonicalBound region "NotOnOrAfter" root

instance (region : Region) (root : Element) : Decidable (Covered region root) :=
  decidable_of_iff ((∀ e ∈ Node.preorderAll (leaveOut region root.children), asserted? e = none)
      ∧ (∀ e ∈ Node.preorderAll (region.keep root.children),
        asserted? e = canonicallyAsserted? e)
      ∧ bound "NotBefore" root = canonicalBound region "NotBefore" root
      ∧ bound "NotOnOrAfter" root = canonicalBound region "NotOnOrAfter" root)
    ⟨fun ⟨a, b, c, d⟩ => ⟨a, b, c, d⟩, fun ⟨a, b, c, d⟩ => ⟨a, b, c, d⟩⟩

section Documents

variable {root : Element} {a : Assertion}

theorem ofElement_ok_iff : ofElement root = .ok a ↔ root.tag.name.base = "Assertion"
    ∧ bound "NotBefore" root = .ok a.notBefore
    ∧ bound "NotOnOrAfter" root = .ok a.notOnOrAfter
    ∧ (Node.preorderAll root.children).filterMap asserted? = a.attributes
    ∧ certificateOf (root.firstNamed? "X509Certificate") = .ok a.certificate := by
  have hattributes : (root.allNamed "Attribute").filterMap attributeOf?
      = (Node.preorderAll root.children).filterMap asserted? := by
    rw [Element.allNamed_eq, List.filterMap_filter]
    refine congrArg (List.filterMap · _) (funext fun e => ?_)
    simp [asserted?]
  unfold ofElement bound window?
  rw [hattributes, Element.firstNamed?_eq root "SubjectConfirmationData"]
  by_cases hbase : root.tag.name.base = "Assertion"
  · rw [if_neg (not_not_intro hbase)]
    simp only [bind_ok_iff]
    constructor
    · rintro ⟨notBefore, hnb, notOnOrAfter, hno, certificate, hc, h⟩
      cases h
      exact ⟨hbase, hnb, hno, rfl, hc⟩
    · rintro ⟨-, hnb, hno, hat, hc⟩
      refine ⟨_, hnb, _, hno, _, hc, ?_⟩
      rw [hat]
      rfl
  · rw [if_pos hbase]
    exact ⟨nofun, fun h => absurd h.1 hbase⟩

theorem ofOctets_ok_iff {document : Octets} : Assertion.ofOctets document = .ok a ↔
    document.length ≤ sizeLimit ∧ ∃ root, (Reading.ofOctets document).root? = some root
      ∧ ofElement root = .ok a := by
  unfold Assertion.ofOctets
  split_ifs with h
  · simp only [false_iff, not_and]
    omega
  · cases (Reading.ofOctets document).root? with
    | none => simp
    | some root => simp [Nat.le_of_not_lt h]

end Documents

section Lists

variable {α β : Type}

/-- Functions that are defined on the same elements collect the same values only when they agree. -/
theorem filterMap_eq_iff {f g : α → Option β} : ∀ {es : List α},
    (∀ e ∈ es, (f e).isSome = (g e).isSome) →
      (es.filterMap f = es.filterMap g ↔ ∀ e ∈ es, f e = g e)
  | [], _ => by simp
  | e :: es, h => by
    have ih := filterMap_eq_iff fun e he => h e (List.mem_cons_of_mem _ he)
    have hsome := h e List.mem_cons_self
    rw [List.forall_mem_cons, ← ih]
    cases hf : f e <;> cases hg : g e <;> simp_all

theorem length_filterMap_eq {f g : α → Option β} : ∀ {es : List α},
    (∀ e ∈ es, (f e).isSome = (g e).isSome) → (es.filterMap f).length = (es.filterMap g).length
  | [], _ => rfl
  | e :: es, h => by
    have ih := length_filterMap_eq fun e he => h e (List.mem_cons_of_mem _ he)
    have hsome := h e List.mem_cons_self
    cases hf : f e <;> cases hg : g e <;> simp_all

theorem filterMap_congr_of_alike {f : Element → Option β} {es fs : List Element}
    (hf : ∀ e e', Alike e e' → f e = f e') (h : List.Forall₂ Alike es fs) :
    es.filterMap f = fs.filterMap f := by
  induction h with
  | nil => rfl
  | cons he _ ih => rw [List.filterMap_cons, List.filterMap_cons, hf _ _ he, ih]

theorem find?_bind_congr_of_alike {p : Element → Bool} {f : Element → Option β}
    {es fs : List Element} (hp : ∀ e e', Alike e e' → p e = p e')
    (hf : ∀ e e', Alike e e' → f e = f e') (h : List.Forall₂ Alike es fs) :
    (es.find? p).bind f = (fs.find? p).bind f := by
  induction h with
  | nil => rfl
  | cons he _ ih =>
    rw [List.find?_cons, List.find?_cons, hp _ _ he]
    split
    · exact hf _ _ he
    · exact ih

end Lists

section Regions

variable {region : Region}

/-- A child of the document element is either kept or left out. -/
theorem keep_or_leaveOut (region : Region) (n : Node) (ns : List Node) :
    (region.keep (n :: ns) = n :: region.keep ns ∧ leaveOut region (n :: ns) = leaveOut region ns)
    ∨ (region.keep (n :: ns) = region.keep ns
      ∧ leaveOut region (n :: ns) = n :: leaveOut region ns) := by
  unfold Region.keep leaveOut
  split_ifs
  · cases h : isPart "Signature" n with
    | true => exact .inr ⟨by simp [h], by simp [h]⟩
    | false => exact .inl ⟨by simp [h], by simp [h]⟩
  · exact .inl ⟨rfl, rfl⟩

/-- Collecting over all children, when there is nothing to collect in what a region leaves out. -/
theorem filterMap_of_outside {β : Type} {f : Element → Option β} : ∀ {children : List Node},
    (∀ e ∈ Node.preorderAll (leaveOut region children), f e = none) →
      (Node.preorderAll children).filterMap f
        = (Node.preorderAll (region.keep children)).filterMap f
  | [], _ => by simp [Region.keep]
  | n :: ns, h => by
    rcases keep_or_leaveOut region n ns with ⟨hk, hl⟩ | ⟨hk, hl⟩
    · rw [hl] at h
      rw [hk, Node.preorderAll, Node.preorderAll, List.filterMap_append, List.filterMap_append,
        filterMap_of_outside h]
    · rw [hl, Node.preorderAll, List.forall_mem_append] at h
      rw [hk, Node.preorderAll, List.filterMap_append, List.filterMap_eq_nil_iff.2 h.1,
        filterMap_of_outside h.2]
      rfl

theorem length_filterMap_split (region : Region) {β : Type} (f : Element → Option β)
    (children : List Node) : ((Node.preorderAll children).filterMap f).length
      = ((Node.preorderAll (region.keep children)).filterMap f).length
        + ((Node.preorderAll (leaveOut region children)).filterMap f).length := by
  induction children with
  | nil => simp [Region.keep, leaveOut, Node.preorderAll]
  | cons n ns ih =>
    rcases keep_or_leaveOut region n ns with ⟨hk, hl⟩ | ⟨hk, hl⟩
    · rw [hk, hl, Node.preorderAll, Node.preorderAll, List.filterMap_append,
        List.filterMap_append, List.length_append, List.length_append, ih]
      omega
    · rw [hk, hl, Node.preorderAll, Node.preorderAll, List.filterMap_append,
        List.filterMap_append, List.length_append, List.length_append, ih]
      omega

end Regions

section Canonical

theorem canonical?_isSome (t : Tag) (base : String) :
    (t.canonical? base).isSome = (t.attribute? base).isSome := by
  unfold Tag.canonical? Tag.attribute?
  rw [Option.isSome_map, Option.isSome_map, Bool.eq_iff_iff, List.find?_isSome, List.find?_isSome]
  simp only [List.mem_reverse, (Canonical.sortedAttributes_perm t).mem_iff]

theorem asserted?_isSome (e : Element) :
    (asserted? e).isSome = (canonicallyAsserted? e).isSome := by
  have h := canonical?_isSome e.tag "Name"
  unfold asserted? canonicallyAsserted? attributeOf?
  split_ifs
  · cases ha : e.tag.attribute? "Name" <;> cases hc : e.tag.canonical? "Name" <;> simp_all
  · rfl

theorem canonicallyAsserted?_congr (e f : Element) (h : Alike e f) :
    canonicallyAsserted? e = canonicallyAsserted? f := by
  have hchild : (e.child? "AttributeValue").map (·.wholeText)
      = (f.child? "AttributeValue").map (·.wholeText) := by
    rw [Option.map_eq_bind, Option.map_eq_bind]
    exact find?_bind_congr_of_alike (fun _ _ h => by rw [h.name])
      (fun _ _ h => congrArg some h.wholeText) h.elements
  unfold canonicallyAsserted?
  rw [h.name, h.canonical?, hchild]

/-- What is read from an element is what its canonical form says, for all elements of two documents
that look alike. -/
theorem attributes_eq_iff {region : Region} {root : Element} {shown : List Attribute}
    (hs : (Node.preorderAll (region.keep root.children)).filterMap canonicallyAsserted? = shown) :
    (Node.preorderAll root.children).filterMap asserted? = shown
      ↔ (∀ e ∈ Node.preorderAll (leaveOut region root.children), asserted? e = none)
        ∧ ∀ e ∈ Node.preorderAll (region.keep root.children),
          asserted? e = canonicallyAsserted? e := by
  subst hs
  have hsome : ∀ e ∈ Node.preorderAll (region.keep root.children),
      (asserted? e).isSome = (canonicallyAsserted? e).isSome := fun e _ => asserted?_isSome e
  constructor
  · intro h
    have hlen := length_filterMap_split region asserted? root.children
    rw [h, length_filterMap_eq hsome] at hlen
    have houtside : ∀ e ∈ Node.preorderAll (leaveOut region root.children), asserted? e = none :=
      List.filterMap_eq_nil_iff.1 (List.eq_nil_of_length_eq_zero (by omega))
    rw [filterMap_of_outside houtside] at h
    exact ⟨houtside, (filterMap_eq_iff hsome).1 h⟩
  · rintro ⟨houtside, hinside⟩
    rw [filterMap_of_outside houtside]
    exact (filterMap_eq_iff hsome).2 hinside

theorem canonicalBound_congr {region : Region} {root root' : Element} (name : String)
    (h : List.Forall₂ Alike (Node.preorderAll (region.keep root.children))
      (Node.preorderAll (region.keep root'.children))) :
    canonicalBound region name root = canonicalBound region name root' := by
  unfold canonicalBound window?
  rw [find?_bind_congr_of_alike (fun _ _ h => by rw [h.name]) (fun _ _ h => h.canonical? name) h]

end Canonical

section Roots

variable {document : Octets} {root : Element}

theorem kept_wellFormed (hr : (Reading.ofOctets document).root? = some root) (region : Region) :
    (Element.mk root.tag (region.keep root.children)).node.WellFormed := by
  have hroot : root.node.WellFormed := (Reading.ofOctets_wellFormed document).1 _
    (node_mem_of_elements (List.mem_of_mem_head? (head_of_root hr)))
  refine ⟨hroot.1, (Node.allWellFormed_iff _).2 fun n hn => ?_⟩
  refine (Node.allWellFormed_iff _).1 hroot.2 n ?_
  unfold Region.keep at hn
  split_ifs at hn
  · exact (List.mem_filter.1 hn).1
  · exact hn

/-- The document elements of two documents look alike in what a region with one canonical form
keeps of them. -/
theorem alike_of_canonical {document' : Octets} {root' : Element} {region : Region}
    {listed : List String} (hr : (Reading.ofOctets document).root? = some root)
    (hr' : (Reading.ofOctets document').root? = some root') (hn : region ≠ .signedInfo)
    (h : region.canonical listed document = region.canonical listed document') :
    Alike ⟨root.tag, region.keep root.children⟩ ⟨root'.tag, region.keep root'.children⟩ := by
  rw [covered_canonical hr region hn, covered_canonical hr' region hn] at h
  exact alike_of_text (kept_wellFormed hr region) (kept_wellFormed hr' region) (Except.ok.inj h)

end Roots

/-- A document is read within what its signature covers: it is not too large, it asserts no more than
is covered, and the certificate in it can be read. -/
def ReadAsCovered (e : Envelope) (document : Octets) : Prop :=
  document.length ≤ sizeLimit ∧ ∃ root, (Reading.ofOctets document).root? = some root
    ∧ Covered e.covered root
    ∧ ∃ c, certificateOf (root.firstNamed? "X509Certificate") = .ok c

/-- Behind an assertion that asserts no more than its signature covers, another document with the same
signature and the same canonical form says the same about the host exactly when it, too, is read within
what the signature covers. -/
theorem reads_alike_iff_covered {x y : Octets} {e : Envelope} {a : Assertion}
    (hx : Envelope.ofOctets x = .ok e) (hy : Envelope.ofOctets y = .ok e)
    (hc : e.covered.canonical e.documentQualifiers x
      = e.covered.canonical e.documentQualifiers y)
    (ha : Assertion.ofOctets x = .ok a) (hcov : ReadAsCovered e x) :
    (∃ b, Assertion.ofOctets y = .ok b ∧ b.notBefore = a.notBefore
        ∧ b.notOnOrAfter = a.notOnOrAfter ∧ b.attributes = a.attributes)
      ↔ ReadAsCovered e y := by
  obtain ⟨root, _, _, hr, -⟩ := Signature.ofOctets_ok_iff.1 hx
  obtain ⟨root', _, _, hr', -⟩ := Signature.ofOctets_ok_iff.1 hy
  have halike := alike_of_canonical hr hr' e.covered_ne hc
  obtain ⟨-, _, hra, hel⟩ := ofOctets_ok_iff.1 ha
  obtain rfl := Option.some.inj (hr.symm.trans hra)
  obtain ⟨hbase, hnb, hno, hat, -⟩ := ofElement_ok_iff.1 hel
  obtain ⟨-, _, hrc, hcovx, -⟩ := hcov
  obtain rfl := Option.some.inj (hr.symm.trans hrc)
  -- what the first document says is what the canonical form says, so it is the same in the second
  have hshown : (Node.preorderAll (e.covered.keep root'.children)).filterMap canonicallyAsserted?
      = a.attributes := by
    rw [← filterMap_congr_of_alike canonicallyAsserted?_congr halike.preorder]
    exact ((attributes_eq_iff rfl).2 ⟨hcovx.outside, hcovx.inside⟩).symm.trans hat
  have hnb' : canonicalBound e.covered "NotBefore" root' = .ok a.notBefore := by
    rw [← canonicalBound_congr _ halike.preorder, ← hcovx.notBefore, hnb]
  have hno' : canonicalBound e.covered "NotOnOrAfter" root' = .ok a.notOnOrAfter := by
    rw [← canonicalBound_congr _ halike.preorder, ← hcovx.notOnOrAfter, hno]
  constructor
  · rintro ⟨b, hb, hbnb, hbno, hbat⟩
    obtain ⟨hlen, _, hrb, helb⟩ := ofOctets_ok_iff.1 hb
    obtain rfl := Option.some.inj (hr'.symm.trans hrb)
    obtain ⟨-, hnb'', hno'', hat', hcert⟩ := ofElement_ok_iff.1 helb
    obtain ⟨houtside, hinside⟩ := (attributes_eq_iff hshown).1 (hat'.trans hbat)
    refine ⟨hlen, root', hr', ⟨houtside, hinside, ?_, ?_⟩, _, hcert⟩
    · rw [hnb'', hnb', hbnb]
    · rw [hno'', hno', hbno]
  · rintro ⟨hlen, _, hrb, hcovy, c, hcert⟩
    obtain rfl := Option.some.inj (hr'.symm.trans hrb)
    have hbase' : root'.tag.name.base = "Assertion" := by
      rw [← show root.tag.name = root'.tag.name from halike.name, hbase]
    have hread : ofElement root' = .ok ⟨a.notBefore, a.notOnOrAfter, a.attributes, c⟩ :=
      ofElement_ok_iff.2 ⟨hbase', hcovy.notBefore.trans hnb', hcovy.notOnOrAfter.trans hno',
        (attributes_eq_iff hshown).2 ⟨hcovy.outside, hcovy.inside⟩, hcert⟩
    exact ⟨_, ofOctets_ok_iff.2 ⟨hlen, root', hr', hread⟩, rfl, rfl, rfl⟩

/-- A report up to where its signature could end. -/
def reportOpening : String :=
  "<Assertion xmlns:d=\"http://www.w3.org/2000/09/xmldsig#\">
  <d:Signature><d:SignedInfo>
    <d:CanonicalizationMethod Algorithm=\"http://www.w3.org/2001/10/xml-exc-c14n#\"/>
    <d:SignatureMethod Algorithm=\"http://www.w3.org/2001/04/xmldsig-more#rsa-sha256\"/>
    <d:Reference><d:Transforms>
      <d:Transform Algorithm=\"http://www.w3.org/2000/09/xmldsig#enveloped-signature\"/>
      <d:Transform Algorithm=\"http://www.w3.org/2001/10/xml-exc-c14n#\"/>
    </d:Transforms>
    <d:DigestMethod Algorithm=\"http://www.w3.org/2001/04/xmlenc#sha256\"/>
    <d:DigestValue>AA==</d:DigestValue></d:Reference>
  </d:SignedInfo><d:SignatureValue>AA==</d:SignatureValue>"

/-- The rest of the report, that the host is not trusted. -/
def reportClosing : String :=
  "</d:Signature>
  <Attribute Name=\"TRUST_OVERALL\"><AttributeValue>false</AttributeValue></Attribute>
</Assertion>"

/-- An object for a signature, which asserts that the host is trusted. -/
def trustingObject : String :=
  "<d:Object><Attribute Name=\"TRUST_OVERALL\">
    <AttributeValue>true</AttributeValue>
  </Attribute></d:Object>"

/-- A report under a signature that has more inside than it needs. -/
def signedReport (more : String) : Octets :=
  Text.encode (reportOpening ++ more ++ reportClosing)

/-- The envelope of the report, whatever more its signature has inside. -/
def reportEnvelope : Envelope :=
  ⟨[], .sha256, true, [], .sha256, [0], [0], none⟩

/-- An assertion without a window that says something about the host as a whole. -/
def overall (values : List String) : Assertion :=
  ⟨none, none, values.map (⟨"TRUST_OVERALL", ·⟩), none⟩

/-- What is evaluated of the document elements of two reports. -/
def Misleading (root root' : Element) : Prop :=
  Envelope.ofElement root = .ok reportEnvelope ∧ Envelope.ofElement root' = .ok reportEnvelope
    ∧ infoEvents? root = infoEvents? root'
    ∧ Canonical.text [] (.element root.tag (Region.enveloped.keep root.children))
      = Canonical.text [] (.element root'.tag (Region.enveloped.keep root'.children))
    ∧ ofElement root = .ok (overall ["false"])
    ∧ ofElement root' = .ok (overall ["true", "false"])
    ∧ Covered .enveloped root

instance (root root' : Element) : Decidable (Misleading root root') :=
  inferInstanceAs (Decidable (_ ∧ _))

/-- A report is read from its characters. -/
theorem reading_signedReport (more : String) : Reading.ofOctets (signedReport more)
    = .ofManuscript ⟨.first, false,
      reportOpening.toList ++ more.toList ++ reportClosing.toList, true⟩ := by
  obtain ⟨cs, hcs⟩ : ∃ cs, reportOpening.toList = '<' :: 'A' :: cs := by
    unfold reportOpening
    rw [String.toList_ofList]
    exact ⟨_, rfl⟩
  exact Reading.ofOctets_encode_between hcs (by decide)

theorem length_signedReport {more : String} (h : more.length ≤ 1000) :
    (signedReport more).length ≤ sizeLimit := by
  have hopening : reportOpening.length ≤ 1000 := by
    rw [← String.length_toList, reportOpening, String.toList_ofList]
    decide +kernel
  have hclosing : reportClosing.length ≤ 1000 := by
    rw [← String.length_toList, reportClosing, String.toList_ofList]
    decide +kernel
  have hall := Text.length_encode_le (reportOpening ++ more ++ reportClosing)
  rw [String.length_append, String.length_append] at hall
  unfold signedReport sizeLimit
  omega

/-- The document elements of the two reports. -/
theorem signedReport_roots : ∃ root root', (Reading.ofOctets (signedReport "")).root? = some root
    ∧ (Reading.ofOctets (signedReport trustingObject)).root? = some root'
    ∧ Misleading root root' := by
  have h : (Reading.ofOctets (signedReport "")).root?.any (fun root =>
      (Reading.ofOctets (signedReport trustingObject)).root?.any fun root' =>
        decide (Misleading root root')) = true := by
    rw [reading_signedReport, reading_signedReport]
    unfold reportOpening reportClosing trustingObject
    repeat rw [String.toList_ofList]
    decide +kernel
  simp only [Option.any_eq_true, decide_eq_true_eq] at h
  obtain ⟨root, hr, root', hr', hm⟩ := h
  exact ⟨root, root', hr, hr', hm⟩

/-- The two reports differ only in what a signature leaves out, and say the opposite. -/
theorem signedReport_readings :
    Envelope.ofOctets (signedReport "") = .ok reportEnvelope
    ∧ Envelope.ofOctets (signedReport trustingObject) = .ok reportEnvelope
    ∧ Region.enveloped.canonical [] (signedReport "")
      = Region.enveloped.canonical [] (signedReport trustingObject)
    ∧ Region.signedInfo.canonical [] (signedReport "")
      = Region.signedInfo.canonical [] (signedReport trustingObject)
    ∧ Assertion.ofOctets (signedReport "") = .ok (overall ["false"])
    ∧ Assertion.ofOctets (signedReport trustingObject) = .ok (overall ["true", "false"])
    ∧ ReadAsCovered reportEnvelope (signedReport "") := by
  obtain ⟨root, root', hr, hr', he, he', hinfo, hkept, ha, hb, hcov⟩ := signedReport_roots
  have hobject : trustingObject.length ≤ 1000 := by
    rw [← String.length_toList, trustingObject, String.toList_ofList]
    decide
  have hlen : (signedReport "").length ≤ sizeLimit := length_signedReport (by decide)
  have hlen' : (signedReport trustingObject).length ≤ sizeLimit := length_signedReport hobject
  refine ⟨?_, ?_, ?_, ?_, ?_, ?_, ?_⟩
  · rw [Envelope.ofOctets, hr]
    exact he
  · rw [Envelope.ofOctets, hr']
    exact he'
  · rw [covered_canonical hr _ (by decide), covered_canonical hr' _ (by decide), hkept]
  · exact signedInfo_canonical_congr hr hr' he he' hinfo []
  · exact ofOctets_ok_iff.2 ⟨hlen, root, hr, ha⟩
  · exact ofOctets_ok_iff.2 ⟨hlen', root', hr', hb⟩
  · exact ⟨hlen, root, hr, hcov, _, (ofElement_ok_iff.1 ha).2.2.2.2⟩

theorem trusting_report_attributes {b : Assertion}
    (h : Assertion.ofOctets (signedReport trustingObject) = .ok b) :
    b.attributes ≠ (overall ["false"]).attributes := by
  obtain ⟨-, -, -, -, -, hb, -⟩ := signedReport_readings
  rw [hb] at h
  cases h
  decide

/-- The object takes the report out of what its signature covers. -/
theorem trusting_report_uncovered : ReadAsCovered reportEnvelope (signedReport "")
    ∧ ¬ ReadAsCovered reportEnvelope (signedReport trustingObject) := by
  obtain ⟨hx, hy, hc, -, ha, -, hcov⟩ := signedReport_readings
  refine ⟨hcov, fun hcovy => ?_⟩
  obtain ⟨b, hb, -, -, hattributes⟩ := (reads_alike_iff_covered hx hy hc ha hcov).2 hcovy
  exact trusting_report_attributes hb hattributes

/-- One signature and one canonical form do not make two documents say the same: the reader finds in
the signature what the signature leaves out. -/
theorem same_signature_reads_differently : ¬ ∀ (x y : Octets) (e : Envelope) (a : Assertion),
    Envelope.ofOctets x = .ok e → Envelope.ofOctets y = .ok e →
    e.covered.canonical e.documentQualifiers x = e.covered.canonical e.documentQualifiers y →
    Region.signedInfo.canonical e.infoQualifiers x
      = Region.signedInfo.canonical e.infoQualifiers y →
    Assertion.ofOctets x = .ok a →
    ∃ b, Assertion.ofOctets y = .ok b ∧ b.notBefore = a.notBefore
      ∧ b.notOnOrAfter = a.notOnOrAfter ∧ b.attributes = a.attributes := by
  intro h
  obtain ⟨hx, hy, hc, hi, ha, -, -⟩ := signedReport_readings
  obtain ⟨b, hb, -, -, hattributes⟩ := h _ _ _ _ hx hy hc hi ha
  exact trusting_report_attributes hb hattributes

end ImageTrust.Assertion
