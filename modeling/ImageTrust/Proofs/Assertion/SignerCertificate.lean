import ImageTrust.Proofs.Assertion.Coverage
import ImageTrust.Proofs.Assertion.Signer
import ImageTrust.Proofs.Xml.Search

/-!
The certificate that an assertion names and the one that came with its signature. The reader of
signatures goes from the signature to its key information and on; the reader of assertions takes the
first element with the base name of certificates, wherever it stands. Both name the same certificate
exactly when nothing ahead of the signer's certificate is taken for it.
-/

namespace ImageTrust.Assertion

open ImageTrust.Xml ImageTrust.Signature

/-- A child of an element, the first of its like; `ahead` are the elements before it, in order. -/
def StandsBehind (e child : Element) (ahead : List Element) : Prop :=
  ∃ before after, e.children = before ++ child.node :: after ∧ child.node ∉ before
    ∧ ahead = Node.preorderAll before

/-- The certificate of the signer is the first one in the key information of the only signature;
`ahead` are the elements that stand before it in the document element. -/
structure SignerAt (root : Element) (ahead : List Element) (c : Element) : Prop where
  path : ∃ signature keyInfo data a₁ a₂ a₃ a₄,
    parts root "Signature" = [signature]
    ∧ (parts signature "KeyInfo").find? (fun k => !(certificatesOf k).isEmpty) = some keyInfo
    ∧ (parts keyInfo "X509Data").find? (fun d => !(parts d "X509Certificate").isEmpty) = some data
    ∧ (parts data "X509Certificate").head? = some c
    ∧ StandsBehind root signature a₁ ∧ StandsBehind signature keyInfo a₂
    ∧ StandsBehind keyInfo data a₃ ∧ StandsBehind data c a₄
    ∧ ahead = a₁ ++ signature :: (a₂ ++ keyInfo :: (a₃ ++ data :: a₄))

/-- An element whose text is the base64 of a certificate. -/
def Holds (e : Element) (certificate : Octets) : Prop :=
  ∃ text, e.text? = some text ∧ octetsOf text = .ok certificate

section Path

variable {root e child c : Element} {name : String}

theorem child_of_part (h : child ∈ parts e name) : ∃ ahead, StandsBehind e child ahead := by
  have hmem : child.node ∈ e.children := node_mem_of_elements (List.mem_filter.1 h).1
  obtain ⟨before, after, hsplit, hfirst⟩ := List.eq_append_cons_of_mem hmem
  exact ⟨_, before, after, hsplit, hfirst, rfl⟩

/-- What is inside a child follows it in document order, and what is ahead of it comes before. -/
theorem StandsBehind.order {ahead : List Element} (h : StandsBehind e child ahead) :
    ∃ behind, Node.preorderAll e.children
      = ahead ++ child :: (Node.preorderAll child.children ++ behind) := by
  obtain ⟨before, after, hsplit, -, rfl⟩ := h
  refine ⟨Node.preorderAll after, ?_⟩
  simp only [hsplit, Node.preorderAll_eq_flatMap, List.flatMap_append, List.flatMap_cons,
    Element.node, Node.preorder, List.cons_append]

theorem SignerAt.order {ahead : List Element} (h : SignerAt root ahead c) :
    ∃ behind, Node.preorderAll root.children = ahead ++ c :: behind := by
  obtain ⟨signature, keyInfo, data, a₁, a₂, a₃, a₄, -, -, -, -, h₁, h₂, h₃, h₄, rfl⟩ := h.path
  obtain ⟨b₁, h₁⟩ := h₁.order
  obtain ⟨b₂, h₂⟩ := h₂.order
  obtain ⟨b₃, h₃⟩ := h₃.order
  obtain ⟨b₄, h₄⟩ := h₄.order
  refine ⟨Node.preorderAll c.children ++ b₄ ++ b₃ ++ b₂ ++ b₁, ?_⟩
  rw [h₁, h₂, h₃, h₄]
  simp only [List.append_assoc, List.cons_append]

/-- The first of what is found part by part is in the first part where something is found. -/
theorem head?_flatMap_eq_some_iff {α β : Type} {f : α → List β} {l : List α} {b : β} :
    (l.flatMap f).head? = some b
      ↔ ∃ a, l.find? (fun a => !(f a).isEmpty) = some a ∧ (f a).head? = some b := by
  induction l with
  | nil => simp
  | cons a l ih =>
    rw [List.flatMap_cons, List.find?_cons]
    cases ha : f a with
    | nil => simpa using ih
    | cons b' bs => simp [ha]

/-- The first certificate of a signature has its place in the document element. -/
theorem signerAt_of_head {signature : Element} (hs : parts root "Signature" = [signature])
    (hc : (certificates signature).head? = some c) : ∃ ahead, SignerAt root ahead c := by
  obtain ⟨keyInfo, hk, hc⟩ := head?_flatMap_eq_some_iff.1 hc
  obtain ⟨data, hd, hc⟩ := head?_flatMap_eq_some_iff.1 hc
  obtain ⟨a₁, h₁⟩ := child_of_part (hs ▸ List.mem_singleton_self signature)
  obtain ⟨a₂, h₂⟩ := child_of_part (List.mem_of_find?_eq_some hk)
  obtain ⟨a₃, h₃⟩ := child_of_part (List.mem_of_find?_eq_some hd)
  obtain ⟨a₄, h₄⟩ := child_of_part (List.mem_of_head? hc)
  exact ⟨_, ⟨signature, keyInfo, data, a₁, a₂, a₃, a₄, hs, hk, hd, hc, h₁, h₂, h₃, h₄, rfl⟩⟩

theorem SignerAt.base {ahead : List Element} (h : SignerAt root ahead c) :
    c.tag.name.base = "X509Certificate" := by
  obtain ⟨_, _, _, _, _, _, _, -, -, -, hc, -⟩ := h.path
  have hnamed := (List.mem_filter.1 (List.mem_of_head? hc)).2
  simp only [Tag.isNamed, Bool.and_eq_true, decide_eq_true_eq] at hnamed
  exact hnamed.1

end Path

theorem octetsOf_ok_iff {text : String} {octets : Octets} :
    octetsOf text = .ok octets ↔ Base64.decode (Text.withoutAsciiBlanks text) = .ok octets :=
  mapError_ok_iff _ _ _

theorem certificateOf_some_iff {e : Element} {certificate : Octets} :
    certificateOf (some e) = .ok (some certificate) ↔ Holds e certificate := by
  unfold certificateOf Holds
  simp only [Option.bind_some, octetsOf_ok_iff]
  cases e.text? with
  | none => simp
  | some text => cases hdecode : Base64.decode (Text.withoutAsciiBlanks text) <;> simp [hdecode]

/-- Both readers name the same certificate exactly when the first element ahead of the signer's that
has the base name of certificates, if there is one, holds the same. -/
theorem signer_named_alike_iff {document : Octets} {a : Assertion} {e : Envelope} {signer : Octets}
    (ha : Assertion.ofOctets document = .ok a) (he : Envelope.ofOctets document = .ok e)
    (hsigner : e.certificate = some signer) :
    ∃ root ahead c, (Reading.ofOctets document).root? = some root ∧ SignerAt root ahead c
      ∧ Holds c signer
      ∧ (a.certificate = some signer
        ↔ ∀ first, ahead.find? (·.tag.name.base = "X509Certificate") = some first →
          Holds first signer) := by
  obtain ⟨root, signature, info, hroot, hwritten⟩ := Signature.ofOctets_ok_iff.1 he
  obtain ⟨-, root', hroot', ha⟩ := ofOctets_ok_iff.1 ha
  cases hroot.symm.trans hroot'
  obtain ⟨-, -, -, -, hcertificate⟩ := ofElement_ok_iff.1 ha
  obtain ⟨c, text, hc, htext, hoctets⟩ :=
    certificate?_ok_iff.1 (hwritten.certificate.trans (congrArg Except.ok hsigner))
  obtain ⟨ahead, hat⟩ := signerAt_of_head hwritten.only hc
  obtain ⟨behind, horder⟩ := hat.order
  refine ⟨root, ahead, c, hroot, hat, ⟨text, htext, hoctets⟩, ?_⟩
  rw [Element.firstNamed?_eq, horder, List.find?_append] at hcertificate
  cases hfirst : ahead.find? (·.tag.name.base = "X509Certificate") with
  | none =>
    rw [hfirst, Option.none_or, List.find?_cons_of_pos (by simpa using hat.base)] at hcertificate
    refine iff_of_true (Except.ok.inj (hcertificate.symm.trans ?_)) nofun
    exact certificateOf_some_iff.2 ⟨text, htext, hoctets⟩
  | some first =>
    rw [hfirst, Option.some_or] at hcertificate
    simp only [Option.some.injEq, forall_eq']
    rw [← certificateOf_some_iff, hcertificate, Except.ok.injEq]

section Documents

def namingOpening : String :=
  "<Assertion xmlns:d=\"http://www.w3.org/2000/09/xmldsig#\">"

/-- A signature with the certificate of its signer, and the end of the assertion around it. -/
def namingClosing : String :=
  "<d:Signature><d:SignedInfo>
    <d:CanonicalizationMethod Algorithm=\"http://www.w3.org/2001/10/xml-exc-c14n#\"/>
    <d:SignatureMethod Algorithm=\"http://www.w3.org/2001/04/xmldsig-more#rsa-sha256\"/>
    <d:Reference><d:Transforms>
      <d:Transform Algorithm=\"http://www.w3.org/2000/09/xmldsig#enveloped-signature\"/>
      <d:Transform Algorithm=\"http://www.w3.org/2001/10/xml-exc-c14n#\"/>
    </d:Transforms>
    <d:DigestMethod Algorithm=\"http://www.w3.org/2001/04/xmlenc#sha256\"/>
    <d:DigestValue>AA==</d:DigestValue></d:Reference>
  </d:SignedInfo><d:SignatureValue>AA==</d:SignatureValue>
  <d:KeyInfo><d:X509Data><d:X509Certificate>AA==</d:X509Certificate></d:X509Data></d:KeyInfo>
  </d:Signature></Assertion>"

/-- A certificate of somebody else, which no signature came with. -/
def foreignCertificate : String :=
  "<X509Certificate>AQ==</X509Certificate>"

/-- An assertion with something in front of its signature. -/
def namingReport (front : String) : Octets :=
  Text.encode (namingOpening ++ front ++ namingClosing)

def namingEnvelope : Envelope :=
  ⟨[], .sha256, true, [], .sha256, [0], [0], some [0]⟩

def namingAssertion (certificate : Octets) : Assertion :=
  ⟨none, none, [], some certificate⟩

/-- What both readers make of the document element of a report. -/
def ReadsNaming (certificate : Octets) (root : Element) : Prop :=
  Envelope.ofElement root = .ok namingEnvelope ∧ ofElement root = .ok (namingAssertion certificate)

instance (certificate : Octets) (root : Element) : Decidable (ReadsNaming certificate root) :=
  inferInstanceAs (Decidable (_ ∧ _))

theorem reading_namingReport (front : String) : Reading.ofOctets (namingReport front)
    = .ofManuscript ⟨.first, false,
      namingOpening.toList ++ front.toList ++ namingClosing.toList, true⟩ := by
  obtain ⟨cs, hcs⟩ : ∃ cs, namingOpening.toList = '<' :: 'A' :: cs := by
    unfold namingOpening
    rw [String.toList_ofList]
    exact ⟨_, rfl⟩
  exact Reading.ofOctets_encode_between hcs (by decide)

theorem length_namingReport {front : String} (h : front.length ≤ 1000) :
    (namingReport front).length ≤ sizeLimit := by
  have hopening : namingOpening.length ≤ 1000 := by
    rw [← String.length_toList, namingOpening, String.toList_ofList]
    decide +kernel
  have hclosing : namingClosing.length ≤ 2000 := by
    rw [← String.length_toList, namingClosing, String.toList_ofList]
    decide +kernel
  have hall := Text.length_encode_le (namingOpening ++ front ++ namingClosing)
  rw [String.length_append, String.length_append] at hall
  unfold namingReport sizeLimit
  omega

/-- What is read of a document element is read of its document. -/
theorem reads_of_root {front : String} {certificate : Octets} (hlength : front.length ≤ 1000)
    (h : (Reading.ofOctets (namingReport front)).root?.any (ReadsNaming certificate ·) = true) :
    Envelope.ofOctets (namingReport front) = .ok namingEnvelope
      ∧ Assertion.ofOctets (namingReport front) = .ok (namingAssertion certificate) := by
  simp only [Option.any_eq_true, decide_eq_true_eq] at h
  obtain ⟨root, hroot, he, ha⟩ := h
  refine ⟨?_, ofOctets_ok_iff.2 ⟨length_namingReport hlength, root, hroot, ha⟩⟩
  rw [Envelope.ofOctets, hroot]
  exact he

theorem plain_report_reads : Envelope.ofOctets (namingReport "") = .ok namingEnvelope
    ∧ Assertion.ofOctets (namingReport "") = .ok (namingAssertion [0]) := by
  refine reads_of_root (by decide) ?_
  rw [reading_namingReport]
  unfold namingOpening namingClosing
  repeat rw [String.toList_ofList]
  decide +kernel

theorem foreign_report_reads : Envelope.ofOctets (namingReport foreignCertificate) = .ok namingEnvelope
    ∧ Assertion.ofOctets (namingReport foreignCertificate) = .ok (namingAssertion [1]) := by
  have hlength : foreignCertificate.length ≤ 1000 := by
    rw [← String.length_toList, foreignCertificate, String.toList_ofList]
    decide
  refine reads_of_root hlength ?_
  rw [reading_namingReport]
  unfold namingOpening namingClosing foreignCertificate
  repeat rw [String.toList_ofList]
  decide +kernel

/-- Nothing stands ahead of the signer's certificate in the plain report, and both readers name it. -/
theorem plain_report_named_alike : ∃ root ahead c,
    (Reading.ofOctets (namingReport "")).root? = some root ∧ SignerAt root ahead c
      ∧ Holds c [0] ∧ ∀ first, ahead.find? (·.tag.name.base = "X509Certificate") = some first →
        Holds first [0] := by
  obtain ⟨he, ha⟩ := plain_report_reads
  obtain ⟨root, ahead, c, hroot, hat, hc, hiff⟩ := signer_named_alike_iff ha he rfl
  exact ⟨root, ahead, c, hroot, hat, hc, hiff.1 rfl⟩

/-- A certificate ahead of the signature is taken for the signer's. -/
theorem signer_named_differently : ¬ ∀ (document : Octets) (a : Assertion) (e : Envelope)
    (signer : Octets), Assertion.ofOctets document = .ok a → Envelope.ofOctets document = .ok e →
      e.certificate = some signer → a.certificate = some signer := by
  intro h
  obtain ⟨he, ha⟩ := foreign_report_reads
  exact absurd (h _ _ _ _ ha he rfl) (by decide)

end Documents

end ImageTrust.Assertion
