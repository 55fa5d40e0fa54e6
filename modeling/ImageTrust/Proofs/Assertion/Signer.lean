import ImageTrust.Assertion.Signer
import ImageTrust.Proofs.Signature.Envelope

/-!
What an accepted assertion amounts to. Its document is read four times, twice as a tree and twice as a
sequence of tags. All readings speak of one signature: the signed information that names the digest is
the one whose canonical form the key signed, the digest is that of the document element around this
signature, and the key is that of the certificate in it, which led to an authority.
-/

namespace ImageTrust.Assertion

open ImageTrust.X509 ImageTrust.Xml ImageTrust.Signature

/-- The certificates in one part of the key information of a signature. -/
def certificatesOf (keyInfo : Element) : List Element :=
  (parts keyInfo "X509Data").flatMap fun d => parts d "X509Certificate"

/-- The certificates in the key information of a signature, in document order. -/
def certificates (signature : Element) : List Element :=
  (parts signature "KeyInfo").flatMap certificatesOf

/-- A certificate leads to an authority out of a file or to one of the roots. -/
def LeadsToAuthority (p : Pki) (t : FileTree) (now : Instant) (authorityFile : String)
    (roots : List Octets) (signer : Octets) : Prop :=
  ∃ bundle anchors leaf, Bundle.read p t authorityFile = .ok bundle
    ∧ (bundle ++ roots).mapM p.anchor = .ok anchors
    ∧ p.leaf signer = .ok leaf
    ∧ p.validate anchors bundle now leaf = .ok ()

/-- The document element with what its signature leaves out. -/
def remaining (e : Envelope) (root : Element) (before after : List Node) : Node :=
  .element root.tag (if e.enveloped then before ++ after else root.children)

/-- A document is signed by a certificate: `signature` is the only signature of the document element
and `info` the first signed information in it. -/
structure Signed (p : Pki) (document : Octets) (e : Envelope) (root signature info : Element)
    (signer : Octets) : Prop where
  read : (Reading.ofOctets document).root? = some root
  written : e.WrittenIn root signature info
  /-- The scan for the signed information comes to the node that was read. -/
  scanned : ∀ listed, Region.signedInfo.canonical listed document
    = .ok (Canonical.text listed info.node)
  certificate : ∃ c text, (certificates signature).head? = some c ∧ c.text? = some text
    ∧ octetsOf text = .ok signer
  digest : ∃ before after, root.children = before ++ signature.node :: after
    ∧ e.digest.apply (Text.encode
      (Canonical.text e.documentQualifiers (remaining e root before after))) = e.digestValue
  value : ∃ c k, p.certificate? signer = some c ∧ p.rsaKey? c = some k
    ∧ p.verifies k e.signatureDigest (e.signatureDigest.apply (Text.encode
      (Canonical.text e.infoQualifiers info.node))) e.value = true

theorem certificate?_ok_iff {signature : Element} {signer : Octets} :
    certificate? signature = .ok (some signer) ↔ ∃ c text,
      (certificates signature).head? = some c ∧ c.text? = some text
        ∧ octetsOf text = .ok signer := by
  have hc : certificate? signature = ((certificates signature).head?.bind (·.text?)).elim
      (.ok none) fun text => (octetsOf text).map some := by
    unfold certificate? certificates certificatesOf
    dsimp only
    split
    · rename_i h
      rw [h]
      rfl
    · rename_i h
      rw [h]
      rfl
  rw [hc]
  cases (certificates signature).head? with
  | none => simp
  | some c =>
    cases ht : c.text? with
    | none => simp [ht]
    | some text =>
      cases ho : octetsOf text with
      | error fault => simp [ht, ho, Except.map]
      | ok octets => simp [ht, ho, Except.map]

section Checks

variable {p : Pki} {document : Octets} {e : Envelope} {root signature info : Element}

theorem checkDigest_ok_iff (hr : (Reading.ofOctets document).root? = some root)
    (hs : parts root "Signature" = [signature]) :
    e.checkDigest document = .ok () ↔ ∃ before after,
      root.children = before ++ signature.node :: after
        ∧ e.digest.apply (Text.encode
          (Canonical.text e.documentQualifiers (remaining e root before after)))
          = e.digestValue := by
  have hkeep : ∀ before after, root.children = before ++ signature.node :: after →
      Node.element root.tag (e.covered.keep root.children) = remaining e root before after := by
    intro before after hc
    unfold remaining Envelope.covered
    cases e.enveloped with
    | false => rfl
    | true => simp [Region.keep, removed_of_split hs hc]
  unfold Envelope.checkDigest
  simp only [covered_canonical hr e.covered e.covered_ne, bind_ok_iff, Except.ok.injEq, exists_eq_left']
  obtain ⟨before, after, hc⟩ := split_at_signature hs
  constructor
  · intro h
    refine ⟨before, after, hc, ?_⟩
    rw [← hkeep before after hc]
    split_ifs at h with hd
    exact hd
  · rintro ⟨before', after', hc', hd⟩
    rw [hkeep before' after' hc', if_pos hd]
    rfl

theorem checkValue_ok_iff {c : p.Certificate}
    (h : Region.signedInfo.canonical e.infoQualifiers document
      = .ok (Canonical.text e.infoQualifiers info.node)) :
    e.checkValue p document c = .ok () ↔ ∃ k, p.rsaKey? c = some k
      ∧ p.verifies k e.signatureDigest (e.signatureDigest.apply (Text.encode
        (Canonical.text e.infoQualifiers info.node))) e.value = true := by
  unfold Envelope.checkValue
  simp only [h, bind_ok_iff, Except.ok.injEq, exists_eq_left']
  cases p.rsaKey? c with
  | none => simp [throw, throwThe, MonadExceptOf.throw]
  | some k =>
    simp only [Option.some.injEq, exists_eq_left']
    split_ifs with hv
    · exact ⟨fun _ => hv, fun _ => rfl⟩
    · exact ⟨nofun, fun h => absurd h hv⟩

end Checks

/-- What is read as signed is what the scan for the signed information comes to. -/
theorem envelope_scanned {document : Octets} {e : Envelope} :
    Envelope.ofOctets document = .ok e ↔ ∃ root signature info,
      (Reading.ofOctets document).root? = some root ∧ e.WrittenIn root signature info
        ∧ ∀ listed, Region.signedInfo.canonical listed document
          = .ok (Canonical.text listed info.node) := by
  rw [ofOctets_ok_iff]
  constructor
  · rintro ⟨root, signature, info, hr, hw⟩
    exact ⟨root, signature, info, hr, hw, signedInfo_canonical hr hw.only hw.first⟩
  · rintro ⟨root, signature, info, hr, hw, -⟩
    exact ⟨root, signature, info, hr, hw⟩

theorem verify_ok_iff {p : Pki} {document : Octets} {e : Envelope} {c : p.Certificate} :
    e.verify p document c = .ok ()
      ↔ e.checkDigest document = .ok () ∧ e.checkValue p document c = .ok () := by
  simp only [Envelope.verify, bind_ok_iff]
  exact ⟨fun ⟨(), hd, hv⟩ => ⟨hd, hv⟩, fun ⟨hd, hv⟩ => ⟨(), hd, hv⟩⟩

/-- An assertion is accepted exactly when it can be read and is signed by a certificate that leads to
an authority. Whatever can be read as signed can be scanned for what was signed. -/
theorem accepted_assertion_signed (p : Pki) (t : FileTree) (now : Instant) (authorityFile : String)
    (roots : List Octets) (document : Octets) :
    (verifySigner p t now authorityFile roots document = .ok () ↔
      (∃ a, Assertion.ofOctets document = .ok a) ∧ ∃ e root signature info signer,
        Signed p document e root signature info signer
          ∧ LeadsToAuthority p t now authorityFile roots signer)
    ∧ ∀ e, Envelope.ofOctets document = .ok e ↔ ∃ root signature info,
        (Reading.ofOctets document).root? = some root ∧ e.WrittenIn root signature info
          ∧ ∀ listed, Region.signedInfo.canonical listed document
            = .ok (Canonical.text listed info.node) := by
  refine ⟨?_, fun e => envelope_scanned⟩
  unfold verifySigner
  simp only [bind_ok_iff, mapError_ok_iff, envelope_scanned]
  constructor
  · rintro ⟨a, ha, e, ⟨root, signature, info, hr, hw, hscan⟩, h⟩
    split at h
    · rename_i signer hs
      simp only [bind_ok_iff, mapError_ok_iff] at h
      obtain ⟨bundle, hb, anchors, han, leaf, hl, ⟨⟩, hp, h⟩ := h
      split at h
      · rename_i c hc
        rw [mapError_ok_iff, verify_ok_iff, checkDigest_ok_iff hr hw.only,
          checkValue_ok_iff (hscan _)] at h
        obtain ⟨hd, k, hk, hv⟩ := h
        exact ⟨⟨a, ha⟩, e, root, signature, info, signer,
          ⟨hr, hw, hscan, certificate?_ok_iff.1 (hs ▸ hw.certificate), hd, c, k, hc, hk, hv⟩,
          bundle, anchors, leaf, hb, han, hl, hp⟩
      · cases h
    · cases h
  · rintro ⟨⟨a, ha⟩, e, root, signature, info, signer, h,
      bundle, anchors, leaf, hb, han, hl, hp⟩
    obtain ⟨c, k, hc, hk, hv⟩ := h.value
    refine ⟨a, ha, e, ⟨root, signature, info, h.read, h.written, h.scanned⟩, ?_⟩
    have hs : e.certificate = some signer := by
      have hcert := certificate?_ok_iff.2 h.certificate
      rw [h.written.certificate] at hcert
      exact Except.ok.inj hcert
    simp only [hs, bind_ok_iff, mapError_ok_iff]
    refine ⟨bundle, hb, anchors, han, leaf, hl, (), hp, ?_⟩
    simp only [hc, mapError_ok_iff]
    rw [verify_ok_iff, checkDigest_ok_iff h.read h.written.only, checkValue_ok_iff (h.scanned _)]
    exact ⟨h.digest, k, hk, hv⟩

end ImageTrust.Assertion
