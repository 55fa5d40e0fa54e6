import ImageTrust.Proofs.Fallible
import ImageTrust.Proofs.Signature.Located
import ImageTrust.Signature.Verify

/-!
What it takes for a document to be read as signed, and that the signed information which is read is the
one whose canonical form is signed. The reader of signatures looks for elements by name in a tree; the
scan of regions counts tags. Both come to the same signature and to the same signed information.
-/

namespace ImageTrust.Signature

open ImageTrust.Xml

section Parts

variable {e root info signature r : Element} {name : String}

theorem part_ok_iff : part e name = .ok r ↔ (parts e name).head? = some r := by
  unfold part
  cases parts e name <;> simp

theorem algorithm_ok_iff {a : String} :
    algorithm e = .ok a ↔ e.tag.attribute? "Algorithm" = some a := by
  unfold algorithm
  cases e.tag.attribute? "Algorithm" <;> simp

theorem onlySignature_ok_iff :
    onlySignature root = .ok signature ↔ parts root "Signature" = [signature] := by
  unfold onlySignature
  split <;> simp_all

/-- A reference means the document element, by an empty address or by its name. -/
def RefersTo (r root : Element) : Prop :=
  (r.tag.attribute? "URI").getD "" = ""
    ∨ (root.tag.attribute? "ID").getD "" ≠ ""
      ∧ (r.tag.attribute? "URI").getD "" = "#" ++ (root.tag.attribute? "ID").getD ""

theorem onlyReference_ok_iff :
    onlyReference root info = .ok r ↔ parts info "Reference" = [r] ∧ RefersTo r root := by
  unfold onlyReference RefersTo
  split
  · rename_i s hs
    rw [hs]
    dsimp only
    split_ifs with h
    · simp only [Bool.or_eq_true, String.isEmpty_iff, Bool.and_eq_true, Bool.not_eq_true',
        decide_eq_true_eq, ← Bool.not_eq_true, String.isEmpty_iff] at h
      constructor
      · intro hr
        cases hr
        exact ⟨rfl, h⟩
      · rintro ⟨hr, -⟩
        cases hr
        rfl
    · simp only [Bool.or_eq_true, String.isEmpty_iff, Bool.and_eq_true, Bool.not_eq_true',
        decide_eq_true_eq, ← Bool.not_eq_true, String.isEmpty_iff] at h
      constructor
      · intro hr
        cases hr
      · rintro ⟨hr, ht⟩
        cases hr
        exact absurd ht h
  · simp_all

end Parts

/-- What an envelope says is written in the only signature of a document element, beginning with the
first signed information in it. -/
structure Envelope.WrittenIn (e : Envelope) (root signature info : Element) : Prop where
  only : parts root "Signature" = [signature]
  first : (parts signature "SignedInfo").head? = some info
  canonicalization : ∃ m, (parts info "CanonicalizationMethod").head? = some m
    ∧ m.tag.attribute? "Algorithm" = some exclusive ∧ e.infoQualifiers = qualifiers m
  scheme : ∃ m name, (parts info "SignatureMethod").head? = some m
    ∧ m.tag.attribute? "Algorithm" = some name ∧ digestOfScheme? name = some e.signatureDigest
  reference : ∃ r, parts info "Reference" = [r] ∧ RefersTo r root
    ∧ referenceTransforms r = .ok (e.enveloped, e.documentQualifiers)
    ∧ (∃ m name, (parts r "DigestMethod").head? = some m
      ∧ m.tag.attribute? "Algorithm" = some name ∧ digestOfMethod? name = some e.digest)
    ∧ partOctets r "DigestValue" = .ok e.digestValue
  value : partOctets signature "SignatureValue" = .ok e.value
  certificate : certificate? signature = .ok e.certificate

/-- An envelope is read exactly when it is written in a signature of the document element. -/
theorem ofElement_ok_iff {root : Element} {e : Envelope} :
    Envelope.ofElement root = .ok e ↔ ∃ signature info, e.WrittenIn root signature info := by
  unfold Envelope.ofElement
  simp only [bind_ok_iff, onlySignature_ok_iff, part_ok_iff, algorithm_ok_iff]
  constructor
  · rintro ⟨signature, hs, info, hi, m, hm, method, ha, h⟩
    split_ifs at h with hx
    · cases h
    obtain rfl : method = exclusive := Decidable.not_not.1 hx
    simp only [bind_ok_iff, part_ok_iff, algorithm_ok_iff] at h
    obtain ⟨sm, hsm, scheme, hsa, h⟩ := h
    split at h
    · rename_i signatureDigest hsd
      simp only [bind_ok_iff, part_ok_iff, algorithm_ok_iff, onlyReference_ok_iff] at h
      obtain ⟨r, ⟨hr, ht⟩, steps, htr, dm, hdm, name, hda, h⟩ := h
      split at h
      · rename_i digest hd
        simp only [bind_ok_iff] at h
        obtain ⟨digestValue, hdv, value, hv, certificate, hc, h⟩ := h
        cases h
        exact ⟨signature, info, hs, hi, ⟨m, hm, ha, rfl⟩, ⟨sm, scheme, hsm, hsa, hsd⟩,
          ⟨r, hr, ht, htr, ⟨dm, name, hdm, hda, hd⟩, hdv⟩, hv, hc⟩
      · cases h
    · cases h
  · rintro ⟨signature, info, h⟩
    obtain ⟨m, hm, ha, hq⟩ := h.canonicalization
    obtain ⟨sm, scheme, hsm, hsa, hsd⟩ := h.scheme
    obtain ⟨r, hr, ht, htr, ⟨dm, name, hdm, hda, hd⟩, hdv⟩ := h.reference
    refine ⟨signature, h.only, info, h.first, m, hm, exclusive, ha, ?_⟩
    rw [if_neg (not_not_intro rfl)]
    simp only [bind_ok_iff, part_ok_iff, algorithm_ok_iff]
    refine ⟨sm, hsm, scheme, hsa, ?_⟩
    simp only [hsd, bind_ok_iff, part_ok_iff, algorithm_ok_iff, onlyReference_ok_iff]
    refine ⟨r, ⟨hr, ht⟩, _, htr, dm, hdm, name, hda, ?_⟩
    simp only [hd, bind_ok_iff]
    refine ⟨_, hdv, _, h.value, _, h.certificate, ?_⟩
    rw [← hq]
    rfl

/-- Reading the signature of a document is reading it from the document element. -/
theorem ofOctets_ok_iff {document : Octets} {e : Envelope} :
    Envelope.ofOctets document = .ok e ↔ ∃ root signature info,
      (Reading.ofOctets document).root? = some root ∧ e.WrittenIn root signature info := by
  unfold Envelope.ofOctets
  cases (Reading.ofOctets document).root? with
  | none => simp
  | some root => simp [ofElement_ok_iff]

section Located

variable {document : Octets} {root signature info : Element}

theorem head_of_root (h : (Reading.ofOctets document).root? = some root) :
    (Node.elements (Reading.ofOctets document).nodes).head? = some root := by
  unfold Reading.root? at h
  split_ifs at h
  exact h

/-- The parts of a signature among nodes are the nodes of those among the elements. -/
theorem filter_isPart (name : String) : ∀ ns : List Node, ns.filter (isPart name)
    = ((Node.elements ns).filter (·.tag.isNamed space name)).map Element.node
  | [] => rfl
  | .element t children :: ns => by
    have he : Node.elements (.element t children :: ns) = ⟨t, children⟩ :: Node.elements ns := rfl
    rw [he, List.filter_cons, List.filter_cons, filter_isPart name ns]
    cases ht : t.isNamed space name with
    | true => simp [isPart, ht, Element.node]
    | false => simp [isPart, ht]
  | .text _ :: ns | .literal _ :: ns | .instruction _ _ :: ns | .comment :: ns =>
    filter_isPart name ns

theorem filter_isPart_children (e : Element) (name : String) :
    e.children.filter (isPart name) = (parts e name).map Element.node :=
  filter_isPart name e.children

/-- The signed information that is read is the one that the scan finds, for any qualifiers. -/
theorem signedInfo_canonical (hr : (Reading.ofOctets document).root? = some root)
    (hs : parts root "Signature" = [signature])
    (hi : (parts signature "SignedInfo").head? = some info) (listed : List String) :
    Region.signedInfo.canonical listed document = .ok (Canonical.text listed info.node) := by
  have hfind : Region.signedInfo.find? (Reading.ofOctets document) = some info.node := by
    obtain ⟨more, hm⟩ := List.head?_eq_some_iff.1 (head_of_root hr)
    have hinfo : signature.children.find? (isPart "SignedInfo") = some info.node := by
      rw [← List.head?_filter, filter_isPart_children, List.head?_map, hi]
      rfl
    have hroot : signedInfo? (Node.elements root.children) = some info.node := by
      unfold signedInfo?
      rw [show (Node.elements root.children).filter (·.tag.isNamed space "Signature")
        = [signature] from hs]
      simp [hinfo]
    simp [Region.find?, secondLevel, hm, List.append_assoc, Scan.signedInfo?_append, hroot]
  rw [Region.canonical_eq, hfind]

theorem only_signature_filter (hs : parts root "Signature" = [signature]) :
    root.children.filter (isPart "Signature") = [signature.node] := by
  rw [filter_isPart_children, hs]
  rfl

/-- The only signature divides the children of the document element. -/
theorem split_at_signature (hs : parts root "Signature" = [signature]) :
    ∃ before after, root.children = before ++ signature.node :: after := by
  obtain ⟨before, after, hc, -⟩ := List.filter_eq_cons_iff.1 (only_signature_filter hs)
  exact ⟨before, after, hc⟩

/-- Where the only signature is left out, everything else remains. -/
theorem removed_of_split (hs : parts root "Signature" = [signature]) {before after : List Node}
    (hc : root.children = before ++ signature.node :: after) :
    root.children.filter (!isPart "Signature" ·) = before ++ after := by
  have hf := only_signature_filter hs
  have ht : isPart "Signature" signature.node = true :=
    List.mem_filter.1 (hf ▸ List.mem_singleton_self _) |>.2
  rw [hc, List.filter_append, List.filter_cons_of_pos ht] at hf
  have hlen := congrArg List.length hf
  simp only [List.length_append, List.length_cons, List.length_nil] at hlen
  have hb : before.filter (isPart "Signature") = [] := List.eq_nil_of_length_eq_zero (by omega)
  have ha : after.filter (isPart "Signature") = [] := List.eq_nil_of_length_eq_zero (by omega)
  have hkeep : before.filter (!isPart "Signature" ·) = before :=
    List.filter_eq_self.2 fun n hn => by simpa using List.filter_eq_nil_iff.1 hb n hn
  have hrest : after.filter (!isPart "Signature" ·) = after :=
    List.filter_eq_self.2 fun n hn => by simpa using List.filter_eq_nil_iff.1 ha n hn
  rw [hc, List.filter_append, List.filter_cons, hkeep, hrest]
  simp [ht]

/-- The document element is covered as a whole, or with nothing but its signature left out. -/
theorem covered_canonical (hr : (Reading.ofOctets document).root? = some root)
    (region : Region) (hn : region ≠ .signedInfo) (listed : List String) :
    region.canonical listed document
      = .ok (Canonical.text listed (.element root.tag (region.keep root.children))) := by
  have hfind : region.find? (Reading.ofOctets document)
      = some (.element root.tag (region.keep root.children)) := by
    cases region
    · simp [Region.find?, head_of_root hr]
    · simp [Region.find?, head_of_root hr]
    · exact absurd rfl hn
  rw [Region.canonical_eq, hfind]

theorem Envelope.covered_ne (e : Envelope) : e.covered ≠ .signedInfo := by
  unfold Envelope.covered
  split_ifs <;> decide

end Located

section SignedInfo

/-- The events of the signed information in a document element, with an end tag behind them. -/
def infoEvents? (root : Element) : Option (List Event) :=
  ((parts root "Signature").flatMap (parts · "SignedInfo")).head?.map
    (·.node.events [.stop ⟨"", "Signature"⟩])

theorem infoEvents?_of_writtenIn {root signature info : Element} {e : Envelope}
    (h : e.WrittenIn root signature info) :
    infoEvents? root = some (info.node.events [.stop ⟨"", "Signature"⟩]) := by
  simp [infoEvents?, h.only, h.first]

/-- Signed information with the same events has the same canonical form. -/
theorem signedInfo_canonical_congr {x y : Octets} {root root' : Element} {e e' : Envelope}
    (hr : (Reading.ofOctets x).root? = some root) (hr' : (Reading.ofOctets y).root? = some root')
    (he : Envelope.ofElement root = .ok e) (he' : Envelope.ofElement root' = .ok e')
    (h : infoEvents? root = infoEvents? root') (listed : List String) :
    Region.signedInfo.canonical listed x = Region.signedInfo.canonical listed y := by
  obtain ⟨signature, info, hw⟩ := ofElement_ok_iff.1 he
  obtain ⟨signature', info', hw'⟩ := ofElement_ok_iff.1 he'
  rw [infoEvents?_of_writtenIn hw, infoEvents?_of_writtenIn hw', Option.some.injEq] at h
  rw [signedInfo_canonical hr hw.only hw.first, signedInfo_canonical hr' hw'.only hw'.first,
    text_eq_of_events h]

end SignedInfo

end ImageTrust.Signature
