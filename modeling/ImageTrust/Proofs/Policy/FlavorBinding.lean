import ImageTrust.Policy.Flavor
import ImageTrust.Proofs.Json.Record
import ImageTrust.Proofs.Json.SignerText

/-!
The text that a flavor's signature covers determines the flavor. Each part of a flavor is decoded from
its own text to what it was, whatever is left out because it is empty or absent, so no two flavors have
one text.
-/

namespace ImageTrust

open Json (Lossless Place Member source collect_cons collect_nil record_object text_str memberSources)

variable {escape : Char → List Char}

theorem FlavorDescription.decode_toJson (he : Lossless escape) {p : Place} (hp : p.HasRoom 1)
    (d : FlavorDescription) : decoder p (source escape d.toJson) = .ok d := by
  obtain ⟨q, hq, -⟩ := hp.inside
  have hl : labelMember.read q (source escape (.str d.label)) = .ok d.label := text_str he q _
  have hf : flavorPartMember.read q (source escape (.str d.flavorPart)) = .ok d.flavorPart :=
    text_str he q _
  refine record_object hq
    (collect_cons he hl rfl rfl <|
      collect_cons he hf rfl rfl collect_nil) ?_
  rw [Member.get_of_lookup rfl hl, Member.get_of_lookup rfl hf]
  rfl

theorem FlavorMeta.decode_toJson (he : Lossless escape) {p : Place} (hp : p.HasRoom 2)
    (m : FlavorMeta) : decoder p (source escape m.toJson) = .ok m := by
  obtain ⟨q, hq, hr⟩ := hp.inside
  have hi : idMember.read q (source escape (.str m.id)) = .ok m.id := text_str he q _
  have hd : descriptionMember.read q (source escape m.description.toJson) = .ok m.description :=
    FlavorDescription.decode_toJson he hr _
  refine record_object hq
    (collect_cons he hi rfl rfl <|
      collect_cons he hd rfl rfl collect_nil) ?_
  rw [Member.get_of_lookup rfl hi, Member.get_of_lookup rfl hd]
  rfl

/-- An empty text is left out, and comes back as the text for its absence. -/
theorem FlavorEncryption.decode_toJson (he : Lossless escape) {p : Place} (hp : p.HasRoom 1)
    (e : FlavorEncryption) : decoder p (source escape e.toJson) = .ok e := by
  obtain ⟨q, hq, -⟩ := hp.inside
  obtain ⟨keyUrl, digest⟩ := e
  have hk : keyUrlMember.read q (source escape (.str keyUrl)) = .ok keyUrl := text_str he q _
  have hd : digestMember.read q (source escape (.str digest)) = .ok digest := text_str he q _
  unfold toJson Json.nonEmpty
  by_cases hku : keyUrl.isEmpty = true <;> by_cases hdi : digest.isEmpty = true
  · rw [if_pos hku, if_pos hdi]
    refine record_object hq collect_nil ?_
    rw [Member.get_of_absent rfl rfl, Member.get_of_absent rfl rfl, String.isEmpty_iff.1 hku,
      String.isEmpty_iff.1 hdi]
    rfl
  · rw [if_pos hku, if_neg hdi]
    refine record_object hq (collect_cons he hd rfl rfl collect_nil) ?_
    rw [Member.get_of_absent rfl rfl, Member.get_of_lookup rfl hd, String.isEmpty_iff.1 hku]
    rfl
  · rw [if_neg hku, if_pos hdi]
    refine record_object hq (collect_cons he hk rfl rfl collect_nil) ?_
    rw [Member.get_of_lookup rfl hk, Member.get_of_absent rfl rfl, String.isEmpty_iff.1 hdi]
    rfl
  · rw [if_neg hku, if_neg hdi]
    refine record_object hq
      (collect_cons he hk rfl rfl <|
        collect_cons he hd rfl rfl collect_nil) ?_
    rw [Member.get_of_lookup rfl hk, Member.get_of_lookup rfl hd]
    rfl

theorem Flavor.decode_toJson (he : Lossless escape) {p : Place} (hp : p.HasRoom 3) (f : Flavor) :
    decoder p (source escape f.toJson) = .ok f := by
  obtain ⟨q, hq, hr⟩ := hp.inside
  obtain ⟨identity, encryption, encryptionRequired, integrityEnforced⟩ := f
  have hm : metaMember.read q (source escape identity.toJson) = .ok identity :=
    FlavorMeta.decode_toJson he hr _
  have hb : encryptionRequiredMember.read q (source escape (.bool encryptionRequired))
    = .ok encryptionRequired := rfl
  have hi : integrityEnforcedMember.read q (source escape (.bool integrityEnforced))
    = .ok integrityEnforced := rfl
  cases encryption with
  | none =>
    refine record_object hq
      (collect_cons he hm rfl rfl <|
        collect_cons he hb rfl rfl <|
          collect_cons he hi rfl rfl collect_nil) ?_
    rw [Member.get_of_lookup rfl hm, Member.get_of_absent rfl rfl, Member.get_of_lookup rfl hb,
      Member.get_of_lookup rfl hi]
    rfl
  | some e =>
    have hr₁ : q.HasRoom 1 := hr.mono (by decide)
    have hc : encryptionMember.read q (source escape e.toJson) = .ok (some e) := by
      change (FlavorEncryption.decoder q (source escape e.toJson)).map some = .ok (some e)
      rw [FlavorEncryption.decode_toJson he hr₁ e]
      rfl
    refine record_object hq
      (collect_cons he hm rfl rfl <|
        collect_cons he hc rfl rfl <|
          collect_cons he hb rfl rfl <|
            collect_cons he hi rfl rfl collect_nil) ?_
    rw [Member.get_of_lookup rfl hm, Member.get_of_lookup rfl hc, Member.get_of_lookup rfl hb,
      Member.get_of_lookup rfl hi]
    rfl

namespace Flavor

/-- The member of a payload that holds a flavor: its key as written and the tree of its value. -/
def payloadMember (f : Flavor) : List Char × Json.Source :=
  ("Image".toList, source Json.signerEscapeChar f.toJson)

theorem readOctets_payload (f : Flavor) : Json.readOctets (Text.encode f.signaturePayload)
    = ⟨.object [f.payloadMember] .closed, true⟩ := by
  rw [Json.readOctets_encode, signaturePayload, Json.signerText_eq, String.toList_ofList,
    Json.readDocument_render Json.escaped_signerEscapeChar]
  rfl

theorem decode_payloadMember (f : Flavor) :
    ∃ q, Place.document.inside = .ok q ∧ decoder q f.payloadMember.2 = .ok f := by
  obtain ⟨q, hq, hr⟩ := (Place.document_hasRoom (by decide : 4 < 128)).inside
  exact ⟨q, hq, decode_toJson Json.escaped_signerEscapeChar hr f⟩

/-- The octets that a flavor's signature covers belong to no other flavor. They are one object whose
only member is `Image`, and the value of that member is decoded to the flavor. -/
theorem signature_payload_binds_flavor :
    (∀ f g : Flavor, Text.encode f.signaturePayload = Text.encode g.signaturePayload ↔ f = g)
      ∧ ∀ f : Flavor, ∃ key value q,
        Json.readOctets (Text.encode f.signaturePayload) = ⟨.object [(key, value)] .closed, true⟩
          ∧ Json.Source.textOf? key = some "Image"
          ∧ Place.document.inside = .ok q ∧ decoder q value = .ok f := by
  constructor
  · intro f g
    refine ⟨fun h => ?_, fun h => by rw [h]⟩
    have hm : f.payloadMember = g.payloadMember := by
      have hr := congrArg Json.readOctets h
      rw [readOctets_payload, readOctets_payload] at hr
      simpa using hr
    obtain ⟨q, hq, hf⟩ := f.decode_payloadMember
    obtain ⟨q', hq', hg⟩ := g.decode_payloadMember
    have hqq : q = q' := Except.ok.inj (hq.symm.trans hq')
    rw [hm, hqq, hg] at hf
    exact (Except.ok.inj hf).symm
  · intro f
    obtain ⟨q, hq, hf⟩ := f.decode_payloadMember
    exact ⟨_, _, q, f.readOctets_payload, by decide +kernel, hq, hf⟩

end Flavor

end ImageTrust
