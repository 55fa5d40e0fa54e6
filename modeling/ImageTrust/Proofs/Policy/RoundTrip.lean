import ImageTrust.Policy.KeyTransfer
import ImageTrust.Policy.Report
import ImageTrust.Proofs.Policy.FlavorBinding

/-!
Everything that is exchanged as JSON is read back as it was written. Members that are left out come back
as what stands for their absence, and a rule is found by its name among its own members. Only the
directories of a rule are not written: a report that was read back is alike in all that its rules say,
and two reports have one text exactly when they are alike.
-/

namespace ImageTrust

open Json (Lossless Place Member RoundTrip source collect_cons collect_nil record_object text_str
  list_arr list_text memberSources)

variable {escape : Char → List Char}

theorem SignedFlavor.decode_toJson (he : Lossless escape) {p : Place} (hp : p.HasRoom 4)
    (f : SignedFlavor) : decoder p (source escape f.toJson) = .ok f := by
  obtain ⟨q, hq, hr⟩ := hp.inside
  have hf : flavorMember.read q (source escape f.flavor.toJson) = .ok f.flavor :=
    Flavor.decode_toJson he hr _
  have hs : signatureMember.read q (source escape (.str f.signature)) = .ok f.signature :=
    text_str he q _
  refine record_object hq
    (collect_cons he hf rfl rfl <|
      collect_cons he hs rfl rfl collect_nil) ?_
  rw [Member.get_of_lookup rfl hf, Member.get_of_lookup rfl hs]
  rfl

theorem Manifest.decode_toJson (he : Lossless escape) {p : Place} (hp : p.HasRoom 1)
    (m : Manifest) : decoder p (source escape m.toJson) = .ok m := by
  obtain ⟨q, hq, -⟩ := hp.inside
  have hi : instanceIdMember.read q (source escape (.str m.instanceId)) = .ok m.instanceId :=
    text_str he q _
  have hh : hostHardwareUuidMember.read q (source escape (.str m.hostHardwareUuid))
    = .ok m.hostHardwareUuid := text_str he q _
  have hm : imageIdMember.read q (source escape (.str m.imageId)) = .ok m.imageId := text_str he q _
  have he' : imageEncryptedMember.read q (source escape (.bool m.imageEncrypted))
    = .ok m.imageEncrypted := rfl
  have hn : imageIntegrityEnforcedMember.read q (source escape (.bool m.imageIntegrityEnforced))
    = .ok m.imageIntegrityEnforced := rfl
  refine record_object hq
    (collect_cons he hi rfl rfl <|
      collect_cons he hh rfl rfl <|
        collect_cons he hm rfl rfl <|
          collect_cons he he' rfl rfl <|
            collect_cons he hn rfl rfl collect_nil) ?_
  rw [Member.get_of_lookup rfl hi, Member.get_of_lookup rfl hh, Member.get_of_lookup rfl hm,
    Member.get_of_lookup rfl he', Member.get_of_lookup rfl hn]
  rfl

theorem KeyTransfer.decode_toJson (he : Lossless escape) {p : Place} (hp : p.HasRoom 1)
    (k : KeyTransfer) : decoder p (source escape k.toJson) = .ok k := by
  obtain ⟨q, hq, -⟩ := hp.inside
  have hk : wrappedKeyMember.read q (source escape (.str k.wrappedKey)) = .ok k.wrappedKey :=
    text_str he q _
  refine record_object hq (collect_cons he hk rfl rfl collect_nil) ?_
  rw [Member.get_of_lookup rfl hk]
  rfl

theorem RuleFault.decode_toJson (he : Lossless escape) {p : Place} (hp : p.HasRoom 1)
    (f : RuleFault) : decoder p (source escape f.toJson) = .ok f := by
  obtain ⟨q, hq, -⟩ := hp.inside
  obtain ⟨description, cause⟩ := f
  have hd : descriptionMember.read q (source escape (.str description)) = .ok description :=
    text_str he q _
  cases cause with
  | none =>
    refine record_object hq (collect_cons he hd rfl rfl collect_nil) ?_
    rw [Member.get_of_lookup rfl hd, Member.get_of_absent rfl rfl]
    rfl
  | some cause =>
    have hc : causeMember.read q (source escape (.str cause)) = .ok (some cause) := by
      change (Json.text q (source escape (.str cause))).map some = .ok (some cause)
      rw [text_str he]
      rfl
    refine record_object hq
      (collect_cons he hd rfl rfl <|
        collect_cons he hc rfl rfl collect_nil) ?_
    rw [Member.get_of_lookup rfl hd, Member.get_of_lookup rfl hc]
    rfl

theorem ExpectedValue.decode_toJson (he : Lossless escape) {p : Place} (hp : p.HasRoom 1)
    (e : ExpectedValue) : decoder p (source escape e.toJson) = .ok e := by
  obtain ⟨q, hq, -⟩ := hp.inside
  have hn : nameMember.read q (source escape (.str e.name)) = .ok e.name := text_str he q _
  have hv : valueMember.read q (source escape (.bool e.value)) = .ok e.value := rfl
  refine record_object hq
    (collect_cons he hn rfl rfl <|
      collect_cons he hv rfl rfl collect_nil) ?_
  rw [Member.get_of_lookup rfl hn, Member.get_of_lookup rfl hv]
  rfl

theorem ExpectedValue.buffer_toJson (he : Lossless escape) {p : Place} (hp : p.HasRoom 1)
    (e : ExpectedValue) : Json.buffer p (source escape e.toJson) = .ok () := by
  obtain ⟨q, hq, -⟩ := hp.inside
  refine Json.buffer_obj hq ?_
  rw [Json.bufferMembers_cons he (Json.buffer_str he q _), Json.bufferMembers_cons he rfl]
  rfl

section Alike

/-- Kinds of rule that differ in nothing but their directories. -/
inductive RuleKind.Alike : RuleKind → RuleKind → Prop where
  | encryption : Alike .encryption .encryption
  | integrity : Alike .integrity .integrity
  | flavorIntegrity (d e : Directories) : Alike (.flavorIntegrity d) (.flavorIntegrity e)

structure Rule.Alike (r s : Rule) : Prop where
  kind : r.kind.Alike s.kind
  markers : r.markers = s.markers
  expected : r.expected = s.expected

structure RuleResult.Alike (r s : RuleResult) : Prop where
  rule : r.rule.Alike s.rule
  flavorId : r.flavorId = s.flavorId
  faults : r.faults = s.faults
  trusted : r.trusted = s.trusted

/-- Reports that differ in nothing but the directories of their rules. -/
structure TrustReport.Alike (r s : TrustReport) : Prop where
  manifest : r.manifest = s.manifest
  policyName : r.policyName = s.policyName
  results : List.Forall₂ RuleResult.Alike r.results s.results
  trusted : r.trusted = s.trusted

/-- A kind of rule as it is decoded, without its directories. -/
def RuleKind.undirected : RuleKind → RuleKind
  | .encryption => .encryption
  | .integrity => .integrity
  | .flavorIntegrity _ => .flavorIntegrity .unset

def Rule.undirected (r : Rule) : Rule :=
  { r with kind := r.kind.undirected }

def RuleResult.undirected (r : RuleResult) : RuleResult :=
  { r with rule := r.rule.undirected }

def TrustReport.undirected (r : TrustReport) : TrustReport :=
  { r with results := r.results.map RuleResult.undirected }

/-- What is decoded of two kinds is the same exactly when they are alike. -/
theorem RuleKind.undirected_eq_iff {k l : RuleKind} : k.undirected = l.undirected ↔ k.Alike l := by
  constructor
  · intro h
    cases k <;> cases l <;> first | constructor | cases h
  · rintro (_ | _ | _) <;> rfl

theorem Rule.undirected_eq_iff {r s : Rule} : r.undirected = s.undirected ↔ r.Alike s := by
  constructor
  · intro h
    injection h with hkind hmarkers hexpected
    exact ⟨RuleKind.undirected_eq_iff.1 hkind, hmarkers, hexpected⟩
  · rintro ⟨hkind, hmarkers, hexpected⟩
    unfold Rule.undirected
    rw [RuleKind.undirected_eq_iff.2 hkind, hmarkers, hexpected]

theorem RuleResult.undirected_eq_iff {r s : RuleResult} :
    r.undirected = s.undirected ↔ r.Alike s := by
  constructor
  · intro h
    injection h with hrule hid hfaults htrusted
    exact ⟨Rule.undirected_eq_iff.1 hrule, hid, hfaults, htrusted⟩
  · rintro ⟨hrule, hid, hfaults, htrusted⟩
    unfold RuleResult.undirected
    rw [Rule.undirected_eq_iff.2 hrule, hid, hfaults, htrusted]

theorem RuleResult.map_undirected_eq_iff {rs ss : List RuleResult} :
    rs.map undirected = ss.map undirected ↔ List.Forall₂ Alike rs ss := by
  rw [← List.forall₂_eq_eq_eq, List.forall₂_map_left_iff, List.forall₂_map_right_iff]
  simp only [undirected_eq_iff]

theorem TrustReport.undirected_eq_iff {r s : TrustReport} :
    r.undirected = s.undirected ↔ r.Alike s := by
  constructor
  · intro h
    injection h with hmanifest hname hresults htrusted
    exact ⟨hmanifest, hname, RuleResult.map_undirected_eq_iff.1 hresults, htrusted⟩
  · rintro ⟨hmanifest, hname, hresults, htrusted⟩
    unfold TrustReport.undirected
    rw [hmanifest, hname, RuleResult.map_undirected_eq_iff.2 hresults, htrusted]

end Alike

namespace Rule

theorem ofName?_name (k : RuleKind) : RuleKind.ofName? k.name = some k.undirected := by
  cases k <;> rfl

theorem name_undirected (k : RuleKind) : k.undirected.name = k.name := by
  cases k <;> rfl

theorem kindOf_name (he : Lossless escape) (k : RuleKind) :
    kindOf (source escape (.str k.name)) = .ok k.undirected := by
  rw [source, kindOf, Json.textOf_flatMap he, ok_bind, ofName?_name]
  rfl

/-- The name is taken up where it stands. -/
theorem splitTag_name (he : Lossless escape) {p : Place} {k : RuleKind}
    {rest : List (String × Json)} :
    splitTag p none (memberSources escape ((tag, .str k.name) :: rest))
      = splitTag p (some k.undirected) (memberSources escape rest) := by
  rw [memberSources, splitTag, Json.textOf_flatMap he, ok_bind, if_pos rfl, if_neg (by decide),
    kindOf_name he, ok_bind]

/-- Any other member is kept as it is. -/
theorem splitTag_cons (he : Lossless escape) {p : Place} {seen kind : Option RuleKind} {key : String}
    {v : Json} {rest kept : List (String × Json)} (hk : key ≠ tag)
    (hv : Json.buffer p (source escape v) = .ok ())
    (h : splitTag p seen (memberSources escape rest) = .ok (kind, memberSources escape kept)) :
    splitTag p seen (memberSources escape ((key, v) :: rest))
      = .ok (kind, memberSources escape ((key, v) :: kept)) := by
  rw [memberSources, splitTag, Json.textOf_flatMap he, ok_bind, if_neg hk, hv, ok_bind, h, ok_bind]
  rfl

/-- The members of a rule other than its name. -/
def bodyJson (r : Rule) : List (String × Json) :=
  [("markers", .arr (r.markers.map .str)), ("expected", r.expected.toJson)]

theorem splitTag_toJson (he : Lossless escape) {p : Place} (hp : p.HasRoom 1) (r : Rule) :
    splitTag p none (memberSources escape ((tag, .str r.kind.name) :: r.bodyJson))
      = .ok (some r.kind.undirected, memberSources escape r.bodyJson) := by
  rw [splitTag_name he]
  exact splitTag_cons he (by decide) (Json.buffer_texts he hp _)
    (splitTag_cons he (by decide) (ExpectedValue.buffer_toJson he hp _) rfl)

theorem decode_bodyJson (he : Lossless escape) {p : Place} (hp : p.HasRoom 2) (r : Rule) :
    bodyDecoder r.kind.undirected p (source escape (.obj r.bodyJson)) = .ok r.undirected := by
  obtain ⟨q, hq, hr⟩ := hp.inside
  have hm : markersMember.read q (source escape (.arr (r.markers.map .str))) = .ok r.markers :=
    list_text he hr _
  have hx : expectedMember.read q (source escape r.expected.toJson) = .ok r.expected :=
    ExpectedValue.decode_toJson he hr _
  refine record_object hq
    (collect_cons he hm rfl rfl <|
      collect_cons he hx rfl rfl collect_nil) ?_
  rw [Member.get_of_lookup rfl hm, Member.get_of_lookup rfl hx]
  rfl

/-- A rule is read back without its directories. -/
theorem decode_toJson (he : Lossless escape) {p : Place} (hp : p.HasRoom 2) (r : Rule) :
    decoder p (source escape r.toJson) = .ok r.undirected := by
  obtain ⟨q, hq, hr⟩ := hp.inside
  have hsplit := splitTag_toJson he hr r
  have hbody := decode_bodyJson he (p := { q with material := .buffered }) (.inl nofun) r
  change decoder p (.object (memberSources escape ((tag, .str r.kind.name) :: r.bodyJson)) .closed) = _
  rw [decoder, hq, ok_bind, hsplit, ok_bind]
  exact hbody

end Rule

/-- Faults are left out when there are none. -/
theorem RuleResult.decode_toJson (he : Lossless escape) {p : Place} (hp : p.HasRoom 3)
    (r : RuleResult) : decoder p (source escape r.toJson) = .ok r.undirected := by
  obtain ⟨q, hq, hr⟩ := hp.inside
  obtain ⟨rule, flavorId, faults, trusted⟩ := r
  have hu : ruleMember.read q (source escape rule.toJson) = .ok rule.undirected :=
    Rule.decode_toJson he hr _
  have hi : flavorIdMember.read q (source escape (.str flavorId)) = .ok flavorId := text_str he q _
  have ht : trustedMember.read q (source escape (.bool trusted)) = .ok trusted := rfl
  cases faults with
  | nil =>
    refine record_object hq
      (collect_cons he hu rfl rfl <|
        collect_cons he hi rfl rfl <|
          collect_cons he ht rfl rfl collect_nil) ?_
    rw [Member.get_of_lookup rfl hu, Member.get_of_lookup rfl hi, Member.get_of_absent rfl rfl,
      Member.get_of_lookup rfl ht]
    rfl
  | cons fault rest =>
    have hf : faultsMember.read q (source escape (.arr ((fault :: rest).map RuleFault.toJson)))
        = .ok (fault :: rest) := by
      have h := list_arr hr (fun q' h f => RuleFault.decode_toJson he h f) (fault :: rest)
      rwa [List.map_id'] at h
    refine record_object hq
      (collect_cons he hu rfl rfl <|
        collect_cons he hi rfl rfl <|
          collect_cons he hf rfl rfl <|
            collect_cons he ht rfl rfl collect_nil) ?_
    rw [Member.get_of_lookup rfl hu, Member.get_of_lookup rfl hi, Member.get_of_lookup rfl hf,
      Member.get_of_lookup rfl ht]
    rfl

theorem TrustReport.decode_toJson (he : Lossless escape) {p : Place} (hp : p.HasRoom 5)
    (r : TrustReport) : decoder p (source escape r.toJson) = .ok r.undirected := by
  obtain ⟨q, hq, hr⟩ := hp.inside
  have hm : manifestMember.read q (source escape r.manifest.toJson) = .ok r.manifest :=
    Manifest.decode_toJson he (hr.mono (by decide)) _
  have hn : policyNameMember.read q (source escape (.str r.policyName)) = .ok r.policyName :=
    text_str he q _
  have hs : resultsMember.read q (source escape (.arr (r.results.map RuleResult.toJson)))
      = .ok (r.results.map RuleResult.undirected) :=
    list_arr hr (fun q' h x => RuleResult.decode_toJson he h x) r.results
  have ht : trustedMember.read q (source escape (.bool r.trusted)) = .ok r.trusted := rfl
  refine record_object hq
    (collect_cons he hm rfl rfl <|
      collect_cons he hn rfl rfl <|
        collect_cons he hs rfl rfl <|
          collect_cons he ht rfl rfl collect_nil) ?_
  rw [Member.get_of_lookup rfl hm, Member.get_of_lookup rfl hn, Member.get_of_lookup rfl hs,
    Member.get_of_lookup rfl ht]
  rfl

theorem Rule.toJson_undirected (r : Rule) : r.undirected.toJson = r.toJson := by
  unfold toJson
  rw [show r.undirected.kind.name = r.kind.name from name_undirected r.kind]
  rfl

theorem RuleResult.toJson_undirected (r : RuleResult) : r.undirected.toJson = r.toJson := by
  unfold toJson
  rw [show r.undirected.rule.toJson = r.rule.toJson from Rule.toJson_undirected r.rule]
  rfl

theorem TrustReport.toJson_undirected (r : TrustReport) : r.undirected.toJson = r.toJson := by
  have h : r.undirected.results.map RuleResult.toJson = r.results.map RuleResult.toJson := by
    rw [show r.undirected.results = r.results.map RuleResult.undirected from rfl, List.map_map]
    exact List.map_congr_left fun x _ => RuleResult.toJson_undirected x
  unfold toJson
  rw [h]
  rfl

/-- Whatever is exchanged comes back equal to what was written, but for the directories of rules, which
are in no text. -/
theorem exchanged_values_round_trip :
    RoundTrip Flavor.toJson Flavor.decoder Eq
    ∧ RoundTrip SignedFlavor.toJson SignedFlavor.decoder Eq
    ∧ RoundTrip Manifest.toJson Manifest.decoder Eq
    ∧ RoundTrip RuleFault.toJson RuleFault.decoder Eq
    ∧ RoundTrip Rule.toJson Rule.decoder Rule.Alike
    ∧ RoundTrip RuleResult.toJson RuleResult.decoder RuleResult.Alike
    ∧ RoundTrip TrustReport.toJson TrustReport.decoder TrustReport.Alike
    ∧ RoundTrip KeyTransfer.toJson KeyTransfer.decoder Eq := by
  have he := Json.escaped_escapeChar
  have hroom : ∀ {levels : Nat}, levels < 128 → Place.document.HasRoom levels :=
    Place.document_hasRoom
  refine ⟨?_, ?_, ?_, ?_, ?_, ?_, ?_, ?_⟩
  · exact .of_decoded_self fun f => f.decode_toJson he (hroom (by decide))
  · exact .of_decoded_self fun f => f.decode_toJson he (hroom (by decide))
  · exact .of_decoded_self fun m => m.decode_toJson he (hroom (by decide))
  · exact .of_decoded_self fun f => f.decode_toJson he (hroom (by decide))
  · exact .of_decoded Rule.undirected (fun r => r.decode_toJson he (hroom (by decide)))
      Rule.toJson_undirected fun _ _ => Rule.undirected_eq_iff
  · exact .of_decoded RuleResult.undirected (fun r => r.decode_toJson he (hroom (by decide)))
      RuleResult.toJson_undirected fun _ _ => RuleResult.undirected_eq_iff
  · exact .of_decoded TrustReport.undirected (fun r => r.decode_toJson he (hroom (by decide)))
      TrustReport.toJson_undirected fun _ _ => TrustReport.undirected_eq_iff
  · exact .of_decoded_self fun k => k.decode_toJson he (hroom (by decide))

example : (Json.decode Rule.decoder
      (Rule.flavorIntegrity .image ⟨"certs", "roots"⟩).toJson.compact).toOption
    = some (.flavorIntegrity .image .unset) := by
  decide +kernel

end ImageTrust
