import ImageTrust.Proofs.Fallible
import ImageTrust.Proofs.Url.Segment
import ImageTrust.Proofs.Uuid
import ImageTrust.Trust.Evaluation

/-!
The verdict on an instance. An instance is judged exactly when every part of its manifest and of the
flavor is well formed, and nothing is put on record otherwise. It is trusted exactly when it is as the
flavor demands and the flavor's own signature is accepted, unless nobody asks for it. The report tells
each rule in order with a single fault where it does not hold, and the record is that of one look at the
signature.
-/

namespace ImageTrust.Evaluation

/-- The form that each part of a manifest and a flavor has to have. -/
structure WellFormed (m : Manifest) (f : Flavor) : Prop where
  instanceId : Uuid.IsVersionFour m.instanceId
  imageId : Uuid.IsVersionFour m.imageId
  hardwareUuid : Uuid.IsHyphenated m.hostHardwareUuid
  flavorId : Uuid.IsVersionFour f.identity.id
  flavorPart : f.identity.description.flavorPart = "IMAGE"
    ∨ f.identity.description.flavorPart = "CONTAINER_IMAGE"
  keyUrl : ∀ e, f.encryption = some e → e.keyUrl ≠ "" →
    ∃ u, Url.ofText e.keyUrl = .ok u ∧ u.scheme = "https"
  digest : ∀ e, f.encryption = some e → e.digest ≠ "" →
    ∃ octets, Base64.decode e.digest = .ok octets

/-- What a rule says about an instance and a flavor. -/
def Holds (p : X509.Pki) (t : FileTree) (now : Instant) (m : Manifest) (f : SignedFlavor)
    (r : Rule) : Prop :=
  match r.kind with
  | .encryption => m.imageEncrypted = r.expected.value
  | .integrity => m.imageIntegrityEnforced = r.expected.value
  | .flavorIntegrity d => (FlavorSigner.verify p t now d.signers d.authorities f).1 = true

/-- The result of a rule tells whether it holds, with one fault if it does not. -/
structure Reported (p : X509.Pki) (t : FileTree) (now : Instant) (m : Manifest)
    (f : SignedFlavor) (r : Rule) (result : RuleResult) : Prop where
  rule : result.rule = r
  flavorId : result.flavorId = f.flavor.identity.id
  trusted_iff : result.trusted = true ↔ Holds p t now m f r
  faults : result.faults.length = if result.trusted then 0 else 1

/-- What a flavor asks for, in the order in which a report tells it. -/
def demands (d : Directories) (skipSignature : Bool) (f : Flavor) : List Rule :=
  let label := f.identity.description.flavorPart
  ⟨.encryption, [label], ⟨"encryption_required", f.encryptionRequired⟩⟩
    :: (if label = "CONTAINER_IMAGE" then
      [⟨.integrity, [label], ⟨"integrity_enforced", f.integrityEnforced⟩⟩] else [])
    ++ (if skipSignature then [] else [⟨.flavorIntegrity d, [label], ⟨"flavor_trusted", true⟩⟩])

/-- The report on an instance: the decision of the policy, and the result of each rule in order. -/
structure Decided (p : X509.Pki) (t : FileTree) (now : Instant) (d : Directories)
    (skipSignature : Bool) (m : Manifest) (f : SignedFlavor) (report : TrustReport) : Prop where
  manifest : report.manifest = m
  policyName : report.policyName = if f.flavor.identity.description.flavorPart = "CONTAINER_IMAGE"
    then "Intel Container Policy" else "Intel VM Policy"
  trusted_iff : report.trusted = true ↔ m.imageEncrypted = f.flavor.encryptionRequired
    ∧ (f.flavor.identity.description.flavorPart = "CONTAINER_IMAGE" →
      m.imageIntegrityEnforced = f.flavor.integrityEnforced)
    ∧ (skipSignature = false → (FlavorSigner.verify p t now d.signers d.authorities f).1 = true)
  results : List.Forall₂ (Reported p t now m f) (demands d skipSignature f.flavor) report.results

section Input

theorem isKeyUrl_iff {text : String} : isKeyUrl text = true
    ↔ (text ≠ "" → ∃ u, Url.ofText text = .ok u ∧ u.scheme = "https") := by
  simp only [isKeyUrl, Bool.or_eq_true, String.isEmpty_iff, Option.isSome_iff_exists,
    Url.https?_eq_some_iff, ne_eq, or_iff_not_imp_left]

theorem isDigest_iff {text : String} : isDigest text = true
    ↔ (text ≠ "" → ∃ octets, Base64.decode text = .ok octets) := by
  simp only [isDigest, Bool.or_eq_true, String.isEmpty_iff, ne_eq, or_iff_not_imp_left]
  cases Base64.decode text <;> simp [Except.toBool]

theorem ofLabel?_eq_some_iff {label : String} {part : FlavorPart} :
    FlavorPart.ofLabel? label = some part ↔ label = part.label := by
  constructor
  · intro h
    unfold FlavorPart.ofLabel? at h
    split_ifs at h with h₁ h₂
    · cases h
      exact h₁
    · cases h
      exact h₂
  · rintro rfl
    cases part <;> rfl

theorem checkEncryption_ok_iff {encryption : Option FlavorEncryption} :
    checkEncryption encryption = .ok () ↔
      (∀ e, encryption = some e → e.keyUrl ≠ "" → ∃ u, Url.ofText e.keyUrl = .ok u ∧ u.scheme = "https")
      ∧ ∀ e, encryption = some e → e.digest ≠ "" → ∃ octets, Base64.decode e.digest = .ok octets := by
  cases encryption with
  | none => simp [checkEncryption]
  | some e =>
    unfold checkEncryption
    rw [unless_ok_iff, unless_ok_iff, isKeyUrl_iff, isDigest_iff]
    simp

/-- A kind of image that is looked up by its label before a last check. -/
theorem byLabel_ok_iff {label : String} {fault : InputFault} {last : Except InputFault Unit}
    {part : FlavorPart} :
    (match FlavorPart.ofLabel? label with
      | some found => do last; pure found
      | _ => throw fault) = Except.ok part ↔ label = part.label ∧ last = .ok () := by
  rw [← ofLabel?_eq_some_iff]
  cases FlavorPart.ofLabel? label with
  | none => exact iff_of_false nofun nofun
  | some found =>
    dsimp only
    rw [bind_ok_iff]
    constructor
    · rintro ⟨⟨⟩, hlast, h⟩
      cases h
      exact ⟨rfl, hlast⟩
    · rintro ⟨h, hlast⟩
      cases h
      exact ⟨(), hlast, rfl⟩

theorem label_iff {label : String} :
    (∃ part : FlavorPart, label = part.label) ↔ label = "IMAGE" ∨ label = "CONTAINER_IMAGE" := by
  constructor
  · rintro ⟨_ | _, rfl⟩
    · exact .inl rfl
    · exact .inr rfl
  · rintro (rfl | rfl)
    · exact ⟨.image, rfl⟩
    · exact ⟨.containerImage, rfl⟩

/-- The checks pass exactly on what is well formed, and find the kind of image by its label. -/
theorem checkInput_ok_iff {m : Manifest} {f : Flavor} {part : FlavorPart} :
    checkInput m f = .ok part
      ↔ WellFormed m f ∧ f.identity.description.flavorPart = part.label := by
  unfold checkInput
  dsimp only
  rw [throw_unless_ok_iff, throw_unless_ok_iff, throw_unless_ok_iff, throw_unless_ok_iff,
    Uuid.isRandomId_iff, Uuid.isRandomId_iff, Uuid.isHardwareId_iff, Uuid.isRandomId_iff]
  constructor
  · rintro ⟨hinstance, himage, hhardware, hflavor, hrest⟩
    obtain ⟨hpart, hencryption⟩ := byLabel_ok_iff.1 hrest
    obtain ⟨hurl, hdigest⟩ := checkEncryption_ok_iff.1 hencryption
    exact ⟨⟨hinstance, himage, hhardware, hflavor, label_iff.1 ⟨part, hpart⟩, hurl, hdigest⟩, hpart⟩
  · rintro ⟨h, hpart⟩
    have hencryption := checkEncryption_ok_iff.2 ⟨h.keyUrl, h.digest⟩
    exact ⟨h.instanceId, h.imageId, h.hardwareUuid, h.flavorId,
      byLabel_ok_iff.2 ⟨hpart, hencryption⟩⟩

/-- Whatever is well formed is judged. -/
theorem checkInput_isOk_iff {m : Manifest} {f : Flavor} :
    (∃ part, checkInput m f = .ok part) ↔ WellFormed m f := by
  simp only [checkInput_ok_iff]
  constructor
  · rintro ⟨-, h, -⟩
    exact h
  · intro h
    obtain ⟨part, hpart⟩ := label_iff.2 h.flavorPart
    exact ⟨part, h, hpart⟩

end Input

section Rules

variable {p : X509.Pki} {t : FileTree} {now : Instant} {m : Manifest} {f : SignedFlavor}

theorem compare_trusted_iff {description : String} {expected actual : Bool} :
    (RuleOutcome.compare description expected actual).trusted = true ↔ actual = expected := by
  unfold RuleOutcome.compare
  split
  · exact iff_of_true rfl ‹_›
  · exact iff_of_false nofun ‹_›

theorem compare_faults {description : String} {expected actual : Bool} :
    (RuleOutcome.compare description expected actual).faults.length
      = if (RuleOutcome.compare description expected actual).trusted then 0 else 1 := by
  unfold RuleOutcome.compare
  split <;> rfl

theorem apply_trusted_iff (r : Rule) :
    (apply p t now m f r).1.trusted = true ↔ Holds p t now m f r := by
  unfold apply Holds
  cases r.kind with
  | encryption => exact compare_trusted_iff
  | integrity => exact compare_trusted_iff
  | flavorIntegrity d =>
    dsimp only
    cases (FlavorSigner.verify p t now d.signers d.authorities f).1
    · exact iff_of_false nofun nofun
    · exact iff_of_true rfl rfl

theorem apply_faults (r : Rule) :
    (apply p t now m f r).1.faults.length
      = if (apply p t now m f r).1.trusted then 0 else 1 := by
  unfold apply
  cases r.kind with
  | encryption => exact compare_faults
  | integrity => exact compare_faults
  | flavorIntegrity d =>
    dsimp only
    split <;> rfl

theorem apply_reported (r : Rule) :
    Reported p t now m f r (.ofOutcome r f.flavor.identity.id (apply p t now m f r).1) :=
  ⟨rfl, rfl, apply_trusted_iff r, apply_faults r⟩

/-- Each rule is applied once, in order. -/
theorem applyAll_reported (rs : List Rule) :
    List.Forall₂ (Reported p t now m f) rs (applyAll p t now m f rs).1 := by
  induction rs with
  | nil => exact .nil
  | cons r rest ih => exact .cons (apply_reported r) ih

theorem applyAll_events (rs : List Rule) :
    (applyAll p t now m f rs).2 = rs.flatMap fun r => (apply p t now m f r).2 := by
  induction rs with
  | nil => rfl
  | cons r rest ih => rw [List.flatMap_cons, ← ih]; rfl

theorem Reported.forall_trusted_iff {rs : List Rule} {results : List RuleResult}
    (h : List.Forall₂ (Reported p t now m f) rs results) :
    (∀ x ∈ results, x.trusted = true) ↔ ∀ r ∈ rs, Holds p t now m f r := by
  induction h with
  | nil => exact iff_of_true nofun nofun
  | cons head _ ih => rw [List.forall_mem_cons, List.forall_mem_cons, head.trusted_iff, ih]

theorem aggregateTrust_iff {results : List RuleResult} :
    aggregateTrust results = true ↔ results ≠ [] ∧ ∀ x ∈ results, x.trusted = true := by
  simp [aggregateTrust]

variable {part : FlavorPart} {d : Directories} {skipSignature : Bool}

theorem rules_eq_demands {f : Flavor} (h : f.identity.description.flavorPart = part.label) :
    rules part f d skipSignature = demands d skipSignature f := by
  unfold rules demands
  rw [h]
  cases part <;> rfl

/-- What it takes to meet all demands. -/
theorem forall_demands_iff :
    (∀ r ∈ demands d skipSignature f.flavor, Holds p t now m f r)
      ↔ m.imageEncrypted = f.flavor.encryptionRequired
        ∧ (f.flavor.identity.description.flavorPart = "CONTAINER_IMAGE" →
          m.imageIntegrityEnforced = f.flavor.integrityEnforced)
        ∧ (skipSignature = false
          → (FlavorSigner.verify p t now d.signers d.authorities f).1 = true) := by
  unfold demands
  dsimp only
  rw [List.cons_append, List.forall_mem_cons, List.forall_mem_append]
  -- the list has a place for each condition, and a place that is left out asks for nothing
  refine and_congr Iff.rfl (and_congr ?_ ?_)
  · split
    · simp [Holds, *]
    · simp [*]
  · cases skipSignature
    · simp [Holds]
    · exact iff_of_true nofun nofun

/-- The signature is looked at once, by the last demand. -/
theorem events_of_demands :
    ((demands d skipSignature f.flavor).flatMap fun r => (apply p t now m f r).2)
      = if skipSignature then [] else (FlavorSigner.verify p t now d.signers d.authorities f).2 := by
  unfold demands
  dsimp only
  rw [List.cons_append, List.flatMap_cons, List.flatMap_append]
  split <;> cases skipSignature <;> simp [apply]

end Rules

section Judgement

variable {p : X509.Pki} {t : FileTree} {now : Instant} {d : Directories} {skipSignature : Bool}
  {m : Manifest} {f : SignedFlavor}

theorem evaluate_of_fault {fault : InputFault} (h : checkInput m f.flavor = .error fault) :
    evaluate p t now d skipSignature m f = ⟨.error fault, []⟩ := by
  unfold evaluate
  rw [h]

theorem evaluate_of_part {part : FlavorPart} (h : checkInput m f.flavor = .ok part) :
    evaluate p t now d skipSignature m f
      = ⟨.ok (.ofResults m part.policyName
          (applyAll p t now m f (rules part f.flavor d skipSignature)).1),
        (applyAll p t now m f (rules part f.flavor d skipSignature)).2⟩ := by
  unfold evaluate
  rw [h]

/-- The report that is made of the results of a flavor's demands. -/
theorem decided_ofResults {part : FlavorPart} {results : List RuleResult}
    (hlabel : f.flavor.identity.description.flavorPart = part.label)
    (h : List.Forall₂ (Reported p t now m f) (demands d skipSignature f.flavor) results) :
    Decided p t now d skipSignature m f (.ofResults m part.policyName results) := by
  -- there is always a demand, so the report is never without results
  have hne : results ≠ [] := by
    rintro rfl
    cases h
  refine ⟨rfl, ?_, ?_, h⟩
  · rw [hlabel]
    cases part <;> rfl
  · calc (TrustReport.ofResults m part.policyName results).trusted = true
        ↔ results ≠ [] ∧ ∀ x ∈ results, x.trusted = true := aggregateTrust_iff
      _ ↔ ∀ r ∈ demands d skipSignature f.flavor, Holds p t now m f r := by
        rw [Reported.forall_trusted_iff h, and_iff_right hne]
      _ ↔ _ := forall_demands_iff

/-- Exactly what is well formed is judged, and nothing is put on record about anything else. The report
is the decision of the policy, and the record is that of one look at the signature. -/
theorem policy_decided (p : X509.Pki) (t : FileTree) (now : Instant) (d : Directories)
    (skipSignature : Bool) (m : Manifest) (f : SignedFlavor) :
    ((∃ report, (evaluate p t now d skipSignature m f).answer = .ok report) ↔ WellFormed m f.flavor)
    ∧ (∀ fault, (evaluate p t now d skipSignature m f).answer = .error fault →
      (evaluate p t now d skipSignature m f).events = [])
    ∧ ∀ report, (evaluate p t now d skipSignature m f).answer = .ok report →
      Decided p t now d skipSignature m f report
      ∧ (evaluate p t now d skipSignature m f).events
        = if skipSignature then [] else (FlavorSigner.verify p t now d.signers d.authorities f).2 := by
  rw [← checkInput_isOk_iff]
  cases hcheck : checkInput m f.flavor with
  | error fault =>
    rw [evaluate_of_fault hcheck]
    exact ⟨iff_of_false nofun nofun, fun _ _ => rfl, nofun⟩
  | ok part =>
    rw [evaluate_of_part hcheck]
    refine ⟨iff_of_true ⟨_, rfl⟩ ⟨part, rfl⟩, nofun, ?_⟩
    intro report hreport
    cases hreport
    have hlabel := (checkInput_ok_iff.1 hcheck).2
    rw [rules_eq_demands hlabel]
    refine ⟨decided_ofResults hlabel (applyAll_reported _), ?_⟩
    rw [applyAll_events, events_of_demands]

end Judgement

end ImageTrust.Evaluation
