import ImageTrust.Proofs.Release.Provenance

/-!
Which hosts a report serves. The gate asks about the requesting host and about no other, and the answer
has to be signed, current and free of an accusation. Which host the answer speaks of is not looked at:
whoever the attestation service gives the same report is admitted as well, and from there on only the
host's own cache entry and the broker matter.
-/

namespace ImageTrust.Release

def Call.askedAbout? : Call → Option String
  | .attest host => some host
  | _ => none

/-- The hosts that the attestation service was asked about. -/
def Outcome.askedAbout (o : Outcome) : List String :=
  o.calls.filterMap Call.askedAbout?

/-- The key that a host gets with an admitted report: the one of its own unexpired entry with the id of
the URL, and without such an entry what the broker at the URL hands out. -/
def Supplied (p : Peers) (now : Instant) (cache : KeyCache) (host url : String) (report : Octets)
    (roots : List Octets) (octets : Octets) : Prop :=
  ∃ id, KeyUrl.keyId? url = some id
    ∧ ((∃ k, cache.get? host = some k ∧ k.id = id ∧ now < k.expires ∧ k.octets = octets)
      ∨ (∀ k, cache.get? host = some k → k.id = id → k.expires ≤ now)
        ∧ ∃ broker, Wrapped p url id report roots broker octets)

variable {p : Peers} {lifetime : Int} {now : Instant} {cache : KeyCache} {host url id : String}
  {report octets : Octets} {roots : List Octets}

theorem fetch_answer_iff {calls : List Call} {outcome : KeyOutcome} :
    (fetch p lifetime now url id report roots calls).answer = .ok (octets, outcome)
      ↔ outcome = .releasedFromBroker ∧ ∃ broker, Wrapped p url id report roots broker octets := by
  unfold fetch
  constructor
  · intro h
    split at h
    · cases h
    · rename_i broker hb
      dsimp only at h
      split at h
      · cases h
      · rename_i wrapped ht
        split at h
        · cases h
        · rename_i found hd
          cases h
          exact ⟨rfl, broker, hb, wrapped, ht, hd⟩
  · rintro ⟨rfl, broker, hb, wrapped, ht, hd⟩
    simp [hb, ht, hd]

theorem transferKey_answer_iff : (transferKey p lifetime now cache host url).answer = .ok octets
    ↔ ∃ outcome, (decision p lifetime now cache host url).answer = .ok (octets, outcome) := by
  unfold transferKey Decision.outcome
  cases (decision p lifetime now cache host url).answer with
  | error fault => simp [Except.map]
  | ok released => simp [Except.map, Prod.ext_iff]

/-- With an admitted report the key is what the host is supplied with. -/
theorem answer_of_admitted (hh : Uuid.isHardwareId host = true)
    (ha : Admitted p now host report roots) :
    (transferKey p lifetime now cache host url).answer = .ok octets
      ↔ Supplied p now cache host url report roots octets := by
  rw [transferKey_answer_iff]
  unfold Supplied
  cases hi : KeyUrl.keyId? url with
  | none => simp [decision, hh, hi, refuse]
  | some id =>
    rw [decision_of_admitted hh hi ha]
    cases hf : (cache.get? host).filter (isFresh now id) with
    | some k =>
      obtain ⟨hk, hfresh⟩ := Option.filter_eq_some_iff.1 hf
      obtain ⟨hid, hlt⟩ := isFresh_iff.1 hfresh
      constructor
      · rintro ⟨outcome, h⟩
        cases h
        exact ⟨id, rfl, .inl ⟨k, hk, hid, hlt, rfl⟩⟩
      · rintro ⟨id', hid', ⟨k', hk', -, -, ho⟩ | ⟨hstale, -⟩⟩
        · cases hk.symm.trans hk'
          subst ho
          exact ⟨.releasedFromCache, rfl⟩
        · cases hid'
          exact absurd (hstale k hk hid) (Int.not_le.2 hlt)
    | none =>
      have hnone : ∀ k, cache.get? host = some k → k.id = id → k.expires ≤ now := by
        intro k hk hid
        have hn := Option.filter_eq_none_iff.1 hf k hk
        exact Int.not_lt.1 fun hlt => hn (isFresh_iff.2 ⟨hid, hlt⟩)
      dsimp only
      simp only [fetch_answer_iff, exists_eq_left]
      constructor
      · intro hw
        exact ⟨id, rfl, .inr ⟨hnone, hw⟩⟩
      · rintro ⟨id', hid', ⟨k, hk, hkid, hlt, -⟩ | ⟨-, hw⟩⟩
        · cases hid'
          exact absurd (hnone k hk hkid) (Int.not_le.2 hlt)
        · cases hid'
          exact hw

/-- Whoever is released a key has been asked about, and nobody else has. -/
theorem asked_of_released (h : (transferKey p lifetime now cache host url).answer = .ok octets) :
    Uuid.isHardwareId host = true
      ∧ (transferKey p lifetime now cache host url).askedAbout = [host]
      ∧ ∃ report roots, Admitted p now host report roots := by
  obtain ⟨outcome, hd⟩ := transferKey_answer_iff.1 h
  have hh : Uuid.isHardwareId host = true := by
    by_contra hn
    rw [Bool.not_eq_true] at hn
    simp [decision, hn, refuse] at hd
  refine ⟨hh, ?_⟩
  unfold Outcome.askedAbout transferKey Decision.outcome
  rcases decision_cases p lifetime now cache host url with ⟨fault, calls, hr, -⟩ | ⟨id, -, hg⟩
  · rw [hr] at hd
    cases hd
  · dsimp only
    cases hdec : decision p lifetime now cache host url
    rw [hdec] at hg
    cases hg with
    | cached report roots k ha => exact ⟨rfl, report, roots, ha⟩
    | fetched report roots broker wrapped ha => exact ⟨rfl, report, roots, ha⟩

/-- A report serves the hosts it is given for. A release takes a report that the attestation service
gave for this very host; any other host that it gives the same report is served exactly when its own
entry or the broker supplies the key. -/
theorem report_serves_hosts_asked_about
    (h : (transferKey p lifetime now cache host url).answer = .ok octets) :
    (transferKey p lifetime now cache host url).askedAbout = [host]
      ∧ ∃ report roots, Admitted p now host report roots
        ∧ Supplied p now cache host url report roots octets
        ∧ ∀ others other address key, Uuid.isHardwareId other = true →
          p.attest other = .ok report →
          ((transferKey p lifetime now others other address).answer = .ok key
            ↔ Supplied p now others other address report roots key) := by
  obtain ⟨hh, hasked, report, roots, ha⟩ := asked_of_released h
  refine ⟨hasked, report, roots, ha, (answer_of_admitted hh ha).1 h, ?_⟩
  intro others other address key hother hattest
  have hadmitted : Admitted p now other report roots :=
    ⟨hattest, ha.loaded, ha.signed, ha.vouched⟩
  exact answer_of_admitted hother hadmitted

/-- Others who answer every question with a report on one host. -/
def confusedPeers : Peers where
  attest _ := .ok (Text.encode ("<Assertion><Attribute Name='HardwareUUID'><AttributeValue>"
    ++ "00964993-89c1-e711-906e-00163566263e</AttributeValue></Attribute></Assertion>"))
  roots := .ok []
  isSigned _ _ := true
  transfer _ _ _ _ := .ok "AQID"

def keyAddress : String :=
  "https://kbs/keys/6e8c5a3d-2f1b-4a7e-9c0d-1b2a3c4d5e6f/transfer"

/-- The host that the report is on is served with it. -/
theorem report_serves_its_host :
    (transferKey confusedPeers 300 0 .empty "00964993-89c1-e711-906e-00163566263e"
        keyAddress).answer = .ok [1, 2, 3]
      ∧ (transferKey confusedPeers 300 0 .empty "00964993-89c1-e711-906e-00163566263e"
        keyAddress).askedAbout = ["00964993-89c1-e711-906e-00163566263e"] :=
  have h : (transferKey confusedPeers 300 0 .empty "00964993-89c1-e711-906e-00163566263e"
      keyAddress).answer = .ok [1, 2, 3] := by decide +kernel
  ⟨h, (report_serves_hosts_asked_about h).1⟩

/-- A report on one host is not refused to another. -/
theorem report_serves_another_host :
    ¬ ∀ (p : Peers) (lifetime : Int) (now : Instant) (cache : KeyCache) (report : Octets)
      (host₁ host₂ url₁ url₂ : String),
      Uuid.isHardwareId host₁ = true → Uuid.isHardwareId host₂ = true →
      Uuid.parse? host₁ ≠ Uuid.parse? host₂ →
      p.attest host₁ = .ok report → p.attest host₂ = .ok report →
      (∃ octets, (transferKey p lifetime now cache host₁ url₁).answer = .ok octets) →
      ¬ ∃ octets, (transferKey p lifetime now cache host₂ url₂).answer = .ok octets := by
  intro h
  refine h confusedPeers 300 0 .empty _ "00964993-89c1-e711-906e-00163566263e"
    "4d3b1a2c-9f7e-4c6d-8b5a-1e2f3a4b5c6d" keyAddress keyAddress (by decide +kernel)
    (by decide +kernel) (by decide +kernel) rfl rfl ⟨[1, 2, 3], ?_⟩ ⟨[1, 2, 3], ?_⟩
  · decide +kernel
  · decide +kernel

end ImageTrust.Release
