import ImageTrust.Proofs.Release.Provenance

/-!
Faults of a key's URL and the cache. Where the broker is matters only when it is asked, and a key out of
the cache needs no broker. So a URL that names a key without leading to a broker is refused, unless the
host's own entry for this key has not expired. A URL that names no key is always refused.
-/

namespace ImageTrust.Release

variable {p : Peers} {lifetime : Int} {now : Instant} {host url text : String}

theorem refused_keyUrl {cache : KeyCache} {calls : List Call}
    (h : Refused p now cache host url (.keyUrl text) calls) :
    text = url ∧ (Uuid.isHardwareId host = true ∧ KeyUrl.keyId? url = none
      ∨ ∃ id report roots, Asks host url id ∧ Admitted p now host report roots
        ∧ (Url.https? url).bind (KeyUrl.broker? · id) = none) := by
  cases h with
  | noKey hh hi => exact ⟨rfl, .inl ⟨hh, hi⟩⟩
  | noBroker id report roots hq ha hn hb => exact ⟨rfl, .inr ⟨id, report, roots, hq, ha, hb⟩⟩

/-- A request that fails for its URL with one cache fails so with every other one, unless that has the
key. -/
theorem keyUrl_fault_or_fresh {cache : KeyCache} (cache' : KeyCache)
    (h : (transferKey p lifetime now cache host url).answer = .error (.keyUrl text)) :
    ((transferKey p lifetime now cache' host url).answer = .error (.keyUrl url)
        ∧ ∀ id, KeyUrl.keyId? url = some id → NoneFresh cache' now host id)
      ∨ ∃ id k, KeyUrl.keyId? url = some id ∧ cache'.get? host = some k ∧ k.id = id
        ∧ now < k.expires
        ∧ (transferKey p lifetime now cache' host url).answer = .ok k.octets := by
  obtain ⟨calls, hr⟩ := transferKey_error_iff.1 h
  rcases (refused_keyUrl hr).2 with ⟨hh, hi⟩ | ⟨id, report, roots, hq, ha, hb⟩
  · refine .inl ⟨transferKey_error_iff.2 ⟨_, .noKey hh hi⟩, fun id hid => ?_⟩
    rw [hi] at hid
    cases hid
  · by_cases hn : NoneFresh cache' now host id
    · refine .inl ⟨transferKey_error_iff.2 ⟨_, .noBroker id report roots hq ha hn hb⟩, ?_⟩
      intro id' hid
      obtain rfl := Option.some.inj (hq.key.symm.trans hid)
      exact hn
    · unfold NoneFresh at hn
      simp only [not_forall] at hn
      obtain ⟨k, hk, hid, hle⟩ := hn
      have hlt : now < k.expires := Int.not_le.1 hle
      refine .inr ⟨id, k, hq.key, hk, hid, hlt, ?_⟩
      have hg : Granted p lifetime now cache' host url id _ := .cached report roots k ha hk hid hlt
      unfold transferKey
      rw [decision_of_granted hq hg]
      rfl

/-- A request that fails for its URL with an empty cache fails so after every run, or else the host's
own entry has the key that the URL names and has not expired. This key is then the answer; the broker
handed it out for the host in an earlier call of the run. -/
theorem keyUrl_fault_unless_cached (lifetime : Int) (events : List Event) (p : Peers) (now : Instant)
    (host url text : String)
    (h : (transferKey p lifetime now .empty host url).answer = .error (.keyUrl text)) :
    ((transferKey p lifetime now (cacheAfter lifetime events) host url).answer = .error (.keyUrl url)
        ∧ ∀ id, KeyUrl.keyId? url = some id → NoneFresh (cacheAfter lifetime events) now host id)
      ∨ ∃ id k, KeyUrl.keyId? url = some id ∧ (cacheAfter lifetime events).get? host = some k
        ∧ k.id = id ∧ now < k.expires
        ∧ (transferKey p lifetime now (cacheAfter lifetime events) host url).answer = .ok k.octets
        ∧ ∃ earlier s later, Origin lifetime events host k earlier s later := by
  rcases keyUrl_fault_or_fresh (cacheAfter lifetime events) h
    with hrefused | ⟨id, k, hi, hk, hid, hlt, hok⟩
  · exact .inl hrefused
  · exact .inr ⟨id, k, hi, hk, hid, hlt, hok, cached_key_origin lifetime events host k hk⟩

/-- A URL that names the key of `keyRequest` without leading to its broker. -/
def shortAddress : String :=
  "https://kbs/keys/6e8c5a3d-2f1b-4a7e-9c0d-1b2a3c4d5e6f"

theorem short_address_refused :
    (transferKey obligingPeers 5 1 .empty (keyRequest 0).host shortAddress).answer
      = .error (.keyUrl shortAddress) := by
  decide +kernel

theorem short_address_cached :
    (transferKey obligingPeers 5 1 (cacheAfter 5 [.request (keyRequest 0)]) (keyRequest 0).host
      shortAddress).answer = .ok [1, 2, 3] := by
  decide +kernel

theorem short_address_served_from_cache :
    (transferKey obligingPeers 5 1 .empty (keyRequest 0).host shortAddress).answer
        = .error (.keyUrl shortAddress)
      ∧ ∃ k, (transferKey obligingPeers 5 1 (cacheAfter 5 [.request (keyRequest 0)])
          (keyRequest 0).host shortAddress).answer = .ok k.octets
        ∧ ∃ earlier s later,
          Origin 5 [.request (keyRequest 0)] (keyRequest 0).host k earlier s later := by
  refine ⟨short_address_refused, ?_⟩
  rcases keyUrl_fault_unless_cached 5 [.request (keyRequest 0)] obligingPeers 1 (keyRequest 0).host
    shortAddress shortAddress short_address_refused
    with ⟨hrefused, -⟩ | ⟨id, k, -, -, -, -, hok, horigin⟩
  · rw [short_address_cached] at hrefused
    cases hrefused
  · exact ⟨k, hok, horigin⟩

/-- A fault of the URL with an empty cache does not stay one after every run. -/
theorem keyUrl_fault_lost_to_cache :
    ¬ ∀ (lifetime : Int) (events : List Event) (p : Peers) (now : Instant) (host url : String),
      (∃ text, (transferKey p lifetime now .empty host url).answer = .error (.keyUrl text)) →
      ∃ text, (transferKey p lifetime now (cacheAfter lifetime events) host url).answer
        = .error (.keyUrl text) := by
  intro h
  obtain ⟨text, ht⟩ := h 5 [.request (keyRequest 0)] obligingPeers 1 (keyRequest 0).host shortAddress
    ⟨_, short_address_refused⟩
  rw [short_address_cached] at ht
  cases ht

end ImageTrust.Release
