import Mathlib.Data.List.Induction
import Mathlib.Tactic.SplitIfs
import ImageTrust.Proofs.Release.Course
import ImageTrust.Release.Run

/-!
Where released keys come from. A decision that answers a request rests on a report that was fetched,
read, signed, current and free of an accusation in the same call. Every entry of the cache was wrapped
by the broker in an earlier call for the same host, and no later call of that host was served by the
broker. A key out of the cache is therefore the one the broker handed out last.
-/

namespace ImageTrust.KeyCache

theorem get?_eq_some_iff {c : KeyCache} {host : String} {k : CachedKey} :
    c.get? host = some k ↔ (host, k) ∈ c.entries := by
  obtain ⟨entries, distinct⟩ := c
  unfold get?
  induction entries with
  | nil => simp
  | cons e es ih =>
    obtain ⟨name, key⟩ := e
    obtain ⟨hd, ht⟩ := List.nodup_cons.1 distinct
    have ih := ih ht
    dsimp only at ih ⊢
    rw [List.lookup_cons]
    by_cases hn : host = name
    · subst hn
      -- no entry behind the first can be one of the same host
      have hm : (host, k) ∉ es := fun hm => hd (List.mem_map.2 ⟨_, hm, rfl⟩)
      simp [hm, eq_comm]
    · have hb : (host == name) = false := by simpa using hn
      simp [hb, hn, ih]

theorem get?_keep {p : String × CachedKey → Bool} {c : KeyCache} {host : String}
    {k : CachedKey} : (c.keep p).get? host = some k ↔ c.get? host = some k ∧ p (host, k) = true := by
  simp only [get?_eq_some_iff, keep, List.mem_filter]

theorem get?_store {c : KeyCache} {host other : String} {k : CachedKey} :
    (c.store host k).get? other = if other = host then some k else c.get? other := by
  ext found
  split_ifs with h
  · subst h
    simp [get?, store]
  · simp [get?_eq_some_iff, store, h]

end ImageTrust.KeyCache

namespace ImageTrust.Release

/-- The decision on a request. -/
def Request.decision (lifetime : Int) (cache : KeyCache) (r : Request) : Decision :=
  match r.target.keyUrl with
  | .ok url => Release.decision r.peers lifetime r.now cache r.host url
  | .error fault => refuse fault []

/-- The id of the key that is asked for, when there is one. -/
def Request.keyId? (r : Request) : Option String :=
  r.target.keyUrl.toOption.bind KeyUrl.keyId?

section Requests

variable (lifetime : Int) (cache : KeyCache) (r : Request)

/-- What a request leaves behind follows from the decision on it. -/
theorem outcome_eq : r.outcome lifetime cache
    = (r.decision lifetime cache).outcome cache r.host r.keyId? := by
  obtain ⟨peers, now, host, target⟩ := r
  cases target with
  | url text => rfl
  | flavor f =>
    cases hf : flavorKeyUrl f with
    | error fault =>
      simp only [Request.outcome, Request.decision, Request.keyId?, Target.keyUrl, flavorKey, hf]
      rfl
    | ok url =>
      simp only [Request.outcome, Request.decision, Request.keyId?, Target.keyUrl, flavorKey, hf]
      rfl

theorem outcome_decision : ∃ id, r.outcome lifetime cache
    = (r.decision lifetime cache).outcome cache r.host id :=
  ⟨_, outcome_eq lifetime cache r⟩

theorem request_cases : (∃ fault calls, r.decision lifetime cache = refuse fault calls)
    ∨ ∃ url id, r.target.keyUrl = .ok url ∧ KeyUrl.keyId? url = some id
      ∧ Granted r.peers lifetime r.now cache r.host url id (r.decision lifetime cache) := by
  unfold Request.decision
  cases hu : r.target.keyUrl with
  | error fault => exact .inl ⟨fault, [], rfl⟩
  | ok url =>
    rcases decision_cases r.peers lifetime r.now cache r.host url
      with ⟨fault, calls, hd, -⟩ | ⟨id, hq, hg⟩
    · exact .inl ⟨fault, calls, hd⟩
    · exact .inr ⟨url, id, rfl, hq.key, hg⟩

/-- The broker served a request in its own call: it was asked behind the checks, with the report that
passed them, and what it handed out is the answer. -/
structure Served (lifetime : Int) (cache : KeyCache) (r : Request) (id : String)
    (octets : Octets) : Prop where
  answered : (r.outcome lifetime cache).answer = .ok octets
  asked : ∃ url report roots broker, r.target.keyUrl = .ok url ∧ KeyUrl.keyId? url = some id
    ∧ Admitted r.peers r.now r.host report roots
    ∧ Wrapped r.peers url id report roots broker octets
    ∧ (r.outcome lifetime cache).calls
      = checks r.host report roots ++ [.transfer broker roots id report]

/-- A request either leaves the cache alone and was not served by the broker, or it was served and its
host's entry is what the broker handed out. -/
theorem outcome_cache : ((r.outcome lifetime cache).cache = cache
      ∧ ∀ id octets, ¬ Served lifetime cache r id octets)
    ∨ ∃ id octets, Served lifetime cache r id octets
      ∧ (r.outcome lifetime cache).cache
        = cache.store r.host ⟨id, octets, r.now, Clock.later r.now lifetime⟩ := by
  obtain ⟨shown, ho⟩ := outcome_decision lifetime cache r
  obtain ⟨fault, calls, hd⟩ | ⟨url, id, hu, hi, hg⟩ :=
    request_cases lifetime cache r
  · left
    rw [hd] at ho
    refine ⟨by rw [ho]; rfl, fun id octets hs => ?_⟩
    have ha := hs.answered
    rw [ho] at ha
    cases ha
  · cases hdec : r.decision lifetime cache
    rw [hdec] at hg ho
    cases hg with
    | cached report roots k ha hk hid hlt =>
      left
      refine ⟨by rw [ho]; rfl, fun id octets hs => ?_⟩
      obtain ⟨_, _, _, _, _, _, _, _, hc⟩ := hs.asked
      rw [ho] at hc
      simp [Decision.outcome, checks] at hc
    | fetched report roots broker octets ha hw =>
      right
      exact ⟨id, octets, ⟨by rw [ho]; rfl, url, report, roots, broker, hu, hi, ha, hw,
        by rw [ho]; rfl⟩, by rw [ho]; rfl⟩

end Requests

/-- Where a host's cached key comes from in a run: a request of the host that the broker served with
this key, behind which no request of the host was served by the broker. -/
structure Origin (lifetime : Int) (events : List Event) (host : String) (k : CachedKey)
    (earlier : List Event) (r : Request) (later : List Event) : Prop where
  split : events = earlier ++ .request r :: later
  same : r.host = host
  served : Served lifetime (cacheAfter lifetime earlier) r k.id k.octets
  expires : k.expires = Clock.later r.now lifetime
  last : ∀ before s after, later = before ++ .request s :: after → s.host = host →
    ∀ id octets, ¬ Served lifetime (cacheAfter lifetime (earlier ++ .request r :: before)) s id octets

theorem Origin.snoc {lifetime : Int} {events earlier later : List Event} {host : String}
    {k : CachedKey} {r : Request} {e : Event} (h : Origin lifetime events host k earlier r later)
    (he : ∀ s, e = .request s → s.host = host →
      ∀ id octets, ¬ Served lifetime (cacheAfter lifetime events) s id octets) :
    Origin lifetime (events ++ [e]) host k earlier r (later ++ [e]) where
  split := by rw [h.split]; simp
  same := h.same
  served := h.served
  expires := h.expires
  last := by
    intro before s after hl hs
    rcases List.eq_nil_or_concat after with rfl | ⟨init, e', rfl⟩
    · obtain ⟨rfl, rfl⟩ := List.append_inj' hl rfl |>.imp_right List.singleton_inj.1
      rw [← h.split]
      exact he s rfl hs
    · rw [List.concat_eq_append, ← List.cons_append, ← List.append_assoc] at hl
      exact h.last before s init (List.append_inj' hl rfl).1 hs

/-- Every entry of the cache has an origin, whatever was done to the gate. -/
theorem cached_key_origin (lifetime : Int) (events : List Event) :
    ∀ host k, (cacheAfter lifetime events).get? host = some k →
      ∃ earlier r later, Origin lifetime events host k earlier r later := by
  induction events using List.reverseRecOn with
  | nil =>
    intro host k h
    simp [cacheAfter, KeyCache.get?, KeyCache.empty] at h
  | append_singleton events e ih =>
    intro host k h
    rw [cacheAfter_snoc] at h
    cases e with
    | purge now =>
      obtain ⟨earlier, r, later, ho⟩ := ih host k (KeyCache.get?_keep.1 h).1
      exact ⟨earlier, r, _, ho.snoc fun s hs => by cases hs⟩
    | request s =>
      rcases outcome_cache lifetime (cacheAfter lifetime events) s
        with ⟨hc, hn⟩ | ⟨id, octets, hs, hc⟩
      · rw [next, hc] at h
        obtain ⟨earlier, r, later, ho⟩ := ih host k h
        exact ⟨earlier, r, _, ho.snoc fun s' hs' _ => by cases hs'; exact hn⟩
      · rw [next, hc, KeyCache.get?_store] at h
        split_ifs at h with hh
        · -- the broker served this very request, so it is the origin and nothing is behind it
          cases h
          exact ⟨events, s, [], by simp, hh.symm, hs, rfl, by simp⟩
        · obtain ⟨earlier, r, later, ho⟩ := ih host k h
          exact ⟨earlier, r, _, ho.snoc fun s' hs' he => by cases hs'; exact absurd he.symm hh⟩

/-- What entitles a request to octets behind a run: a report examined in the same call, and a key that
the broker wrapped for the host, either in the same call or, when the broker was not asked, in the last
call of the host that it served, provided that this key has not expired yet. -/
def Entitled (lifetime : Int) (events : List Event) (r : Request) (octets : Octets) : Prop :=
  ∃ url id report roots, r.target.keyUrl = .ok url ∧ KeyUrl.keyId? url = some id
    ∧ Admitted r.peers r.now r.host report roots
    ∧ ((∃ broker, (r.outcome lifetime (cacheAfter lifetime events)).calls
          = checks r.host report roots ++ [.transfer broker roots id report]
        ∧ Wrapped r.peers url id report roots broker octets)
      ∨ ((r.outcome lifetime (cacheAfter lifetime events)).calls = checks r.host report roots
        ∧ ∃ k earlier s later, Origin lifetime events r.host k earlier s later
          ∧ k.id = id ∧ k.octets = octets ∧ r.now < Clock.later s.now lifetime))

/-- Nothing is released in a run without entitlement. -/
theorem released_key_entitled (lifetime : Int) (events : List Event) (r : Request)
    (octets : Octets) (h : (r.outcome lifetime (cacheAfter lifetime events)).answer = .ok octets) :
    Entitled lifetime events r octets := by
  unfold Entitled
  obtain ⟨shown, ho⟩ :=
    outcome_decision lifetime (cacheAfter lifetime events) r
  rw [ho] at h ⊢
  rcases request_cases lifetime (cacheAfter lifetime events) r
    with ⟨fault, calls, hd⟩ | ⟨url, id, hu, hi, hg⟩
  · rw [hd] at h
    cases h
  · cases hdec : r.decision lifetime (cacheAfter lifetime events)
    rw [hdec] at hg h
    cases hg with
    | cached report roots k ha hk hid hlt =>
      obtain ⟨earlier, s, later, horigin⟩ := cached_key_origin lifetime events r.host k hk
      rw [horigin.expires] at hlt
      cases h
      exact ⟨url, id, report, roots, hu, hi, ha,
        .inr ⟨rfl, k, earlier, s, later, horigin, hid, rfl, hlt⟩⟩
    | fetched report roots broker wrapped ha hw =>
      cases h
      exact ⟨url, id, report, roots, hu, hi, ha, .inl ⟨broker, rfl, hw⟩⟩

/-- Others who vouch for a host and hand out the same wrapped key each time. -/
def obligingPeers : Peers where
  attest _ := .ok (Text.encode "<Assertion><Attribute Name='TRUST_OVERALL'/></Assertion>")
  roots := .ok []
  isSigned _ _ := true
  transfer _ _ _ _ := .ok " AQID "

/-- A host asks for a key at an instant. -/
def keyRequest (now : Instant) : Request where
  peers := obligingPeers
  now := now
  host := "4d3b1a2c-9f7e-4c6d-8b5a-1e2f3a4b5c6d"
  target := .url "https://kbs/keys/6e8c5a3d-2f1b-4a7e-9c0d-1b2a3c4d5e6f/transfer"

/-- The second request within the lifetime is answered out of the cache. -/
theorem second_release_entitled :
    ((keyRequest 4000000000).outcome 5 (cacheAfter 5 [.request (keyRequest 0)])).answer
        = .ok [1, 2, 3]
      ∧ Entitled 5 [.request (keyRequest 0)] (keyRequest 4000000000) [1, 2, 3] :=
  have h : ((keyRequest 4000000000).outcome 5 (cacheAfter 5 [.request (keyRequest 0)])).answer
      = .ok [1, 2, 3] := by decide +kernel
  ⟨h, released_key_entitled 5 [.request (keyRequest 0)] (keyRequest 4000000000) [1, 2, 3] h⟩

end ImageTrust.Release
