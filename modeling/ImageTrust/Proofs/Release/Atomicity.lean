import ImageTrust.Proofs.Fallible
import ImageTrust.Proofs.Release.KeyUrl
import ImageTrust.Proofs.Release.Provenance

/-!
One request as a whole. The gate asks at most three parties, each once and in order, and none before
what was asked earlier allows it. A refusal leaves the cache as it was, and so does a key out of the
cache; a key from the broker changes the entry of the requesting host alone. Every request adds one
event to the trail, which tells how it ended.
-/

namespace ImageTrust.Release

inductive Party where
  | attestation
  | verifier
  | broker
  deriving DecidableEq, Repr

def Call.party : Call → Party
  | .attest _ => .attestation
  | .isSigned .. => .verifier
  | .transfer .. => .broker

def Outcome.AskedBroker (o : Outcome) : Prop :=
  .broker ∈ o.calls.map Call.party

/-- A request has to be taken to the broker: its report is admitted, the cache has nothing for it, and
its URL says where the broker is. -/
structure Due (p : Peers) (now : Instant) (cache : KeyCache) (host url id : String)
    (report : Octets) (roots : List Octets) (broker : Url) : Prop where
  admitted : Admitted p now host report roots
  missing : NoneFresh cache now host id
  address : KeyUrl.LeadsTo url id broker

/-- Whom a request makes the gate ask, and why nobody else. -/
inductive Reach (p : Peers) (now : Instant) (cache : KeyCache) (host url : String) :
    List Call → Prop where
  | nobody : (∀ id, ¬ Asks host url id) → Reach p now cache host url []
  | attestation (id) : Asks host url id → (∀ report a roots, ¬ Readable p host report a roots) →
      Reach p now cache host url [.attest host]
  | verifier (id report a roots) : Asks host url id → Readable p host report a roots →
      (∀ broker, ¬ Due p now cache host url id report roots broker) →
      Reach p now cache host url
        [.attest host, .isSigned report roots (p.isSigned report roots)]
  | broker (id report roots broker) : Asks host url id →
      Due p now cache host url id report roots broker →
      Reach p now cache host url (checks host report roots ++ [.transfer broker roots id report])

variable {p : Peers} {lifetime : Int} {now : Instant} {cache : KeyCache} {host url id : String}
  {report : Octets} {roots : List Octets}

theorem Asks.unique {id' : String} (h : Asks host url id) (h' : Asks host url id') : id' = id :=
  Option.some.inj (h'.key.symm.trans h.key)

theorem Readable.unique {a a' : Assertion} {report' : Octets} {roots' : List Octets}
    (h : Readable p host report a roots) (h' : Readable p host report' a' roots') :
    report' = report ∧ a' = a ∧ roots' = roots := by
  have hreport := ok_unique h'.fetched h.fetched
  subst hreport
  exact ⟨rfl, ok_unique h'.read h.read, ok_unique h'.loaded h.loaded⟩

theorem Admitted.readable (h : Admitted p now host report roots) :
    ∃ a, Readable p host report a roots := by
  obtain ⟨a, hread, -⟩ := h.vouched
  exact ⟨a, h.fetched, hread, h.loaded⟩

theorem Refused.reach {fault : Fault} {calls : List Call}
    (h : Refused p now cache host url fault calls) : Reach p now cache host url calls := by
  cases h with
  | noHost hh =>
    refine .nobody fun id hq => ?_
    rw [hq.host] at hh
    cases hh
  | noKey hh hi =>
    refine .nobody fun id hq => ?_
    rw [hq.key] at hi
    cases hi
  | noReport id fault hq hr =>
    refine .attestation id hq fun report a roots h => ?_
    rw [h.fetched] at hr
    cases hr
  | malformed id report fault hq hr ha =>
    refine .attestation id hq fun report' a roots h => ?_
    obtain rfl := ok_unique h.fetched hr
    rw [h.read] at ha
    cases ha
  | noRoots id report a fault hq hr ha hl =>
    refine .attestation id hq fun report' a' roots h => ?_
    rw [h.loaded] at hl
    cases hl
  | unsigned id report a roots hq hr hs =>
    rw [← hs]
    refine .verifier id report a roots hq hr fun broker h => ?_
    rw [h.admitted.signed] at hs
    cases hs
  | notCurrent id report a roots hq hr hs hc =>
    unfold checks
    rw [← hs]
    refine .verifier id report a roots hq hr fun broker h => ?_
    obtain ⟨a', hread, hcurrent, -⟩ := h.admitted.vouched
    obtain rfl := ok_unique hread hr.read
    rw [hcurrent] at hc
    cases hc
  | accused id report a roots hq hr hs hc hu =>
    unfold checks
    rw [← hs]
    refine .verifier id report a roots hq hr fun broker h => ?_
    obtain ⟨a', hread, -, hclear⟩ := h.admitted.vouched
    obtain rfl := ok_unique hread hr.read
    rw [hclear] at hu
    cases hu
  | noBroker id report roots hq ha hn hb =>
    obtain ⟨a, hr⟩ := ha.readable
    unfold checks
    rw [← ha.signed]
    refine .verifier id report a roots hq hr fun broker h => ?_
    rw [KeyUrl.leadsTo_iff.1 h.address] at hb
    cases hb
  | notHanded id report roots broker fault hq ha hn hb ht =>
    exact .broker id report roots broker hq ⟨ha, hn, KeyUrl.leadsTo_iff.2 hb⟩
  | badKey id report roots broker wrapped fault hq ha hn hb ht hd =>
    exact .broker id report roots broker hq ⟨ha, hn, KeyUrl.leadsTo_iff.2 hb⟩

theorem Granted.reach {d : Decision} (hq : Asks host url id)
    (h : Granted p lifetime now cache host url id d) : Reach p now cache host url d.calls := by
  cases h with
  | cached report roots k ha hk hid hlt =>
    obtain ⟨a, hr⟩ := ha.readable
    dsimp only [checks]
    rw [← ha.signed]
    refine .verifier id report a roots hq hr fun broker h => ?_
    exact Int.not_le.2 hlt (h.missing k hk hid)
  | fetched report roots broker octets ha hw hn =>
    exact .broker id report roots broker hq ⟨ha, hn, KeyUrl.leadsTo_iff.2 hw.address⟩

theorem decision_reach (p : Peers) (lifetime : Int) (now : Instant) (cache : KeyCache)
    (host url : String) :
    Reach p now cache host url (decision p lifetime now cache host url).calls := by
  rcases decision_cases p lifetime now cache host url with ⟨fault, calls, hd, hr⟩ | ⟨id, hq, hg⟩
  · rw [hd]
    exact hr.reach
  · exact hg.reach hq

/-- A request is for the key with an id at a URL, and its host is well formed. -/
def Request.Names (r : Request) (url id : String) : Prop :=
  r.target.keyUrl = .ok url ∧ Asks r.host url id

/-- The calls made for a request come in order, and each is made exactly when its turn comes. -/
structure Orderly (cache : KeyCache) (r : Request) (calls : List Call) : Prop where
  order : calls.map Call.party <+: [.attestation, .verifier, .broker]
  attest_iff : ∀ host, .attest host ∈ calls ↔ host = r.host ∧ ∃ url id, r.Names url id
  isSigned_iff : ∀ report roots verdict, .isSigned report roots verdict ∈ calls ↔
    (∃ url id, r.Names url id) ∧ (∃ a, Readable r.peers r.host report a roots)
      ∧ verdict = r.peers.isSigned report roots
  transfer_iff : ∀ broker roots id report, .transfer broker roots id report ∈ calls ↔
    ∃ url, r.Names url id ∧ Due r.peers r.now cache r.host url id report roots broker

/-- Nothing is kept of a request but a key that the broker handed out, and only for its host. -/
structure Atomic (cache : KeyCache) (host : String) (o : Outcome) : Prop where
  refused : ∀ fault, o.answer = .error fault → o.cache = cache
  cached : ∀ octets, o.answer = .ok octets → ¬ o.AskedBroker → o.cache = cache
  fetched : ∀ octets, o.answer = .ok octets → o.AskedBroker →
    (∃ k, o.cache.get? host = some k ∧ k.octets = octets)
      ∧ ∀ other, other ≠ host → o.cache.get? other = cache.get? other

/-- An event tells of a request how it ended: with which fault, or who supplied the key. -/
structure Audited (r : Request) (o : Outcome) (event : AuditEvent) : Prop where
  refused : ∀ fault, o.answer = .error fault →
    event = .key r.host r.keyId? .denied (some fault.message)
  cached : ∀ octets, o.answer = .ok octets → ¬ o.AskedBroker →
    event = .key r.host r.keyId? .releasedFromCache none
  fetched : ∀ octets, o.answer = .ok octets → o.AskedBroker →
    event = .key r.host r.keyId? .releasedFromBroker none

theorem Reach.order {calls : List Call} (h : Reach p now cache host url calls) :
    calls.map Call.party <+: [.attestation, .verifier, .broker] := by
  cases h with
  | nobody => exact ⟨_, rfl⟩
  | attestation => exact ⟨_, rfl⟩
  | verifier => exact ⟨_, rfl⟩
  | broker => exact ⟨_, rfl⟩

theorem Reach.attest_iff {calls : List Call} (h : Reach p now cache host url calls)
    (other : String) : .attest other ∈ calls ↔ other = host ∧ ∃ id, Asks host url id := by
  cases h with
  | nobody hn => simp [hn]
  | attestation id hq =>
    have hid : ∃ id, Asks host url id := ⟨id, hq⟩
    simp [hid]
  | verifier id report a roots hq =>
    have hid : ∃ id, Asks host url id := ⟨id, hq⟩
    simp [hid]
  | broker id report roots broker hq =>
    have hid : ∃ id, Asks host url id := ⟨id, hq⟩
    simp [checks, hid]

theorem Reach.isSigned_iff {calls : List Call} (h : Reach p now cache host url calls)
    (report : Octets) (roots : List Octets) (verdict : Bool) :
    .isSigned report roots verdict ∈ calls ↔ (∃ id, Asks host url id)
      ∧ (∃ a, Readable p host report a roots) ∧ verdict = p.isSigned report roots := by
  cases h with
  | nobody hn => simp [hn]
  | attestation id hq hn => simp [hn]
  | verifier id found a anchors hq hr =>
    constructor
    · intro hm
      simp only [List.mem_cons, reduceCtorEq, Call.isSigned.injEq, List.not_mem_nil, or_false,
        false_or] at hm
      obtain ⟨rfl, rfl, rfl⟩ := hm
      exact ⟨⟨id, hq⟩, ⟨a, hr⟩, rfl⟩
    · rintro ⟨-, ⟨a', hr'⟩, rfl⟩
      obtain ⟨rfl, -, rfl⟩ := hr.unique hr'
      simp
  | broker id found anchors broker hq hd =>
    obtain ⟨a, hr⟩ := hd.admitted.readable
    constructor
    · intro hm
      simp only [checks, List.cons_append, List.nil_append, List.mem_cons, reduceCtorEq,
        Call.isSigned.injEq, List.not_mem_nil, or_false, false_or] at hm
      obtain ⟨rfl, rfl, rfl⟩ := hm
      exact ⟨⟨id, hq⟩, ⟨a, hr⟩, hd.admitted.signed.symm⟩
    · rintro ⟨-, ⟨a', hr'⟩, rfl⟩
      obtain ⟨rfl, -, rfl⟩ := hr.unique hr'
      simp [checks, hd.admitted.signed]

theorem Due.unique {id' : String} {report' : Octets} {roots' : List Octets} {broker broker' : Url}
    (h : Due p now cache host url id report roots broker) (hid : id' = id)
    (h' : Due p now cache host url id' report' roots' broker') :
    report' = report ∧ roots' = roots ∧ broker' = broker := by
  subst hid
  obtain ⟨a, hr⟩ := h.admitted.readable
  obtain ⟨a', hr'⟩ := h'.admitted.readable
  obtain ⟨hreport, -, hroots⟩ := hr.unique hr'
  have hb := (KeyUrl.leadsTo_iff.1 h'.address).symm.trans (KeyUrl.leadsTo_iff.1 h.address)
  exact ⟨hreport, hroots, Option.some.inj hb⟩

theorem Reach.transfer_iff {calls : List Call} (h : Reach p now cache host url calls)
    (broker : Url) (roots : List Octets) (id : String) (report : Octets) :
    .transfer broker roots id report ∈ calls ↔ Asks host url id
      ∧ Due p now cache host url id report roots broker := by
  cases h with
  | nobody hn => simp [hn]
  | attestation id' hq hn =>
    have hd : ¬ Due p now cache host url id report roots broker := by
      intro h
      obtain ⟨a, hr⟩ := h.admitted.readable
      exact hn report a roots hr
    simp [hd]
  | verifier id' found a anchors hq hr hn =>
    have hd : ¬ (Asks host url id ∧ Due p now cache host url id report roots broker) := by
      rintro ⟨hq', h⟩
      obtain rfl := hq.unique hq'
      obtain ⟨a', hr'⟩ := h.admitted.readable
      obtain ⟨rfl, -, rfl⟩ := hr.unique hr'
      exact hn broker h
    simp [hd]
  | broker id' found anchors address hq hd =>
    constructor
    · intro hm
      simp only [checks, List.cons_append, List.nil_append, List.mem_cons, reduceCtorEq,
        Call.transfer.injEq, List.not_mem_nil, or_false, false_or] at hm
      obtain ⟨rfl, rfl, rfl, rfl⟩ := hm
      exact ⟨hq, hd⟩
    · rintro ⟨hq', hd'⟩
      obtain rfl := hq.unique hq'
      obtain ⟨rfl, rfl, rfl⟩ := hd.unique rfl hd'
      simp

theorem checks_without_broker :
    Party.broker ∉ (checks host report roots).map Call.party := by
  simp [checks, Call.party]

theorem broker_behind_checks {broker : Url} : Party.broker
    ∈ (checks host report roots ++ [Call.transfer broker roots id report]).map Call.party := by
  simp [checks, Call.party]

section Requests

variable (lifetime : Int) (cache : KeyCache) (r : Request)

theorem request_orderly : Orderly cache r (r.outcome lifetime cache).calls := by
  rw [outcome_eq]
  change Orderly cache r (r.decision lifetime cache).calls
  unfold Request.decision
  cases hu : r.target.keyUrl with
  | error fault =>
    have hn : ∀ url id, ¬ r.Names url id := by
      rintro url id ⟨h, -⟩
      rw [hu] at h
      cases h
    constructor <;> simp [refuse, hn]
  | ok url =>
    have hr := decision_reach r.peers lifetime r.now cache r.host url
    have hn : ∀ url' id, r.Names url' id ↔ url = url' ∧ Asks r.host url' id := by
      intro url' id
      unfold Request.Names
      rw [hu, Except.ok.injEq]
    constructor
    · exact hr.order
    · intro host
      simpa [hn] using hr.attest_iff host
    · intro report roots verdict
      simpa [hn] using hr.isSigned_iff report roots verdict
    · intro broker roots id report
      simpa [hn, and_assoc] using hr.transfer_iff broker roots id report

theorem outcome_cases :
    (∃ fault calls, r.decision lifetime cache = refuse fault calls)
      ∨ (∃ (k : CachedKey) (report : Octets) (roots : List Octets), r.decision lifetime cache
          = ⟨.ok (k.octets, .releasedFromCache), checks r.host report roots, none⟩)
      ∨ ∃ (k : CachedKey) (report : Octets) (roots : List Octets) (broker : Url),
        r.decision lifetime cache
          = ⟨.ok (k.octets, .releasedFromBroker),
            checks r.host report roots ++ [.transfer broker roots k.id report], some k⟩ := by
  rcases request_cases lifetime cache r with hrefused | ⟨url, id, -, -, hg⟩
  · exact .inl hrefused
  · cases hd : r.decision lifetime cache
    rw [hd] at hg
    cases hg with
    | cached report roots k => exact .inr (.inl ⟨k, report, roots, rfl⟩)
    | fetched report roots broker octets =>
      exact .inr (.inr ⟨⟨id, octets, r.now, Clock.later r.now lifetime⟩, report, roots, broker, rfl⟩)

theorem request_atomic : Atomic cache r.host (r.outcome lifetime cache) := by
  rw [outcome_eq]
  rcases outcome_cases lifetime cache r
    with ⟨fault, calls, hd⟩ | ⟨k, report, roots, hd⟩ | ⟨k, report, roots, broker, hd⟩
  · rw [hd]
    exact ⟨fun _ _ => rfl, nofun, nofun⟩
  · rw [hd]
    refine ⟨nofun, fun _ _ _ => rfl, fun octets _ ha => ?_⟩
    exact (checks_without_broker ha).elim
  · rw [hd]
    refine ⟨nofun, fun octets _ ha => ?_, fun octets ha _ => ⟨⟨k, ?_, ?_⟩, ?_⟩⟩
    · exact (ha broker_behind_checks).elim
    · exact KeyCache.get?_store.trans (if_pos rfl)
    · cases ha
      rfl
    · intro other hother
      exact KeyCache.get?_store.trans (if_neg hother)

theorem request_audited : Audited r (r.outcome lifetime cache) (r.outcome lifetime cache).event := by
  rw [outcome_eq]
  rcases outcome_cases lifetime cache r
    with ⟨fault, calls, hd⟩ | ⟨k, report, roots, hd⟩ | ⟨k, report, roots, broker, hd⟩
  · rw [hd]
    refine ⟨fun _ ha => ?_, nofun, nofun⟩
    cases ha
    rfl
  · rw [hd]
    refine ⟨nofun, fun _ _ _ => rfl, fun octets _ ha => ?_⟩
    exact (checks_without_broker ha).elim
  · rw [hd]
    refine ⟨nofun, fun octets _ ha => ?_, fun _ _ _ => rfl⟩
    exact (ha broker_behind_checks).elim

/-- Whatever the cache holds and whatever the others answer, a request asks them in order and each at
most once, keeps nothing but a key that the broker handed out for its host, and adds one event to the
trail of a run, whatever comes behind it. -/
theorem request_ordered_atomic_audited :
    Orderly cache r (r.outcome lifetime cache).calls
      ∧ Atomic cache r.host (r.outcome lifetime cache)
      ∧ ∃ event, Audited r (r.outcome lifetime cache) event
        ∧ ∀ later, trailFrom lifetime cache (.request r :: later)
          = event :: trailFrom lifetime (r.outcome lifetime cache).cache later := by
  refine ⟨request_orderly lifetime cache r, request_atomic lifetime cache r, _,
    request_audited lifetime cache r, fun later => ?_⟩
  simp only [trailFrom, outcomesFrom, List.map_cons]

end Requests

end ImageTrust.Release
