import ImageTrust.Release.Gate

/-!
The courses that a request can take, each with its whole list of calls. A request is refused at the
first check that fails, or it is granted out of the cache or by the broker. The courses exclude one
another and leave nothing out, so a decision is known from its course and the other way round.
-/

namespace ImageTrust.Release

/-- A report on a host that allows a release: fetched in this call, an assertion, signed under the
roots that were loaded, current and without an accusation. -/
structure Admitted (p : Peers) (now : Instant) (host : String) (report : Octets)
    (roots : List Octets) : Prop where
  fetched : p.attest host = .ok report
  loaded : p.roots = .ok roots
  signed : p.isSigned report roots = true
  vouched : ∃ a, Assertion.ofOctets report = .ok a ∧ a.isCurrent now = true
    ∧ a.reportsUntrusted = false

/-- The calls that every release makes. -/
def checks (host : String) (report : Octets) (roots : List Octets) : List Call :=
  [.attest host, .isSigned report roots true]

/-- The broker at a key's URL wrapped these octets for the key with an id, asked with the report. -/
structure Wrapped (p : Peers) (url id : String) (report : Octets) (roots : List Octets)
    (broker : Url) (octets : Octets) : Prop where
  address : (Url.https? url).bind (KeyUrl.broker? · id) = some broker
  handed : ∃ wrapped, p.transfer broker roots id report = .ok wrapped
    ∧ Base64.decode (Text.trim wrapped) = .ok octets

/-- A request with a well-formed host and a URL that names a key. -/
structure Asks (host url id : String) : Prop where
  host : Uuid.isHardwareId host = true
  key : KeyUrl.keyId? url = some id

/-- A report that can be examined: it was fetched, it is an assertion, and there are roots to check its
signature with. -/
structure Readable (p : Peers) (host : String) (report : Octets) (a : Assertion)
    (roots : List Octets) : Prop where
  fetched : p.attest host = .ok report
  read : Assertion.ofOctets report = .ok a
  loaded : p.roots = .ok roots

/-- The cache has nothing for a host that asks for the key with an id. -/
def NoneFresh (cache : KeyCache) (now : Instant) (host id : String) : Prop :=
  ∀ k, cache.get? host = some k → k.id = id → k.expires ≤ now

/-- The decisions that answer a request. -/
inductive Granted (p : Peers) (lifetime : Int) (now : Instant) (cache : KeyCache)
    (host url id : String) : Decision → Prop where
  | cached (report roots k) : Admitted p now host report roots → cache.get? host = some k →
      k.id = id → now < k.expires →
      Granted p lifetime now cache host url id
        ⟨.ok (k.octets, .releasedFromCache), checks host report roots, none⟩
  | fetched (report roots broker octets) : Admitted p now host report roots →
      Wrapped p url id report roots broker octets → NoneFresh cache now host id →
      Granted p lifetime now cache host url id
        ⟨.ok (octets, .releasedFromBroker),
          checks host report roots ++ [.transfer broker roots id report],
          some ⟨id, octets, now, Clock.later now lifetime⟩⟩

/-- Why a request is refused, and after which calls. -/
inductive Refused (p : Peers) (now : Instant) (cache : KeyCache) (host url : String) :
    Fault → List Call → Prop where
  | noHost : Uuid.isHardwareId host = false → Refused p now cache host url (.hardwareUuid host) []
  | noKey : Uuid.isHardwareId host = true → KeyUrl.keyId? url = none →
      Refused p now cache host url (.keyUrl url) []
  | noReport (id fault) : Asks host url id → p.attest host = .error fault →
      Refused p now cache host url (.attestation fault) [.attest host]
  | malformed (id report fault) : Asks host url id → p.attest host = .ok report →
      Assertion.ofOctets report = .error fault →
      Refused p now cache host url (.report fault) [.attest host]
  | noRoots (id report a fault) : Asks host url id → p.attest host = .ok report →
      Assertion.ofOctets report = .ok a → p.roots = .error fault →
      Refused p now cache host url (.authorities fault) [.attest host]
  | unsigned (id report a roots) : Asks host url id → Readable p host report a roots →
      p.isSigned report roots = false →
      Refused p now cache host url .signature [.attest host, .isSigned report roots false]
  | notCurrent (id report a roots) : Asks host url id → Readable p host report a roots →
      p.isSigned report roots = true → a.isCurrent now = false →
      Refused p now cache host url .notCurrent (checks host report roots)
  | accused (id report a roots) : Asks host url id → Readable p host report a roots →
      p.isSigned report roots = true → a.isCurrent now = true → a.reportsUntrusted = true →
      Refused p now cache host url .untrusted (checks host report roots)
  | noBroker (id report roots) : Asks host url id → Admitted p now host report roots →
      NoneFresh cache now host id → (Url.https? url).bind (KeyUrl.broker? · id) = none →
      Refused p now cache host url (.keyUrl url) (checks host report roots)
  | notHanded (id report roots broker fault) : Asks host url id →
      Admitted p now host report roots → NoneFresh cache now host id →
      (Url.https? url).bind (KeyUrl.broker? · id) = some broker →
      p.transfer broker roots id report = .error fault →
      Refused p now cache host url (.broker fault)
        (checks host report roots ++ [.transfer broker roots id report])
  | badKey (id report roots broker wrapped fault) : Asks host url id →
      Admitted p now host report roots → NoneFresh cache now host id →
      (Url.https? url).bind (KeyUrl.broker? · id) = some broker →
      p.transfer broker roots id report = .ok wrapped →
      Base64.decode (Text.trim wrapped) = .error fault →
      Refused p now cache host url (.keyMaterial fault)
        (checks host report roots ++ [.transfer broker roots id report])

variable {p : Peers} {lifetime : Int} {now : Instant} {cache : KeyCache} {host url id : String}
  {report : Octets} {roots : List Octets}

theorem isFresh_iff {k : CachedKey} : isFresh now id k = true ↔ k.id = id ∧ now < k.expires := by
  unfold isFresh CachedKey.isExpired
  rw [Bool.and_eq_true, Bool.not_eq_true', decide_eq_false_iff_not, decide_eq_true_eq, Int.not_le]
  exact and_comm

theorem noneFresh_iff :
    NoneFresh cache now host id ↔ (cache.get? host).filter (isFresh now id) = none := by
  rw [Option.filter_eq_none_iff]
  constructor
  · intro h k hk hf
    obtain ⟨hid, hlt⟩ := isFresh_iff.1 hf
    exact Int.not_le.2 hlt (h k hk hid)
  · intro h k hk hid
    exact Int.not_lt.1 fun hlt => h k hk (isFresh_iff.2 ⟨hid, hlt⟩)

theorem examine_of_readable {a : Assertion} (hr : Readable p host report a roots) :
    examine p now report = ([.isSigned report roots (p.isSigned report roots)],
      if !p.isSigned report roots then .error .signature
      else if !a.isCurrent now then .error .notCurrent
      else if a.reportsUntrusted then .error .untrusted
      else .ok roots) := by
  unfold examine
  simp only [hr.read, hr.loaded]

theorem examine_of_admitted (ha : Admitted p now host report roots) :
    examine p now report = ([.isSigned report roots true], .ok roots) := by
  obtain ⟨a, hread, hcurrent, hclear⟩ := ha.vouched
  rw [examine_of_readable ⟨ha.fetched, hread, ha.loaded⟩, ha.signed, hcurrent, hclear]
  rfl

theorem decision_of_asks (ha : Asks host url id) (hr : p.attest host = .ok report) :
    decision p lifetime now cache host url
      = match (examine p now report).2 with
        | .error fault => refuse fault (.attest host :: (examine p now report).1)
        | .ok roots =>
          match (cache.get? host).filter (isFresh now id) with
          | some k =>
            ⟨.ok (k.octets, .releasedFromCache), .attest host :: (examine p now report).1, none⟩
          | none =>
            fetch p lifetime now url id report roots (.attest host :: (examine p now report).1) := by
  have hhost : ¬ (!Uuid.isHardwareId host) = true := by simp [ha.host]
  unfold decision
  rw [if_neg hhost, ha.key]
  dsimp only
  rewrite [hr]
  rfl

/-- With an admitted report a decision looks in the cache and then goes to the broker. -/
theorem decision_of_admitted (hh : Uuid.isHardwareId host = true) (hi : KeyUrl.keyId? url = some id)
    (ha : Admitted p now host report roots) :
    decision p lifetime now cache host url
      = match (cache.get? host).filter (isFresh now id) with
        | some k => ⟨.ok (k.octets, .releasedFromCache), checks host report roots, none⟩
        | none => fetch p lifetime now url id report roots (checks host report roots) := by
  rw [decision_of_asks ⟨hh, hi⟩ ha.fetched, examine_of_admitted ha]
  rfl

theorem decision_of_noneFresh (hq : Asks host url id) (ha : Admitted p now host report roots)
    (hn : NoneFresh cache now host id) : decision p lifetime now cache host url
      = fetch p lifetime now url id report roots (checks host report roots) := by
  rw [decision_of_admitted hq.host hq.key ha, noneFresh_iff.1 hn]

theorem decision_of_refused {fault : Fault} {calls : List Call}
    (h : Refused p now cache host url fault calls) :
    decision p lifetime now cache host url = refuse fault calls := by
  cases h with
  | noHost hh =>
    unfold decision
    rw [hh]
    rfl
  | noKey hh hi =>
    unfold decision
    rw [hh, hi]
    rfl
  | noReport id fault hq hr =>
    unfold decision
    simp only [hq.host, hq.key, hr, Bool.not_true, Bool.false_eq_true, if_false]
  | malformed id report fault hq hr ha =>
    have he : examine p now report = ([], .error (.report fault)) := by
      unfold examine
      rw [ha]
    rw [decision_of_asks hq hr, he]
  | noRoots id report a fault hq hr ha hl =>
    have he : examine p now report = ([], .error (.authorities fault)) := by
      unfold examine
      rw [ha, hl]
    rw [decision_of_asks hq hr, he]
  | unsigned id report a roots hq hr hs =>
    rw [decision_of_asks hq hr.fetched, examine_of_readable hr, hs]
    rfl
  | notCurrent id report a roots hq hr hs hc =>
    rw [decision_of_asks hq hr.fetched, examine_of_readable hr, hs, hc]
    rfl
  | accused id report a roots hq hr hs hc hu =>
    rw [decision_of_asks hq hr.fetched, examine_of_readable hr, hs, hc, hu]
    rfl
  | noBroker id report roots hq ha hn hb =>
    rw [decision_of_noneFresh hq ha hn, fetch, hb]
  | notHanded id report roots broker fault hq ha hn hb ht =>
    simp only [decision_of_noneFresh hq ha hn, fetch, hb, ht]
  | badKey id report roots broker wrapped fault hq ha hn hb ht hd =>
    simp only [decision_of_noneFresh hq ha hn, fetch, hb, ht, hd]

theorem decision_of_granted {d : Decision} (hq : Asks host url id)
    (h : Granted p lifetime now cache host url id d) :
    decision p lifetime now cache host url = d := by
  cases h with
  | cached report roots k ha hk hid hlt =>
    have hf : (cache.get? host).filter (isFresh now id) = some k :=
      Option.filter_eq_some_iff.2 ⟨hk, isFresh_iff.2 ⟨hid, hlt⟩⟩
    rw [decision_of_admitted hq.host hq.key ha, hf]
  | fetched report roots broker octets ha hw hn =>
    obtain ⟨wrapped, ht, hd⟩ := hw.handed
    simp only [decision_of_noneFresh hq ha hn, fetch, hw.address, ht, hd]

/-- Once a report is admitted, the cache or the broker decides. -/
theorem admitted_course (lifetime : Int) (cache : KeyCache) (hq : Asks host url id)
    (ha : Admitted p now host report roots) :
    (∃ fault calls, Refused p now cache host url fault calls)
      ∨ ∃ d, Granted p lifetime now cache host url id d := by
  cases hf : (cache.get? host).filter (isFresh now id) with
  | some k =>
    obtain ⟨hk, hfresh⟩ := Option.filter_eq_some_iff.1 hf
    obtain ⟨hid, hlt⟩ := isFresh_iff.1 hfresh
    exact .inr ⟨_, .cached report roots k ha hk hid hlt⟩
  | none =>
    have hn := noneFresh_iff.2 hf
    cases hb : (Url.https? url).bind (KeyUrl.broker? · id) with
    | none => exact .inl ⟨_, _, .noBroker id report roots hq ha hn hb⟩
    | some broker =>
      cases ht : p.transfer broker roots id report with
      | error fault => exact .inl ⟨_, _, .notHanded id report roots broker fault hq ha hn hb ht⟩
      | ok wrapped =>
        cases hd : Base64.decode (Text.trim wrapped) with
        | error fault =>
          exact .inl ⟨_, _, .badKey id report roots broker wrapped fault hq ha hn hb ht hd⟩
        | ok octets =>
          exact .inr ⟨_, .fetched report roots broker octets ha ⟨hb, wrapped, ht, hd⟩ hn⟩

theorem readable_course (cache : KeyCache) {a : Assertion} (hq : Asks host url id)
    (hr : Readable p host report a roots) :
    (∃ fault calls, Refused p now cache host url fault calls)
      ∨ Admitted p now host report roots := by
  cases hs : p.isSigned report roots with
  | false => exact .inl ⟨_, _, .unsigned id report a roots hq hr hs⟩
  | true =>
    cases hc : a.isCurrent now with
    | false => exact .inl ⟨_, _, .notCurrent id report a roots hq hr hs hc⟩
    | true =>
      cases hu : a.reportsUntrusted with
      | true => exact .inl ⟨_, _, .accused id report a roots hq hr hs hc hu⟩
      | false => exact .inr ⟨hr.fetched, hr.loaded, hs, a, hr.read, hc, hu⟩

theorem request_course (p : Peers) (lifetime : Int) (now : Instant) (cache : KeyCache)
    (host url : String) : (∃ fault calls, Refused p now cache host url fault calls)
      ∨ ∃ id d, Asks host url id ∧ Granted p lifetime now cache host url id d := by
  cases hh : Uuid.isHardwareId host with
  | false => exact .inl ⟨_, _, .noHost hh⟩
  | true =>
    cases hi : KeyUrl.keyId? url with
    | none => exact .inl ⟨_, _, .noKey hh hi⟩
    | some id =>
      have hq : Asks host url id := ⟨hh, hi⟩
      cases hr : p.attest host with
      | error fault => exact .inl ⟨_, _, .noReport id fault hq hr⟩
      | ok report =>
        cases ha : Assertion.ofOctets report with
        | error fault => exact .inl ⟨_, _, .malformed id report fault hq hr ha⟩
        | ok a =>
          cases hl : p.roots with
          | error fault => exact .inl ⟨_, _, .noRoots id report a fault hq hr ha hl⟩
          | ok roots =>
            rcases readable_course cache hq ⟨hr, ha, hl⟩ with hrefused | hadmitted
            · exact .inl hrefused
            · exact (admitted_course lifetime cache hq hadmitted).imp_right
                fun ⟨d, hg⟩ => ⟨id, d, hq, hg⟩

/-- A decision refuses, or it grants the request in one of two ways. -/
theorem decision_cases (p : Peers) (lifetime : Int) (now : Instant) (cache : KeyCache)
    (host url : String) :
    let d := decision p lifetime now cache host url
    (∃ fault calls, d = refuse fault calls ∧ Refused p now cache host url fault calls)
      ∨ ∃ id, Asks host url id ∧ Granted p lifetime now cache host url id d := by
  intro d
  rcases request_course p lifetime now cache host url with ⟨fault, calls, hr⟩ | ⟨id, d', hq, hg⟩
  · exact .inl ⟨fault, calls, decision_of_refused hr, hr⟩
  · have hd : d = d' := decision_of_granted hq hg
    exact .inr ⟨id, hq, hd ▸ hg⟩

theorem transferKey_error_iff {fault : Fault} :
    (transferKey p lifetime now cache host url).answer = .error fault
      ↔ ∃ calls, Refused p now cache host url fault calls := by
  unfold transferKey Decision.outcome
  constructor
  · intro h
    rcases decision_cases p lifetime now cache host url with ⟨found, calls, hd, hr⟩ | ⟨id, hq, hg⟩
    · rw [hd] at h
      cases h
      exact ⟨calls, hr⟩
    · cases hd : decision p lifetime now cache host url
      rw [hd] at hg h
      cases hg <;> cases h
  · rintro ⟨calls, hr⟩
    rw [decision_of_refused hr]
    rfl

end ImageTrust.Release
