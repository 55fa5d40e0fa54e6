import ImageTrust.Proofs.Release.Provenance

/-!
Keys show nowhere but in answers and in the cache. Two runs are twins when each question that the first
one puts is answered alike in the second, up to the keys that the broker hands out. Twins agree in all
but the keys: in whether each request is answered, in each fault, call and event, and in what is cached
for whom and for how long.
-/

namespace ImageTrust

/-- All of a cached key but the key. -/
def CachedKey.label (k : CachedKey) : String × Instant × Instant :=
  (k.id, k.created, k.expires)

theorem CachedKey.of_label {k k' : CachedKey} (h : k'.label = k.label) :
    k'.id = k.id ∧ k'.expires = k.expires := by
  simp only [label, Prod.mk.injEq] at h
  exact ⟨h.1, h.2.2⟩

namespace KeyCache

/-- All of a cache but the keys. -/
def labels (c : KeyCache) : List (String × String × Instant × Instant) :=
  c.entries.map fun e => (e.1, e.2.label)

variable {c d : KeyCache}

theorem lookup_labels (c : KeyCache) (host : String) :
    c.labels.lookup host = (c.get? host).map CachedKey.label := by
  unfold labels get?
  induction c.entries with
  | nil => rfl
  | cons e es ih =>
    rw [List.map_cons, List.lookup_cons, List.lookup_cons, ih]
    cases host == e.1 <;> rfl

theorem labels_store (c : KeyCache) (host : String) (k : CachedKey) :
    (c.store host k).labels = (host, k.label) :: c.labels.filter (·.1 != host) := by
  simp only [labels, store, List.map_cons, List.filter_map]
  rfl

theorem labels_purge (c : KeyCache) (now : Instant) :
    (c.purge now).labels = c.labels.filter fun e => !decide (e.2.2.2 ≤ now) := by
  simp only [labels, purge, keep, List.filter_map]
  rfl

theorem get?_of_labels (h : c.labels = d.labels) {host : String} {k : CachedKey}
    (hk : c.get? host = some k) : ∃ k', d.get? host = some k' ∧ k'.label = k.label := by
  have hl := congrArg (List.lookup host) h
  rw [lookup_labels, lookup_labels, hk] at hl
  exact Option.map_eq_some_iff.1 hl.symm

end KeyCache

namespace Release

/-- Two answers of a broker that are the same fault, or two keys in base64. -/
inductive SameButKey : Except ServiceFault String → Except ServiceFault String → Prop where
  | refused (fault) : SameButKey (.error fault) (.error fault)
  | handed {wrapped wrapped' : String} {key key' : Octets} :
      Base64.decode (Text.trim wrapped) = .ok key → Base64.decode (Text.trim wrapped') = .ok key' →
      SameButKey (.ok wrapped) (.ok wrapped')

theorem SameButKey.of_error {fault : ServiceFault} {answer : Except ServiceFault String}
    (h : SameButKey (.error fault) answer) : answer = .error fault := by
  cases h
  rfl

theorem SameButKey.of_ok {wrapped : String} {answer : Except ServiceFault String}
    (h : SameButKey (.ok wrapped) answer) :
    (∃ key, Base64.decode (Text.trim wrapped) = .ok key)
      ∧ ∃ wrapped' key', answer = .ok wrapped' ∧ Base64.decode (Text.trim wrapped') = .ok key' := by
  cases h with
  | handed hkey hkey' => exact ⟨⟨_, hkey⟩, _, _, rfl, hkey'⟩

/-- A question gets the same answer from both, or at most another key. -/
def Call.AnsweredAlike (p q : Peers) : Call → Prop
  | .attest host => p.attest host = q.attest host
  | .isSigned report roots _ => p.isSigned report roots = q.isSigned report roots
  | .transfer broker roots id report =>
    SameButKey (p.transfer broker roots id report) (q.transfer broker roots id report)

variable {p q : Peers} {lifetime : Int} {now : Instant} {cache cache' : KeyCache}
  {host url id : String} {report : Octets} {roots : List Octets}

theorem transfer_alike {broker : Url} {before : List Call}
    (h : ∀ call ∈ before ++ [.transfer broker roots id report], call.AnsweredAlike p q) :
    (∀ call ∈ before, call.AnsweredAlike p q)
      ∧ SameButKey (p.transfer broker roots id report) (q.transfer broker roots id report) := by
  obtain ⟨hbefore, htransfer⟩ := List.forall_mem_append.1 h
  exact ⟨hbefore, htransfer _ (List.mem_singleton_self _)⟩

theorem NoneFresh.of_labels (h : cache.labels = cache'.labels) (hn : NoneFresh cache now host id) :
    NoneFresh cache' now host id := by
  intro k hk hid
  obtain ⟨k', hk', hl⟩ := KeyCache.get?_of_labels h.symm hk
  obtain ⟨hid', hexpires⟩ := CachedKey.of_label hl
  rw [← hexpires]
  exact hn k' hk' (hid'.trans hid)

theorem Readable.alike {a : Assertion} (hroots : p.roots = q.roots)
    (hattest : p.attest host = q.attest host) (h : Readable p host report a roots) :
    Readable q host report a roots :=
  ⟨hattest ▸ h.fetched, h.read, hroots ▸ h.loaded⟩

theorem Admitted.alike (hroots : p.roots = q.roots)
    (hcalls : ∀ call ∈ checks host report roots, call.AnsweredAlike p q)
    (h : Admitted p now host report roots) : Admitted q now host report roots := by
  have hattest : p.attest host = q.attest host := hcalls (.attest host) (by simp [checks])
  have hsigned : p.isSigned report roots = q.isSigned report roots :=
    hcalls (.isSigned report roots true) (by simp [checks])
  exact ⟨hattest ▸ h.fetched, hroots ▸ h.loaded, hsigned ▸ h.signed, h.vouched⟩

theorem Refused.alike {fault : Fault} {calls : List Call} (hroots : p.roots = q.roots)
    (hcalls : ∀ call ∈ calls, call.AnsweredAlike p q) (hl : cache.labels = cache'.labels)
    (h : Refused p now cache host url fault calls) :
    Refused q now cache' host url fault calls := by
  -- whoever gets as far as the attestation service gets the same report there
  have hattest : .attest host ∈ calls → p.attest host = q.attest host := fun hm => hcalls _ hm
  cases h with
  | noHost hh => exact .noHost hh
  | noKey hh hi => exact .noKey hh hi
  | noReport id fault hq hr =>
    exact .noReport id fault hq ((hattest (by simp)).symm.trans hr)
  | malformed id report fault hq hr ha =>
    exact .malformed id report fault hq ((hattest (by simp)).symm.trans hr) ha
  | noRoots id report a fault hq hr ha hf =>
    exact .noRoots id report a fault hq ((hattest (by simp)).symm.trans hr) ha (hroots.symm.trans hf)
  | unsigned id report a roots hq hr hs =>
    have hsigned : p.isSigned report roots = q.isSigned report roots :=
      hcalls (.isSigned report roots false) (by simp)
    exact .unsigned id report a roots hq (hr.alike hroots (hattest (by simp))) (hsigned.symm.trans hs)
  | notCurrent id report a roots hq hr hs hc =>
    have hsigned : p.isSigned report roots = q.isSigned report roots :=
      hcalls (.isSigned report roots true) (by simp [checks])
    exact .notCurrent id report a roots hq (hr.alike hroots (hattest (by simp [checks])))
      (hsigned.symm.trans hs) hc
  | accused id report a roots hq hr hs hc hu =>
    have hsigned : p.isSigned report roots = q.isSigned report roots :=
      hcalls (.isSigned report roots true) (by simp [checks])
    exact .accused id report a roots hq (hr.alike hroots (hattest (by simp [checks])))
      (hsigned.symm.trans hs) hc hu
  | noBroker id report roots hq ha hn hb =>
    exact .noBroker id report roots hq (ha.alike hroots hcalls) (hn.of_labels hl) hb
  | notHanded id report roots broker fault hq ha hn hb ht =>
    obtain ⟨hchecks, halike⟩ := transfer_alike hcalls
    rw [ht] at halike
    exact .notHanded id report roots broker fault hq (ha.alike hroots hchecks) (hn.of_labels hl) hb
      halike.of_error
  | badKey id report roots broker wrapped fault hq ha hn hb ht hd =>
    obtain ⟨-, halike⟩ := transfer_alike hcalls
    rw [ht] at halike
    obtain ⟨⟨key, hkey⟩, -⟩ := halike.of_ok
    rw [hkey] at hd
    cases hd

/-- All of a decision but the key. -/
def Decision.shown (d : Decision) :
    Except Fault KeyOutcome × List Call × Option (String × Instant × Instant) :=
  (d.answer.map (·.2), d.calls, d.stored.map CachedKey.label)

theorem Granted.alike {d : Decision} (hroots : p.roots = q.roots)
    (hcalls : ∀ call ∈ d.calls, call.AnsweredAlike p q) (hl : cache.labels = cache'.labels)
    (h : Granted p lifetime now cache host url id d) :
    ∃ d', Granted q lifetime now cache' host url id d' ∧ d'.shown = d.shown := by
  cases h with
  | cached report roots k ha hk hid hlt =>
    obtain ⟨k', hk', hlabel⟩ := KeyCache.get?_of_labels hl hk
    obtain ⟨hid', hexpires⟩ := CachedKey.of_label hlabel
    exact ⟨_, .cached report roots k' (ha.alike hroots hcalls) hk' (hid'.trans hid)
      (hexpires ▸ hlt), rfl⟩
  | fetched report roots broker octets ha hw hn =>
    obtain ⟨hchecks, halike⟩ := transfer_alike hcalls
    obtain ⟨wrapped, ht, hd⟩ := hw.handed
    rw [ht] at halike
    obtain ⟨-, wrapped', key', hwrapped, hkey⟩ := halike.of_ok
    exact ⟨_, .fetched report roots broker key' (ha.alike hroots hchecks)
      ⟨hw.address, wrapped', hwrapped, hkey⟩ (hn.of_labels hl), rfl⟩

theorem decision_alike (hroots : p.roots = q.roots)
    (hcalls : ∀ call ∈ (decision p lifetime now cache host url).calls, call.AnsweredAlike p q)
    (hl : cache.labels = cache'.labels) :
    (decision q lifetime now cache' host url).shown
      = (decision p lifetime now cache host url).shown := by
  rcases decision_cases p lifetime now cache host url with ⟨fault, calls, hd, hr⟩ | ⟨id, hq, hg⟩
  · rw [hd] at hcalls ⊢
    have hr' : Refused q now cache' host url fault calls := hr.alike hroots hcalls hl
    rw [decision_of_refused hr']
  · obtain ⟨d', hg', hshown⟩ := hg.alike hroots hcalls hl
    rw [decision_of_granted hq hg', hshown]

/-- All of an outcome but the key. -/
def Outcome.shown (o : Outcome) :
    Except Fault Unit × List Call × AuditEvent × List (String × String × Instant × Instant) :=
  (o.answer.map fun _ => (), o.calls, o.event, o.cache.labels)

theorem outcome_shown_congr {d d' : Decision} (hd : d'.shown = d.shown)
    (hl : cache.labels = cache'.labels) (shown : Option String) :
    (d'.outcome cache' host shown).shown = (d.outcome cache host shown).shown := by
  obtain ⟨answer, calls, stored⟩ := d
  obtain ⟨answer', calls', stored'⟩ := d'
  simp only [Decision.shown, Prod.mk.injEq] at hd
  obtain ⟨hanswer, rfl, hstored⟩ := hd
  have hcache : (Decision.outcome ⟨answer', calls', stored'⟩ cache' host shown).cache.labels
      = (Decision.outcome ⟨answer, calls', stored⟩ cache host shown).cache.labels := by
    unfold Decision.outcome
    cases stored <;> cases stored' <;> simp_all [KeyCache.labels_store]
  unfold Outcome.shown
  rw [hcache]
  unfold Decision.outcome Decision.event
  cases answer <;> cases answer' <;> simp_all [Except.map]

/-- A request that is made in another run as well, with answers that are alike as far as the first run
asks for them. -/
structure Request.Twin (lifetime : Int) (cache : KeyCache) (r s : Request) : Prop where
  now : r.now = s.now
  host : r.host = s.host
  target : r.target = s.target
  roots : r.peers.roots = s.peers.roots
  answers : ∀ call ∈ (r.outcome lifetime cache).calls, call.AnsweredAlike r.peers s.peers

theorem Request.Twin.shown {r s : Request} (h : r.Twin lifetime cache s)
    (hl : cache.labels = cache'.labels) :
    (s.outcome lifetime cache').shown = (r.outcome lifetime cache).shown := by
  obtain ⟨peers, now, host, target⟩ := r
  obtain ⟨peers', now', host', target'⟩ := s
  obtain ⟨hnow, hhost, htarget, hroots, hanswers⟩ := h
  dsimp only at hnow hhost htarget hroots
  subst hnow hhost htarget
  rw [outcome_eq] at hanswers ⊢
  rw [outcome_eq]
  refine outcome_shown_congr ?_ hl _
  change ∀ call ∈ (Request.decision lifetime cache _).calls, _ at hanswers
  unfold Request.decision at hanswers ⊢
  cases hu : target.keyUrl with
  | error fault => rfl
  | ok url =>
    simp only [hu] at hanswers ⊢
    exact decision_alike hroots hanswers hl

/-- Two runs of the same steps, the first of which begins with a cache. -/
inductive Twins (lifetime : Int) : KeyCache → List Event → List Event → Prop where
  | nil (c) : Twins lifetime c [] []
  | request {c r s events events'} : Request.Twin lifetime c r s →
      Twins lifetime (r.outcome lifetime c).cache events events' →
      Twins lifetime c (.request r :: events) (.request s :: events')
  | purge {c events events'} (time) : Twins lifetime (c.purge time) events events' →
      Twins lifetime c (.purge time :: events) (.purge time :: events')

theorem Twins.take {events events' : List Event} (h : Twins lifetime cache events events') (n : Nat) :
    Twins lifetime cache (events.take n) (events'.take n) := by
  induction h generalizing n with
  | nil => simpa using .nil _
  | request hr _ ih =>
    cases n with
    | zero => exact .nil _
    | succ n => exact .request hr (ih n)
  | purge now _ ih =>
    cases n with
    | zero => exact .nil _
    | succ n => exact .purge now (ih n)

theorem Twins.outcomes_shown {events events' : List Event}
    (h : Twins lifetime cache events events') : ∀ {cache'}, cache.labels = cache'.labels →
      (outcomesFrom lifetime cache' events').map Outcome.shown
        = (outcomesFrom lifetime cache events).map Outcome.shown := by
  induction h with
  | nil =>
    intro cache' hl
    rfl
  | request hr _ ih =>
    intro cache' hl
    have hshown := hr.shown hl
    simp only [outcomesFrom, List.map_cons, hshown]
    rw [ih]
    exact (congrArg (·.2.2.2) hshown).symm
  | purge now _ ih =>
    intro cache' hl
    refine ih ?_
    simp only [KeyCache.labels_purge, hl]

theorem Twins.labels {events events' : List Event}
    (h : Twins lifetime cache events events') : ∀ {cache'}, cache.labels = cache'.labels →
      (events'.foldl (next lifetime) cache').labels = (events.foldl (next lifetime) cache).labels := by
  induction h with
  | nil =>
    intro cache' hl
    exact hl.symm
  | request hr _ ih =>
    intro cache' hl
    exact ih (congrArg (·.2.2.2) (hr.shown hl)).symm
  | purge now _ ih =>
    intro cache' hl
    refine ih ?_
    simp only [next, KeyCache.labels_purge, hl]

/-- Runs that differ only in the keys that the broker hands out show the same throughout: each request
is answered in both or fails with the same fault, after the same calls and with the same event, and at
every point the caches hold entries of the same hosts, ids and times. -/
theorem keys_shown_nowhere {events events' : List Event}
    (h : Twins lifetime .empty events events') :
    (outcomesFrom lifetime .empty events').map Outcome.shown
        = (outcomesFrom lifetime .empty events).map Outcome.shown
      ∧ trailFrom lifetime .empty events' = trailFrom lifetime .empty events
      ∧ ∀ n, (cacheAfter lifetime (events'.take n)).labels
        = (cacheAfter lifetime (events.take n)).labels := by
  have hshown := h.outcomes_shown rfl
  refine ⟨hshown, ?_, fun n => (h.take n).labels rfl⟩
  have hevents := congrArg (List.map (·.2.2.1)) hshown
  rw [List.map_map, List.map_map] at hevents
  exact hevents

/-- Others who hand out another key than `obligingPeers`. -/
def otherPeers : Peers where
  attest := obligingPeers.attest
  roots := obligingPeers.roots
  isSigned := obligingPeers.isSigned
  transfer _ _ _ _ := .ok "BAUG"

theorem obliging_other_alike (call : Call) : call.AnsweredAlike obligingPeers otherPeers := by
  cases call with
  | attest => rfl
  | isSigned => rfl
  | transfer =>
    have hkey : Base64.decode (Text.trim " AQID ") = .ok [1, 2, 3] := by decide +kernel
    have hkey' : Base64.decode (Text.trim "BAUG") = .ok [4, 5, 6] := by decide +kernel
    exact .handed hkey hkey'

/-- A release, one out of the cache, and a third one after the key was purged. -/
def threeReleases (p : Peers) : List Event :=
  [.request { keyRequest 0 with peers := p }, .request { keyRequest 1 with peers := p },
    .purge 9000000000, .request { keyRequest 9000000000 with peers := p }]

theorem two_keys_shown_nowhere :
    Twins 5 .empty (threeReleases obligingPeers) (threeReleases otherPeers)
      ∧ (outcomesFrom 5 .empty (threeReleases obligingPeers)).map (·.answer)
        ≠ (outcomesFrom 5 .empty (threeReleases otherPeers)).map (·.answer)
      ∧ trailFrom 5 .empty (threeReleases otherPeers)
        = trailFrom 5 .empty (threeReleases obligingPeers) := by
  have htwin : ∀ now cache, Request.Twin 5 cache { keyRequest now with peers := obligingPeers }
      { keyRequest now with peers := otherPeers } :=
    fun now cache => ⟨rfl, rfl, rfl, rfl, fun call _ => obliging_other_alike call⟩
  have htwins : Twins 5 .empty (threeReleases obligingPeers) (threeReleases otherPeers) :=
    .request (htwin _ _) (.request (htwin _ _) (.purge _ (.request (htwin _ _) (.nil _))))
  exact ⟨htwins, by decide +kernel, (keys_shown_nowhere htwins).2.1⟩

end Release

end ImageTrust
