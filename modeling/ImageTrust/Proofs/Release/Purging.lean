import Mathlib.Data.List.Basic
import Mathlib.Tactic.SplitIfs
import ImageTrust.Proofs.Release.Provenance

/-!
Purges show in nothing that a request leads to. A run and the same run without its purges drift apart in
their caches, but what one has beyond the other was expired when it was purged. A request that is decided
at that time or later takes no such entry for a key, so it comes to the same in both runs, and a key that
the broker hands out replaces the host's entry in both.
-/

namespace ImageTrust.Release

def Event.isRequest : Event → Bool
  | .request _ => true
  | .purge _ => false

/-- A purge in front of a request has a time that has come when the request is decided. -/
def Event.InOrder : Event → Event → Prop
  | .purge time, .request r => time ≤ r.now
  | _, _ => True

/-- The same run without its purges. -/
def unpurged (events : List Event) : List Event :=
  events.filter Event.isRequest

/-- The cache that a run leaves behind which begins with a cache. -/
def cacheFrom (lifetime : Int) (cache : KeyCache) (events : List Event) : KeyCache :=
  events.foldl (next lifetime) cache

/-- Two caches agree but for entries of the first that the second lacks, each of which was expired at
the time of a purge that has passed. -/
def Drifted (passed : List Event) (kept purged : KeyCache) : Prop :=
  ∀ host, purged.get? host = kept.get? host ∨ purged.get? host = none
    ∧ ∃ k time, kept.get? host = some k ∧ .purge time ∈ passed ∧ k.isExpired time = true

/-- All that a request leads to but the cache. -/
def Outcome.withoutCache (o : Outcome) : Except Fault Octets × List Call × AuditEvent :=
  (o.answer, o.calls, o.event)

theorem get?_purge {cache : KeyCache} {time : Instant} {host : String} :
    (cache.purge time).get? host = (cache.get? host).filter fun k => !k.isExpired time := by
  ext k
  rw [Option.filter_eq_some_iff]
  exact KeyCache.get?_keep

theorem isFresh_of_expired {now time : Instant} {id : String} {k : CachedKey}
    (he : k.isExpired time = true) (ht : time ≤ now) : isFresh now id k = false := by
  have hk : k.expires ≤ now := Int.le_trans (of_decide_eq_true he) ht
  simp [isFresh, CachedKey.isExpired, hk]

/-- A decision looks at a cache only for a fresh entry of its own host. -/
theorem decision_cache_congr {p : Peers} {lifetime : Int} {now : Instant} {kept purged : KeyCache}
    {host url : String}
    (h : ∀ id, (purged.get? host).filter (isFresh now id) = (kept.get? host).filter (isFresh now id)) :
    decision p lifetime now purged host url = decision p lifetime now kept host url := by
  unfold decision
  simp only [h]

namespace Drifted

variable {lifetime : Int} {passed : List Event} {kept purged : KeyCache} {r : Request}

theorem refl (cache : KeyCache) : Drifted [] cache cache :=
  fun _ => .inl rfl

theorem mono {more : List Event} (hd : Drifted passed kept purged) (h : passed ⊆ more) :
    Drifted more kept purged := by
  intro host
  refine (hd host).imp_right fun ⟨hnone, k, time, hk, ht, he⟩ => ?_
  exact ⟨hnone, k, time, hk, h ht, he⟩

theorem fresh {now : Instant} (hd : Drifted passed kept purged)
    (hp : ∀ time, .purge time ∈ passed → time ≤ now) (host id : String) :
    (purged.get? host).filter (isFresh now id) = (kept.get? host).filter (isFresh now id) := by
  rcases hd host with h | ⟨hnone, k, time, hk, ht, he⟩
  · rw [h]
  · have hstale : isFresh now id k = false := isFresh_of_expired he (hp time ht)
    rw [hnone, hk, Option.filter_some, hstale]
    rfl

theorem decision (hd : Drifted passed kept purged)
    (hp : ∀ time, .purge time ∈ passed → time ≤ r.now) :
    r.decision lifetime purged = r.decision lifetime kept := by
  unfold Request.decision
  cases r.target.keyUrl with
  | error fault => rfl
  | ok url => exact decision_cache_congr fun id => hd.fresh hp r.host id

theorem store (hd : Drifted passed kept purged) (host : String) (k : CachedKey) :
    Drifted passed (kept.store host k) (purged.store host k) := by
  intro other
  simp only [KeyCache.get?_store]
  split_ifs
  · exact .inl rfl
  · exact hd other

/-- A request behind the purges comes to the same with both caches, and leaves them as they were to one
another. -/
theorem request (lifetime : Int) (hd : Drifted passed kept purged)
    (hp : ∀ time, .purge time ∈ passed → time ≤ r.now) :
    (r.outcome lifetime purged).withoutCache = (r.outcome lifetime kept).withoutCache
      ∧ Drifted passed (r.outcome lifetime kept).cache (r.outcome lifetime purged).cache := by
  rw [outcome_eq, outcome_eq, hd.decision hp]
  refine ⟨rfl, ?_⟩
  unfold Decision.outcome
  cases (r.decision lifetime kept).stored with
  | none => exact hd
  | some k => exact hd.store r.host k

/-- A purge drops nothing from the second cache but what is expired at its time. -/
theorem purge {time : Instant} (hd : Drifted passed kept purged) (ht : .purge time ∈ passed) :
    Drifted passed kept (purged.purge time) := by
  intro host
  rw [get?_purge]
  rcases hd host with h | ⟨hnone, hexpired⟩
  · rw [h]
    cases hk : kept.get? host with
    | none => exact .inl rfl
    | some k =>
      cases he : k.isExpired time with
      | false => exact .inl (by simp [he])
      | true => exact .inr ⟨by simp [he], k, time, rfl, ht, he⟩
  · rw [hnone]
    exact .inr ⟨rfl, hexpired⟩

/-- The induction goes along the run with its purges; `passed` are the events behind which the two
caches stand. -/
theorem run (events : List Event) : ∀ {passed kept purged}, Drifted passed kept purged →
    (passed ++ events).Pairwise Event.InOrder →
    (outcomesFrom lifetime purged events).map Outcome.withoutCache
        = (outcomesFrom lifetime kept (unpurged events)).map Outcome.withoutCache
      ∧ Drifted (passed ++ events) (cacheFrom lifetime kept (unpurged events))
        (cacheFrom lifetime purged events) := by
  induction events with
  | nil =>
    intro passed kept purged hd _
    exact ⟨rfl, hd.mono (List.subset_append_left _ _)⟩
  | cons e events ih =>
    intro passed kept purged hd ho
    have hafter : ∀ time, .purge time ∈ passed → Event.InOrder (.purge time) e := by
      intro time ht
      exact (List.pairwise_append.1 ho).2.2 _ ht e List.mem_cons_self
    have hpassed : Drifted (passed ++ [e]) kept purged := hd.mono (List.subset_append_left _ _)
    rw [List.append_cons] at ho ⊢
    cases e with
    | request r =>
      obtain ⟨hsame, hd'⟩ := hd.request lifetime hafter
      obtain ⟨hrest, hcaches⟩ := ih (hd'.mono (List.subset_append_left _ [.request r])) ho
      refine ⟨?_, hcaches⟩
      change _ = List.map _ (outcomesFrom lifetime kept (.request r :: unpurged events))
      rw [outcomesFrom, outcomesFrom, List.map_cons, List.map_cons, hsame, hrest]
    | purge time => exact ih (hpassed.purge (by simp)) ho

end Drifted

/-- Whatever cache a run begins with, its requests come to the same without its purges: they are answered
alike, after the same calls and with the same events. At every point the two caches differ in nothing
but entries that were expired at the time of a purge before it. -/
theorem purges_unseen (lifetime : Int) (cache : KeyCache) {events : List Event}
    (h : events.Pairwise Event.InOrder) :
    (outcomesFrom lifetime cache events).map Outcome.withoutCache
        = (outcomesFrom lifetime cache (unpurged events)).map Outcome.withoutCache
      ∧ ∀ before after, events = before ++ after →
        Drifted before (cacheFrom lifetime cache (unpurged before)) (cacheFrom lifetime cache before) := by
  have hstart := Drifted.refl cache
  refine ⟨(hstart.run events h).1, ?_⟩
  rintro before after rfl
  exact (hstart.run before (List.pairwise_append.1 h).1).2

/-- A release, a purge at the deadline of its key, and a second release. -/
def releaseAcrossPurge : List Event :=
  [.request (keyRequest 0), .purge 5000000000, .request (keyRequest 5000000000)]

/-- Behind the purge only the run without it holds a key, and nobody gets to see this. -/
theorem release_across_purge_unseen :
    releaseAcrossPurge.Pairwise Event.InOrder
      ∧ (cacheFrom 5 .empty (releaseAcrossPurge.take 2)).size = 0
      ∧ (cacheFrom 5 .empty (unpurged (releaseAcrossPurge.take 2))).size = 1
      ∧ Drifted (releaseAcrossPurge.take 2) (cacheFrom 5 .empty (unpurged (releaseAcrossPurge.take 2)))
        (cacheFrom 5 .empty (releaseAcrossPurge.take 2))
      ∧ (outcomesFrom 5 .empty releaseAcrossPurge).map Outcome.withoutCache
        = (outcomesFrom 5 .empty (unpurged releaseAcrossPurge)).map Outcome.withoutCache := by
  have ho : releaseAcrossPurge.Pairwise Event.InOrder := by
    simp [releaseAcrossPurge, Event.InOrder, keyRequest]
  obtain ⟨hsame, hdrifted⟩ := purges_unseen 5 .empty ho
  exact ⟨ho, by decide +kernel, by decide +kernel, hdrifted _ _ (List.take_append_drop 2 _).symm, hsame⟩

end ImageTrust.Release
