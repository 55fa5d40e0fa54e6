import ImageTrust.Clock.Calendar
import ImageTrust.Text.Utf8

/-!
Keys that were released before. A host has at most one entry. Storing replaces it; expiry removes
nothing by itself, so whoever asks has to look at the deadline.
-/

namespace ImageTrust

/-- A key released to a host. -/
structure CachedKey where
  id : String
  octets : Octets
  created : Instant
  expires : Instant
  deriving DecidableEq, Repr

/-- Holds from the deadline on. -/
def CachedKey.isExpired (k : CachedKey) (now : Instant) : Bool :=
  decide (k.expires ≤ now)

/-- At most one key for each host. -/
structure KeyCache where
  entries : List (String × CachedKey)
  distinct : (entries.map (·.1)).Nodup

namespace KeyCache

def empty : KeyCache :=
  ⟨[], List.nodup_nil⟩

/-- The entry of a host, expired or not. -/
def get? (c : KeyCache) (host : String) : Option CachedKey :=
  c.entries.lookup host

def keep (p : String × CachedKey → Bool) (c : KeyCache) : KeyCache :=
  ⟨c.entries.filter p, c.distinct.sublist (List.filter_sublist.map _)⟩

def store (c : KeyCache) (host : String) (k : CachedKey) : KeyCache where
  entries := (host, k) :: c.entries.filter (·.1 != host)
  distinct := by
    refine List.nodup_cons.2 ⟨?_, c.distinct.sublist (List.filter_sublist.map _)⟩
    intro h
    obtain ⟨e, he, rfl⟩ := List.mem_map.1 h
    simpa using (List.mem_filter.1 he).2

/-- The number of entries, expired ones included. -/
def size (c : KeyCache) : Nat :=
  c.entries.length

def isEmpty (c : KeyCache) : Bool :=
  c.entries.isEmpty

def purge (c : KeyCache) (now : Instant) : KeyCache :=
  c.keep fun e => !e.2.isExpired now

end KeyCache

end ImageTrust
