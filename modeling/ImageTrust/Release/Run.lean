import ImageTrust.Release.Gate

/-!
Runs of one gate from an empty cache. Each request brings the answers of the others and the time that
the gate reads from its clock, so nothing is assumed about either; in particular time may go back.
-/

namespace ImageTrust.Release

/-- What a request asks for: the key at a URL, or the key of a flavor's image. -/
inductive Target where
  | url (text : String)
  | flavor (f : Flavor)

/-- The URL of the key that is asked for. -/
def Target.keyUrl : Target → Except Fault String
  | .url text => .ok text
  | .flavor f => flavorKeyUrl f

/-- A request of a host, with the answers of the others and the time at which it is decided. -/
structure Request where
  peers : Peers
  now : Instant
  host : String
  target : Target

/-- What a request leads to, given the keys that were released before. -/
def Request.outcome (lifetime : Int) (cache : KeyCache) (r : Request) : Outcome :=
  match r.target with
  | .url text => transferKey r.peers lifetime r.now cache r.host text
  | .flavor f => flavorKey r.peers lifetime r.now cache r.host f

/-- Something done to a gate: a request, or the removal of what is expired. -/
inductive Event where
  | request (r : Request)
  | purge (now : Instant)

def next (lifetime : Int) (cache : KeyCache) : Event → KeyCache
  | .request r => (r.outcome lifetime cache).cache
  | .purge now => cache.purge now

def cacheAfter (lifetime : Int) (events : List Event) : KeyCache :=
  events.foldl (next lifetime) KeyCache.empty

/-- What the requests of a run that begins with a cache lead to, one after the other. -/
def outcomesFrom (lifetime : Int) : KeyCache → List Event → List Outcome
  | _, [] => []
  | cache, .request r :: events =>
    r.outcome lifetime cache :: outcomesFrom lifetime (r.outcome lifetime cache).cache events
  | cache, .purge now :: events => outcomesFrom lifetime (cache.purge now) events

/-- What is put on record in a run that begins with a cache. -/
def trailFrom (lifetime : Int) (cache : KeyCache) (events : List Event) : List AuditEvent :=
  (outcomesFrom lifetime cache events).map (·.event)

theorem cacheAfter_snoc (lifetime : Int) (events : List Event) (e : Event) :
    cacheAfter lifetime (events ++ [e]) = next lifetime (cacheAfter lifetime events) e := by
  simp [cacheAfter, List.foldl_append]

end ImageTrust.Release
