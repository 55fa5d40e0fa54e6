import ImageTrust.Audit.Sink
import ImageTrust.Release.Run
import ImageTrust.Trust.FlavorSigner

/-!
Runs of a gate and of checks of flavors that share one sink. Events go to the sink one at a time, each
with the time at which it is recorded; nothing is assumed about these times.
-/

namespace ImageTrust.AuditLog

/-- Something that puts its events on record: what is done to a gate, or the check of a flavor. A check
brings the files it finds and the answers about certificates, which may be others each time. -/
inductive Act where
  | gate (e : Release.Event)
  | check (p : X509.Pki) (t : FileTree) (now : Instant) (signers authorities : String)
    (f : SignedFlavor)

/-- The events of an act, given the keys that were released before. -/
def Act.events (lifetime : Int) (cache : KeyCache) : Act → List AuditEvent
  | .gate (.request r) => [(r.outcome lifetime cache).event]
  | .gate (.purge _) => []
  | .check p t now signers authorities f => (FlavorSigner.verify p t now signers authorities f).2

def Act.cacheAfter (lifetime : Int) (cache : KeyCache) : Act → KeyCache
  | .gate e => Release.next lifetime cache e
  | .check .. => cache

/-- The events of a run in the order of recording. -/
def trail (lifetime : Int) : KeyCache → List Act → List AuditEvent
  | _, [] => []
  | cache, a :: acts => a.events lifetime cache ++ trail lifetime (a.cacheAfter lifetime cache) acts

/-- What a run has come to: the keys that were released, how many events were recorded, and the
files. -/
structure State where
  cache : KeyCache
  recorded : Nat
  files : FileTree

/-- Records an event; `stamp` tells the time in milliseconds at which each is recorded. -/
def State.record (sink : AuditSink) (stamp : Nat → Nat) (s : State) (e : AuditEvent) : State :=
  { s with recorded := s.recorded + 1, files := sink.record (stamp s.recorded) [e] s.files }

def State.perform (sink : AuditSink) (lifetime : Int) (stamp : Nat → Nat) (s : State) (a : Act) :
    State :=
  { (a.events lifetime s.cache).foldl (State.record sink stamp) s with
    cache := a.cacheAfter lifetime s.cache }

def State.run (sink : AuditSink) (lifetime : Int) (stamp : Nat → Nat) (s : State) (acts : List Act) :
    State :=
  acts.foldl (State.perform sink lifetime stamp) s

end ImageTrust.AuditLog
