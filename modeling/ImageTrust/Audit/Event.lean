import ImageTrust.Json.Basic

/-!
What is put on record: each step of checking a flavor's signature, and each decision about a key. An
event is written as one line of JSON, in which control characters are escaped, so no text inside an
event can look like the end of a line.
-/

namespace ImageTrust

/-- How a step of checking a flavor ended. -/
inductive FlavorOutcome where
  | verified
  | candidateRejected
  | directoryUnreadable
  | payloadInvalid
  | untrusted
  deriving DecidableEq, Repr

def FlavorOutcome.name : FlavorOutcome → String
  | .verified => "verified"
  | .candidateRejected => "candidate_rejected"
  | .directoryUnreadable => "directory_unreadable"
  | .payloadInvalid => "payload_invalid"
  | .untrusted => "untrusted"

/-- What was decided about a key. -/
inductive KeyOutcome where
  | releasedFromCache
  | releasedFromBroker
  | denied
  deriving DecidableEq, Repr

def KeyOutcome.name : KeyOutcome → String
  | .releasedFromCache => "released_from_cache"
  | .releasedFromBroker => "released_from_broker"
  | .denied => "denied"

/-- Something put on record. -/
inductive AuditEvent where
  | flavor (flavorId : String) (outcome : FlavorOutcome) (certificate reason : Option String)
  | key (hardwareUuid : String) (keyId : Option String) (outcome : KeyOutcome)
      (reason : Option String)
  deriving DecidableEq, Repr

namespace AuditEvent

def kind : AuditEvent → String
  | .flavor .. => "flavor_verification"
  | .key .. => "key_release"

/-- A text, or null when there is none. -/
def textOrNull : Option String → Json
  | some s => .str s
  | none => .null

def members : AuditEvent → List (String × Json)
  | .flavor flavorId outcome certificate reason =>
    [("flavor_id", .str flavorId), ("outcome", .str outcome.name),
      ("certificate", textOrNull certificate), ("reason", textOrNull reason)]
  | .key hardwareUuid keyId outcome reason =>
    [("hardware_uuid", .str hardwareUuid), ("key_id", textOrNull keyId),
      ("outcome", .str outcome.name), ("reason", textOrNull reason)]

/-- The line of an event at a time in milliseconds, without its end. -/
def line (milliseconds : Nat) (e : AuditEvent) : String :=
  (Json.obj (("event", .str e.kind) :: ("timestamp_ms", .int milliseconds) :: e.members)).compact

end AuditEvent

end ImageTrust
