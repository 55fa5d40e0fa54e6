import ImageTrust.Assertion.Basic
import ImageTrust.Audit.Event
import ImageTrust.Policy.Flavor
import ImageTrust.Release.KeyCache
import ImageTrust.Release.KeyUrl
import ImageTrust.Service.Fault
import ImageTrust.X509.Bundle

/-!
The gate that releases keys. Every request fetches a new report on the host, also when its key is in
the cache, and nothing is released unless that report is signed, current and free of an accusation. A
decision tells the answer, whom it took to be asked and what the cache gets; a refusal never has
anything for the cache.
-/

namespace ImageTrust.Release

/-- Why a key is not released. -/
inductive Fault where
  | hardwareUuid (text : String)
  | keyUrl (text : String)
  | attestation (fault : ServiceFault)
  | report (fault : Assertion.Fault)
  | signature
  | notCurrent
  | untrusted
  | authorities (fault : Bundle.Fault)
  | broker (fault : ServiceFault)
  | keyMaterial (fault : Base64.Fault)
  | notEncrypted
  | noKeyUrl
  deriving DecidableEq, Repr

def Fault.message : Fault → String
  | .hardwareUuid text => s!"invalid hardware uuid: {text}"
  | .keyUrl text => s!"invalid key url: {text}"
  | .attestation fault => s!"attestation report unavailable: {fault.message .attestation}"
  | .report fault => s!"malformed attestation report: {fault.message}"
  | .signature => "attestation report signature is not trusted"
  | .notCurrent => "attestation report is not current"
  | .untrusted => "host is untrusted"
  | .authorities fault => s!"trusted certificates unavailable: {fault.message}"
  | .broker fault => s!"key broker transfer failed: {fault.message .keyBroker}"
  | .keyMaterial fault => s!"invalid key material: {fault.message}"
  | .notEncrypted => "flavor does not require encryption"
  | .noKeyUrl => "flavor has no key url"

/-- Holds of faults of the request itself, as opposed to a refusal. -/
def Fault.isInput : Fault → Bool
  | .hardwareUuid _ | .keyUrl _ | .notEncrypted | .noKeyUrl => true
  | _ => false

/-- What the gate needs from others: reports on hosts, the trusted roots, a verdict on who signed a
report, and keys from a broker at a URL. -/
structure Peers where
  attest : (host : String) → Except ServiceFault Octets
  roots : Except Bundle.Fault (List Octets)
  isSigned : (report : Octets) → (roots : List Octets) → Bool
  transfer : (broker : Url) → (roots : List Octets) → (id : String) → (report : Octets) →
    Except ServiceFault String

/-- Somebody asked in the course of a decision. -/
inductive Call where
  | attest (host : String)
  | isSigned (report : Octets) (roots : List Octets) (verdict : Bool)
  | transfer (broker : Url) (roots : List Octets) (id : String) (report : Octets)
  deriving DecidableEq, Repr

/-- The answer to a request, the calls made for it in order, and the new entry of the host. -/
structure Decision where
  answer : Except Fault (Octets × KeyOutcome)
  calls : List Call
  stored : Option CachedKey

def refuse (fault : Fault) (calls : List Call) : Decision :=
  ⟨.error fault, calls, none⟩

/-- Looks at a report that was fetched: it has to be an assertion, signed, current and free of an
accusation. The roots it was checked against are handed on. -/
def examine (p : Peers) (now : Instant) (report : Octets) :
    List Call × Except Fault (List Octets) :=
  match Assertion.ofOctets report with
  | .error fault => ([], .error (.report fault))
  | .ok a =>
    match p.roots with
    | .error fault => ([], .error (.authorities fault))
    | .ok roots =>
      let verdict := p.isSigned report roots
      let answer :=
        if !verdict then .error .signature
        else if !a.isCurrent now then .error .notCurrent
        else if a.reportsUntrusted then .error .untrusted
        else .ok roots
      ([.isSigned report roots verdict], answer)

/-- Whether a cached key answers a request for the key with an id. -/
def isFresh (now : Instant) (id : String) (k : CachedKey) : Bool :=
  !k.isExpired now && k.id = id

/-- Gets a key from its broker, given the calls made before. -/
def fetch (p : Peers) (lifetime : Int) (now : Instant) (url id : String) (report : Octets)
    (roots : List Octets) (calls : List Call) : Decision :=
  match (Url.https? url).bind (KeyUrl.broker? · id) with
  | none => refuse (.keyUrl url) calls
  | some broker =>
    let calls := calls ++ [.transfer broker roots id report]
    match p.transfer broker roots id report with
    | .error fault => refuse (.broker fault) calls
    | .ok wrapped =>
      match Base64.decode (Text.trim wrapped) with
      | .error fault => refuse (.keyMaterial fault) calls
      | .ok octets =>
        ⟨.ok (octets, .releasedFromBroker), calls,
          some ⟨id, octets, now, Clock.later now lifetime⟩⟩

/-- Decides a request of a host for the key at a URL. -/
def decision (p : Peers) (lifetime : Int) (now : Instant) (cache : KeyCache) (host url : String) :
    Decision :=
  if !Uuid.isHardwareId host then refuse (.hardwareUuid host) []
  else
    match KeyUrl.keyId? url with
    | none => refuse (.keyUrl url) []
    | some id =>
      match p.attest host with
      | .error fault => refuse (.attestation fault) [.attest host]
      | .ok report =>
        let (checks, examined) := examine p now report
        let calls := .attest host :: checks
        match examined with
        | .error fault => refuse fault calls
        | .ok roots =>
          match (cache.get? host).filter (isFresh now id) with
          | some k => ⟨.ok (k.octets, .releasedFromCache), calls, none⟩
          | none => fetch p lifetime now url id report roots calls

def Decision.event (d : Decision) (host : String) (id : Option String) : AuditEvent :=
  match d.answer with
  | .ok (_, outcome) => .key host id outcome none
  | .error fault => .key host id .denied (some fault.message)

/-- What a request leaves behind. -/
structure Outcome where
  answer : Except Fault Octets
  calls : List Call
  event : AuditEvent
  cache : KeyCache

def Decision.outcome (d : Decision) (cache : KeyCache) (host : String) (id : Option String) :
    Outcome where
  answer := d.answer.map (·.1)
  calls := d.calls
  event := d.event host id
  cache := match d.stored with
    | some k => cache.store host k
    | none => cache

/-- Answers a request of a host for the key at a URL. -/
def transferKey (p : Peers) (lifetime : Int) (now : Instant) (cache : KeyCache)
    (host url : String) : Outcome :=
  (decision p lifetime now cache host url).outcome cache host (KeyUrl.keyId? url)

/-- The URL of the key of an encrypted image. -/
def flavorKeyUrl (f : Flavor) : Except Fault String :=
  if !f.encryptionRequired then .error .notEncrypted
  else
    match f.keyUrl? with
    | some url => .ok url
    | none => .error .noKeyUrl

/-- Answers a request of a host for the key of a flavor's image. -/
def flavorKey (p : Peers) (lifetime : Int) (now : Instant) (cache : KeyCache) (host : String)
    (f : Flavor) : Outcome :=
  match flavorKeyUrl f with
  | .ok url => transferKey p lifetime now cache host url
  | .error fault => (refuse fault []).outcome cache host none

end ImageTrust.Release
