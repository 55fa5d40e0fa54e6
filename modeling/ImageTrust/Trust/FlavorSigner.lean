import ImageTrust.Audit.Event
import ImageTrust.Base64
import ImageTrust.Policy.Flavor
import ImageTrust.Text.Blank
import ImageTrust.X509.Ascent
import ImageTrust.X509.Bundle

/-!
Who signed a flavor. Every bundle of the signing directory is a candidate, tried in the order of
names. The first one decides whose leaf is trusted and whose key verifies the signature; an
authority is traced to a root on its own terms, any other leaf along a path to an anchor. A broken
candidate is put on record and passed over.
-/

namespace ImageTrust.FlavorSigner

open ImageTrust.X509

/-- Why a candidate did not sign a flavor. -/
inductive CandidateFault where
  | bundle (fault : Bundle.Fault)
  | leafUnreadable
  | ascent (fault : AscentFault)
  | path (reason : String)
  | unsupportedKey
  | mismatch
  deriving DecidableEq, Repr

def CandidateFault.message : CandidateFault → String
  | .bundle fault => s!"certificate unreadable: {fault.message}"
  | .leafUnreadable => "certificate unreadable"
  | .ascent fault =>
    match fault.message? with
    | some text => s!"chain verification failed: {text}"
    | none => "chain verification failed"
  | .path reason => s!"chain verification failed: {reason}"
  | .unsupportedKey => "unsupported public key"
  | .mismatch => "signature mismatch: verification error"

/-- The authorities that are trusted: their certificates, and the same as anchors. -/
structure Authorities (p : Pki) where
  roots : List Octets
  anchors : List p.Anchor

section

variable (p : Pki) (now : Instant) (trusted : Authorities p)

/-- Checks that the leaf of a bundle may sign flavors. -/
def checkLeaf (leaf : Octets) (c : p.Certificate) (intermediates : List Octets) :
    Except CandidateFault Unit :=
  if p.isAuthority c then
    if p.isSelfCertified c then .ok ()
    else (ascend p now c intermediates trusted.roots).mapError .ascent
  else
    match p.leaf leaf with
    | .error reason => .error (.path reason)
    | .ok l => (p.validate trusted.anchors intermediates now l).mapError .path

/-- Checks that a bundle may sign flavors and signed this one, given the digest of its payload. -/
def checkBundle (digest signature : Octets) : List Octets → Except CandidateFault Unit
  | [] => .error .leafUnreadable
  | leaf :: intermediates => do
    let some c := p.certificate? leaf | throw .leafUnreadable
    checkLeaf p now trusted leaf c intermediates
    let some k := p.rsaKey? c | throw .unsupportedKey
    if p.verifies k .sha384 digest signature then return () else throw .mismatch

def checkCandidate (t : FileTree) (digest signature : Octets) (path : String) :
    Except CandidateFault Unit := do
  let bundle ← (Bundle.read p t path).mapError .bundle
  checkBundle p now trusted digest signature bundle

end

/-- Why candidates cannot be tried at all. -/
inductive Obstacle where
  | directory (fault : Bundle.Fault)
  | anchor (reason : String)
  | signature (fault : Base64.Fault)
  deriving DecidableEq, Repr

def Obstacle.outcome : Obstacle → FlavorOutcome
  | .directory _ => .directoryUnreadable
  | .anchor _ => .directoryUnreadable
  | .signature _ => .payloadInvalid

def Obstacle.message : Obstacle → String
  | .directory fault => fault.message
  | .anchor reason => s!"invalid trusted ca: {reason}"
  | .signature fault => s!"signature is not base64: {fault.message}"

/-- What candidates are tried with. -/
structure Preparation (p : Pki) where
  candidates : List String
  trusted : Authorities p
  digest : Octets
  signature : Octets

/-- Reads the directories and the signature of a flavor. -/
def prepare (p : Pki) (t : FileTree) (signers authorities : String) (f : SignedFlavor) :
    Except Obstacle (Preparation p) := do
  let candidates ← (Bundle.list t signers).mapError .directory
  let roots ← (Bundle.roots p t authorities).mapError .directory
  let anchors ← (roots.mapM p.anchor).mapError .anchor
  let signature ← (Base64.decode (Text.trim f.signature)).mapError .signature
  let digest := Digest.sha384.apply (Text.encode f.flavor.signaturePayload)
  return ⟨candidates, ⟨roots, anchors⟩, digest, signature⟩

/-- Tries candidates in order. Each one that fails leaves an event, and so does the end. -/
def tryAll (flavorId : String) (total : Nat) (check : String → Except CandidateFault Unit) :
    List String → Bool × List AuditEvent
  | [] =>
    (false, [.flavor flavorId .untrusted none (some s!"{total} signing certificate(s) tried")])
  | path :: rest =>
    match check path with
    | .ok () => (true, [.flavor flavorId .verified (some path) none])
    | .error fault =>
      let (trusted, events) := tryAll flavorId total check rest
      (trusted, .flavor flavorId .candidateRejected (some path) (some fault.message) :: events)

/-- Whether a flavor is signed by somebody trusted, and the events of finding out. -/
def verify (p : Pki) (t : FileTree) (now : Instant) (signers authorities : String)
    (f : SignedFlavor) : Bool × List AuditEvent :=
  let flavorId := f.flavor.identity.id
  match prepare p t signers authorities f with
  | .error o => (false, [.flavor flavorId o.outcome none (some o.message)])
  | .ok q =>
    tryAll flavorId q.candidates.length (checkCandidate p now q.trusted t q.digest q.signature)
      q.candidates

end ImageTrust.FlavorSigner
