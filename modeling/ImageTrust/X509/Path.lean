import ImageTrust.X509.Profile

/-!
Paths from an end entity to an anchor. Each certificate on a path has to be valid on its own, be an
authority unless it is the end entity, allow server authentication if it restricts its use, and
carry the signature of the next. The search tries the anchors before longer paths and reports the
most telling of the faults it met.
-/

namespace ImageTrust.X509

/-- What a search may still spend. -/
structure Budget where
  signatures : Nat
  calls : Nat
  deriving DecidableEq, Repr

/-- What every search starts with. -/
def Budget.full : Budget := ⟨100, 200000⟩

/-- How a search ended: with a path, without one, or by running out of its budget. -/
inductive Verdict where
  | trusted
  | refused (fault : PathFault)
  | abandoned (fault : PathFault)
  deriving DecidableEq, Repr

/-- What a search is given. -/
structure PathTrust where
  anchors : List Anchor
  intermediates : List Octets
  now : Instant
  deriving DecidableEq, Repr

namespace Path

/-- Reads a time of a certificate as seconds; times before 1970 are not represented. -/
def time (bs : Octets) : Except PathFault (Int × Octets) :=
  let short := bs.head? = some Der.utcTimeTag
  Profile.nested (if short then Der.utcTimeTag else Der.generalizedTimeTag) .trailingData
    (fun content =>
      match dateTime? short content with
      | some (t, rest) => if t.year < 1970 then .error .badDerTime else .ok (t.seconds, rest)
      | none => .error .badDerTime) bs

def checkValidity (now : Instant) (validity : Octets) : Except PathFault Unit := do
  let second := now / Clock.nanosecondsPerSecond
  let (notBefore, bs) ← time validity
  let (notAfter, bs) ← time bs
  if notBefore > notAfter then throw .invalidValidity
  if second < notBefore then throw .notValidYet
  if second > notAfter then throw .expired
  if bs.isEmpty then return () else throw .badDer

/-- Checks the place of a certificate on a path; `above` is absent for the end entity, and else the
number of authorities between it and the certificate. -/
def checkConstraints (above : Option Nat) (constraints : Option Octets) :
    Except PathFault Unit := do
  let (authority, limit) ← match constraints with
    | none => pure (false, none)
    | some bs => Profile.whole .badDer (fun bs => do
        let (authority, bs) ← Profile.boolean bs
        if bs.isEmpty then return ((authority, none), bs)
        let (n, bs) ← Profile.smallNumber bs
        return ((authority, some n), bs)) bs
  match above, authority, limit with
  | none, true, _ => throw .authorityAsEndEntity
  | none, false, _ => return ()
  | some _, false, _ => throw .endEntityAsAuthority
  | some n, true, some limit => if n > limit then throw .pathLength
  | some _, true, none => return ()

def serverAuthentication : Octets := [0x2b, 0x06, 0x01, 0x05, 0x05, 0x07, 0x03, 0x01]

/-- Looks for server authentication among uses; `fuel` bounds their number. -/
def findUsage : (fuel : Nat) → Octets → Except PathFault Unit
  | 0, _ | _, [] => .error .requiredUsage
  | fuel + 1, bs => do
    let (identifier, rest) ← Profile.expect Der.identifierTag bs
    if identifier = serverAuthentication then return () else findUsage fuel rest

/-- Checks that the use is not restricted, or includes server authentication. -/
def checkUsage : Option Octets → Except PathFault Unit
  | none => .ok ()
  | some [] => .error .emptyUsage
  | some bs => findUsage bs.length bs

def checkAlone (now : Instant) (above : Option Nat) (c : PathCertificate) :
    Except PathFault Unit := do
  checkValidity now c.validity
  checkConstraints above c.basicConstraints
  checkUsage c.extendedUsage

/-- An RSA algorithm identifier with the given last part, without parameters. -/
def rsaIdentifier (last : UInt8) : Octets :=
  [0x06, 0x09, 0x2a, 0x86, 0x48, 0x86, 0xf7, 0x0d, 0x01, 0x01, last]

/-- The digest of a signature algorithm, whose parameters are null or absent. -/
def schemeOf? (algorithm : Octets) : Option Digest :=
  [(rsaIdentifier 0x0b ++ [5, 0], Digest.sha256), (rsaIdentifier 0x0c ++ [5, 0], .sha384),
    (rsaIdentifier 0x0d ++ [5, 0], .sha512), (rsaIdentifier 0x0b, .sha256),
    (rsaIdentifier 0x0c, .sha384), (rsaIdentifier 0x0d, .sha512)].lookup algorithm

/-- Checks the signature of a certificate under a key. -/
def checkSignature (key : Octets) (c : PathCertificate) : Except PathFault Unit := do
  let some d := schemeOf? c.algorithm | throw .unsupportedAlgorithm
  let (algorithm, bits) ← Profile.whole .trailingData (fun bs => do
    let (algorithm, bs) ← Profile.expect Der.sequenceTag bs
    let (bits, bs) ← Profile.bitString bs
    return ((algorithm, bits), bs)) key
  if algorithm ≠ rsaIdentifier 0x01 ++ [5, 0] then throw .unsupportedAlgorithmForKey
  match Rsa.PublicKey.ofDer? bits with
  | some k =>
    if k.isStrong 2048 && k.verifies d (d.apply c.signed) c.signature then return ()
    else throw .invalidSignature
  | none => throw .invalidSignature

/-- Checks the signatures of a path from the top, each under the key above it. -/
def checkSignatures (key : Octets) : List PathCertificate → Budget → Verdict × Budget
  | [], b => (.trusted, b)
  | c :: path, b =>
    if b.signatures = 0 then (.abandoned .signatureChecks, b)
    else
      let b := { b with signatures := b.signatures - 1 }
      match checkSignature key c with
      | .ok () => checkSignatures c.key path b
      | .error fault => (.refused fault, b)

/-- Tries candidates until one is trusted or the search is abandoned. -/
def firstTrusted {κ : Type} (f : κ → Budget → Verdict × Budget) :
    List κ → PathFault → Budget → Verdict × Budget
  | [], fault, b => (.refused fault, b)
  | k :: ks, fault, b =>
    match f k b with
    | (.refused next, b) => firstTrusted f ks (fault.moreTelling next) b
    | done => done

/-- Tries to end a path, whose top comes first, in an anchor. -/
def endIn (path : List PathCertificate) (issuer : Octets) (a : Anchor) (b : Budget) :
    Verdict × Budget :=
  if issuer = a.subject then checkSignatures a.key path b else (.refused .unknownIssuer, b)

/-- Tries to go on from a path to a candidate; `deeper` completes the longer path. -/
def goOn (deeper : List PathCertificate → Budget → Verdict × Budget)
    (path : List PathCertificate) (issuer : Octets) (candidate : Octets) (b : Budget) :
    Verdict × Budget :=
  match PathCertificate.ofOctets candidate with
  | .error fault => (.refused fault, b)
  | .ok c =>
    if c.subject ≠ issuer || path.any fun p => p.key = c.key && p.subject = c.subject then
      (.refused .unknownIssuer, b)
    else if b.calls = 0 then (.abandoned .pathCalls, b)
    else deeper (c :: path) { b with calls := b.calls - 1 }

/-- Completes a path, whose top comes first. -/
def completeWith (deeper : List PathCertificate → Budget → Verdict × Budget) (t : PathTrust)
    (path : List PathCertificate) (b : Budget) : Verdict × Budget :=
  match path with
  | [] => (.refused .unknownIssuer, b)
  | top :: below =>
    let above := if below.isEmpty then none else some (below.length - 1)
    match checkAlone t.now above top with
    | .error fault => (.refused fault, b)
    | .ok () =>
      match firstTrusted (endIn path top.issuer) t.anchors .unknownIssuer b with
      | (.refused fault, b) =>
        firstTrusted (goOn deeper path top.issuer) t.intermediates fault b
      | done => done

/-- Completes a path when at most `left` more certificates may be put on it. -/
def complete (t : PathTrust) : (left : Nat) → List PathCertificate → Budget → Verdict × Budget
  | 0 => completeWith (fun _ b => (.refused .pathDepth, b)) t
  | left + 1 => completeWith (complete t left) t

/-- The most certificates between an end entity and an anchor. -/
def depthLimit : Nat := 6

end Path

/-- Whether an end entity is trusted for server authentication. -/
def PathTrust.verify (t : PathTrust) (leaf : PathCertificate) : Except PathFault Unit :=
  match (Path.complete t Path.depthLimit [leaf] Budget.full).1 with
  | .trusted => .ok ()
  | .refused fault => .error fault
  | .abandoned fault => .error fault

end ImageTrust.X509
