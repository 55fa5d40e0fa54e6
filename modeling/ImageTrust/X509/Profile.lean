import ImageTrust.X509.Certificate

/-!
The profile of certificates that path validation works on. It is narrower than the general form:
version three only, one algorithm named twice alike, no identifiers of issuer or subject, no unknown
critical extension, and no extension twice.
-/

namespace ImageTrust.X509

/-- Why a certificate is outside the profile, or a path does not hold. -/
inductive PathFault where
  | badDer
  | badDerTime
  | trailingData
  | unsupportedVersion
  | algorithmMismatch
  | unsupportedCriticalExtension
  | extensionValueInvalid
  | invalidValidity
  | notValidYet
  | expired
  | authorityAsEndEntity
  | endEntityAsAuthority
  | pathLength
  | emptyUsage
  | requiredUsage
  | unknownIssuer
  | unsupportedAlgorithm
  | unsupportedAlgorithmForKey
  | invalidSignature
  | pathDepth
  | signatureChecks
  | pathCalls
  deriving DecidableEq, Repr

def PathFault.name : PathFault → String
  | .badDer => "BadDer"
  | .badDerTime => "BadDerTime"
  | .trailingData => "TrailingData"
  | .unsupportedVersion => "UnsupportedCertVersion"
  | .algorithmMismatch => "SignatureAlgorithmMismatch"
  | .unsupportedCriticalExtension => "UnsupportedCriticalExtension"
  | .extensionValueInvalid => "ExtensionValueInvalid"
  | .invalidValidity => "InvalidCertValidity"
  | .notValidYet => "CertNotValidYet"
  | .expired => "CertExpired"
  | .authorityAsEndEntity => "CaUsedAsEndEntity"
  | .endEntityAsAuthority => "EndEntityUsedAsCa"
  | .pathLength => "PathLenConstraintViolated"
  | .emptyUsage => "EmptyEkuExtension"
  | .requiredUsage => "RequiredEkuNotFoundContext"
  | .unknownIssuer => "UnknownIssuer"
  | .unsupportedAlgorithm => "UnsupportedSignatureAlgorithmContext"
  | .unsupportedAlgorithmForKey => "UnsupportedSignatureAlgorithmForPublicKeyContext"
  | .invalidSignature => "InvalidSignatureForPublicKey"
  | .pathDepth => "MaximumPathDepthExceeded"
  | .signatureChecks => "MaximumSignatureChecksExceeded"
  | .pathCalls => "MaximumPathBuildCallsExceeded"

/-- How telling a fault is; of several, the most telling is reported. -/
def PathFault.rank : PathFault → Nat
  | .notValidYet | .expired => 290
  | .invalidSignature => 260
  | .algorithmMismatch => 250
  | .emptyUsage => 245
  | .requiredUsage => 240
  | .pathLength => 220
  | .authorityAsEndEntity | .endEntityAsAuthority => 210
  | .invalidValidity => 190
  | .unsupportedAlgorithmForKey => 150
  | .unsupportedAlgorithm => 140
  | .unsupportedCriticalExtension | .unsupportedVersion => 130
  | .pathDepth => 61
  | .trailingData => 40
  | .extensionValueInvalid => 30
  | .badDerTime => 20
  | .badDer => 10
  | .unknownIssuer | .signatureChecks | .pathCalls => 0

/-- The more telling of two faults, the first when they are alike. -/
def PathFault.moreTelling (f g : PathFault) : PathFault :=
  if g.rank ≤ f.rank then f else g

/-- A certificate of the profile. Values written as sequences are kept by their content. -/
structure PathCertificate where
  signed : Octets
  algorithm : Octets
  signature : Octets
  issuer : Octets
  validity : Octets
  subject : Octets
  key : Octets
  basicConstraints : Option Octets
  keyUsage : Option Octets
  extendedUsage : Option Octets
  nameConstraints : Option Octets
  alternativeNames : Option Octets
  distributionPoints : Option Octets
  deriving DecidableEq, Repr

namespace Profile

/-- The least content of a value that is refused. -/
def contentLimit : Nat := 65535

/-- Reads a value with a given tag and returns its content and what follows. -/
def expect (tag : UInt8) (bs : Octets) : Except PathFault (Octets × Octets) :=
  match Der.item? contentLimit bs with
  | some (i, rest) => if i.tag = tag then .ok (i.content, rest) else .error .badDer
  | none => .error .badDer

/-- Reads all of the octets with `f`. -/
def whole {α : Type} (fault : PathFault) (f : Octets → Except PathFault (α × Octets))
    (bs : Octets) : Except PathFault α := do
  let (a, left) ← f bs
  if left.isEmpty then return a else throw fault

/-- Reads a value whose content is read by `f`, to its end. -/
def nested {α : Type} (tag : UInt8) (fault : PathFault)
    (f : Octets → Except PathFault (α × Octets)) (bs : Octets) : Except PathFault (α × Octets) :=
  match expect tag bs with
  | .error _ => .error fault
  | .ok (content, rest) => do
    let a ← whole fault f content
    return (a, rest)

/-- Reads a bit string without unused bits. -/
def bitString (bs : Octets) : Except PathFault (Octets × Octets) :=
  nested Der.bitStringTag .trailingData (fun content =>
    match Der.bits? content with
    | some bits => .ok (bits, [])
    | none => .error .badDer) bs

def smallNumber (bs : Octets) : Except PathFault (Nat × Octets) := do
  let (content, rest) ← expect Der.integerTag bs
  match Der.natural? content with
  | some n => if n < 256 then return (n, rest) else throw .badDer
  | none => throw .badDer

/-- Reads a truth value, which is false when it is not there. -/
def boolean (bs : Octets) : Except PathFault (Bool × Octets) :=
  if bs.head? = some Der.booleanTag then
    nested Der.booleanTag .trailingData (fun
      | 0xff :: rest => .ok (true, rest)
      | 0x00 :: rest => .ok (false, rest)
      | _ => .error .badDer) bs
  else .ok (false, bs)

/-- Requires version three. -/
def version (bs : Octets) : Except PathFault (Unit × Octets) :=
  nested 0xa0 .unsupportedVersion (fun content => do
    let (n, rest) ← smallNumber content
    if n = 2 then return ((), rest) else throw .unsupportedVersion) bs

/-- Keeps the value of an extension that may stand once. -/
def once (old : Option Octets) (bitString : Bool) (value : Octets) :
    Except PathFault (Option Octets) := do
  if old.isSome then throw .extensionValueInvalid
  if bitString then return some value
  return some (← whole .badDer (expect Der.sequenceTag) value)

/-- Takes note of an extension. One that is not known may be critical only if `lenient`. -/
def remember (lenient : Bool) (c : PathCertificate) (e : Extension) :
    Except PathFault PathCertificate :=
  match e.identifier with
  | [0x55, 0x1d, 15] => do return { c with keyUsage := ← once c.keyUsage true e.value }
  | [0x55, 0x1d, 17] => do
    return { c with alternativeNames := ← once c.alternativeNames false e.value }
  | [0x55, 0x1d, 19] => do
    return { c with basicConstraints := ← once c.basicConstraints false e.value }
  | [0x55, 0x1d, 30] => do
    return { c with nameConstraints := ← once c.nameConstraints false e.value }
  | [0x55, 0x1d, 31] => do
    return { c with distributionPoints := ← once c.distributionPoints false e.value }
  | [0x55, 0x1d, 37] => do
    return { c with extendedUsage := ← once c.extendedUsage false e.value }
  | _ => if e.critical && !lenient then .error .unsupportedCriticalExtension else .ok c

def extension (bs : Octets) : Except PathFault (Extension × Octets) :=
  nested Der.sequenceTag .trailingData (fun content => do
    let (identifier, rest) ← expect Der.identifierTag content
    let (critical, rest) ← boolean rest
    let (value, rest) ← expect Der.octetStringTag rest
    return (⟨identifier, critical, value⟩, rest)) bs

/-- Reads extensions to the end; `fuel` bounds their number. -/
def extensionsLoop (lenient : Bool) :
    (fuel : Nat) → PathCertificate → Octets → Except PathFault PathCertificate
  | _, c, [] => .ok c
  | 0, _, _ :: _ => .error .trailingData
  | fuel + 1, c, bs => do
    let (e, rest) ← extension bs
    extensionsLoop lenient fuel (← remember lenient c e) rest

/-- Reads the extensions of a certificate, when there are any. -/
def extensions (lenient : Bool) (c : PathCertificate) (bs : Octets) :
    Except PathFault (PathCertificate × Octets) :=
  if bs.isEmpty then .ok (c, [])
  else
    nested 0xa3 .trailingData (fun wrapper =>
      nested Der.sequenceTag .trailingData (fun list => do
        return (← extensionsLoop lenient list.length c list, [])) wrapper) bs

/-- Reads what is signed, given the outer algorithm and signature. -/
def fields (lenient : Bool) (signed algorithm signature : Octets) (bs : Octets) :
    Except PathFault (PathCertificate × Octets) := do
  let ((), bs) ← version bs
  let (_, bs) ← expect Der.integerTag bs
  let (inner, bs) ← expect Der.sequenceTag bs
  if inner ≠ algorithm then throw .algorithmMismatch
  let (issuer, bs) ← expect Der.sequenceTag bs
  let (validity, bs) ← expect Der.sequenceTag bs
  let (subject, bs) ← expect Der.sequenceTag bs
  let (key, bs) ← expect Der.sequenceTag bs
  let c : PathCertificate := {
    signed, algorithm, signature, issuer, validity, subject, key
    basicConstraints := none, keyUsage := none, extendedUsage := none
    nameConstraints := none, alternativeNames := none, distributionPoints := none }
  extensions lenient c bs

/-- Reads the three parts of a certificate: what is signed, the algorithm and the signature. -/
def parts (bs : Octets) : Except PathFault ((Octets × Octets × Octets × Octets) × Octets) :=
  nested Der.sequenceTag .trailingData (fun content => do
    let (inner, rest) ← expect Der.sequenceTag content
    let signed := content.take (content.length - rest.length)
    let (algorithm, rest) ← expect Der.sequenceTag rest
    let (signature, rest) ← bitString rest
    return ((signed, inner, algorithm, signature), rest)) bs

end Profile

/-- Reads a certificate of the profile that is all of the octets; critical extensions that are not
known pass only if `lenient`. -/
def Profile.certificate (lenient : Bool) (bs : Octets) : Except PathFault PathCertificate := do
  let (signed, inner, algorithm, signature) ← whole .trailingData parts bs
  whole .trailingData (fields lenient signed algorithm signature) inner

def PathCertificate.ofOctets (bs : Octets) : Except PathFault PathCertificate :=
  Profile.certificate false bs

/-- A trusted subject and its key. -/
structure Anchor where
  subject : Octets
  key : Octets
  deriving DecidableEq, Repr

/-- Reads an anchor from a certificate of the first version, which has no extensions. -/
def Anchor.ofFirstVersion (bs : Octets) : Except PathFault Anchor :=
  Profile.whole .badDer (Profile.nested Der.sequenceTag .badDer fun content => do
    let (anchor, rest) ← Profile.nested Der.sequenceTag .badDer (fun bs => do
      let (_, bs) ← Profile.expect Der.integerTag bs
      let (_, bs) ← Profile.expect Der.sequenceTag bs
      let (_, bs) ← Profile.expect Der.sequenceTag bs
      let (_, bs) ← Profile.expect Der.sequenceTag bs
      let (subject, bs) ← Profile.expect Der.sequenceTag bs
      let (key, bs) ← Profile.expect Der.sequenceTag bs
      return (Anchor.mk subject key, bs)) content
    let (_, rest) ← Profile.expect Der.sequenceTag rest
    let (_, rest) ← Profile.expect Der.bitStringTag rest
    return (anchor, rest)) bs

/-- Reads an anchor from a trusted certificate, of which only subject and key count. -/
def Anchor.ofOctets (bs : Octets) : Except PathFault Anchor :=
  match Profile.certificate true bs with
  | .ok c => .ok ⟨c.subject, c.key⟩
  | .error .unsupportedVersion => (Anchor.ofFirstVersion bs).mapError fun _ => .badDer
  | .error fault => .error fault

end ImageTrust.X509
