import ImageTrust.Clock.Calendar
import ImageTrust.Der.Basic
import ImageTrust.Rsa

/-!
Certificates as they are issued: whom they name, whom they name as issuer, when they hold, and the
key they certify. Reading one does not judge it.
-/

namespace ImageTrust.X509

def twoDigits? : Octets → Option (Nat × Octets)
  | a :: b :: rest =>
    if 0x30 ≤ a && a ≤ 0x39 && 0x30 ≤ b && b ≤ 0x39 then
      some ((a.toNat - 0x30) * 10 + (b.toNat - 0x30), rest)
    else none
  | _ => none

/-- The date and time in the content of a time value, and what follows its `Z`. Years of two digits
run from 1950 to 2049. -/
def dateTime? (short : Bool) (content : Octets) : Option (Clock.DateTime × Octets) := do
  let (century, bs) ←
    if short then do
      let (year, _) ← twoDigits? content
      some (if year ≥ 50 then 19 else 20, content)
    else twoDigits? content
  let (year, bs) ← twoDigits? bs
  let (month, bs) ← twoDigits? bs
  let (day, bs) ← twoDigits? bs
  let (hour, bs) ← twoDigits? bs
  let (minute, bs) ← twoDigits? bs
  let (second, bs) ← twoDigits? bs
  let t : Clock.DateTime := ⟨century * 100 + year, month, day, hour, minute, second⟩
  match bs with
  | 0x5a :: rest => if t.isValid then some (t, rest) else none
  | _ => none

/-- A certified public key as it is written. -/
structure SubjectKey where
  /-- The identifier of the kind of key. -/
  algorithm : Octets
  parameters : List Der.Item
  /-- The content of the bit string that holds the key. -/
  bits : Octets
  deriving DecidableEq, Repr

structure Extension where
  identifier : Octets
  critical : Bool
  value : Octets
  deriving DecidableEq, Repr

structure Certificate where
  /-- The octets that are signed. -/
  signed : Octets
  issuer : Octets
  subject : Octets
  notBefore : Clock.DateTime
  notAfter : Clock.DateTime
  key : SubjectKey
  extensions : List Extension
  signatureAlgorithm : Octets
  signature : Octets
  deriving DecidableEq, Repr

/-- Reads the identifier of an algorithm and its parameters. -/
def algorithm? (i : Der.Item) : Option (Octets × List Der.Item) := do
  match ← Der.items? i.content with
  | o :: parameters => if o.tag = Der.identifierTag then some (o.content, parameters) else none
  | [] => none

/-- Whether a content is that of a name: sets of pairs of an identifier and a value. -/
def isName (content : Octets) : Bool :=
  let pairs (set : Der.Item) : Bool :=
    set.tag = Der.setTag && (match Der.items? set.content with
      | some is => is.all fun i => i.tag = Der.sequenceTag && (match Der.items? i.content with
        | some (o :: _ :: _) => o.tag = Der.identifierTag
        | _ => false)
      | none => false)
  match Der.items? content with
  | some sets => sets.all pairs
  | none => false

def time? (bs : Octets) : Option (Clock.DateTime × Octets) := do
  let (i, rest) ← Der.item? Der.unlimited bs
  if i.tag != Der.utcTimeTag && i.tag != Der.generalizedTimeTag then none
  let (t, left) ← dateTime? (i.tag = Der.utcTimeTag) i.content
  if left.isEmpty then some (t, rest) else none

def SubjectKey.ofItem? (i : Der.Item) : Option SubjectKey := do
  let (a, rest) ← Der.tagged? Der.sequenceTag i.content
  let (algorithm, parameters) ← algorithm? a
  let (b, _) ← Der.tagged? Der.bitStringTag rest
  if b.content.isEmpty then none else some ⟨algorithm, parameters, b.content⟩

/-- Reads one extension; it is not critical unless it says so. -/
def Extension.ofItem? (i : Der.Item) : Option Extension := do
  if i.tag != Der.sequenceTag then none
  let (o, rest) ← Der.tagged? Der.identifierTag i.content
  let (critical, rest) ← Der.optional? Der.booleanTag rest
  let (v, _) ← Der.tagged? Der.octetStringTag rest
  some ⟨o.content, critical.any fun c => c.content != [0], v.content⟩

/-- Reads the extensions, which are the last part of what is signed. -/
def extensions? (bs : Octets) : Option (List Extension) := do
  if bs.isEmpty then return []
  let (wrapper, _) ← Der.tagged? 0xa3 bs
  let (list, _) ← Der.tagged? Der.sequenceTag wrapper.content
  (← Der.items? list.content).mapM Extension.ofItem?

/-- Reads a certificate; octets behind it are left alone. -/
def Certificate.ofOctets? (bs : Octets) : Option Certificate := do
  let (outer, _) ← Der.tagged? Der.sequenceTag bs
  let (signed, rest) ← Der.tagged? Der.sequenceTag outer.content
  let (a, rest) ← Der.tagged? Der.sequenceTag rest
  let (signatureAlgorithm, _) ← algorithm? a
  let (b, _) ← Der.tagged? Der.bitStringTag rest
  let (_, fields) ← Der.optional? 0xa0 signed.content
  let (_, fields) ← Der.tagged? Der.integerTag fields
  let (inner, fields) ← Der.tagged? Der.sequenceTag fields
  let _ ← algorithm? inner
  let (issuer, fields) ← Der.tagged? Der.sequenceTag fields
  let (validity, fields) ← Der.tagged? Der.sequenceTag fields
  let (subject, fields) ← Der.tagged? Der.sequenceTag fields
  if !isName issuer.content || !isName subject.content || b.content.isEmpty then none
  let (notBefore, times) ← time? validity.content
  let (notAfter, _) ← time? times
  let (k, fields) ← Der.tagged? Der.sequenceTag fields
  let key ← SubjectKey.ofItem? k
  let (_, fields) ← Der.optional? 0x81 fields
  let (_, fields) ← Der.optional? 0x82 fields
  let extensions ← extensions? fields
  some {
    signed := signed.raw, issuer := issuer.raw, subject := subject.raw
    notBefore, notAfter, key, extensions, signatureAlgorithm
    signature := b.content.drop 1 }

def basicConstraints : Octets := [0x55, 0x1d, 0x13]

/-- The answer of basic constraints to whether the subject is an authority. -/
def authorityFlag? (value : Octets) : Option Bool := do
  let (s, _) ← Der.tagged? Der.sequenceTag value
  let boolean? (i : Der.Item) : Option Bool :=
    if i.tag != Der.booleanTag then none
    else if i.content = [0] then some false
    else if i.content = [0xff] then some true
    else none
  match ← Der.items? s.content with
  | [] => some false
  | [i] =>
    if i.tag = Der.integerTag then (Der.natural? i.content).map fun _ => false else boolean? i
  | [i, j] =>
    if j.tag = Der.integerTag then (Der.natural? j.content).bind fun _ => boolean? i else none
  | _ => none

/-- What basic constraints say, if they stand in the certificate once and readably. -/
def Certificate.authority? (c : Certificate) : Option Bool :=
  match c.extensions.filter (·.identifier = basicConstraints) with
  | [e] => authorityFlag? e.value
  | _ => none

/-- Whether a moment lies within the validity period, both ends included. -/
def Certificate.isValidAt (c : Certificate) (now : Instant) : Bool :=
  let second := now / Clock.nanosecondsPerSecond
  c.notBefore.seconds ≤ second && second ≤ c.notAfter.seconds

def rsaEncryption : Octets := [0x2a, 0x86, 0x48, 0x86, 0xf7, 0x0d, 0x01, 0x01, 0x01]

/-- The RSA key that is certified, when it is one that can be worked with. -/
def SubjectKey.rsa? (k : SubjectKey) : Option Rsa.PublicKey := do
  let parameters := k.parameters.map fun i => (i.tag, i.content)
  if k.algorithm != rsaEncryption || parameters != [(Der.nullTag, [])] then none
  let key ← Rsa.PublicKey.ofDer? (← Der.bits? k.bits)
  if key.isUsable then some key else none

/-- The digest and the fewest bits of a modulus that a signature algorithm asks for. -/
def signatureScheme? (algorithm : Octets) : Option (Digest × Nat) :=
  let rsa (last : UInt8) : Octets := [0x2a, 0x86, 0x48, 0x86, 0xf7, 0x0d, 0x01, 0x01, last]
  [(rsa 0x05, Digest.sha1, 1024), ([0x2b, 0x0e, 0x03, 0x02, 0x1d], .sha1, 1024),
    (rsa 0x0b, .sha256, 2048), (rsa 0x0c, .sha384, 2048), (rsa 0x0d, .sha512, 2048)].lookup algorithm

/-- Whether the signature of the certificate holds under a key. -/
def Certificate.isSignedBy (c : Certificate) (k : SubjectKey) : Bool :=
  match signatureScheme? c.signatureAlgorithm, Rsa.PublicKey.ofDer? (k.bits.drop 1) with
  | some (d, least), some key =>
    key.isStrong least && key.verifies d (d.apply c.signed) c.signature
  | _, _ => false

end ImageTrust.X509
