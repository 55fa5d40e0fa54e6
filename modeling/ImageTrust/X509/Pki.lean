import ImageTrust.Clock.Calendar
import ImageTrust.Hash.Digest

/-!
What is taken as given about certificates and keys. Taking certificates out of a file, reading one,
checking the signature on it, looking for a path to a trusted authority and checking an RSA signature are
asked of libraries, and nothing is assumed about their answers. Texts are the words of the libraries for
what they refuse.
-/

namespace ImageTrust.X509

structure Pki where
  /-- A certificate that was read. -/
  Certificate : Type
  /-- A trusted authority, as something for paths to end in. -/
  Anchor : Type
  /-- A certificate from which paths begin. -/
  Leaf : Type
  RsaKey : Type
  /-- The certificates in the content of a PEM file, in order, when all of it can be read. -/
  bundle? : Octets → Option (List Octets)
  certificate? : Octets → Option Certificate
  issuer : Certificate → Octets
  subject : Certificate → Octets
  /-- The answer of basic constraints to whether the subject is an authority, if they stand in the
  certificate once and readably. -/
  authority? : Certificate → Option Bool
  isValidAt : Certificate → Instant → Bool
  /-- Whether the signature of the first certificate holds under the key of the second. -/
  isSignedBy : Certificate → Certificate → Bool
  rsaKey? : Certificate → Option RsaKey
  /-- Whether a key verifies a signature of a digest, padded as in the first version of PKCS #1. -/
  verifies : RsaKey → Digest → (digest signature : Octets) → Bool
  anchor : Octets → Except String Anchor
  leaf : Octets → Except String Leaf
  /-- Looks for a path by way of intermediates that allows server authentication at a moment. -/
  validate : List Anchor → (intermediates : List Octets) → Instant → Leaf → Except String Unit

namespace Pki

variable (p : Pki)

def isAuthority (c : p.Certificate) : Bool :=
  p.authority? c = some true

/-- Whether a certificate was issued by the subject of another, in name and in signature. -/
def isIssuedBy (c issuer : p.Certificate) : Bool :=
  p.issuer c = p.subject issuer && p.isSignedBy c issuer

/-- Whether an authority issued the certificate to itself. -/
def isSelfCertified (c : p.Certificate) : Bool :=
  p.isAuthority c && p.isIssuedBy c c

end Pki

end ImageTrust.X509
