import ImageTrust.Der.Basic
import ImageTrust.Hash.Digest

/-!
RSA signatures in the first version of PKCS #1. A signature holds when raising it to the public
exponent gives exactly the encoded digest of the message, padded to the size of the modulus.
-/

namespace ImageTrust.Rsa

/-- A public key. -/
structure PublicKey where
  modulus : Nat
  exponent : Nat
  deriving DecidableEq, Repr

def bitLength (n : Nat) : Nat :=
  if n = 0 then 0 else n.log2 + 1

def PublicKey.size (k : PublicKey) : Nat :=
  (bitLength k.modulus + 7) / 8

/-- Reads a key written as a sequence of its two numbers, and nothing else. -/
def PublicKey.ofDer? (bs : Octets) : Option PublicKey := do
  let (s, rest) ← Der.tagged? Der.sequenceTag bs
  let (n, fields) ← Der.tagged? Der.integerTag s.content
  let (e, fields) ← Der.tagged? Der.integerTag fields
  if !rest.isEmpty || !fields.isEmpty then none
  let modulus ← Der.natural? n.content
  let exponent ← Der.natural? e.content
  some ⟨modulus, exponent⟩

def exponentLimit : Nat := Nat.pow 2 33 - 1

/-- Whether a key with a modulus of up to 4096 bits can be worked with at all. -/
def PublicKey.isUsable (k : PublicKey) : Bool :=
  bitLength k.modulus ≤ 4096 && k.exponent < k.modulus && k.modulus % 2 = 1
    && k.exponent % 2 = 1 && 2 ≤ k.exponent && k.exponent ≤ exponentLimit

/-- Whether a key may vouch for certificates, where `least` is the fewest bits of a modulus, counted
in whole octets. -/
def PublicKey.isStrong (k : PublicKey) (least : Nat) : Bool :=
  least ≤ 8 * k.size && bitLength k.modulus ≤ 8192 && k.modulus % 2 = 1
    && k.exponent % 2 = 1 && 3 ≤ k.exponent && k.exponent ≤ exponentLimit

/-- `power m b e acc` is `acc * b ^ e` modulo `m`, for an exponent of at most `bits` bits. -/
def power (m : Nat) : (bits : Nat) → (b e acc : Nat) → Nat
  | 0, _, _, acc => acc
  | bits + 1, b, e, acc =>
    power m bits (b * b % m) (e / 2) (if e % 2 = 1 then acc * b % m else acc)

/-- `b ^ e` modulo `m`. -/
def powMod (b e m : Nat) : Nat :=
  power m (bitLength e) (b % m) e (1 % m)

/-- What stands in front of a digest to tell its function. -/
def digestHead : Digest → Octets
  | .sha1 =>
    [0x30, 0x21, 0x30, 0x09, 0x06, 0x05, 0x2b, 0x0e, 0x03, 0x02, 0x1a, 0x05, 0x00, 0x04, 0x14]
  | .sha256 =>
    [0x30, 0x31, 0x30, 0x0d, 0x06, 0x09, 0x60, 0x86, 0x48, 0x01, 0x65, 0x03, 0x04, 0x02, 0x01,
      0x05, 0x00, 0x04, 0x20]
  | .sha384 =>
    [0x30, 0x41, 0x30, 0x0d, 0x06, 0x09, 0x60, 0x86, 0x48, 0x01, 0x65, 0x03, 0x04, 0x02, 0x02,
      0x05, 0x00, 0x04, 0x30]
  | .sha512 =>
    [0x30, 0x51, 0x30, 0x0d, 0x06, 0x09, 0x60, 0x86, 0x48, 0x01, 0x65, 0x03, 0x04, 0x02, 0x03,
      0x05, 0x00, 0x04, 0x40]

/-- The padded form of a digest, when the key has room for it. -/
def padded? (size : Nat) (d : Digest) (digest : Octets) : Option Octets :=
  let tail := digestHead d ++ digest
  if size < tail.length + 11 then none
  else some (0 :: 1 :: List.replicate (size - tail.length - 3) 0xff ++ 0 :: tail)

/-- Whether a signature over a digest holds under a key. -/
def PublicKey.verifies (k : PublicKey) (d : Digest) (digest signature : Octets) : Bool :=
  let s := Der.number signature
  if signature.length != k.size || s ≥ k.modulus then false
  else
    match padded? k.size d digest with
    | some expected => Der.number expected = powMod s k.exponent k.modulus
    | none => false

end ImageTrust.Rsa
