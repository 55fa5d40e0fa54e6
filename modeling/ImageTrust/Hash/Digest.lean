import ImageTrust.Hash.Sha1
import ImageTrust.Hash.Sha2

/-!
The digest functions that signatures may name.
-/

namespace ImageTrust

/-- A digest function. -/
inductive Digest where
  | sha1
  | sha256
  | sha384
  | sha512
  deriving DecidableEq, Repr

def Digest.apply : Digest → Octets → Octets
  | .sha1, message => Sha1.hash (Sha2.padded Sha2.short message)
  | .sha256, message => Sha2.hash Sha2.short Sha2.start256 message
  | .sha384, message => (Sha2.hash Sha2.long Sha2.start384 message).take 48
  | .sha512, message => Sha2.hash Sha2.long Sha2.start512 message

end ImageTrust
