import ImageTrust.Assertion.Basic
import ImageTrust.Signature.Verify
import ImageTrust.X509.Bundle

/-!
Who signed an assertion. The signer's certificate comes with the signature and has to lead to one of
the trusted authorities: those of a bundle kept for assertions, which also serve as intermediates, or
the roots. Then the document has to be what was signed under the key of that certificate.
-/

namespace ImageTrust.Assertion

open ImageTrust.X509

/-- Why the signature of an assertion is not accepted. -/
inductive SignerFault where
  | assertion (fault : Assertion.Fault)
  | signature (fault : Signature.Fault)
  | certificateMissing
  | authorities (fault : Bundle.Fault)
  | anchor (reason : String)
  | path (reason : String)
  /-- The certificate led to an authority but cannot be read otherwise. -/
  | certificateUnreadable
  deriving DecidableEq, Repr

def SignerFault.detail : SignerFault → String
  | .assertion fault => fault.message
  | .signature fault => fault.message
  | .certificateMissing => "signature has no signer certificate"
  | .authorities fault => fault.message
  | .anchor reason => reason
  | .path reason => reason
  | .certificateUnreadable => ""

/-- Checks that an assertion is signed by somebody trusted. -/
def verifySigner (p : Pki) (t : FileTree) (now : Instant) (authorityFile : String)
    (roots : List Octets) (document : Octets) : Except SignerFault Unit := do
  let _ ← (Assertion.ofOctets document).mapError .assertion
  let envelope ← (Signature.Envelope.ofOctets document).mapError .signature
  let some signer := envelope.certificate | throw .certificateMissing
  let bundle ← (Bundle.read p t authorityFile).mapError .authorities
  let anchors ← ((bundle ++ roots).mapM p.anchor).mapError .anchor
  let leaf ← (p.leaf signer).mapError .path
  (p.validate anchors bundle now leaf).mapError .path
  let some c := p.certificate? signer | throw .certificateUnreadable
  (envelope.verify p document c).mapError .signature

end ImageTrust.Assertion
