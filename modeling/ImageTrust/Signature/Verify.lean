import ImageTrust.Signature.Envelope
import ImageTrust.X509.Pki

/-!
Whether the signature of a document holds under a key. The digest of the document is compared
first; only then is the signature over the signed information checked.
-/

namespace ImageTrust.Signature

/-- The part of the document that the digest covers. -/
def Envelope.covered (e : Envelope) : Region :=
  if e.enveloped then .enveloped else .document

def Envelope.checkDigest (e : Envelope) (document : Octets) : Except Fault Unit := do
  let text ← e.covered.canonical e.documentQualifiers document
  if e.digest.apply (Text.encode text) = e.digestValue then return ()
  else throw .digestMismatch

/-- Checks the signature over the signed information of a document under the key of a certificate. -/
def Envelope.checkValue (p : X509.Pki) (e : Envelope) (document : Octets) (c : p.Certificate) :
    Except Fault Unit := do
  let text ← Region.signedInfo.canonical e.infoQualifiers document
  let some k := p.rsaKey? c | throw .unsupportedKey
  let digest := e.signatureDigest.apply (Text.encode text)
  if p.verifies k e.signatureDigest digest e.value then return () else throw .valueMismatch

/-- Checks that a document is what was signed, and that the key of a certificate signed it. -/
def Envelope.verify (p : X509.Pki) (e : Envelope) (document : Octets) (c : p.Certificate) :
    Except Fault Unit := do
  e.checkDigest document
  e.checkValue p document c

end ImageTrust.Signature
