import ImageTrust.Pem
import ImageTrust.X509.Path
import ImageTrust.X509.Pki

/-!
One set of answers about certificates and keys, to run with. It goes as far as RSA: certificates signed
in another way are not believed, and what authorities may sign for is not limited by names.
-/

namespace ImageTrust.X509

def Pki.standard : Pki where
  Certificate := X509.Certificate
  Anchor := X509.Anchor
  Leaf := PathCertificate
  RsaKey := Rsa.PublicKey
  bundle? := Pem.certificates?
  certificate? := X509.Certificate.ofOctets?
  issuer := X509.Certificate.issuer
  subject := X509.Certificate.subject
  authority? := X509.Certificate.authority?
  isValidAt := X509.Certificate.isValidAt
  isSignedBy c issuer := c.isSignedBy issuer.key
  rsaKey? c := c.key.rsa?
  verifies := Rsa.PublicKey.verifies
  anchor bs := (X509.Anchor.ofOctets bs).mapError PathFault.name
  leaf bs := (PathCertificate.ofOctets bs).mapError PathFault.name
  validate anchors intermediates now leaf :=
    ((PathTrust.mk anchors intermediates now).verify leaf).mapError PathFault.name

end ImageTrust.X509
