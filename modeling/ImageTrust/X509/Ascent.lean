import ImageTrust.X509.Pki

/-!
From the certificate of an authority up to a trusted root. At each step some root has to have issued
the certificate, or else the climb goes on from the first bundled authority that did. At most eight
certificates are tried, so the climb ends also where authorities issue each other in a circle.
-/

namespace ImageTrust.X509

/-- Why an authority is not traced to a root. -/
inductive AscentFault where
  /-- A certificate of the bundle or a root cannot be read. -/
  | unreadable
  | outsideValidity
  | noIssuer
  | tooLong
  deriving DecidableEq, Repr

/-- The wording of a fault; an unreadable certificate is not worded. -/
def AscentFault.message? : AscentFault → Option String
  | .unreadable => none
  | .outsideValidity => some "certificate outside validity period"
  | .noIssuer => some "no trusted issuer for ca signer"
  | .tooLong => some "ca chain too long"

/-- What a climb has to know about certificates. -/
structure Issuance (κ : Type) where
  isValid : κ → Bool
  isAuthority : κ → Bool
  /-- `issued c i` when the subject of `i` issued `c`. -/
  issued : κ → κ → Bool

def ascentLimit : Nat := 8

section

variable {κ : Type} (s : Issuance κ) (intermediates roots : List κ)

/-- Climbs from a certificate when at most `left` may still be visited. -/
def Issuance.climb : (left : Nat) → κ → Except AscentFault Unit
  | 0, _ => .error .tooLong
  | left + 1, c =>
    if !s.isValid c then .error .outsideValidity
    else if roots.any (s.issued c) then .ok ()
    else
      match intermediates.find? fun i => s.isAuthority i && s.issued c i with
      | some i => Issuance.climb left i
      | none => .error .noIssuer

end

/-- What certificates say about each other at a moment. -/
def issuanceAt (p : Pki) (now : Instant) : Issuance p.Certificate where
  isValid c := p.isValidAt c now
  isAuthority := p.isAuthority
  issued := p.isIssuedBy

/-- Traces an authority to a root through bundled certificates, which all have to be readable. -/
def ascend (p : Pki) (now : Instant) (leaf : p.Certificate) (intermediates roots : List Octets) :
    Except AscentFault Unit :=
  match roots.mapM p.certificate?, intermediates.mapM p.certificate? with
  | some roots, some intermediates => (issuanceAt p now).climb intermediates roots ascentLimit leaf
  | _, _ => .error .unreadable

end ImageTrust.X509
