import ImageTrust.Base64

/-!
Why a document does not carry a signature that holds: it is not readable as signed, it uses what is
not accepted, or what was signed is not what it says.
-/

namespace ImageTrust.Signature

/-- What keeps a document from being read as signed. -/
inductive Malformation where
  | unreadable
  /-- The part to be covered by the signature is not there. -/
  | regionMissing
  | elementMissing (name : String)
  | algorithmMissing (element : String)
  | textMissing (element : String)
  | notBase64 (fault : Base64.Fault)
  deriving DecidableEq, Repr

/-- The wording of a malformation, empty when there is nothing to add. -/
def Malformation.detail : Malformation → String
  | .unreadable => ""
  | .regionMissing => "signed element not found"
  | .elementMissing name => s!"{name} missing"
  | .algorithmMissing element => s!"{element} has no Algorithm"
  | .textMissing element => s!"{element} is empty"
  | .notBase64 fault => fault.message

/-- What a signature uses that is not accepted. -/
inductive Unsupported where
  | severalSignatures
  | canonicalization (method : String)
  | signatureMethod (method : String)
  | referenceCount
  | referenceTarget (uri : String)
  | transform (method : String)
  | notCanonical
  | digestMethod (method : String)
  deriving DecidableEq, Repr

def Unsupported.detail : Unsupported → String
  | .severalSignatures => "multiple signatures"
  | .canonicalization method => s!"canonicalization method {method}"
  | .signatureMethod method => s!"signature method {method}"
  | .referenceCount => "exactly one reference is required"
  | .referenceTarget uri => s!"reference uri {uri}"
  | .transform method => s!"transform {method}"
  | .notCanonical => "reference must use exclusive canonicalization"
  | .digestMethod method => s!"digest method {method}"

/-- Why a signature does not hold. -/
inductive Fault where
  | malformed (what : Malformation)
  | unsupported (what : Unsupported)
  | unsupportedKey
  | digestMismatch
  | valueMismatch
  deriving DecidableEq, Repr

def Fault.message : Fault → String
  | .malformed .unreadable => "malformed signed xml"
  | .malformed what => s!"malformed signed xml: {what.detail}"
  | .unsupported what => s!"unsupported signature: {what.detail}"
  | .unsupportedKey => "unsupported signer key"
  | .digestMismatch => "reference digest mismatch"
  | .valueMismatch => "signature value mismatch: verification error"

end ImageTrust.Signature
