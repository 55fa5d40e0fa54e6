/-!
Answers of the services that a release depends on: the attestation service and the key broker. Both
fail in the same three ways, and each has its own words for them.
-/

namespace ImageTrust

/-- A service that can be asked. -/
inductive Service where
  | attestation
  | keyBroker
  deriving DecidableEq, Repr

/-- Why a service gave no answer: it could not be asked, it refused, or its answer makes no sense. A
reason that is not known in words is left out. -/
inductive ServiceFault where
  | transport (reason : Option String)
  | status (code : Nat)
  | invalid (reason : Option String)
  deriving DecidableEq, Repr

/-- A text with its reason, when that is known. -/
def withReason (text : String) : Option String → String
  | some reason => s!"{text}: {reason}"
  | none => text

def ServiceFault.message : Service → ServiceFault → String
  | .attestation, .transport reason => withReason "attestation request failed" reason
  | .attestation, .status code => s!"attestation service returned status {code}"
  | .attestation, .invalid reason => withReason "attestation response invalid" reason
  | .keyBroker, .transport reason => withReason "key broker request failed" reason
  | .keyBroker, .status code => s!"key broker returned status {code}"
  | .keyBroker, .invalid reason => withReason "key broker response invalid" reason

end ImageTrust
