import ImageTrust.Policy.Report
import ImageTrust.Trust.FlavorSigner
import ImageTrust.Url.Parse
import ImageTrust.Uuid

/-!
Judging an instance by a signed flavor. Manifest and flavor are checked first, and nothing is judged
unless all of their parts are well formed. Then the rules of the flavor's kind of image are applied in
a fixed order: encryption, integrity protection for containers, and the flavor's own signature.
-/

namespace ImageTrust.Evaluation

/-- Why a manifest and a flavor cannot be judged. -/
inductive InputFault where
  | instanceId (text : String)
  | imageId (text : String)
  | hardwareUuid (text : String)
  | flavorId (text : String)
  | flavorPart (label : String)
  | keyUrl (text : String)
  | digest (text : String)
  deriving DecidableEq, Repr

def InputFault.message : InputFault → String
  | .instanceId text => s!"invalid instance id: {text}"
  | .imageId text => s!"invalid image id: {text}"
  | .hardwareUuid text => s!"invalid host hardware uuid: {text}"
  | .flavorId text => s!"invalid flavor id: {text}"
  | .flavorPart label => s!"unsupported flavor part: {label}"
  | .keyUrl text => s!"invalid key url: {text}"
  | .digest text => s!"invalid digest: {text}"

/-- Whether a key may be fetched from a URL; an empty text names none. -/
def isKeyUrl (text : String) : Bool :=
  text.isEmpty || (Url.https? text).isSome

/-- Whether a text may be a digest; an empty text is none. -/
def isDigest (text : String) : Bool :=
  text.isEmpty || (Base64.decode text).toBool

def checkEncryption : Option FlavorEncryption → Except InputFault Unit
  | none => .ok ()
  | some e =>
    if !isKeyUrl e.keyUrl then .error (.keyUrl e.keyUrl)
    else if !isDigest e.digest then .error (.digest e.digest)
    else .ok ()

/-- Checks a manifest and a flavor, and finds the kind of image. The first part that is not well
formed is reported. -/
def checkInput (m : Manifest) (f : Flavor) : Except InputFault FlavorPart := do
  if !Uuid.isRandomId m.instanceId then throw (.instanceId m.instanceId)
  if !Uuid.isRandomId m.imageId then throw (.imageId m.imageId)
  if !Uuid.isHardwareId m.hostHardwareUuid then throw (.hardwareUuid m.hostHardwareUuid)
  if !Uuid.isRandomId f.identity.id then throw (.flavorId f.identity.id)
  let label := f.identity.description.flavorPart
  let some part := FlavorPart.ofLabel? label | throw (.flavorPart label)
  checkEncryption f.encryption
  return part

/-- The rules of a flavor in order. -/
def rules (part : FlavorPart) (f : Flavor) (d : Directories) (skipSignature : Bool) : List Rule :=
  Rule.encryption part f.encryptionRequired
    :: (if part = .containerImage then [Rule.integrity part f.integrityEnforced] else [])
    ++ (if skipSignature then [] else [Rule.flavorIntegrity part d])

/-- Applies a rule: what it comes to, and what was put on record meanwhile. -/
def apply (p : X509.Pki) (t : FileTree) (now : Instant) (m : Manifest) (f : SignedFlavor)
    (r : Rule) : RuleOutcome × List AuditEvent :=
  match r.kind with
  | .encryption =>
    (.compare "Encryption does not match" r.expected.value m.imageEncrypted, [])
  | .integrity =>
    (.compare "Integrity enforcement does not match" r.expected.value m.imageIntegrityEnforced, [])
  | .flavorIntegrity d =>
    let (trusted, events) := FlavorSigner.verify p t now d.signers d.authorities f
    (if trusted then .held else .failed "Flavor is not trusted", events)

/-- Applies rules one after the other. -/
def applyAll (p : X509.Pki) (t : FileTree) (now : Instant) (m : Manifest)
    (f : SignedFlavor) : List Rule → List RuleResult × List AuditEvent
  | [] => ([], [])
  | r :: rest =>
    let (outcome, events) := apply p t now m f r
    let (results, later) := applyAll p t now m f rest
    (RuleResult.ofOutcome r f.flavor.identity.id outcome :: results, events ++ later)

/-- How judging an instance ended, and what was put on record meanwhile. -/
structure Judgement where
  answer : Except InputFault TrustReport
  events : List AuditEvent

/-- Judges an instance by a signed flavor. -/
def evaluate (p : X509.Pki) (t : FileTree) (now : Instant) (d : Directories)
    (skipSignature : Bool) (m : Manifest) (f : SignedFlavor) : Judgement :=
  match checkInput m f.flavor with
  | .error fault => ⟨.error fault, []⟩
  | .ok part =>
    let (results, events) := applyAll p t now m f (rules part f.flavor d skipSignature)
    ⟨.ok (.ofResults m part.policyName results), events⟩

end ImageTrust.Evaluation
