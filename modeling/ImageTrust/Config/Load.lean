import ImageTrust.Audit.Sink
import ImageTrust.Config.Check
import ImageTrust.Toml.Decode

/-!
Loading a configuration: finding its file, reading it, and what the parts of the program get from it.
-/

namespace ImageTrust.Config

/-- The variable that names the file of the configuration. -/
def pathVariable : String := "WORKLOAD_TRUST_CONFIG"

/-- The file of the configuration when nothing names another. -/
def standardPath : String := "workload-trust.toml"

def fileSizeLimit : Nat := 1048576

/-- The path of the file: one that is given, or that of the variable, or the standard one. -/
def findPath (environment : String → Option String) : (given : Option String) →
    Except Objection String
  | some path => .ok path
  | none =>
    match environment pathVariable with
    | some path => if path.utf8ByteSize > pathLimit then .error .pathTooLong else .ok path
    | none => .ok standardPath

/-- Checks the length of the path of the file. -/
def checkConfigPath (path : String) : Except Objection Unit := do
  require (path.utf8ByteSize ≤ pathLimit) .pathTooLong
  require (!hasLongComponent path) .componentTooLong

/-- The configuration that a file holds, not checked yet. -/
def ofOctets (content : Octets) : Except Fault Config := do
  if content.length > fileSizeLimit then throw (.invalid .fileTooLarge)
  let some s := Text.decode? content | throw (.invalid .notUtf8)
  let some c := Toml.decode? decoder s | throw .parse
  return c

def load (t : FileTree) (environment : String → Option String) (given : Option String) :
    Except Fault Config := do
  let path ← (findPath environment given).mapError .invalid
  (checkConfigPath path).mapError .invalid
  let content ← (t.read path).mapError .io
  let c ← ofOctets content
  (c.check t).mapError .invalid
  return c

def attestationSection (c : Config) : Except Objection Attestation :=
  match c.attestation with
  | some a => .ok a
  | none => .error (.sectionMissing "attestation")

def gateSettings (c : Config) : Except Objection GateSettings :=
  match c.keyRelease with
  | some k => k.gate c.verification.authoritiesPath
  | none => .error (.sectionMissing "key_release")

/-- What the client of the attestation service is set up with. -/
structure ClientSettings where
  base : Url
  token : Option String
  roots : List Octets
  policy : HttpPolicy
  deriving DecidableEq, Repr

/-- The settings of the client of the attestation service. -/
def clientSettings (p : X509.Pki) (t : FileTree) (environment : String → Option String)
    (c : Config) : Except Objection ClientSettings := do
  let a ← c.attestationSection
  let roots ← (Bundle.roots p t c.verification.authoritiesPath).mapError
    (.authorities "verification.trusted_cas_dir")
  let base ← a.base
  let token ← a.token environment
  return ⟨base, token, roots, a.limits.policy⟩

/-- Where events go. -/
def Audit.target (a : Audit) : Except Objection AuditSink :=
  match a.sink, a.path with
  | .standardError, _ => .ok .standardError
  | .nowhere, _ => .ok .nowhere
  | .file, some path => .ok (.file (Text.trim path))
  | .file, none => .error .sinkWithoutPath

/-- Makes the place for events ready: the place, and the files after it. -/
def Audit.open (t : FileTree) (a : Audit) : Except Fault (AuditSink × FileTree) := do
  let sink ← a.target.mapError .invalid
  let t ← (sink.prepare t).mapError .io
  return (sink, t)

end ImageTrust.Config
