import ImageTrust.Config.Fault
import ImageTrust.Config.Section
import ImageTrust.Text.Blank
import ImageTrust.Url.Parse

/-!
Checking a configuration. Paths are taken without the blanks around them, and have to lead to what
they are for. Each section is checked in the order of its members, and the first objection counts.
-/

namespace ImageTrust.Config

def pathLimit : Nat := 4096

/-- The most octets a component of a path may have. -/
def componentLimit : Nat := 255

/-- The longest time an exchange may take, in milliseconds. -/
def timeoutLimit : Nat := 120000

/-- The largest limit for the size of an answer. -/
def largestSizeLimit : Nat := 16 * 1024 * 1024

/-- The longest lifetime of a cached key, in seconds. -/
def lifetimeLimit : Nat := 86400

/-- Whether a component of a path is too long. -/
def hasLongComponent (path : String) : Bool :=
  (FileTree.components path).any (·.utf8ByteSize > componentLimit)

def require (holds : Bool) (objection : Objection) : Except Objection Unit :=
  if holds then .ok () else .error objection

def checkOptional {α : Type} (check : α → Except Objection Unit) : Option α → Except Objection Unit
  | some a => check a
  | none => .ok ()

def checkPath (field path : String) : Except Objection Unit := do
  let path := Text.trim path
  require (!path.isEmpty) (.fieldEmpty field)
  require (path.utf8ByteSize ≤ pathLimit) (.fieldTooLong field)
  require (!hasLongComponent path) (.fieldComponentTooLong field)

def checkDirectory (t : FileTree) (field path : String) : Except Objection Unit := do
  checkPath field path
  require (t.isDirectory (Text.trim path)) (.noDirectory field)

def checkFile (t : FileTree) (field path : String) : Except Objection Unit := do
  checkPath field path
  require (t.isFile (Text.trim path)) (.noFile field)

/-- Checks that a number is between one and a limit. -/
def checkRange (field : String) (n limit : Nat) : Except Objection Unit :=
  require (1 ≤ n && n ≤ limit) (.notBetween field limit)

def Limits.check (name : String) (l : Limits) : Except Objection Unit := do
  checkRange s!"{name}.timeout_ms" l.timeout timeoutLimit
  checkRange s!"{name}.max_response_bytes" l.sizeLimit largestSizeLimit

def Verification.check (t : FileTree) (v : Verification) : Except Objection Unit := do
  checkDirectory t "verification.signing_certs_dir" v.signers
  checkDirectory t "verification.trusted_cas_dir" v.authorities

def Verification.signersPath (v : Verification) : String :=
  Text.trim v.signers

def Verification.authoritiesPath (v : Verification) : String :=
  Text.trim v.authorities

/-- A path that ends with a slash: a missing one is added. -/
def directoryPath : Url.Path → Url.Path
  | .segments names =>
    if names.getLast? = some "" then .segments names else .segments (names ++ [""])
  | .opaqueText text => .opaqueText (if text.endsWith "/" then text else text ++ "/")

/-- The URL that those of the attestation service are relative to. -/
def Attestation.base (a : Attestation) : Except Objection Url :=
  match Url.ofText (Text.trim a.baseUrl) with
  | .ok u => .ok { u with path := directoryPath u.path }
  | .error fault => .error (.url "attestation.base_url" fault)

def Attestation.check (a : Attestation) : Except Objection Unit := do
  let u ← a.base
  require (HttpPolicy.allowsScheme a.limits.allowPlain u.scheme)
    (.scheme "attestation.base_url" u.scheme)
  checkOptional (fun name => require (!(Text.trim name).isEmpty)
    (.fieldEmpty "attestation.bearer_token_env")) a.tokenVariable
  a.limits.check "attestation"

/-- The token of the attestation service, when one is wanted. -/
def Attestation.token (environment : String → Option String) (a : Attestation) :
    Except Objection (Option String) :=
  match a.tokenVariable with
  | none => .ok none
  | some name =>
    match environment (Text.trim name) with
    | some token => .ok (some token)
    | none => .error (.variableUnset name)

def KeyRelease.check (t : FileTree) (k : KeyRelease) : Except Objection Unit := do
  checkFile t "key_release.saml_ca_file" k.authorityFile
  checkRange "key_release.cache_ttl_seconds" k.lifetime lifetimeLimit
  k.limits.check "key_release"

/-- What a gate is set up with. -/
structure GateSettings where
  authorityFile : String
  authorities : String
  lifetime : Nat
  deriving DecidableEq, Repr

/-- The settings of a gate whose authorities are in a directory. -/
def KeyRelease.gate (authorities : String) (k : KeyRelease) : Except Objection GateSettings := do
  require (k.lifetime < Nat.pow 2 63) .lifetimeTooLarge
  return ⟨Text.trim k.authorityFile, authorities, k.lifetime⟩

def Audit.check (a : Audit) : Except Objection Unit := do
  checkOptional (checkPath "audit.path") a.path
  require (a.sink != .file || a.path.isSome) .sinkWithoutPath

/-- Checks all sections in order. -/
def check (t : FileTree) (c : Config) : Except Objection Unit := do
  c.verification.check t
  checkOptional Attestation.check c.attestation
  checkOptional (KeyRelease.check t) c.keyRelease
  c.audit.check

end ImageTrust.Config
