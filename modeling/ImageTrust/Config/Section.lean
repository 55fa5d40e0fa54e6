import ImageTrust.Http.Policy

/-!
The sections of a configuration: where certificates are kept, how the attestation service is asked,
how keys are released, and where events go. Only the first one has to be there.
-/

namespace ImageTrust.Config

open Json (Decoder Member)

/-- Where the certificates that judge flavors are kept. -/
structure Verification where
  signers : String
  authorities : String
  skipSignature : Bool
  deriving DecidableEq, Repr

/-- How a service is asked. -/
structure Limits where
  timeout : Nat
  sizeLimit : Nat
  allowPlain : Bool
  deriving DecidableEq, Repr

/-- How the attestation service is asked. -/
structure Attestation where
  baseUrl : String
  tokenVariable : Option String
  limits : Limits
  deriving DecidableEq, Repr

/-- How keys are released. The lifetime of a cached key is in seconds. -/
structure KeyRelease where
  authorityFile : String
  lifetime : Nat
  limits : Limits
  deriving DecidableEq, Repr

/-- Where events go. -/
inductive SinkKind where
  | standardError
  | file
  | nowhere
  deriving DecidableEq, Repr

/-- Where events go, and the path of their file. -/
structure Audit where
  sink : SinkKind
  path : Option String
  deriving DecidableEq, Repr

/-- A limit for which nothing is set is that of the standard policy. -/
def timeoutMember : Member Nat :=
  .default "timeout_ms" (Json.natural "u64") HttpPolicy.standard.timeout

def sizeLimitMember : Member Nat :=
  .default "max_response_bytes" (Json.natural "usize") HttpPolicy.standard.sizeLimit

def allowPlainMember : Member Bool := .default "allow_http" Json.boolean false

/-- The policy of a client with the given limits. -/
def Limits.policy (l : Limits) : HttpPolicy :=
  { HttpPolicy.standard with
    allowPlain := l.allowPlain, timeout := l.timeout, sizeLimit := l.sizeLimit }

def Limits.members (l : Limits) : List (String × Json) :=
  [("timeout_ms", .int l.timeout), ("max_response_bytes", .int l.sizeLimit),
    ("allow_http", .bool l.allowPlain)]

/-- A text, or null when there is none. -/
def textOrNull : Option String → Json
  | some s => .str s
  | none => .null

namespace Verification

def signersMember : Member String := .required "signing_certs_dir" Json.text
def authoritiesMember : Member String := .required "trusted_cas_dir" Json.text
def skipSignatureMember : Member Bool :=
  .default "skip_flavor_signature_verification" Json.boolean false

def decoder : Decoder Verification :=
  Json.record "VerificationConfig"
    [signersMember.check, authoritiesMember.check, skipSignatureMember.check] fun p given => do
    let signers ← signersMember.get p given
    let authorities ← authoritiesMember.get p given
    let skipSignature ← skipSignatureMember.get p given
    return ⟨signers, authorities, skipSignature⟩

def toJson (v : Verification) : Json :=
  .obj [("signing_certs_dir", .str v.signers), ("trusted_cas_dir", .str v.authorities),
    ("skip_flavor_signature_verification", .bool v.skipSignature)]

end Verification

namespace Attestation

def baseUrlMember : Member String := .required "base_url" Json.text
def tokenVariableMember : Member (Option String) :=
  .default "bearer_token_env" (Json.optional Json.text) none

def decoder : Decoder Attestation :=
  Json.record "AttestationConfig"
    [baseUrlMember.check, tokenVariableMember.check, timeoutMember.check, sizeLimitMember.check,
      allowPlainMember.check] fun p given => do
    let baseUrl ← baseUrlMember.get p given
    let tokenVariable ← tokenVariableMember.get p given
    let timeout ← timeoutMember.get p given
    let sizeLimit ← sizeLimitMember.get p given
    let allowPlain ← allowPlainMember.get p given
    return ⟨baseUrl, tokenVariable, timeout, sizeLimit, allowPlain⟩

def toJson (a : Attestation) : Json :=
  .obj (("base_url", .str a.baseUrl) :: ("bearer_token_env", textOrNull a.tokenVariable)
    :: a.limits.members)

end Attestation

namespace KeyRelease

/-- The lifetime of a cached key for which nothing is set. -/
def standardLifetime : Nat := 300

def authorityFileMember : Member String := .required "saml_ca_file" Json.text
def lifetimeMember : Member Nat :=
  .default "cache_ttl_seconds" (Json.natural "u64") standardLifetime

def decoder : Decoder KeyRelease :=
  Json.record "KeyReleaseSettings"
    [authorityFileMember.check, lifetimeMember.check, timeoutMember.check, sizeLimitMember.check,
      allowPlainMember.check] fun p given => do
    let authorityFile ← authorityFileMember.get p given
    let lifetime ← lifetimeMember.get p given
    let timeout ← timeoutMember.get p given
    let sizeLimit ← sizeLimitMember.get p given
    let allowPlain ← allowPlainMember.get p given
    return ⟨authorityFile, lifetime, timeout, sizeLimit, allowPlain⟩

def toJson (k : KeyRelease) : Json :=
  .obj (("saml_ca_file", .str k.authorityFile) :: ("cache_ttl_seconds", .int k.lifetime)
    :: k.limits.members)

end KeyRelease

namespace SinkKind

def name : SinkKind → String
  | .standardError => "stderr"
  | .file => "file"
  | .nowhere => "none"

/-- All names in order. -/
def names : List String :=
  [name .standardError, name .file, name .nowhere]

def ofName? (s : String) : Option SinkKind :=
  [SinkKind.standardError, .file, .nowhere].find? (·.name = s)

/-- The kind with a name as it is written. -/
def ofText (raw : List Char) : Except Json.Flaw SinkKind := do
  let s ← Json.textOf raw
  match ofName? s with
  | some k => return k
  | none => .error (.shape (.unknownVariant s names))

/-- A name, or an object with a name as its only key and nothing behind it. -/
def decoder : Decoder SinkKind
  | _, .string raw => ofText raw
  | _, .object [(key, .array [] .closed)] .closed => ofText key
  | _, .object [(key, .object [] .closed)] .closed => ofText key
  | _, s => Json.refuse "string or map" s

end SinkKind

namespace Audit

/-- Events go to the error output when nothing is set. -/
def standard : Audit := ⟨.standardError, none⟩

def sinkMember : Member SinkKind := .default "sink" SinkKind.decoder .standardError
def pathMember : Member (Option String) := .default "path" (Json.optional Json.text) none

def decoder : Decoder Audit :=
  Json.record "AuditConfig" [sinkMember.check, pathMember.check] fun p given => do
    let sink ← sinkMember.get p given
    let path ← pathMember.get p given
    return ⟨sink, path⟩

def toJson (a : Audit) : Json :=
  .obj [("sink", .str a.sink.name), ("path", textOrNull a.path)]

end Audit

end ImageTrust.Config

namespace ImageTrust

open Json (Decoder Member)

/-- A configuration. -/
structure Config where
  verification : Config.Verification
  attestation : Option Config.Attestation
  keyRelease : Option Config.KeyRelease
  audit : Config.Audit
  deriving DecidableEq, Repr

namespace Config

def verificationMember : Member Verification := .required "verification" Verification.decoder
def attestationMember : Member (Option Attestation) :=
  .default "attestation" (Json.optional Attestation.decoder) none
def keyReleaseMember : Member (Option KeyRelease) :=
  .default "key_release" (Json.optional KeyRelease.decoder) none
def auditMember : Member Audit := .default "audit" Audit.decoder Audit.standard

def decoder : Decoder Config :=
  Json.record "WorkloadTrustConfig"
    [verificationMember.check, attestationMember.check, keyReleaseMember.check, auditMember.check]
    fun p given => do
    let verification ← verificationMember.get p given
    let attestation ← attestationMember.get p given
    let keyRelease ← keyReleaseMember.get p given
    let audit ← auditMember.get p given
    return ⟨verification, attestation, keyRelease, audit⟩

end Config

end ImageTrust
