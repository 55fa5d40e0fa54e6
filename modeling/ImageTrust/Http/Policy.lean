import ImageTrust.Json.Decode
import ImageTrust.Url.Basic

/-!
What a client of a service allows: plain connections or not, how long an exchange may take, how large
an answer may be, and the name the client goes by.
-/

namespace ImageTrust

open Json (Decoder Member)

/-- What a client allows. Times are in milliseconds, sizes in octets. -/
structure HttpPolicy where
  allowPlain : Bool
  timeout : Nat
  sizeLimit : Nat
  userAgent : String
  deriving DecidableEq, Repr

namespace HttpPolicy

/-- The policy of a client for which nothing else is set. -/
def standard : HttpPolicy :=
  ⟨false, 10000, 1048576, "workload-trust/0.1"⟩

def allowPlainMember : Member Bool := .required "allow_http" Json.boolean
def timeoutMember : Member Nat := .required "timeout_ms" (Json.natural "u64")
def sizeLimitMember : Member Nat := .required "max_response_bytes" (Json.natural "usize")
def userAgentMember : Member String := .required "user_agent" Json.text

def decoder : Decoder HttpPolicy :=
  Json.record "HttpPolicy"
    [allowPlainMember.check, timeoutMember.check, sizeLimitMember.check, userAgentMember.check]
    fun p given => do
    let allowPlain ← allowPlainMember.get p given
    let timeout ← timeoutMember.get p given
    let sizeLimit ← sizeLimitMember.get p given
    let userAgent ← userAgentMember.get p given
    return ⟨allowPlain, timeout, sizeLimit, userAgent⟩

def toJson (p : HttpPolicy) : Json :=
  .obj [("allow_http", .bool p.allowPlain), ("timeout_ms", .int p.timeout),
    ("max_response_bytes", .int p.sizeLimit), ("user_agent", .str p.userAgent)]

/-- Why a URL is not asked. -/
inductive Refusal where
  | scheme (name : String)
  | credentials
  deriving DecidableEq, Repr

def Refusal.message : Refusal → String
  | .scheme name => s!"unsupported url scheme: {name}"
  | .credentials => "url credentials are not allowed"

def allowsScheme (allowPlain : Bool) (scheme : String) : Bool :=
  scheme = "https" || (scheme = "http" && allowPlain)

/-- Refuses URLs with another scheme, and those with a user or a password. -/
def check (p : HttpPolicy) (u : Url) : Except Refusal Unit :=
  if !allowsScheme p.allowPlain u.scheme then .error (.scheme u.scheme)
  else if !u.username.isEmpty || !u.password.isEmpty then .error .credentials
  else .ok ()

end HttpPolicy

end ImageTrust
