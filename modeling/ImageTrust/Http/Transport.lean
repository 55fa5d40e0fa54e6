import ImageTrust.Http.Request
import ImageTrust.Http.Response

/-!
What is taken as given about HTTP. A library sets up clients and exchanges requests for responses; it
takes care of TLS, of the roots it brings along, of names and connections, of the time an exchange may
take, and it follows no redirects. Whatever it answers is a response as such, so that a body that comes
to its end has the length that was declared; nothing else is assumed.
-/

namespace ImageTrust

/-- What a client is set up with: its policy, and certificates of authorities that it trusts besides
those the library brings along. -/
structure HttpClient where
  policy : HttpPolicy
  roots : List Octets
  deriving DecidableEq, Repr

structure Transport where
  /-- Whether a certificate can be that of an authority. -/
  takesRoot : Octets → Bool
  /-- Whether a client can be set up. -/
  setsUp : HttpClient → Bool
  /-- What comes back for a request, if anything does. -/
  respond : HttpClient → HttpRequest → Option HttpResponse

/-- Why a client has no response. -/
inductive TransportFault where
  | refusal (why : HttpPolicy.Refusal)
  | root
  | setup
  /-- No response came to the request, or there was no request to send. -/
  | connection
  deriving DecidableEq, Repr

/-- The wording of a fault, when there is one. -/
def TransportFault.reason? : TransportFault → Option String
  | .refusal why => some why.message
  | .root => some "invalid root certificate"
  | .setup => some "http client build failed"
  | .connection => none

namespace Transport

/-- A client with a policy that trusts the given authorities. -/
def client (x : Transport) (policy : HttpPolicy) (roots : List Octets) :
    Except TransportFault HttpClient :=
  if !roots.all x.takesRoot then .error .root
  else if !x.setsUp ⟨policy, roots⟩ then .error .setup
  else .ok ⟨policy, roots⟩

def send (x : Transport) (c : HttpClient) (r : HttpRequest) :
    Except TransportFault HttpResponse :=
  match x.respond c r with
  | some response => .ok response
  | none => .error .connection

end Transport

end ImageTrust
