import ImageTrust.Http.Transport
import ImageTrust.X509.Path

/-!
One transport to run with: servers and how a client reaches them. A client speaks TLS with a server
exactly when the URL's scheme is `https`; then it has to accept the server's certificates, which lead to
one of its roots and name the address it asked for. Names are not resolved: a server is reached by its
address, and an address without a server refuses. Whatever a server is asked, it answers the same and
closes the connection.
-/

namespace ImageTrust

open X509

/-- A server at an address. With certificates it speaks TLS, its own certificate being the first. -/
structure Server where
  host : Url.Host
  port : Nat
  certificates : Option (List Octets)
  response : Octets
  deriving DecidableEq, Repr

abbrev Network := List Server

/-- The octets of an address as a certificate holds them. -/
def Url.Host.addressOctets : Url.Host → Option Octets
  | .domain _ => none
  | .ipv4 n =>
    some [UInt8.ofNat (n / Nat.pow 2 24), UInt8.ofNat (n / Nat.pow 2 16), UInt8.ofNat (n / Nat.pow 2 8), UInt8.ofNat n]
  | .ipv6 pieces =>
    some (pieces.flatMap fun p => [UInt8.ofNat (p / 256), UInt8.ofNat p])

namespace Server

/-- The tag of an address among the names of a certificate. -/
def addressTag : UInt8 := 0x87

/-- Whether a certificate names a host by its address. -/
def isNamed (host : Url.Host) (c : PathCertificate) : Bool :=
  match host.addressOctets, (c.alternativeNames.bind Der.items?) with
  | some octets, some names => names.any fun i => i.tag = addressTag && i.content = octets
  | _, _ => false

/-- Whether a certificate has a key that a connection can be set up with. -/
def hasConnectionKey (certificate : Octets) : Bool :=
  match (Certificate.ofOctets? certificate).bind (·.key.rsa?) with
  | some k => k.isStrong 2048
  | none => false

/-- Whether a client accepts the certificates of a server. -/
def isAccepted (now : Instant) (anchors : List Anchor) (host : Url.Host) : List Octets → Bool
  | [] => false
  | own :: intermediates =>
    match PathCertificate.ofOctets own with
    | .ok leaf =>
      ((PathTrust.mk anchors intermediates now).verify leaf).toBool && isNamed host leaf
        && hasConnectionKey own
    | .error _ => false

/-- Whether a server is at the address of a URL. -/
def isAt (u : Url) (s : Server) : Bool :=
  u.host = some s.host && u.port.or (Url.defaultPort? u.scheme) = some s.port

/-- Whether a client that found a server can speak with it. -/
def isReached (now : Instant) (anchors : List Anchor) (u : Url) (s : Server) : Bool :=
  match s.certificates with
  | none => u.scheme = "http"
  | some certificates => u.scheme = "https" && isAccepted now anchors s.host certificates

end Server

namespace Network

/-- The server that a client sends a request to. -/
def reach? (n : Network) (now : Instant) (c : HttpClient) (r : HttpRequest) : Option Server := do
  let anchors ← (c.roots.mapM Anchor.ofOctets).toOption
  if r.isSendable then (n.find? (·.isAt r.url)).filter (·.isReached now anchors r.url) else none

/-- The transport to the servers of a network. A root is not looked at before a client is set up. -/
def transport (n : Network) (now : Instant) : Transport where
  takesRoot _ := true
  setsUp c := (c.roots.mapM Anchor.ofOctets).toBool && HttpRequest.isHeaderValue c.policy.userAgent
  respond c r := (n.reach? now c r).bind fun s => HttpResponse.ofOctets? s.response

end Network

end ImageTrust
