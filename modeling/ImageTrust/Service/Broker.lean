import ImageTrust.Http.Transport
import ImageTrust.Policy.KeyTransfer
import ImageTrust.Service.Attestation

/-!
The key broker, asked to hand out a key to the host of a report. The broker's URL comes with every
request, so it is checked there. The answer is one JSON document or nothing.
-/

namespace ImageTrust.Broker

/-- The URL at which a broker hands out a key. -/
def keyUrl (broker : Url) (id : String) : Except Url.Fault Url :=
  broker.join ("keys/" ++ id ++ "/transfer")

/-- The request for a key, with the report that has to earn it. -/
def request (policy : HttpPolicy) (url : Url) (report : Octets) : HttpRequest where
  method := "POST"
  url := url
  body := report
  headers := [("accept", "application/json"), ("content-length", toString report.length),
    ("content-type", AttestationClient.mediaType), ("user-agent", policy.userAgent)]

def prepare (x : Transport) (policy : HttpPolicy) (broker : Url) (roots : List Octets) (id : String)
    (report : Octets) : Except TransportFault (HttpClient × HttpRequest) := do
  let url ← (keyUrl broker id).mapError fun _ => .connection
  (policy.check url).mapError .refusal
  let http ← x.client policy roots
  return (http, request policy url report)

/-- A key is read from one document with nothing behind it. -/
def readKey (body : Octets) : Except ServiceFault String :=
  match Json.decodeOctets KeyTransfer.decoder body with
  | .ok k => .ok k.wrappedKey
  | .error _ => .error (.invalid none)

def transfer (policy : HttpPolicy) (x : Transport) (broker : Url) (roots : List Octets)
    (id : String) (report : Octets) : Except ServiceFault String := do
  let (http, r) ← (prepare x policy broker roots id report).mapError
    fun fault => ServiceFault.transport fault.reason?
  let response ← (x.send http r).mapError fun fault => ServiceFault.transport fault.reason?
  response.answer policy.sizeLimit readKey

end ImageTrust.Broker
