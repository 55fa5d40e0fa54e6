import ImageTrust.Config.Load
import ImageTrust.Http.Transport
import ImageTrust.Service.Answer

/-!
The attestation service, asked for the latest report on a host. Its answer is taken whole or refused:
it has to be a success, within the size limit, and not blank.
-/

namespace ImageTrust

/-- A client of the attestation service. -/
structure AttestationClient where
  base : Url
  token : Option String
  http : HttpClient
  deriving DecidableEq, Repr

namespace AttestationClient

def mediaType : String := "application/samlassertion+xml"

def ofSettings (x : Transport) (s : Config.ClientSettings) :
    Except TransportFault AttestationClient := do
  (s.policy.check s.base).mapError .refusal
  let http ← x.client s.policy s.roots
  return ⟨s.base, s.token, http⟩

/-- The query for the latest report on a host. -/
def reportQuery (host : String) : String :=
  "latestPerHost=true&hostHardwareId=" ++ String.ofList (Url.formEncode host.toList)

/-- The URL of the latest report on a host. -/
def reportUrl (base : Url) (host : String) : Except Url.Fault Url := do
  let u ← base.join "reports"
  return { u with query := some (reportQuery host) }

def tokenHeader : Option String → List (String × String)
  | some token => [("authorization", "Bearer " ++ token)]
  | none => []

/-- The request for the latest report on a host. -/
def request (c : AttestationClient) (host : String) : Except TransportFault HttpRequest := do
  let url ← (reportUrl c.base host).mapError fun _ => .connection
  return {
    method := "GET", url, body := []
    headers := ("accept", mediaType) :: tokenHeader c.token
      ++ [("user-agent", c.http.policy.userAgent)] }

/-- A report is taken as it is, unless it is blank. -/
def readReport (body : Octets) : Except ServiceFault Octets :=
  if body.all Text.isBlankOctet then .error (.invalid (some "empty report")) else .ok body

def fetch (c : AttestationClient) (x : Transport) (host : String) : Except ServiceFault Octets := do
  let r ← (c.request host).mapError fun fault => ServiceFault.transport fault.reason?
  let response ← (x.send c.http r).mapError fun fault => ServiceFault.transport fault.reason?
  response.answer c.http.policy.sizeLimit readReport

end AttestationClient

end ImageTrust
