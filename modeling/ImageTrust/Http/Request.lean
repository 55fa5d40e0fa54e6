import ImageTrust.Http.Policy
import ImageTrust.Text.Utf8

/-!
Requests as a client makes them.
-/

namespace ImageTrust

/-- A request, with the headers that matter to a service. -/
structure HttpRequest where
  method : String
  url : Url
  headers : List (String × String)
  body : Octets
  deriving DecidableEq, Repr

namespace HttpRequest

/-- What a request asks for: path and query. -/
def target (r : HttpRequest) : String :=
  r.url.pathText ++ Url.markedText "?" r.url.query

/-- Whether a text may be the value of a header: no control characters but tabs. -/
def isHeaderValue (s : String) : Bool :=
  (Text.encode s).all fun b => (0x20 ≤ b && b != 0x7f) || b = 9

/-- Whether all headers of a request can be sent. -/
def isSendable (r : HttpRequest) : Bool :=
  r.headers.all fun h => isHeaderValue h.2

end HttpRequest

end ImageTrust
