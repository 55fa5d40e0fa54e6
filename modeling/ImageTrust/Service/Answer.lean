import ImageTrust.Http.Response
import ImageTrust.Service.Fault

/-!
What a client makes of the response of a service. A status other than success is passed on; of a success
the body is taken whole, and the client reads it in its own way.
-/

namespace ImageTrust

/-- The answer in a response whose body is read by `read` if it is not larger than a limit. -/
def HttpResponse.answer {α : Type} (limit : Nat) (read : Octets → Except ServiceFault α)
    (r : HttpResponse) : Except ServiceFault α :=
  if !r.isSuccess then .error (.status r.status)
  else
    match r.wholeBody limit with
    | .error fault => .error (.invalid (some fault.message))
    | .ok body => read body

end ImageTrust
