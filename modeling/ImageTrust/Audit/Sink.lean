import ImageTrust.Audit.Event
import ImageTrust.Files.Tree

/-!
Where events go. A file is only ever added to, one line for each event in the order of recording.
-/

namespace ImageTrust

/-- A place for events. -/
inductive AuditSink where
  | standardError
  | file (path : String)
  | nowhere
  deriving DecidableEq, Repr

namespace AuditSink

def octets (milliseconds : Nat) (events : List AuditEvent) : Octets :=
  events.flatMap fun e => Text.encode (e.line milliseconds ++ "\n")

/-- Makes the sink ready; a file that is missing is made. -/
def prepare (s : AuditSink) (t : FileTree) : Except IoFault FileTree :=
  match s with
  | .file path => t.append path []
  | _ => .ok t

/-- The files after recording events; a file that cannot be written any more loses them. -/
def record (s : AuditSink) (milliseconds : Nat) (events : List AuditEvent) (t : FileTree) :
    FileTree :=
  match s with
  | .file path =>
    match t.append path (octets milliseconds events) with
    | .ok t => t
    | .error _ => t
  | _ => t

end AuditSink

end ImageTrust
