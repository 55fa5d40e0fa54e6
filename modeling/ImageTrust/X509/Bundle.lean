import ImageTrust.Files.Tree
import ImageTrust.X509.Pki

/-!
Certificates kept in PEM files. A bundle is what one file holds, in its order, and is never empty. A
directory of authorities is read as a whole, its files in the order of their names, and is not read
at all when one of them is no bundle.
-/

namespace ImageTrust.Bundle

open X509

def sizeLimit : Nat := 1048576

/-- Why certificates cannot be read. -/
inductive Fault where
  | io (path : String) (cause : IoFault)
  | invalidPem (path : String)
  | empty (path : String)
  | tooLarge (path : String)
  deriving DecidableEq, Repr

def Fault.message : Fault → String
  | .io path cause => s!"certificate io error for {path}: {cause.message}"
  | .invalidPem path => s!"invalid pem in {path}"
  | .empty path => s!"no certificates found in {path}"
  | .tooLarge path => s!"certificate file {path} exceeds size limit"

/-- Whether an entry of a directory counts as a bundle: a file, not a link, with the extension. -/
def isCandidate (name : String) : FileEntry → Bool
  | .file _ => extension? name = some "pem"
  | _ => false

/-- Inserts a name into an ascending list. -/
def insertName (name : String) : List String → List String
  | [] => [name]
  | n :: ns => if name < n then name :: n :: ns else n :: insertName name ns

/-- The bundles of a directory by their names, ascending. -/
def candidates (entries : List (String × FileEntry)) : List String :=
  ((entries.filter fun (name, e) => isCandidate name e).map (·.1)).foldr insertName []

def list (t : FileTree) (directory : String) : Except Fault (List String) :=
  match t.list directory with
  | .ok entries => .ok ((candidates entries).map (joinPath directory))
  | .error cause => .error (.io directory cause)

/-- The certificates of a file, the leaf first. -/
def read (p : Pki) (t : FileTree) (path : String) : Except Fault (List Octets) := do
  let size ← (t.size path).mapError (.io path)
  if size > sizeLimit then throw (.tooLarge path)
  let content ← (t.read path).mapError (.io path)
  match p.bundle? content with
  | none => throw (.invalidPem path)
  | some [] => throw (.empty path)
  | some certificates => return certificates

def roots (p : Pki) (t : FileTree) (directory : String) : Except Fault (List Octets) := do
  let paths ← list t directory
  let bundles ← paths.mapM (read p t)
  return bundles.flatten

end ImageTrust.Bundle
