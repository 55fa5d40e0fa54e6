import ImageTrust.Text.Utf8

/-!
A tree of files with symbolic links, the directory that relative paths begin in, and what the system
refuses to do at a place. A path is resolved one component at a time, each directory on the way has to
be searched for the next name, and a link is followed wherever it stands.
-/

namespace ImageTrust

/-- An entry of a directory. -/
inductive FileEntry where
  | file (content : Octets)
  | directory (entries : List (String × FileEntry))
  | link (target : String)
  deriving Repr

/-- Why a file cannot be used. -/
inductive IoFault where
  | notFound
  | notDirectory
  | isDirectory
  | nameTooLong
  | tooManyLinks
  | denied
  /-- A zero character in a path, which no system call takes. -/
  | zeroInPath
  /-- Any other fault, in the words of the system. -/
  | other (text : String)
  deriving DecidableEq, Repr

def IoFault.message : IoFault → String
  | .notFound => "No such file or directory (os error 2)"
  | .notDirectory => "Not a directory (os error 20)"
  | .isDirectory => "Is a directory (os error 21)"
  | .nameTooLong => "File name too long (os error 36)"
  | .tooManyLinks => "Too many levels of symbolic links (os error 40)"
  | .denied => "Permission denied (os error 13)"
  | .zeroInPath => "file name contained an unexpected NUL byte"
  | .other text => text

namespace FileEntry

def child? (name : String) : FileEntry → Option FileEntry
  | .directory entries => entries.lookup name
  | _ => none

/-- The entry at the end of a list of names. -/
def at? (e : FileEntry) (names : List String) : Option FileEntry :=
  names.foldlM (fun e name => e.child? name) e

/-- Replaces the entry of a name, or adds one. -/
def setName (name : String) (e : FileEntry) : List (String × FileEntry) → List (String × FileEntry)
  | [] => [(name, e)]
  | (n, f) :: rest => if n = name then (n, e) :: rest else (n, f) :: setName name e rest

/-- Replaces what is at the end of a list of names; directories on the way are made if needed. -/
def put (new : FileEntry) : List String → FileEntry → FileEntry
  | [], _ => new
  | name :: names, e =>
    let entries := match e with
      | .directory entries => entries
      | _ => []
    let old := (entries.lookup name).getD (.directory [])
    .directory (setName name (put new names old) entries)

end FileEntry

/-- What the system may be asked to do at a place. -/
inductive FileUse where
  /-- Finding a name in a directory. -/
  | search
  /-- Telling what is there. -/
  | look
  /-- Reading a file, or listing a directory. -/
  | read
  /-- Writing to a file, or making it. -/
  | write
  deriving DecidableEq, Repr

/-- The files a program works on. -/
structure FileTree where
  root : FileEntry
  /-- The current directory, as names from the root. -/
  here : List String
  /-- Why the system refuses a use of what is at a place; for want of a right, say. -/
  refuses : FileUse → List String → Option IoFault

/-- Where a path leads: the names from the root without links, and the entry there, which may be
missing at the very end. -/
structure FileLocation where
  names : List String
  entry : Option FileEntry
  deriving Repr

/-- What is added to at a place: the content of a file, or nothing yet. -/
def FileLocation.content (p : FileLocation) : Except IoFault Octets :=
  match p.entry with
  | some (.file content) => .ok content
  | some _ => .error .isDirectory
  | none => .ok []

namespace FileTree

/-- The most links followed for one path. -/
def linkLimit : Nat := 40

/-- The most octets of a path that can be opened. -/
def pathLimit : Nat := 4095

/-- What stands between the slashes of a path. -/
def parts (path : String) : List String :=
  ((path.toList.splitOn '/').filter (!·.isEmpty)).map String.ofList

/-- The components of a path, and a last empty one for a slash at its end. -/
def components (path : String) : List String :=
  if path.endsWith "/" then parts path ++ [""] else parts path

/-- The directory in which a path begins. -/
def start (t : FileTree) (path : String) : List String :=
  if path.startsWith "/" then [] else t.here

/-- Goes along components. A link puts the components of its target in front of the rest, by `again`. A
slash at the end asks for a directory, so nothing can be made there. -/
def walkWith (again : List String → List String → Except IoFault FileLocation) (t : FileTree)
    (making : Bool) (names : List String) : List String → Except IoFault FileLocation
  | [] => .ok ⟨names, t.root.at? names⟩
  | "" :: rest => walkWith again t making names rest
  | name :: rest =>
    match t.refuses .search names with
    | some cause => .error cause
    | none =>
      if name = "." then walkWith again t making names rest
      else if name = ".." then walkWith again t making names.dropLast rest
      else if making && rest = [""] then .error .isDirectory
      else if name.utf8ByteSize > 255 then .error .nameTooLong
      else
        let place := names ++ [name]
        match t.root.at? place with
        | none => if rest.isEmpty then .ok ⟨place, none⟩ else .error .notFound
        | some (.file content) =>
          if rest.isEmpty then .ok ⟨place, some (.file content)⟩ else .error .notDirectory
        | some (.directory _) => walkWith again t making place rest
        | some (.link target) =>
          again (if target.startsWith "/" then [] else names) (components target ++ rest)

/-- Goes along components when at most `left` more links may be followed. -/
def walk (t : FileTree) (making : Bool) :
    (left : Nat) → (names rest : List String) → Except IoFault FileLocation
  | 0 => walkWith (fun _ _ => .error .tooManyLinks) t making
  | left + 1 => walkWith (walk t making left) t making

/-- Resolves a path, `making` when a file is to be made if it is missing. Nothing is found in a current
directory that was removed. -/
def locate (t : FileTree) (making : Bool) (path : String) : Except IoFault FileLocation :=
  if path.toList.contains '\x00' then .error .zeroInPath
  else if path.isEmpty then .error .notFound
  else if path.utf8ByteSize > pathLimit then .error .nameTooLong
  else match t.root.at? (t.start path) with
    | some (.directory _) => t.walk making linkLimit (t.start path) (components path)
    | _ => .error .notFound

/-- The entry at the end of a path, whatever may be done with it. -/
def entry (t : FileTree) (path : String) : Except IoFault FileEntry := do
  match (← t.locate false path).entry with
  | some e => return e
  | none => throw .notFound

def allow (t : FileTree) (use : FileUse) (names : List String) : Except IoFault Unit :=
  match t.refuses use names with
  | some cause => .error cause
  | none => .ok ()

/-- The entry at the end of a path, for a use of it. -/
def take (t : FileTree) (use : FileUse) (path : String) : Except IoFault FileEntry := do
  let p ← t.locate false path
  match p.entry with
  | some e =>
    t.allow use p.names
    return e
  | none => throw .notFound

/-- The size of a file; that of a directory is small and says nothing. -/
def size (t : FileTree) (path : String) : Except IoFault Nat := do
  match ← t.take .look path with
  | .file content => return content.length
  | _ => return 0

def read (t : FileTree) (path : String) : Except IoFault Octets := do
  match ← t.take .read path with
  | .file content => return content
  | _ => throw .isDirectory

/-- The entries of a directory, links not followed. -/
def list (t : FileTree) (path : String) : Except IoFault (List (String × FileEntry)) := do
  let p ← t.locate false path
  match p.entry with
  | some (.directory entries) =>
    t.allow .read p.names
    return entries
  | some _ => throw .notDirectory
  | none => throw .notFound

def isDirectory (t : FileTree) (path : String) : Bool :=
  match t.take .look path with
  | .ok (.directory _) => true
  | _ => false

def isFile (t : FileTree) (path : String) : Bool :=
  match t.take .look path with
  | .ok (.file _) => true
  | _ => false

/-- The tree with a file at a place. -/
def putFile (t : FileTree) (names : List String) (content : Octets) : FileTree :=
  { t with root := FileEntry.put (.file content) names t.root }

/-- Adds octets at the end of a file, which is made if it is missing. -/
def append (t : FileTree) (path : String) (content : Octets) : Except IoFault FileTree := do
  let p ← t.locate true path
  let old ← p.content
  t.allow .write p.names
  return t.putFile p.names (old ++ content)

end FileTree

def joinPath (directory name : String) : String :=
  if directory.isEmpty || directory.endsWith "/" then directory ++ name
  else directory ++ "/" ++ name

/-- What follows the last dot of a file name; a dot at the beginning does not count. -/
def extension? (name : String) : Option String :=
  let reversed := name.toList.reverse
  match reversed.dropWhile (· != '.') with
  | _ :: _ :: _ => some (String.ofList (reversed.takeWhile (· != '.')).reverse)
  | _ => none

end ImageTrust
