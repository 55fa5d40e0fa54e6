import ImageTrust.Command.Run
import ImageTrust.Http.Network
import ImageTrust.X509.Standard
import Std.Time.DateTime.Timestamp

/-!
The command line. The files that a command may need are taken up from where their paths lead, the
command is run on them, and then its output is written and its events are added to their file. No
transport is linked in, so every address refuses and keys are not released from here.
-/

namespace ImageTrust.Main

/-- What was taken up: the entries by their places, and what the system refused. -/
structure Survey where
  root : FileEntry
  refused : List ((FileUse × List String) × IoFault)

def Survey.tree (s : Survey) (here : List String) : FileTree :=
  ⟨s.root, here, fun use names => s.refused.lookup (use, names)⟩

def Survey.put (s : Survey) (e : FileEntry) (names : List String) : Survey :=
  { s with root := FileEntry.put e names s.root }

/-- Makes sure that there is a directory, and leaves one that is there as it is. -/
def Survey.withDirectory (s : Survey) (names : List String) : Survey :=
  match s.root.at? names with
  | some (.directory _) => s
  | _ => s.put (.directory []) names

def Survey.refuse (s : Survey) (use : FileUse) (names : List String) (cause : IoFault) : Survey :=
  { s with refused := ((use, names), cause) :: s.refused }

def faultOf : IO.Error → IoFault
  | .permissionDenied .. => .denied
  | e => .other (toString e)

/-- The names along a path, the last ones first; links are not told from what they lead to. -/
def passed (here : List String) (path : String) : List (List String) :=
  let start := if path.startsWith "/" then [] else here
  (FileTree.components path).foldl (fun way name =>
    let names := way.headD []
    if name = ".." then names.dropLast :: way
    else if name = "" || name = "." then way
    else (names ++ [name]) :: way) [start]

/-- Takes up the content of a file. -/
def takeFile (s : Survey) (names : List String) (path : String) : IO Survey := do
  try
    let content ← IO.FS.readBinFile path
    return s.put (.file content.toList) names
  catch e => return (s.put (.file []) names).refuse .read names (faultOf e)

/-- Takes up a directory with the files in it. -/
def takeDirectory (s : Survey) (names : List String) (path : String) : IO Survey := do
  let mut s := s.withDirectory names
  try
    for e in ← ((← IO.currentDir) / path).readDir do
      if (← e.path.symlinkMetadata).type == .file then
        s ← takeFile s (names ++ [e.fileName]) e.path.toString
    return s
  catch e => return s.refuse .read names (faultOf e)

/-- Takes up what a path leads to, and the directories on the way. -/
def takeUp (here : List String) (s : Survey) (path : String) : IO Survey := do
  let way := passed here path
  let names := way.headD []
  let mut s := s
  for above in way.tail.reverse do
    s := s.withDirectory above
  try
    if (← ((← IO.currentDir) / path).metadata).type == .dir then takeDirectory s names path
    else takeFile s names path
  catch
    | .noFileOrDirectory .. => return s
    | e => return s.refuse .search names.dropLast (faultOf e)

/-- The path of the configuration that arguments and environment name. -/
def configPath (named : Option String) : Option Invocation → String
  | some (.run (some path) _) => path
  | _ => named.getD Config.standardPath

def configPaths (c : Config) : List String :=
  [c.verification.signersPath, c.verification.authoritiesPath]
    ++ (c.keyRelease.map fun k => Text.trim k.authorityFile).toList
    ++ (c.audit.path.map Text.trim).toList

def commandPaths : Option Invocation → List String
  | some (.run _ (.verify manifest flavor)) => [manifest, flavor]
  | some (.run _ (.flavorKey flavor _)) => [flavor]
  | _ => []

/-- The variable that a configuration takes its token from. -/
def tokenVariable (c : Config) : Option String :=
  (c.attestation.bind (·.tokenVariable)).map Text.trim

/-- The value of a variable, when its name can be one. -/
def valueOf (name : String) : IO (Option String) :=
  if name.isEmpty || name.contains '=' || name.contains '\x00' then return none else IO.getEnv name

/-- Adds to a file what a command added to it. -/
def writeBack (before after : FileTree) (path : String) : IO Unit := do
  match after.read path with
  | .ok content =>
    let old := match before.read path with
      | .ok old => old
      | .error _ => []
    let file ← IO.FS.Handle.mk path .append
    file.write (ByteArray.mk (content.drop old.length).toArray)
  | .error _ => return ()

def runCommand (args : List String) : IO UInt32 := do
  let invocation := Command.readArguments args
  let named ← valueOf Config.pathVariable
  let path := configPath named invocation
  let here := FileTree.parts (← IO.currentDir).toString
  let mut taken ← takeUp here (Survey.withDirectory ⟨.directory [], []⟩ here) path
  let config := ((taken.tree here).read path).toOption.bind fun content =>
    (Config.ofOctets content).toOption
  for path in (config.map configPaths).getD [] ++ commandPaths invocation do
    taken ← takeUp here taken path
  let files := taken.tree here
  let tokenName := config.bind tokenVariable
  let token ← (tokenName.map valueOf).getD (return none)
  let environment (name : String) : Option String :=
    if name = Config.pathVariable then named else if some name = tokenName then token else none
  let now := (← Std.Time.Timestamp.now).toNanosecondsSinceUnixEpoch.val
  let world : Command.World :=
    ⟨files, environment, Network.transport [] now, X509.Pki.standard, now, (now / 1000000).toNat⟩
  let outcome := Command.run world args
  (← IO.getStdout).putStr outcome.output
  (← IO.getStderr).putStr outcome.errors
  if let some path := config.bind (·.audit.path) then
    writeBack files outcome.files (Text.trim path)
  return UInt32.ofNat outcome.code

end ImageTrust.Main

def main (args : List String) : IO UInt32 :=
  ImageTrust.Main.runCommand args
