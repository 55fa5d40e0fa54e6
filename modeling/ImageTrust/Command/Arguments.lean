/-!
The arguments of the command line. Options are written with two hyphens, their value behind an equals
sign or as the next argument, which may then not begin with a hyphen. Each option is given at most once
in front of the name of a command and once behind it, and what is behind it counts.
-/

namespace ImageTrust

/-- What the program is asked to do. -/
inductive Command where
  | verify (manifest flavor : String)
  | transferKey (host url : String)
  | flavorKey (flavor host : String)
  | checkConfig
  deriving DecidableEq, Repr

/-- What arguments ask for. -/
inductive Invocation where
  | version
  | run (config : Option String) (command : Command)
  deriving DecidableEq, Repr

namespace Command

/-- An option: its name, and whether its value is a path, which is never empty. -/
structure Flag where
  name : String
  isPath : Bool
  deriving DecidableEq, Repr

/-- The option that may stand everywhere. -/
def configFlag : Flag := ⟨"config", true⟩

/-- The names of commands with their options, all of which have to be given. -/
def commands : List (String × List Flag) :=
  [("verify", [⟨"manifest", true⟩, ⟨"flavor", true⟩]),
    ("transfer-key", [⟨"hardware-uuid", false⟩, ⟨"key-url", false⟩]),
    ("flavor-key", [⟨"flavor", true⟩, ⟨"hardware-uuid", false⟩]), ("check-config", [])]

abbrev Values := List (String × String)

/-- Splits an option into its name and a value behind an equals sign. -/
def splitFlag (arg : String) : Option (String × Option String) :=
  match arg.toList with
  | '-' :: '-' :: cs =>
    match cs.dropWhile (· != '=') with
    | _ :: value => some (String.ofList (cs.takeWhile (· != '=')), some (String.ofList value))
    | [] => if cs.isEmpty then none else some (String.ofList cs, none)
  | _ => none

/-- Whether an argument can be the value of the option before it. -/
def isValue (arg : String) : Bool :=
  match arg.toList with
  | '-' :: _ :: _ => false
  | _ => true

/-- Takes note of the value of an option that was not given before. -/
def addValue (flag : Flag) (value : String) (given : Values) : Option Values :=
  if (given.lookup flag.name).isSome || (flag.isPath && value.isEmpty) then none
  else some ((flag.name, value) :: given)

/-- Reads options up to an argument that is none of those known. `none` for one that is given twice
or lacks its value. -/
def readFlags (known : List Flag) : (given : Values) → List String → Option (Values × List String)
  | given, [] => some (given, [])
  | given, [arg] =>
    match splitFlag arg with
    | none => some (given, [arg])
    | some (name, value) =>
      match known.find? (·.name = name), value with
      | none, _ => some (given, [arg])
      | some flag, some value => (addValue flag value given).map fun given => (given, [])
      | some _, none => none
  | given, arg :: next :: rest =>
    match splitFlag arg with
    | none => some (given, arg :: next :: rest)
    | some (name, value) =>
      match known.find? (·.name = name), value with
      | none, _ => some (given, arg :: next :: rest)
      | some flag, some value =>
        match addValue flag value given with
        | some given => readFlags known given (next :: rest)
        | none => none
      | some flag, none =>
        if isValue next then
          match addValue flag next given with
          | some given => readFlags known given rest
          | none => none
        else none

/-- The command with a name and the values of its options. -/
def ofValues? (name : String) (given : Values) : Option Command :=
  match name with
  | "verify" => do
    let manifest ← given.lookup "manifest"
    let flavor ← given.lookup "flavor"
    some (.verify manifest flavor)
  | "transfer-key" => do
    let host ← given.lookup "hardware-uuid"
    let url ← given.lookup "key-url"
    some (.transferKey host url)
  | "flavor-key" => do
    let flavor ← given.lookup "flavor"
    let host ← given.lookup "hardware-uuid"
    some (.flavorKey flavor host)
  | "check-config" => some .checkConfig
  | _ => none

/-- Whether nothing is left but perhaps the mark that ends options. -/
def isEnd (rest : List String) : Bool :=
  rest.isEmpty || rest = ["--"]

/-- Whether an argument asks for the version; letters behind the short form do not matter. -/
def asksVersion (arg : String) : Bool :=
  arg = "--version" || "-V".isPrefixOf arg

/-- What arguments ask for; `none` when they make no sense. -/
def readArguments (args : List String) : Option Invocation := do
  let (front, rest) ← readFlags [configFlag] [] args
  match rest with
  | [] => none
  | name :: rest =>
    if asksVersion name then some .version
    else
      let flags ← commands.lookup name
      let (given, rest) ← readFlags (configFlag :: flags) [] rest
      if isEnd rest then do
        let command ← ofValues? name given
        some (.run ((given.lookup "config").or (front.lookup "config")) command)
      else none

end Command

end ImageTrust
