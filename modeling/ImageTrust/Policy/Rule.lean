import ImageTrust.Policy.Flavor
import ImageTrust.Policy.Manifest

/-!
Rules: the conditions a flavor sets on an instance. In JSON a rule carries its name as a member
among its own; a document is accepted only if that member occurs once with a known name. The
directories that a flavor's signature is judged by belong to a rule but not to its text.
-/

namespace ImageTrust

open Json (Decoder Member Place Flaw Source)

/-- Why a rule does not hold. -/
structure RuleFault where
  description : String
  cause : Option String
  deriving DecidableEq, Repr

/-- The value that a rule wants of a named property. -/
structure ExpectedValue where
  name : String
  value : Bool
  deriving DecidableEq, Repr

/-- Where the certificates that judge flavors are kept. -/
structure Directories where
  signers : String
  authorities : String
  deriving DecidableEq, Repr

/-- The directories of a rule that was decoded. -/
def Directories.unset : Directories :=
  ⟨"", ""⟩

/-- The three conditions. -/
inductive RuleKind where
  | encryption
  | integrity
  | flavorIntegrity (directories : Directories)
  deriving DecidableEq, Repr

/-- A condition with the kinds of image it applies to and the value it wants. -/
structure Rule where
  kind : RuleKind
  markers : List String
  expected : ExpectedValue
  deriving DecidableEq, Repr

def RuleKind.name : RuleKind → String
  | .encryption => "EncryptionMatches"
  | .integrity => "IntegrityMatches"
  | .flavorIntegrity _ => "FlavorIntegrityMatches"

/-- The kinds in order, as they are decoded. -/
def RuleKind.all : List RuleKind :=
  [.encryption, .integrity, .flavorIntegrity .unset]

/-- All names in order. -/
def RuleKind.names : List String :=
  RuleKind.all.map RuleKind.name

def RuleKind.ofName? (name : String) : Option RuleKind :=
  RuleKind.all.find? (·.name = name)

/-- What applying a rule comes to. -/
structure RuleOutcome where
  trusted : Bool
  faults : List RuleFault
  deriving DecidableEq, Repr

namespace RuleOutcome

def held : RuleOutcome :=
  ⟨true, []⟩

def failed (description : String) : RuleOutcome :=
  ⟨false, [⟨description, none⟩]⟩

/-- Compares the value that a flavor wants with the one that was observed. -/
def compare (description : String) (expected actual : Bool) : RuleOutcome :=
  if actual = expected then held
  else failed s!"{description}: expected {expected}, actual {actual}"

end RuleOutcome

namespace RuleFault

def descriptionMember : Member String := .required "description" Json.text
def causeMember : Member (Option String) := .default "cause" (Json.optional Json.text) none

def decoder : Decoder RuleFault :=
  Json.record "Fault" [descriptionMember.check, causeMember.check] fun p given => do
    let description ← descriptionMember.get p given
    let cause ← causeMember.get p given
    return ⟨description, cause⟩

/-- The cause, left out when there is none. -/
def causeJson : Option String → List (String × Json)
  | none => []
  | some cause => [("cause", .str cause)]

def toJson (f : RuleFault) : Json :=
  .obj (("description", .str f.description) :: causeJson f.cause)

end RuleFault

namespace ExpectedValue

def nameMember : Member String := .required "name" Json.text
def valueMember : Member Bool := .required "value" Json.boolean

def decoder : Decoder ExpectedValue :=
  Json.record "ExpectedValue" [nameMember.check, valueMember.check] fun p given => do
    let name ← nameMember.get p given
    let value ← valueMember.get p given
    return ⟨name, value⟩

def toJson (e : ExpectedValue) : Json :=
  .obj [("name", .str e.name), ("value", .bool e.value)]

end ExpectedValue

namespace Rule

def markersMember : Member (List String) := .required "markers" (Json.list Json.text)
def expectedMember : Member ExpectedValue := .required "expected" ExpectedValue.decoder

def bodyDecoder (kind : RuleKind) : Decoder Rule :=
  Json.record kind.name [markersMember.check, expectedMember.check] fun p given => do
    let markers ← markersMember.get p given
    let expected ← expectedMember.get p given
    return ⟨kind, markers, expected⟩

def tag : String := "rule_name"

def kindOf : Source → Except Flaw RuleKind
  | .string raw => do
    let name ← Json.textOf raw
    match RuleKind.ofName? name with
    | some kind => return kind
    | none => .error (.shape (.unknownVariant name RuleKind.names))
  | s => Json.refuse "variant identifier" s

/-- Reads an object's members up to its end: the name is decoded where it stands, all other members
are buffered. `seen` is the name met so far. -/
def splitTag (p : Place) (seen : Option RuleKind) :
    List (List Char × Source) → Except Flaw (Option RuleKind × List (List Char × Source))
  | [] => .ok (seen, [])
  | (key, s) :: rest => do
    let name ← Json.textOf key
    if name = tag then
      if seen.isSome then .error (.shape (.duplicateMember tag))
      else
        let kind ← kindOf s
        splitTag p (some kind) rest
    else
      Json.buffer p s
      let (kind, others) ← splitTag p seen rest
      return (kind, (key, s) :: others)

/-- A rule: an object with its name at any place, or an array that starts with it. -/
def decoder : Decoder Rule
  | p, .object members ending => do
    let p ← p.inside
    let (kind, others) ← splitTag p none members
    Json.failOn ending.fault?
    match kind with
    | some kind => bodyDecoder kind { p with material := .buffered } (.object others .closed)
    | none => .error (.shape (.missingMember tag))
  | p, .array found ending => do
    let p ← p.inside
    match found with
    | [] => do
      Json.failOn ending.fault?
      .error (.shape (.missingMember tag))
    | s :: rest => do
      let kind ← kindOf s
      Json.bufferItems p rest
      Json.failOn ending.fault?
      bodyDecoder kind { p with material := .buffered } (.array rest .closed)
  | _, s => Json.refuse "internally tagged enum Rule" s

def toJson (r : Rule) : Json :=
  .obj [(tag, .str r.kind.name), ("markers", .arr (r.markers.map .str)),
    ("expected", r.expected.toJson)]

/-- The encryption an image of the given kind has to have. -/
def encryption (part : FlavorPart) (required : Bool) : Rule :=
  ⟨.encryption, [part.label], ⟨"encryption_required", required⟩⟩

/-- The integrity protection an image of the given kind has to have. -/
def integrity (part : FlavorPart) (enforced : Bool) : Rule :=
  ⟨.integrity, [part.label], ⟨"integrity_enforced", enforced⟩⟩

/-- The trust that a flavor's own signature has to earn. -/
def flavorIntegrity (part : FlavorPart) (d : Directories) : Rule :=
  ⟨.flavorIntegrity d, [part.label], ⟨"flavor_trusted", true⟩⟩

end Rule

end ImageTrust
