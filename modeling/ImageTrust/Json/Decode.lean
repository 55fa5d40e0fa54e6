import ImageTrust.Json.Flaw

/-!
Typed decoding. A decoder reads a source tree in the order of the text, so of two flaws the first
one in the text is reported, except that a missing member shows only at the end of its object. A
record may also be written as the array of its members. `record` builds the decoder of a record from
its members alone.
-/

namespace ImageTrust.Json

/-- What a value is decoded from. Of a value that was buffered or composed, all text is known to be
free of faults; a composed array may be longer than the record it is read as. -/
inductive Material where
  | text
  | buffered
  | composed
  deriving DecidableEq, Repr

/-- Where a value is decoded: how many containers may still open around it, and what it is. -/
structure Place where
  depth : Nat
  material : Material
  deriving DecidableEq, Repr

/-- The place of a whole document. Nesting ends at 127 containers. -/
def Place.document : Place := ⟨128, .text⟩

def Place.composed : Place := ⟨1, .composed⟩

/-- Reads a value of type `α`. -/
abbrev Decoder (α : Type) := Place → Source → Except Flaw α

def Place.inside (p : Place) : Except Flaw Place :=
  if p.material ≠ .text then .ok p
  else if p.depth ≤ 1 then .error (.text .malformed) else .ok { p with depth := p.depth - 1 }

def textOf (raw : List Char) : Except Flaw String :=
  match Source.textOf? raw with
  | some s => .ok s
  | none => .error (.text .malformed)

/-- Refuses a value of the wrong kind. A fault inside a scalar comes first, one inside a container
does not. -/
def refuse {α : Type} (expected : String) : Source → Except Flaw α
  | .null => .error (.shape (.kind .null expected))
  | .bool b => .error (.shape (.kind (.bool b) expected))
  | .number literal =>
    match literal.numeral with
    | .integer n => .error (.shape (.kind (.integer n) expected))
    | .fraction text => .error (.shape (.kind (.fraction text) expected))
    | .outOfRange => .error (.text .malformed)
  | .string raw => do
    let s ← textOf raw
    .error (.shape (.kind (.string s) expected))
  | .array _ _ => .error (.shape (.kind .sequence expected))
  | .object _ _ => .error (.shape (.kind .map expected))
  | .broken wanted _ => .error (.text wanted)

def text : Decoder String
  | _, .string raw => textOf raw
  | _, s => refuse "a string" s

def boolean : Decoder Bool
  | _, .bool b => .ok b
  | _, s => refuse "a boolean" s

/-- A natural number below `2 ^ 64`; `type` is its name in messages. -/
def natural (type : String) : Decoder Nat
  | _, .number literal =>
    match literal.numeral with
    | .integer n =>
      if 0 ≤ n then .ok n.toNat else .error (.shape (.value (.integer n) type))
    | .fraction text => .error (.shape (.kind (.fraction text) type))
    | .outOfRange => .error (.text .malformed)
  | _, s => refuse type s

def optional {α : Type} (d : Decoder α) : Decoder (Option α)
  | _, .null => .ok none
  | p, s => (d p s).map some

/-- The fault at the end of a container from which more items are wanted. -/
def Ending.fault? : Ending → Option Fault
  | .closed => none
  | .cut => some .ended
  | .broken wanted _ => some wanted

/-- The fault at the end of a container that is skipped. -/
def Ending.skipFault? : Ending → Option Fault
  | .closed => none
  | .cut => some .ended
  | .broken _ skipped => some skipped

/-- The fault at the end of a container of which no more items are wanted: anything but its end is
malformed. -/
def Ending.closeFault? : Ending → Option Fault
  | .closed => none
  | .cut => some .ended
  | .broken _ _ => some .malformed

def failOn : Option Fault → Except Flaw Unit
  | none => .ok ()
  | some fault => .error (.text fault)

/-- All items of an array in order. -/
def items {α : Type} (d : Decoder α) (p : Place) : List Source → Except Flaw (List α)
  | [] => .ok []
  | s :: rest => do
    let a ← d p s
    let more ← items d p rest
    return a :: more

def list {α : Type} (d : Decoder α) : Decoder (List α)
  | p, .array found ending => do
    let p ← p.inside
    let all ← items d p found
    failOn ending.fault?
    return all
  | _, s => refuse "a sequence" s

mutual
/-- Skips a value: only faults that a skipping reader meets count. -/
def skip : Source → Except Flaw Unit
  | .broken _ skipped => .error (.text skipped)
  | .array found ending => do
    skipItems found
    failOn ending.skipFault?
  | .object members ending => do
    skipMembers members
    failOn ending.skipFault?
  | _ => .ok ()

def skipItems : List Source → Except Flaw Unit
  | [] => .ok ()
  | s :: rest => do
    skip s
    skipItems rest

def skipMembers : List (List Char × Source) → Except Flaw Unit
  | [] => .ok ()
  | (_, s) :: rest => do
    skip s
    skipMembers rest
end

mutual
/-- Checks a value that is buffered as it stands: every text and number in it has to be sound. -/
def buffer (p : Place) : Source → Except Flaw Unit
  | .broken wanted _ => .error (.text wanted)
  | .string raw => do
    let _ ← textOf raw
  | .number literal => if literal.numeral = .outOfRange then .error (.text .malformed) else .ok ()
  | .array found ending => do
    let p ← p.inside
    bufferItems p found
    failOn ending.fault?
  | .object members ending => do
    let p ← p.inside
    bufferMembers p members
    failOn ending.fault?
  | _ => .ok ()

def bufferItems (p : Place) : List Source → Except Flaw Unit
  | [] => .ok ()
  | s :: rest => do
    buffer p s
    bufferItems p rest

def bufferMembers (p : Place) : List (List Char × Source) → Except Flaw Unit
  | [] => .ok ()
  | (key, s) :: rest => do
    let _ ← textOf key
    buffer p s
    bufferMembers p rest
end

/-- A member of a record: its name, how its value is read, and its value when absent. -/
structure Member (α : Type) where
  name : String
  read : Decoder α
  absent : Option α

def Member.required {α : Type} (name : String) (read : Decoder α) : Member α :=
  ⟨name, read, none⟩

def Member.default {α : Type} (name : String) (read : Decoder α) (absent : α) : Member α :=
  ⟨name, read, some absent⟩

/-- What a record checks of a member while it reads: its type is forgotten. -/
structure Check where
  name : String
  check : Place → Source → Except Flaw Unit
  mayBeAbsent : Bool

def Member.check {α : Type} (m : Member α) : Check :=
  ⟨m.name, fun p s => (m.read p s).map fun _ => (), m.absent.isSome⟩

/-- The values found for the members of a record, by name. -/
abbrev Given := List (String × Source)

def Member.get {α : Type} (m : Member α) (p : Place) (given : Given) : Except Flaw α :=
  match given.lookup m.name with
  | some s => m.read p s
  | none =>
    match m.absent with
    | some a => .ok a
    | none => .error (.shape (.missingMember m.name))

/-- The members of an object in the order of the text: known ones are checked and kept, unknown ones
skipped. `given` holds those kept so far. -/
def collect (checks : List Check) (p : Place) (given : Given) :
    List (List Char × Source) → Except Flaw Given
  | [] => .ok given
  | (key, s) :: rest => do
    let name ← textOf key
    match checks.find? (·.name = name) with
    | some check =>
      if (given.lookup name).isSome then .error (.shape (.duplicateMember name))
      else
        check.check p s
        collect checks p ((name, s) :: given) rest
    | none =>
      skip s
      collect checks p given rest

/-- The members of a record written as an array. Behind the items found, only members that may be
absent remain; `index` counts the items and members passed. -/
def collectItems (shape : String) (ending : Ending) (p : Place) :
    (index : Nat) → List Check → List Source → Except Flaw Given
  | _, [], [] => do
    failOn ending.closeFault?
    return []
  | index, [], extra =>
    match p.material with
    | .text => .error (.text .malformed)
    | .buffered =>
      let expected := if index = 1 then "1 element in sequence" else s!"{index} elements in sequence"
      .error (.shape (.length (index + extra.length) expected))
    | .composed => .ok []
  | index, check :: checks, s :: rest => do
    check.check p s
    let given ← collectItems shape ending p (index + 1) checks rest
    return (check.name, s) :: given
  | index, check :: checks, [] => do
    failOn ending.fault?
    if check.mayBeAbsent then collectItems shape ending p (index + 1) checks []
    else .error (.shape (.length index shape))

/-- The name of a record with its size, for messages. -/
def sizedName (name : String) (size : Nat) : String :=
  if size = 1 then s!"struct {name} with 1 element" else s!"struct {name} with {size} elements"

/-- A record of the given name: its members are checked in the order of the text, then `build` takes
them up in the record's own order. -/
def record {α : Type} (name : String) (checks : List Check)
    (build : Place → Given → Except Flaw α) : Decoder α
  | p, .object members ending => do
    let p ← p.inside
    let given ← collect checks p [] members
    failOn ending.fault?
    build p given
  | p, .array found ending => do
    let p ← p.inside
    let given ← collectItems (sizedName name checks.length) ending p 0 checks found
    build p given
  | _, s => refuse s!"struct {name}" s

/-- A whole document: its value, and nothing but blanks behind it. -/
def Document.decode {α : Type} (d : Decoder α) (doc : Document) : Except Flaw α := do
  let a ← d Place.document doc.value
  if doc.alone then return a else .error (.text .malformed)

def decode {α : Type} (d : Decoder α) (s : String) : Except Flaw α :=
  (readDocument s.toList).decode d

def decodeOctets {α : Type} (d : Decoder α) (bs : Octets) : Except Flaw α :=
  (readOctets bs).decode d

end ImageTrust.Json
