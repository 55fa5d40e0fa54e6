import ImageTrust.Xml.Encoding
import ImageTrust.Xml.Node

/-!
A reader that takes a document one character at a time. `Reader.step` is the whole grammar: it says
for each place in a document what a character means there, and a document is read by folding it over
the characters. A reference to a declared entity puts the replacement in front of what is still to
be read; how often that may happen is bounded, so every document is read in finitely many steps.

The elements closed before a fault remain available, which is what a reader of a damaged document
can still rely on.
-/

namespace ImageTrust.Xml

/-- A start tag as far as it has been read; both lists hold the last entry first. -/
structure Draft where
  name : Name
  attributes : List Attribute
  declared : Scope
  deriving DecidableEq, Repr

/-- An element whose end tag has not been read; the last child comes first. -/
structure Frame where
  tag : Tag
  children : List Node
  deriving Repr

/-- Where a reference stands: in text or in the value of an attribute. -/
inductive Place where
  | text
  | value (draft : Draft) (name : Name) (quote : Char) (read : List Char)
  deriving DecidableEq, Repr

/-- What a fixed beginning after `<!` opens. -/
inductive Section where
  | comment
  | literal
  | doctype
  deriving DecidableEq, Repr

/-- An entity whose value is being read. -/
structure EntityDraft where
  name : List Char
  quote : Char
  read : List Char
  deriving DecidableEq, Repr

/-- Places inside a document type declaration. -/
inductive Subset where
  | outside
  | quoted (quote : Char)
  | markup
  | bang
  | commentOpen
  | comment (dashes : Nat)
  | instruction (question : Bool)
  | keyword (read : List Char)
  | entityName (read : List Char)
  | parameterName (read : List Char)
  | definition (name : List Char)
  | value (entity : EntityDraft)
  | ampersand (entity : EntityDraft)
  | number (entity : EntityDraft) (digits : List Char)
  | valueParameter (entity : EntityDraft) (name : List Char)
  | parameter (name : List Char)
  | skip (quote : Option Char)
  deriving DecidableEq, Repr

/-- Places in a document. Characters read so far are kept last first. -/
inductive Mode where
  /-- Before the first character. -/
  | start
  /-- Text; `brackets` counts the closing brackets just read, up to two. -/
  | content (brackets : Nat)
  /-- After `<`; `first` when that was the first character of all. -/
  | markup (first : Bool)
  /-- After `<!`. -/
  | bang
  /-- Inside the fixed beginning of a section. -/
  | opening (rest : List Char) (kind : Section)
  | comment (dashes : Nat)
  | literal (read : List Char) (brackets : Nat)
  | target (first : Bool) (read : List Char)
  | targetClose (target : List Char)
  | data (target read : List Char) (question : Bool)
  | tagName (read : List Char)
  | inTag (draft : Draft) (blank : Bool)
  | slash (draft : Draft)
  | attributeName (draft : Draft) (read : List Char)
  | equals (draft : Draft) (name : Name)
  | quote (draft : Draft) (name : Name)
  | value (draft : Draft) (name : Name) (quote : Char) (read : List Char)
  /-- After `<` in a value. -/
  | valueLess (draft : Draft) (name : Name) (quote : Char) (read : List Char)
  | reference (place : Place) (read : List Char)
  | endName (read : List Char)
  | endBlank (name : Name)
  | doctype (place : Subset)
  deriving DecidableEq, Repr

/-- The state of a reader. -/
structure Reader where
  edition : Edition
  mode : Mode
  /-- The text read since the last piece of markup, last character first. -/
  text : List Char
  /-- Elements not yet closed, innermost first. -/
  frames : List Frame
  /-- Nodes outside any open element, last first. -/
  nodes : List Node
  /-- Replacement texts of entities; the first declaration of a name holds. -/
  entities : List (List Char × List Char)
  /-- Whether a document type declaration was read. -/
  typed : Bool
  /-- Whether an element was begun. -/
  rooted : Bool
  deriving Repr

/-- What a character leads to: the next state and text to read before anything else, or a fault. -/
abbrev Outcome := Option (Reader × List Char)

def nameLimit : Nat := Nat.pow 2 18

/-- The most replacements that may be made before the document itself is read on. -/
def replacementLimit : Nat := 10

/-- The most characters that may wait to be read again. -/
def waitingLimit : Nat := 1000000

/-- A name as text when it is short enough. -/
def nameText? (read : List Char) : Option String :=
  let s := String.ofList read.reverse
  if s.utf8ByteSize ≤ nameLimit then some s else none

/-- Splits a name at its colon. More than one colon, or an empty part beside one, is refused. -/
def Name.ofChars? (cs : List Char) : Option Name :=
  let before := cs.takeWhile (· != ':')
  match cs.dropWhile (· != ':') with
  | [] => if before.isEmpty then none else some ⟨"", String.ofList before⟩
  | _ :: after =>
    if before.isEmpty || after.isEmpty || after.contains ':' then none
    else some ⟨String.ofList before, String.ofList after⟩

/-- The name that was read, last character first. -/
def readName? (read : List Char) : Option Name := do
  let _ ← nameText? read
  Name.ofChars? read.reverse

/-- A number in digits of a base up to sixteen. -/
def numeral? (base : Nat) (cs : List Char) : Option Nat :=
  match cs with
  | [] => none
  | '+' :: (c :: cs) => digits 0 (c :: cs)
  | cs => digits 0 cs
where
  digits (n : Nat) : List Char → Option Nat
    | [] => some n
    | c :: cs =>
      let d := if c.isDigit then c.toNat - 48
        else if 'a' ≤ c && c ≤ 'f' then c.toNat - 87
        else if 'A' ≤ c && c ≤ 'F' then c.toNat - 55
        else base
      if d < base && n < 0x110000 then digits (n * base + d) cs else none

/-- The character a numeric reference stands for, given what follows its `#`. -/
def Edition.character? (e : Edition) (cs : List Char) : Option Char := do
  let n ← match cs with
    | 'x' :: cs => numeral? 16 cs
    | cs => numeral? 10 cs
  if h : n.isValidChar then
    let c := Char.ofNatAux n h
    if e.admits c then some c else none
  else none

/-- The characters every document may refer to by name. -/
def namedCharacter? (name : List Char) : Option Char :=
  [("lt", '<'), ("gt", '>'), ("amp", '&'), ("apos", '\''), ("quot", '"')].findSome?
    fun (n, c) => if name = n.toList then some c else none

namespace Reader

def initial (edition : Edition) (declared : Bool) : Reader :=
  ⟨edition, if declared then .content 0 else .start, [], [], [], [], false, false⟩

def goto (r : Reader) (mode : Mode) : Outcome :=
  some ({ r with mode }, [])

def scope (r : Reader) : Scope :=
  match r.frames with
  | f :: _ => f.tag.scope
  | [] => Scope.base

def add (r : Reader) (n : Node) : Reader :=
  match r.frames with
  | f :: fs => { r with frames := ⟨f.tag, n :: f.children⟩ :: fs }
  | [] => { r with nodes := n :: r.nodes }

/-- Turns pending text into a node; outside the elements text is blank and says nothing. -/
def flush (r : Reader) : Reader :=
  if r.text.isEmpty || r.frames.isEmpty then { r with text := [] }
  else { r.add (.text (String.ofList r.text.reverse)) with text := [] }

/-- Adds a node behind the pending text and returns to text. -/
def place (r : Reader) (n : Node) : Outcome :=
  (r.flush.add n).goto (.content 0)

/-- The first declaration of an entity holds. -/
def declare (r : Reader) (name value : List Char) : Reader :=
  if (r.entities.lookup name).isSome then r
  else { r with entities := (name, value) :: r.entities }

def close (r : Reader) : Outcome :=
  let r := r.flush
  match r.frames with
  | f :: fs =>
    ({ r with frames := fs }.add (.element f.tag f.children.reverse)).goto (.content 0)
  | [] => none

/-- Opens an element, whose qualifiers all have to be bound. -/
def open? (r : Reader) (d : Draft) : Option Reader :=
  let scope := d.declared ++ r.scope
  let bound (n : Name) := n.qualifier.isEmpty || (scope.lookup n.qualifier).isSome
  if bound d.name && d.attributes.all (bound ·.name) then
    let r := r.flush
    let tag : Tag := ⟨d.name, d.attributes.reverse, scope⟩
    some { r with frames := ⟨tag, []⟩ :: r.frames, rooted := true }
  else none

def inText (r : Reader) (brackets : Nat) (first : Bool) (c : Char) : Outcome :=
  if c = '<' then r.goto (.markup first)
  else if r.frames.isEmpty then
    if isBlank c then r.goto (.content 0) else none
  else if c = '&' then r.goto (.reference .text [])
  else if c = '>' && brackets = 2 then none
  else if r.edition.admitsInText c then
    let brackets := if c = ']' then min 2 (brackets + 1) else 0
    { r with text := c :: r.text }.goto (.content brackets)
  else none

/-- What a character means after `<`. -/
def inMarkup (r : Reader) (first : Bool) (c : Char) : Outcome :=
  if c = '?' then r.goto (.target first [])
  else if c = '!' then r.goto .bang
  else if c = '/' then
    if r.frames.isEmpty then none else r.goto (.endName [])
  else if isNameStart c then r.goto (.tagName [c])
  else none

/-- What a character means after `<!`. -/
def inBang (r : Reader) (c : Char) : Outcome :=
  if c = '-' then r.goto (.opening ['-'] .comment)
  else if c = '[' then
    if r.frames.isEmpty then none else r.goto (.opening "CDATA[".toList .literal)
  else if c = 'D' then
    if r.typed || r.rooted then none else r.goto (.opening "OCTYPE".toList .doctype)
  else none

/-- The place a section begins with. -/
def enter (r : Reader) : Section → Outcome
  | .comment => r.goto (.comment 0)
  | .literal => r.goto (.literal [] 0)
  | .doctype => { r with typed := true }.goto (.doctype .outside)

/-- What a character means in a comment; two dashes may stand only at its end. -/
def inComment (r : Reader) (dashes : Nat) (c : Char) : Outcome :=
  if dashes = 2 then
    if c = '>' then r.place .comment else none
  else if c = '-' then r.goto (.comment (dashes + 1))
  else if r.edition.admits c then r.goto (.comment 0)
  else none

def inLiteral (r : Reader) (read : List Char) (brackets : Nat) (c : Char) : Outcome :=
  if c = '>' && brackets = 2 then
    r.place (.literal (String.ofList (read.drop 2).reverse))
  else if r.edition.admits c then
    r.goto (.literal (c :: read) (if c = ']' then min 2 (brackets + 1) else 0))
  else none

/-- The target of an instruction; `xml` is reserved in any case, except that a document may begin
with another spelling of it than its declaration has. -/
def targetAdmitted (first : Bool) (blank : Bool) (read : List Char) : Bool :=
  let written := read.reverse
  !read.isEmpty && (written.map Char.toLower != "xml".toList
    || (first && blank && written != "xml".toList))

/-- What a character means in the target of an instruction. -/
def inTarget (r : Reader) (first : Bool) (read : List Char) (c : Char) : Outcome :=
  if c = '?' then
    if targetAdmitted first false read then r.goto (.targetClose read) else none
  else if isBlank c then
    if targetAdmitted first true read then r.goto (.data read [] false) else none
  else if (if read.isEmpty then isNameStart c else isNameChar c) then
    r.goto (.target first (c :: read))
  else none

def instruction? (target : List Char) (data : Option (List Char)) : Option Node := do
  let target ← nameText? target
  some (.instruction target (data.map fun d => String.ofList d.reverse))

/-- What a character means in the data of an instruction. -/
def inData (r : Reader) (target read : List Char) (question : Bool) (c : Char) : Outcome :=
  if c = '>' && question then
    (instruction? target (some (read.drop 1))).bind r.place
  else if r.edition.admits c then r.goto (.data target (c :: read) (c = '?'))
  else none

/-- The start tag of an element with this name; the reserved qualifiers name no elements. -/
def draft? (read : List Char) : Option Draft := do
  let name ← readName? read
  if name.qualifier = "xml" || name.qualifier = "xmlns" then none
  else some ⟨name, [], []⟩

/-- What a character means between the parts of a start tag. -/
def inTag (r : Reader) (d : Draft) (blank : Bool) (c : Char) : Outcome :=
  if c = '>' then (r.open? d).bind (·.goto (.content 0))
  else if c = '/' then r.goto (.slash d)
  else if isBlank c then r.goto (.inTag d true)
  else if blank && isNameStart c then r.goto (.attributeName d [c])
  else none

/-- What a character means in the name of an element. -/
def inTagName (r : Reader) (read : List Char) (c : Char) : Outcome :=
  if isNameChar c then r.goto (.tagName (c :: read))
  else (draft? read).bind (r.inTag · false c)

/-- What a character means in the name of an attribute. -/
def inAttributeName (r : Reader) (d : Draft) (read : List Char) (c : Char) : Outcome :=
  if isNameChar c then r.goto (.attributeName d (c :: read))
  else do
    let name ← readName? read
    if c = '=' then r.goto (.quote d name)
    else if isBlank c then r.goto (.equals d name)
    else none

/-- Adds a binding of a qualifier. The reserved ones may not be bound anew, an empty namespace may
be bound only to the default, and of two bindings in one tag the first holds. -/
def Draft.bind? (d : Draft) (qualifier space : String) : Option Draft :=
  let admitted :=
    if qualifier = "xmlns" then false
    else if qualifier = "xml" then space = xmlSpace
    else if qualifier = "" then !(["xmlns", "xml", xmlSpace, xmlnsSpace].contains space)
    else !space.isEmpty
  if !admitted then none
  else if (d.declared.lookup qualifier).isSome then some d
  else some { d with declared := (qualifier, space) :: d.declared }

/-- Adds an attribute that was read: a binding, or an attribute proper, which may stand once. -/
def Draft.add? (d : Draft) (name : Name) (value : String) : Option Draft :=
  if name.qualifier = "xmlns" then Draft.bind? d name.base value
  else if name = ⟨"", "xmlns"⟩ then Draft.bind? d "" value
  else if d.attributes.any (·.name = name) then none
  else some { d with attributes := ⟨name, value⟩ :: d.attributes }

/-- What a character means in the value of an attribute. -/
def inValue (r : Reader) (d : Draft) (name : Name) (quote : Char) (read : List Char) (c : Char) :
    Outcome :=
  if c = quote then do
    let d ← Draft.add? d name (String.ofList read.reverse)
    r.goto (.inTag d false)
  else if c = '&' then r.goto (.reference (.value d name quote read) [])
  else if c = '<' then r.goto (.valueLess d name quote read)
  else if r.edition.admitsInText c then r.goto (.value d name quote (c :: read))
  else none

/-- Goes on with characters that a reference stands for, without reading them as markup. -/
def insert (r : Reader) (p : Place) (cs : List Char) : Outcome :=
  match p with
  | .text => { r with text := cs.reverse ++ r.text }.goto (.content 0)
  | .value d name quote read => r.goto (.value d name quote (cs.reverse ++ read))

def resolve (r : Reader) (p : Place) (name : List Char) : Outcome :=
  match name with
  | '#' :: digits => (r.edition.character? digits).bind (r.insert p [·])
  | _ =>
    match namedCharacter? name, r.entities.lookup name, p with
    | some c, _, _ => r.insert p [c]
    | none, some value, .text => some ({ r with mode := .content 0 }, value)
    | none, some value, p => r.insert p value
    | none, none, _ => none

def inReference (r : Reader) (p : Place) (read : List Char) (c : Char) : Outcome :=
  if c = ';' then
    if read.isEmpty then none else r.resolve p read.reverse
  else if (if read.isEmpty then isNameStart c || c = '#' else isNameChar c) then
    r.goto (.reference p (c :: read))
  else none

/-- Ends the innermost element if it has this name. -/
def closeNamed (r : Reader) (name : Name) : Outcome :=
  match r.frames with
  | f :: _ => if f.tag.name = name then r.close else none
  | [] => none

/-- What a character means in the name of an end tag. -/
def inEndName (r : Reader) (read : List Char) (c : Char) : Outcome :=
  if (if read.isEmpty then isNameStart c else isNameChar c) then r.goto (.endName (c :: read))
  else do
    let name ← readName? read
    if c = '>' then r.closeNamed name
    else if isBlank c then r.goto (.endBlank name)
    else none

def afterKeyword? (keyword : String) : Option Subset :=
  if keyword = "ENTITY" then some (.entityName [])
  else if ["NOTATION", "ELEMENT", "ATTLIST"].contains keyword then some (.skip none)
  else none

/-- What a character means in a document type declaration. Only the entities it declares matter;
everything else is passed over. -/
def inSubset (r : Reader) (p : Subset) (c : Char) : Outcome :=
  let goto (p : Subset) : Outcome := r.goto (.doctype p)
  match p with
  | .outside =>
    if c = '>' then r.goto (.content 0)
    else if c = '<' then goto .markup
    else if c = '%' then goto (.parameter ['%'])
    else if c = '"' || c = '\'' then goto (.quoted c)
    else goto .outside
  | .quoted quote => goto (if c = quote then .outside else .quoted quote)
  | .markup =>
    if c = '!' then goto .bang
    else if c = '?' then goto (.instruction false)
    else none
  | .bang =>
    if c = '-' then goto .commentOpen
    else if c = 'E' || c = 'A' || c = 'N' then goto (.keyword [c])
    else none
  | .commentOpen => if c = '-' then goto (.comment 0) else none
  | .comment dashes =>
    if dashes = 2 then
      if c = '>' then goto .outside else none
    else goto (.comment (if c = '-' then dashes + 1 else 0))
  | .instruction question =>
    goto (if c = '>' && question then .outside else .instruction (c = '?'))
  | .keyword read =>
    if 'A' ≤ c && c ≤ 'Z' then goto (.keyword (c :: read))
    else if isBlank c then (afterKeyword? (String.ofList read.reverse)).bind goto
    else none
  | .entityName read =>
    if isBlank c then goto (if read.isEmpty then .entityName [] else .definition read.reverse)
    else if read.isEmpty && c = '%' then goto (.parameterName ['%'])
    else if (if read.isEmpty then isNameStart c else isNameChar c) then
      goto (.entityName (c :: read))
    else none
  | .parameterName read =>
    let empty := read.length = 1
    if isBlank c then goto (if empty then .parameterName read else .definition read.reverse)
    else if (if empty then isNameStart c else isNameChar c) then goto (.parameterName (c :: read))
    else none
  | .definition name =>
    if isBlank c then goto (.definition name)
    else if c = '"' || c = '\'' then goto (.value ⟨name, c, []⟩)
    else if c = 'S' || c = 'P' then (r.declare name []).goto (.doctype (.skip none))
    else none
  | .value e =>
    if c = e.quote then (r.declare e.name e.read.reverse).goto (.doctype (.skip none))
    else if c = '&' then goto (.ampersand e)
    else if c = '%' then goto (.valueParameter e ['%'])
    else if r.edition.admits c then goto (.value { e with read := c :: e.read })
    else none
  | .ampersand e =>
    if c = '#' then goto (.number e [])
    else if c = e.quote then none
    else if r.edition.admits c then goto (.value { e with read := c :: '&' :: e.read })
    else none
  | .number e digits =>
    if c = ';' then do
      let c ← r.edition.character? digits.reverse
      goto (.value { e with read := c :: e.read })
    else if c = e.quote then none
    else if r.edition.admits c then goto (.number e (c :: digits))
    else none
  | .valueParameter e name =>
    if c = ';' then do
      let value ← r.entities.lookup name.reverse
      goto (.value { e with read := value.reverse ++ e.read })
    else if isNameChar c then goto (.valueParameter e (c :: name))
    else none
  | .parameter name =>
    if c = ';' then do
      let value ← r.entities.lookup name.reverse
      some ({ r with mode := .doctype .outside }, value)
    else if isNameChar c then goto (.parameter (c :: name))
    else none
  | .skip none =>
    if c = '>' then goto .outside
    else if c = '"' || c = '\'' then goto (.skip (some c))
    else goto (.skip none)
  | .skip (some quote) => goto (.skip (if c = quote then none else some quote))

def step (r : Reader) (c : Char) : Outcome :=
  match r.mode with
  | .start => r.inText 0 true c
  | .content brackets => r.inText brackets false c
  | .markup first => r.inMarkup first c
  | .bang => r.inBang c
  | .opening rest kind =>
    match rest with
    | [] => none
    | [l] => if c = l then r.enter kind else none
    | l :: rest => if c = l then r.goto (.opening rest kind) else none
  | .comment dashes => r.inComment dashes c
  | .literal read brackets => r.inLiteral read brackets c
  | .target first read => r.inTarget first read c
  | .targetClose target =>
    if c = '>' then (instruction? target none).bind r.place else none
  | .data target read question => r.inData target read question c
  | .tagName read => r.inTagName read c
  | .inTag d blank => r.inTag d blank c
  | .slash d => if c = '>' then (r.open? d).bind close else none
  | .attributeName d read => r.inAttributeName d read c
  | .equals d name =>
    if isBlank c then r.goto (.equals d name)
    else if c = '=' then r.goto (.quote d name)
    else none
  | .quote d name =>
    if isBlank c then r.goto (.quote d name)
    else if c = '"' || c = '\'' then r.goto (.value d name c [])
    else none
  | .value d name quote read => r.inValue d name quote read c
  | .valueLess d name quote read =>
    if c = '/' then r.goto (.value d name quote ('/' :: '<' :: read)) else none
  | .reference p read => r.inReference p read c
  | .endName read => r.inEndName read c
  | .endBlank name =>
    if isBlank c then r.goto (.endBlank name)
    else if c = '>' then r.closeNamed name
    else none
  | .doctype p => r.inSubset p c

/-- Reads waiting characters; `again` reads on when a replacement comes in front of the rest. A
fault is reported with the state before the character that caused it. -/
def drainWith (again : List Char → Reader → Except Reader Reader) :
    List Char → Reader → Except Reader Reader
  | [], r => .ok r
  | c :: waiting, r =>
    match r.step c with
    | none => .error r
    | some (r, []) => drainWith again waiting r
    | some (r, value) => again (value ++ waiting) r

/-- Reads waiting characters when at most `left` more replacements may be made. -/
def drain : (left : Nat) → List Char → Reader → Except Reader Reader
  | 0 => drainWith fun _ r => .error r
  | left + 1 => drainWith fun waiting r =>
    if waiting.length ≤ waitingLimit then drain left waiting r else .error r

/-- Reads one character of the document and all that it stands for. -/
def feed (r : Reader) (c : Char) : Except Reader Reader :=
  drain replacementLimit [c] r

/-- Holds when a document may end where the reader stands. -/
def isComplete (r : Reader) : Bool :=
  r.frames.isEmpty && r.rooted && (match r.mode with | .content _ => true | _ => false)

end Reader

/-- What was read of a document: its nodes, the elements left open, innermost first, and whether the
document is well formed. -/
structure Reading where
  nodes : List Node
  unclosed : List Frame
  sound : Bool
  deriving Repr

/-- The reading a reader has arrived at; the last node and the last child come last. -/
def Reader.reading (r : Reader) (sound : Bool) : Reading :=
  ⟨r.nodes.reverse, r.frames.map fun f => ⟨f.tag, f.children.reverse⟩, sound⟩

def Reader.run (r : Reader) (cs : List Char) : Except Reader Reader :=
  cs.foldlM Reader.feed r

def Reading.ofManuscript (m : Manuscript) : Reading :=
  match (Reader.initial m.edition m.declared).run m.chars with
  | .ok r => r.reading (m.sound && r.isComplete)
  | .error r => r.reading false

def Reading.ofOctets (bs : Octets) : Reading :=
  .ofManuscript (.ofOctets bs)

/-- The document element, when the document is well formed. -/
def Reading.root? (d : Reading) : Option Element :=
  if d.sound then (Node.elements d.nodes).head? else none

end ImageTrust.Xml
