import ImageTrust.Xml.Node

/-!
Exclusive canonical form of a subtree, without comments. A start tag declares the namespaces its own
names use, and those a caller lists, unless an enclosing tag of the output has declared the same
already. Declarations come before attributes, and both are sorted.
-/

namespace ImageTrust.Xml.Canonical

def textChar (c : Char) : String :=
  if c = '&' then "&amp;"
  else if c = '<' then "&lt;"
  else if c = '>' then "&gt;"
  else if c = '\r' then "&#xD;"
  else String.singleton c

/-- How a character is written in the value of an attribute. -/
def valueChar (c : Char) : String :=
  if c = '&' then "&amp;"
  else if c = '<' then "&lt;"
  else if c = '"' then "&quot;"
  else if c = '\t' then "&#x9;"
  else if c = '\n' then "&#xA;"
  else if c = '\r' then "&#xD;"
  else String.singleton c

/-- Appends a text with each character written by `f`. -/
def writeChars (f : Char → String) (out s : String) : String :=
  s.toList.foldl (fun out c => out ++ f c) out

/-- Inserts a text into an ascending list without repetitions. -/
def insertText (s : String) : List String → List String
  | [] => [s]
  | t :: ts => if s < t then s :: t :: ts else if s = t then t :: ts else t :: insertText s ts

/-- The token that stands for the default namespace in a list of qualifiers. -/
def defaultToken : String := "#default"

/-- The qualifiers a tag has to declare, ascending: those of its names, and the listed ones that are
bound where it stands. -/
def utilized (listed : List String) (t : Tag) : List String :=
  let own := t.name.qualifier :: (t.attributes.map (·.name.qualifier)).filter (!·.isEmpty)
  let extra := (listed.map fun q => if q = defaultToken then "" else q).filter
    fun q => (t.scope.lookup q).isSome
  (own ++ extra).foldl (fun qs q => insertText q qs) []

/-- Whether the output already binds a qualifier to a namespace. -/
def isRendered (rendered : Scope) (qualifier space : String) : Bool :=
  if qualifier.isEmpty then rendered.space "" = space
  else rendered.lookup qualifier = some space

/-- The declarations a tag writes, where `rendered` is what the output binds around it. -/
def declarations (listed : List String) (rendered : Scope) (t : Tag) : Scope :=
  (utilized listed t).filterMap fun q =>
    let space := t.scope.space q
    if q = "xml" || isRendered rendered q space then none else some (q, space)

/-- The namespace of an attribute; without a qualifier it has none. -/
def attributeSpace (scope : Scope) (a : Attribute) : String :=
  if a.name.qualifier.isEmpty then "" else scope.space a.name.qualifier

/-- The order of attributes: by namespace, then by base name. -/
def precedes (scope : Scope) (a b : Attribute) : Bool :=
  let s := attributeSpace scope a
  let t := attributeSpace scope b
  s < t || (s = t && a.name.base < b.name.base)

/-- Inserts an attribute before the first that it precedes. -/
def insertAttribute (scope : Scope) (a : Attribute) : List Attribute → List Attribute
  | [] => [a]
  | b :: bs => if precedes scope a b then a :: b :: bs else b :: insertAttribute scope a bs

/-- The attributes in order; equal ones keep the order they were written in. -/
def sortedAttributes (t : Tag) : List Attribute :=
  t.attributes.foldl (fun as a => insertAttribute t.scope a as) []

/-- Writes ` name="value"`. -/
def writeAttribute (out name value : String) : String :=
  writeChars valueChar (out ++ " " ++ name ++ "=\"") value ++ "\""

/-- The name of the attribute that declares a qualifier. -/
def declarationName (qualifier : String) : String :=
  if qualifier.isEmpty then "xmlns" else "xmlns:" ++ qualifier

/-- Writes a start tag with its declarations and attributes. -/
def writeStart (out : String) (declared : Scope) (t : Tag) : String :=
  let out := out ++ "<" ++ t.name.text
  let out := declared.foldl (fun out (q, space) => writeAttribute out (declarationName q) space) out
  let out := (sortedAttributes t).foldl (fun out a => writeAttribute out a.name.text a.value) out
  out ++ ">"

/-- Writes an instruction; empty data is left out. -/
def writeInstruction (out target : String) (data : Option String) : String :=
  let data := data.getD ""
  let out := out ++ "<?" ++ target
  let out := if data.isEmpty then out else out ++ " " ++ data
  out ++ "?>"

/-- Canonical output as far as it has been written. -/
structure Output where
  text : String
  /-- For each open tag what the output binds inside it, innermost first. -/
  rendered : List Scope
  deriving DecidableEq, Repr

namespace Output

def empty : Output := ⟨"", []⟩

/-- What the output binds where it has arrived. -/
def scope (o : Output) : Scope :=
  o.rendered.headD []

/-- Writes a start tag with the declarations it needs. -/
def start (listed : List String) (o : Output) (t : Tag) : Output :=
  let declared := declarations listed o.scope t
  ⟨writeStart o.text declared t, (declared ++ o.scope) :: o.rendered⟩

def stop (o : Output) (name : Name) : Output :=
  ⟨o.text ++ "</" ++ name.text ++ ">", o.rendered.tail⟩

def characters (o : Output) (content : String) : Output :=
  { o with text := writeChars textChar o.text content }

def instruction (o : Output) (target : String) (data : Option String) : Output :=
  { o with text := writeInstruction o.text target data }

end Output

mutual

def write (listed : List String) (rendered : Scope) (out : String) : Node → String
  | .element tag children =>
    let declared := declarations listed rendered tag
    let out := writeStart out declared tag
    let out := writeAll listed (declared ++ rendered) out children
    out ++ "</" ++ tag.name.text ++ ">"
  | .text content => writeChars textChar out content
  | .literal content => writeChars textChar out content
  | .comment => out
  | .instruction target data => writeInstruction out target data

/-- Appends the canonical form of nodes, one after the other. -/
def writeAll (listed : List String) (rendered : Scope) (out : String) : List Node → String
  | [] => out
  | n :: ns => writeAll listed rendered (write listed rendered out n) ns

end

/-- The canonical form of a subtree, where `listed` are the qualifiers to declare wherever bound. -/
def text (listed : List String) (n : Node) : String :=
  write listed [] "" n

end ImageTrust.Xml.Canonical
