import ImageTrust.Base64
import ImageTrust.Clock.Timestamp
import ImageTrust.Text.Blank
import ImageTrust.Xml.Reader
import ImageTrust.Xml.Search

/-!
Host attestation assertions. An assertion carries the window in which it may be used, attributes
about the host in document order, and the certificate of its signer. A host counts as untrusted only
when its overall attribute says so; an absent or unknown answer does not accuse it.
-/

namespace ImageTrust

namespace Assertion

def sizeLimit : Nat := 1048576

/-- Why a document is not an assertion. -/
inductive Fault where
  | malformed
  | unexpectedRoot (base : String)
  | tooLarge
  | invalidTimestamp (value : String)
  | invalidCertificate (fault : Base64.Fault)
  deriving DecidableEq, Repr

def Fault.message : Fault → String
  | .malformed => "malformed saml xml"
  | .unexpectedRoot base => s!"unexpected saml root element: {base}"
  | .tooLarge => s!"saml assertion exceeds {sizeLimit} bytes"
  | .invalidTimestamp value => s!"invalid saml timestamp {value}"
  | .invalidCertificate fault => s!"invalid saml signing certificate: {fault.message}"

/-- Something asserted about the host. -/
structure Attribute where
  name : String
  value : String
  deriving DecidableEq, Repr

end Assertion

/-- An assertion about a host. -/
structure Assertion where
  notBefore : Option Clock.Timestamp
  notOnOrAfter : Option Clock.Timestamp
  attributes : List Assertion.Attribute
  certificate : Option Octets
  deriving DecidableEq, Repr

namespace Assertion

/-- Reads an optional timestamp, which may have blanks around it. -/
def timestamp (value : Option String) : Except Fault (Option Clock.Timestamp) :=
  match value with
  | none => .ok none
  | some value =>
    match Clock.Timestamp.ofText? (Text.trim value) with
    | some t => .ok (some t)
    | none => .error (.invalidTimestamp value)

/-- The attribute an element stands for; one without a name stands for none. Its value is that of
the first value element, without blanks around it. -/
def attributeOf? (e : Xml.Element) : Option Attribute := do
  let name ← e.tag.attribute? "Name"
  let value := (e.child? "AttributeValue").bind (·.text?)
  some ⟨name, Text.trim (value.getD "")⟩

/-- The certificate in the text of an element, when it has text. -/
def certificateOf (e : Option Xml.Element) : Except Fault (Option Octets) :=
  match e.bind (·.text?) with
  | none => .ok none
  | some text =>
    match Base64.decode (Text.withoutAsciiBlanks text) with
    | .ok der => .ok (some der)
    | .error fault => .error (.invalidCertificate fault)

def ofElement (root : Xml.Element) : Except Fault Assertion := do
  if root.tag.name.base ≠ "Assertion" then
    throw (.unexpectedRoot root.tag.name.base)
  let window := root.firstNamed? "SubjectConfirmationData"
  let notBefore ← timestamp (window.bind (·.tag.attribute? "NotBefore"))
  let notOnOrAfter ← timestamp (window.bind (·.tag.attribute? "NotOnOrAfter"))
  let attributes := (root.allNamed "Attribute").filterMap attributeOf?
  let certificate ← certificateOf (root.firstNamed? "X509Certificate")
  return ⟨notBefore, notOnOrAfter, attributes, certificate⟩

def ofOctets (document : Octets) : Except Fault Assertion :=
  if document.length > sizeLimit then .error .tooLarge
  else
    match (Xml.Reading.ofOctets document).root? with
    | none => .error .malformed
    | some root => ofElement root

/-- The value of the first attribute with a name. -/
def attribute? (a : Assertion) (name : String) : Option String :=
  (a.attributes.find? (·.name = name)).map (·.value)

/-- What the assertion says about the host as a whole. -/
def trustOverall? (a : Assertion) : Option String :=
  a.attribute? "TRUST_OVERALL"

/-- Holds when the host is explicitly reported as untrusted. -/
def reportsUntrusted (a : Assertion) : Bool :=
  match a.trustOverall? with
  | some value => Text.sameIgnoringAsciiCase (Text.trim value) "false"
  | none => false

/-- Holds inside the window of the assertion, whose end is excluded. -/
def isCurrent (a : Assertion) (now : Instant) : Bool :=
  (match a.notBefore with
    | some t => decide (t.instant ≤ now)
    | none => true)
    && (match a.notOnOrAfter with
      | some t => decide (now < t.instant)
      | none => true)

end Assertion

end ImageTrust
