import ImageTrust.Hash.Digest
import ImageTrust.Signature.Fault
import ImageTrust.Signature.Region
import ImageTrust.Text.Blank

/-!
The signature of a document as it is written in the document: which parts it covers in which
canonical form, the digest it promises, its value, and the certificate of the signer. A document has
exactly one signature among the children of its root, and that signature refers to the root.
-/

namespace ImageTrust.Signature

open ImageTrust.Xml

/-- The name of exclusive canonicalization without comments, which is also its namespace. -/
def exclusive : String := "http://www.w3.org/2001/10/xml-exc-c14n#"

/-- The name of the transform that leaves the signature out. -/
def envelopedTransform : String := "http://www.w3.org/2000/09/xmldsig#enveloped-signature"

def digestOfMethod? (method : String) : Option Digest :=
  [("http://www.w3.org/2001/04/xmlenc#sha256", Digest.sha256),
    ("http://www.w3.org/2001/04/xmldsig-more#sha384", Digest.sha384),
    ("http://www.w3.org/2001/04/xmlenc#sha512", Digest.sha512)].lookup method

/-- The digest inside the RSA scheme a signature method names. -/
def digestOfScheme? (method : String) : Option Digest :=
  [("http://www.w3.org/2001/04/xmldsig-more#rsa-sha256", Digest.sha256),
    ("http://www.w3.org/2001/04/xmldsig-more#rsa-sha384", Digest.sha384),
    ("http://www.w3.org/2001/04/xmldsig-more#rsa-sha512", Digest.sha512)].lookup method

/-- A signature over the document that contains it. -/
structure Envelope where
  /-- Qualifiers to declare in the canonical form of the signed information. -/
  infoQualifiers : List String
  signatureDigest : Digest
  /-- Whether the signature is left out of what its digest covers. -/
  enveloped : Bool
  /-- Qualifiers to declare in the canonical form of the document. -/
  documentQualifiers : List String
  digest : Digest
  digestValue : Octets
  value : Octets
  certificate : Option Octets
  deriving DecidableEq, Repr

/-- The children that are elements of signatures with a base name. -/
def parts (e : Element) (name : String) : List Element :=
  (Node.elements e.children).filter (·.tag.isNamed space name)

/-- The first child of this name, which has to be there. -/
def part (e : Element) (name : String) : Except Fault Element :=
  match parts e name with
  | c :: _ => .ok c
  | [] => .error (.malformed (.elementMissing name))

def algorithm (e : Element) : Except Fault String :=
  match e.tag.attribute? "Algorithm" with
  | some a => .ok a
  | none => .error (.malformed (.algorithmMissing e.tag.name.base))

/-- Octets written in base64 with blanks anywhere. -/
def octetsOf (text : String) : Except Fault Octets :=
  (Base64.decode (Text.withoutAsciiBlanks text)).mapError fun fault => .malformed (.notBase64 fault)

/-- The octets in the text of the first child of this name. -/
def partOctets (e : Element) (name : String) : Except Fault Octets := do
  match (← part e name).text? with
  | some text => octetsOf text
  | none => throw (.malformed (.textMissing name))

def qualifiers (e : Element) : List String :=
  let list := (Node.elements e.children).find? (·.tag.isNamed exclusive "InclusiveNamespaces")
  match list.bind (·.tag.attribute? "PrefixList") with
  | some text => Text.words text
  | none => []

/-- The only signature among the children of the root. -/
def onlySignature (root : Element) : Except Fault Element :=
  match parts root "Signature" with
  | [] => .error (.malformed (.elementMissing "signature"))
  | [s] => .ok s
  | _ => .error (.unsupported .severalSignatures)

/-- The only reference of the signed information; it has to mean the root, by an empty address or by
the root's own name. -/
def onlyReference (root info : Element) : Except Fault Element :=
  match parts info "Reference" with
  | [r] =>
    let uri := (r.tag.attribute? "URI").getD ""
    let id := (root.tag.attribute? "ID").getD ""
    if uri.isEmpty || (!id.isEmpty && uri = "#" ++ id) then .ok r
    else .error (.unsupported (.referenceTarget uri))
  | _ => .error (.unsupported .referenceCount)

/-- What transforms do to a document: whether the signature is left out, and the qualifiers of the
last canonicalization. -/
def transforms (enveloped : Bool) (listed : Option (List String)) :
    List Element → Except Fault (Bool × Option (List String))
  | [] => .ok (enveloped, listed)
  | t :: ts => do
    let method ← algorithm t
    if method = envelopedTransform then transforms true listed ts
    else if method = exclusive then transforms enveloped (some (qualifiers t)) ts
    else throw (.unsupported (.transform method))

/-- The transforms of a reference, which have to include a canonicalization. -/
def referenceTransforms (reference : Element) : Except Fault (Bool × List String) := do
  let steps := match parts reference "Transforms" with
    | t :: _ => parts t "Transform"
    | [] => []
  match ← transforms false none steps with
  | (enveloped, some listed) => return (enveloped, listed)
  | (_, none) => throw (.unsupported .notCanonical)

/-- The first certificate in the key information of a signature, when it has text. -/
def certificate? (signature : Element) : Except Fault (Option Octets) :=
  let all := (parts signature "KeyInfo").flatMap fun k =>
    (parts k "X509Data").flatMap fun d => parts d "X509Certificate"
  match all.head?.bind (·.text?) with
  | some text => (octetsOf text).map some
  | none => .ok none

/-- Reads the signature of a document from its root. -/
def Envelope.ofElement (root : Element) : Except Fault Envelope := do
  let signature ← onlySignature root
  let info ← part signature "SignedInfo"
  let canonicalization ← part info "CanonicalizationMethod"
  let method ← algorithm canonicalization
  if method ≠ exclusive then throw (.unsupported (.canonicalization method))
  let scheme ← algorithm (← part info "SignatureMethod")
  let some signatureDigest := digestOfScheme? scheme
    | throw (.unsupported (.signatureMethod scheme))
  let reference ← onlyReference root info
  let (enveloped, documentQualifiers) ← referenceTransforms reference
  let method ← algorithm (← part reference "DigestMethod")
  let some digest := digestOfMethod? method
    | throw (.unsupported (.digestMethod method))
  let digestValue ← partOctets reference "DigestValue"
  let value ← partOctets signature "SignatureValue"
  let certificate ← certificate? signature
  return {
    infoQualifiers := qualifiers canonicalization
    signatureDigest, enveloped, documentQualifiers, digest, digestValue, value, certificate }

def Envelope.ofOctets (document : Octets) : Except Fault Envelope :=
  match (Reading.ofOctets document).root? with
  | some root => Envelope.ofElement root
  | none => .error (.malformed .unreadable)

end ImageTrust.Signature
