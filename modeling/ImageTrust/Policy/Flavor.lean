import ImageTrust.Json.Decode

/-!
Flavors: the policy of an image, signed by the owner of the image. The signature covers
`signaturePayload`, the compact encoding of the whole flavor as the only member of an object.
-/

namespace ImageTrust

open Json (Decoder Member)

/-- The two kinds of image a flavor may describe. -/
inductive FlavorPart where
  | image
  | containerImage
  deriving DecidableEq, Repr

def FlavorPart.label : FlavorPart → String
  | .image => "IMAGE"
  | .containerImage => "CONTAINER_IMAGE"

def FlavorPart.ofLabel? (label : String) : Option FlavorPart :=
  if label = FlavorPart.image.label then some .image
  else if label = FlavorPart.containerImage.label then some .containerImage
  else none

/-- The readable part of a flavor's identity. -/
structure FlavorDescription where
  label : String
  flavorPart : String
  deriving DecidableEq, Repr

/-- The identity of a flavor. -/
structure FlavorMeta where
  id : String
  description : FlavorDescription
  deriving DecidableEq, Repr

/-- How an encrypted image is decrypted. An empty text is the same as none. -/
structure FlavorEncryption where
  keyUrl : String
  digest : String
  deriving DecidableEq, Repr

/-- The policy of an image. -/
structure Flavor where
  identity : FlavorMeta
  encryption : Option FlavorEncryption
  encryptionRequired : Bool
  integrityEnforced : Bool
  deriving DecidableEq, Repr

/-- A flavor with the base64 text of its signature. -/
structure SignedFlavor where
  flavor : Flavor
  signature : String
  deriving DecidableEq, Repr

/-- A member that is left out when its text is empty. -/
def Json.nonEmpty (name s : String) : List (String × Json) :=
  if s.isEmpty then [] else [(name, .str s)]

namespace FlavorDescription

def labelMember : Member String := .required "label" Json.text
def flavorPartMember : Member String := .required "flavor_part" Json.text

def decoder : Decoder FlavorDescription :=
  Json.record "FlavorDescription" [labelMember.check, flavorPartMember.check] fun p given => do
    let label ← labelMember.get p given
    let flavorPart ← flavorPartMember.get p given
    return ⟨label, flavorPart⟩

def toJson (d : FlavorDescription) : Json :=
  .obj [("label", .str d.label), ("flavor_part", .str d.flavorPart)]

end FlavorDescription

namespace FlavorMeta

def idMember : Member String := .required "id" Json.text
def descriptionMember : Member FlavorDescription :=
  .required "description" FlavorDescription.decoder

def decoder : Decoder FlavorMeta :=
  Json.record "FlavorMeta" [idMember.check, descriptionMember.check] fun p given => do
    let id ← idMember.get p given
    let description ← descriptionMember.get p given
    return ⟨id, description⟩

def toJson (m : FlavorMeta) : Json :=
  .obj [("id", .str m.id), ("description", m.description.toJson)]

end FlavorMeta

namespace FlavorEncryption

def keyUrlMember : Member String := .default "key_url" Json.text ""
def digestMember : Member String := .default "digest" Json.text ""

def decoder : Decoder FlavorEncryption :=
  Json.record "FlavorEncryption" [keyUrlMember.check, digestMember.check] fun p given => do
    let keyUrl ← keyUrlMember.get p given
    let digest ← digestMember.get p given
    return ⟨keyUrl, digest⟩

def toJson (e : FlavorEncryption) : Json :=
  .obj (Json.nonEmpty "key_url" e.keyUrl ++ Json.nonEmpty "digest" e.digest)

end FlavorEncryption

namespace Flavor

def metaMember : Member FlavorMeta := .required "meta" FlavorMeta.decoder
def encryptionMember : Member (Option FlavorEncryption) :=
  .default "encryption" (Json.optional FlavorEncryption.decoder) none
def encryptionRequiredMember : Member Bool := .required "encryption_required" Json.boolean
def integrityEnforcedMember : Member Bool := .default "integrity_enforced" Json.boolean false

def decoder : Decoder Flavor :=
  Json.record "ImageFlavor"
    [metaMember.check, encryptionMember.check, encryptionRequiredMember.check,
      integrityEnforcedMember.check] fun p given => do
    let identity ← metaMember.get p given
    let encryption ← encryptionMember.get p given
    let encryptionRequired ← encryptionRequiredMember.get p given
    let integrityEnforced ← integrityEnforcedMember.get p given
    return ⟨identity, encryption, encryptionRequired, integrityEnforced⟩

/-- The encryption block, left out when there is none. -/
def encryptionJson : Option FlavorEncryption → List (String × Json)
  | none => []
  | some e => [("encryption", e.toJson)]

def toJson (f : Flavor) : Json :=
  .obj (("meta", f.identity.toJson) :: (encryptionJson f.encryption
    ++ [("encryption_required", .bool f.encryptionRequired),
      ("integrity_enforced", .bool f.integrityEnforced)]))

/-- Where the key broker hands out the image's key, if the flavor says so. -/
def keyUrl? (f : Flavor) : Option String :=
  match f.encryption with
  | some e => if e.keyUrl.isEmpty then none else some e.keyUrl
  | none => none

/-- The text that the signature of a flavor covers. -/
def signaturePayload (f : Flavor) : String :=
  (Json.obj [("Image", f.toJson)]).signerText

end Flavor

namespace SignedFlavor

def flavorMember : Member Flavor := .required "flavor" Flavor.decoder
def signatureMember : Member String := .required "signature" Json.text

def decoder : Decoder SignedFlavor :=
  Json.record "SignedImageFlavor" [flavorMember.check, signatureMember.check] fun p given => do
    let flavor ← flavorMember.get p given
    let signature ← signatureMember.get p given
    return ⟨flavor, signature⟩

def toJson (f : SignedFlavor) : Json :=
  .obj [("flavor", f.flavor.toJson), ("signature", .str f.signature)]

end SignedFlavor

end ImageTrust
