import ImageTrust.Json.Decode

/-!
Instance manifests: what a host observed about an instance when it launched.
-/

namespace ImageTrust

open Json (Decoder Member)

/-- The observed state of an instance. -/
structure Manifest where
  instanceId : String
  hostHardwareUuid : String
  imageId : String
  imageEncrypted : Bool
  imageIntegrityEnforced : Bool
  deriving DecidableEq, Repr

namespace Manifest

def instanceIdMember : Member String := .required "instance_id" Json.text
def hostHardwareUuidMember : Member String := .required "host_hardware_uuid" Json.text
def imageIdMember : Member String := .required "image_id" Json.text
def imageEncryptedMember : Member Bool := .required "image_encrypted" Json.boolean
def imageIntegrityEnforcedMember : Member Bool :=
  .default "image_integrity_enforced" Json.boolean false

def decoder : Decoder Manifest :=
  Json.record "InstanceManifest"
    [instanceIdMember.check, hostHardwareUuidMember.check, imageIdMember.check,
      imageEncryptedMember.check, imageIntegrityEnforcedMember.check] fun p given => do
    let instanceId ← instanceIdMember.get p given
    let hostHardwareUuid ← hostHardwareUuidMember.get p given
    let imageId ← imageIdMember.get p given
    let imageEncrypted ← imageEncryptedMember.get p given
    let imageIntegrityEnforced ← imageIntegrityEnforcedMember.get p given
    return ⟨instanceId, hostHardwareUuid, imageId, imageEncrypted, imageIntegrityEnforced⟩

def toJson (m : Manifest) : Json :=
  .obj [("instance_id", .str m.instanceId), ("host_hardware_uuid", .str m.hostHardwareUuid),
    ("image_id", .str m.imageId), ("image_encrypted", .bool m.imageEncrypted),
    ("image_integrity_enforced", .bool m.imageIntegrityEnforced)]

end Manifest

end ImageTrust
