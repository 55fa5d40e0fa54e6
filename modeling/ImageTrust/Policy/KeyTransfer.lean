import ImageTrust.Json.Decode

/-!
The key broker's answer: a wrapped key as base64 text.
-/

namespace ImageTrust

open Json (Decoder Member)

/-- A key as the broker sends it. -/
structure KeyTransfer where
  wrappedKey : String
  deriving DecidableEq, Repr

namespace KeyTransfer

def wrappedKeyMember : Member String := .required "wrapped_key" Json.text

def decoder : Decoder KeyTransfer :=
  Json.record "KeyTransfer" [wrappedKeyMember.check] fun p given => do
    let wrappedKey ← wrappedKeyMember.get p given
    return ⟨wrappedKey⟩

def toJson (k : KeyTransfer) : Json :=
  .obj [("wrapped_key", .str k.wrappedKey)]

end KeyTransfer

end ImageTrust
