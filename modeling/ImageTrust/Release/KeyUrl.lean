import ImageTrust.Url.Parse
import ImageTrust.Uuid

/-!
URLs of keys. A key has a UUID, which is the first segment of the URL's path that has the form of
one. A URL that ends in `keys`, the key's id and `transfer` also tells where the broker is: what is
left of it without these three.
-/

namespace ImageTrust.KeyUrl

def idOf? (u : Url) : Option String :=
  (u.segments?.getD []).find? fun s => (Uuid.parse? s).isSome

/-- The id of the key at an address, which has to be an `https` URL. -/
def keyId? (text : String) : Option String :=
  (Url.https? text).bind idOf?

/-- What stands in front of `keys`, the id and `transfer` at the end of segments. -/
def beforeTransfer? (id : String) (segments : List String) : Option (List String) :=
  match segments.reverse with
  | "transfer" :: i :: "keys" :: front => if i = id then some front.reverse else none
  | _ => none

/-- Where the broker of a key is. Empty segments do not count. -/
def broker? (u : Url) (id : String) : Option Url := do
  let segments ← u.segments?
  let front ← beforeTransfer? id (segments.filter (!·.isEmpty))
  some { u with path := .segments (front ++ [""]), query := none, fragment := none }

end ImageTrust.KeyUrl
