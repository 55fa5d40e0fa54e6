import ImageTrust.Text.Blank

/-!
UUIDs in the hyphenated form of 36 characters, 8-4-4-4-12 hexadecimal digits of either case. Braces,
prefixes and the form without hyphens are not accepted.
-/

namespace ImageTrust

/-- A UUID by its 32 hexadecimal digits in lower case. -/
structure Uuid where
  digits : List Char
  deriving DecidableEq, Repr

namespace Uuid

/-- Holds of a hexadecimal digit of either case. -/
def isHexDigit (c : Char) : Bool :=
  c.isDigit || ('a' ≤ c && c ≤ 'f') || ('A' ≤ c && c ≤ 'F')

/-- Takes groups of digits of the given lengths, separated by hyphens, from the whole text. -/
def readGroups : (lengths : List Nat) → List Char → Option (List Char)
  | [], cs => if cs.isEmpty then some [] else none
  | [n], cs => if cs.length = n && cs.all isHexDigit then some cs else none
  | n :: more, cs =>
    let group := cs.take n
    match cs.drop n with
    | '-' :: rest =>
      if group.length = n && group.all isHexDigit then (readGroups more rest).map (group ++ ·)
      else none
    | _ => none

/-- The UUID that the text writes, if it has the hyphenated form. -/
def parse? (s : String) : Option Uuid :=
  (readGroups [8, 4, 4, 4, 12] s.toList).map fun ds => ⟨ds.map Char.toLower⟩

def text (u : Uuid) : String :=
  let ds := u.digits
  String.ofList (ds.take 8 ++ '-' :: (ds.drop 8).take 4 ++ '-' :: (ds.drop 12).take 4
    ++ '-' :: (ds.drop 16).take 4 ++ '-' :: ds.drop 20)

/-- Holds of a UUID whose version digit is 4. The variant does not matter. -/
def isRandom (u : Uuid) : Bool :=
  u.digits[12]? = some '4'

/-- Holds of a text that names a host's hardware: any UUID. -/
def isHardwareId (s : String) : Bool :=
  (parse? s).isSome

/-- Holds of a text that names an instance, an image or a flavor: a random UUID. -/
def isRandomId (s : String) : Bool :=
  ((parse? s).map isRandom).getD false

end Uuid

end ImageTrust
