import ImageTrust.Base64

/-!
Sections of PEM files. A section runs from a line that names its kind to the line that ends it;
lines outside sections say nothing. A section of a kind that is not known is passed over whatever it
holds; the content of any other has to be base64, in which blanks, missing padding and unused bits
are not minded.
-/

namespace ImageTrust.Pem

/-- A section of a known kind. -/
structure Section where
  kind : Octets
  content : Octets
  deriving DecidableEq, Repr

def beginMark : Octets := Text.encode "-----BEGIN "
def endMark : Octets := Text.encode "-----END "
def dashes : Octets := Text.encode "-----"

def certificateKind : Octets := Text.encode "CERTIFICATE"

def knownKinds : List Octets :=
  ["CERTIFICATE", "PUBLIC KEY", "RSA PRIVATE KEY", "PRIVATE KEY", "EC PRIVATE KEY", "X509 CRL",
    "CERTIFICATE REQUEST", "ECHCONFIG"].map Text.encode

/-- Splits octets into lines; `done` and `line` hold what was read, last first. -/
def linesLoop (done : List Octets) (line : Octets) : Octets → List Octets
  | [] => (if line.isEmpty then done else line.reverse :: done).reverse
  | b :: bs =>
    if b = 0x0a || b = 0x0d then linesLoop (line.reverse :: done) [] bs
    else linesLoop done (b :: line) bs

/-- The lines of octets, which end at every line feed and carriage return. -/
def lines (bs : Octets) : List Octets :=
  linesLoop [] [] bs

/-- What follows a fixed beginning. -/
def dropMark? : Octets → Octets → Option Octets
  | [], bs => some bs
  | m :: ms, b :: bs => if m = b then dropMark? ms bs else none
  | _ :: _, [] => none

/-- The kind a line opens, given what follows its mark: all up to exactly five dashes, among which
blanks do not count. -/
def openedKind? (rest : Octets) : Option Octets :=
  let tail := rest.reverse.takeWhile fun b => b = 0x2d || b = 0x20
  if tail.count 0x2d != 5 then none
  else
    let size := tail.length - (tail.reverse.takeWhile (· = 0x20)).length
    some (rest.take (rest.length - size))

/-- Whether a line closes a section of this kind. -/
def closes (kind line : Octets) : Bool :=
  match dropMark? endMark line with
  | some rest =>
    match dropMark? kind rest with
    | some rest => (dropMark? dashes rest).isSome
    | none => false
  | none => false

/-- The values of the symbols of a content, up to the padding; `padded` once that has begun. -/
def symbols? (padded : Bool) (read : List Nat) : Octets → Option (List Nat)
  | [] => some read.reverse
  | b :: bs =>
    if b = 0x20 || (0x09 ≤ b && b ≤ 0x0d) then symbols? padded read bs
    else if b = 0x3d then
      if padded || read.length % 4 ≥ 2 then symbols? true read bs else none
    else if padded then none
    else
      match Base64.value? b with
      | some v => symbols? false (v :: read) bs
      | none => none

/-- The octets of symbols; bits that do not fill an octet are dropped. What was read comes last
octet first. -/
def octets (read : Octets) : List Nat → Octets
  | a :: b :: c :: d :: rest =>
    octets (UInt8.ofNat (c * 64 + d) :: UInt8.ofNat (b * 16 + c / 4)
      :: UInt8.ofNat (a * 4 + b / 16) :: read) rest
  | [a, b, c] =>
    (UInt8.ofNat (b * 16 + c / 4) :: UInt8.ofNat (a * 4 + b / 16) :: read).reverse
  | [a, b] => (UInt8.ofNat (a * 4 + b / 16) :: read).reverse
  | _ => read.reverse

/-- Reads sections line by line. `current` is the kind of the open section, `held` its content so
far, last octet first; a new beginning changes the kind and keeps what is held. -/
def sectionsLoop (current : Option Octets) (held : Octets) : List Octets → Option (List Section)
  | [] => if current.isSome then none else some []
  | line :: rest =>
    match dropMark? beginMark line with
    | some opened =>
      match openedKind? opened with
      | some kind => sectionsLoop (some kind) held rest
      | none => none
    | none =>
      match current with
      | none => sectionsLoop none held rest
      | some kind =>
        if !closes kind line then sectionsLoop current (line.reverse ++ held) rest
        else if !knownKinds.contains kind then sectionsLoop none [] rest
        else
          match symbols? false [] held.reverse with
          | some vs => (sectionsLoop none [] rest).map (⟨kind, octets [] vs⟩ :: ·)
          | none => none

/-- The sections of a file, when all of it can be read. -/
def sections? (bs : Octets) : Option (List Section) :=
  sectionsLoop none [] (lines bs)

/-- The certificates of a file, when all of it can be read. -/
def certificates? (bs : Octets) : Option (List Octets) :=
  (sections? bs).map fun all => (all.filter (·.kind = certificateKind)).map (·.content)

end ImageTrust.Pem
