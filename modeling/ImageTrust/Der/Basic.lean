import ImageTrust.Text.Utf8

/-!
Distinguished encoding of data: a tag, a length in its shortest form and that many octets. Tags of
several octets and indefinite lengths do not occur in it.
-/

namespace ImageTrust.Der

/-- One encoded value. -/
structure Item where
  tag : UInt8
  content : Octets
  /-- The octets of the whole value, tag and length included. -/
  raw : Octets
  deriving DecidableEq, Repr

def booleanTag : UInt8 := 0x01
def integerTag : UInt8 := 0x02
def bitStringTag : UInt8 := 0x03
def octetStringTag : UInt8 := 0x04
def nullTag : UInt8 := 0x05
def identifierTag : UInt8 := 0x06
def utcTimeTag : UInt8 := 0x17
def generalizedTimeTag : UInt8 := 0x18
def sequenceTag : UInt8 := 0x30
def setTag : UInt8 := 0x31

/-- The number that octets spell, the most significant first. -/
def number (bs : Octets) : Nat :=
  bs.foldl (fun n b => n * 256 + b.toNat) 0

/-- Reads a length in its shortest form. -/
def length? : Octets → Option (Nat × Octets)
  | [] => none
  | b :: rest =>
    if b < 0x80 then some (b.toNat, rest)
    else
      let size := b.toNat - 0x80
      let n := number (rest.take size)
      let least := if size = 1 then 0x80 else Nat.pow 256 (size - 1)
      if size = 0 || size > 4 || rest.length < size || n < least then none
      else some (n, rest.drop size)

/-- Reads one value; `limit` bounds the octets of its content. -/
def item? (limit : Nat) (bs : Octets) : Option (Item × Octets) :=
  match bs with
  | [] => none
  | tag :: rest => do
    if tag &&& 0x1f = 0x1f then none
    let (n, rest) ← length? rest
    let content := rest.take n
    if n ≥ limit || content.length < n then none
    let rest := rest.drop n
    some (⟨tag, content, bs.take (bs.length - rest.length)⟩, rest)

/-- The least content that is refused when nothing else bounds it. -/
def unlimited : Nat := Nat.pow 2 32

def tagged? (tag : UInt8) (bs : Octets) : Option (Item × Octets) := do
  let (i, rest) ← item? unlimited bs
  if i.tag = tag then some (i, rest) else none

/-- Reads a value with a given tag if it comes next. -/
def optional? (tag : UInt8) (bs : Octets) : Option (Option Item × Octets) :=
  match bs with
  | b :: _ =>
    if b = tag then (tagged? tag bs).map fun (i, rest) => (some i, rest) else some (none, bs)
  | [] => some (none, bs)

/-- All values of a content; `fuel` bounds their number. -/
def itemsLoop : (fuel : Nat) → Octets → Option (List Item)
  | _, [] => some []
  | 0, _ :: _ => none
  | fuel + 1, bs => do
    let (i, rest) ← item? unlimited bs
    let is ← itemsLoop fuel rest
    some (i :: is)

def items? (bs : Octets) : Option (List Item) :=
  itemsLoop bs.length bs

/-- The value of an integer that is not negative, in its shortest form. -/
def natural? (content : Octets) : Option Nat :=
  match content with
  | [] => none
  | [b] => if b < 0x80 then some b.toNat else none
  | b :: c :: _ => if b < 0x80 && (b != 0 || c ≥ 0x80) then some (number content) else none

/-- The octets of a bit string without unused bits. -/
def bits? : Octets → Option Octets
  | 0 :: bs => some bs
  | _ => none

end ImageTrust.Der
