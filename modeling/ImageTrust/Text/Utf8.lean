/-!
UTF-8. `decode` reads the longest well-formed beginning of an octet sequence and says whether it
reached the end; overlong forms, surrogates and values above U+10FFFF are not well formed.
-/

namespace ImageTrust

/-- Octets of a file, a message or a certificate. -/
abbrev Octets := List UInt8

namespace Text

/-- Characters read from octets; `sound` when no octet was left unread. -/
structure Decoded where
  chars : List Char
  sound : Bool
  deriving DecidableEq, Repr

/-- Holds of the octets 80 to BF, which continue a character. -/
def isContinuation (b : UInt8) : Bool :=
  0x80 ≤ b && b ≤ 0xbf

/-- The first character of the octets and what follows it. -/
def decodeChar? : Octets → Option (Char × Octets)
  | [] => none
  | b :: r =>
    if b < 0x80 then some (Char.ofNat b.toNat, r)
    else if 0xc2 ≤ b && b ≤ 0xdf then
      match r with
      | c :: r =>
        if isContinuation c then
          some (Char.ofNat ((b.toNat - 0xc0) * 64 + (c.toNat - 0x80)), r)
        else none
      | _ => none
    else if 0xe0 ≤ b && b ≤ 0xef then
      match r with
      | c :: d :: r =>
        if isContinuation c && isContinuation d && (b != 0xe0 || 0xa0 ≤ c)
            && (b != 0xed || c ≤ 0x9f) then
          some (Char.ofNat ((b.toNat - 0xe0) * 4096 + (c.toNat - 0x80) * 64
            + (d.toNat - 0x80)), r)
        else none
      | _ => none
    else if 0xf0 ≤ b && b ≤ 0xf4 then
      match r with
      | c :: d :: e :: r =>
        if isContinuation c && isContinuation d && isContinuation e && (b != 0xf0 || 0x90 ≤ c)
            && (b != 0xf4 || c ≤ 0x8f) then
          some (Char.ofNat ((b.toNat - 0xf0) * 262144 + (c.toNat - 0x80) * 4096
            + (d.toNat - 0x80) * 64 + (e.toNat - 0x80)), r)
        else none
      | _ => none
    else none

/-- Reads characters while they are well formed; `fuel` bounds their number. -/
def decodeLoop : (fuel : Nat) → (read : List Char) → Octets → Decoded
  | 0, read, bs => ⟨read.reverse, bs.isEmpty⟩
  | _ + 1, read, [] => ⟨read.reverse, true⟩
  | fuel + 1, read, bs =>
    match decodeChar? bs with
    | some (c, rest) => decodeLoop fuel (c :: read) rest
    | none => ⟨read.reverse, false⟩

/-- The longest beginning of the octets that is UTF-8. -/
def decode (bs : Octets) : Decoded :=
  decodeLoop bs.length [] bs

/-- The text of the octets when all of them are UTF-8. -/
def decode? (bs : Octets) : Option String :=
  let d := decode bs
  if d.sound then some (String.ofList d.chars) else none

def encode (s : String) : Octets :=
  s.toUTF8.toList

def encodeChars (cs : List Char) : Octets :=
  cs.flatMap String.utf8EncodeChar

end Text

end ImageTrust
