import ImageTrust.Text.Utf8

/-!
Base64 with the standard alphabet and mandatory padding. `decode` inverts `encode` and says of any
other text where it goes wrong; the unused bits of the last symbol have to be zero.
-/

namespace ImageTrust.Base64

/-- Why a text is not base64. -/
inductive Fault where
  /-- An octet outside the alphabet, or padding where none may stand. -/
  | symbol (octet : UInt8) (offset : Nat)
  /-- A last symbol whose unused bits are not zero. -/
  | lastSymbol (octet : UInt8) (offset : Nat)
  /-- A text that stops after the first symbol of a group. -/
  | length (count : Nat)
  /-- Padding that is missing or incomplete. -/
  | padding
  deriving DecidableEq, Repr

def Fault.message : Fault → String
  | .symbol octet offset => s!"Invalid symbol {octet}, offset {offset}."
  | .lastSymbol octet offset => s!"Invalid last symbol {octet}, offset {offset}."
  | .length count => s!"Invalid input length: {count}"
  | .padding => "Invalid padding"

/-- The symbol of a value below 64. -/
def symbol (n : Nat) : Char :=
  if n < 26 then Char.ofNat (65 + n)
  else if n < 52 then Char.ofNat (71 + n)
  else if n < 62 then Char.ofNat (n - 4)
  else if n = 62 then '+'
  else '/'

def value? (b : UInt8) : Option Nat :=
  let n := b.toNat
  if 65 ≤ n && n ≤ 90 then some (n - 65)
  else if 97 ≤ n && n ≤ 122 then some (n - 71)
  else if 48 ≤ n && n ≤ 57 then some (n + 4)
  else if n = 43 then some 62
  else if n = 47 then some 63
  else none

/-- Writes octets as symbols, four for each group of three; `out` holds those written so far, last
first. -/
def encodeLoop (out : List Char) : Octets → List Char
  | [] => out.reverse
  | [a] => ('=' :: '=' :: symbol (a.toNat % 4 * 16) :: symbol (a.toNat / 4) :: out).reverse
  | [a, b] =>
    ('=' :: symbol (b.toNat % 16 * 4) :: symbol (a.toNat % 4 * 16 + b.toNat / 16)
      :: symbol (a.toNat / 4) :: out).reverse
  | a :: b :: c :: rest =>
    encodeLoop (symbol (c.toNat % 64) :: symbol (b.toNat % 16 * 4 + c.toNat / 64)
      :: symbol (a.toNat % 4 * 16 + b.toNat / 16) :: symbol (a.toNat / 4) :: out) rest

def encode (bs : Octets) : String :=
  String.ofList (encodeLoop [] bs)

/-- A whole group of four symbols, or the first octet outside the alphabet. -/
def group (offset : Nat) (a b c d : UInt8) : Except Fault Octets :=
  match value? a, value? b, value? c, value? d with
  | none, _, _, _ => .error (.symbol a offset)
  | _, none, _, _ => .error (.symbol b (offset + 1))
  | _, _, none, _ => .error (.symbol c (offset + 2))
  | _, _, _, none => .error (.symbol d (offset + 3))
  | some a, some b, some c, some d =>
    .ok [UInt8.ofNat (a * 4 + b / 16), UInt8.ofNat (b % 16 * 16 + c / 4),
      UInt8.ofNat (c % 4 * 64 + d)]

/-- The last group: its values, its last symbol, and where its padding starts and ends. -/
structure Ending where
  values : List Nat
  last : UInt8
  padStart : Nat
  padCount : Nat
  deriving DecidableEq, Repr

/-- Reads the last group: padding may stand third or fourth, and only padding may follow it. -/
def ending (offset index : Nat) (seen : Ending) : Octets → Except Fault Ending
  | [] => .ok seen
  | b :: rest =>
    if b = 0x3d then
      if index < 2 then .error (.symbol b (offset + index))
      else
        ending offset (index + 1)
          { seen with padStart := if seen.padCount = 0 then index else seen.padStart,
                      padCount := seen.padCount + 1 } rest
    else if seen.padCount > 0 then .error (.symbol 0x3d (offset + seen.padStart))
    else
      match value? b with
      | none => .error (.symbol b (offset + index))
      | some v => ending offset (index + 1) { seen with values := seen.values ++ [v], last := b } rest

/-- The octets of the last group, which holds up to four symbols and its padding. -/
def finish (offset : Nat) (bs : Octets) : Except Fault Octets := do
  let seen ← ending offset 0 ⟨[], 0, 0, 0⟩ bs
  match seen.values with
  | [] => .ok []
  | [_] => .error (.length (offset + 1))
  | [a, b] =>
    if seen.padCount != 2 then .error .padding
    else if b % 16 != 0 then .error (.lastSymbol seen.last (offset + 1))
    else .ok [UInt8.ofNat (a * 4 + b / 16)]
  | [a, b, c] =>
    if seen.padCount != 1 then .error .padding
    else if c % 4 != 0 then .error (.lastSymbol seen.last (offset + 2))
    else .ok [UInt8.ofNat (a * 4 + b / 16), UInt8.ofNat (b % 16 * 16 + c / 4)]
  | a :: b :: c :: d :: _ =>
    .ok [UInt8.ofNat (a * 4 + b / 16), UInt8.ofNat (b % 16 * 16 + c / 4),
      UInt8.ofNat (c % 4 * 64 + d)]

/-- Decodes group by group; `out` holds the octets so far, last first. -/
def decodeLoop (offset : Nat) (out : Octets) : Octets → Except Fault Octets
  | a :: b :: c :: d :: e :: rest => do
    let octets ← group offset a b c d
    decodeLoop (offset + 4) (octets.reverse ++ out) (e :: rest)
  | bs => do
    let octets ← finish offset bs
    return out.reverse ++ octets

/-- The last octet with its offset when it is alone in its group and no symbol of base64. -/
def strayEnd (bs : Octets) : Option (UInt8 × Nat) :=
  if bs.length % 4 = 1 then
    match bs.getLast? with
    | some b => if b != 0x3d && (value? b).isNone then some (b, bs.length - 1) else none
    | none => none
  else none

/-- The octets that the octets of a base64 text stand for. A stray octet at the end is found first. -/
def decodeOctets (bs : Octets) : Except Fault Octets :=
  match strayEnd bs with
  | some (b, offset) => .error (.symbol b offset)
  | none => decodeLoop 0 [] bs

/-- The octets that a base64 text stands for. -/
def decode (s : String) : Except Fault Octets :=
  decodeOctets (Text.encode s)

end ImageTrust.Base64
