import ImageTrust.Text.Utf8

/-!
SHA-1, which old certificate signatures still use. Its block and padding are those of the short
SHA-2 variant; its chain has five words.
-/

namespace ImageTrust.Sha1

/-- The five words carried from block to block. -/
structure Chain where
  a : UInt32
  b : UInt32
  c : UInt32
  d : UInt32
  e : UInt32
  deriving DecidableEq, Repr

/-- Rotation to the left by `n` bits, where `0 < n < 32`. -/
def rotate (x : UInt32) (n : UInt32) : UInt32 :=
  (x <<< n) ||| (x >>> (32 - n))

/-- Adds `n` words to a schedule, whose last word comes first. -/
def extend : (n : Nat) → List UInt32 → List UInt32
  | 0, ws => ws
  | n + 1, ws =>
    let w (i : Nat) : UInt32 := ws[i]?.getD 0
    extend n (rotate (w 2 ^^^ w 7 ^^^ w 13 ^^^ w 15) 1 :: ws)

/-- The function and the constant of a round. -/
def mix (round : Nat) (b c d : UInt32) : UInt32 × UInt32 :=
  if round < 20 then ((b &&& c) ||| (~~~b &&& d), 0x5a827999)
  else if round < 40 then (b ^^^ c ^^^ d, 0x6ed9eba1)
  else if round < 60 then ((b &&& c) ||| (b &&& d) ||| (c &&& d), 0x8f1bbcdc)
  else (b ^^^ c ^^^ d, 0xca62c1d6)

/-- The rounds from number `round` on. -/
def rounds (s : Chain) (round : Nat) : List UInt32 → Chain
  | [] => s
  | w :: ws =>
    let (f, k) := mix round s.b s.c s.d
    rounds ⟨rotate s.a 5 + f + s.e + k + w, s.a, rotate s.b 30, s.c, s.d⟩ (round + 1) ws

/-- Splits octets into `n` words. -/
def words : (n : Nat) → Octets → List UInt32
  | 0, _ => []
  | n + 1, bs =>
    UInt32.ofNat ((bs.take 4).foldl (fun n b => n * 256 + b.toNat) 0) :: words n (bs.drop 4)

def compress (s : Chain) (block : Octets) : Chain :=
  let t := rounds s 0 (extend 64 (words 16 block).reverse).reverse
  ⟨s.a + t.a, s.b + t.b, s.c + t.c, s.d + t.d, s.e + t.e⟩

def octets (w : UInt32) : Octets :=
  [(w >>> 24).toUInt8, (w >>> 16).toUInt8, (w >>> 8).toUInt8, w.toUInt8]

/-- Takes `n` blocks into the chain. -/
def absorb : (n : Nat) → Chain → Octets → Chain
  | 0, s, _ => s
  | n + 1, s, bs => absorb n (compress s (bs.take 64)) (bs.drop 64)

/-- The digest of a message, given its padded form. -/
def hash (padded : Octets) : Octets :=
  let s := absorb (padded.length / 64)
    ⟨0x67452301, 0xefcdab89, 0x98badcfe, 0x10325476, 0xc3d2e1f0⟩ padded
  [s.a, s.b, s.c, s.d, s.e].flatMap octets

end ImageTrust.Sha1
