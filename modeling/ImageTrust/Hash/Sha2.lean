import ImageTrust.Text.Utf8

/-!
The SHA-2 family. One algorithm serves both word sizes; a `Variant` holds what distinguishes them.
A digest is a fold of the compression function over the blocks of the padded message.
-/

namespace ImageTrust

namespace Sha2

/-- The eight words carried from block to block. -/
structure Chain (ω : Type) where
  a : ω
  b : ω
  c : ω
  d : ω
  e : ω
  f : ω
  g : ω
  h : ω
  deriving DecidableEq, Repr

/-- What one word size fixes. -/
structure Variant (ω : Type) where
  /-- Octets of a word; a block has sixteen words. -/
  width : Nat
  ofNat : Nat → ω
  toNat : ω → Nat
  sum : ω → ω → ω
  choose : ω → ω → ω → ω
  majority : ω → ω → ω → ω
  bigSigma0 : ω → ω
  bigSigma1 : ω → ω
  smallSigma0 : ω → ω
  smallSigma1 : ω → ω
  constants : List ω

/-- The number that octets spell, the most significant first. -/
def number (bs : Octets) : Nat :=
  bs.foldl (fun n b => n * 256 + b.toNat) 0

/-- The low `n` octets of a number, the most significant first. -/
def octets (n value : Nat) : Octets :=
  go n value []
where
  go : Nat → Nat → Octets → Octets
    | 0, _, out => out
    | n + 1, value, out => go n (value / 256) (UInt8.ofNat value :: out)

section

variable {ω : Type} (v : Variant ω)

/-- Splits octets into `n` words. -/
def words : (n : Nat) → Octets → List ω
  | 0, _ => []
  | n + 1, bs => v.ofNat (number (bs.take v.width)) :: words n (bs.drop v.width)

/-- The word that follows sixteen or more, of which the last comes first. -/
def nextWord (ws : List ω) : ω :=
  let w (i : Nat) : ω := ws[i]?.getD (v.ofNat 0)
  v.sum (v.sum (v.smallSigma1 (w 1)) (w 6)) (v.sum (v.smallSigma0 (w 14)) (w 15))

/-- Adds `n` words to a schedule, whose last word comes first. -/
def extend : (n : Nat) → List ω → List ω
  | 0, ws => ws
  | n + 1, ws => extend n (nextWord v ws :: ws)

def schedule (block : Octets) : List ω :=
  (extend v (v.constants.length - 16) (words v 16 block).reverse).reverse

/-- One round, with its constant and its word of the schedule. -/
def round (s : Chain ω) (kw : ω × ω) : Chain ω :=
  let t1 := v.sum (v.sum (v.sum s.h (v.bigSigma1 s.e)) (v.choose s.e s.f s.g)) (v.sum kw.1 kw.2)
  let t2 := v.sum (v.bigSigma0 s.a) (v.majority s.a s.b s.c)
  ⟨v.sum t1 t2, s.a, s.b, s.c, v.sum s.d t1, s.e, s.f, s.g⟩

def compress (s : Chain ω) (block : Octets) : Chain ω :=
  let t := (v.constants.zip (schedule v block)).foldl (round v) s
  ⟨v.sum s.a t.a, v.sum s.b t.b, v.sum s.c t.c, v.sum s.d t.d,
    v.sum s.e t.e, v.sum s.f t.f, v.sum s.g t.g, v.sum s.h t.h⟩

/-- The message with its end mark and its length in bits, a whole number of blocks. -/
def padded (message : Octets) : Octets :=
  let block := 16 * v.width
  let used := message.length + 1 + 2 * v.width
  let zeros := (block - used % block) % block
  message ++ 0x80 :: List.replicate zeros 0 ++ octets (2 * v.width) (8 * message.length)

/-- Takes `n` blocks into the chain. -/
def absorb : (n : Nat) → Chain ω → Octets → Chain ω
  | 0, s, _ => s
  | n + 1, s, bs => absorb n (compress v s (bs.take (16 * v.width))) (bs.drop (16 * v.width))

def hash (start : Chain ω) (message : Octets) : Octets :=
  let bs := padded v message
  let s := absorb v (bs.length / (16 * v.width)) start bs
  [s.a, s.b, s.c, s.d, s.e, s.f, s.g, s.h].flatMap fun w => octets v.width (v.toNat w)

end

/-- Rotation to the right by `n` bits, where `0 < n < 32`. -/
def rotate32 (x : UInt32) (n : UInt32) : UInt32 :=
  (x >>> n) ||| (x <<< (32 - n))

/-- Rotation to the right by `n` bits, where `0 < n < 64`. -/
def rotate64 (x : UInt64) (n : UInt64) : UInt64 :=
  (x >>> n) ||| (x <<< (64 - n))

/-- The variant with words of four octets. -/
def short : Variant UInt32 where
  width := 4
  ofNat := UInt32.ofNat
  toNat := UInt32.toNat
  sum := (· + ·)
  choose e f g := (e &&& f) ^^^ (~~~e &&& g)
  majority a b c := (a &&& b) ^^^ (a &&& c) ^^^ (b &&& c)
  bigSigma0 x := rotate32 x 2 ^^^ rotate32 x 13 ^^^ rotate32 x 22
  bigSigma1 x := rotate32 x 6 ^^^ rotate32 x 11 ^^^ rotate32 x 25
  smallSigma0 x := rotate32 x 7 ^^^ rotate32 x 18 ^^^ (x >>> 3)
  smallSigma1 x := rotate32 x 17 ^^^ rotate32 x 19 ^^^ (x >>> 10)
  constants := [
    0x428a2f98, 0x71374491, 0xb5c0fbcf, 0xe9b5dba5, 0x3956c25b, 0x59f111f1, 0x923f82a4, 0xab1c5ed5,
    0xd807aa98, 0x12835b01, 0x243185be, 0x550c7dc3, 0x72be5d74, 0x80deb1fe, 0x9bdc06a7, 0xc19bf174,
    0xe49b69c1, 0xefbe4786, 0x0fc19dc6, 0x240ca1cc, 0x2de92c6f, 0x4a7484aa, 0x5cb0a9dc, 0x76f988da,
    0x983e5152, 0xa831c66d, 0xb00327c8, 0xbf597fc7, 0xc6e00bf3, 0xd5a79147, 0x06ca6351, 0x14292967,
    0x27b70a85, 0x2e1b2138, 0x4d2c6dfc, 0x53380d13, 0x650a7354, 0x766a0abb, 0x81c2c92e, 0x92722c85,
    0xa2bfe8a1, 0xa81a664b, 0xc24b8b70, 0xc76c51a3, 0xd192e819, 0xd6990624, 0xf40e3585, 0x106aa070,
    0x19a4c116, 0x1e376c08, 0x2748774c, 0x34b0bcb5, 0x391c0cb3, 0x4ed8aa4a, 0x5b9cca4f, 0x682e6ff3,
    0x748f82ee, 0x78a5636f, 0x84c87814, 0x8cc70208, 0x90befffa, 0xa4506ceb, 0xbef9a3f7, 0xc67178f2]

/-- The variant with words of eight octets. -/
def long : Variant UInt64 where
  width := 8
  ofNat := UInt64.ofNat
  toNat := UInt64.toNat
  sum := (· + ·)
  choose e f g := (e &&& f) ^^^ (~~~e &&& g)
  majority a b c := (a &&& b) ^^^ (a &&& c) ^^^ (b &&& c)
  bigSigma0 x := rotate64 x 28 ^^^ rotate64 x 34 ^^^ rotate64 x 39
  bigSigma1 x := rotate64 x 14 ^^^ rotate64 x 18 ^^^ rotate64 x 41
  smallSigma0 x := rotate64 x 1 ^^^ rotate64 x 8 ^^^ (x >>> 7)
  smallSigma1 x := rotate64 x 19 ^^^ rotate64 x 61 ^^^ (x >>> 6)
  constants := [
    0x428a2f98d728ae22, 0x7137449123ef65cd, 0xb5c0fbcfec4d3b2f, 0xe9b5dba58189dbbc,
    0x3956c25bf348b538, 0x59f111f1b605d019, 0x923f82a4af194f9b, 0xab1c5ed5da6d8118,
    0xd807aa98a3030242, 0x12835b0145706fbe, 0x243185be4ee4b28c, 0x550c7dc3d5ffb4e2,
    0x72be5d74f27b896f, 0x80deb1fe3b1696b1, 0x9bdc06a725c71235, 0xc19bf174cf692694,
    0xe49b69c19ef14ad2, 0xefbe4786384f25e3, 0x0fc19dc68b8cd5b5, 0x240ca1cc77ac9c65,
    0x2de92c6f592b0275, 0x4a7484aa6ea6e483, 0x5cb0a9dcbd41fbd4, 0x76f988da831153b5,
    0x983e5152ee66dfab, 0xa831c66d2db43210, 0xb00327c898fb213f, 0xbf597fc7beef0ee4,
    0xc6e00bf33da88fc2, 0xd5a79147930aa725, 0x06ca6351e003826f, 0x142929670a0e6e70,
    0x27b70a8546d22ffc, 0x2e1b21385c26c926, 0x4d2c6dfc5ac42aed, 0x53380d139d95b3df,
    0x650a73548baf63de, 0x766a0abb3c77b2a8, 0x81c2c92e47edaee6, 0x92722c851482353b,
    0xa2bfe8a14cf10364, 0xa81a664bbc423001, 0xc24b8b70d0f89791, 0xc76c51a30654be30,
    0xd192e819d6ef5218, 0xd69906245565a910, 0xf40e35855771202a, 0x106aa07032bbd1b8,
    0x19a4c116b8d2d0c8, 0x1e376c085141ab53, 0x2748774cdf8eeb99, 0x34b0bcb5e19b48a8,
    0x391c0cb3c5c95a63, 0x4ed8aa4ae3418acb, 0x5b9cca4f7763e373, 0x682e6ff3d6b2b8a3,
    0x748f82ee5defb2fc, 0x78a5636f43172f60, 0x84c87814a1f0ab72, 0x8cc702081a6439ec,
    0x90befffa23631e28, 0xa4506cebde82bde9, 0xbef9a3f7b2c67915, 0xc67178f2e372532b,
    0xca273eceea26619c, 0xd186b8c721c0c207, 0xeada7dd6cde0eb1e, 0xf57d4f7fee6ed178,
    0x06f067aa72176fba, 0x0a637dc5a2c898a6, 0x113f9804bef90dae, 0x1b710b35131c471b,
    0x28db77f523047d84, 0x32caab7b40c72493, 0x3c9ebe0a15c9bebc, 0x431d67c49c100d4c,
    0x4cc5d4becb3e42b6, 0x597f299cfc657e2a, 0x5fcb6fab3ad6faec, 0x6c44198c4a475817]

/-- Where a digest of 32 octets starts from. -/
def start256 : Chain UInt32 :=
  ⟨0x6a09e667, 0xbb67ae85, 0x3c6ef372, 0xa54ff53a,
    0x510e527f, 0x9b05688c, 0x1f83d9ab, 0x5be0cd19⟩

/-- Where a digest of 48 octets starts from. -/
def start384 : Chain UInt64 :=
  ⟨0xcbbb9d5dc1059ed8, 0x629a292a367cd507,
    0x9159015a3070dd17, 0x152fecd8f70e5939,
    0x67332667ffc00b31, 0x8eb44a8768581511,
    0xdb0c2e0d64f98fa7, 0x47b5481dbefa4fa4⟩

/-- Where a digest of 64 octets starts from. -/
def start512 : Chain UInt64 :=
  ⟨0x6a09e667f3bcc908, 0xbb67ae8584caa73b,
    0x3c6ef372fe94f82b, 0xa54ff53a5f1d36f1,
    0x510e527fade682d1, 0x9b05688c2b3e6c1f,
    0x1f83d9abfb41bd6b, 0x5be0cd19137e2179⟩

end Sha2

end ImageTrust
