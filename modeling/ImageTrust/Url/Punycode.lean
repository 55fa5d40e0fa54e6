/-!
Punycode: labels of domain names in ASCII letters, digits and hyphens. The ASCII characters of a
label come first, then the places and values of the others as differences in a base of 36.
-/

namespace ImageTrust.Url.Punycode

/-- The digit for a value below 36: letters, then decimal digits. -/
def digit (n : Nat) : Char :=
  if n < 26 then Char.ofNat (97 + n) else Char.ofNat (22 + n)

/-- The value of a digit of either case. -/
def value? (c : Char) : Option Nat :=
  let n := c.toNat
  if 97 ≤ n && n ≤ 122 then some (n - 97)
  else if 65 ≤ n && n ≤ 90 then some (n - 65)
  else if 48 ≤ n && n ≤ 57 then some (n - 22)
  else none

/-- How far a digit at position `k` may go before another must follow. -/
def threshold (k bias : Nat) : Nat :=
  if k ≤ bias + 1 then 1 else if k ≥ bias + 26 then 26 else k - bias

/-- Divides a difference until it is small and counts the divisions. -/
def reduceLoop : (fuel : Nat) → (delta k : Nat) → Nat × Nat
  | 0, delta, k => (delta, k)
  | fuel + 1, delta, k => if delta > 455 then reduceLoop fuel (delta / 35) (k + 36) else (delta, k)

/-- The bias after a difference, where `count` characters are placed now. -/
def adapt (delta count : Nat) (first : Bool) : Nat :=
  let delta := if first then delta / 700 else delta / 2
  let delta := delta + delta / count
  let (delta, k) := reduceLoop delta delta 0
  k + 36 * delta / (delta + 38)

/-- The digits of a difference, the least significant first; `fuel` bounds their number. -/
def digitsLoop (bias : Nat) : (fuel : Nat) → (k q : Nat) → List Char
  | 0, _, _ => []
  | fuel + 1, k, q =>
    let t := threshold k bias
    if q < t then [digit q]
    else digit (t + (q - t) % (36 - t)) :: digitsLoop bias fuel (k + 36) ((q - t) / (36 - t))

/-- The state of writing a label; the written digits come last first. -/
structure Writer where
  out : List Char
  delta : Nat
  bias : Nat
  placed : Nat

/-- Passes one character of the label while the characters of value `m` are placed. -/
def Writer.pass (ascii m : Nat) (w : Writer) (c : Char) : Writer :=
  if c.toNat < m then { w with delta := w.delta + 1 }
  else if c.toNat = m then
    { out := (digitsLoop w.bias (w.delta + 1) 36 w.delta).reverse ++ w.out
      delta := 0
      bias := adapt w.delta (w.placed + 1) (w.placed = ascii)
      placed := w.placed + 1 }
  else w

/-- Inserts a value into an ascending list without repetitions. -/
def insertValue (n : Nat) : List Nat → List Nat
  | [] => [n]
  | m :: ms => if n < m then n :: m :: ms else if n = m then m :: ms else m :: insertValue n ms

def encode (label : List Char) : List Char :=
  let ascii := label.filter (·.toNat < 0x80)
  let values := (label.filter (·.toNat ≥ 0x80)).foldl (fun ns c => insertValue c.toNat ns) []
  let start : Writer := ⟨[], 0, 72, ascii.length⟩
  let (w, _) := values.foldl (fun (w, n) m =>
    let w := { w with delta := w.delta + (m - n) * (w.placed + 1) }
    let w := label.foldl (Writer.pass ascii.length m) w
    ({ w with delta := w.delta + 1 }, m + 1)) (start, 0x80)
  (if ascii.isEmpty then [] else ascii ++ ['-']) ++ w.out.reverse

def readDelta (bias : Nat) (k weight sum : Nat) : List Char → Option (Nat × List Char)
  | [] => none
  | c :: cs => do
    let v ← value? c
    let sum := sum + v * weight
    let t := threshold k bias
    if sum > 0xffffffff then none
    else if v < t then some (sum, cs)
    else readDelta bias (k + 36) (weight * (36 - t)) sum cs

/-- Places characters until no digits are left; `fuel` bounds their number. -/
def readLoop : (fuel : Nat) → (n i bias : Nat) → (label digits : List Char) → Option (List Char)
  | _, _, _, _, label, [] => some label
  | 0, _, _, _, _, _ :: _ => none
  | fuel + 1, n, i, bias, label, cs => do
    let (delta, cs) ← readDelta bias 36 1 0 cs
    let size := label.length + 1
    let n := n + (i + delta) / size
    let at_ := (i + delta) % size
    if n.isValidChar then
      readLoop fuel n (at_ + 1) (adapt delta size (i = 0 && n ≥ 0x80 && label.all (·.toNat < 0x80)))
        (label.take at_ ++ Char.ofNat n :: label.drop at_) cs
    else none

def decode? (cs : List Char) : Option (List Char) :=
  let reversed := cs.reverse
  let digits := (reversed.takeWhile (· != '-')).reverse
  let ascii := ((reversed.dropWhile (· != '-')).drop 1).reverse
  if ascii.any (·.toNat ≥ 0x80) then none
  else readLoop digits.length 0x80 0 72 ascii digits

end ImageTrust.Url.Punycode
