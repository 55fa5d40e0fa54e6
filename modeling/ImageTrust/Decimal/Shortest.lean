/-!
Decimal text of a binary fraction. `shortest?` gives the fewest digits that still lie in the interval
of numbers rounding to the given one, and of those the nearest; `text` sets them positionally for
moderate exponents and with an exponent otherwise.
-/

namespace ImageTrust.Decimal

/-- A positive number `mantissa * 2 ^ exponent` of binary precision 53. -/
structure Binary where
  mantissa : Nat
  exponent : Int
  deriving DecidableEq, Repr

/-- A positive number `digits * 10 ^ exponent`. -/
structure Scaled where
  digits : Nat
  exponent : Int
  deriving DecidableEq, Repr

/-- A fraction of naturals. -/
structure Ratio where
  num : Nat
  den : Nat

/-- The fraction `n * base ^ e`. -/
def Ratio.scaled (n base : Nat) (e : Int) : Ratio :=
  if 0 ≤ e then ⟨n * Nat.pow base e.toNat, 1⟩ else ⟨n, Nat.pow base (-e).toNat⟩

/-- The order of fractions with positive denominators. -/
def Ratio.le (a b : Ratio) : Bool :=
  a.num * b.den ≤ b.num * a.den

/-- The numbers between `low` and `high` round to the given one; the ends do when its mantissa is
even. -/
structure Interval where
  low : Ratio
  high : Ratio
  closed : Bool

/-- Where the neighbours of `b` begin. Below a power of two the spacing halves. -/
def Binary.interval (b : Binary) : Interval :=
  let low :=
    if b.mantissa = Nat.pow 2 52 && -1074 < b.exponent then Ratio.scaled (4 * b.mantissa - 1) 2 (b.exponent - 2)
    else Ratio.scaled (2 * b.mantissa - 1) 2 (b.exponent - 1)
  ⟨low, Ratio.scaled (2 * b.mantissa + 1) 2 (b.exponent - 1), b.mantissa % 2 = 0⟩

/-- Membership of a fraction. -/
def Interval.contains (i : Interval) (r : Ratio) : Bool :=
  if i.closed then i.low.le r && r.le i.high else !r.le i.low && !i.high.le r

/-- The two neighbours of `v` on the grid of multiples of `10 ^ e` that lie in the interval, the
nearer first. -/
def neighbour? (i : Interval) (v : Ratio) (e : Int) : Option Nat :=
  let unit := Ratio.scaled 1 10 e
  let n := v.num * unit.den
  let d := v.den * unit.num
  let floor := n / d
  let twice := 2 * (n % d)
  let nearUp := d < twice || (twice = d && floor % 2 = 1)
  let fits (k : Nat) : Bool := k != 0 && i.contains (Ratio.scaled k 10 e)
  let (first, second) := if nearUp then (floor + 1, floor) else (floor, floor + 1)
  if fits first then some first else if fits second then some second else none

/-- The least `e` from `start` down, within `fuel` steps, whose grid meets the interval. -/
def search (i : Interval) (v : Ratio) : (fuel : Nat) → (start : Int) → Option Scaled
  | 0, _ => none
  | fuel + 1, e =>
    match neighbour? i v e with
    | some k => some ⟨k, e⟩
    | none => search i v fuel (e - 1)

/-- Removes zeros from the end of the digits. -/
def Scaled.normal (fuel : Nat) (s : Scaled) : Scaled :=
  match fuel with
  | 0 => s
  | fuel + 1 =>
    if s.digits % 10 = 0 && s.digits != 0 then
      Scaled.normal fuel ⟨s.digits / 10, s.exponent + 1⟩
    else s

/-- The shortest decimal that rounds to `b`. The search starts above every finite number. -/
def Binary.shortest? (b : Binary) : Option Scaled :=
  let v := Ratio.scaled b.mantissa 2 b.exponent
  (search b.interval v 660 310).map (Scaled.normal 20)

def Binary.ofBits (bits : Nat) : Binary :=
  let field : Nat := bits / Nat.pow 2 52 % Nat.pow 2 11
  let fraction : Nat := bits % Nat.pow 2 52
  if field = 0 then ⟨fraction, -1074⟩ else ⟨Nat.pow 2 52 + fraction, Int.ofNat field - 1075⟩

/-- Digits with a point `scale` places from their left end: positional from five zeros behind the
point up to sixteen digits before it, with an exponent otherwise. -/
def Scaled.text (s : Scaled) : String :=
  let digits := (Nat.repr s.digits).toList
  let count : Int := digits.length
  let scale := count + s.exponent
  let written :=
    if 0 ≤ s.exponent && scale ≤ 16 then
      digits ++ List.replicate s.exponent.toNat '0' ++ ['.', '0']
    else if 0 < scale && scale ≤ 16 then
      digits.take scale.toNat ++ '.' :: digits.drop scale.toNat
    else if -5 < scale && scale ≤ 0 then
      '0' :: '.' :: (List.replicate (-scale).toNat '0' ++ digits)
    else
      let power := (toString (scale - 1)).toList
      match digits with
      | [d] => d :: 'e' :: power
      | d :: rest => d :: '.' :: (rest ++ 'e' :: power)
      | [] => []
  String.ofList written

def text (f : Float) : String :=
  let bits := f.toBits.toNat
  let sign := if Nat.pow 2 63 ≤ bits then "-" else ""
  let magnitude := bits % Nat.pow 2 63
  if magnitude = 0 then sign ++ "0.0"
  else
    match (Binary.ofBits magnitude).shortest? with
    | some s => sign ++ s.text
    | none => sign ++ "0.0"

end ImageTrust.Decimal
