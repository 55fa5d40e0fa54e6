import ImageTrust.Decimal.Shortest
import ImageTrust.Json.Source
import ImageTrust.Text.Quoted

/-!
Why a document does not decode: its text has a fault, or its shape is not the expected one. The
wording of a wrong shape is one function of its cause.
-/

namespace ImageTrust.Json

/-- A value of the wrong kind as a message shows it. -/
inductive Found where
  | null
  | bool (b : Bool)
  | integer (n : Int)
  | fraction (text : String)
  | string (s : String)
  | sequence
  | map
  deriving DecidableEq, Repr

/-- A well-formed document of the wrong shape. -/
inductive Mismatch where
  | kind (found : Found) (expected : String)
  | value (found : Found) (expected : String)
  | missingMember (name : String)
  | duplicateMember (name : String)
  | unknownVariant (name : String) (known : List String)
  | length (count : Nat) (expected : String)
  deriving DecidableEq, Repr

/-- Why decoding fails. -/
inductive Flaw where
  | text (fault : Fault)
  | shape (mismatch : Mismatch)
  deriving DecidableEq, Repr

/-- The wording of a value of the wrong kind. -/
def Found.message : Found → String
  | .null => "null"
  | .bool b => s!"boolean `{b}`"
  | .integer n => s!"integer `{n}`"
  | .fraction text => s!"floating point `{text}`"
  | .string s => "string " ++ Text.quoted s
  | .sequence => "sequence"
  | .map => "map"

def alternatives (names : List String) : String :=
  match names.map (fun name => s!"`{name}`") with
  | [] => "there are no variants"
  | [a] => s!"expected {a}"
  | [a, b] => s!"expected {a} or {b}"
  | many => "expected one of " ++ ", ".intercalate many

def Mismatch.message : Mismatch → String
  | .kind found expected => s!"invalid type: {found.message}, expected {expected}"
  | .value found expected => s!"invalid value: {found.message}, expected {expected}"
  | .missingMember name => s!"missing field `{name}`"
  | .duplicateMember name => s!"duplicate field `{name}`"
  | .unknownVariant name known => s!"unknown variant `{name}`, {alternatives known}"
  | .length count expected => s!"invalid length {count}, expected {expected}"

def digitsValue (ds : List Char) : Nat :=
  ds.foldl (fun n c => n * 10 + (c.toNat - 48)) 0

/-- A significand below 2^64 and the power of ten that scales it. -/
structure Parts where
  significand : Nat
  power : Int
  /-- Whether a digit has been dropped; all later digits are then dropped too. -/
  full : Bool

/-- Takes one more digit while the significand stays below 2^64. Digits before the point that no
longer fit raise the power, digits behind it that fit lower it. -/
def Parts.push (fractional : Bool) (p : Parts) (c : Char) : Parts :=
  let next := p.significand * 10 + (c.toNat - 48)
  if p.full || Nat.pow 2 64 ≤ next then
    { p with full := true, power := if fractional then p.power else p.power + 1 }
  else { p with significand := next, power := if fractional then p.power - 1 else p.power }

/-- `significand * 10 ^ power` in floating point by one multiplication or, for very small numbers,
repeated division; `none` beyond the largest finite number. -/
def scaleFloat (fuel : Nat) (f : Float) (power : Int) : Option Float :=
  match fuel with
  | 0 => some 0
  | fuel + 1 =>
    if power.natAbs ≤ 308 then
      if 0 ≤ power then
        let scaled := f * Float.ofScientific 1 false power.natAbs
        if scaled.isInf then none else some scaled
      else some (f / Float.ofScientific 1 false power.natAbs)
    else if f == 0 then some f
    else if 0 ≤ power then none
    else scaleFloat fuel (f / Float.ofScientific 1 false 308) (power + 308)

/-- The floating point value of a number, if it is finite. -/
def Literal.float? (n : Literal) : Option Float :=
  let parts := n.fraction.foldl (Parts.push true) (n.whole.foldl (Parts.push false) ⟨0, 0, false⟩)
  let start := (UInt64.ofNat parts.significand).toFloat
  let magnitude :=
    match n.power with
    | none => scaleFloat 8 start parts.power
    | some (negative, digits) =>
      let e := digitsValue digits
      if Nat.pow 2 31 ≤ e then
        if parts.significand = 0 || negative then some 0 else none
      else scaleFloat 8 start (if negative then parts.power - e else parts.power + e)
  magnitude.map fun f => if n.negative then -f else f

/-- What a number is: an integer of 64 bits, or a fraction, or out of range. -/
inductive Numeral where
  | integer (n : Int)
  | fraction (text : String)
  | outOfRange
  deriving DecidableEq, Repr

/-- Numbers without fraction and exponent are integers when they fit 64 bits; a negative zero is a
fraction. -/
def Literal.numeral (n : Literal) : Numeral :=
  let value := digitsValue n.whole
  let integral := n.fraction.isEmpty && n.power.isNone
  if integral && !n.negative && value < Nat.pow 2 64 then .integer value
  else if integral && n.negative && value != 0 && value ≤ Nat.pow 2 63 then .integer (-value)
  else
    match n.float? with
    | some f => .fraction (Decimal.text f)
    | none => .outOfRange

end ImageTrust.Json
