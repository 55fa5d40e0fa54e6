import ImageTrust.Clock.Timestamp
import ImageTrust.Json.Flaw
import ImageTrust.Toml.Value

/-!
Scalars of TOML: strings between quotes of four kinds, numbers, truth values, dates and times. Every
reader gives what it read and what follows; a text that is no value gives nothing.
-/

namespace ImageTrust.Toml

/-- Holds of control characters that may stand nowhere, the tab not being one of them. -/
def isForbidden (c : Char) : Bool :=
  (c.toNat < 0x20 && c != '\t') || c.toNat = 0x7f

def hexNumber? (cs : List Char) : Option Nat :=
  cs.foldlM (fun n c => do
    let v ← Json.hexValue? c
    some (n * 16 + v)) 0

/-- The character with the code that hexadecimal digits write. -/
def codedChar? (cs : List Char) : Option Char := do
  let n ← hexNumber? cs
  if h : n.isValidChar then some (Char.ofNatAux n h) else none

def letterEscape? (c : Char) : Option Char :=
  [('b', '\x08'), ('t', '\t'), ('n', '\n'), ('f', '\x0c'), ('r', '\r'), ('e', '\x1b'), ('"', '"'),
    ('\\', '\\')].lookup c

/-- The character of an escape and what follows it, behind the backslash. -/
def escape? (cs : List Char) : Option (Char × List Char) :=
  let coded (count : Nat) (cs : List Char) : Option (Char × List Char) :=
    if (cs.take count).length = count then
      (codedChar? (cs.take count)).map fun c => (c, cs.drop count)
    else none
  match cs with
  | 'x' :: cs => coded 2 cs
  | 'u' :: cs => coded 4 cs
  | 'U' :: cs => coded 8 cs
  | c :: cs => (letterEscape? c).map fun c => (c, cs)
  | [] => none

/-- A string on one line, up to a quote; `out` holds the characters so far, last first. -/
def lineString (quote : Char) (escapes : Bool) :
    (fuel : Nat) → (out : List Char) → List Char → Option (String × List Char)
  | 0, _, _ => none
  | _ + 1, _, [] => none
  | fuel + 1, out, c :: cs =>
    if c = quote then some (String.ofList out.reverse, cs)
    else if c = '\\' && escapes then
      match escape? cs with
      | some (d, cs) => lineString quote escapes fuel (d :: out) cs
      | none => none
    else if isForbidden c then none
    else lineString quote escapes fuel (c :: out) cs

def dropLines : List Char → List Char
  | '\r' :: '\n' :: cs => dropLines cs
  | c :: cs => if c = ' ' || c = '\t' || c = '\n' then dropLines cs else c :: cs
  | [] => []

/-- What follows a backslash at the end of a line: the text from its next visible character on. -/
def lineEndEscape? (cs : List Char) : Option (List Char) :=
  match cs.dropWhile (fun c => c = ' ' || c = '\t') with
  | '\n' :: cs => some (dropLines cs)
  | '\r' :: '\n' :: cs => some (dropLines cs)
  | _ => none

/-- A string of several lines, up to three quotes, before which two more may stand. -/
def linesString (quote : Char) (escapes : Bool) :
    (fuel : Nat) → (out : List Char) → List Char → Option (String × List Char)
  | 0, _, _ => none
  | _ + 1, _, [] => none
  | fuel + 1, out, c :: cs =>
    if c = quote then
      let run := (c :: cs).takeWhile (· = quote)
      if run.length < 3 then linesString quote escapes fuel (c :: out) cs
      else
        let inside := min (run.length - 3) 2
        some (String.ofList ((List.replicate inside quote ++ out).reverse),
          (c :: cs).drop (inside + 3))
    else if c = '\\' && escapes then
      match lineEndEscape? cs with
      | some cs => linesString quote escapes fuel out cs
      | none =>
        match escape? cs with
        | some (d, cs) => linesString quote escapes fuel (d :: out) cs
        | none => none
    else if c = '\n' then linesString quote escapes fuel (c :: out) cs
    else if c = '\r' then
      match cs with
      | '\n' :: cs => linesString quote escapes fuel ('\n' :: out) cs
      | _ => none
    else if isForbidden c then none
    else linesString quote escapes fuel (c :: out) cs

/-- Drops the line end right behind the opening quotes of a string of several lines. -/
def dropFirstLineEnd : List Char → List Char
  | '\n' :: cs => cs
  | '\r' :: '\n' :: cs => cs
  | cs => cs

def string? (fuel : Nat) (cs : List Char) : Option (String × List Char) :=
  match cs with
  | '"' :: '"' :: '"' :: cs => linesString '"' true fuel [] (dropFirstLineEnd cs)
  | '\'' :: '\'' :: '\'' :: cs => linesString '\'' false fuel [] (dropFirstLineEnd cs)
  | '"' :: cs => lineString '"' true fuel [] cs
  | '\'' :: cs => lineString '\'' false fuel [] cs
  | _ => none

/-- Digits without the separators between them; a separator has a digit on both sides. -/
def ungroup (isDigit : Char → Bool) : (behindDigit : Bool) → List Char → Option (List Char)
  | behindDigit, [] => if behindDigit then some [] else none
  | behindDigit, c :: cs =>
    if c = '_' then if behindDigit then ungroup isDigit false cs else none
    else if isDigit c then (ungroup isDigit true cs).map (c :: ·)
    else none

def numberIn? (base : Nat) (cs : List Char) : Option Nat := do
  let ds ← ungroup (fun c => ((Json.hexValue? c).getD 16) < base) false cs
  some (ds.foldl (fun n c => n * base + (Json.hexValue? c).getD 0) 0)

/-- Decimal digits that do not begin with a zero in vain. -/
def decimal? (cs : List Char) : Option (List Char) := do
  let ds ← ungroup Char.isDigit false cs
  match ds with
  | '0' :: _ :: _ => none
  | ds => some ds

/-- A sign and what follows it; no sign is a plus. -/
def signed (cs : List Char) : Bool × List Char :=
  match cs with
  | '-' :: cs => (true, cs)
  | '+' :: cs => (false, cs)
  | cs => (false, cs)

/-- An integer, which has at most 128 bits. -/
def integer? (cs : List Char) : Option Int :=
  match cs with
  | '0' :: 'x' :: cs => bounded (numberIn? 16 cs)
  | '0' :: 'o' :: cs => bounded (numberIn? 8 cs)
  | '0' :: 'b' :: cs => bounded (numberIn? 2 cs)
  | cs =>
    let (negative, cs) := signed cs
    match decimal? cs with
    | none => none
    | some ds =>
      let n := Json.digitsValue ds
      if negative then if n ≤ Nat.pow 2 127 then some (-(n : Int)) else none
      else bounded (some n)
where
  bounded (n : Option Nat) : Option Int :=
    n.bind fun n => if n < Nat.pow 2 128 then some (n : Int) else none

/-- A number with a point, an exponent or both, which is not too large for floating point. -/
def fraction? (cs : List Char) : Option Value := do
  let (negative, cs) := signed cs
  let isMark (c : Char) : Bool := c = 'e' || c = 'E'
  let mantissa := cs.takeWhile (!isMark ·)
  let whole ← decimal? (mantissa.takeWhile (· != '.'))
  let behind ← match mantissa.dropWhile (· != '.') with
    | [] => some []
    | _ :: ds => ungroup Char.isDigit false ds
  let power ← match cs.dropWhile (!isMark ·) with
    | [] => some none
    | _ :: exponent =>
      let (down, ds) := signed exponent
      (ungroup Char.isDigit false ds).map fun ds => some (down, ds)
  let literal : Json.Literal := ⟨negative, whole, behind, power⟩
  let _ ← literal.float?
  some (.fraction literal)

/-- A time of day, whose seconds may be missing, and what follows it. -/
def timeOfDay? (cs : List Char) : Option (List Char) := do
  let (hour, cs) ← Clock.digits? 2 cs
  let cs ← Clock.expect? ':' cs
  let (minute, cs) ← Clock.digits? 2 cs
  if hour > 23 || minute > 59 then none
  else
    match cs with
    | ':' :: cs => do
      let (second, cs) ← Clock.digits? 2 cs
      if second > 60 then none
      else
        match cs with
        | '.' :: cs =>
          if (cs.takeWhile Char.isDigit).isEmpty then none else some (cs.dropWhile Char.isDigit)
        | cs => some cs
    | cs => some cs

def date? (cs : List Char) : Option (List Char) := do
  let (year, cs) ← Clock.digits? 4 cs
  let cs ← Clock.expect? '-' cs
  let (month, cs) ← Clock.digits? 2 cs
  let cs ← Clock.expect? '-' cs
  let (day, cs) ← Clock.digits? 2 cs
  if 1 ≤ day && day ≤ Clock.daysInMonth year month then some cs else none

def isOffset (cs : List Char) : Bool :=
  match cs with
  | ['Z'] | ['z'] => true
  | c :: cs =>
    (c = '+' || c = '-') && (do
      let (hour, cs) ← Clock.digits? 2 cs
      let cs ← Clock.expect? ':' cs
      let (minute, cs) ← Clock.digits? 2 cs
      some (hour ≤ 23 && minute ≤ 59 && cs.isEmpty)) = some true
  | [] => false

/-- Whether a text is a date, a time of day, or both with or without an offset. -/
def isMoment (cs : List Char) : Bool :=
  match date? cs with
  | some [] => true
  | some (c :: rest) =>
    (c = 'T' || c = 't' || c = ' ') &&
      match timeOfDay? rest with
      | some [] => true
      | some rest => isOffset rest
      | none => false
  | none => timeOfDay? cs = some []

/-- Holds of the characters of scalars without quotes. -/
def isScalarChar (c : Char) : Bool :=
  c.isAlphanum || c = '_' || c = '-' || c = '+' || c = '.' || c = ':'

/-- The text of a scalar without quotes and what follows it. One blank between a date and a time
belongs to it. -/
def scalarText (cs : List Char) : List Char × List Char :=
  let front := cs.takeWhile isScalarChar
  let behind := cs.dropWhile isScalarChar
  match behind with
  | ' ' :: d :: rest =>
    if d.isDigit && date? front = some [] then
      (front ++ ' ' :: (d :: rest).takeWhile isScalarChar, (d :: rest).dropWhile isScalarChar)
    else (front, behind)
  | _ => (front, behind)

def plainScalar? (cs : List Char) : Option Value :=
  if cs = "true".toList then some (.boolean true)
  else if cs = "false".toList then some (.boolean false)
  else if ["inf", "nan"].contains (String.ofList (signed cs).2) then some .notFinite
  else if isMoment cs then some (.moment (String.ofList cs))
  else
    match integer? cs with
    | some n => some (.integer n)
    | none => if cs.any (fun c => c = '.' || c = 'e' || c = 'E') then fraction? cs else none

def scalar? (fuel : Nat) (cs : List Char) : Option (Value × List Char) :=
  match string? fuel cs with
  | some (s, cs) => some (.string s, cs)
  | none =>
    let (text, cs) := scalarText cs
    (plainScalar? text).map fun v => (v, cs)

end ImageTrust.Toml
