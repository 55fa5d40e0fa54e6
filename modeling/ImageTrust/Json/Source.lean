import ImageTrust.Json.Basic
import ImageTrust.Text.Utf8

/-!
JSON text as read, before anything is known about its expected shape. A text that breaks off or
goes wrong still has a tree: the part before the fault, with a broken leaf or an open end where the
fault is. So a reader that meets a wrong shape before the fault can report the shape.
-/

namespace ImageTrust.Json

/-- Why a text is not JSON: it ends too early, or it is not well formed. -/
inductive Fault where
  | ended
  | malformed
  deriving DecidableEq, Repr

/-- A number as written. Digits are kept as characters. -/
structure Literal where
  negative : Bool
  whole : List Char
  fraction : List Char
  /-- The sign and the digits of the exponent. -/
  power : Option (Bool × List Char)
  deriving DecidableEq, Repr

/-- How an array or object ends. -/
inductive Ending where
  | closed
  /-- The text ends right behind an item. -/
  | cut
  /-- Something else than a comma or the closing bracket follows, or nothing that may follow a comma.
  As in a broken leaf, the faults are those of a reader that wants the items and of one that skips
  them. -/
  | broken (wanted skipped : Fault)
  deriving DecidableEq, Repr

/-- The tree of a text. Strings and keys are kept as written between their quotes. -/
inductive Source where
  | null
  | bool (b : Bool)
  | number (literal : Literal)
  | string (raw : List Char)
  | array (items : List Source) (ending : Ending)
  | object (members : List (List Char × Source)) (ending : Ending)
  /-- No value: the fault met by a reader that wants it and by one that only skips it. -/
  | broken (wanted skipped : Fault)
  deriving Repr

/-- Holds of the four characters that may stand between tokens. -/
def isJsonBlank (c : Char) : Bool :=
  c = ' ' || c = '\n' || c = '\t' || c = '\r'

/-- The text from its first token on. -/
def skipBlanks (cs : List Char) : List Char :=
  cs.dropWhile isJsonBlank

/-- The value of a hexadecimal digit of either case. -/
def hexValue? (c : Char) : Option Nat :=
  let n := c.toNat
  if 48 ≤ n && n ≤ 57 then some (n - 48)
  else if 97 ≤ n && n ≤ 102 then some (n - 87)
  else if 65 ≤ n && n ≤ 70 then some (n - 55)
  else none

/-- The value of four hexadecimal digits at the front and what follows them. A text with fewer than
four octets left has ended, whatever they are. -/
def hex4 (cs : List Char) : Except Fault (Nat × List Char) :=
  match cs with
  | a :: b :: c :: d :: rest =>
    match hexValue? a, hexValue? b, hexValue? c, hexValue? d with
    | some a, some b, some c, some d => .ok (a * 4096 + b * 256 + c * 16 + d, rest)
    | _, _, _, _ => .error .malformed
  | short => if (Text.encodeChars short).length < 4 then .error .ended else .error .malformed

def simpleEscape? (c : Char) : Option Char :=
  if c = '"' then some '"'
  else if c = '\\' then some '\\'
  else if c = '/' then some '/'
  else if c = 'b' then some '\x08'
  else if c = 'f' then some '\x0c'
  else if c = 'n' then some '\n'
  else if c = 'r' then some '\r'
  else if c = 't' then some '\t'
  else none

/-- The character of a `u` escape, whose digits are at the front. A high surrogate takes the low
surrogate of the escape behind it; a surrogate without its partner is no character. -/
def unicodeChar (cs : List Char) : Except Fault (Char × List Char) := do
  let (n, rest) ← hex4 cs
  if 0xdc00 ≤ n && n ≤ 0xdfff then .error .malformed
  else if 0xd800 ≤ n && n ≤ 0xdbff then
    match rest with
    | [] => .error .ended
    | '\\' :: [] => .error .ended
    | '\\' :: 'u' :: rest =>
      let (m, rest) ← hex4 rest
      if 0xdc00 ≤ m && m ≤ 0xdfff then
        return (Char.ofNat (0x10000 + (n - 0xd800) * 0x400 + (m - 0xdc00)), rest)
      else .error .malformed
    | _ => .error .malformed
  else return (Char.ofNat n, rest)

/-- Resolves the escapes of a string; `out` holds the characters so far, last first. -/
def unescapeLoop : (fuel : Nat) → (out : List Char) → List Char → Except Fault (List Char)
  | 0, out, _ => .ok out.reverse
  | _ + 1, out, [] => .ok out.reverse
  | fuel + 1, out, c :: rest =>
    if c = '\\' then
      match rest with
      | [] => .error .ended
      | e :: rest =>
        if e = 'u' then
          match unicodeChar rest with
          | .ok (ch, rest) => unescapeLoop fuel (ch :: out) rest
          | .error fault => .error fault
        else
          match simpleEscape? e with
          | some ch => unescapeLoop fuel (ch :: out) rest
          | none => .error .malformed
    else unescapeLoop fuel (c :: out) rest

/-- The characters that a string between its quotes stands for. -/
def unescape (raw : List Char) : Except Fault (List Char) :=
  unescapeLoop raw.length [] raw

/-- The text of a closed string as written, unless an escape in it stands for no character. -/
def Source.textOf? (raw : List Char) : Option String :=
  ((unescape raw).map String.ofList).toOption

/-- A string behind its opening quote: its raw characters and the rest behind the closing quote, or
the fault with the raw characters before it. `seen` holds them last first. -/
def scanString : (seen : List Char) → List Char → Except (Fault × List Char) (List Char × List Char)
  | seen, [] => .error (.ended, seen.reverse)
  | seen, '"' :: rest => .ok (seen.reverse, rest)
  | seen, ['\\'] => .error (.ended, ('\\' :: seen).reverse)
  | seen, '\\' :: 'u' :: rest =>
    match rest with
    | a :: b :: c :: d :: rest' =>
      if (hexValue? a).isSome && (hexValue? b).isSome && (hexValue? c).isSome
          && (hexValue? d).isSome then
        scanString (d :: c :: b :: a :: 'u' :: '\\' :: seen) rest'
      else .error (.malformed, ('u' :: '\\' :: seen).reverse ++ rest)
    | short =>
      .error (if (Text.encodeChars short).length < 4 then .ended else .malformed,
        ('u' :: '\\' :: seen).reverse ++ short)
  | seen, '\\' :: e :: rest =>
    if (simpleEscape? e).isSome then scanString (e :: '\\' :: seen) rest
    else .error (.malformed, (e :: '\\' :: seen).reverse)
  | seen, c :: rest =>
    if c.toNat < 0x20 then .error (.malformed, seen.reverse) else scanString (c :: seen) rest

/-- A string behind its opening quote. In a string that does not close, a reader that wants its text
meets a surrogate without partner first. -/
def readString (cs : List Char) : Except Source (List Char × List Char) :=
  match scanString [] cs with
  | .ok found => .ok found
  | .error (fault, raw) =>
    let wanted :=
      match unescape raw with
      | .error .malformed => .malformed
      | _ => fault
    .error (.broken wanted fault)

/-- A leaf where digits are missing: a text that ends there has ended for a reader that wants the
number and is malformed for one that skips it. -/
def missingDigits (rest : List Char) : Source :=
  .broken (if rest.isEmpty then .ended else .malformed) .malformed

/-- The exponent at the front, if any. -/
def readPower (cs : List Char) : Except Source (Option (Bool × List Char) × List Char) :=
  match cs with
  | c :: rest =>
    if c = 'e' || c = 'E' then
      let (negative, rest) :=
        match rest with
        | '+' :: rest => (false, rest)
        | '-' :: rest => (true, rest)
        | rest => (false, rest)
      let digits := rest.takeWhile Char.isDigit
      if digits.isEmpty then .error (missingDigits rest)
      else .ok (some (negative, digits), rest.dropWhile Char.isDigit)
    else .ok (none, cs)
  | [] => .ok (none, [])

/-- The fraction at the front, if any. -/
def readFraction (cs : List Char) : Except Source (List Char × List Char) :=
  match cs with
  | '.' :: rest =>
    let digits := rest.takeWhile Char.isDigit
    if digits.isEmpty then .error (missingDigits rest)
    else .ok (digits, rest.dropWhile Char.isDigit)
  | cs => .ok ([], cs)

/-- A number behind its sign. A zero may not stand before another digit. -/
def readNumber (negative : Bool) (cs : List Char) : Except Source (Literal × List Char) := do
  let whole := cs.takeWhile Char.isDigit
  if whole.isEmpty then .error (missingDigits cs)
  else if whole.length > 1 && whole.head? = some '0' then .error (.broken .malformed .malformed)
  else
    let (fraction, rest) ← readFraction (cs.dropWhile Char.isDigit)
    let (power, rest) ← readPower rest
    return (⟨negative, whole, fraction, power⟩, rest)

/-- Drops the expected letters, or says how they fail. -/
def readWord : (word : List Char) → List Char → Except Source (List Char)
  | [], cs => .ok cs
  | _ :: _, [] => .error (.broken .ended .ended)
  | w :: ws, c :: cs => if w = c then readWord ws cs else .error (.broken .malformed .malformed)

/-- A value with the text behind it, or `none` behind a value that is or holds a broken leaf. -/
abbrev Read (α : Type) := α × Option (List Char)

/-- A leaf, from a step that finds it or a broken leaf in its place. -/
def leaf (found : Except Source (Source × List Char)) : Read Source :=
  match found with
  | .ok (s, rest) => (s, some rest)
  | .error broken => (broken, none)

mutual
/-- The value at the front; `fuel` bounds the tokens. -/
def readValue : (fuel : Nat) → List Char → Read Source
  | 0, _ => (.broken .ended .ended, none)
  | fuel + 1, cs =>
    match skipBlanks cs with
    | [] => (.broken .ended .ended, none)
    | c :: rest =>
      if c = '"' then leaf ((readString rest).map fun (raw, rest) => (.string raw, rest))
      else if c = '[' then
        let (items, ending, rest) := readItems fuel true rest
        (.array items ending, rest)
      else if c = '\x7b' then
        let (members, ending, rest) := readMembers fuel true rest
        (.object members ending, rest)
      else if c = 'n' then leaf ((readWord ['u', 'l', 'l'] rest).map (.null, ·))
      else if c = 't' then leaf ((readWord ['r', 'u', 'e'] rest).map (.bool true, ·))
      else if c = 'f' then leaf ((readWord ['a', 'l', 's', 'e'] rest).map (.bool false, ·))
      else if c = '-' then leaf ((readNumber true rest).map fun (n, rest) => (.number n, rest))
      else if c.isDigit then
        leaf ((readNumber false (c :: rest)).map fun (n, rest) => (.number n, rest))
      else (.broken .malformed .malformed, none)

/-- The items of an array from its start (`first`) or from behind an item, up to its end. -/
def readItems : (fuel : Nat) → (first : Bool) → List Char → List Source × Ending × Option (List Char)
  | 0, _, _ => ([], .cut, none)
  | fuel + 1, first, cs =>
    match skipBlanks cs with
    | [] => ([], .cut, none)
    | ']' :: rest => ([], .closed, some rest)
    | c :: rest =>
      if first then readItem fuel (c :: rest)
      else if c = ',' then
        match skipBlanks rest with
        | [] => ([], .broken .ended .ended, none)
        | ']' :: _ => ([], .broken .malformed .malformed, none)
        | d :: rest => readItem fuel (d :: rest)
      else ([], .broken .malformed .malformed, none)

/-- An item and those behind it. -/
def readItem : (fuel : Nat) → List Char → List Source × Ending × Option (List Char)
  | 0, _ => ([], .cut, none)
  | fuel + 1, cs =>
    match readValue fuel cs with
    | (item, none) => ([item], .cut, none)
    | (item, some rest) =>
      let (items, ending, rest) := readItems fuel false rest
      (item :: items, ending, rest)

/-- The members of an object from its start (`first`) or from behind a member, up to its end. -/
def readMembers : (fuel : Nat) → (first : Bool) → List Char →
    List (List Char × Source) × Ending × Option (List Char)
  | 0, _, _ => ([], .cut, none)
  | fuel + 1, first, cs =>
    match skipBlanks cs with
    | [] => ([], .cut, none)
    | '\x7d' :: rest => ([], .closed, some rest)
    | c :: rest =>
      if first then readMember fuel (c :: rest)
      else if c = ',' then
        match skipBlanks rest with
        | [] => ([], .broken .ended .ended, none)
        | d :: rest => readMember fuel (d :: rest)
      else ([], .broken .malformed .malformed, none)

/-- A member and those behind it. The value of a key without colon is a broken leaf. -/
def readMember : (fuel : Nat) → List Char → List (List Char × Source) × Ending × Option (List Char)
  | 0, _ => ([], .cut, none)
  | fuel + 1, cs =>
    match cs with
    | '"' :: rest =>
      match readString rest with
      | .error (.broken wanted skipped) => ([], .broken wanted skipped, none)
      | .error _ => ([], .cut, none)
      | .ok (key, rest) =>
        match skipBlanks rest with
        | [] => ([(key, .broken .ended .ended)], .cut, none)
        | ':' :: rest =>
          match readValue fuel rest with
          | (value, none) => ([(key, value)], .cut, none)
          | (value, some rest) =>
            let (members, ending, rest) := readMembers fuel false rest
            ((key, value) :: members, ending, rest)
        | _ => ([(key, .broken .malformed .malformed)], .cut, none)
    | _ => ([], .broken .malformed .malformed, none)
end

/-- A document: its value, and whether only blanks follow it. -/
structure Document where
  value : Source
  alone : Bool

/-- The document of a text. Each character takes at most three steps. -/
def readDocument (cs : List Char) : Document :=
  let (value, rest) := readValue (3 * cs.length + 3) cs
  ⟨value, (skipBlanks (rest.getD [])).isEmpty⟩

/-- The characters of octets, in which each octet that is not UTF-8 becomes an unpaired surrogate
escape: a reader may skip a string that holds it, but finds no text in it. `fuel` bounds the steps
and `out` holds the characters so far, last first. -/
def lenientLoop : (fuel : Nat) → (out : List Char) → Octets → List Char
  | 0, out, _ => out.reverse
  | _ + 1, out, [] => out.reverse
  | fuel + 1, out, b :: rest =>
    match Text.decodeChar? (b :: rest) with
    | some (c, rest) => lenientLoop fuel (c :: out) rest
    | none =>
      if out.head? = some '\\' then lenientLoop fuel ('\x00' :: out) rest
      else lenientLoop fuel ('0' :: '0' :: '8' :: 'd' :: 'u' :: '\\' :: out) rest

def readOctets (bs : Octets) : Document :=
  readDocument (lenientLoop bs.length [] bs)

end ImageTrust.Json
