import ImageTrust.Url.Percent
import ImageTrust.Url.Punycode

/-!
Hosts of URLs: names, addresses of four octets, and addresses of eight pieces. Where a scheme has
special rules, a name whose last part looks like a number is an address or nothing, and a name
beyond ASCII is written in ASCII.
-/

namespace ImageTrust.Url

inductive Host where
  | domain (name : String)
  | ipv4 (address : Nat)
  | ipv6 (pieces : List Nat)
  deriving DecidableEq, Repr

/-- Why a text is not a URL. -/
inductive Fault where
  | relative
  | relativeToOpaque
  | emptyHost
  | invalidPort
  | invalidIpv4
  | invalidIpv6
  | invalidDomainCharacter
  | invalidInternational
  deriving DecidableEq, Repr

def Fault.message : Fault → String
  | .relative => "relative URL without a base"
  | .relativeToOpaque => "relative URL with a cannot-be-a-base base"
  | .emptyHost => "empty host"
  | .invalidPort => "invalid port number"
  | .invalidIpv4 => "invalid IPv4 address"
  | .invalidIpv6 => "invalid IPv6 address"
  | .invalidDomainCharacter => "invalid domain character"
  | .invalidInternational => "invalid international domain name"

def splitAt (sep : Char) (piece : List Char) : List Char → List (List Char)
  | [] => [piece.reverse]
  | c :: cs => if c = sep then piece.reverse :: splitAt sep [] cs else splitAt sep (c :: piece) cs

def numeral? (base : Nat) (cs : List Char) : Option Nat :=
  cs.foldlM (fun n c => do
    let v ← hexValue? c
    if v < base then some (n * base + v) else none) 0

/-- The number that a part of an address stands for, in decimal, octal or hexadecimal. -/
def addressPart? (cs : List Char) : Option Nat :=
  match cs with
  | [] => none
  | '0' :: 'x' :: rest | '0' :: 'X' :: rest => numeral? 16 rest
  | '0' :: c :: rest => numeral? 8 (c :: rest)
  | cs => numeral? 10 cs

/-- Drops an empty last part, which a dot at the end leaves. -/
def withoutEmptyEnd (parts : List (List Char)) : List (List Char) :=
  if parts.getLast? = some [] then parts.dropLast else parts

/-- Whether the last part of a name, before a dot at its end, is a number. -/
def endsInNumber (name : List Char) : Bool :=
  match (withoutEmptyEnd (splitAt '.' [] name)).getLast? with
  | some last => (!last.isEmpty && last.all Char.isDigit) || (addressPart? last).isSome
  | none => false

/-- Reads an address of up to four parts; the last part fills all octets that are left. -/
def ipv4? (name : List Char) : Option Nat := do
  let parts ← (withoutEmptyEnd (splitAt '.' [] name)).mapM addressPart?
  let last ← parts.getLast?
  let front := parts.dropLast
  if front.length > 3 || front.any (· > 255) || last ≥ Nat.pow 256 (4 - front.length) then none
  let shifted := front.zipIdx.map fun (n, i) => n * Nat.pow 256 (3 - i)
  some (shifted.foldl (· + ·) last)

/-- An octet in decimal without leading zeros. -/
def strictOctet? (cs : List Char) : Option Nat := do
  if cs.isEmpty || (cs.head? = some '0' && cs.length > 1) || !cs.all Char.isDigit then none
  let n ← numeral? 10 cs
  if n ≤ 255 then some n else none

/-- The pieces of one side of an address of eight; four octets may stand for the last two. -/
def pieces? (dotted : Bool) (cs : List Char) : Option (List Nat) :=
  if cs.isEmpty then some []
  else
    let parts := splitAt ':' [] cs
    let single (p : List Char) : Option (List Nat) :=
      if p.isEmpty || p.length > 4 then none else (numeral? 16 p).map ([·])
    let last (p : List Char) : Option (List Nat) :=
      if dotted && p.contains '.' then do
        match ← (splitAt '.' [] p).mapM strictOctet? with
        | [a, b, c, d] => some [a * 256 + b, c * 256 + d]
        | _ => none
      else single p
    match parts.getLast? with
    | some p => do
      let front ← parts.dropLast.mapM single
      some (front.flatten ++ (← last p))
    | none => none

/-- Splits at the first double colon. -/
def splitGap? (before : List Char) : List Char → Option (List Char × List Char)
  | ':' :: ':' :: rest => some (before.reverse, rest)
  | c :: rest => splitGap? (c :: before) rest
  | [] => none

/-- Reads an address of eight pieces, of which a double colon stands for one or more zeros. -/
def ipv6? (cs : List Char) : Option (List Nat) :=
  match splitGap? [] cs with
  | none => do
    let all ← pieces? true cs
    if all.length = 8 then some all else none
  | some (left, right) => do
    let left ← pieces? false left
    let right ← pieces? true right
    if left.length + right.length > 7 then none
    some (left ++ List.replicate (8 - left.length - right.length) 0 ++ right)

def hexText (n : Nat) : List Char :=
  Nat.toDigits 16 n

/-- The length of the run of zeros at the front. -/
def zeroRun (pieces : List Nat) : Nat :=
  (pieces.takeWhile (· = 0)).length

/-- The first longest run of at least two zeros, as its place and length. -/
def longestRun (pieces : List Nat) : Option (Nat × Nat) :=
  (List.range pieces.length).foldl (fun best i =>
    let n := zeroRun (pieces.drop i)
    match best with
    | some (_, m) => if n > m then some (i, n) else best
    | none => if n ≥ 2 then some (i, n) else none) none

/-- Pieces between colons. -/
def piecesText (pieces : List Nat) : List Char :=
  [':'].intercalate (pieces.map hexText)

/-- An address of eight pieces with its longest run of zeros left out. -/
def ipv6Text (pieces : List Nat) : List Char :=
  match longestRun pieces with
  | some (i, n) => piecesText (pieces.take i) ++ "::".toList ++ piecesText (pieces.drop (i + n))
  | none => piecesText pieces

def Host.text : Host → String
  | .domain name => name
  | .ipv4 address =>
    String.intercalate "." ([3, 2, 1, 0].map fun i => toString (address / Nat.pow 256 i % 256))
  | .ipv6 pieces => "[" ++ String.ofList (ipv6Text pieces) ++ "]"

/-- Holds of the ASCII characters that no name may contain. -/
def isForbidden (c : Char) : Bool :=
  c.toNat ≤ 0x20 || c.toNat = 0x7f
    || ['%', '#', '/', ':', '<', '>', '?', '@', '[', '\\', ']', '^', '|'].contains c

/-- The form under which a character of a name is looked up: letters in lower case, wide forms as
plain ones, and nothing for characters that are not seen. Beyond ASCII this knows the capitals of the
first Latin supplement, Greek and Cyrillic; other characters stand for themselves. -/
def folded (c : Char) : List Char :=
  let n := c.toNat
  if n < 0x80 then [c.toLower]
  else if n = 0xad || n = 0x200b || n = 0x2060 || n = 0xfeff then []
  else if n = 0x3002 || n = 0xff0e || n = 0xff61 then ['.']
  else if 0xff01 ≤ n && n ≤ 0xff5e then [(Char.ofNat (n - 0xfee0)).toLower]
  else if (0xc0 ≤ n && n ≤ 0xde && n != 0xd7) || (0x391 ≤ n && n ≤ 0x3a9)
    || (0x410 ≤ n && n ≤ 0x42f) then [Char.ofNat (n + 32)]
  else if 0x400 ≤ n && n ≤ 0x40f then [Char.ofNat (n + 80)]
  else [c]

/-- Holds of the characters beyond ASCII that no name may contain. -/
def isUnassignable (c : Char) : Bool :=
  let n := c.toNat
  (0x80 ≤ n && n ≤ 0x9f) || n = 0xfffd || (0x2000 ≤ n && n ≤ 0x206f) || (0xe000 ≤ n && n ≤ 0xf8ff)
    || (0xfff0 ≤ n && n ≤ 0xffff) || n ≥ 0xe0000

def asciiLabel? (label : List Char) : Option (List Char) :=
  if label.any isUnassignable then none
  else if label.any (·.toNat ≥ 0x80) then some ("xn--".toList ++ Punycode.encode label)
  else
    match label with
    | 'x' :: 'n' :: '-' :: '-' :: rest => do
      let shown ← Punycode.decode? rest
      if shown.any (·.toNat ≥ 0x80) && !shown.any isUnassignable && Punycode.encode shown = rest then
        some label
      else none
    | _ => some label

def asciiName? (octets : Octets) : Option (List Char) := do
  let s ← Text.decode? octets
  let cs := s.toList.flatMap folded
  if cs.any isForbidden then none
  let labels ← (splitAt '.' [] cs).mapM asciiLabel?
  some (['.'].intercalate labels)

/-- Reads an address in brackets, given what follows the first. -/
def bracketed (cs : List Char) : Except Fault Host :=
  if cs.getLast? = some ']' then
    match ipv6? cs.dropLast with
    | some pieces => .ok (.ipv6 pieces)
    | none => .error .invalidIpv6
  else .error .invalidIpv6

/-- Reads the host of a scheme with special rules. -/
def Host.special (cs : List Char) : Except Fault Host :=
  match cs with
  | '[' :: rest => bracketed rest
  | cs =>
    match asciiName? (percentDecode cs) with
    | none => .error .invalidInternational
    | some [] => .error .emptyHost
    | some name =>
      if endsInNumber name then
        match ipv4? name with
        | some address => .ok (.ipv4 address)
        | none => .error .invalidIpv4
      else .ok (.domain (String.ofList name))

/-- Holds of the characters that a host of any other scheme may not contain. -/
def isForbiddenOpaque (c : Char) : Bool :=
  ['\x00', '\t', '\n', '\r', ' ', '#', '/', ':', '<', '>', '?', '@', '[', '\\', ']', '^',
    '|'].contains c

/-- Reads the host of any other scheme, which is kept as it is written. -/
def Host.opaqueName (cs : List Char) : Except Fault Host :=
  match cs with
  | '[' :: rest => bracketed rest
  | cs =>
    if cs.any isForbiddenOpaque then .error .invalidDomainCharacter
    else .ok (.domain (String.ofList (percentEncode isControl cs)))

end ImageTrust.Url
