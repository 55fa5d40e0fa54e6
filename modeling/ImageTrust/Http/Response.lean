import ImageTrust.Text.Blank
import ImageTrust.Text.Utf8

/-!
Responses as they come over a connection that is closed behind them. A response has a status line,
headers and a body, whose end is told by its chunks, by a declared length, or by the end of the
connection. Interim responses are passed over. What is declared but does not come makes a body
incomplete; its first part is still there.
-/

namespace ImageTrust

/-- A response. The body is what came; it is complete if nothing of it is missing, and then it is as
long as was declared. -/
structure HttpResponse where
  status : Nat
  declared : Option Nat
  body : Octets
  isComplete : Bool
  measured : isComplete = true → ∀ n, declared = some n → body.length = n
  deriving DecidableEq, Repr

namespace HttpResponse

/-- The first line without its end, and what follows. -/
def line? (bs : Octets) : Option (Octets × Octets) :=
  match bs.dropWhile (· != 10) with
  | _ :: rest =>
    let content := bs.takeWhile (· != 10)
    some (if content.getLast? = some 13 then content.dropLast else content, rest)
  | [] => none

def dropEmptyLines : Octets → Octets
  | 13 :: 10 :: bs => dropEmptyLines bs
  | 10 :: bs => dropEmptyLines bs
  | bs => bs

/-- Holds of octets that may stand in a reason or in the value of a header. -/
def isTextOctet (b : UInt8) : Bool :=
  b = 9 || (0x20 ≤ b && b != 0x7f)

def decimal? (bs : Octets) : Option Nat :=
  if bs.isEmpty then none
  else bs.foldlM (fun n b => if 48 ≤ b && b ≤ 57 then some (n * 10 + (b.toNat - 48)) else none) 0

/-- What a status line says: whether the version is 1.0, and the status. -/
def statusLine? (bs : Octets) : Option (Bool × Nat) := do
  let version := bs.take 9
  let old ← if version = Text.encode "HTTP/1.0 " then some true
    else if version = Text.encode "HTTP/1.1 " then some false
    else none
  let rest := bs.drop 9
  let code := rest.take 3
  let n ← decimal? code
  if code.length < 3 || n < 100 then none
  else
    match rest.drop 3 with
    | [] => some (old, n)
    | b :: reason => if b = 32 && reason.all isTextOctet then some (old, n) else none

def isNameOctet (b : UInt8) : Bool :=
  let c := Char.ofNat b.toNat
  c.isAlphanum || "!#$%&'*+-.^_|~".toList.contains c || b = 0x60

def dropBlanks (bs : Octets) : Octets :=
  bs.dropWhile fun b => b = 32 || b = 9

def trimBlanks (bs : Octets) : Octets :=
  (dropBlanks (dropBlanks bs).reverse).reverse

def lower (bs : Octets) : Octets :=
  bs.map fun b => if 65 ≤ b && b ≤ 90 then b + 32 else b

/-- A header by its name in lower case and its value. -/
abbrev Header := Octets × Octets

def header? (bs : Octets) : Option Header :=
  let name := bs.takeWhile isNameOctet
  match bs.dropWhile isNameOctet with
  | 58 :: value =>
    let value := trimBlanks value
    if !name.isEmpty && value.all isTextOctet then some (lower name, value) else none
  | _ => none

/-- Headers up to an empty line, at most `left` of them, and what follows. -/
def headers? : (left : Nat) → Octets → Option (List Header × Octets)
  | left, bs => do
    let (content, rest) ← line? bs
    if content.isEmpty then some ([], rest)
    else
      match left with
      | 0 => none
      | left + 1 =>
        let h ← header? content
        let (hs, rest) ← headers? left rest
        some (h :: hs, rest)

def headerLimit : Nat := 100

/-- The values of the headers with a name, in order. -/
def valuesOf (name : String) (hs : List Header) : List Octets :=
  (hs.filter (·.1 = Text.encode name)).map (·.2)

def splitCommas (piece : Octets) : Octets → List Octets
  | [] => [piece.reverse]
  | b :: bs => if b = 44 then piece.reverse :: splitCommas [] bs else splitCommas (b :: piece) bs

/-- The items of values, which commas separate. -/
def itemsOf (values : List Octets) : List Octets :=
  values.flatMap fun v => (splitCommas [] v).map trimBlanks

/-- The length that values declare: all of them have to agree. -/
def declaredLength? (values : List Octets) : Option Nat := do
  match ← (itemsOf values).mapM decimal? with
  | n :: more => if more.all (· = n) && n < Nat.pow 2 64 - 2 then some n else none
  | [] => none

def hexValue? (b : UInt8) : Option Nat :=
  let n := b.toNat
  if 48 ≤ n && n ≤ 57 then some (n - 48)
  else if 97 ≤ n && n ≤ 102 then some (n - 87)
  else if 65 ≤ n && n ≤ 70 then some (n - 55)
  else none

/-- The size of a chunk and what follows its line. -/
def chunkSize? (bs : Octets) : Option (Nat × Octets) :=
  let isDigit (b : UInt8) : Bool := (hexValue? b).isSome
  let digits := bs.takeWhile isDigit
  let n := digits.foldl (fun n b => n * 16 + (hexValue? b).getD 0) 0
  if digits.isEmpty || Nat.pow 2 64 ≤ n then none
  else
    match dropBlanks (bs.dropWhile isDigit) with
    | 13 :: 10 :: rest => some (n, rest)
    | 59 :: rest =>
      if (rest.takeWhile (· != 13)).contains 10 then none
      else
        match rest.dropWhile (· != 13) with
        | 13 :: 10 :: rest => some (n, rest)
        | _ => none
    | _ => none

/-- The trailers up to and with the empty line; `found` holds the octets so far, last first. A
carriage return stands in front of a line feed only. -/
def trailers? (atLineStart : Bool) (found : Octets) : Octets → Option Octets
  | 13 :: 10 :: bs =>
    let found := 10 :: 13 :: found
    if atLineStart then some found.reverse else trailers? true found bs
  | b :: bs => if b = 13 then none else trailers? false (b :: found) bs
  | [] => none

/-- Whether the last chunk is followed by trailers and an empty line. -/
def endsChunks (bs : Octets) : Bool :=
  ((trailers? true [] bs).bind (headers? headerLimit)).isSome

/-- The content of chunks, and whether the last one came. `got` holds the chunks so far, last
first. -/
def chunks : (fuel : Nat) → (got : List Octets) → Octets → Octets × Bool
  | 0, got, _ => (got.reverse.flatten, false)
  | fuel + 1, got, bs =>
    match chunkSize? bs with
    | none => (got.reverse.flatten, false)
    | some (0, rest) => (got.reverse.flatten, endsChunks rest)
    | some (n, rest) =>
      let got := rest.take n :: got
      match rest.drop n with
      | 13 :: 10 :: rest => chunks fuel got rest
      | _ => (got.reverse.flatten, false)

/-- Whether the last coding of a body is by chunks. -/
def isChunked (codings : List Octets) : Bool :=
  match (itemsOf codings).getLast? with
  | some coding => lower coding = Text.encode "chunked"
  | none => false

/-- A response whose body ends after a declared length. -/
def delimited (status n : Nat) (bs : Octets) : HttpResponse where
  status := status
  declared := some n
  body := bs.take n
  isComplete := n ≤ bs.length
  measured := by
    intro hcomplete m hm
    cases hm
    exact List.length_take_of_le (of_decide_eq_true hcomplete)

/-- A response that does not tell the length of its body. -/
def undeclared (status : Nat) (body : Octets) (isComplete : Bool) : HttpResponse where
  status := status
  declared := none
  body := body
  isComplete := isComplete
  measured := nofun

def withBody (old : Bool) (status : Nat) (hs : List Header) (bs : Octets) : Option HttpResponse :=
  let codings := valuesOf "transfer-encoding" hs
  let lengths := valuesOf "content-length" hs
  if [101, 204, 304].contains status then some (delimited status 0 [])
  else if !codings.isEmpty then
    if old then none
    else if isChunked codings then
      let (content, complete) := chunks bs.length [] bs
      some (undeclared status content complete)
    else some (undeclared status bs true)
  else if !lengths.isEmpty then (declaredLength? lengths).map fun n => delimited status n bs
  else some (undeclared status bs true)

/-- Reads a response; interim ones in front of it are passed over. -/
def readLoop : (fuel : Nat) → Octets → Option HttpResponse
  | 0, _ => none
  | fuel + 1, bs => do
    let (first, rest) ← line? (dropEmptyLines bs)
    let (old, status) ← statusLine? first
    let (hs, rest) ← headers? headerLimit rest
    if status < 200 && status != 101 then readLoop fuel rest else withBody old status hs rest

/-- Reads the response at the beginning of what came. -/
def ofOctets? (bs : Octets) : Option HttpResponse :=
  readLoop bs.length bs

def isSuccess (r : HttpResponse) : Bool :=
  200 ≤ r.status && r.status ≤ 299

/-- Why a body is not taken. -/
inductive BodyFault where
  | tooLarge
  | incomplete
  deriving DecidableEq, Repr

def BodyFault.message : BodyFault → String
  | .tooLarge => "response exceeds size limit"
  | .incomplete => "failed to read response"

/-- The most octets that a length counts. -/
def countLimit : Nat := Nat.pow 2 64 - 1

/-- What a reader gets that asks for `bound` octets at most. Only one that comes to the place from
where on the rest is missing learns that a body is incomplete. -/
def readUpTo (bound : Nat) (r : HttpResponse) : Except BodyFault Octets :=
  if r.body.length < bound && !r.isComplete then .error .incomplete else .ok (r.body.take bound)

/-- The whole body, if it is not larger than a limit. A reader that asks for one octet more than that
sees whether it is. -/
def wholeBody (limit : Nat) (r : HttpResponse) : Except BodyFault Octets := do
  if limit < r.declared.getD 0 then throw .tooLarge
  let octets ← r.readUpTo (min (limit + 1) countLimit)
  if limit < octets.length then throw .tooLarge
  return octets

end HttpResponse

end ImageTrust
