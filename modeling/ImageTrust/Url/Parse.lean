import ImageTrust.Url.Basic

/-!
Reading URLs. Blanks at both ends and line breaks and tabs anywhere are ignored. A text without a
scheme is read in relation to a base. Dots as segments are resolved while the path is read.
-/

namespace ImageTrust.Url

/-- Drops control characters and spaces at both ends, and line breaks and tabs everywhere. -/
def cleaned (s : String) : List Char :=
  let blank (c : Char) : Bool := c.toNat ≤ 0x20
  let inner := ((s.toList.dropWhile blank).reverse.dropWhile blank).reverse
  inner.filter fun c => c != '\t' && c != '\n' && c != '\r'

/-- The scheme in lower case and what follows its colon. -/
def scheme? (cs : List Char) : Option (String × List Char) :=
  let isPart (c : Char) : Bool := c.isAlphanum || c = '+' || c = '-' || c = '.'
  match cs with
  | c :: _ =>
    let name := cs.takeWhile isPart
    match cs.dropWhile isPart with
    | ':' :: rest =>
      if c.isAlpha then some (String.ofList (name.map Char.toLower), rest) else none
    | _ => none
  | [] => none

/-- Whether a character separates segments. -/
def isSlash (special : Bool) (c : Char) : Bool :=
  c = '/' || (special && c = '\\')

/-- Whether a character ends the part before the path. -/
def endsAuthority (special : Bool) (c : Char) : Bool :=
  isSlash special c || c = '?' || c = '#'

/-- Whether a segment means the one above. -/
def isDoubleDot (segment : List Char) : Bool :=
  ["..", ".%2e", "%2e.", "%2e%2e"].contains (String.ofList (segment.map Char.toLower))

/-- Whether a segment means the one it stands in. -/
def isSingleDot (segment : List Char) : Bool :=
  [".", "%2e"].contains (String.ofList (segment.map Char.toLower))

def splitPath (special : Bool) (piece : List Char) : List Char → List (List Char)
  | [] => [piece.reverse]
  | c :: cs =>
    if isSlash special c then piece.reverse :: splitPath special [] cs
    else splitPath special (c :: piece) cs

/-- Puts segments behind those of `above`, whose last comes first. -/
def resolve (above : List String) : List (List Char) → List String
  | [] => above.reverse
  | [last] =>
    (if isDoubleDot last then "" :: above.drop 1
      else if isSingleDot last then "" :: above
      else String.ofList (percentEncode inPathSet last) :: above).reverse
  | s :: rest =>
    if isDoubleDot s then resolve (above.drop 1) rest
    else if isSingleDot s then resolve above rest
    else resolve (String.ofList (percentEncode inPathSet s) :: above) rest

/-- Reads a path without its first slash, behind the segments of `above`. -/
def readPath (special : Bool) (above : List String) (cs : List Char) : Path :=
  .segments (resolve above (splitPath special [] cs))

/-- Splits off what follows the first occurrence of a character. -/
def splitMark (mark : Char) (cs : List Char) : List Char × Option (List Char) :=
  match cs.dropWhile (· != mark) with
  | _ :: rest => (cs.takeWhile (· != mark), some rest)
  | [] => (cs, none)

/-- What a text holds before its query, its query and its fragment. -/
structure Tail where
  front : List Char
  query : Option String
  fragment : Option String

def Tail.ofChars (special : Bool) (cs : List Char) : Tail :=
  let (front, fragment) := splitMark '#' cs
  let (front, query) := splitMark '?' front
  let set := if special then inSpecialQuerySet else inQuerySet
  ⟨front, query.map fun q => String.ofList (percentEncode set q),
    fragment.map fun f => String.ofList (percentEncode inFragmentSet f)⟩

/-- The user name, the password and what follows them. -/
def readUser (special : Bool) (cs : List Char) :
    Except Fault (String × String × List Char) :=
  let authority := cs.takeWhile (!endsAuthority special ·)
  let behind := cs.dropWhile (!endsAuthority special ·)
  let host := (authority.reverse.takeWhile (· != '@')).reverse
  match (authority.reverse.dropWhile (· != '@')).reverse with
  | [] => .ok ("", "", cs)
  | marked =>
    let user := marked.dropLast
    if host.isEmpty && !behind.isEmpty then .error .emptyHost
    else
      let (name, password) := splitMark ':' user
      let encode (cs : List Char) : String := String.ofList (percentEncode inUserSet cs)
      .ok (encode name, encode (password.getD []), host ++ behind)

/-- Splits a host from what follows it; a colon in brackets belongs to the host. -/
def splitHost (special : Bool) (inside : Bool) (read : List Char) :
    List Char → List Char × List Char
  | [] => (read.reverse, [])
  | c :: cs =>
    if (c = ':' && !inside) || endsAuthority special c then (read.reverse, c :: cs)
    else
      let inside := if c = '[' then true else if c = ']' then false else inside
      splitHost special inside (c :: read) cs

def readPort (scheme : String) (cs : List Char) : Except Fault (Option Nat × List Char) :=
  let digits := cs.takeWhile Char.isDigit
  let rest := cs.dropWhile Char.isDigit
  let n := digits.foldl (fun n d => min 65536 (n * 10 + (d.toNat - 48))) 0
  let ends := match rest with
    | [] => true
    | c :: _ => endsAuthority true c
  if n > 65535 || !ends then .error .invalidPort
  else if digits.isEmpty || defaultPort? scheme = some n then .ok (none, rest)
  else .ok (some n, rest)

def readPathStart (special : Bool) (cs : List Char) : Path :=
  match cs with
  | [] => if special then .segments [""] else .segments []
  | c :: rest => readPath special [] (if isSlash special c then rest else cs)

/-- Reads what follows the two slashes of a scheme other than `file`. -/
def readAuthority (scheme : String) (cs : List Char) : Except Fault Url := do
  let special := isSpecialScheme scheme
  let (username, password, cs) ← readUser special cs
  let (name, rest) := splitHost special false [] cs
  if name.isEmpty && (special || rest.head? = some ':') then throw .emptyHost
  let host ← if special then Host.special name else Host.opaqueName name
  let (port, rest) ← match rest with
    | ':' :: rest => readPort scheme rest
    | rest => pure (none, rest)
  if name.isEmpty && !(username.isEmpty && password.isEmpty) then throw .emptyHost
  let tail := Tail.ofChars special rest
  return {
    scheme, username, password, host := some host, port
    path := readPathStart special tail.front, query := tail.query, fragment := tail.fragment }

/-- Reads what follows the colon of the scheme `file`. -/
def readFile (cs : List Char) : Except Fault Url := do
  let tail := Tail.ofChars true cs
  let (host, path) ← match tail.front with
    | a :: b :: rest =>
      if isSlash true a && isSlash true b then do
        let name := rest.takeWhile (!isSlash true ·)
        let host ← if name.isEmpty then pure (Host.domain "") else Host.special name
        let host := if host = .domain "localhost" then .domain "" else host
        pure (host, rest.dropWhile (!isSlash true ·))
      else pure (Host.domain "", a :: b :: rest)
    | front => pure (Host.domain "", front)
  return {
    scheme := "file", username := "", password := "", host := some host, port := none
    path := readPathStart true path, query := tail.query, fragment := tail.fragment }

/-- Reads what follows the colon of a scheme without special rules. -/
def readPlain (scheme : String) (cs : List Char) : Except Fault Url :=
  match cs with
  | '/' :: '/' :: rest => readAuthority scheme rest
  | cs =>
    let tail := Tail.ofChars false cs
    let path := match tail.front with
      | '/' :: rest => readPath false [] rest
      | front => .opaqueText (String.ofList (percentEncode isControl front))
    .ok {
      scheme, username := "", password := "", host := none, port := none
      path, query := tail.query, fragment := tail.fragment }

def ofText (s : String) : Except Fault Url :=
  let cs := cleaned s
  match scheme? cs with
  | none => .error .relative
  | some (scheme, rest) =>
    if scheme = "file" then readFile rest
    else if isSpecialScheme scheme then readAuthority scheme (rest.dropWhile (isSlash true))
    else readPlain scheme rest

/-- Puts a path, relative to the last segment, in place of that segment. The path begins with a
plain name. -/
def join (u : Url) (relative : String) : Except Fault Url :=
  match u.path with
  | .opaqueText _ => .error .relativeToOpaque
  | .segments names =>
    let tail := Tail.ofChars u.isSpecial (cleaned relative)
    let path := readPath u.isSpecial (names.reverse.drop 1) tail.front
    .ok { u with path, query := tail.query, fragment := tail.fragment }

/-- The URL of a text when its scheme is `https`. -/
def https? (s : String) : Option Url :=
  match ofText s with
  | .ok u => if u.scheme = "https" then some u else none
  | .error _ => none

end ImageTrust.Url
