import ImageTrust.Text.Cut

/-!
JSON values and their compact text. The text has no blank anywhere, and in its strings whatever the
grammar requires is escaped. `signerText` also escapes five characters that are unsafe inside web
pages: what stands between the escapes of a string is searched for them, piece by piece.
-/

namespace ImageTrust

/-- JSON values without fractions. The members of an object keep their order. -/
inductive Json where
  | null
  | bool (b : Bool)
  | int (n : Int)
  | str (s : String)
  | arr (items : List Json)
  | obj (members : List (String × Json))
  deriving Repr, Inhabited

namespace Json

def hexDigit (n : Nat) : Char :=
  if n < 10 then Char.ofNat (48 + n) else Char.ofNat (87 + n)

/-- A character as four hexadecimal digits behind a backslash and a `u`. -/
def unicodeEscape (c : Char) : List Char :=
  let n := c.toNat
  ['\\', 'u', hexDigit (n / 4096 % 16), hexDigit (n / 256 % 16), hexDigit (n / 16 % 16),
    hexDigit (n % 16)]

/-- The form of a character inside a string: quotes, backslashes and controls are escaped. -/
def escapeChar (c : Char) : List Char :=
  if c = '"' then ['\\', '"']
  else if c = '\\' then ['\\', '\\']
  else if c = '\x08' then ['\\', 'b']
  else if c = '\x0c' then ['\\', 'f']
  else if c = '\n' then ['\\', 'n']
  else if c = '\r' then ['\\', 'r']
  else if c = '\t' then ['\\', 't']
  else if c.toNat < 0x20 then unicodeEscape c
  else [c]

/-- Holds of the five characters that the signer's encoding escapes besides. -/
def isWebUnsafe (c : Char) : Bool :=
  c = '<' || c = '>' || c = '&' || c.toNat = 0x2028 || c.toNat = 0x2029

/-- A string between quotes, each character in the form that `escape` gives it. -/
def quotedWith (escape : Char → List Char) (s : String) : List Char :=
  '"' :: (s.toList.flatMap escape ++ ['"'])

/-- The escape of a character that may not stand for itself in a string. -/
def escape? (c : Char) : Option String :=
  if c = '"' || c = '\\' || c.toNat < 0x20 then some (String.ofList (escapeChar c)) else none

/-- The signer's escape of a character that is unsafe inside web pages. -/
def webEscape? (c : Char) : Option String :=
  if isWebUnsafe c then some (String.ofList (unicodeEscape c)) else none

/-- A string between quotes as the signer writes it. -/
def signerQuoted (s : String) : List Char :=
  '"' :: ((Text.cut escape? (Text.cut webEscape? id) s).toList ++ ['"'])

mutual
/-- The text of a value without blanks, given the form of strings. -/
def render (quoted : String → List Char) : Json → List Char
  | .null => ['n', 'u', 'l', 'l']
  | .bool true => ['t', 'r', 'u', 'e']
  | .bool false => ['f', 'a', 'l', 's', 'e']
  | .int n => (toString n).toList
  | .str s => quoted s
  | .arr [] => ['[', ']']
  | .arr (item :: rest) => '[' :: (render quoted item ++ (renderItems quoted rest ++ [']']))
  | .obj [] => ['\x7b', '\x7d']
  | .obj ((key, value) :: rest) =>
    '\x7b' :: (quoted key ++ ':' :: (render quoted value
      ++ (renderMembers quoted rest ++ ['\x7d'])))

/-- The items after the first, each behind a comma. -/
def renderItems (quoted : String → List Char) : List Json → List Char
  | [] => []
  | item :: rest => ',' :: (render quoted item ++ renderItems quoted rest)

/-- The members after the first, each behind a comma. -/
def renderMembers (quoted : String → List Char) : List (String × Json) → List Char
  | [] => []
  | (key, value) :: rest =>
    ',' :: (quoted key ++ ':' :: (render quoted value ++ renderMembers quoted rest))
end

def compact (v : Json) : String :=
  String.ofList (v.render (quotedWith escapeChar))

/-- The text that flavor signers hash. -/
def signerText (v : Json) : String :=
  String.ofList (v.render signerQuoted)

end Json

end ImageTrust
