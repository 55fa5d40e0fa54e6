/-!
Blank characters. `isBlank` is the Unicode White_Space property and `isAsciiBlank` its five members
that separate words in ASCII formats. `trim` removes blanks at both ends of a text and nothing else.
-/

namespace ImageTrust.Text

/-- Holds of the characters with the Unicode property White_Space. -/
def isBlank (c : Char) : Bool :=
  let n := c.toNat
  (0x09 ≤ n && n ≤ 0x0d) || n = 0x20 || n = 0x85 || n = 0xa0 || n = 0x1680
    || (0x2000 ≤ n && n ≤ 0x200a) || n = 0x2028 || n = 0x2029 || n = 0x202f
    || n = 0x205f || n = 0x3000

/-- Holds of space, tab, line feed, form feed and carriage return. -/
def isAsciiBlank (c : Char) : Bool :=
  c = ' ' || c = '\t' || c = '\n' || c = '\x0c' || c = '\r'

def isBlankOctet (b : UInt8) : Bool :=
  isAsciiBlank (Char.ofNat b.toNat)

/-- Drops characters from the end while they satisfy `p`. -/
def dropEndWhile (p : Char → Bool) (cs : List Char) : List Char :=
  (cs.reverse.dropWhile p).reverse

/-- The characters between the leading and the trailing blanks. -/
def trimChars (cs : List Char) : List Char :=
  dropEndWhile isBlank (cs.dropWhile isBlank)

def trim (s : String) : String :=
  String.ofList (trimChars s.toList)

def withoutAsciiBlanks (s : String) : String :=
  String.ofList (s.toList.filter (!isAsciiBlank ·))

/-- The nonempty pieces of the text between ASCII blanks, in order. -/
def words (s : String) : List String :=
  (go [] s.toList).map String.ofList
where
  /-- `pending` is the word being read, last character first. -/
  go (pending : List Char) : List Char → List (List Char)
    | [] => if pending.isEmpty then [] else [pending.reverse]
    | c :: cs =>
      if isAsciiBlank c then
        if pending.isEmpty then go [] cs else pending.reverse :: go [] cs
      else go (c :: pending) cs

/-- ASCII letters in lower case, every other character unchanged. -/
def lowerAscii (s : String) : String :=
  String.ofList (s.toList.map Char.toLower)

/-- Equality up to the case of ASCII letters. -/
def sameIgnoringAsciiCase (s t : String) : Bool :=
  lowerAscii s = lowerAscii t

end ImageTrust.Text
