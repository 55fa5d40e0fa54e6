/-!
Character classes of XML. The two editions of the language differ only in the control characters
that a document may hold; names are spelt alike in both.
-/

namespace ImageTrust.Xml

/-- The edition a document declares. -/
inductive Edition where
  | first
  | second
  deriving DecidableEq, Repr

/-- Holds of the four characters that separate tokens of markup. -/
def isBlank (c : Char) : Bool :=
  c = ' ' || c = '\n' || c = '\t' || c = '\r'

/-- Holds of the characters a name may begin with. -/
def isNameStart (c : Char) : Bool :=
  let n := c.toNat
  c = ':' || c = '_' || c.isAlpha
    || (0xc0 ≤ n && n ≤ 0xd6) || (0xd8 ≤ n && n ≤ 0xf6) || (0xf8 ≤ n && n ≤ 0x2ff)
    || (0x370 ≤ n && n ≤ 0x37d) || (0x37f ≤ n && n ≤ 0x1fff) || (0x200c ≤ n && n ≤ 0x200d)
    || (0x2070 ≤ n && n ≤ 0x218f) || (0x2c00 ≤ n && n ≤ 0x2fef) || (0x3001 ≤ n && n ≤ 0xd7ff)
    || (0xf900 ≤ n && n ≤ 0xfdcf) || (0xfdf0 ≤ n && n ≤ 0xfffd) || (0x10000 ≤ n && n ≤ 0xeffff)

/-- Holds of the characters a name may go on with. -/
def isNameChar (c : Char) : Bool :=
  let n := c.toNat
  isNameStart c || c = '-' || c = '.' || c.isDigit || n = 0xb7
    || (0x300 ≤ n && n ≤ 0x36f) || (0x203f ≤ n && n ≤ 0x2040)

/-- Holds of the control characters that the second edition admits only inside markup sections. -/
def isRestricted (c : Char) : Bool :=
  let n := c.toNat
  (0x01 ≤ n && n ≤ 0x08) || n = 0x0b || n = 0x0c || (0x0e ≤ n && n ≤ 0x1f)
    || (0x7f ≤ n && n ≤ 0x84) || (0x86 ≤ n && n ≤ 0x9f)

/-- Holds of the characters a document may hold in a comment, an instruction or a literal section. -/
def Edition.admits : Edition → Char → Bool
  | .first, c =>
    let n := c.toNat
    n = 0x09 || n = 0x0a || n = 0x0d || (0x20 ≤ n && n ≤ 0xfffd) || 0x10000 ≤ n
  | .second, c =>
    let n := c.toNat
    (0x01 ≤ n && n ≤ 0xfffd) || 0x10000 ≤ n

/-- Holds of the characters a document may hold in text and attribute values. -/
def Edition.admitsInText (e : Edition) (c : Char) : Bool :=
  e.admits c && (e = .first || !isRestricted c)

end ImageTrust.Xml
