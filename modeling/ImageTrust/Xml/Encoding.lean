import ImageTrust.Text.Utf8
import ImageTrust.Xml.Character

/-!
From the octets of a document to its characters. A byte order mark or the document's own declaration
names the encoding. What can be decoded is kept also when the octets go wrong further on, since the
part of a document before a fault may already hold what a caller looks for.
-/

namespace ImageTrust.Xml

/-- Character encodings of documents. -/
inductive Encoding where
  | utf8
  | latin1
  | ascii
  | utf16 (bigEndian : Bool)
  deriving DecidableEq, Repr

/-- Reads an ASCII text up to the first octet outside the repertoire. -/
def decodeAscii (bs : Octets) : Text.Decoded :=
  ⟨(bs.takeWhile (· < 0x80)).map fun b => Char.ofNat b.toNat, bs.all (· < 0x80)⟩

/-- Reads UTF-16 units and joins surrogate pairs; `high` is a first half that waits for its second. -/
def decodeUnits (bigEndian : Bool) (read : List Char) (high : Option Nat) : Octets → Text.Decoded
  | [] => ⟨read.reverse, high.isNone⟩
  | [_] => ⟨read.reverse, false⟩
  | a :: b :: rest =>
    let unit := if bigEndian then a.toNat * 256 + b.toNat else b.toNat * 256 + a.toNat
    match high with
    | some h =>
      if 0xdc00 ≤ unit && unit ≤ 0xdfff then
        let c := Char.ofNat (0x10000 + (h - 0xd800) * 1024 + (unit - 0xdc00))
        decodeUnits bigEndian (c :: read) none rest
      else ⟨read.reverse, false⟩
    | none =>
      if 0xd800 ≤ unit && unit ≤ 0xdbff then decodeUnits bigEndian read (some unit) rest
      else if 0xdc00 ≤ unit && unit ≤ 0xdfff then ⟨read.reverse, false⟩
      else decodeUnits bigEndian (Char.ofNat unit :: read) none rest

/-- The characters of octets in an encoding, up to the first that is not well formed. -/
def Encoding.decode : Encoding → Octets → Text.Decoded
  | .utf8, bs => Text.decode bs
  | .latin1, bs => ⟨bs.map fun b => Char.ofNat b.toNat, true⟩
  | .ascii, bs => decodeAscii bs
  | .utf16 bigEndian, bs => decodeUnits bigEndian [] none bs

/-- The encoding a byte order mark stands for, and the octets behind the mark. -/
def byteOrderMark : Octets → Option Encoding × Octets
  | 0xef :: 0xbb :: 0xbf :: rest => (some .utf8, rest)
  | 0xfe :: 0xff :: rest => (some (.utf16 true), rest)
  | 0xff :: 0xfe :: rest => (some (.utf16 false), rest)
  | bs => (none, bs)

/-- Labels agree when neither contradicts the other within their common length. -/
def agrees (label : String) (written : List Char) : Bool :=
  (label.toList.zip written).all fun (a, b) => a = b.toLower

/-- Encodings a declaration may name. -/
inductive Label where
  | utf8
  | latin1
  | utf16
  | ascii
  deriving DecidableEq, Repr

/-- The encoding a declaration names; the first that agrees is meant. -/
def Label.ofText? (written : List Char) : Option Label :=
  if ["utf-8", "utf8"].any (agrees · written) then some .utf8
  else if ["iso-8859-1", "latin1"].any (agrees · written) then some .latin1
  else if ["utf-16", "utf16"].any (agrees · written) then some .utf16
  else if ["ascii", "us-ascii"].any (agrees · written) then some .ascii
  else none

/-- The encoding to go on with, given the mark that was found; a label may not contradict the mark,
and units of two octets need one. -/
def Label.encoding? : Label → Option Encoding → Option Encoding
  | .utf8, none => some .utf8
  | .latin1, none => some .latin1
  | .ascii, none => some .ascii
  | .utf16, none => none
  | .utf8, some .utf8 => some .utf8
  | .utf16, some (.utf16 bigEndian) => some (.utf16 bigEndian)
  | _, some _ => none

/-- What the declaration at the head of a document says. -/
structure Declaration where
  edition : Edition
  label : Option Label
  deriving DecidableEq, Repr

def dropLead? : List Char → List Char → Option (List Char)
  | [], cs => some cs
  | l :: ls, c :: cs => if l = c then dropLead? ls cs else none
  | _ :: _, [] => none

/-- Reads `name = "value"` with either quote and returns the value and what follows. -/
def setting? (name : String) (cs : List Char) : Option (List Char × List Char) := do
  let cs ← dropLead? name.toList cs
  let cs ← dropLead? ['='] (cs.dropWhile isBlank)
  match cs.dropWhile isBlank with
  | quote :: cs =>
    if quote = '"' || quote = '\'' then
      let value := cs.takeWhile (· != quote)
      if value.any fun c => c = '<' || c = '&' then none
      else match cs.dropWhile (· != quote) with
        | _ :: rest => some (value, rest)
        | [] => none
    else none
  | [] => none

/-- What may follow a setting: nothing, or a blank and then more. -/
def afterSetting? : List Char → Option (List Char)
  | [] => some []
  | c :: cs => if isBlank c then some (cs.dropWhile isBlank) else none

/-- Reads the text between `<?xml` and `?>`. -/
def Declaration.ofChars? (cs : List Char) : Option Declaration := do
  let (version, cs) ← setting? "version" (cs.dropWhile isBlank)
  let edition ←
    if version = "1.0".toList then some Edition.first
    else if version = "1.1".toList then some Edition.second
    else none
  let cs ← afterSetting? cs
  let (label, cs) ←
    match setting? "encoding" cs with
    | some (written, rest) => do
      let label ← Label.ofText? written
      let rest ← afterSetting? rest
      pure (some label, rest)
    | none => some (none, cs)
  let cs ←
    match setting? "standalone" cs with
    | some (answer, rest) =>
      if answer = "yes".toList || answer = "no".toList then afterSetting? rest else none
    | none => some cs
  if cs.isEmpty then some ⟨edition, label⟩ else none

/-- Splits a text at the first `?>`, which belongs to neither part. -/
def splitAtClose? (before : List Char) : List Char → Option (List Char × List Char)
  | '?' :: '>' :: rest => some (before.reverse, rest)
  | c :: rest => splitAtClose? (c :: before) rest
  | [] => none

/-- The text between `<?xml` and `?>` and what follows, when a document begins with a declaration. -/
inductive Opening where
  | bare
  | declared (inner rest : List Char)
  | unclosed

/-- Looks for a declaration at the very beginning of the characters. -/
def Opening.ofChars (cs : List Char) : Opening :=
  match dropLead? "<?xml".toList cs with
  | some (c :: rest) =>
    if isBlank c then
      match splitAtClose? [] (c :: rest) with
      | some (inner, rest) => .declared inner rest
      | none => .unclosed
    else .bare
  | _ => .bare

/-- A document after its encoding is resolved: the characters behind the declaration, whether there
was one, and whether all octets could be read. -/
structure Manuscript where
  edition : Edition
  declared : Bool
  chars : List Char
  sound : Bool
  deriving DecidableEq, Repr

def Manuscript.unreadable : Manuscript :=
  ⟨.first, false, [], false⟩

def Manuscript.ofOctets (bs : Octets) : Manuscript :=
  let (mark, body) := byteOrderMark bs
  let first := (mark.getD .utf8).decode body
  match Opening.ofChars first.chars with
  | .bare => ⟨.first, false, first.chars, first.sound⟩
  | .unclosed => .unreadable
  | .declared inner rest =>
    match Declaration.ofChars? inner with
    | none => .unreadable
    | some ⟨edition, none⟩ => ⟨edition, true, rest, first.sound⟩
    | some ⟨edition, some label⟩ =>
      match label.encoding? mark with
      | none => .unreadable
      | some encoding =>
        if encoding = mark.getD .utf8 then ⟨edition, true, rest, first.sound⟩
        else
          -- the declaration is ASCII, so its length in octets is its length in characters
          let again := encoding.decode (body.drop (inner.length + 7))
          ⟨edition, true, again.chars, again.sound⟩

end ImageTrust.Xml
