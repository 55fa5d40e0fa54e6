import ImageTrust.Toml.Scalar

/-!
TOML documents. A document is read line by line: entries, and headers that say into which table the
entries below them go. Arrays and inline tables may span lines.
-/

namespace ImageTrust.Toml

def dropBlanks (cs : List Char) : List Char :=
  cs.dropWhile fun c => c = ' ' || c = '\t'

def dropTrivia (inComment : Bool) : List Char → Option (List Char)
  | [] => some []
  | '\n' :: cs => dropTrivia false cs
  | '\r' :: '\n' :: cs => dropTrivia false cs
  | c :: cs =>
    if inComment then if isForbidden c then none else dropTrivia true cs
    else if c = ' ' || c = '\t' then dropTrivia false cs
    else if c = '#' then dropTrivia true cs
    else some (c :: cs)

/-- Drops the end of a line: blanks, a comment, and the line end or the end of the text. -/
def dropLineEnd (cs : List Char) : Option (List Char) :=
  let cs := dropBlanks cs
  let cs := match cs with
    | '#' :: rest => rest.dropWhile (!isForbidden ·)
    | cs => cs
  match cs with
  | [] => some []
  | '\n' :: cs => some cs
  | '\r' :: '\n' :: cs => some cs
  | _ => none

/-- Holds of the characters of keys without quotes. -/
def isKeyChar (c : Char) : Bool :=
  c.isAlphanum || c = '_' || c = '-'

def keyPart? (fuel : Nat) (cs : List Char) : Option (String × List Char) :=
  match cs with
  | '"' :: cs => lineString '"' true fuel [] cs
  | '\'' :: cs => lineString '\'' false fuel [] cs
  | cs =>
    let name := cs.takeWhile isKeyChar
    if name.isEmpty then none else some (String.ofList name, cs.dropWhile isKeyChar)

/-- The parts of a key, with dots between them, and what follows it without blanks. `parts` holds
those so far, last first. -/
def key? (size : Nat) : (fuel : Nat) → (parts : List String) → List Char →
    Option (List String × List Char)
  | 0, _, _ => none
  | fuel + 1, parts, cs =>
    match keyPart? size (dropBlanks cs) with
    | none => none
    | some (part, cs) =>
      match dropBlanks cs with
      | '.' :: cs => key? size fuel (part :: parts) cs
      | cs => some ((part :: parts).reverse, cs)

/-- A key and its value, given how a value is read. -/
def pair? (size : Nat) (value : List Char → Option (Value × List Char)) (cs : List Char) :
    Option (Entry × List Char) :=
  match key? size size [] cs with
  | some (path, '=' :: cs) => (value (dropBlanks cs)).map fun (v, cs) => ((path, v), cs)
  | _ => none

/-- Items up to a bracket, with commas between them and perhaps behind the last. -/
def items? {α : Type} (item : List Char → Option (α × List Char)) (close : Char) :
    (fuel : Nat) → (found : List α) → List Char → Option (List α × List Char)
  | 0, _, _ => none
  | fuel + 1, found, cs =>
    match dropTrivia false cs with
    | none | some [] => none
    | some (c :: rest) =>
      if c = close then some (found.reverse, rest)
      else
        match item (c :: rest) with
        | none => none
        | some (a, cs) =>
          match dropTrivia false cs with
          | some (',' :: cs) => items? item close fuel (a :: found) cs
          | some (d :: cs) => if d = close then some ((a :: found).reverse, cs) else none
          | _ => none

/-- A value in a text of the given size. At most `depth` arrays and inline tables stand in one
another. -/
def value? (size : Nat) : (depth : Nat) → List Char → Option (Value × List Char)
  | depth + 1, '[' :: cs =>
    (items? (value? size depth) ']' size [] cs).map fun (vs, cs) => (.array vs, cs)
  | depth + 1, '{' :: cs => do
    let (entries, cs) ← items? (pair? size (value? size depth)) '}' size [] cs
    let members ← Members.insertAll entries []
    some (.table .inlineText members, cs)
  | _, cs => scalar? size cs

/-- How many arrays and inline tables may stand in one another. -/
def depthLimit : Nat := 80

/-- The header at the beginning of a line, and what follows it. -/
def header? (size : Nat) (cs : List Char) : Option (Header × List Char) :=
  match cs with
  | '[' :: '[' :: cs =>
    match key? size size [] cs with
    | some (path, ']' :: ']' :: cs) => some (.element path, cs)
    | _ => none
  | '[' :: cs =>
    match key? size size [] cs with
    | some (path, ']' :: cs) => some (.table path, cs)
    | _ => none
  | _ => none

/-- What was read of a document: the blocks so far, and the entries of the last one, last first. -/
structure Progress where
  blocks : List (Header × List Entry)
  header : Option Header
  entries : List Entry

def Progress.close (p : Progress) : List (Header × List Entry) :=
  match p.header with
  | some h => (h, p.entries.reverse) :: p.blocks
  | none => p.blocks

/-- Reads the lines of a text. The entries before the first header come first. -/
def lines? (size : Nat) : (fuel : Nat) → (first : List Entry) → Progress → List Char →
    Option (List Entry × List (Header × List Entry))
  | 0, _, _, _ => none
  | fuel + 1, first, p, cs =>
    match dropTrivia false cs with
    | none => none
    | some [] =>
      match p.header with
      | some _ => some (first, p.close.reverse)
      | none => some (p.entries.reverse, [])
    | some ('[' :: cs) =>
      match header? size ('[' :: cs) with
      | none => none
      | some (h, cs) =>
        let first := if p.header.isNone then p.entries.reverse else first
        match dropLineEnd cs with
        | none => none
        | some cs => lines? size fuel first ⟨p.close, some h, []⟩ cs
    | some cs =>
      match pair? size (value? size depthLimit) cs with
      | none => none
      | some (e, cs) =>
        match dropLineEnd cs with
        | none => none
        | some cs => lines? size fuel first { p with entries := e :: p.entries } cs

/-- The members of a document. A mark of the octet order at its beginning does not count. -/
def read? (cs : List Char) : Option Members := do
  let cs := match cs with
    | c :: rest => if c.toNat = 0xfeff then rest else c :: rest
    | [] => []
  let size := cs.length + 1
  let (first, blocks) ← lines? size size [] ⟨[], none, []⟩ cs
  let members ← Members.insertAll first []
  blocks.foldlM Members.addBlock members

end ImageTrust.Toml
