import ImageTrust.Json.Flaw

/-!
The value of a JSON text, whatever its shape and however deep it is nested. A number has a value when
it is an integer, of any size.
-/

namespace ImageTrust.Json

/-- The integer that a number without fraction and exponent stands for. -/
def Literal.int? (n : Literal) : Option Int :=
  if n.fraction.isEmpty && n.power.isNone then
    some (if n.negative then -(digitsValue n.whole : Int) else digitsValue n.whole)
  else none

mutual

/-- The value of a tree, if it has no fault. -/
def Source.value? : Source → Option Json
  | .null => some .null
  | .bool b => some (.bool b)
  | .number literal => literal.int?.map .int
  | .string raw => (textOf? raw).map .str
  | .array items .closed => (Source.values? items).map .arr
  | .object members .closed => (Source.memberValues? members).map .obj
  | _ => none

def Source.values? : List Source → Option (List Json)
  | [] => some []
  | s :: rest => do
    let v ← s.value?
    let vs ← Source.values? rest
    some (v :: vs)

def Source.memberValues? : List (List Char × Source) → Option (List (String × Json))
  | [] => some []
  | (raw, s) :: rest => do
    let key ← textOf? raw
    let v ← s.value?
    let vs ← Source.memberValues? rest
    some ((key, v) :: vs)

end

/-- The value of a document with nothing but blanks behind it. -/
def Document.value? (doc : Document) : Option Json :=
  if doc.alone then doc.value.value? else none

/-- The value of a text. -/
def ofText? (s : String) : Option Json :=
  (readDocument s.toList).value?

/-- The value of the text in octets. -/
def ofOctets? (bs : Octets) : Option Json :=
  (readOctets bs).value?

end ImageTrust.Json
