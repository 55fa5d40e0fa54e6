import ImageTrust.Json.Decode
import ImageTrust.Toml.Document

/-!
Typed decoding of TOML. A document decodes as the JSON document that says the same: a date is an
object of its own kind there, and infinity a number out of range.
-/

namespace ImageTrust.Toml

open Json (Source Literal Decoder Place)

def integerLiteral (n : Int) : Literal :=
  ⟨n < 0, (toString n.natAbs).toList, [], none⟩

/-- A number that no floating point number reaches. -/
def endlessLiteral : Literal :=
  ⟨false, ['1'], [], some (false, "9999".toList)⟩

/-- A text as it would be written between quotes. -/
def quotedText (s : String) : List Char :=
  s.toList.flatMap Json.escapeChar

mutual
def Value.source : Value → Source
  | .string s => .string (quotedText s)
  | .integer n => .number (integerLiteral n)
  | .fraction literal => .number literal
  | .notFinite => .number endlessLiteral
  | .boolean b => .bool b
  | .moment text => .object [("moment".toList, .string (quotedText text))] .closed
  | .array items => .array (itemSources items) .closed
  | .table _ members => .object (memberSources members) .closed
  | .tables finished last =>
    .array (itemSources finished ++ [.object (memberSources last) .closed]) .closed

def itemSources : List Value → List Source
  | [] => []
  | v :: vs => v.source :: itemSources vs

def memberSources : List (String × Value) → List (List Char × Source)
  | [] => []
  | (key, v) :: rest => (quotedText key, v.source) :: memberSources rest
end

def decode? {α : Type} (d : Decoder α) (s : String) : Option α := do
  let members ← read? s.toList
  (d Place.composed (.object (memberSources members) .closed)).toOption

end ImageTrust.Toml
