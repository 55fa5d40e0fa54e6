import ImageTrust.Json.Source

/-!
Values of TOML and the tables they are put into. How a table came about decides whether more may be
put into it: one that a header names is named once, one that dotted keys make grows by dotted keys,
and an inline table is complete.
-/

namespace ImageTrust.Toml

/-- How a table came about. -/
inductive Origin where
  /-- By the header of a table inside it. -/
  | implied
  | header
  | dotted
  | inlineText
  deriving DecidableEq, Repr

/-- Values. Integers and fractions keep the digits they are written with, without separators. -/
inductive Value where
  | string (s : String)
  | integer (n : Int)
  | fraction (literal : Json.Literal)
  /-- Infinity or no number, of either sign. -/
  | notFinite
  | boolean (b : Bool)
  | moment (text : String)
  | array (items : List Value)
  | table (origin : Origin) (members : List (String × Value))
  /-- Tables that share a header; the last one can still grow. -/
  | tables (finished : List Value) (last : List (String × Value))
  deriving Repr

/-- The members of a table in the order of their appearance. -/
abbrev Members := List (String × Value)

/-- Makes a value that of a key, at the place of the old one if there is one. -/
def Members.put (key : String) (v : Value) : Members → Members
  | [] => [(key, v)]
  | (k, w) :: rest => if k = key then (k, v) :: rest else (k, w) :: Members.put key v rest

/-- Puts a value at a dotted key. The last table on the way has to be one that dotted keys make. -/
def Members.insert : (path : List String) → Value → Members → Option Members
  | [], _, _ => none
  | [key], v, ms => if (ms.lookup key).isSome then none else some (ms.put key v)
  | key :: path, v, ms =>
    match ms.lookup key with
    | none => do
      let inner ← Members.insert path v []
      some (ms.put key (.table .dotted inner))
    | some (.table origin inner) =>
      if origin = .dotted || (origin = .implied && 2 ≤ path.length) then do
        let inner ← Members.insert path v inner
        some (ms.put key (.table origin inner))
      else none
    | some (.tables finished last) =>
      if 2 ≤ path.length then do
        let last ← Members.insert path v last
        some (ms.put key (.tables finished last))
      else none
    | some _ => none

abbrev Entry := List String × Value

/-- Puts entries into a table in order. -/
def Members.insertAll (entries : List Entry) (ms : Members) : Option Members :=
  entries.foldlM (fun ms (path, v) => ms.insert path v) ms

/-- What a header announces: a table, or one more of the tables that share a header. -/
inductive Header where
  | table (path : List String)
  | element (path : List String)
  deriving DecidableEq, Repr

/-- Changes what a path leads to; tables missing on the way are made. -/
def Members.change (f : Option Value → Option Value) : (path : List String) → Members → Option Members
  | [], _ => none
  | [key], ms => (f (ms.lookup key)).map (ms.put key)
  | key :: path, ms =>
    match ms.lookup key with
    | none => (Members.change f path []).map fun inner => ms.put key (.table .implied inner)
    | some (.table .inlineText _) => none
    | some (.table origin inner) =>
      (Members.change f path inner).map fun inner => ms.put key (.table origin inner)
    | some (.tables finished last) =>
      (Members.change f path last).map fun last => ms.put key (.tables finished last)
    | some _ => none

/-- The table that a header names, given what was there before. -/
def namedTable (entries : List Entry) : Option Value → Option Value
  | none => (Members.insertAll entries []).map (.table .header)
  | some (.table .implied ms) => (Members.insertAll entries ms).map (.table .header)
  | _ => none

/-- The tables of a header with one more at the end, given what was there before. -/
def oneMore (entries : List Entry) : Option Value → Option Value
  | none => (Members.insertAll entries []).map (.tables [])
  | some (.tables finished last) =>
    (Members.insertAll entries []).map (.tables (finished ++ [.table .header last]))
  | _ => none

def Members.addBlock (ms : Members) (block : Header × List Entry) : Option Members :=
  match block.1 with
  | .table path => ms.change (namedTable block.2) path
  | .element path => ms.change (oneMore block.2) path

end ImageTrust.Toml
