/-!
Writing a text with escapes in it. The text is cut at the characters that are escaped; what stands
between two cuts is taken out of it by position, in one piece, and is passed on as it is.
-/

namespace ImageTrust.Text

/-- Writes the piece of a text between two positions, unless there is nothing between them. -/
def addPiece {s : String} (piece : String → String) (out : String) (start stop : s.Pos) : String :=
  if start < stop then out ++ piece (s.extract start stop) else out

/-- Goes on from `here` when everything ahead of `start` has been written to `out`. -/
def cutFrom {s : String} (escape? : Char → Option String) (piece : String → String) (out : String)
    (start here : s.Pos) : String :=
  if h : here = s.endPos then addPiece piece out start here
  else
    match escape? (here.get h) with
    | some escaped =>
      cutFrom escape? piece (addPiece piece out start here ++ escaped) (here.next h) (here.next h)
    | none => cutFrom escape? piece out start (here.next h)
termination_by here

/-- A text in which every character that has an escape is replaced by it. The pieces between them are
written by `piece`. -/
def cut (escape? : Char → Option String) (piece : String → String) (s : String) : String :=
  cutFrom escape? piece "" s.startPos s.startPos

end ImageTrust.Text
