import ImageTrust.Text.Cut
import Mathlib.Data.List.Basic

/-!
Cutting a text loses nothing and repeats nothing. Pieces are taken between positions of the text, so
they begin and end between two characters, however many octets these have; together with the escapes
they are the text with each character written in its own way.
-/

namespace ImageTrust.Text

/-- How a character is written: by its escape, or as in a piece without escapes. -/
def spelling (escape? : Char → Option String) (plain : Char → List Char) (c : Char) : List Char :=
  match escape? c with
  | some escaped => escaped.toList
  | none => plain c

variable {s before between behind : String} {start here : s.Pos}

/-- What is taken out between two positions is what stands between them. -/
theorem extract_of_splits (hstart : start.Splits before (between ++ behind))
    (hhere : here.Splits (before ++ between) behind) : s.extract start here = between := by
  have hbytes : s.toByteArray = before.toByteArray ++ (between.toByteArray ++ behind.toByteArray) := by
    rw [← String.toByteArray_append, ← String.toByteArray_append, ← hstart.eq_append]
  have hfrom : start.offset.byteIdx = before.toByteArray.size + 0 := by
    rw [hstart.offset_eq_rawEndPos]
    rfl
  have hto : here.offset.byteIdx = before.toByteArray.size + between.toByteArray.size := by
    rw [hhere.offset_eq_rawEndPos, ← ByteArray.size_append, ← String.toByteArray_append]
    rfl
  refine String.toByteArray_inj.1 ?_
  change s.toByteArray.extract start.offset.byteIdx here.offset.byteIdx = between.toByteArray
  rw [hbytes, hfrom, hto, ByteArray.extract_append_size_add, ByteArray.extract_append_eq_left rfl]

variable {escape? : Char → Option String} {piece : String → String} {plain : Char → List Char}
  {out : String}

/-- Nothing is written of a piece that is empty, and otherwise the piece. -/
theorem addPiece_of_splits (hpiece : ∀ u, (piece u).toList = u.toList.flatMap plain)
    (hstart : start.Splits before (between ++ behind))
    (hhere : here.Splits (before ++ between) behind) :
    (addPiece piece out start here).toList = out.toList ++ between.toList.flatMap plain := by
  unfold addPiece
  by_cases hlt : start < here
  · rw [if_pos hlt, extract_of_splits hstart hhere, String.toList_append, hpiece]
  · have hnone : between = "" := by
      by_contra hne
      exact hlt ((hstart.lt_iff_exists_eq_append hhere).2 ⟨between, hne, rfl, rfl⟩)
    rw [if_neg hlt, hnone, String.toList_empty, List.flatMap_nil, List.append_nil]

/-- The induction is on the position. Between `start` and it nothing has an escape. -/
theorem cutFrom_of_splits (hpiece : ∀ u, (piece u).toList = u.toList.flatMap plain)
    (hstart : start.Splits before (between ++ behind))
    (hhere : here.Splits (before ++ between) behind)
    (hclear : ∀ c ∈ between.toList, escape? c = none) :
    (cutFrom escape? piece out start here).toList
      = out.toList ++ (between.toList.flatMap plain ++ behind.toList.flatMap (spelling escape? plain)) := by
  induction here using String.Pos.next_induction generalizing out start before between behind with
  | endPos =>
    obtain rfl : behind = "" := hhere.eq_endPos_iff.1 rfl
    rw [cutFrom, dif_pos rfl, addPiece_of_splits hpiece hstart hhere, String.toList_empty,
      List.flatMap_nil, List.append_nil]
  | next here hmore ih =>
    obtain ⟨rest, rfl⟩ := hhere.exists_eq_singleton_append hmore
    have hnext := hhere.next
    have hcons : (String.singleton (here.get hmore) ++ rest).toList = here.get hmore :: rest.toList := by
      rw [String.toList_append, String.toList_singleton, List.singleton_append]
    rw [cutFrom, dif_neg hmore, hcons, List.flatMap_cons, spelling]
    cases hescape : escape? (here.get hmore) with
    | some escaped =>
      -- what follows the escape is cut from there
      have hfrom : (here.next hmore).Splits (before ++ between ++ String.singleton (here.get hmore) ++ "")
          rest := by
        rwa [String.append_empty]
      have hbegin : (here.next hmore).Splits (before ++ between ++ String.singleton (here.get hmore))
          ("" ++ rest) := by
        rwa [String.empty_append]
      dsimp only
      rw [ih hbegin hfrom (by simp), String.toList_append, addPiece_of_splits hpiece hstart hhere,
        String.toList_empty, List.flatMap_nil, List.nil_append, List.append_assoc, List.append_assoc]
    | none =>
      have hlonger : start.Splits before (between ++ String.singleton (here.get hmore) ++ rest) := by
        rwa [String.append_assoc]
      have hthere : (here.next hmore).Splits
          (before ++ (between ++ String.singleton (here.get hmore))) rest := by
        rwa [← String.append_assoc]
      have hstill : ∀ c ∈ (between ++ String.singleton (here.get hmore)).toList, escape? c = none := by
        intro c hc
        rw [String.toList_append, String.toList_singleton, List.mem_append, List.mem_singleton] at hc
        rcases hc with hc | rfl
        · exact hclear c hc
        · exact hescape
      dsimp only
      rw [ih hlonger hthere hstill, String.toList_append, String.toList_singleton,
        List.flatMap_append, List.append_assoc, List.flatMap_singleton]

/-- A text that is cut is the text with every character written in its own way. -/
theorem toList_cut (hpiece : ∀ u, (piece u).toList = u.toList.flatMap plain) (s : String) :
    (cut escape? piece s).toList = s.toList.flatMap (spelling escape? plain) := by
  have hstart : s.startPos.Splits "" ("" ++ s) := by
    rw [String.empty_append]
    exact s.splits_startPos
  have hhere : s.startPos.Splits ("" ++ "") s := s.splits_startPos
  rw [cut, cutFrom_of_splits hpiece hstart hhere (by simp), String.toList_empty, List.flatMap_nil,
    List.nil_append, List.nil_append]

end ImageTrust.Text
