import ImageTrust.Proofs.Fallible
import ImageTrust.Proofs.Text.Utf8
import ImageTrust.Url.Parse

/-!
Forms in a query. Names and values are encoded one character at a time, and what is written holds neither
of the marks that keep names, values and pairs apart. So pairs are read back as they were, whatever
characters are in them.
-/

namespace ImageTrust.Url

/-- A plus sign stands for a space. -/
def spaced (c : Char) : Char :=
  if c = '+' then ' ' else c

/-- The text that a name or a value of a form stands for. -/
def formText? (cs : List Char) : Option String :=
  Text.decode? (percentDecode (cs.map spaced))

/-- A name, and the value behind the first equals sign. -/
def formPair? (piece : List Char) : Option (String × String) := do
  let name ← formText? (splitMark '=' piece).1
  let value ← formText? ((splitMark '=' piece).2.getD [])
  return (name, value)

/-- The pairs of a form, which ampersands separate. -/
def formPairs? (query : String) : Option (List (String × String)) :=
  ((query.toList.splitOn '&').filter (!·.isEmpty)).mapM formPair?

def writtenPair (pair : String × String) : List Char :=
  formEncode pair.1.toList ++ '=' :: formEncode pair.2.toList

/-- Pairs as a form. -/
def writtenPairs (pairs : List (String × String)) : String :=
  String.ofList (['&'].intercalate (pairs.map writtenPair))

variable {c : Char} {cs : List Char}

/-- Characters that a form holds as they are. -/
def StaysInForm (c : Char) : Prop :=
  (c.isAlphanum || ['*', '-', '.', '_'].contains c) = true

theorem StaysInForm.ne_mark {mark : Char} (h : StaysInForm c)
    (hmark : mark ∈ ['%', '+', '&', '=', ' ']) : c ≠ mark := by
  rintro rfl
  revert h
  unfold StaysInForm
  simp only [List.mem_cons, List.not_mem_nil, or_false] at hmark
  rcases hmark with rfl | rfl | rfl | rfl | rfl <;> decide

theorem formEncode_cons (c : Char) (cs : List Char) :
    formEncode (c :: cs) = formEncode [c] ++ formEncode cs := by
  unfold formEncode
  rw [List.flatMap_cons, List.flatMap_singleton]

/-- How one character is written. -/
theorem formEncode_cases (c : Char) : StaysInForm c ∧ formEncode [c] = [c]
    ∨ c = ' ' ∧ formEncode [c] = ['+']
    ∨ formEncode [c] = (String.utf8EncodeChar c).flatMap percentOctet := by
  unfold formEncode
  rw [List.flatMap_singleton]
  by_cases hs : (c.isAlphanum || ['*', '-', '.', '_'].contains c) = true
  · exact .inl ⟨hs, if_pos hs⟩
  · refine .inr ?_
    rw [if_neg hs]
    by_cases hspace : c = ' '
    · exact .inl ⟨hspace, if_pos hspace⟩
    · exact .inr (if_neg hspace)

theorem hexDigit_in_form : ∀ n < 16, hexValue? (hexDigit n) = some n ∧ spaced (hexDigit n) = hexDigit n
    ∧ hexDigit n ≠ '&' ∧ hexDigit n ≠ '=' := by
  decide

theorem percentOctet_in_form {b : UInt8} (h : c ∈ percentOctet b) :
    spaced c = c ∧ c ≠ '&' ∧ c ≠ '=' := by
  have hb := b.toNat_lt
  have hhigh := hexDigit_in_form (b.toNat / 16) (by omega)
  have hlow := hexDigit_in_form (b.toNat % 16) (by omega)
  simp only [percentOctet, List.mem_cons, List.not_mem_nil, or_false] at h
  rcases h with rfl | rfl | rfl
  · decide
  · exact hhigh.2
  · exact hlow.2

/-- No mark of a form is written in a name or a value. -/
theorem formEncode_without_marks (h : c ∈ formEncode cs) : c ≠ '&' ∧ c ≠ '=' := by
  induction cs with
  | nil => cases h
  | cons d cs ih =>
    rw [formEncode_cons, List.mem_append] at h
    rcases h with h | h
    · rcases formEncode_cases d with ⟨hs, hd⟩ | ⟨-, hd⟩ | hd
      · rw [hd, List.mem_singleton] at h
        rw [h]
        exact ⟨hs.ne_mark (by decide), hs.ne_mark (by decide)⟩
      · rw [hd, List.mem_singleton] at h
        rw [h]
        decide
      · rw [hd, List.mem_flatMap] at h
        obtain ⟨b, -, hb⟩ := h
        exact (percentOctet_in_form hb).2
    · exact ih h

theorem percentDecode_octet (b : UInt8) (rest : List Char) :
    percentDecode (percentOctet b ++ rest) = b :: percentDecode rest := by
  have hb := b.toNat_lt
  have hhigh := (hexDigit_in_form (b.toNat / 16) (by omega)).1
  have hlow := (hexDigit_in_form (b.toNat % 16) (by omega)).1
  have hvalue : b.toNat / 16 * 16 + b.toNat % 16 = b.toNat := by omega
  simp only [percentOctet, List.cons_append, List.nil_append, percentDecode, hhigh, hlow, hvalue,
    UInt8.ofNat_toNat]

theorem percentDecode_octets (bs : Octets) (rest : List Char) :
    percentDecode (bs.flatMap percentOctet ++ rest) = bs ++ percentDecode rest := by
  induction bs with
  | nil => rfl
  | cons b bs ih =>
    rw [List.flatMap_cons, List.append_assoc, percentDecode_octet, ih, List.cons_append]

theorem percentDecode_plain (h : c ≠ '%') (rest : List Char) :
    percentDecode (c :: rest) = String.utf8EncodeChar c ++ percentDecode rest := by
  rw [percentDecode.eq_def]
  split
  · rename_i heq
    exact absurd (List.cons.inj heq).1 h
  · rename_i heq
    obtain ⟨rfl, rfl⟩ := List.cons.inj heq
    rfl
  · rename_i heq
    cases heq

/-- One character of a name or a value is read back as its octets. -/
theorem percentDecode_formEncode_char (c : Char) (rest : List Char) :
    percentDecode ((formEncode [c]).map spaced ++ rest)
      = String.utf8EncodeChar c ++ percentDecode rest := by
  rcases formEncode_cases c with ⟨hs, hc⟩ | ⟨rfl, hc⟩ | hc
  · have hplus : spaced c = c := if_neg (hs.ne_mark (by decide))
    rw [hc, List.map_singleton, hplus, List.singleton_append,
      percentDecode_plain (hs.ne_mark (by decide))]
  · rw [hc]
    exact percentDecode_plain (by decide) rest
  · have hkept : ((String.utf8EncodeChar c).flatMap percentOctet).map spaced
        = (String.utf8EncodeChar c).flatMap percentOctet := by
      refine (List.map_congr_left fun d hd => ?_).trans (List.map_id _)
      obtain ⟨b, -, hb⟩ := List.mem_flatMap.1 hd
      exact (percentOctet_in_form hb).1
    rw [hc, hkept, percentDecode_octets]

theorem percentDecode_formEncode (cs : List Char) :
    percentDecode ((formEncode cs).map spaced) = Text.encodeChars cs := by
  induction cs with
  | nil => rfl
  | cons c cs ih =>
    rw [formEncode_cons, List.map_append, percentDecode_formEncode_char, ih]
    rfl

theorem formText?_formEncode (s : String) : formText? (formEncode s.toList) = some s := by
  unfold formText? Text.decode?
  rw [percentDecode_formEncode, ← Text.encode_eq_encodeChars, Text.decode_encode]
  simp

theorem splitMark_append {mark : Char} (h : mark ∉ cs) (rest : List Char) :
    splitMark mark (cs ++ mark :: rest) = (cs, some rest) := by
  have hne : ∀ c ∈ cs, (c != mark) = true := by
    intro c hc
    rw [bne_iff_ne]
    rintro rfl
    exact h hc
  unfold splitMark
  rw [List.dropWhile_append_of_pos hne, List.takeWhile_append_of_pos hne]
  simp

theorem formPair?_written (pair : String × String) : formPair? (writtenPair pair) = some pair := by
  have hname : '=' ∉ formEncode pair.1.toList := fun h => (formEncode_without_marks h).2 rfl
  unfold formPair? writtenPair
  rw [splitMark_append hname]
  simp [formText?_formEncode]

theorem writtenPair_without_ampersand (pair : String × String) : '&' ∉ writtenPair pair := by
  unfold writtenPair
  rw [List.mem_append, List.mem_cons]
  rintro (h | h | h)
  · exact (formEncode_without_marks h).1 rfl
  · exact absurd h (by decide)
  · exact (formEncode_without_marks h).1 rfl

/-- Whatever pairs are written as a form, the same are read from it. -/
theorem formPairs?_written (pairs : List (String × String)) :
    formPairs? (writtenPairs pairs) = some pairs := by
  have hpieces : ∀ piece ∈ pairs.map writtenPair, '&' ∉ piece := by
    intro piece hpiece
    obtain ⟨pair, -, rfl⟩ := List.mem_map.1 hpiece
    exact writtenPair_without_ampersand pair
  have hfilled : (pairs.map writtenPair).filter (!·.isEmpty) = pairs.map writtenPair := by
    refine List.filter_eq_self.2 fun piece hpiece => ?_
    obtain ⟨pair, -, rfl⟩ := List.mem_map.1 hpiece
    simp [writtenPair]
  unfold formPairs? writtenPairs
  rw [String.toList_ofList]
  rcases eq_or_ne pairs [] with rfl | hne
  · rfl
  · rw [List.splitOn_intercalate '&' hpieces (by simpa using hne), hfilled, mapM_some_iff]
    refine List.forall₂_map_left_iff.2 (List.forall₂_same.2 fun pair _ => ?_)
    exact formPair?_written pair

end ImageTrust.Url
