import ImageTrust.Proofs.Text.Utf8
import ImageTrust.Xml.Reader

/-!
Texts as documents. A text that begins with a tag has neither a byte order mark nor a declaration, so
its octets are read back as the characters they were written from.
-/

namespace ImageTrust.Xml

variable {s : String} {c : Char} {cs : List Char}

theorem byteOrderMark_encode (hs : s.toList = '<' :: cs) :
    byteOrderMark (Text.encode s) = (none, Text.encode s) := by
  have he : Text.encode s = 0x3c :: Text.encodeChars cs := by
    rw [Text.encode_eq_encodeChars, hs]
    rfl
  rw [he]
  rfl

theorem opening_bare (hc : c ≠ '?') : Opening.ofChars ('<' :: c :: cs) = .bare := by
  have hd : dropLead? "<?xml".toList ('<' :: c :: cs) = none := by
    rw [String.toList_ofList]
    simp [dropLead?, hc.symm]
  unfold Opening.ofChars
  rw [hd]

theorem Manuscript.ofOctets_encode (hs : s.toList = '<' :: c :: cs) (hc : c ≠ '?') :
    Manuscript.ofOctets (Text.encode s) = ⟨.first, false, s.toList, true⟩ := by
  have hd : Encoding.utf8.decode (Text.encode s) = ⟨s.toList, true⟩ := Text.decode_encode s
  unfold Manuscript.ofOctets
  rw [byteOrderMark_encode hs]
  simp only [Option.getD_none, hd]
  rw [hs, opening_bare hc]

/-- The octets of a text that begins with a tag are read as the text. -/
theorem Reading.ofOctets_encode (hs : s.toList = '<' :: c :: cs) (hc : c ≠ '?') :
    Reading.ofOctets (Text.encode s) = .ofManuscript ⟨.first, false, s.toList, true⟩ := by
  rw [Reading.ofOctets, Manuscript.ofOctets_encode hs hc]

/-- The octets of a text are read as its characters, whatever is put in behind its opening. -/
theorem Reading.ofOctets_encode_between {opening more closing : String}
    (hs : opening.toList = '<' :: c :: cs) (hc : c ≠ '?') :
    Reading.ofOctets (Text.encode (opening ++ more ++ closing)) = .ofManuscript
      ⟨.first, false, opening.toList ++ more.toList ++ closing.toList, true⟩ := by
  have happend : (opening ++ more ++ closing).toList
      = opening.toList ++ more.toList ++ closing.toList := by
    rw [String.toList_append, String.toList_append]
  rw [← happend]
  rw [hs] at happend
  exact Reading.ofOctets_encode happend hc

end ImageTrust.Xml
