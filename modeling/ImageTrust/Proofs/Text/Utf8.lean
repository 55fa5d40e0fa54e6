import Mathlib.Tactic.SplitIfs
import ImageTrust.Text.Utf8

/-!
Text as octets and back. Every character is the first character of its own octets, whatever follows
them, so the octets of a text are read as the text, and no two texts have the same octets.
-/

namespace ImageTrust.Text

theorem toNat_octet {n : Nat} (h : n < 256) : (UInt8.ofNat n).toNat = n := by
  rw [UInt8.toNat_ofNat', Nat.mod_eq_of_lt h]

theorem isContinuation_octet (n : Nat) : isContinuation (UInt8.ofNat (n % 64 + 128)) = true := by
  have hn : n % 64 < 64 := Nat.mod_lt n (by decide)
  simp only [isContinuation, Bool.and_eq_true, decide_eq_true_eq, UInt8.le_iff_toNat_le,
    toNat_octet (show n % 64 + 128 < 256 by omega)]
  exact ⟨show 128 ≤ _ by omega, show _ ≤ 191 by omega⟩

/-- The octets of the character with a number. -/
def octetsOf (v : Nat) : Octets :=
  if v ≤ 0x7f then [UInt8.ofNat v]
  else if v ≤ 0x7ff then [UInt8.ofNat (v / 64 % 32 + 0xc0), UInt8.ofNat (v % 64 + 0x80)]
  else if v ≤ 0xffff then
    [UInt8.ofNat (v / 4096 % 16 + 0xe0), UInt8.ofNat (v / 64 % 64 + 0x80),
      UInt8.ofNat (v % 64 + 0x80)]
  else
    [UInt8.ofNat (v / 262144 % 8 + 0xf0), UInt8.ofNat (v / 4096 % 64 + 0x80),
      UInt8.ofNat (v / 64 % 64 + 0x80), UInt8.ofNat (v % 64 + 0x80)]

theorem utf8EncodeChar_eq (c : Char) : String.utf8EncodeChar c = octetsOf c.toNat := rfl

/-- The octets of a number that a character has are read as that number. -/
theorem decodeChar?_octetsOf {v : Nat} (hv : v < 0xd800 ∨ 0xdfff < v ∧ v < 0x110000)
    (rest : Octets) : decodeChar? (octetsOf v ++ rest) = some (Char.ofNat v, rest) := by
  unfold octetsOf
  split_ifs with h₁ h₂ h₃
  · have hb := toNat_octet (show v < 256 by omega)
    have hlt : UInt8.ofNat v < 0x80 := by
      rw [UInt8.lt_iff_toNat_lt, hb]
      exact show v < 128 by omega
    simp [decodeChar?, hlt, Nat.mod_eq_of_lt (show v < 256 by omega)]
  · have hb := toNat_octet (show v / 64 % 32 + 192 < 256 by omega)
    have hd := toNat_octet (show v % 64 + 128 < 256 by omega)
    have hc := isContinuation_octet v
    generalize UInt8.ofNat (v / 64 % 32 + 192) = b at *
    generalize UInt8.ofNat (v % 64 + 128) = d at *
    have hlt : ¬ b < 0x80 := by
      rw [UInt8.lt_iff_toNat_lt, hb]
      exact show ¬ _ < 128 by omega
    have hr : 0xc2 ≤ b ∧ b ≤ 0xdf := by
      rw [UInt8.le_iff_toNat_le, UInt8.le_iff_toNat_le, hb]
      exact ⟨show 194 ≤ _ by omega, show _ ≤ 223 by omega⟩
    have hw : (b.toNat - 192) * 64 + (d.toNat - 128) = v := by omega
    simp [decodeChar?, hlt, hr, hc, hw]
  · have hb := toNat_octet (show v / 4096 % 16 + 224 < 256 by omega)
    have hd := toNat_octet (show v / 64 % 64 + 128 < 256 by omega)
    have he := toNat_octet (show v % 64 + 128 < 256 by omega)
    have hcd := isContinuation_octet (v / 64)
    have hce := isContinuation_octet v
    generalize UInt8.ofNat (v / 4096 % 16 + 224) = b at *
    generalize UInt8.ofNat (v / 64 % 64 + 128) = d at *
    generalize UInt8.ofNat (v % 64 + 128) = e at *
    have hlt : ¬ b < 0x80 := by
      rw [UInt8.lt_iff_toNat_lt, hb]
      exact show ¬ _ < 128 by omega
    have hn : ¬ (0xc2 ≤ b ∧ b ≤ 0xdf) := by
      rw [UInt8.le_iff_toNat_le, UInt8.le_iff_toNat_le, hb]
      exact fun h => absurd h.2 (show ¬ _ ≤ 223 by omega)
    have hr : 0xe0 ≤ b ∧ b ≤ 0xef := by
      rw [UInt8.le_iff_toNat_le, UInt8.le_iff_toNat_le, hb]
      exact ⟨show 224 ≤ _ by omega, show _ ≤ 239 by omega⟩
    -- the least and the greatest lead octet leave part of the second octet's range to others
    have hlow : b = 0xe0 → 0xa0 ≤ d := by
      intro h
      rw [h] at hb
      rw [UInt8.le_iff_toNat_le, hd]
      exact show 160 ≤ _ by change 224 = _ at hb; omega
    have hhigh : b = 0xed → d ≤ 0x9f := by
      intro h
      rw [h] at hb
      rw [UInt8.le_iff_toNat_le, hd]
      exact show _ ≤ 159 by change 237 = _ at hb; omega
    have hw : (b.toNat - 224) * 4096 + (d.toNat - 128) * 64 + (e.toNat - 128) = v := by omega
    simp [decodeChar?, hlt, hn, hr, hcd, hce, Decidable.not_or_of_imp hlow,
      Decidable.not_or_of_imp hhigh, hw]
  · have hb := toNat_octet (show v / 262144 % 8 + 240 < 256 by omega)
    have hd := toNat_octet (show v / 4096 % 64 + 128 < 256 by omega)
    have he := toNat_octet (show v / 64 % 64 + 128 < 256 by omega)
    have hf := toNat_octet (show v % 64 + 128 < 256 by omega)
    have hcd := isContinuation_octet (v / 4096)
    have hce := isContinuation_octet (v / 64)
    have hcf := isContinuation_octet v
    generalize UInt8.ofNat (v / 262144 % 8 + 240) = b at *
    generalize UInt8.ofNat (v / 4096 % 64 + 128) = d at *
    generalize UInt8.ofNat (v / 64 % 64 + 128) = e at *
    generalize UInt8.ofNat (v % 64 + 128) = f at *
    have hlt : ¬ b < 0x80 := by
      rw [UInt8.lt_iff_toNat_lt, hb]
      exact show ¬ _ < 128 by omega
    have hn : ¬ (0xc2 ≤ b ∧ b ≤ 0xdf) := by
      rw [UInt8.le_iff_toNat_le, UInt8.le_iff_toNat_le, hb]
      exact fun h => absurd h.2 (show ¬ _ ≤ 223 by omega)
    have hm : ¬ (0xe0 ≤ b ∧ b ≤ 0xef) := by
      rw [UInt8.le_iff_toNat_le, UInt8.le_iff_toNat_le, hb]
      exact fun h => absurd h.2 (show ¬ _ ≤ 239 by omega)
    have hr : 0xf0 ≤ b ∧ b ≤ 0xf4 := by
      rw [UInt8.le_iff_toNat_le, UInt8.le_iff_toNat_le, hb]
      exact ⟨show 240 ≤ _ by omega, show _ ≤ 244 by omega⟩
    have hlow : b = 0xf0 → 0x90 ≤ d := by
      intro h
      rw [h] at hb
      rw [UInt8.le_iff_toNat_le, hd]
      exact show 144 ≤ _ by change 240 = _ at hb; omega
    have hhigh : b = 0xf4 → d ≤ 0x8f := by
      intro h
      rw [h] at hb
      rw [UInt8.le_iff_toNat_le, hd]
      exact show _ ≤ 143 by change 244 = _ at hb; omega
    have hw : (b.toNat - 240) * 262144 + (d.toNat - 128) * 4096 + (e.toNat - 128) * 64
        + (f.toNat - 128) = v := by omega
    simp [decodeChar?, hlt, hn, hm, hr, hcd, hce, hcf, Decidable.not_or_of_imp hlow,
      Decidable.not_or_of_imp hhigh, hw]

theorem toNat_valid (c : Char) : c.toNat < 0xd800 ∨ 0xdfff < c.toNat ∧ c.toNat < 0x110000 := by
  have := c.valid
  simpa [UInt32.isValidChar, Nat.isValidChar] using this

theorem decodeChar?_encode (c : Char) (rest : Octets) :
    decodeChar? (String.utf8EncodeChar c ++ rest) = some (c, rest) := by
  rw [utf8EncodeChar_eq, decodeChar?_octetsOf (toNat_valid c), Char.ofNat_toNat]

theorem toList_loop (bs : ByteArray) (i : Nat) (read : List UInt8) :
    ByteArray.toList.loop bs i read = read.reverse ++ bs.data.toList.drop i := by
  induction hn : bs.size - i generalizing i read with
  | zero =>
    rw [ByteArray.toList.loop, if_neg (by omega), List.drop_eq_nil_of_le]
    · simp
    · change bs.size ≤ i
      omega
  | succ n ih =>
    have hi : i < bs.data.toList.length := show i < bs.size by omega
    rw [ByteArray.toList.loop, if_pos (show i < bs.size by omega), ih (i + 1) _ (by omega),
      List.drop_eq_getElem_cons hi]
    have hg : bs.get! i = bs.data.toList[i] := by
      change bs.data[i]! = _
      rw [getElem!_pos bs.data i hi, Array.getElem_toList]
    simp [hg]

theorem encode_eq_encodeChars (s : String) : encode s = encodeChars s.toList := by
  have h : s.toUTF8 = (encodeChars s.toList).toByteArray := String.utf8Encode_toList.symm
  rw [encode, h, ByteArray.toList, toList_loop]
  simp

theorem decodeLoop_encodeChars (cs : List Char) :
    ∀ fuel read, (encodeChars cs).length ≤ fuel →
      decodeLoop fuel read (encodeChars cs) = ⟨read.reverse ++ cs, true⟩ := by
  induction cs with
  | nil => intro fuel read _; cases fuel <;> simp [encodeChars, decodeLoop]
  | cons c cs ih =>
    intro fuel read hf
    have hd := decodeChar?_encode c (encodeChars cs)
    have hc : encodeChars (c :: cs) = String.utf8EncodeChar c ++ encodeChars cs := rfl
    have hl : 0 < (String.utf8EncodeChar c).length :=
      List.length_pos_iff.2 String.utf8EncodeChar_ne_nil
    rw [hc, List.length_append] at hf
    obtain ⟨fuel, rfl⟩ : ∃ k, fuel = k + 1 := ⟨fuel - 1, by omega⟩
    have hs : decodeLoop (fuel + 1) read (String.utf8EncodeChar c ++ encodeChars cs)
        = decodeLoop fuel (c :: read) (encodeChars cs) := by
      rw [decodeLoop, hd]
      simp [String.utf8EncodeChar_ne_nil]
    rw [hc, hs, ih fuel _ (by omega)]
    simp

/-- The octets of a text are read as the text and to their end. -/
theorem decode_encode (s : String) : decode (encode s) = ⟨s.toList, true⟩ := by
  rw [encode_eq_encodeChars, decode, decodeLoop_encodeChars _ _ _ (Nat.le_refl _)]
  simp

theorem length_encodeChars_le : ∀ cs : List Char, (encodeChars cs).length ≤ cs.length * 4
  | [] => Nat.le_refl 0
  | c :: cs => by
    have ih := length_encodeChars_le cs
    have hc := c.utf8Size_le_four
    simp only [encodeChars, List.flatMap_cons, List.length_append, List.length_cons,
      String.length_utf8EncodeChar] at ih ⊢
    omega

theorem length_encode_le (s : String) : (encode s).length ≤ s.length * 4 := by
  rw [encode_eq_encodeChars, ← String.length_toList]
  exact length_encodeChars_le s.toList

/-- All octets of a character beyond ASCII are above those of ASCII. -/
theorem le_of_mem_octetsOf {v : Nat} {b : UInt8} (hv : 0x7f < v) (hb : b ∈ octetsOf v) :
    0x80 ≤ b.toNat := by
  unfold octetsOf at hb
  rw [if_neg (Nat.not_le.2 hv)] at hb
  split_ifs at hb
  all_goals
    simp only [List.mem_cons, List.not_mem_nil, or_false] at hb
    rcases hb with rfl | rfl | rfl | rfl
    all_goals
      rw [toNat_octet (by omega)]
      omega

/-- The octets of a text have one of ASCII only where the text has that character. -/
theorem mem_of_octet {s : String} {c : Char} (hc : c.toNat ≤ 0x7f)
    (h : UInt8.ofNat c.toNat ∈ encode s) : c ∈ s.toList := by
  rw [encode_eq_encodeChars] at h
  obtain ⟨d, hd, hb⟩ := List.mem_flatMap.1 h
  rw [utf8EncodeChar_eq] at hb
  have hcode : (UInt8.ofNat c.toNat).toNat = c.toNat := toNat_octet (by omega)
  have hsmall : d.toNat ≤ 0x7f := by
    refine Nat.not_lt.1 fun hlarge => ?_
    have hle := le_of_mem_octetsOf hlarge hb
    omega
  rw [octetsOf, if_pos hsmall, List.mem_singleton] at hb
  have hsame : c.toNat = d.toNat := by
    rw [← hcode, hb, toNat_octet (by omega)]
  rwa [← Char.ofNat_toNat c, hsame, Char.ofNat_toNat]

theorem encode_append (s u : String) : encode (s ++ u) = encode s ++ encode u := by
  rw [encode_eq_encodeChars, encode_eq_encodeChars, encode_eq_encodeChars, String.toList_append]
  exact List.flatMap_append

end ImageTrust.Text
