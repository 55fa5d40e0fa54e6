import Mathlib.Data.String.Basic
import ImageTrust.Proofs.Text.Utf8

/-!
Texts and their octets are in the same order. Octets are compared one by one, the first that differ
decide, and a beginning is less than the whole.
-/

namespace ImageTrust.Text

/-- What follows the octets of two different characters has no say in their order. -/
theorem octetsOf_lt {v w : Nat} (h : v < w) (hw : w < 0x110000) (xs ys : Octets) :
    octetsOf v ++ xs < octetsOf w ++ ys := by
  -- a number by its digits to the base 64
  have hdigits : ∀ n : Nat, n < 0x110000 → n / 262144 % 8 = n / 262144
      ∧ n = n / 262144 * 262144 + n / 4096 % 64 * 4096 + n / 64 % 64 * 64 + n % 64 := by
    intro n hn
    omega
  have hvdigits := hdigits v (by omega)
  have hwdigits := hdigits w hw
  unfold octetsOf
  split_ifs
  all_goals
    simp (disch := omega) only [List.cons_append, List.nil_append, List.cons_lt_cons_iff,
      UInt8.lt_iff_toNat_lt, ← UInt8.toNat_inj, toNat_octet]
    omega

theorem append_lt_append {xs ys : Octets} (h : xs < ys) (before : Octets) :
    before ++ xs < before ++ ys := by
  induction before with
  | nil => exact h
  | cons b before ih => exact List.cons_lt_cons_iff.2 (.inr ⟨rfl, ih⟩)

theorem encodeChars_lt {cs ds : List Char} (h : cs < ds) : encodeChars cs < encodeChars ds := by
  induction ds generalizing cs with
  | nil => exact absurd h (List.not_lt_nil cs)
  | cons d ds ih =>
    have hds : encodeChars (d :: ds) = octetsOf d.toNat ++ encodeChars ds := rfl
    have hfilled : octetsOf d.toNat ≠ [] := String.utf8EncodeChar_ne_nil
    cases cs with
    | nil =>
      rw [hds]
      obtain ⟨b, bs, hb⟩ := List.exists_cons_of_ne_nil hfilled
      rw [hb]
      exact List.nil_lt_cons b _
    | cons c cs =>
      have hcs : encodeChars (c :: cs) = octetsOf c.toNat ++ encodeChars cs := rfl
      rw [hcs, hds]
      rcases List.cons_lt_cons_iff.1 h with hless | ⟨rfl, hrest⟩
      · have hnumbers : c.toNat < d.toNat := hless
        have hd := toNat_valid d
        exact octetsOf_lt hnumbers (by omega) _ _
      · exact append_lt_append (ih hrest) _

theorem encode_lt {s u : String} (h : s < u) : encode s < encode u := by
  rw [encode_eq_encodeChars, encode_eq_encodeChars]
  exact encodeChars_lt (String.lt_iff_toList_lt.1 h)

end ImageTrust.Text
