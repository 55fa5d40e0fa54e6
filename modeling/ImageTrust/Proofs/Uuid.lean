import Mathlib.Data.List.Basic
import ImageTrust.Uuid

/-!
The form of UUIDs. A text writes a UUID exactly when it consists of five groups of hexadecimal digits
with hyphens between them, and then the UUID has these digits. Its version is the digit behind the
second hyphen.
-/

namespace ImageTrust.Uuid

/-- Groups of 8, 4, 4, 4 and 12 hexadecimal digits with hyphens between them. -/
def IsHyphenated (s : String) : Prop :=
  ∃ groups : List (List Char), groups.map List.length = [8, 4, 4, 4, 12]
    ∧ (∀ g ∈ groups, g.all isHexDigit = true) ∧ s.toList = ['-'].intercalate groups

/-- A UUID of version 4 in hyphenated form. -/
def IsVersionFour (s : String) : Prop :=
  IsHyphenated s ∧ s.toList[14]? = some '4'

theorem readGroups_last {n : Nat} {cs ds : List Char} :
    readGroups [n] cs = some ds ↔ cs.length = n ∧ cs.all isHexDigit = true ∧ ds = cs := by
  rw [readGroups]
  split
  · rename_i h
    simp only [Bool.and_eq_true, decide_eq_true_eq] at h
    simp [h, eq_comm]
  · rename_i h
    simp only [Bool.and_eq_true, decide_eq_true_eq] at h
    simp only [reduceCtorEq, false_iff]
    rintro ⟨hl, hd, -⟩
    exact h ⟨hl, hd⟩

theorem readGroups_more {n m : Nat} {more : List Nat} {cs ds : List Char} :
    readGroups (n :: m :: more) cs = some ds ↔ ∃ g rest ds', cs = g ++ '-' :: rest
      ∧ g.length = n ∧ g.all isHexDigit = true ∧ readGroups (m :: more) rest = some ds'
      ∧ ds = g ++ ds' := by
  constructor
  · intro h
    rw [readGroups] at h
    · split at h
      · rename_i rest hdrop
        split at h
        · rename_i hc
          simp only [Bool.and_eq_true, decide_eq_true_eq] at hc
          obtain ⟨ds', hds, rfl⟩ := Option.map_eq_some_iff.1 h
          exact ⟨cs.take n, rest, ds', by rw [← hdrop, List.take_append_drop], hc.1, hc.2, hds, rfl⟩
        · cases h
      · cases h
    · simp
  · rintro ⟨g, rest, ds', rfl, rfl, hd, h, rfl⟩
    rw [readGroups]
    · simp [hd, h]
    · simp

theorem readGroups_eq_some_iff {lengths : List Nat} {cs ds : List Char} :
    readGroups lengths cs = some ds ↔ ∃ groups : List (List Char),
      groups.map List.length = lengths ∧ (∀ g ∈ groups, g.all isHexDigit = true)
        ∧ cs = ['-'].intercalate groups ∧ ds = groups.flatten := by
  induction lengths generalizing cs ds with
  | nil => cases cs <;> cases ds <;> simp [readGroups]
  | cons n more ih =>
    cases more with
    | nil =>
      rw [readGroups_last]
      constructor
      · rintro ⟨hl, hd, rfl⟩
        exact ⟨[ds], by simp [hl], by simpa using hd, List.intercalate_singleton.symm, by simp⟩
      · rintro ⟨groups, hl, hd, rfl, rfl⟩
        obtain ⟨g, rest, rfl, hg, hrest⟩ := List.map_eq_cons_iff.1 hl
        obtain rfl := List.map_eq_nil_iff.1 hrest
        simpa [hg] using hd g (List.mem_singleton_self g)
    | cons m more =>
      rw [readGroups_more]
      constructor
      · rintro ⟨g, rest, ds', rfl, hg, hd, h, rfl⟩
        obtain ⟨groups, hl, hds, rfl, rfl⟩ := ih.1 h
        obtain ⟨g', others, rfl, -, -⟩ := List.map_eq_cons_iff.1 hl
        refine ⟨g :: g' :: others, by simp [hg, hl], List.forall_mem_cons.2 ⟨hd, hds⟩, ?_, rfl⟩
        rw [List.intercalate_cons_cons, List.append_assoc, List.singleton_append]
      · rintro ⟨groups, hl, hd, rfl, rfl⟩
        obtain ⟨g, rest, rfl, hg, hrest⟩ := List.map_eq_cons_iff.1 hl
        obtain ⟨g', others, rfl, -, -⟩ := List.map_eq_cons_iff.1 hrest
        obtain ⟨hdg, hds⟩ := List.forall_mem_cons.1 hd
        refine ⟨g, ['-'].intercalate (g' :: others), _, ?_, hg, hdg, ih.2 ⟨_, hrest, hds, rfl, rfl⟩, rfl⟩
        rw [List.intercalate_cons_cons, List.append_assoc, List.singleton_append]

theorem parse?_isSome_iff {s : String} : (parse? s).isSome = true ↔ IsHyphenated s := by
  unfold parse? IsHyphenated
  rw [Option.isSome_map, Option.isSome_iff_exists]
  simp only [readGroups_eq_some_iff]
  constructor
  · rintro ⟨_, groups, hl, hd, hs, -⟩
    exact ⟨groups, hl, hd, hs⟩
  · rintro ⟨groups, hl, hd, hs⟩
    exact ⟨_, groups, hl, hd, hs, rfl⟩

theorem parse?_eq_none_iff {s : String} : parse? s = none ↔ ¬ IsHyphenated s := by
  rw [← parse?_isSome_iff, Option.not_isSome_iff_eq_none]

theorem isHardwareId_iff {s : String} : isHardwareId s = true ↔ IsHyphenated s :=
  parse?_isSome_iff

theorem toLower_eq_four_iff (c : Char) : c.toLower = '4' ↔ c = '4' := by
  constructor
  · intro h
    unfold Char.toLower at h
    split at h
    · rename_i hc
      -- a capital letter becomes a small one, which is no digit
      have hv := congrArg Char.toNat h
      have hA := hc.1
      simp only [Char.toNat, UInt32.le_iff_toNat_le, ge_iff_le, UInt32.toNat_add] at hv hA
      have hZ := UInt32.le_iff_toNat_le.1 hc.2
      have h₁ : 'A'.val.toNat = 65 := rfl
      have h₂ : 'Z'.val.toNat = 90 := rfl
      have h₃ : ('a'.val - 'A'.val).toNat = 32 := rfl
      have h₄ : '4'.val.toNat = 52 := rfl
      omega
    · exact h
  · rintro rfl
    rfl

/-- The third group stands behind two groups and two hyphens in the text, and behind the two groups
among the digits. -/
theorem third_group {a b c d : List Char} {more : List (List Char)} (ha : a.length = 8)
    (hb : b.length = 4) (hc : c.length = 4) :
    (a :: b :: c :: d :: more).flatten[12]?
      = (['-'].intercalate (a :: b :: c :: d :: more))[14]? := by
  obtain ⟨c₀, cs, rfl⟩ := List.exists_cons_of_length_pos (show 0 < c.length by omega)
  have hat : ∀ (front rest : List Char) (n : Nat), front.length = n →
      (front ++ c₀ :: rest)[n]? = some c₀ := by
    rintro front rest _ rfl
    simp
  have hdigits : (a :: b :: (c₀ :: cs) :: d :: more).flatten
      = (a ++ b) ++ c₀ :: (cs ++ (d :: more).flatten) := by
    simp
  have htext : ['-'].intercalate (a :: b :: (c₀ :: cs) :: d :: more)
      = (a ++ '-' :: b ++ ['-']) ++ c₀ :: (cs ++ '-' :: ['-'].intercalate (d :: more)) := by
    simp [List.intercalate_cons_cons]
  rw [hdigits, htext, hat _ _ 12 (by simp [ha, hb]), hat _ _ 14 (by simp [ha, hb])]

theorem version_digit {s : String} {u : Uuid} (h : parse? s = some u) :
    u.digits[12]? = (s.toList[14]?).map Char.toLower := by
  obtain ⟨ds, hds, rfl⟩ := Option.map_eq_some_iff.1 h
  obtain ⟨groups, hl, -, hs, rfl⟩ := readGroups_eq_some_iff.1 hds
  obtain ⟨a, _, rfl, ha, hl⟩ := List.map_eq_cons_iff.1 hl
  obtain ⟨b, _, rfl, hb, hl⟩ := List.map_eq_cons_iff.1 hl
  obtain ⟨c, _, rfl, hc, hl⟩ := List.map_eq_cons_iff.1 hl
  obtain ⟨d, more, rfl, -, -⟩ := List.map_eq_cons_iff.1 hl
  rw [hs, List.getElem?_map, third_group ha hb hc]

theorem isRandomId_iff {s : String} : isRandomId s = true ↔ IsVersionFour s := by
  unfold isRandomId IsVersionFour
  rw [← parse?_isSome_iff]
  cases h : parse? s with
  | none => simp
  | some u =>
    simp only [Option.map_some, Option.getD_some, isRandom, decide_eq_true_eq, Option.isSome_some,
      true_and]
    rw [version_digit h, Option.map_eq_some_iff]
    simp only [toLower_eq_four_iff, exists_eq_right]

end ImageTrust.Uuid
