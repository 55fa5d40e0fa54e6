import Mathlib.Data.Option.Basic
import Mathlib.Data.List.TakeWhile
import ImageTrust.Text.Blank

/-!
Blanks around a text. Trimming leaves nothing of them, so texts that differ in the blanks around them
alone are the same once they are trimmed.
-/

namespace ImageTrust.Text

/-- A text is what is within it, with blanks before and after. -/
def Surrounds (s inner : String) : Prop :=
  ∃ before after : List Char, (∀ c ∈ before, isBlank c = true) ∧ (∀ c ∈ after, isBlank c = true)
    ∧ s.toList = before ++ inner.toList ++ after

/-- Two texts that differ in nothing but the blanks around them. -/
def SameWithin (s s' : String) : Prop :=
  ∃ inner, Surrounds s inner ∧ Surrounds s' inner

theorem surrounds_of_all {s inner : String} (before after : List Char)
    (hbefore : before.all isBlank = true) (hafter : after.all isBlank = true)
    (h : s.toList = before ++ inner.toList ++ after) : Surrounds s inner :=
  ⟨before, after, List.all_eq_true.1 hbefore, List.all_eq_true.1 hafter, h⟩

theorem dropEndWhile_append {p : Char → Bool} {after : List Char} (h : ∀ c ∈ after, p c = true)
    (cs : List Char) : dropEndWhile p (cs ++ after) = dropEndWhile p cs := by
  unfold dropEndWhile
  rw [List.reverse_append, List.dropWhile_append_of_pos]
  simpa using h

theorem trimChars_surrounded {before after : List Char} (hbefore : ∀ c ∈ before, isBlank c = true)
    (hafter : ∀ c ∈ after, isBlank c = true) (inner : List Char) :
    trimChars (before ++ inner ++ after) = trimChars inner := by
  unfold trimChars
  rw [List.append_assoc, List.dropWhile_append_of_pos hbefore, List.dropWhile_append]
  split
  · -- nothing but blanks is left on either side
    rename_i h
    rw [List.isEmpty_iff.1 h, List.dropWhile_eq_nil_iff.2 hafter]
  · exact dropEndWhile_append hafter _

theorem trim_of_surrounds {s inner : String} (h : Surrounds s inner) : trim s = trim inner := by
  obtain ⟨before, after, hbefore, hafter, heq⟩ := h
  unfold trim
  rw [heq, trimChars_surrounded hbefore hafter]

theorem SameWithin.trim_eq {s s' : String} (h : SameWithin s s') : trim s = trim s' := by
  obtain ⟨inner, h, h'⟩ := h
  rw [trim_of_surrounds h, trim_of_surrounds h']

end ImageTrust.Text
