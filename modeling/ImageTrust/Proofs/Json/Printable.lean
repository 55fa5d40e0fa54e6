import ImageTrust.Proofs.Json.ReadBack

/-!
The compact text of a value is a single line: every control character in a string is written as an
escape, and nothing else in the text is one.
-/

namespace ImageTrust.Json

/-- Text without control characters. -/
def Printable (cs : List Char) : Prop :=
  ∀ c ∈ cs, 0x20 ≤ c.toNat

instance (cs : List Char) : Decidable (Printable cs) :=
  List.decidableBAll _ cs

theorem Printable.append {cs ds : List Char} (hc : Printable cs) (hd : Printable ds) :
    Printable (cs ++ ds) :=
  List.forall_mem_append.2 ⟨hc, hd⟩

theorem Printable.cons {c : Char} {cs : List Char} (hc : 0x20 ≤ c.toNat) (hd : Printable cs) :
    Printable (c :: cs) :=
  List.forall_mem_cons.2 ⟨hc, hd⟩

theorem Printable.nil : Printable [] := nofun

theorem Printable.not_mem {cs : List Char} {c : Char} (h : Printable cs) (hc : c.toNat < 0x20) :
    c ∉ cs := fun hm => absurd (h c hm) (Nat.not_le.2 hc)

theorem printable_hexDigit {n : Nat} (h : n < 16) : 0x20 ≤ (hexDigit n).toNat := by
  interval_cases n <;> decide

theorem printable_unicodeEscape (c : Char) : Printable (unicodeEscape c) := by
  have digit (k : Nat) : 0x20 ≤ (hexDigit (k % 16)).toNat :=
    printable_hexDigit (Nat.mod_lt _ (by decide))
  exact .cons (by decide) <| .cons (by decide) <| .cons (digit _) <| .cons (digit _) <|
    .cons (digit _) <| .cons (digit _) .nil

theorem printable_escapeChar (c : Char) : Printable (escapeChar c) := by
  have pair (d : Char) (h : 0x20 ≤ d.toNat) : Printable ['\\', d] :=
    .cons (by decide) (.cons h .nil)
  unfold escapeChar
  split_ifs with h₁ h₂ h₃ h₄ h₅ h₆ h₇ h₈
  · exact pair _ (by decide)
  · exact pair _ (by decide)
  · exact pair _ (by decide)
  · exact pair _ (by decide)
  · exact pair _ (by decide)
  · exact pair _ (by decide)
  · exact pair _ (by decide)
  · exact printable_unicodeEscape c
  · exact .cons (Nat.not_lt.1 h₈) .nil

theorem printable_quotedWith (s : String) : Printable (quotedWith escapeChar s) := by
  refine .cons (by decide) (.append ?_ (.cons (by decide) .nil))
  intro d hd
  obtain ⟨c, -, hc⟩ := List.mem_flatMap.1 hd
  exact printable_escapeChar c d hc

theorem printable_int (n : Int) : Printable (toString n).toList := by
  rw [toList_toString_int]
  refine .append ?_ ?_
  · split
    · exact .cons (by decide) .nil
    · exact .nil
  · intro c hc
    have hd := Nat.isDigit_of_mem_toDigits (b := 10) (by decide) (by decide) hc
    simp only [Char.isDigit, Bool.and_eq_true, decide_eq_true_eq] at hd
    exact Nat.le_trans (by decide) (UInt32.le_iff_toNat_le.1 hd.1)

mutual

/-- The induction is on the value together with the items and members behind a first one. -/
theorem printable_render (v : Json) : Printable (render (quotedWith escapeChar) v) := by
  cases v with
  | null => decide
  | bool b => cases b <;> decide
  | int n => exact printable_int n
  | str s => exact printable_quotedWith s
  | arr items =>
    cases items with
    | nil => decide
    | cons item rest =>
      exact .cons (by decide) <| .append (printable_render item) <|
        .append (printable_renderItems rest) (by decide)
  | obj members =>
    cases members with
    | nil => decide
    | cons member rest =>
      exact .cons (by decide) <| .append (printable_quotedWith member.1) <| .cons (by decide) <|
        .append (printable_render member.2) <| .append (printable_renderMembers rest) (by decide)

theorem printable_renderItems (items : List Json) :
    Printable (renderItems (quotedWith escapeChar) items) := by
  cases items with
  | nil => exact .nil
  | cons item rest =>
    exact .cons (by decide) <| .append (printable_render item) (printable_renderItems rest)

theorem printable_renderMembers (members : List (String × Json)) :
    Printable (renderMembers (quotedWith escapeChar) members) := by
  cases members with
  | nil => exact .nil
  | cons member rest =>
    exact .cons (by decide) <| .append (printable_quotedWith member.1) <| .cons (by decide) <|
      .append (printable_render member.2) (printable_renderMembers rest)

end

/-- No line ends inside the compact text of a value. -/
theorem newline_not_mem_compact (v : Json) : '\n' ∉ v.compact.toList := by
  rw [compact, String.toList_ofList]
  exact (printable_render v).not_mem (by decide)

end ImageTrust.Json
