import Mathlib.Data.List.Basic
import Mathlib.Tactic.IntervalCases
import Mathlib.Tactic.SplitIfs
import ImageTrust.Json.Source
import ImageTrust.Proofs.Text.Utf8

/-!
What the reader makes of text that was written. Whichever characters are escaped, each escape stands
for one character, so a string is read back as it was; the tree read from a value's text mirrors the
value, whatever follows the text.
-/

namespace ImageTrust.Json

/-- The forms that a character may have inside a string. -/
inductive Escaped : Char → List Char → Prop where
  | plain (c) : c ≠ '"' → c ≠ '\\' → ¬ c.toNat < 0x20 → Escaped c [c]
  | letter (c e) : e ≠ 'u' → simpleEscape? e = some c → Escaped c ['\\', e]
  | code (c) : c.toNat < 0xd800 ∨ 0xe000 ≤ c.toNat → c.toNat < 0x10000 → Escaped c (unicodeEscape c)

/-- An escaping under which every character can be read back. -/
def Lossless (escape : Char → List Char) : Prop := ∀ c, Escaped c (escape c)

theorem escaped_escapeChar : Lossless escapeChar := by
  intro c
  unfold escapeChar
  split_ifs with h₁ h₂ h₃ h₄ h₅ h₆ h₇ h₈
  · subst h₁; exact .letter _ _ (by decide) rfl
  · subst h₂; exact .letter _ _ (by decide) rfl
  · subst h₃; exact .letter _ _ (by decide) rfl
  · subst h₄; exact .letter _ _ (by decide) rfl
  · subst h₅; exact .letter _ _ (by decide) rfl
  · subst h₆; exact .letter _ _ (by decide) rfl
  · subst h₇; exact .letter _ _ (by decide) rfl
  · exact .code c (.inl (by omega)) (by omega)
  · exact .plain c h₁ h₂ h₈

/-- The signer's form of a character inside a string. -/
def signerEscapeChar (c : Char) : List Char :=
  if isWebUnsafe c then unicodeEscape c else escapeChar c

theorem escaped_signerEscapeChar : Lossless signerEscapeChar := by
  intro c
  unfold signerEscapeChar
  split_ifs with h
  · -- all five characters lie below the surrogates
    have hc : c.toNat ≤ 0x2029 := by
      simp only [isWebUnsafe, Bool.or_eq_true, decide_eq_true_eq] at h
      rcases h with (((rfl | rfl) | rfl) | h) | h
      all_goals first | decide | omega
    exact .code c (.inl (by omega)) (by omega)
  · exact escaped_escapeChar c

theorem hexValue?_hexDigit {n : Nat} (h : n < 16) : hexValue? (hexDigit n) = some n := by
  interval_cases n <;> rfl

theorem hex4_unicodeEscape (c : Char) (rest : List Char) (h : c.toNat < 0x10000) :
    hex4 (((unicodeEscape c).drop 2) ++ rest) = .ok (c.toNat, rest) := by
  have digit (k : Nat) : hexValue? (hexDigit (k % 16)) = some (k % 16) :=
    hexValue?_hexDigit (Nat.mod_lt _ (by decide))
  simp only [unicodeEscape, List.drop_succ_cons, List.drop_zero, List.cons_append,
    List.nil_append, hex4, digit]
  congr 2
  omega

theorem unicodeChar_unicodeEscape (c : Char) (rest : List Char)
    (hs : c.toNat < 0xd800 ∨ 0xe000 ≤ c.toNat) (h : c.toNat < 0x10000) :
    unicodeChar (((unicodeEscape c).drop 2) ++ rest) = .ok (c, rest) := by
  unfold unicodeChar
  rw [hex4_unicodeEscape c rest h]
  have h₁ : (decide (0xdc00 ≤ c.toNat) && decide (c.toNat ≤ 0xdfff)) = false := by
    rcases hs with hs | hs <;> simp <;> omega
  have h₂ : (decide (0xd800 ≤ c.toNat) && decide (c.toNat ≤ 0xdbff)) = false := by
    rcases hs with hs | hs <;> simp <;> omega
  simp only [bind, Except.bind, h₁, h₂, Bool.false_eq_true, if_false, Char.ofNat_toNat]
  rfl

/-- One escaped character costs one step, however long its form is. -/
theorem unescapeLoop_escaped {c : Char} {raw : List Char} (h : Escaped c raw) (fuel : Nat)
    (out rest : List Char) :
    unescapeLoop (fuel + 1) out (raw ++ rest) = unescapeLoop fuel (c :: out) rest := by
  cases h with
  | plain _ hb => simp [unescapeLoop, hb]
  | letter e hu he => simp [unescapeLoop, hu, he]
  | code hs hb =>
    have hc := unicodeChar_unicodeEscape c rest hs hb
    simp only [unicodeEscape, List.drop_succ_cons, List.drop_zero, List.cons_append,
      List.nil_append] at hc
    simp [unescapeLoop, unicodeEscape, hc]

theorem unescapeLoop_flatMap {escape : Char → List Char} (he : Lossless escape) (cs : List Char) :
    ∀ fuel out, cs.length ≤ fuel →
      unescapeLoop fuel out (cs.flatMap escape) = .ok (out.reverse ++ cs) := by
  induction cs with
  | nil => intro fuel out _; cases fuel <;> simp [unescapeLoop]
  | cons c cs ih =>
    intro fuel out hf
    obtain ⟨fuel, rfl⟩ : ∃ k, fuel = k + 1 := ⟨fuel - 1, by simp at hf; omega⟩
    rw [List.flatMap_cons, unescapeLoop_escaped (he c), ih fuel _ (by simpa using hf)]
    simp

theorem Escaped.ne_nil {c : Char} {raw : List Char} (h : Escaped c raw) : 1 ≤ raw.length := by
  cases h <;> simp [unicodeEscape]

theorem length_le_flatMap {escape : Char → List Char} (he : Lossless escape) (cs : List Char) :
    cs.length ≤ (cs.flatMap escape).length := by
  induction cs with
  | nil => simp
  | cons c cs ih =>
    have := (he c).ne_nil
    simp only [List.flatMap_cons, List.length_append, List.length_cons]
    omega

theorem textOf?_flatMap {escape : Char → List Char} (he : Lossless escape) (s : String) :
    Source.textOf? (s.toList.flatMap escape) = some s := by
  unfold Source.textOf? unescape
  rw [unescapeLoop_flatMap he _ _ _ (length_le_flatMap he _)]
  simp [Except.map, Except.toOption]

theorem hexValue?_digits (k : Nat) : (hexValue? (hexDigit (k % 16))).isSome = true := by
  rw [hexValue?_hexDigit (Nat.mod_lt _ (by decide))]
  rfl

theorem scanString_escaped {c : Char} {raw : List Char} (h : Escaped c raw)
    (seen rest : List Char) :
    scanString seen (raw ++ rest) = scanString (raw.reverse ++ seen) rest := by
  cases h with
  | plain hq hb hc =>
    rw [List.singleton_append, scanString.eq_def]
    split <;> simp_all
  | letter e hu he =>
    simp [scanString, he]
  | code _ _ =>
    simp only [unicodeEscape, List.cons_append, List.nil_append]
    rw [scanString.eq_def]
    simp [hexValue?_digits]

theorem scanString_flatMap {escape : Char → List Char} (he : Lossless escape) (cs : List Char) :
    ∀ seen rest, scanString seen (cs.flatMap escape ++ '"' :: rest)
      = .ok (seen.reverse ++ cs.flatMap escape, rest) := by
  induction cs with
  | nil => intro seen rest; simp [scanString]
  | cons c cs ih =>
    intro seen rest
    rw [List.flatMap_cons, List.append_assoc, scanString_escaped (he c), ih]
    simp

theorem readString_flatMap {escape : Char → List Char} (he : Lossless escape) (s : String)
    (rest : List Char) : readString (s.toList.flatMap escape ++ '"' :: rest)
      = .ok (s.toList.flatMap escape, rest) := by
  simp [readString, scanString_flatMap he]

/-- An integer as it is written. -/
def Literal.ofInt (n : Int) : Literal :=
  ⟨decide (n < 0), Nat.toDigits 10 n.natAbs, [], none⟩

mutual

/-- The tree of a value's text. -/
def source (escape : Char → List Char) : Json → Source
  | .null => .null
  | .bool b => .bool b
  | .int n => .number (Literal.ofInt n)
  | .str s => .string (s.toList.flatMap escape)
  | .arr items => .array (sources escape items) .closed
  | .obj members => .object (memberSources escape members) .closed

/-- The trees of the items of an array. -/
def sources (escape : Char → List Char) : List Json → List Source
  | [] => []
  | item :: rest => source escape item :: sources escape rest

/-- The trees of the members of an object. -/
def memberSources (escape : Char → List Char) :
    List (String × Json) → List (List Char × Source)
  | [] => []
  | (key, value) :: rest =>
    (key.toList.flatMap escape, source escape value) :: memberSources escape rest

end

/-- Holds of text that does not go on with a number in front of it. -/
def EndsNumber (rest : List Char) : Prop :=
  ∀ c ∈ rest.head?, c.isDigit = false ∧ c ≠ '.' ∧ c ≠ 'e' ∧ c ≠ 'E'

theorem endsNumber_cons {c : Char} {rest : List Char}
    (h : c.isDigit = false ∧ c ≠ '.' ∧ c ≠ 'e' ∧ c ≠ 'E') : EndsNumber (c :: rest) := by
  intro d hd
  simp only [List.head?_cons, Option.mem_def, Option.some.injEq] at hd
  exact hd ▸ h

theorem toDigits_head_ne_zero (n : Nat) (h : 1 < (Nat.toDigits 10 n).length) :
    (Nat.toDigits 10 n).head? ≠ some '0' := by
  induction n using Nat.strongRecOn with
  | ind n ih =>
    rw [Nat.toDigits_eq_if (by decide)] at h ⊢
    split_ifs at h ⊢ with hn
    · simp at h
    · rw [List.head?_append_of_ne_nil _ Nat.toDigits_ne_nil]
      by_cases hk : n / 10 < 10
      · rw [Nat.toDigits_of_lt_base hk]
        have : 0 < n / 10 := by omega
        generalize n / 10 = k at *
        interval_cases k <;> decide
      · refine ih (n / 10) (by omega) ?_
        rw [Nat.toDigits_eq_if (by decide), if_neg hk]
        simp only [List.length_append, List.length_singleton]
        have := @Nat.length_toDigits_pos 10 (n / 10 / 10)
        omega

theorem takeWhile_digits {ds rest : List Char} (hd : ∀ c ∈ ds, c.isDigit = true)
    (hr : ∀ c ∈ rest.head?, c.isDigit = false) : (ds ++ rest).takeWhile Char.isDigit = ds
      ∧ (ds ++ rest).dropWhile Char.isDigit = rest := by
  have hs : rest.takeWhile Char.isDigit = [] ∧ rest.dropWhile Char.isDigit = rest := by
    cases rest with
    | nil => simp
    | cons c cs => simp [hr c rfl]
  rw [List.takeWhile_append_of_pos hd, List.dropWhile_append_of_pos hd, hs.1, hs.2]
  simp

theorem readNumber_toDigits (negative : Bool) (n : Nat) {rest : List Char}
    (hr : EndsNumber rest) : readNumber negative (Nat.toDigits 10 n ++ rest)
      = .ok (⟨negative, Nat.toDigits 10 n, [], none⟩, rest) := by
  obtain ⟨ht, hw⟩ := takeWhile_digits
    (fun c hc => Nat.isDigit_of_mem_toDigits (b := 10) (n := n) (by decide) (by decide) hc)
    fun c hc => (hr c hc).1
  have hne : (Nat.toDigits 10 n).isEmpty = false := by simp [Nat.toDigits_ne_nil]
  have hz : (decide ((Nat.toDigits 10 n).length > 1)
      && decide ((Nat.toDigits 10 n).head? = some '0')) = false := by
    by_cases h : 1 < (Nat.toDigits 10 n).length
    · simp [toDigits_head_ne_zero n h]
    · simp [h]
  have hf : readFraction rest = .ok ([], rest) := by
    cases rest with
    | nil => rfl
    | cons c cs =>
      unfold readFraction
      split
      · rename_i heq
        cases heq
        exact absurd rfl (hr _ rfl).2.1
      · rfl
  have hp : readPower rest = .ok (none, rest) := by
    cases rest with
    | nil => rfl
    | cons c cs => simp [readPower, (hr c rfl).2.2.1, (hr c rfl).2.2.2]
  simp only [readNumber, ht, hw, hne, hz, hf, hp, bind, Except.bind, Bool.false_eq_true, if_false]
  rfl

theorem skipBlanks_cons {c : Char} {cs : List Char} (h : isJsonBlank c = false) :
    skipBlanks (c :: cs) = c :: cs := by
  simp [skipBlanks, h]

/-- The characters that tokens other than digits begin with. -/
theorem token_not_blank : isJsonBlank '"' = false ∧ isJsonBlank '[' = false
    ∧ isJsonBlank ']' = false ∧ isJsonBlank '\x7b' = false ∧ isJsonBlank '\x7d' = false
    ∧ isJsonBlank 'n' = false ∧ isJsonBlank 't' = false ∧ isJsonBlank 'f' = false
    ∧ isJsonBlank '-' = false ∧ isJsonBlank ',' = false ∧ isJsonBlank ':' = false := by
  decide

theorem toList_toString_int (n : Int) :
    (toString n).toList = (if n < 0 then ['-'] else []) ++ Nat.toDigits 10 n.natAbs := by
  cases n with
  | ofNat m =>
    change (Nat.repr m).toList = _
    rw [Nat.toList_repr]
    simp
  | negSucc m =>
    change ("-" ++ Nat.repr (m + 1)).toList = _
    rw [String.toList_append, Nat.toList_repr, if_pos (by omega)]
    rfl

theorem digit_of_toDigits {n : Nat} {d : Char} {ds : List Char} (h : Nat.toDigits 10 n = d :: ds) :
    d.isDigit = true :=
  Nat.isDigit_of_mem_toDigits (b := 10) (n := n) (by decide) (by decide)
    (by rw [h]; exact List.mem_cons_self)

theorem ne_of_isDigit {d c : Char} (hd : d.isDigit = true) (hc : c.isDigit = false) : d ≠ c :=
  fun h => by simp [h, hc] at hd

theorem not_blank_of_isDigit {d : Char} (hd : d.isDigit = true) : isJsonBlank d = false := by
  simp [isJsonBlank, ne_of_isDigit hd (c := ' ') rfl, ne_of_isDigit hd (c := '\n') rfl,
    ne_of_isDigit hd (c := '\t') rfl, ne_of_isDigit hd (c := '\r') rfl]

/-- The text of a value begins with neither a blank nor the end of an array. -/
theorem render_cons (escape : Char → List Char) (v : Json) :
    ∃ c cs, render (quotedWith escape) v = c :: cs ∧ isJsonBlank c = false ∧ c ≠ ']' := by
  match v with
  | .null | .bool true | .bool false | .arr [] | .obj [] =>
    exact ⟨_, _, rfl, by decide, by decide⟩
  | .str s => exact ⟨_, _, rfl, by decide, by decide⟩
  | .arr (item :: items) => exact ⟨_, _, rfl, by decide, by decide⟩
  | .obj ((key, value) :: members) => exact ⟨_, _, rfl, by decide, by decide⟩
  | .int n =>
    rw [render, toList_toString_int]
    split_ifs with hn
    · exact ⟨_, _, rfl, by decide, by decide⟩
    · obtain ⟨d, ds, hd⟩ := List.exists_cons_of_ne_nil (@Nat.toDigits_ne_nil n.natAbs 10)
      have hdigit := digit_of_toDigits hd
      exact ⟨d, ds, hd, not_blank_of_isDigit hdigit, ne_of_isDigit hdigit rfl⟩

theorem render_pos (escape : Char → List Char) (v : Json) :
    0 < (render (quotedWith escape) v).length := by
  obtain ⟨c, cs, hc, -⟩ := render_cons escape v
  simp [hc]

theorem readValue_int (escape : Char → List Char) (n : Int) (fuel : Nat) {rest : List Char}
    (hr : EndsNumber rest) :
    readValue (fuel + 1) (render (quotedWith escape) (.int n) ++ rest)
      = (source escape (.int n), some rest) := by
  rw [render, toList_toString_int, List.append_assoc]
  split_ifs with hn
  · simp [readValue, skipBlanks_cons, token_not_blank, readNumber_toDigits true n.natAbs hr, leaf,
      Except.map, source, Literal.ofInt, hn]
  · obtain ⟨d, ds, hd⟩ := List.exists_cons_of_ne_nil (@Nat.toDigits_ne_nil n.natAbs 10)
    have hdigit := digit_of_toDigits hd
    have hne (c : Char) (hc : c.isDigit = false) : d ≠ c := ne_of_isDigit hdigit hc
    have hread := readNumber_toDigits false n.natAbs hr
    rw [hd] at hread ⊢
    simp only [List.nil_append, List.cons_append] at hread ⊢
    simp [readValue, skipBlanks_cons (not_blank_of_isDigit hdigit), hne '"' rfl, hne '[' rfl,
      hne '\x7b' rfl, hne 'n' rfl, hne 't' rfl, hne 'f' rfl, hne '-' rfl, hdigit, hread, leaf,
      Except.map, source, Literal.ofInt, hn, hd]

theorem readItem_of {fuel : Nat} {text tail : List Char} {item : Source} {items : List Source}
    {ending : Ending} {rest : Option (List Char)}
    (hv : readValue fuel (text ++ tail) = (item, some tail))
    (ht : readItems fuel false tail = (items, ending, rest)) :
    readItem (fuel + 1) (text ++ tail) = (item :: items, ending, rest) := by
  simp only [readItem, hv, ht]

theorem readMember_of {escape : Char → List Char} (he : Lossless escape) {fuel : Nat}
    (key : String) {text tail : List Char} {value : Source}
    {members : List (List Char × Source)} {ending : Ending} {rest : Option (List Char)}
    (hv : readValue fuel (text ++ tail) = (value, some tail))
    (ht : readMembers fuel false tail = (members, ending, rest)) :
    readMember (fuel + 1) (quotedWith escape key ++ ':' :: (text ++ tail))
      = ((key.toList.flatMap escape, value) :: members, ending, rest) := by
  have hs := readString_flatMap he key (':' :: (text ++ tail))
  simp only [quotedWith, List.cons_append, List.append_assoc, List.nil_append, readMember, hs]
  simp [skipBlanks_cons, token_not_blank, hv, ht]

theorem endsNumber_renderItems (escape : Char → List Char) (items : List Json)
    (rest : List Char) : EndsNumber (renderItems (quotedWith escape) items ++ ']' :: rest) := by
  cases items with
  | nil => exact endsNumber_cons (by decide)
  | cons item items => exact endsNumber_cons (by decide)

theorem endsNumber_renderMembers (escape : Char → List Char) (members : List (String × Json))
    (rest : List Char) : EndsNumber (renderMembers (quotedWith escape) members ++ '\x7d' :: rest) := by
  cases members with
  | nil => exact endsNumber_cons (by decide)
  | cons member members => exact endsNumber_cons (by decide)

mutual

/-- A value is read back from its text, whatever follows. -/
theorem readValue_render {escape : Char → List Char} (he : Lossless escape) (v : Json)
    (fuel : Nat) (rest : List Char) (hf : 3 * (render (quotedWith escape) v).length ≤ fuel)
    (hr : EndsNumber rest) :
    readValue fuel (render (quotedWith escape) v ++ rest) = (source escape v, some rest) := by
  have hp := render_pos escape v
  obtain ⟨fuel, rfl⟩ : ∃ k, fuel = k + 1 := ⟨fuel - 1, by omega⟩
  match v with
  | .null => simp [render, readValue, skipBlanks_cons, token_not_blank, readWord, leaf, Except.map, source]
  | .bool true =>
    simp [render, readValue, skipBlanks_cons, token_not_blank, readWord, leaf, Except.map, source]
  | .bool false =>
    simp [render, readValue, skipBlanks_cons, token_not_blank, readWord, leaf, Except.map, source]
  | .int n => exact readValue_int escape n fuel hr
  | .str s =>
    have hs := readString_flatMap he s rest
    simp [render, quotedWith, readValue, skipBlanks_cons, token_not_blank, leaf, Except.map, source, hs]
  | .arr [] =>
    obtain ⟨fuel, rfl⟩ : ∃ k, fuel = k + 1 := ⟨fuel - 1, by simp [render] at hf; omega⟩
    simp [render, readValue, readItems, skipBlanks_cons, token_not_blank, source, sources]
  | .arr (item :: items) =>
    simp only [render, List.length_cons, List.length_append, List.length_nil] at hf
    obtain ⟨fuel, rfl⟩ : ∃ k, fuel = k + 2 := ⟨fuel - 2, by omega⟩
    have hv := readValue_render he item fuel (renderItems (quotedWith escape) items ++ ']' :: rest) (by omega)
      (endsNumber_renderItems escape items rest)
    have hi := readItem_of hv (readItems_render he items fuel rest (by omega))
    obtain ⟨c, cs, hc, hb, hn⟩ := render_cons escape item
    rw [hc, List.cons_append] at hi
    simp [render, hc, readValue, readItems, skipBlanks_cons, token_not_blank, hb, hi, source, sources]
  | .obj [] =>
    obtain ⟨fuel, rfl⟩ : ∃ k, fuel = k + 1 := ⟨fuel - 1, by simp [render] at hf; omega⟩
    simp [render, readValue, readMembers, skipBlanks_cons, token_not_blank, source, memberSources]
  | .obj ((key, value) :: members) =>
    simp only [render, List.length_cons, List.length_append, List.length_nil] at hf
    obtain ⟨fuel, rfl⟩ : ∃ k, fuel = k + 2 := ⟨fuel - 2, by omega⟩
    have hv := readValue_render he value fuel (renderMembers (quotedWith escape) members ++ '\x7d' :: rest)
      (by omega) (endsNumber_renderMembers escape members rest)
    have hm := readMember_of he key hv (readMembers_render he members fuel rest (by omega))
    simp only [quotedWith, List.cons_append, List.append_assoc, List.nil_append] at hm
    simp [render, quotedWith, readValue, readMembers, skipBlanks_cons, token_not_blank, hm, source,
      memberSources]

/-- Items behind the first are read back up to the end of their array. -/
theorem readItems_render {escape : Char → List Char} (he : Lossless escape) (items : List Json)
    (fuel : Nat) (rest : List Char) (hf : 3 * ((renderItems (quotedWith escape) items).length + 1) ≤ fuel) :
    readItems fuel false (renderItems (quotedWith escape) items ++ ']' :: rest)
      = (sources escape items, .closed, some rest) := by
  obtain ⟨fuel, rfl⟩ : ∃ k, fuel = k + 2 := ⟨fuel - 2, by omega⟩
  match items with
  | [] => simp [renderItems, readItems, skipBlanks_cons, token_not_blank, sources]
  | item :: items =>
    simp only [renderItems, List.length_cons, List.length_append] at hf
    have hv := readValue_render he item fuel (renderItems (quotedWith escape) items ++ ']' :: rest) (by omega)
      (endsNumber_renderItems escape items rest)
    have hi := readItem_of hv (readItems_render he items fuel rest (by omega))
    obtain ⟨c, cs, hc, hb, hn⟩ := render_cons escape item
    rw [hc, List.cons_append] at hi
    simp [renderItems, hc, readItems, skipBlanks_cons, token_not_blank, hb, hi, sources]

/-- Members behind the first are read back up to the end of their object. -/
theorem readMembers_render {escape : Char → List Char} (he : Lossless escape)
    (members : List (String × Json)) (fuel : Nat) (rest : List Char)
    (hf : 3 * ((renderMembers (quotedWith escape) members).length + 1) ≤ fuel) :
    readMembers fuel false (renderMembers (quotedWith escape) members ++ '\x7d' :: rest)
      = (memberSources escape members, .closed, some rest) := by
  obtain ⟨fuel, rfl⟩ : ∃ k, fuel = k + 2 := ⟨fuel - 2, by omega⟩
  match members with
  | [] => simp [renderMembers, readMembers, skipBlanks_cons, token_not_blank, memberSources]
  | (key, value) :: members =>
    simp only [renderMembers, List.length_cons, List.length_append] at hf
    have hv := readValue_render he value fuel (renderMembers (quotedWith escape) members ++ '\x7d' :: rest)
      (by omega) (endsNumber_renderMembers escape members rest)
    have hm := readMember_of he key hv (readMembers_render he members fuel rest (by omega))
    simp only [quotedWith, List.cons_append, List.append_assoc, List.nil_append] at hm
    simp [renderMembers, quotedWith, readMembers, skipBlanks_cons, token_not_blank, hm, memberSources]

end

/-- The document of a value's text is the value's tree, and nothing stands behind it. -/
theorem readDocument_render {escape : Char → List Char} (he : Lossless escape) (v : Json) :
    readDocument (render (quotedWith escape) v) = ⟨source escape v, true⟩ := by
  have h := readValue_render he v (3 * (render (quotedWith escape) v).length + 3) [] (by omega)
    (by simp [EndsNumber])
  rw [List.append_nil] at h
  simp [readDocument, h, skipBlanks]

theorem lenientLoop_encodeChars (cs : List Char) :
    ∀ fuel out, (Text.encodeChars cs).length ≤ fuel →
      lenientLoop fuel out (Text.encodeChars cs) = out.reverse ++ cs := by
  induction cs with
  | nil => intro fuel out _; cases fuel <;> simp [Text.encodeChars, lenientLoop]
  | cons c cs ih =>
    intro fuel out hf
    have hc : Text.encodeChars (c :: cs) = String.utf8EncodeChar c ++ Text.encodeChars cs := rfl
    obtain ⟨b, bs, hb⟩ := List.exists_cons_of_ne_nil (String.utf8EncodeChar_ne_nil (c := c))
    have hd := Text.decodeChar?_encode c (Text.encodeChars cs)
    rw [hc, hb, List.cons_append] at hf ⊢
    rw [hb, List.cons_append] at hd
    simp only [List.length_cons, List.length_append] at hf
    obtain ⟨fuel, rfl⟩ : ∃ k, fuel = k + 1 := ⟨fuel - 1, by omega⟩
    simp only [lenientLoop, hd]
    rw [ih fuel _ (by omega)]
    simp

/-- Reading the octets of a text is reading the text. -/
theorem readOctets_encode (s : String) : readOctets (Text.encode s) = readDocument s.toList := by
  rw [Text.encode_eq_encodeChars, readOctets, lenientLoop_encodeChars _ _ _ (Nat.le_refl _)]
  simp

end ImageTrust.Json
