import ImageTrust.Proofs.Fallible
import ImageTrust.Proofs.Json.ReadBack

/-!
Strings of JSON text. What may stand between quotes is one thing, what it spells another: a pair of escapes
that is no character may be written, but it has no text. The reader takes a string whole, and its text is
what it spells.
-/

namespace ImageTrust.Json

/-- The letters of escapes and the characters that they stand for. -/
def letterEscapes : List (Char × Char) :=
  [('"', '"'), ('\\', '\\'), ('/', '/'), ('b', '\x08'), ('f', '\x0c'), ('n', '\n'), ('r', '\r'),
    ('t', '\t')]

/-- The hexadecimal digits of both cases and their values. -/
def hexDigits : List (Char × Nat) :=
  ['0', '1', '2', '3', '4', '5', '6', '7', '8', '9', 'a', 'b', 'c', 'd', 'e', 'f'].zipIdx
    ++ ['A', 'B', 'C', 'D', 'E', 'F'].zipIdx 10

/-- Four hexadecimal digits and their value. -/
inductive CodeText : List Char → Nat → Prop where
  | mk {h i j k a b c d} : (h, a) ∈ hexDigits → (i, b) ∈ hexDigits → (j, c) ∈ hexDigits →
    (k, d) ∈ hexDigits → CodeText [h, i, j, k] (a * 4096 + b * 256 + c * 16 + d)

/-- What may stand between the quotes of a string. -/
inductive StringText : List Char → Prop where
  | nil : StringText []
  | plain {c raw} : c ≠ '"' → c ≠ '\\' → 0x20 ≤ c.toNat → StringText raw → StringText (c :: raw)
  | letter {e c raw} : (e, c) ∈ letterEscapes → StringText raw → StringText ('\\' :: e :: raw)
  | code {ds n raw} : CodeText ds n → StringText raw → StringText ('\\' :: 'u' :: (ds ++ raw))

/-- What a string as written stands for. A character beyond the range of four digits is a pair of
escapes. -/
inductive Spells : List Char → List Char → Prop where
  | nil : Spells [] []
  | plain {c raw cs} : c ≠ '\\' → Spells raw cs → Spells (c :: raw) (c :: cs)
  | letter {e c raw cs} : (e, c) ∈ letterEscapes → Spells raw cs →
    Spells ('\\' :: e :: raw) (c :: cs)
  | code {ds n raw cs} : CodeText ds n → n < 0xd800 ∨ 0xdfff < n → Spells raw cs →
    Spells ('\\' :: 'u' :: (ds ++ raw)) (Char.ofNat n :: cs)
  | pair {ds n es m raw cs} : CodeText ds n → 0xd800 ≤ n ∧ n ≤ 0xdbff → CodeText es m →
    0xdc00 ≤ m ∧ m ≤ 0xdfff → Spells raw cs →
    Spells ('\\' :: 'u' :: (ds ++ '\\' :: 'u' :: (es ++ raw)))
      (Char.ofNat (0x10000 + (n - 0xd800) * 0x400 + (m - 0xdc00)) :: cs)

section Strings

variable {raw cs rest : List Char} {c : Char} {n : Nat}

theorem hexValue?_eq_some_iff : hexValue? c = some n ↔ (c, n) ∈ hexDigits := by
  have hall : ∀ v < 103, (hexValue? (Char.ofNat v)).all
      (fun n => (Char.ofNat v, n) ∈ hexDigits) = true := by
    decide
  have hvalues : ∀ p ∈ hexDigits, hexValue? p.1 = some p.2 := by decide
  constructor
  · intro h
    have hsmall : c.toNat < 103 := by
      unfold hexValue? at h
      dsimp only at h
      simp only [Bool.and_eq_true, decide_eq_true_eq] at h
      split_ifs at h <;> omega
    have hc := hall c.toNat hsmall
    rw [Char.ofNat_toNat, h] at hc
    simpa using hc
  · exact hvalues (c, n)

theorem simpleEscape?_eq_some_iff {e : Char} : simpleEscape? e = some c ↔ (e, c) ∈ letterEscapes := by
  have hvalues : ∀ p ∈ letterEscapes, simpleEscape? p.1 = some p.2 := by decide
  constructor
  · intro h
    unfold simpleEscape? at h
    split_ifs at h with h₁ h₂ h₃ h₄ h₅ h₆ h₇ h₈ <;> subst_vars <;> cases h <;> decide
  · exact hvalues (e, c)

theorem letter_ne_code {e : Char} (h : (e, c) ∈ letterEscapes) : e ≠ 'u' := by
  rintro rfl
  rw [← simpleEscape?_eq_some_iff] at h
  cases h

theorem hex4_ok_iff :
    hex4 cs = .ok (n, rest) ↔ ∃ ds, CodeText ds n ∧ cs = ds ++ rest := by
  constructor
  · intro h
    unfold hex4 at h
    split at h
    · split at h
      · rename_i hi hj hk hl
        cases h
        exact ⟨_, ⟨hexValue?_eq_some_iff.1 hi, hexValue?_eq_some_iff.1 hj,
          hexValue?_eq_some_iff.1 hk, hexValue?_eq_some_iff.1 hl⟩, rfl⟩
      · cases h
    · split at h <;> cases h
  · rintro ⟨ds, ⟨ha, hb, hc, hd⟩, rfl⟩
    rw [← hexValue?_eq_some_iff] at ha hb hc hd
    simp only [hex4, List.cons_append, List.nil_append, ha, hb, hc, hd]

theorem CodeText.length {ds : List Char} (h : CodeText ds n) : ds.length = 4 := by
  cases h
  rfl

theorem scanString_code {ds : List Char} (h : CodeText ds n) (seen rest : List Char) :
    scanString seen ('\\' :: 'u' :: (ds ++ rest))
      = scanString (('\\' :: 'u' :: ds).reverse ++ seen) rest := by
  obtain ⟨ha, hb, hc, hd⟩ := h
  rw [← hexValue?_eq_some_iff] at ha hb hc hd
  simp only [List.cons_append, List.nil_append]
  rw [scanString.eq_def]
  simp [ha, hb, hc, hd]

/-- A string is scanned up to the quote that closes it. -/
theorem StringText.scan (h : StringText raw) (seen rest : List Char) :
    scanString seen (raw ++ '"' :: rest) = .ok (seen.reverse ++ raw, rest) := by
  induction h generalizing seen with
  | nil => simp [scanString]
  | @plain c raw hquote hback hvisible _ ih =>
    have hstep := scanString_escaped (.plain c hquote hback (by omega)) seen (raw ++ '"' :: rest)
    rw [List.cons_append, ← List.singleton_append, hstep, ih]
    simp
  | @letter e c raw hletter _ ih =>
    have hstep := scanString_escaped
      (.letter c e (letter_ne_code hletter) (simpleEscape?_eq_some_iff.2 hletter)) seen
      (raw ++ '"' :: rest)
    simp only [List.cons_append, List.nil_append] at hstep ⊢
    rw [hstep, ih]
    simp
  | @code ds n raw hcode _ ih =>
    simp only [List.cons_append, List.append_assoc]
    rw [scanString_code hcode, ih]
    simp

theorem StringText.read (h : StringText raw) (rest : List Char) :
    readString (raw ++ '"' :: rest) = .ok (raw, rest) := by
  unfold readString
  rw [h.scan]
  rfl

/-- The character of an escape of four digits, or of two of them. -/
theorem unicodeChar_ok_iff : unicodeChar cs = .ok (c, rest) ↔
    (∃ ds n, CodeText ds n ∧ (n < 0xd800 ∨ 0xdfff < n) ∧ c = Char.ofNat n ∧ cs = ds ++ rest)
    ∨ ∃ ds n es m, CodeText ds n ∧ (0xd800 ≤ n ∧ n ≤ 0xdbff) ∧ CodeText es m
      ∧ (0xdc00 ≤ m ∧ m ≤ 0xdfff)
      ∧ c = Char.ofNat (0x10000 + (n - 0xd800) * 0x400 + (m - 0xdc00))
      ∧ cs = ds ++ '\\' :: 'u' :: (es ++ rest) := by
  unfold unicodeChar
  constructor
  · intro h
    obtain ⟨⟨n, behind⟩, hn, hchar⟩ := (bind_ok_iff _ _ _).1 h
    clear h
    obtain ⟨ds, hds, rfl⟩ := hex4_ok_iff.1 hn
    dsimp only at hchar
    simp only [Bool.and_eq_true, decide_eq_true_eq] at hchar
    split_ifs at hchar with hlow hhigh
    · split at hchar
      · cases hchar
      · cases hchar
      · obtain ⟨⟨m, behind⟩, hm, hpair⟩ := (bind_ok_iff _ _ _).1 hchar
        obtain ⟨es, hes, rfl⟩ := hex4_ok_iff.1 hm
        split_ifs at hpair with hpartner
        obtain ⟨hc, rfl⟩ := Prod.mk.inj (Except.ok.inj hpair)
        exact .inr ⟨ds, n, es, m, hds, hhigh, hes, hpartner, hc.symm, rfl⟩
      · cases hchar
    · cases hchar
      exact .inl ⟨ds, n, hds, by omega, rfl, rfl⟩
  · rintro (⟨ds, n, hds, hn, hc, hcs⟩ | ⟨ds, n, es, m, hds, hn, hes, hm, hc, hcs⟩)
    · have hread : hex4 (ds ++ rest) = .ok (n, rest) := hex4_ok_iff.2 ⟨ds, hds, rfl⟩
      rw [hcs, hc, hread, ok_bind]
      simp only [Bool.and_eq_true, decide_eq_true_eq]
      rw [if_neg (by omega), if_neg (by omega)]
      rfl
    · have hread : hex4 (ds ++ '\\' :: 'u' :: (es ++ rest)) = .ok (n, '\\' :: 'u' :: (es ++ rest)) :=
        hex4_ok_iff.2 ⟨ds, hds, rfl⟩
      have hpartner : hex4 (es ++ rest) = .ok (m, rest) := hex4_ok_iff.2 ⟨es, hes, rfl⟩
      rw [hcs, hc, hread, ok_bind]
      simp only [Bool.and_eq_true, decide_eq_true_eq]
      rw [if_neg (by omega), if_pos hn, hpartner, ok_bind, if_pos hm]
      rfl

/-- An escape of digits is resolved in one step. -/
theorem unescapeLoop_code {behind : List Char} (h : unicodeChar cs = .ok (c, behind)) (fuel : Nat)
    (out : List Char) :
    unescapeLoop (fuel + 1) out ('\\' :: 'u' :: cs) = unescapeLoop fuel (c :: out) behind := by
  simp only [unescapeLoop, if_true, h]

/-- A string is resolved to what it spells. -/
theorem Spells.unescape_loop {cs : List Char} (h : Spells raw cs) :
    ∀ fuel out, raw.length ≤ fuel → unescapeLoop fuel out raw = .ok (out.reverse ++ cs) := by
  induction h with
  | nil =>
    intro fuel out _
    cases fuel <;> simp [unescapeLoop]
  | @plain c raw cs hplain _ ih =>
    rintro (_ | fuel) out hfuel
    · simp at hfuel
    · simp only [unescapeLoop, hplain, if_false]
      rw [ih _ _ (by simpa using hfuel)]
      simp
  | @letter e c raw cs hletter _ ih =>
    rintro (_ | fuel) out hfuel
    · simp at hfuel
    · have hstep := unescapeLoop_escaped
        (.letter c e (letter_ne_code hletter) (simpleEscape?_eq_some_iff.2 hletter)) fuel out raw
      simp only [List.cons_append, List.nil_append] at hstep
      rw [hstep, ih _ _ (by simp at hfuel; omega)]
      simp
  | @code ds n raw cs hcode hn _ ih =>
    rintro (_ | fuel) out hfuel
    · simp at hfuel
    · have hchar : unicodeChar (ds ++ raw) = .ok (Char.ofNat n, raw) :=
        unicodeChar_ok_iff.2 (.inl ⟨ds, n, hcode, hn, rfl, rfl⟩)
      rw [unescapeLoop_code hchar, ih _ _ (by simp at hfuel; omega)]
      simp
  | @pair ds n es m raw cs hcode hn hcode' hm _ ih =>
    rintro (_ | fuel) out hfuel
    · simp at hfuel
    · have hchar : unicodeChar (ds ++ '\\' :: 'u' :: (es ++ raw))
          = .ok (Char.ofNat (0x10000 + (n - 0xd800) * 0x400 + (m - 0xdc00)), raw) :=
        unicodeChar_ok_iff.2 (.inr ⟨ds, n, es, m, hcode, hn, hcode', hm, rfl, rfl⟩)
      rw [unescapeLoop_code hchar, ih _ _ (by simp at hfuel; omega)]
      simp

theorem spells_of_unicodeChar {behind : List Char} (h : unicodeChar cs = .ok (c, behind)) :
    behind.length ≤ cs.length
      ∧ ∀ more, Spells behind more → Spells ('\\' :: 'u' :: cs) (c :: more) := by
  rcases unicodeChar_ok_iff.1 h with
    ⟨ds, n, hds, hn, hc, rfl⟩ | ⟨ds, n, es, m, hds, hn, hes, hm, hc, rfl⟩
  · refine ⟨by simp, fun more hmore => ?_⟩
    rw [hc]
    exact .code hds hn hmore
  · refine ⟨?_, fun more hmore => ?_⟩
    · simp only [List.length_append, List.length_cons]
      omega
    · rw [hc]
      exact .pair hds hn hes hm hmore

/-- What a string is resolved to is what it spells. -/
theorem spells_of_loop {fuel : Nat} {out res : List Char} (hfuel : raw.length ≤ fuel)
    (h : unescapeLoop fuel out raw = .ok res) : ∃ cs, Spells raw cs ∧ res = out.reverse ++ cs := by
  induction fuel generalizing out raw with
  | zero =>
    obtain rfl : raw = [] := List.eq_nil_of_length_eq_zero (by omega)
    cases h
    exact ⟨[], .nil, by simp⟩
  | succ fuel ih =>
    cases raw with
    | nil =>
      cases h
      exact ⟨[], .nil, by simp⟩
    | cons c rest =>
      rw [List.length_cons, Nat.add_le_add_iff_right] at hfuel
      simp only [unescapeLoop] at h
      split_ifs at h with hback
      · subst hback
        cases rest with
        | nil => cases h
        | cons e rest =>
          rw [List.length_cons] at hfuel
          dsimp only at h
          split_ifs at h with hcode
          · subst hcode
            split at h
            · rename_i ch behind hchar
              obtain ⟨hshorter, hspells⟩ := spells_of_unicodeChar hchar
              obtain ⟨cs, hcs, rfl⟩ := ih (by omega) h
              exact ⟨ch :: cs, hspells cs hcs, by simp⟩
            · cases h
          · split at h
            · rename_i ch hletter
              obtain ⟨cs, hcs, rfl⟩ := ih (by omega) h
              exact ⟨ch :: cs, .letter (simpleEscape?_eq_some_iff.1 hletter) hcs, by simp⟩
            · cases h
      · obtain ⟨cs, hcs, rfl⟩ := ih hfuel h
        exact ⟨c :: cs, .plain hback hcs, by simp⟩

theorem unescape_ok_iff : unescape raw = .ok cs ↔ Spells raw cs := by
  unfold unescape
  constructor
  · intro h
    obtain ⟨cs', hcs, rfl⟩ := spells_of_loop (Nat.le_refl _) h
    exact hcs
  · intro h
    rw [h.unescape_loop _ _ (Nat.le_refl _)]
    rfl

/-- A string has the text that it spells. -/
theorem textOf?_eq_some_iff {s : String} : Source.textOf? raw = some s ↔ Spells raw s.toList := by
  rw [← unescape_ok_iff]
  unfold Source.textOf?
  rw [toOption_eq_some_iff]
  cases unescape raw with
  | error fault => simp [Except.map]
  | ok cs =>
    simp only [Except.map, Except.ok.injEq]
    exact ⟨fun h => by rw [← h, String.toList_ofList], fun h => by rw [h, String.ofList_toList]⟩

end Strings

section Written

variable {escape : Char → List Char}

theorem codeText_unicodeEscape (c : Char) :
    ∃ ds n, CodeText ds n ∧ unicodeEscape c = '\\' :: 'u' :: ds := by
  have digit (k : Nat) : (hexDigit (k % 16), k % 16) ∈ hexDigits :=
    hexValue?_eq_some_iff.1 (hexValue?_hexDigit (Nat.mod_lt _ (by decide)))
  exact ⟨_, _, .mk (digit _) (digit _) (digit _) (digit _), rfl⟩

theorem Escaped.stringText {c : Char} {raw rest : List Char} (h : Escaped c raw)
    (hrest : StringText rest) : StringText (raw ++ rest) := by
  cases h with
  | plain hquote hslash hcontrol => exact .plain hquote hslash (by omega) hrest
  | letter e _ he => exact .letter (simpleEscape?_eq_some_iff.1 he) hrest
  | code =>
    obtain ⟨ds, n, hcode, heq⟩ := codeText_unicodeEscape c
    rw [heq]
    exact .code hcode hrest

theorem stringText_flatMap (he : Lossless escape) (cs : List Char) :
    StringText (cs.flatMap escape) := by
  induction cs with
  | nil => exact .nil
  | cons c cs ih => exact (he c).stringText ih

theorem spells_flatMap (he : Lossless escape) (s : String) :
    Spells (s.toList.flatMap escape) s.toList :=
  textOf?_eq_some_iff.1 (textOf?_flatMap he s)

end Written

end ImageTrust.Json
