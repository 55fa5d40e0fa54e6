import ImageTrust.Proofs.Json.Value
import ImageTrust.Proofs.Text.Cut

/-!
The signer's text of a value. Its strings are cut twice, at what the grammar wants escaped and then, in
each piece, at the five characters that are unsafe inside web pages. It is the compact text with just
these characters replaced.
-/

namespace ImageTrust.Json

/-- The five characters that the signer escapes besides, and their escapes. -/
def webEscapes : List (Char × String) :=
  [('<', "\\u003c"), ('>', "\\u003e"), ('&', "\\u0026"), ('\u2028', "\\u2028"),
    ('\u2029', "\\u2029")]

/-- A text with the five characters replaced by their escapes. -/
def withWebEscapes (cs : List Char) : List Char :=
  cs.flatMap fun c => ((webEscapes.lookup c).map String.toList).getD [c]

/-- A text without any of the five characters. -/
def WebSafe (cs : List Char) : Prop :=
  ∀ c ∈ cs, isWebUnsafe c = false

instance (cs : List Char) : Decidable (WebSafe cs) :=
  List.decidableBAll _ cs

variable {c : Char} {cs : List Char}

theorem isWebUnsafe_iff : isWebUnsafe c = true ↔ c ∈ webEscapes.map (·.1) := by
  have hcode (n : Nat) : c.toNat = n → c = Char.ofNat n := by
    rintro rfl
    exact (Char.ofNat_toNat c).symm
  simp only [isWebUnsafe, Bool.or_eq_true, decide_eq_true_eq, webEscapes, List.map_cons, List.map_nil,
    List.mem_cons, List.not_mem_nil, or_false]
  constructor
  · rintro ((((h | h) | h) | h) | h)
    · exact .inl h
    · exact .inr (.inl h)
    · exact .inr (.inr (.inl h))
    · exact .inr (.inr (.inr (.inl (hcode _ h))))
    · exact .inr (.inr (.inr (.inr (hcode _ h))))
  · rintro (rfl | rfl | rfl | rfl | rfl) <;> decide

theorem webSafe_iff : WebSafe cs ↔ ∀ c ∈ webEscapes.map (·.1), c ∉ cs := by
  simp only [WebSafe, ← Bool.not_eq_true, isWebUnsafe_iff]
  exact ⟨fun h c hc hm => h c hm hc, fun h c hm hc => h c hc hm⟩

theorem withWebEscapes_append (cs ds : List Char) :
    withWebEscapes (cs ++ ds) = withWebEscapes cs ++ withWebEscapes ds :=
  List.flatMap_append

theorem withWebEscapes_of_webSafe (h : WebSafe cs) : withWebEscapes cs = cs := by
  unfold withWebEscapes
  induction cs with
  | nil => rfl
  | cons c cs ih =>
    obtain ⟨hc, hcs⟩ := List.forall_mem_cons.1 h
    have hnone : webEscapes.lookup c = none := by
      rw [List.lookup_eq_none_iff]
      intro p hp
      rw [← Bool.not_eq_true, isWebUnsafe_iff] at hc
      rw [bne_iff_ne]
      rintro rfl
      exact hc (List.mem_map_of_mem hp)
    rw [List.flatMap_cons, ih hcs, hnone]
    rfl

theorem withWebEscapes_cons (h : isWebUnsafe c = false) (cs : List Char) :
    withWebEscapes (c :: cs) = c :: withWebEscapes cs := by
  have hc : withWebEscapes [c] = [c] := withWebEscapes_of_webSafe (List.forall_mem_singleton.2 h)
  rw [← List.singleton_append, withWebEscapes_append, hc, List.singleton_append]

section Characters

theorem webSafe_hexDigit {n : Nat} (h : n < 16) : isWebUnsafe (hexDigit n) = false := by
  interval_cases n <;> decide

theorem webSafe_unicodeEscape (c : Char) : WebSafe (unicodeEscape c) := by
  have digit (k : Nat) : isWebUnsafe (hexDigit (k % 16)) = false :=
    webSafe_hexDigit (Nat.mod_lt _ (by decide))
  intro d hd
  simp only [unicodeEscape, List.mem_cons, List.not_mem_nil, or_false] at hd
  rcases hd with rfl | rfl | rfl | rfl | rfl | rfl
  · decide
  · decide
  · exact digit _
  · exact digit _
  · exact digit _
  · exact digit _

theorem escapeChar_cases (c : Char) : (escapeChar c = [c] ∧ escape? c = none)
    ∨ (WebSafe (escapeChar c) ∧ isWebUnsafe c = false
      ∧ escape? c = some (String.ofList (escapeChar c))) := by
  by_cases hescaped : (c = '"' || c = '\\' || c.toNat < 0x20) = true
  · refine .inr ⟨?_, ?_, if_pos hescaped⟩
    · unfold escapeChar
      simp only [Bool.or_eq_true, decide_eq_true_eq] at hescaped
      split_ifs with h₁ h₂ h₃ h₄ h₅ h₆ h₇ h₈
      · decide
      · decide
      · decide
      · decide
      · decide
      · decide
      · decide
      · exact webSafe_unicodeEscape c
      · exact absurd hescaped (by simp [h₁, h₂, h₈])
    · rw [← Bool.not_eq_true, isWebUnsafe_iff]
      intro hm
      have hkept : (webEscapes.map (·.1)).all
          (fun d => !(d = '"' || d = '\\' || d.toNat < 0x20)) = true := by
        decide
      have hc := List.all_eq_true.1 hkept c hm
      rw [hescaped] at hc
      cases hc
  · refine .inl ⟨?_, if_neg hescaped⟩
    simp only [Bool.or_eq_true, decide_eq_true_eq, not_or] at hescaped
    obtain ⟨⟨hquote, hslash⟩, hcontrol⟩ := hescaped
    have hne (d : Char) (hd : d.toNat < 0x20) : c ≠ d := by
      rintro rfl
      exact hcontrol hd
    unfold escapeChar
    rw [if_neg hquote, if_neg hslash, if_neg (hne _ (by decide)), if_neg (hne _ (by decide)),
      if_neg (hne _ (by decide)), if_neg (hne _ (by decide)), if_neg (hne _ (by decide)), if_neg hcontrol]

/-- Cutting twice writes each character in the signer's form. -/
theorem spelling_signer (c : Char) :
    Text.spelling escape? (Text.spelling webEscape? fun d => [d]) c = signerEscapeChar c := by
  unfold Text.spelling signerEscapeChar webEscape?
  rcases escapeChar_cases c with ⟨hplain, hnone⟩ | ⟨-, hsafe, hsome⟩
  · rw [hnone]
    dsimp only
    by_cases hweb : isWebUnsafe c = true
    · rw [if_pos hweb, if_pos hweb]
      exact String.toList_ofList
    · rw [if_neg hweb, if_neg hweb]
      exact hplain.symm
  · rw [hsome, hsafe]
    exact String.toList_ofList

theorem withWebEscapes_escapeChar (c : Char) : withWebEscapes (escapeChar c) = signerEscapeChar c := by
  unfold signerEscapeChar
  by_cases hweb : isWebUnsafe c = true
  · rw [if_pos hweb]
    have hall : (webEscapes.map (·.1)).all
        (fun d => withWebEscapes (escapeChar d) = unicodeEscape d) = true := by
      decide +kernel
    exact of_decide_eq_true (List.all_eq_true.1 hall c (isWebUnsafe_iff.1 hweb))
  · rw [if_neg hweb]
    refine withWebEscapes_of_webSafe ?_
    rcases escapeChar_cases c with ⟨hplain, -⟩ | ⟨hsafe, -⟩
    · rw [hplain]
      exact List.forall_mem_singleton.2 (Bool.not_eq_true _ ▸ hweb)
    · exact hsafe

end Characters

section Values

theorem signerQuoted_eq : signerQuoted = quotedWith signerEscapeChar := by
  funext s
  have hpiece : ∀ u, (Text.cut webEscape? id u).toList
      = u.toList.flatMap (Text.spelling webEscape? fun d => [d]) :=
    Text.toList_cut fun u => (List.flatMap_singleton' u.toList).symm
  rw [signerQuoted, quotedWith, Text.toList_cut hpiece, funext spelling_signer]

/-- The signer's text, with strings written character by character. -/
theorem signerText_eq (v : Json) :
    v.signerText = String.ofList (render (quotedWith signerEscapeChar) v) := by
  rw [signerText, signerQuoted_eq]

theorem withWebEscapes_quotedWith (s : String) :
    withWebEscapes (quotedWith escapeChar s) = quotedWith signerEscapeChar s := by
  have hcontent : withWebEscapes (s.toList.flatMap escapeChar) = s.toList.flatMap signerEscapeChar := by
    rw [← funext withWebEscapes_escapeChar]
    exact List.flatMap_assoc
  rw [quotedWith, withWebEscapes_cons (by decide), withWebEscapes_append, hcontent,
    withWebEscapes_cons (by decide)]
  rfl

theorem webSafe_int (n : Int) : WebSafe (toString n).toList := by
  have hweb : (webEscapes.map (·.1)).all (fun d => !d.isDigit) = true := by decide
  rw [toList_toString_int]
  refine List.forall_mem_append.2 ⟨?_, fun c hc => ?_⟩
  · split_ifs
    · exact List.forall_mem_singleton.2 (by decide)
    · exact nofun
  · have hdigit := Nat.isDigit_of_mem_toDigits (b := 10) (by decide) (by decide) hc
    rw [← Bool.not_eq_true, isWebUnsafe_iff]
    intro hm
    have hc := List.all_eq_true.1 hweb c hm
    rw [hdigit] at hc
    cases hc

mutual

/-- Outside strings nothing is replaced. The induction is on the value together with the items and
members behind a first one. -/
theorem withWebEscapes_render (v : Json) :
    withWebEscapes (render (quotedWith escapeChar) v) = render (quotedWith signerEscapeChar) v := by
  cases v with
  | null => decide
  | bool b => cases b <;> decide
  | int n => exact withWebEscapes_of_webSafe (webSafe_int n)
  | str s => exact withWebEscapes_quotedWith s
  | arr items =>
    cases items with
    | nil => decide
    | cons item rest =>
      rw [render, render, withWebEscapes_cons (by decide), withWebEscapes_append,
        withWebEscapes_append, withWebEscapes_render item, withWebEscapes_renderItems rest,
        withWebEscapes_cons (by decide)]
      rfl
  | obj members =>
    cases members with
    | nil => decide
    | cons member rest =>
      rw [render, render, withWebEscapes_cons (by decide), withWebEscapes_append,
        withWebEscapes_cons (by decide), withWebEscapes_append, withWebEscapes_append,
        withWebEscapes_quotedWith, withWebEscapes_render member.2, withWebEscapes_renderMembers rest,
        withWebEscapes_cons (by decide)]
      rfl

theorem withWebEscapes_renderItems (items : List Json) :
    withWebEscapes (renderItems (quotedWith escapeChar) items)
      = renderItems (quotedWith signerEscapeChar) items := by
  cases items with
  | nil => rfl
  | cons item rest =>
    rw [renderItems, renderItems, withWebEscapes_cons (by decide), withWebEscapes_append,
      withWebEscapes_render item, withWebEscapes_renderItems rest]

theorem withWebEscapes_renderMembers (members : List (String × Json)) :
    withWebEscapes (renderMembers (quotedWith escapeChar) members)
      = renderMembers (quotedWith signerEscapeChar) members := by
  cases members with
  | nil => rfl
  | cons member rest =>
    rw [renderMembers, renderMembers, withWebEscapes_cons (by decide), withWebEscapes_append,
      withWebEscapes_cons (by decide), withWebEscapes_append, withWebEscapes_quotedWith,
      withWebEscapes_render member.2, withWebEscapes_renderMembers rest]

end

theorem toList_signerText (v : Json) : v.signerText.toList = withWebEscapes v.compact.toList := by
  rw [signerText_eq, compact, String.toList_ofList, String.toList_ofList, withWebEscapes_render]

/-- What is replaced is gone, because no escape has one of the five characters. -/
theorem webSafe_withWebEscapes (cs : List Char) : WebSafe (withWebEscapes cs) := by
  have hescapes : ∀ p ∈ webEscapes, WebSafe p.2.toList := by decide
  intro d hd
  obtain ⟨c, -, hc⟩ := List.mem_flatMap.1 hd
  cases hl : webEscapes.lookup c with
  | some e =>
    rw [hl] at hc
    obtain ⟨l₁, l₂, hsplit, -⟩ := List.lookup_eq_some_iff.1 hl
    have hmem : (c, e) ∈ webEscapes := by
      rw [hsplit]
      exact List.mem_append_right _ List.mem_cons_self
    exact hescapes _ hmem d hc
  | none =>
    rw [hl] at hc
    obtain rfl : d = c := List.mem_singleton.1 hc
    rw [← Bool.not_eq_true, isWebUnsafe_iff]
    intro hm
    obtain ⟨p, hp, rfl⟩ := List.mem_map.1 hm
    simpa using List.lookup_eq_none_iff.1 hl p hp

/-- The signer's text of a value is its compact text with the five characters replaced by their escapes
wherever they stand. It has none of them, and it is read as the value. -/
theorem signer_text_escapes_five (v : Json) :
    v.signerText.toList = withWebEscapes v.compact.toList
      ∧ (∀ c ∈ ['<', '>', '&', '\u2028', '\u2029'], c ∉ v.signerText.toList)
      ∧ ofText? v.signerText = some v
      ∧ ofOctets? (Text.encode v.signerText) = some v := by
  have hread : ofText? v.signerText = some v := by
    rw [signerText_eq]
    exact ofText?_render escaped_signerEscapeChar v
  have hsafe : WebSafe v.signerText.toList := by
    rw [toList_signerText]
    exact webSafe_withWebEscapes _
  refine ⟨toList_signerText v, webSafe_iff.1 hsafe, hread, ?_⟩
  rw [ofOctets?_encode, hread]

end Values

end ImageTrust.Json
