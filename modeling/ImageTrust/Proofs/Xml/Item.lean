import ImageTrust.Proofs.Xml.WellNamed
import ImageTrust.Xml.Canonical

/-!
Canonical form as a forest of items: elements with names as they are spelt, declarations and attributes,
single characters, and instructions. The text is written item by item. No item can be taken for another
and none runs into the next, so a text is that of one forest only.
-/

namespace ImageTrust.Xml.Canonical

/-- A piece of canonical form. -/
inductive Item where
  | element (name : String) (attributes : List (String × String)) (content : List Item)
  | character (c : Char)
  | instruction (body : List Char)

/-- How an attribute is written. -/
def renderAttribute (a : String × String) : List Char :=
  ' ' :: (a.1.toList ++ '=' :: '"' :: (a.2.toList.flatMap (fun c => (valueChar c).toList) ++ ['"']))

mutual

/-- How an item is written. -/
def Item.render : Item → List Char
  | .element name attributes content =>
    '<' :: (name.toList ++ (attributes.flatMap renderAttribute
      ++ '>' :: (Item.renderAll content ++ '<' :: '/' :: (name.toList ++ ['>']))))
  | .character c => (textChar c).toList
  | .instruction body => '<' :: '?' :: (body ++ ['?', '>'])

def Item.renderAll : List Item → List Char
  | [] => []
  | i :: is => i.render ++ Item.renderAll is

end

theorem renderAll_append : ∀ is js : List Item,
    Item.renderAll (is ++ js) = Item.renderAll is ++ Item.renderAll js
  | [], _ => rfl
  | i :: is, js => by
    simp only [List.cons_append, Item.renderAll, renderAll_append is js, List.append_assoc]

theorem renderAll_characters : ∀ cs : List Char,
    Item.renderAll (cs.map .character) = cs.flatMap fun c => (textChar c).toList
  | [] => rfl
  | c :: cs => by
    simp only [List.map_cons, Item.renderAll, Item.render, renderAll_characters cs,
      List.flatMap_cons]

section Reading

/-- The character that an escaped text begins with and the rest of the text. -/
def unescape? : List Char → Option (Char × List Char)
  | '&' :: 'a' :: 'm' :: 'p' :: ';' :: rest => some ('&', rest)
  | '&' :: 'l' :: 't' :: ';' :: rest => some ('<', rest)
  | '&' :: 'g' :: 't' :: ';' :: rest => some ('>', rest)
  | '&' :: 'q' :: 'u' :: 'o' :: 't' :: ';' :: rest => some ('"', rest)
  | '&' :: '#' :: 'x' :: '9' :: ';' :: rest => some ('\t', rest)
  | '&' :: '#' :: 'x' :: 'A' :: ';' :: rest => some ('\n', rest)
  | '&' :: '#' :: 'x' :: 'D' :: ';' :: rest => some ('\r', rest)
  | c :: rest => some (c, rest)
  | [] => none

theorem unescape?_of_ne {c : Char} (h : c ≠ '&') (rest : List Char) :
    unescape? (c :: rest) = some (c, rest) := by
  unfold unescape?
  split <;> simp_all

theorem unescape?_textChar (c : Char) (rest : List Char) :
    unescape? ((textChar c).toList ++ rest) = some (c, rest) := by
  unfold textChar
  split_ifs with ha hl hg hr
  · subst ha; rfl
  · subst hl; rfl
  · subst hg; rfl
  · subst hr; rfl
  · simpa using unescape?_of_ne ha rest

theorem unescape?_valueChar (c : Char) (rest : List Char) :
    unescape? ((valueChar c).toList ++ rest) = some (c, rest) := by
  unfold valueChar
  split_ifs with ha hl hq ht hn hr
  · subst ha; rfl
  · subst hl; rfl
  · subst hq; rfl
  · subst ht; rfl
  · subst hn; rfl
  · subst hr; rfl
  · simpa using unescape?_of_ne ha rest

theorem textChar_head (c : Char) : ∃ x xs, (textChar c).toList = x :: xs ∧ x ≠ '<' := by
  unfold textChar
  split_ifs with ha hl hg hr
  · exact ⟨_, _, rfl, by decide⟩
  · exact ⟨_, _, rfl, by decide⟩
  · exact ⟨_, _, rfl, by decide⟩
  · exact ⟨_, _, rfl, by decide⟩
  · exact ⟨c, [], by simp, hl⟩

theorem valueChar_head (c : Char) : ∃ x xs, (valueChar c).toList = x :: xs ∧ x ≠ '"' := by
  unfold valueChar
  split_ifs with ha hl hq ht hn hr
  · exact ⟨_, _, rfl, by decide⟩
  · exact ⟨_, _, rfl, by decide⟩
  · exact ⟨_, _, rfl, by decide⟩
  · exact ⟨_, _, rfl, by decide⟩
  · exact ⟨_, _, rfl, by decide⟩
  · exact ⟨_, _, rfl, by decide⟩
  · exact ⟨c, [], by simp, hq⟩

variable {r s : List Char}

/-- A name ends at the first character that belongs to no name. -/
theorem name_append_inj {x y : Char} (hx : isNameChar x = false) (hy : isNameChar y = false) :
    ∀ {cs ds : List Char}, cs.all isNameChar = true → ds.all isNameChar = true →
      cs ++ x :: r = ds ++ y :: s → cs = ds ∧ x = y ∧ r = s
  | [], [], _, _, h => by
    obtain ⟨rfl, rfl⟩ := List.cons.inj h
    exact ⟨rfl, rfl, rfl⟩
  | [], d :: ds, _, hd, h => by
    obtain ⟨rfl, -⟩ := List.cons.inj h
    rw [List.all_cons, hx] at hd
    cases hd
  | c :: cs, [], hc, _, h => by
    obtain ⟨rfl, -⟩ := List.cons.inj h
    rw [List.all_cons, hy] at hc
    cases hc
  | c :: cs, d :: ds, hc, hd, h => by
    obtain ⟨rfl, hrest⟩ := List.cons.inj h
    rw [List.all_cons, Bool.and_eq_true] at hc hd
    obtain ⟨rfl, hxy⟩ := name_append_inj hx hy hc.2 hd.2 hrest
    exact ⟨rfl, hxy⟩

/-- A value ends at the first quotation mark. -/
theorem value_append_inj : ∀ {v w : List Char},
    v.flatMap (fun c => (valueChar c).toList) ++ '"' :: r
      = w.flatMap (fun c => (valueChar c).toList) ++ '"' :: s → v = w ∧ r = s
  | [], [], h => ⟨rfl, (List.cons.inj h).2⟩
  | [], d :: w, h => by
    obtain ⟨x, xs, hx, hne⟩ := valueChar_head d
    rw [List.flatMap_cons, hx] at h
    exact absurd (List.cons.inj h).1.symm hne
  | c :: v, [], h => by
    obtain ⟨x, xs, hx, hne⟩ := valueChar_head c
    rw [List.flatMap_cons, hx] at h
    exact absurd (List.cons.inj h).1 hne
  | c :: v, d :: w, h => by
    rw [List.flatMap_cons, List.flatMap_cons, List.append_assoc, List.append_assoc] at h
    have hu := congrArg unescape? h
    rw [unescape?_valueChar, unescape?_valueChar, Option.some.injEq, Prod.mk.injEq] at hu
    obtain ⟨rfl, hrest⟩ := hu
    obtain ⟨rfl, hrs⟩ := value_append_inj hrest
    exact ⟨rfl, hrs⟩

/-- The attributes of a start tag end at the first character that is no blank. -/
theorem attributes_append_inj : ∀ {as bs : List (String × String)},
    (∀ a ∈ as, a.1.toList.all isNameChar = true) → (∀ b ∈ bs, b.1.toList.all isNameChar = true) →
    as.flatMap renderAttribute ++ '>' :: r = bs.flatMap renderAttribute ++ '>' :: s →
      as = bs ∧ r = s
  | [], [], _, _, h => ⟨rfl, (List.cons.inj h).2⟩
  | [], b :: bs, _, _, h => absurd (List.cons.inj h).1 (by decide)
  | a :: as, [], _, _, h => absurd (List.cons.inj h).1 (by decide)
  | a :: as, b :: bs, ha, hb, h => by
    obtain ⟨name, value⟩ := a
    obtain ⟨name', value'⟩ := b
    simp only [List.flatMap_cons, renderAttribute, List.cons_append, List.append_assoc,
      List.nil_append, List.cons.injEq, true_and] at h
    have hname : name.toList.all isNameChar = true := ha _ List.mem_cons_self
    have hname' : name'.toList.all isNameChar = true := hb _ List.mem_cons_self
    obtain ⟨hn, -, hrest⟩ := name_append_inj (by decide) (by decide) hname hname' h
    obtain ⟨hv, hmore⟩ := value_append_inj (List.cons.inj hrest).2
    obtain ⟨rfl, hrs⟩ := attributes_append_inj (fun a hm => ha a (List.mem_cons_of_mem _ hm))
      (fun b hm => hb b (List.mem_cons_of_mem _ hm)) hmore
    rw [String.toList_inj.1 hn, String.toList_inj.1 hv]
    exact ⟨rfl, hrs⟩

theorem unclosed_tail {c : Char} {cs : List Char} (h : Unclosed (c :: cs)) : Unclosed cs :=
  fun hc => h (hc.trans (List.suffix_cons c cs).isInfix)

theorem unclosed_cons_absurd {cs : List Char} (h : Unclosed ('?' :: '>' :: cs)) : False :=
  h ⟨[], cs, rfl⟩

/-- An instruction ends at the first end of an instruction. -/
theorem body_append_inj : ∀ {cs ds : List Char}, Unclosed cs → Unclosed ds →
    cs ++ '?' :: '>' :: r = ds ++ '?' :: '>' :: s → cs = ds ∧ r = s
  | [], [], _, _, h => ⟨rfl, by simpa using h⟩
  | [], [d], _, _, h => by simp at h
  | [], d :: e :: ds, _, hd, h => by
    simp only [List.nil_append, List.cons_append, List.cons.injEq] at h
    obtain ⟨rfl, rfl, -⟩ := h
    exact (unclosed_cons_absurd hd).elim
  | [c], [], _, _, h => by simp at h
  | c :: e :: cs, [], hc, _, h => by
    simp only [List.nil_append, List.cons_append, List.cons.injEq] at h
    obtain ⟨rfl, rfl, -⟩ := h
    exact (unclosed_cons_absurd hc).elim
  | c :: cs, d :: ds, hc, hd, h => by
    obtain ⟨rfl, hrest⟩ := List.cons.inj h
    obtain ⟨rfl, hrs⟩ := body_append_inj (unclosed_tail hc) (unclosed_tail hd) hrest
    exact ⟨rfl, hrs⟩

mutual

def Item.WellFormed : Item → Prop
  | .element name attributes content => (name.toList.all isNameChar = true ∧ name ≠ "")
    ∧ (∀ a ∈ attributes, a.1.toList.all isNameChar = true) ∧ Item.AllWellFormed content
  | .character _ => True
  | .instruction body => Unclosed body

def Item.AllWellFormed : List Item → Prop
  | [] => True
  | i :: is => i.WellFormed ∧ Item.AllWellFormed is

end

/-- What may follow the content of an element: its end tag, or the end of the text. -/
def Closes (cs : List Char) : Prop :=
  cs = [] ∨ ∃ rest, cs = '<' :: '/' :: rest

theorem name_append_ne {name : String} {x : Char} (hx : isNameChar x = false)
    (hn : name.toList.all isNameChar = true) (hne : name ≠ "") : name.toList ++ r ≠ x :: s := by
  intro h
  cases hc : name.toList with
  | nil => exact hne (String.toList_eq_nil_iff.1 hc)
  | cons c cs =>
    rw [hc, List.cons_append, List.cons.injEq] at h
    rw [hc, List.all_cons, h.1, hx] at hn
    cases hn

theorem character_append_ne (c : Char) : (textChar c).toList ++ r ≠ '<' :: s := by
  intro h
  obtain ⟨x, xs, hx, hne⟩ := textChar_head c
  rw [hx, List.cons_append, List.cons.injEq] at h
  exact hne h.1

/-- No item looks like an end tag. -/
theorem not_closes_render {i : Item} (hi : i.WellFormed) : ¬ Closes (i.render ++ r) := by
  rintro (h | ⟨rest, h⟩)
  · cases i with
    | element name attributes content => simp [Item.render] at h
    | character c =>
      obtain ⟨x, xs, hx, -⟩ := textChar_head c
      simp [Item.render, hx] at h
    | instruction body => simp [Item.render] at h
  · cases i with
    | element name attributes content =>
      simp only [Item.render, List.cons_append, List.append_assoc, List.cons.injEq, true_and] at h
      exact name_append_ne (by decide) hi.1.1 hi.1.2 h
    | character c => exact character_append_ne c h
    | instruction body => simp [Item.render] at h

/-- The name in a start tag is followed by a character that belongs to no name. -/
theorem after_name (attributes : List (String × String)) (rest : List Char) : ∃ x cs,
    attributes.flatMap renderAttribute ++ '>' :: rest = x :: cs ∧ isNameChar x = false := by
  cases attributes with
  | nil => exact ⟨'>', rest, rfl, by decide⟩
  | cons a attributes => exact ⟨' ', _, rfl, by decide⟩

mutual

/-- An item determines itself and its end in a longer text. -/
theorem render_append_inj : ∀ {i j : Item} {r s : List Char}, i.WellFormed → j.WellFormed →
    i.render ++ r = j.render ++ s → i = j ∧ r = s
  | .element name attributes content, .element name' attributes' content', r, s, hi, hj, h => by
    simp only [Item.render, List.cons_append, List.append_assoc, List.cons.injEq, true_and,
      List.nil_append] at h
    obtain ⟨x, cs, hx, hnx⟩ := after_name attributes
      (Item.renderAll content ++ '<' :: '/' :: (name.toList ++ '>' :: r))
    obtain ⟨y, ds, hy, hny⟩ := after_name attributes'
      (Item.renderAll content' ++ '<' :: '/' :: (name'.toList ++ '>' :: s))
    rw [hx, hy] at h
    obtain ⟨hname, rfl, rfl⟩ := name_append_inj hnx hny hi.1.1 hj.1.1 h
    obtain rfl := String.toList_inj.1 hname
    obtain ⟨rfl, hinside⟩ := attributes_append_inj hi.2.1 hj.2.1 (hx.trans hy.symm)
    obtain ⟨rfl, hend⟩ := renderAll_append_inj hi.2.2 hj.2.2 (.inr ⟨_, rfl⟩) (.inr ⟨_, rfl⟩)
      hinside
    simp only [List.cons.injEq, true_and, List.append_cancel_left_eq] at hend
    exact ⟨rfl, hend⟩
  | .character c, .character d, r, s, _, _, h => by
    have hu := congrArg unescape? h
    rw [Item.render, Item.render, unescape?_textChar, unescape?_textChar, Option.some.injEq,
      Prod.mk.injEq] at hu
    obtain ⟨rfl, hrs⟩ := hu
    exact ⟨rfl, hrs⟩
  | .instruction body, .instruction body', r, s, hi, hj, h => by
    simp only [Item.render, List.cons_append, List.append_assoc, List.cons.injEq, true_and,
      List.nil_append] at h
    obtain ⟨rfl, hrs⟩ := body_append_inj hi hj h
    exact ⟨rfl, hrs⟩
  | .element name attributes content, .instruction body, r, s, hi, _, h => by
    simp only [Item.render, List.cons_append, List.append_assoc, List.cons.injEq, true_and] at h
    exact (name_append_ne (by decide) hi.1.1 hi.1.2 h).elim
  | .instruction body, .element name attributes content, r, s, _, hj, h => by
    simp only [Item.render, List.cons_append, List.append_assoc, List.cons.injEq, true_and] at h
    exact (name_append_ne (by decide) hj.1.1 hj.1.2 h.symm).elim
  | .character c, .element _ _ _, _, _, _, _, h => (character_append_ne c h).elim
  | .character c, .instruction _, _, _, _, _, h => (character_append_ne c h).elim
  | .element _ _ _, .character d, _, _, _, _, h => (character_append_ne d h.symm).elim
  | .instruction _, .character d, _, _, _, _, h => (character_append_ne d h.symm).elim

theorem renderAll_append_inj : ∀ {is js : List Item} {r s : List Char}, Item.AllWellFormed is →
    Item.AllWellFormed js → Closes r → Closes s →
    Item.renderAll is ++ r = Item.renderAll js ++ s → is = js ∧ r = s
  | [], [], _, _, _, _, _, _, h => ⟨rfl, h⟩
  | [], j :: js, r, s, _, hj, hr, _, h => by
    have hrender : r = j.render ++ (Item.renderAll js ++ s) := by
      simpa only [Item.renderAll, List.nil_append, List.append_assoc] using h
    exact absurd (hrender ▸ hr) (not_closes_render hj.1)
  | i :: is, [], r, s, hi, _, _, hs, h => by
    have hrender : i.render ++ (Item.renderAll is ++ r) = s := by
      simpa only [Item.renderAll, List.nil_append, List.append_assoc] using h
    exact absurd (hrender ▸ hs) (not_closes_render hi.1)
  | i :: is, j :: js, r, s, hi, hj, hr, hs, h => by
    rw [Item.renderAll, Item.renderAll, List.append_assoc, List.append_assoc] at h
    obtain ⟨rfl, hrest⟩ := render_append_inj hi.1 hj.1 h
    obtain ⟨rfl, hrs⟩ := renderAll_append_inj hi.2 hj.2 hr hs hrest
    exact ⟨rfl, hrs⟩

end

end Reading

end ImageTrust.Xml.Canonical
