import ImageTrust.Proofs.Lookup
import ImageTrust.Proofs.Xml.Item

/-!
What the canonical form shows of a tree. Comments are left out, pieces of text are run together, and
attributes are sorted; everything else can be told from the text, so trees with one canonical form
show the same.
-/

namespace ImageTrust.Xml.Canonical

/-- The declarations and attributes of a start tag as they are written. -/
def written (declared : Scope) (t : Tag) : List (String × String) :=
  declared.map (fun b => (declarationName b.1, b.2))
    ++ (sortedAttributes t).map fun a => (a.name.text, a.value)

mutual

/-- What the canonical form shows of a node. -/
def content (listed : List String) (rendered : Scope) : Node → List Item
  | .element tag children =>
    let declared := declarations listed rendered tag
    [.element tag.name.text (written declared tag)
      (contentAll listed (declared ++ rendered) children)]
  | .text s => s.toList.map .character
  | .literal s => s.toList.map .character
  | .comment => []
  | .instruction target data => [.instruction (instructionBody target data)]

/-- What the canonical form shows of nodes, one after the other. -/
def contentAll (listed : List String) (rendered : Scope) : List Node → List Item
  | [] => []
  | n :: ns => content listed rendered n ++ contentAll listed rendered ns

end

section Writing

theorem toList_writeChars (f : Char → String) (out s : String) :
    (writeChars f out s).toList = out.toList ++ s.toList.flatMap fun c => (f c).toList := by
  have h : ∀ (cs : List Char) (out : String), (cs.foldl (fun out c => out ++ f c) out).toList
      = out.toList ++ cs.flatMap fun c => (f c).toList := by
    intro cs
    induction cs with
    | nil => simp
    | cons c cs ih => simp [ih, String.toList_append]
  exact h s.toList out

theorem toList_writeAttribute (out name value : String) :
    (writeAttribute out name value).toList = out.toList ++ renderAttribute (name, value) := by
  simp [writeAttribute, renderAttribute, String.toList_append, toList_writeChars]

theorem toList_foldl_writeAttribute {α : Type} (name value : α → String) :
    ∀ (as : List α) (out : String),
      (as.foldl (fun out a => writeAttribute out (name a) (value a)) out).toList
        = out.toList ++ (as.map fun a => (name a, value a)).flatMap renderAttribute
  | [], out => by simp
  | a :: as, out => by
    rw [List.foldl_cons, toList_foldl_writeAttribute name value as, toList_writeAttribute]
    simp

theorem toList_writeStart (out : String) (declared : Scope) (t : Tag) :
    (writeStart out declared t).toList = out.toList ++ '<' :: (t.name.text.toList
      ++ ((written declared t).flatMap renderAttribute ++ ['>'])) := by
  unfold writeStart
  dsimp only
  rw [String.toList_append, toList_foldl_writeAttribute (fun a : Attribute => a.name.text)
    (fun a : Attribute => a.value), toList_foldl_writeAttribute (fun b : String × String =>
    declarationName b.1) (fun b : String × String => b.2)]
  simp [written, String.toList_append]

theorem toList_writeInstruction (out target : String) (data : Option String) :
    (writeInstruction out target data).toList
      = out.toList ++ '<' :: '?' :: (instructionBody target data ++ ['?', '>']) := by
  unfold writeInstruction instructionBody
  dsimp only
  split_ifs <;> simp [String.toList_append]

mutual

/-- A node is written item by item. -/
theorem toList_write (listed : List String) : ∀ (n : Node) (rendered : Scope) (out : String),
    (write listed rendered out n).toList
      = out.toList ++ Item.renderAll (content listed rendered n)
  | .element tag children, rendered, out => by
    simp only [write, String.toList_append, content]
    rw [toList_writeAll listed children, toList_writeStart]
    simp [Item.renderAll, Item.render]
  | .text s, rendered, out => by
    simp only [write, content, toList_writeChars, renderAll_characters]
  | .literal s, rendered, out => by
    simp only [write, content, toList_writeChars, renderAll_characters]
  | .comment, rendered, out => by simp [write, content, Item.renderAll]
  | .instruction target data, rendered, out => by
    simp [write, content, toList_writeInstruction, Item.renderAll, Item.render]

theorem toList_writeAll (listed : List String) : ∀ (ns : List Node) (rendered : Scope)
    (out : String), (writeAll listed rendered out ns).toList
      = out.toList ++ Item.renderAll (contentAll listed rendered ns)
  | [], rendered, out => by simp [writeAll, contentAll, Item.renderAll]
  | n :: ns, rendered, out => by
    rw [writeAll, toList_writeAll listed ns, toList_write listed n, contentAll, renderAll_append,
      List.append_assoc]

end

end Writing

section Tags

variable {listed : List String} {rendered : Scope} {t : Tag}

theorem mem_insertText {s t : String} : ∀ ts : List String, s ∈ insertText t ts ↔ s = t ∨ s ∈ ts
  | [] => by simp [insertText]
  | u :: ts => by
    unfold insertText
    split_ifs with hlt heq
    · simp
    · subst heq
      simp
    · rw [List.mem_cons, mem_insertText ts, List.mem_cons]
      exact or_left_comm

theorem mem_foldl_insertText {s : String} : ∀ (qs ts : List String),
    s ∈ qs.foldl (fun ts q => insertText q ts) ts ↔ s ∈ qs ∨ s ∈ ts
  | [], ts => by simp
  | q :: qs, ts => by
    rw [List.foldl_cons, mem_foldl_insertText qs, mem_insertText, List.mem_cons, or_left_comm,
      or_assoc]

/-- The qualifiers that a tag has to declare are its own and the listed ones that are bound. -/
theorem mem_utilized {q : String} : q ∈ utilized listed t ↔ q = t.name.qualifier
    ∨ (∃ a ∈ t.attributes, a.name.qualifier = q ∧ q ≠ "")
    ∨ (q ∈ listed.map fun l => if l = defaultToken then "" else l)
      ∧ (t.scope.lookup q).isSome = true := by
  unfold utilized
  simp only [mem_foldl_insertText, List.mem_append, List.mem_cons, List.mem_filter,
    List.mem_map, List.not_mem_nil, or_false, Bool.not_eq_true', String.isEmpty_eq_false_iff]
  constructor
  · rintro ((rfl | ⟨⟨a, ha, rfl⟩, hne⟩) | h)
    · exact .inl rfl
    · exact .inr (.inl ⟨a, ha, rfl, hne⟩)
    · exact .inr (.inr h)
  · rintro (rfl | ⟨a, ha, rfl, hne⟩ | h)
    · exact .inl (.inl rfl)
    · exact .inl (.inr ⟨⟨a, ha, rfl⟩, hne⟩)
    · exact .inr h

theorem insertAttribute_perm (scope : Scope) (a : Attribute) : ∀ as : List Attribute,
    (insertAttribute scope a as).Perm (a :: as)
  | [] => .refl _
  | b :: bs => by
    unfold insertAttribute
    split_ifs
    · exact .refl _
    · exact ((insertAttribute_perm scope a bs).cons b).trans (.swap a b bs)

/-- Sorting loses no attribute and adds none. -/
theorem sortedAttributes_perm (t : Tag) : (sortedAttributes t).Perm t.attributes := by
  have h : ∀ as bs : List Attribute,
      (as.foldl (fun bs a => insertAttribute t.scope a bs) bs).Perm (as ++ bs) := by
    intro as
    induction as with
    | nil => exact fun bs => .refl bs
    | cons a as ih =>
      intro bs
      exact (ih _).trans (((insertAttribute_perm t.scope a bs).append_left as).trans
        List.perm_middle)
  simpa [sortedAttributes] using h t.attributes []

theorem isNameChar_of_part {c : Char} (h : isPartChar c = true) : isNameChar c = true :=
  (Bool.and_eq_true_iff.1 h).1

theorem all_isNameChar {cs : List Char} (h : cs.all isPartChar = true) :
    cs.all isNameChar = true := by
  rw [List.all_eq_true] at h ⊢
  exact fun c hc => isNameChar_of_part (h c hc)

theorem utilized_spelt (ht : t.WellFormed) {q : String} (hq : q ∈ utilized listed t) :
    q.toList.all isPartChar = true := by
  rcases mem_utilized.1 hq with rfl | ⟨a, ha, rfl, -⟩ | ⟨-, hs⟩
  · exact ht.name.qualifier
  · exact (ht.attributes a ha).name.qualifier
  · obtain ⟨v, hv⟩ := Option.isSome_iff_exists.1 hs
    exact ht.scope _ (lookup_mem hv)

theorem declared_utilized {b : String × String} (hb : b ∈ declarations listed rendered t) :
    b.1 ∈ utilized listed t := by
  unfold declarations at hb
  obtain ⟨q, hq, h⟩ := List.mem_filterMap.1 hb
  dsimp only at h
  split_ifs at h
  cases h
  exact hq

theorem name_text_spelt {n : Name} (hn : n.WellFormed) :
    n.text.toList.all isNameChar = true ∧ n.text ≠ "" := by
  have hb := all_isNameChar hn.base
  have hq := all_isNameChar hn.qualifier
  unfold Name.text
  split_ifs
  · exact ⟨hb, hn.nonempty⟩
  · refine ⟨?_, fun h => ?_⟩
    · have hcolon : isNameChar ':' = true := by decide
      simp [String.toList_append, hb, hq, hcolon]
    · have := congrArg String.toList h
      simp [String.toList_append] at this

theorem declarationName_spelt {q : String} (hq : q.toList.all isPartChar = true) :
    (declarationName q).toList.all isNameChar = true := by
  unfold declarationName
  split_ifs
  · decide
  · have hx : "xmlns:".toList.all isNameChar = true := by decide
    rw [String.toList_append, List.all_append, hx, all_isNameChar hq]
    rfl

theorem written_spelt (ht : t.WellFormed) :
    ∀ a ∈ written (declarations listed rendered t) t, a.1.toList.all isNameChar = true := by
  intro a ha
  rcases List.mem_append.1 ha with h | h
  · obtain ⟨b, hb, rfl⟩ := List.mem_map.1 h
    exact declarationName_spelt (utilized_spelt ht (declared_utilized hb))
  · obtain ⟨b, hb, rfl⟩ := List.mem_map.1 h
    exact (name_text_spelt (ht.attributes b ((sortedAttributes_perm t).mem_iff.1 hb)).name).1

end Tags

theorem allWellFormed_append : ∀ {is js : List Item}, Item.AllWellFormed is →
    Item.AllWellFormed js → Item.AllWellFormed (is ++ js)
  | [], _, _, hj => hj
  | _ :: _, _, hi, hj => ⟨hi.1, allWellFormed_append hi.2 hj⟩

theorem allWellFormed_characters : ∀ cs : List Char, Item.AllWellFormed (cs.map .character)
  | [] => trivial
  | _ :: cs => ⟨trivial, allWellFormed_characters cs⟩

mutual

/-- What well-formed nodes show is well formed. -/
theorem content_wellFormed (listed : List String) : ∀ (n : Node) (rendered : Scope),
    n.WellFormed → Item.AllWellFormed (content listed rendered n)
  | .element _ children, _, h =>
    ⟨⟨name_text_spelt h.1.name, written_spelt h.1,
      contentAll_wellFormed listed children _ h.2⟩, trivial⟩
  | .text s, _, _ => allWellFormed_characters s.toList
  | .literal s, _, _ => allWellFormed_characters s.toList
  | .comment, _, _ => trivial
  | .instruction _ _, _, h => ⟨h, trivial⟩

theorem contentAll_wellFormed (listed : List String) : ∀ (ns : List Node) (rendered : Scope),
    Node.AllWellFormed ns → Item.AllWellFormed (contentAll listed rendered ns)
  | [], _, _ => trivial
  | n :: ns, rendered, h => allWellFormed_append (content_wellFormed listed n rendered h.1)
    (contentAll_wellFormed listed ns rendered h.2)

end

/-- Well-formed nodes with one canonical form show the same, whatever qualifiers are listed. -/
theorem content_eq_of_text {m n : Node} {listed listed' : List String} (hm : m.WellFormed)
    (hn : n.WellFormed) (h : text listed m = text listed' n) :
    content listed [] m = content listed' [] n := by
  have hr : Item.renderAll (content listed [] m) ++ []
      = Item.renderAll (content listed' [] n) ++ [] := by
    have := congrArg String.toList h
    simpa [text, toList_write] using this
  exact (renderAll_append_inj (content_wellFormed listed m [] hm)
    (content_wellFormed listed' n [] hn) (.inl rfl) (.inl rfl) hr).1

end ImageTrust.Xml.Canonical
