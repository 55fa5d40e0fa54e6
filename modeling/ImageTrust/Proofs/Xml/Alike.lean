import ImageTrust.Proofs.Xml.Content
import ImageTrust.Proofs.Xml.Search
import Mathlib.Data.List.Forall2

/-!
Elements that look alike in canonical form. They agree in their names, in their attributes up to order,
in their text as a whole, and element by element in what is inside them. What does not have to agree is
the order of attributes, the pieces in which text was written, and comments.
-/

namespace ImageTrust.Xml

open Canonical

/-- The value of the last attribute with a base name in the order of canonical form. -/
def Tag.canonical? (t : Tag) (base : String) : Option String :=
  ((sortedAttributes t).reverse.find? (·.name.base = base)).map (·.value)

/-- The characters of a node that is text. -/
def Node.characters : Node → List Char
  | .text content => content.toList
  | .literal content => content.toList
  | _ => []

/-- All text directly inside an element, blank text included, in one piece. -/
def Element.wholeText (e : Element) : String :=
  String.ofList (e.children.flatMap Node.characters)

/-- An element shows as an item, whatever is declared around it. -/
def Shows (e : Element) (i : Item) : Prop :=
  e.node.WellFormed ∧ ∃ listed rendered,
    i = .element e.tag.name.text (written (declarations listed rendered e.tag) e.tag)
      (contentAll listed (declarations listed rendered e.tag ++ rendered) e.children)

/-- Two elements show as one item. -/
def Alike (e f : Element) : Prop :=
  ∃ i, Shows e i ∧ Shows f i

section Items

mutual

/-- The items in an item that are elements, in the order of the text. -/
def Canonical.Item.preorder : Item → List Item
  | .element name attributes content =>
    .element name attributes content :: Canonical.Item.preorderAll content
  | _ => []

def Canonical.Item.preorderAll : List Item → List Item
  | [] => []
  | i :: is => i.preorder ++ Canonical.Item.preorderAll is

end

def Canonical.Item.isElement : Item → Bool
  | .element _ _ _ => true
  | _ => false

def Canonical.Item.character? : Item → Option Char
  | .character c => some c
  | _ => none

theorem preorderAll_append : ∀ is js : List Item,
    Item.preorderAll (is ++ js) = Item.preorderAll is ++ Item.preorderAll js
  | [], _ => rfl
  | i :: is, js => by
    simp only [List.cons_append, Item.preorderAll, preorderAll_append is js, List.append_assoc]

theorem preorderAll_characters : ∀ cs : List Char, Item.preorderAll (cs.map .character) = []
  | [] => rfl
  | _ :: cs => preorderAll_characters cs

mutual

/-- The elements of a node show as the items of its content that are elements. -/
theorem shows_preorder (listed : List String) : ∀ (n : Node) (rendered : Scope), n.WellFormed →
    List.Forall₂ Shows n.preorder (Item.preorderAll (content listed rendered n))
  | .element tag children, rendered, h => by
    simp only [Node.preorder, content, Item.preorderAll, Item.preorder, List.append_nil]
    exact .cons ⟨h, listed, rendered, rfl⟩ (shows_preorderAll listed children _ h.2)
  | .text s, _, _ | .literal s, _, _ => by
    simp only [Node.preorder, content, preorderAll_characters]
    exact .nil
  | .comment, _, _ | .instruction _ _, _, _ => .nil

theorem shows_preorderAll (listed : List String) : ∀ (ns : List Node) (rendered : Scope),
    Node.AllWellFormed ns →
      List.Forall₂ Shows (Node.preorderAll ns) (Item.preorderAll (contentAll listed rendered ns))
  | [], _, _ => .nil
  | n :: ns, rendered, h => by
    rw [Node.preorderAll, contentAll, preorderAll_append]
    exact List.rel_append (shows_preorder listed n rendered h.1)
      (shows_preorderAll listed ns rendered h.2)

end

/-- The elements among nodes show as the elements among what the nodes show. -/
theorem shows_elements (listed : List String) (rendered : Scope) : ∀ ns : List Node,
    Node.AllWellFormed ns →
      List.Forall₂ Shows (Node.elements ns) ((contentAll listed rendered ns).filter Item.isElement)
  | [], _ => .nil
  | .element tag children :: ns, h =>
    .cons ⟨h.1, listed, rendered, rfl⟩ (shows_elements listed rendered ns h.2)
  | .text s :: ns, h | .literal s :: ns, h => by
    have hs : (s.toList.map Item.character).filter Item.isElement = [] := by
      simp [List.filter_eq_nil_iff, Item.isElement]
    rw [contentAll, content, List.filter_append, hs]
    exact shows_elements listed rendered ns h.2
  | .comment :: ns, h | .instruction _ _ :: ns, h => shows_elements listed rendered ns h.2

/-- The characters among what nodes show are those of the nodes. -/
theorem characters_contentAll (listed : List String) (rendered : Scope) (ns : List Node) :
    (contentAll listed rendered ns).filterMap Item.character? = ns.flatMap Node.characters := by
  induction ns with
  | nil => rfl
  | cons n ns ih =>
    rw [contentAll, List.filterMap_append, ih, List.flatMap_cons]
    congr 1
    cases n with
    | text s => simp [content, Node.characters, List.filterMap_map, Function.comp_def,
        Item.character?]
    | literal s => simp [content, Node.characters, List.filterMap_map, Function.comp_def,
        Item.character?]
    | _ => rfl

theorem alike_of_shows : ∀ {es fs : List Element} {is : List Item}, List.Forall₂ Shows es is →
    List.Forall₂ Shows fs is → List.Forall₂ Alike es fs
  | _, _, _, .nil, .nil => .nil
  | _, _, _, .cons he hes, .cons hf hfs => .cons ⟨_, he, hf⟩ (alike_of_shows hes hfs)

end Items

section Names

theorem not_colon {cs : List Char} (h : cs.all isPartChar = true) : ':' ∉ cs := by
  intro hm
  exact absurd (List.all_eq_true.1 h ':' hm) (by decide)

theorem split_at_colon {as bs cs ds : List Char} (ha : ':' ∉ as) (hc : ':' ∉ cs)
    (h : as ++ ':' :: bs = cs ++ ':' :: ds) : as = cs ∧ bs = ds := by
  induction as generalizing cs with
  | nil =>
    cases cs with
    | nil => exact ⟨rfl, (List.cons.inj h).2⟩
    | cons c cs => exact absurd ((List.cons.inj h).1 ▸ List.mem_cons_self) hc
  | cons a as ih =>
    cases cs with
    | nil => exact absurd ((List.cons.inj h).1 ▸ List.mem_cons_self) ha
    | cons c cs =>
      obtain ⟨rfl, hrest⟩ := List.cons.inj h
      obtain ⟨rfl, hbd⟩ := ih (fun hm => ha (List.mem_cons_of_mem _ hm))
        (fun hm => hc (List.mem_cons_of_mem _ hm)) hrest
      exact ⟨rfl, hbd⟩

theorem toList_name_text (n : Name) : n.text.toList
    = if n.qualifier = "" then n.base.toList else n.qualifier.toList ++ ':' :: n.base.toList := by
  unfold Name.text
  by_cases h : n.qualifier = ""
  · simp [h]
  · simp [h, String.toList_append]

/-- A well-formed name can be told from its text. -/
theorem name_text_inj {m n : Name} (hm : m.WellFormed) (hn : n.WellFormed)
    (h : m.text = n.text) : m = n := by
  obtain ⟨q, b⟩ := m
  obtain ⟨q', b'⟩ := n
  have ht := congrArg String.toList h
  rw [toList_name_text, toList_name_text] at ht
  dsimp only at ht
  split_ifs at ht with hq hq' hq'
  · rw [hq, hq', String.toList_inj.1 ht]
  · exact absurd (ht ▸ by simp) (not_colon hm.base)
  · exact absurd (ht ▸ by simp) (not_colon hn.base)
  · obtain ⟨hqq, hbb⟩ := split_at_colon (not_colon hm.qualifier) (not_colon hn.qualifier) ht
    obtain rfl : q = q' := String.toList_inj.1 hqq
    obtain rfl : b = b' := String.toList_inj.1 hbb
    rfl

/-- What is written as a declaration is not the name of an attribute proper. -/
theorem declarationName_ne {a : Attribute} {q : String} (ha : a.WellFormed)
    (hq : q.toList.all isPartChar = true) : declarationName q ≠ a.name.text := by
  intro h
  by_cases he : q = ""
  · have hx : (⟨"", "xmlns"⟩ : Name).WellFormed := ⟨rfl, by decide, by decide⟩
    have ht : (⟨"", "xmlns"⟩ : Name).text = a.name.text := by
      rw [← h, he]
      rfl
    exact ha.plain (name_text_inj hx ha.name ht).symm
  · have hxmlns : "xmlns".toList.all isPartChar = true := by decide
    have hx : (⟨"xmlns", q⟩ : Name).WellFormed := ⟨hxmlns, hq, he⟩
    have ht : (⟨"xmlns", q⟩ : Name).text = a.name.text := by
      rw [← h, ← String.toList_inj, toList_name_text]
      simp [declarationName, he, String.toList_append]
    exact ha.qualifier (congrArg Name.qualifier (name_text_inj hx ha.name ht)).symm

/-- Lists in two sections that nothing can be in both of agree section by section. -/
theorem append_inj_of_apart {α : Type} {p : α → Prop} {bs ds : List α} : ∀ {as cs : List α},
    (∀ a ∈ as, p a) → (∀ b ∈ bs, ¬ p b) → (∀ c ∈ cs, p c) → (∀ d ∈ ds, ¬ p d) →
    as ++ bs = cs ++ ds → as = cs ∧ bs = ds
  | [], [], _, _, _, _, h => ⟨rfl, h⟩
  | [], c :: cs, _, hb, hc, _, h =>
    absurd (hc c List.mem_cons_self) (hb c (by rw [List.nil_append] at h; simp [h]))
  | a :: as, [], ha, _, _, hd, h =>
    absurd (ha a List.mem_cons_self) (hd a (by rw [List.nil_append] at h; simp [← h]))
  | a :: as, c :: cs, ha, hb, hc, hd, h => by
    obtain ⟨rfl, hrest⟩ := List.cons.inj h
    obtain ⟨rfl, hbd⟩ := append_inj_of_apart (fun a hm => ha a (List.mem_cons_of_mem _ hm)) hb
      (fun c hm => hc c (List.mem_cons_of_mem _ hm)) hd hrest
    exact ⟨rfl, hbd⟩

theorem attributes_inj : ∀ {as bs : List Attribute}, (∀ a ∈ as, a.WellFormed) →
    (∀ b ∈ bs, b.WellFormed) →
    as.map (fun a => (a.name.text, a.value)) = bs.map (fun b => (b.name.text, b.value)) → as = bs
  | [], [], _, _, _ => rfl
  | [], _ :: _, _, _, h => by cases h
  | _ :: _, [], _, _, h => by cases h
  | a :: as, b :: bs, ha, hb, h => by
    obtain ⟨hab, hrest⟩ := List.cons.inj h
    obtain ⟨hname, hvalue⟩ := Prod.mk.inj hab
    have hn := name_text_inj (ha a List.mem_cons_self).name (hb b List.mem_cons_self).name hname
    have has := attributes_inj (fun a hm => ha a (List.mem_cons_of_mem _ hm))
      (fun b hm => hb b (List.mem_cons_of_mem _ hm)) hrest
    obtain ⟨name, value⟩ := a
    obtain ⟨name', value'⟩ := b
    obtain rfl : name = name' := hn
    obtain rfl : value = value' := hvalue
    rw [has]

/-- A start tag as it is written tells its declarations from its attributes. -/
theorem written_inj {t u : Tag} {listed listed' : List String} {rendered rendered' : Scope}
    (ht : t.WellFormed) (hu : u.WellFormed)
    (h : written (declarations listed rendered t) t
      = written (declarations listed' rendered' u) u) :
    sortedAttributes t = sortedAttributes u := by
  have hsorted : ∀ {t : Tag}, t.WellFormed → ∀ a ∈ sortedAttributes t, a.WellFormed :=
    fun {t} ht a ha => ht.attributes a ((sortedAttributes_perm t).mem_iff.1 ha)
  let isDeclared (a : String × String) : Prop :=
    ∃ q, q.toList.all isPartChar = true ∧ a.1 = declarationName q
  have hdeclared : ∀ {t : Tag} {listed : List String} {rendered : Scope}, t.WellFormed →
      ∀ a ∈ (declarations listed rendered t).map (fun b => (declarationName b.1, b.2)),
        isDeclared a := by
    intro t listed rendered ht a ha
    obtain ⟨b, hb, rfl⟩ := List.mem_map.1 ha
    exact ⟨b.1, utilized_spelt ht (declared_utilized hb), rfl⟩
  have hproper : ∀ {t : Tag}, t.WellFormed →
      ∀ a ∈ (sortedAttributes t).map (fun a => (a.name.text, a.value)), ¬ isDeclared a := by
    rintro t ht a ha ⟨q, hq, hname⟩
    obtain ⟨b, hb, rfl⟩ := List.mem_map.1 ha
    exact declarationName_ne (hsorted ht b hb) hq hname.symm
  exact attributes_inj (hsorted ht) (hsorted hu) (append_inj_of_apart (hdeclared ht) (hproper ht)
    (hdeclared hu) (hproper hu) h).2

end Names

namespace Alike

variable {e f : Element}

theorem name (h : Alike e f) : e.tag.name = f.tag.name := by
  obtain ⟨i, ⟨he, _, _, hi⟩, hf, _, _, hj⟩ := h
  exact name_text_inj he.1.name hf.1.name (Item.element.inj (hi.symm.trans hj)).1

theorem canonical? (h : Alike e f) (base : String) :
    e.tag.canonical? base = f.tag.canonical? base := by
  obtain ⟨i, ⟨he, _, _, hi⟩, hf, _, _, hj⟩ := h
  have hw := (Item.element.inj (hi.symm.trans hj)).2.1
  rw [Tag.canonical?, Tag.canonical?, written_inj he.1 hf.1 hw]

theorem contents (h : Alike e f) : Node.AllWellFormed e.children ∧ Node.AllWellFormed f.children
    ∧ ∃ listed rendered listed' rendered',
      contentAll listed rendered e.children = contentAll listed' rendered' f.children := by
  obtain ⟨i, ⟨he, listed, rendered, hi⟩, hf, listed', rendered', hj⟩ := h
  exact ⟨he.2, hf.2, listed, _, listed', _, (Item.element.inj (hi.symm.trans hj)).2.2⟩

theorem wholeText (h : Alike e f) : e.wholeText = f.wholeText := by
  obtain ⟨-, -, listed, rendered, listed', rendered', hc⟩ := h.contents
  rw [Element.wholeText, Element.wholeText, ← characters_contentAll listed rendered, hc,
    characters_contentAll]

/-- What is directly inside elements that look alike looks alike. -/
theorem elements (h : Alike e f) :
    List.Forall₂ Alike (Node.elements e.children) (Node.elements f.children) := by
  obtain ⟨he, hf, listed, rendered, listed', rendered', hc⟩ := h.contents
  have hes := shows_elements listed rendered e.children he
  rw [hc] at hes
  exact alike_of_shows hes (shows_elements listed' rendered' f.children hf)

/-- What is inside elements that look alike, at any depth, looks alike. -/
theorem preorder (h : Alike e f) :
    List.Forall₂ Alike (Node.preorderAll e.children) (Node.preorderAll f.children) := by
  obtain ⟨he, hf, listed, rendered, listed', rendered', hc⟩ := h.contents
  have hes := shows_preorderAll listed e.children rendered he
  rw [hc] at hes
  exact alike_of_shows hes (shows_preorderAll listed' f.children rendered' hf)

end Alike

/-- Elements with one canonical form look alike. -/
theorem alike_of_text {e f : Element} {listed listed' : List String} (he : e.node.WellFormed)
    (hf : f.node.WellFormed) (h : text listed e.node = text listed' f.node) : Alike e f := by
  have hc := content_eq_of_text he hf h
  simp only [Element.node, content, List.cons.injEq, and_true] at hc
  exact ⟨_, ⟨he, listed, [], rfl⟩, hf, listed', [], hc⟩

end ImageTrust.Xml
