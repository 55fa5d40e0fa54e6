import Mathlib.Data.Finset.Dedup
import Mathlib.Data.List.TakeWhile
import ImageTrust.Proofs.Xml.Binding
import ImageTrust.Proofs.Xml.Order

/-!
What canonical form keeps of a tree and what it needs of it. The shape of a tree is its elements with
the namespaces of their names and their attributes as a set, its text character by character, and its
instructions. The shape can be read off the canonical form. In turn the shape fixes the canonical form,
once it says also what the listed qualifiers are bound to, unless expanded names repeat.
-/

namespace ImageTrust.Xml

open Canonical

variable {e : Edition}

/-- A piece of what a tree says. An attribute is given by its name, its namespace and its value, and
`bound` are the bindings of qualifiers that are looked at everywhere. -/
inductive Shape where
  | element (name : Name) (space : String) (attributes : Finset (Name × String × String))
      (bound : List (Option String)) (content : List Shape)
  | character (c : Char)
  | instruction (target data : String)

def shownAttributes (scope : Scope) (as : List Attribute) : Finset (Name × String × String) :=
  (as.map fun a => (a.name, attributeSpace scope a, a.value)).toFinset

def Tag.shown (t : Tag) : Finset (Name × String × String) :=
  shownAttributes t.scope t.attributes

/-- What listed qualifiers are bound to in a tag. -/
def Tag.bound (listed : List String) (t : Tag) : List (Option String) :=
  listed.map fun q => t.scope.lookup (if q = defaultToken then "" else q)

mutual

/-- The shape of a node. Comments have none, and text has that of its characters, however written. -/
def Node.shape (listed : List String) : Node → List Shape
  | .element tag children =>
    [.element tag.name tag.space tag.shown (tag.bound listed) (Node.shapeAll listed children)]
  | .text s => s.toList.map .character
  | .literal s => s.toList.map .character
  | .comment => []
  | .instruction target data => [.instruction target (data.getD "")]

def Node.shapeAll (listed : List String) : List Node → List Shape
  | [] => []
  | n :: ns => n.shape listed ++ Node.shapeAll listed ns

end

/-- No two attributes of a tag have one expanded name. -/
def Tag.Distinct (t : Tag) : Prop :=
  (t.attributes.map (expandedName t.scope)).Nodup

instance (t : Tag) : Decidable t.Distinct :=
  inferInstanceAs (Decidable (t.attributes.map fun a =>
    (attributeSpace t.scope a, a.name.base)).Nodup)

/-- No element at or inside a node has two attributes with one expanded name. -/
def Node.Distinct (n : Node) : Prop :=
  ∀ e ∈ n.preorder, e.tag.Distinct

instance (n : Node) : Decidable n.Distinct :=
  inferInstanceAs (Decidable (∀ e ∈ n.preorder, e.tag.Distinct))

theorem mem_shownAttributes {scope : Scope} {as : List Attribute} {n : Name} {s v : String} :
    (n, s, v) ∈ shownAttributes scope as ↔ ⟨n, v⟩ ∈ as ∧ attributeSpace scope ⟨n, v⟩ = s := by
  rw [shownAttributes, List.mem_toFinset, List.mem_map]
  constructor
  · rintro ⟨a, ha, h⟩
    cases h
    exact ⟨ha, rfl⟩
  · rintro ⟨ha, rfl⟩
    exact ⟨_, ha, rfl⟩

namespace Canonical

section Decoding

def nameOf (text : String) : Name :=
  (Name.ofChars? text.toList).getD ⟨"", text⟩

theorem nameOf_text {n : Name} (h : n.Legible) : nameOf n.text = n := by
  have hread := h.read
  simp only [readName?, bind, Option.bind_eq_some_iff, List.reverse_reverse] at hread
  obtain ⟨_, -, hn⟩ := hread
  rw [nameOf, hn, Option.getD_some]

def decoded (attributes : List (String × String)) : List (Name × String) :=
  attributes.map fun a => (nameOf a.1, a.2)

def declaredIn (entries : List (Name × String)) : Scope :=
  entries.filterMap fun a => (declared? a.1).map fun q => (q, a.2)

def properIn (entries : List (Name × String)) : List Attribute :=
  entries.filterMap fun a => if (declared? a.1).isSome then none else some ⟨a.1, a.2⟩

mutual

/-- The shape of an item, where `rendered` is what the output binds around it. -/
def Item.shape (rendered : Scope) : Item → Shape
  | .element name attributes content =>
    let rendered := declaredIn (decoded attributes) ++ rendered
    let scope := rendered ++ Scope.base
    .element (nameOf name) (scope.space (nameOf name).qualifier)
      (shownAttributes scope (properIn (decoded attributes))) [] (Item.shapeAll rendered content)
  | .character c => .character c
  | .instruction body => .instruction (String.ofList (body.takeWhile isNameChar))
      (String.ofList ((body.dropWhile isNameChar).drop 1))

def Item.shapeAll (rendered : Scope) : List Item → List Shape
  | [] => []
  | i :: is => i.shape rendered :: Item.shapeAll rendered is

end

theorem shapeAll_append (rendered : Scope) : ∀ is js : List Item,
    Item.shapeAll rendered (is ++ js) = Item.shapeAll rendered is ++ Item.shapeAll rendered js
  | [], _ => rfl
  | i :: is, js => congrArg (i.shape rendered :: ·) (shapeAll_append rendered is js)

theorem shapeAll_characters (rendered : Scope) : ∀ cs : List Char,
    Item.shapeAll rendered (cs.map .character) = cs.map .character
  | [] => rfl
  | c :: cs => congrArg (Shape.character c :: ·) (shapeAll_characters rendered cs)

section Tags

variable {t : Tag} {listed : List String} {rendered : Scope}

theorem declarations_legible (ht : t.Legible e) {b : String × String}
    (hb : b ∈ declarations listed rendered t) : (declaringName b.1).Legible :=
  ht.scope.declaringName (utilized_bound ht (declared_utilized hb))

theorem entries_legible (ht : t.Legible e) :
    ∀ a ∈ entries (declarations listed rendered t) t, a.1.Legible := by
  intro a ha
  rcases List.mem_append.1 ha with h | h
  · obtain ⟨b, hb, rfl⟩ := List.mem_map.1 h
    exact declarations_legible ht hb
  · obtain ⟨b, hb, rfl⟩ := List.mem_map.1 h
    exact (ht.attributes b ((sortedAttributes_perm t).mem_iff.1 hb)).1.name

theorem decoded_written (ht : t.Legible e) :
    decoded (written (declarations listed rendered t) t)
      = entries (declarations listed rendered t) t := by
  rw [← entries_text, decoded, List.map_map]
  refine (List.map_congr_left fun a ha => ?_).trans (List.map_id _)
  exact Prod.ext (nameOf_text (entries_legible ht a ha)) rfl

theorem declared?_sorted (hw : t.WellFormed) {a : Attribute} (ha : a ∈ sortedAttributes t) :
    declared? a.name = none :=
  declared?_proper (hw.attributes a ((sortedAttributes_perm t).mem_iff.1 ha))

theorem declaredIn_entries (hw : t.WellFormed) (declared : Scope) :
    declaredIn (entries declared t) = declared := by
  have hproper : declaredIn ((sortedAttributes t).map fun a => (a.name, a.value)) = [] := by
    rw [declaredIn, List.filterMap_map, List.filterMap_eq_nil_iff]
    intro a ha
    simp only [Function.comp, declared?_sorted hw ha, Option.map_none]
  have hdeclared : declaredIn (declared.map fun b => (declaringName b.1, b.2)) = declared := by
    simp [declaredIn, List.filterMap_map, declared?_declaringName]
  rw [declaredIn, entries, List.filterMap_append, ← declaredIn, hdeclared, ← declaredIn, hproper,
    List.append_nil]

theorem properIn_entries (hw : t.WellFormed) (declared : Scope) :
    properIn (entries declared t) = sortedAttributes t := by
  have hproper : properIn ((sortedAttributes t).map fun a => (a.name, a.value))
      = sortedAttributes t := by
    rw [properIn, List.filterMap_map, List.filterMap_congr (g := some), List.filterMap_some]
    intro a ha
    simp only [Function.comp, declared?_sorted hw ha, Option.isSome_none,
      if_neg Bool.false_ne_true]
  have hdeclared : properIn (declared.map fun b => (declaringName b.1, b.2)) = [] := by
    simp [properIn, List.filterMap_map, declared?_declaringName]
  rw [properIn, entries, List.filterMap_append, ← properIn, hdeclared, ← properIn, hproper,
    List.nil_append]

theorem shown_rendered (ht : t.Legible e) (hx : rendered.lookup "xml" = none) :
    shownAttributes ((declarations listed rendered t ++ rendered) ++ Scope.base)
      (sortedAttributes t) = t.shown := by
  ext ⟨n, s, v⟩
  rw [Tag.shown, mem_shownAttributes, mem_shownAttributes, (sortedAttributes_perm t).mem_iff]
  exact and_congr_right fun ha => by rw [attributeSpace_rendered ht hx ha]

end Tags

theorem instruction_shape {target : String} (ht : LegibleTarget target) (data : Option String)
    (rendered : Scope) : (Item.instruction (instructionBody target data)).shape rendered
      = .instruction target (data.getD "") := by
  have hname := ht.spelt.all
  unfold instructionBody
  dsimp only
  rw [Item.shape]
  split_ifs with hd
  · rw [List.append_nil, List.takeWhile_eq_self_iff.2 (List.all_eq_true.1 hname),
      List.dropWhile_eq_nil_iff.2 (List.all_eq_true.1 hname), String.isEmpty_iff.1 hd]
    simp
  · have hblank : isNameChar ' ' = false := by decide
    rw [List.takeWhile_append_of_pos (List.all_eq_true.1 hname),
      List.dropWhile_append_of_pos (List.all_eq_true.1 hname), List.takeWhile_cons_of_neg (by simp [hblank]),
      List.dropWhile_cons_of_neg (by simp [hblank])]
    simp

mutual

/-- The shape of a node can be read off what the canonical form shows of it. -/
theorem content_shape (listed : List String) : ∀ (n : Node) (rendered : Scope), n.WellFormed →
    n.Legible e → rendered.lookup "xml" = none →
    Item.shapeAll rendered (content listed rendered n) = n.shape []
  | .element t children, rendered, hw, hl, hx => by
    have hinside := contentAll_shape listed children (declarations listed rendered t ++ rendered)
      hw.2 hl.2 (lookup_xml_rendered hx)
    have hspace : ((declarations listed rendered t ++ rendered) ++ Scope.base).space
        t.name.qualifier = t.space := space_rendered hl.1 hx (mem_utilized.2 (.inl rfl))
    simp only [content, Item.shapeAll, Item.shape, Node.shape, nameOf_text hl.1.name,
      decoded_written hl.1, declaredIn_entries hw.1, properIn_entries hw.1, hspace,
      shown_rendered hl.1 hx, hinside]
    rfl
  | .text s, rendered, _, _, _ => shapeAll_characters rendered s.toList
  | .literal s, rendered, _, _, _ => shapeAll_characters rendered s.toList
  | .comment, _, _, _, _ => rfl
  | .instruction target data, rendered, _, hl, _ =>
    congrArg (· :: []) (instruction_shape hl.1 data rendered)

theorem contentAll_shape (listed : List String) : ∀ (ns : List Node) (rendered : Scope),
    Node.AllWellFormed ns → Node.AllLegible e ns → rendered.lookup "xml" = none →
    Item.shapeAll rendered (contentAll listed rendered ns) = Node.shapeAll [] ns
  | [], _, _, _, _ => rfl
  | n :: ns, rendered, hw, hl, hx => by
    rw [contentAll, shapeAll_append, content_shape listed n rendered hw.1 hl.1 hx,
      contentAll_shape listed ns rendered hw.2 hl.2 hx, Node.shapeAll]

end

end Decoding

section Encoding

variable {t u : Tag} {listed : List String}

theorem mem_of_shown (h : t.shown = u.shown) {a : Attribute} (ha : a ∈ t.attributes) :
    a ∈ u.attributes ∧ attributeSpace u.scope a = attributeSpace t.scope a := by
  have hm : (a.name, attributeSpace t.scope a, a.value) ∈ t.shown :=
    mem_shownAttributes.2 ⟨ha, rfl⟩
  rw [h] at hm
  exact mem_shownAttributes.1 hm

/-- Tags of one shape have to declare the same. -/
theorem utilized_of_shown (hn : t.name = u.name) (hs : t.shown = u.shown)
    (hb : t.bound listed = u.bound listed) {q : String} (hq : q ∈ utilized listed t) :
    q ∈ utilized listed u := by
  rcases mem_utilized.1 hq with rfl | ⟨a, ha, rfl, hne⟩ | ⟨hl, hbound⟩
  · exact mem_utilized.2 (.inl (by rw [hn]))
  · exact mem_utilized.2 (.inr (.inl ⟨a, (mem_of_shown hs ha).1, rfl, hne⟩))
  · refine mem_utilized.2 (.inr (.inr ⟨hl, ?_⟩))
    obtain ⟨l, hmem, rfl⟩ := List.mem_map.1 hl
    rwa [← List.map_inj_left.1 hb l hmem]

theorem space_of_shown (hn : t.name = u.name) (hspace : t.space = u.space) (hs : t.shown = u.shown)
    (hb : t.bound listed = u.bound listed) {q : String} (hq : q ∈ utilized listed t) :
    t.scope.space q = u.scope.space q := by
  rcases mem_utilized.1 hq with rfl | ⟨a, ha, rfl, hne⟩ | ⟨hl, -⟩
  · rw [Tag.space, Tag.space, ← hn] at hspace
    exact hspace
  · have hattribute := (mem_of_shown hs ha).2
    simp only [attributeSpace, String.isEmpty_iff, if_neg hne] at hattribute
    exact hattribute.symm
  · obtain ⟨l, hmem, rfl⟩ := List.mem_map.1 hl
    rw [Scope.space, Scope.space, List.map_inj_left.1 hb l hmem]

theorem declarations_of_shown (hn : t.name = u.name) (hspace : t.space = u.space)
    (hs : t.shown = u.shown) (hb : t.bound listed = u.bound listed) (rendered : Scope) :
    declarations listed rendered t = declarations listed rendered u := by
  have hutilized : utilized listed t = utilized listed u := utilized_congr fun q =>
    ⟨utilized_of_shown hn hs hb, utilized_of_shown hn.symm hs.symm hb.symm⟩
  rw [declarations, declarations, ← hutilized]
  refine List.filterMap_congr fun q hq => ?_
  rw [space_of_shown hn hspace hs hb hq]

theorem sortedAttributes_of_shown (hs : t.shown = u.shown) (ht : t.Distinct) (hu : u.Distinct) :
    sortedAttributes t = sortedAttributes u := by
  have hperm : t.attributes.Perm u.attributes :=
    (List.perm_ext_iff_of_nodup (.of_map _ ht) (.of_map _ hu)).2 fun a =>
      ⟨fun ha => (mem_of_shown hs ha).1, fun ha => (mem_of_shown hs.symm ha).1⟩
  refine sortedAttributes_congr ht hperm fun a ha => ?_
  rw [expandedName, expandedName, (mem_of_shown hs ha).2]

/-- A piece of a shape shows as an item, where `rendered` is what the output binds around it. -/
def Renders (listed : List String) (rendered : Scope) : Shape → Item → Prop
  | .element name space attributes bound content, i => ∃ t children, t.Distinct
    ∧ (∀ e ∈ Node.preorderAll children, e.tag.Distinct) ∧ t.name = name ∧ t.space = space
    ∧ t.shown = attributes ∧ t.bound listed = bound ∧ Node.shapeAll listed children = content
    ∧ i = .element name.text (written (declarations listed rendered t) t)
      (contentAll listed (declarations listed rendered t ++ rendered) children)
  | .character c, i => i = .character c
  | .instruction target data, i => i = .instruction (instructionBody target (some data))

theorem renders_characters (listed : List String) (rendered : Scope) : ∀ cs : List Char,
    List.Forall₂ (Renders listed rendered) (cs.map .character) (cs.map .character)
  | [] => .nil
  | _ :: cs => .cons rfl (renders_characters listed rendered cs)

theorem renders_content (listed : List String) (rendered : Scope) : ∀ ns : List Node,
    (∀ e ∈ Node.preorderAll ns, e.tag.Distinct) →
    List.Forall₂ (Renders listed rendered) (Node.shapeAll listed ns) (contentAll listed rendered ns)
  | [], _ => .nil
  | n :: ns, hd => by
    obtain ⟨hn, hns⟩ := List.forall_mem_append.1 hd
    have hrest := renders_content listed rendered ns hns
    rw [Node.shapeAll, contentAll]
    cases n with
    | element t children =>
      obtain ⟨ht, hchildren⟩ := List.forall_mem_cons.1 hn
      exact .cons ⟨t, children, ht, hchildren, rfl, rfl, rfl, rfl, rfl, rfl⟩ hrest
    | text s => exact List.rel_append (renders_characters listed rendered s.toList) hrest
    | literal s => exact List.rel_append (renders_characters listed rendered s.toList) hrest
    | comment => exact hrest
    | instruction target data =>
      refine .cons ?_ hrest
      simp [Renders, instructionBody]

mutual

/-- A piece of a shape shows in one way only. -/
theorem renders_unique {listed : List String} : ∀ {s : Shape} {rendered : Scope} {i j : Item},
    Renders listed rendered s i → Renders listed rendered s j → i = j
  | .element name space attributes bound content, rendered, i, j, hi, hj => by
    -- two elements of one shape may differ in their scopes, but not in what their tags declare
    obtain ⟨t, cs, ht, hcs, htn, hts, hta, htb, htc, rfl⟩ := hi
    obtain ⟨u, ds, hu, hds, hun, hus, hua, hub, huc, rfl⟩ := hj
    have hattributes : t.shown = u.shown := hta.trans hua.symm
    have hdeclared := declarations_of_shown (htn.trans hun.symm) (hts.trans hus.symm) hattributes
      (htb.trans hub.symm) rendered
    have hsorted := sortedAttributes_of_shown hattributes ht hu
    have hinside := renders_content listed (declarations listed rendered t ++ rendered) cs hcs
    have hinside' := renders_content listed (declarations listed rendered t ++ rendered) ds hds
    rw [htc] at hinside
    rw [huc] at hinside'
    rw [rendersAll_unique hinside hinside', written, written, ← hdeclared, hsorted]
  | .character c, _, _, _, hi, hj => hi.trans hj.symm
  | .instruction target data, _, _, _, hi, hj => hi.trans hj.symm

theorem rendersAll_unique {listed : List String} : ∀ {ss : List Shape} {rendered : Scope}
    {is js : List Item}, List.Forall₂ (Renders listed rendered) ss is →
    List.Forall₂ (Renders listed rendered) ss js → is = js
  | [], _, _, _, .nil, .nil => rfl
  | _ :: _, _, _, _, .cons hi his, .cons hj hjs => by
    rw [renders_unique hi hj, rendersAll_unique his hjs]

end

end Encoding

/-- Well-formed nodes with one canonical form have one shape, whatever qualifiers are listed. -/
theorem shape_eq_of_text {m n : Node} {e e' : Edition} {listed listed' : List String}
    (hm : m.WellFormed) (hm' : m.Legible e) (hn : n.WellFormed) (hn' : n.Legible e')
    (h : text listed m = text listed' n) : m.shape [] = n.shape [] := by
  rw [← content_shape listed m [] hm hm' rfl, content_eq_of_text hm hn h,
    content_shape listed' n [] hn hn' rfl]

/-- Nodes of one shape, also in what listed qualifiers are bound to, have one canonical form. -/
theorem text_eq_of_shape {m n : Node} {listed : List String} (hm : m.Distinct) (hn : n.Distinct)
    (h : m.shape listed = n.shape listed) : text listed m = text listed n := by
  have hrenders : ∀ n : Node, n.Distinct →
      List.Forall₂ (Renders listed []) (n.shape listed) (content listed [] n) := by
    intro n hn
    have h := renders_content listed [] [n] (by simpa [Node.preorderAll, Node.Distinct] using hn)
    simpa [Node.shapeAll, contentAll] using h
  have hcontent : content listed [] m = content listed [] n :=
    rendersAll_unique (hrenders m hm) (h ▸ hrenders n hn)
  rw [← String.toList_inj, text, text, toList_write, toList_write, hcontent]

end Canonical

end ImageTrust.Xml
