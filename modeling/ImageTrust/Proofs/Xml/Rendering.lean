import ImageTrust.Proofs.Xml.Rereading

/-!
Exclusive rendering of namespaces as a rule about each element of the output: what it declares, given
what the open elements around it have declared, and what its names then stand for. The rule says nothing
of how declarations are collected and sorted, or how what is in force is kept. The canonical form of
every tree follows it.
-/

namespace ImageTrust.Xml.Canonical

section Rule

variable {t : Tag} {q : String}

/-- The qualifiers of the names in a tag. -/
def Uses (t : Tag) (q : String) : Prop :=
  q = t.name.qualifier ∨ ∃ a ∈ t.attributes, a.name.qualifier = q ∧ q ≠ ""

/-- A qualifier is listed and bound where the tag stands. -/
def ListedAndBound (listed : List String) (t : Tag) (q : String) : Prop :=
  (q ∈ listed.map fun l => if l = defaultToken then "" else l) ∧ (t.scope.lookup q).isSome = true

/-- What a qualifier was last declared to be in the elements around, innermost first. Where it was not
declared, the default is the empty namespace and nothing else is declared. -/
def lastDeclared (around : List Scope) (q : String) : Option String :=
  (around.findSome? (·.lookup q)).or (if q = "" then some "" else none)

/-- The namespace that a qualifier stands for inside elements with these declarations. -/
def resolve (around : List Scope) (q : String) : String :=
  if q = "xml" then xmlSpace else (lastDeclared around q).getD ""

/-- A tag declares, in order, the qualifiers that it uses and those that are listed and bound, unless
the last declaration around it is the same. -/
structure Declares (listed : List String) (around : List Scope) (t : Tag) (declared : Scope) :
    Prop where
  ascending : declared.Pairwise fun b c => b.1 < c.1
  mem_iff : ∀ q space, (q, space) ∈ declared ↔ q ≠ "xml" ∧ (Uses t q ∨ ListedAndBound listed t q)
    ∧ space = t.scope.space q ∧ lastDeclared around q ≠ some space

/-- The attributes of a tag, by namespace and then by base name. -/
structure Arranged (t : Tag) (attributes : List Attribute) : Prop where
  perm : attributes.Perm t.attributes
  sorted : attributes.Pairwise fun a b => expandedName t.scope a ≤ expandedName t.scope b

/-- The declarations and attributes of a start tag as they are spelt. -/
def spelt (declared : Scope) (attributes : List Attribute) : List (String × String) :=
  declared.map (fun b => (declarationName b.1, b.2))
    ++ attributes.map fun a => (a.name.text, a.value)

mutual

/-- A node is written as items inside elements that have made these declarations. -/
inductive Rendering (listed : List String) : (around : List Scope) → Node → List Item → Prop where
  | element {around tag children declared attributes content} :
      Declares listed around tag declared →
      (∀ q, Uses tag q → resolve (declared :: around) q = tag.scope.space q) →
      Arranged tag attributes →
      RenderingAll listed (declared :: around) children content →
      Rendering listed around (.element tag children)
        [.element tag.name.text (spelt declared attributes) content]
  | text {around s} : Rendering listed around (.text s) (s.toList.map .character)
  | literal {around s} : Rendering listed around (.literal s) (s.toList.map .character)
  | comment {around} : Rendering listed around .comment []
  | instruction {around target data} : Rendering listed around (.instruction target data)
      [.instruction (instructionBody target data)]

/-- Nodes are written one after the other. -/
inductive RenderingAll (listed : List String) : (around : List Scope) → List Node → List Item →
    Prop where
  | nil {around} : RenderingAll listed around [] []
  | cons {around n ns is js} : Rendering listed around n is → RenderingAll listed around ns js →
      RenderingAll listed around (n :: ns) (is ++ js)

end

end Rule

section Declarations

variable {listed : List String} {around : List Scope} {t : Tag} {q v : String}

theorem lookup_flatten (q : String) : ∀ around : List Scope,
    (around.flatten : Scope).lookup q = around.findSome? (·.lookup q)
  | [] => rfl
  | s :: around => by
    rw [List.flatten_cons, Scope.lookup_append, List.findSome?_cons, lookup_flatten q around]
    cases s.lookup q <;> rfl

/-- What is in force in the output is what was last declared. -/
theorem isRendered_iff :
    isRendered around.flatten q v = true ↔ lastDeclared around q = some v := by
  unfold isRendered lastDeclared
  rw [← lookup_flatten]
  by_cases hq : q = ""
  · subst hq
    rw [if_pos rfl, if_pos (String.isEmpty_iff.2 rfl), decide_eq_true_eq, Scope.space]
    cases (around.flatten : Scope).lookup "" with
    | some w => simp
    | none => simp
  · rw [if_neg (by simpa using hq), if_neg hq, Option.or_none, decide_eq_true_eq]

theorem mem_utilized_iff : q ∈ utilized listed t ↔ Uses t q ∨ ListedAndBound listed t q := by
  rw [mem_utilized, Uses, ListedAndBound, or_assoc]

theorem declares_declarations (listed : List String) (around : List Scope) (t : Tag) :
    Declares listed around t (declarations listed around.flatten t) := by
  refine ⟨declarations_ascending, ?_⟩
  intro q space
  rw [mem_declarations, mem_utilized_iff, Bool.or_eq_false_iff, decide_eq_false_iff_not,
    ← Bool.not_eq_true, isRendered_iff]
  constructor
  · rintro ⟨hused, ⟨hxml, hlast⟩, hspace⟩
    dsimp only at hspace hxml hlast hused
    subst hspace
    exact ⟨hxml, hused, rfl, hlast⟩
  · rintro ⟨hxml, hused, rfl, hlast⟩
    exact ⟨hused, ⟨hxml, hlast⟩, rfl⟩

/-- Under the declarations of a tag its names stand for what they stood for. -/
theorem resolve_of_declares {declared : Scope} (h : Declares listed around t declared)
    (hx : t.scope.space "xml" = xmlSpace) (hq : Uses t q) :
    resolve (declared :: around) q = t.scope.space q := by
  unfold resolve
  by_cases hxml : q = "xml"
  · rw [if_pos hxml, hxml, hx]
  rw [if_neg hxml, lastDeclared, List.findSome?_cons]
  cases hd : declared.lookup q with
  | some space =>
    -- declared here, and only as the tag binds it
    obtain ⟨-, -, hspace, -⟩ := (h.mem_iff q space).1 (lookup_mem hd)
    exact hspace
  | none =>
    -- not declared here, so what was declared last is the same
    by_contra hne
    have hlast : lastDeclared around q ≠ some (t.scope.space q) := by
      intro hlast
      apply hne
      change ((lastDeclared around q).getD "") = _
      rw [hlast, Option.getD_some]
    have hmem := (h.mem_iff q (t.scope.space q)).2 ⟨hxml, .inl hq, rfl, hlast⟩
    rw [List.lookup_eq_none_iff] at hd
    have := hd _ hmem
    simp at this

end Declarations

section Content

variable {listed : List String}

mutual

/-- Canonical form follows the rule at each element, given what is around it. -/
theorem rendering_content : ∀ (n : Node) (around : List Scope),
    (∀ e ∈ n.preorder, e.tag.scope.space "xml" = xmlSpace) →
      Rendering listed around n (content listed around.flatten n)
  | .element tag children, around, h => by
    obtain ⟨htag, hchildren⟩ := List.forall_mem_cons.1 h
    have hdeclares := declares_declarations listed around tag
    refine .element hdeclares ?_ ⟨sortedAttributes_perm tag, sortedAttributes_sorted tag⟩
      (renderingAll_contentAll children (declarations listed around.flatten tag :: around) hchildren)
    intro q hq
    exact resolve_of_declares hdeclares htag hq
  | .text _, _, _ => .text
  | .literal _, _, _ => .literal
  | .comment, _, _ => .comment
  | .instruction _ _, _, _ => .instruction

theorem renderingAll_contentAll : ∀ (ns : List Node) (around : List Scope),
    (∀ e ∈ Node.preorderAll ns, e.tag.scope.space "xml" = xmlSpace) →
      RenderingAll listed around ns (contentAll listed around.flatten ns)
  | [], _, _ => .nil
  | n :: ns, around, h => by
    obtain ⟨hn, hns⟩ := List.forall_mem_append.1 h
    exact .cons (rendering_content n around hn) (renderingAll_contentAll ns around hns)

end

end Content

end ImageTrust.Xml.Canonical
