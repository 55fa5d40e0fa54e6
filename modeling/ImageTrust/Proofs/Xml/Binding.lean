import ImageTrust.Proofs.Xml.Alike
import ImageTrust.Proofs.Xml.Legible

/-!
Namespaces in canonical form. The declarations of a start tag, on top of those around it and of what
binds from the beginning, bind each qualifier that the tag has to declare as the document does. So a
name stands for the same in the output as in the document it was taken from.
-/

namespace ImageTrust.Xml

open Canonical

variable {e : Edition}

section Declaring

/-- The qualifier that an attribute with a name declares. -/
def declared? (n : Name) : Option String :=
  if n.qualifier = "xmlns" then some n.base
  else if n = ⟨"", "xmlns"⟩ then some ""
  else none

theorem declared?_declaringName (q : String) : declared? (declaringName q) = some q := by
  unfold declaringName
  split_ifs with h
  · rw [h]
    rfl
  · rfl

theorem declared?_proper {a : Attribute} (h : a.WellFormed) : declared? a.name = none := by
  rw [declared?, if_neg h.qualifier, if_neg h.plain]

theorem declaringName_text (q : String) : (declaringName q).text = declarationName q := by
  unfold declaringName declarationName
  split_ifs with h h' h'
  · rfl
  · exact absurd (String.isEmpty_iff.2 h) h'
  · exact absurd (String.isEmpty_iff.1 h') h
  · rfl

/-- What stands in a start tag: its declarations, then its attributes in order. -/
def entries (declared : Scope) (t : Tag) : List (Name × String) :=
  declared.map (fun b => (declaringName b.1, b.2))
    ++ (sortedAttributes t).map fun a => (a.name, a.value)

theorem entries_text (declared : Scope) (t : Tag) :
    (entries declared t).map (fun a => (a.1.text, a.2)) = written declared t := by
  simp [entries, written, Function.comp_def, declaringName_text]

end Declaring

namespace Scope

variable {s : Scope} {q v : String}

theorem lookup_append (s t : Scope) (q : String) :
    (s ++ t : Scope).lookup q = (s.lookup q).or (t.lookup q) :=
  List.lookup_append

theorem Legible.lookup (hs : s.Legible e) (h : s.lookup q = some v) :
    LegibleBinding e (q, v) ∨ Scope.base.lookup q = some v := by
  obtain ⟨declared, rfl, hd⟩ := hs
  rw [lookup_append, Option.or_eq_some_iff] at h
  rcases h with h | ⟨-, h⟩
  · exact .inl (hd _ (lookup_mem h))
  · exact .inr h

/-- Every qualifier in force may be declared, also one that is reserved. -/
theorem Legible.declaringName (hs : s.Legible e) (h : (s.lookup q).isSome = true) :
    (declaringName q).Legible := by
  have hbase : ∀ b ∈ Scope.base, (Xml.declaringName b.1).Legible := by
    simp only [Scope.base, List.mem_cons, List.not_mem_nil, or_false]
    rintro b (rfl | rfl | rfl)
    · exact ⟨⟨'x', "mlns:xml".toList, by decide, by decide, by decide⟩, by decide⟩
    · exact ⟨⟨'x', "mlns:xmlns".toList, by decide, by decide, by decide⟩, by decide⟩
    · exact ⟨⟨'x', "mlns".toList, by decide, by decide, by decide⟩, by decide⟩
  obtain ⟨v, hv⟩ := Option.isSome_iff_exists.1 h
  rcases hs.lookup hv with hb | hb
  · exact hb.name
  · exact hbase _ (lookup_mem hb)

theorem Legible.lookup_default (hs : s.Legible e) : (s.lookup "").isSome = true := by
  obtain ⟨declared, rfl, -⟩ := hs
  rw [lookup_append, Option.isSome_or]
  exact Bool.or_true _

theorem Legible.lookup_xml (hs : s.Legible e) : s.lookup "xml" = some xmlSpace := by
  obtain ⟨declared, rfl, hd⟩ := hs
  rw [lookup_append]
  cases h : declared.lookup "xml" with
  | none => rfl
  | some v =>
    have hv := (hd _ (lookup_mem h)).bindable
    have : v = xmlSpace := by simpa [bindable] using hv
    rw [this]
    rfl

end Scope

namespace Canonical

variable {t : Tag} {listed : List String} {rendered : Scope} {q v : String}

/-- A tag uses and declares nothing that is not bound where it stands. -/
theorem utilized_bound (ht : t.Legible e) (hq : q ∈ utilized listed t) :
    (t.scope.lookup q).isSome = true := by
  rcases mem_utilized.1 hq with rfl | ⟨a, ha, rfl, hne⟩ | ⟨-, h⟩
  · rcases ht.bound with h | h
    · rw [h]
      exact ht.scope.lookup_default
    · exact h
  · exact (ht.attributes a ha).2.resolve_left hne
  · exact h

theorem lookup_filterMap (p : String → Bool) (f : String → String) : ∀ qs : List String,
    (qs.filterMap fun k => if p k then none else some (k, f k)).lookup q
      = if q ∈ qs ∧ p q = false then some (f q) else none
  | [] => by simp
  | k :: qs => by
    rw [List.filterMap_cons]
    have ih := lookup_filterMap p f qs
    by_cases hk : q = k
    · subst hk
      cases hp : p q with
      | true => simpa [hp] using ih
      | false => simp
    · have hb : (q == k) = false := beq_false_of_ne hk
      cases hp : p k with
      | true => simpa [hk] using ih
      | false => simpa [List.lookup_cons, hb, hk] using ih

theorem lookup_declarations : (declarations listed rendered t).lookup q
    = if q ∈ utilized listed t ∧ (q = "xml" || isRendered rendered q (t.scope.space q)) = false
      then some (t.scope.space q) else none :=
  lookup_filterMap (fun q => q = "xml" || isRendered rendered q (t.scope.space q)) t.scope.space
    (utilized listed t)

theorem lookup_of_isRendered (h : isRendered rendered q v = true) :
    (rendered ++ Scope.base).lookup q = some v := by
  unfold isRendered at h
  rw [Scope.lookup_append]
  split_ifs at h with hq
  · rw [String.isEmpty_iff.1 hq]
    rw [decide_eq_true_eq, Scope.space] at h
    cases hr : rendered.lookup "" with
    | none =>
      rw [hr] at h
      rw [← h]
      rfl
    | some w =>
      rw [hr] at h
      exact congrArg some h
  · rw [of_decide_eq_true h]
    rfl

theorem lookup_xml_rendered (hx : rendered.lookup "xml" = none) :
    (declarations listed rendered t ++ rendered).lookup "xml" = none := by
  rw [Scope.lookup_append, lookup_declarations, hx]
  simp

/-- Inside a tag the output binds what the tag has to declare as the document does. -/
theorem lookup_rendered (ht : t.Legible e) (hx : rendered.lookup "xml" = none)
    (hq : q ∈ utilized listed t) :
    ((declarations listed rendered t ++ rendered) ++ Scope.base).lookup q = t.scope.lookup q := by
  obtain ⟨v, hv⟩ := Option.isSome_iff_exists.1 (utilized_bound ht hq)
  have hspace : t.scope.space q = v := by rw [Scope.space, hv, Option.getD_some]
  by_cases hxml : q = "xml"
  · -- never declared, but the document cannot have bound it to anything else
    subst hxml
    rw [ht.scope.lookup_xml, Scope.lookup_append, lookup_xml_rendered hx]
    rfl
  · rw [List.append_assoc, Scope.lookup_append, lookup_declarations, hspace, hv]
    by_cases hr : isRendered rendered q v = true
    · -- not declared, since an enclosing tag of the output has declared the same
      rw [if_neg (by simp [hr]), lookup_of_isRendered hr]
      rfl
    · rw [if_pos ⟨hq, by simp [hxml, hr]⟩]
      rfl

theorem space_rendered (ht : t.Legible e) (hx : rendered.lookup "xml" = none)
    (hq : q ∈ utilized listed t) :
    ((declarations listed rendered t ++ rendered) ++ Scope.base).space q = t.scope.space q := by
  rw [Scope.space, lookup_rendered ht hx hq, Scope.space]

theorem attributeSpace_rendered (ht : t.Legible e) (hx : rendered.lookup "xml" = none)
    {a : Attribute} (ha : a ∈ t.attributes) :
    attributeSpace ((declarations listed rendered t ++ rendered) ++ Scope.base) a
      = attributeSpace t.scope a := by
  unfold attributeSpace
  split_ifs with hq
  · rfl
  · refine space_rendered ht hx (mem_utilized.2 (.inr (.inl ⟨a, ha, rfl, ?_⟩)))
    rwa [String.isEmpty_iff] at hq

end Canonical

end ImageTrust.Xml
