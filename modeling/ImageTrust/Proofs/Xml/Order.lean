import Mathlib.Data.Prod.Lex
import Mathlib.Data.String.Basic
import ImageTrust.Proofs.Insertion
import ImageTrust.Proofs.Xml.Content

/-!
The order of canonical form. Qualifiers ascend, so which ones a tag declares fixes how they follow one
another. Attributes go by their expanded names, and as long as these differ the attributes alone fix the
order. What is in order already is left as it is.
-/

namespace ImageTrust.Xml.Canonical

section Qualifiers

theorem insertText_ascending {s : String} : ∀ {ts : List String}, ts.Pairwise (· < ·) →
    (insertText s ts).Pairwise (· < ·)
  | [], _ => List.pairwise_singleton _ s
  | t :: ts, h => by
    obtain ⟨ht, hts⟩ := List.pairwise_cons.1 h
    unfold insertText
    split_ifs with hlt heq
    · refine List.pairwise_cons.2 ⟨fun u hu => ?_, h⟩
      rcases List.mem_cons.1 hu with rfl | hu
      · exact hlt
      · exact hlt.trans (ht u hu)
    · exact h
    · refine List.pairwise_cons.2 ⟨fun u hu => ?_, insertText_ascending hts⟩
      rcases (mem_insertText ts).1 hu with rfl | hu
      · exact lt_of_le_of_ne (not_lt.1 hlt) (Ne.symm heq)
      · exact ht u hu

theorem foldl_insertText_ascending : ∀ (qs : List String) {ts : List String}, ts.Pairwise (· < ·) →
    (qs.foldl (fun ts q => insertText q ts) ts).Pairwise (· < ·)
  | [], _, h => h
  | _ :: qs, _, h => foldl_insertText_ascending qs (insertText_ascending h)

theorem utilized_ascending (listed : List String) (t : Tag) :
    (utilized listed t).Pairwise (· < ·) :=
  foldl_insertText_ascending _ .nil

theorem utilized_congr {listed listed' : List String} {t u : Tag}
    (h : ∀ q, q ∈ utilized listed t ↔ q ∈ utilized listed' u) :
    utilized listed t = utilized listed' u :=
  (utilized_ascending listed t).eq_of_mem_iff (utilized_ascending listed' u) h

end Qualifiers

section Attributes

/-- What attributes are sorted by: the namespace, then the base name. -/
def expandedName (scope : Scope) (a : Attribute) : String ×ₗ String :=
  toLex (attributeSpace scope a, a.name.base)

theorem precedes_iff {scope : Scope} {a b : Attribute} :
    precedes scope a b = true ↔ expandedName scope a < expandedName scope b := by
  simp [precedes, expandedName, Prod.Lex.lt_iff]

theorem insertAttribute_eq (scope : Scope) (a : Attribute) : ∀ as : List Attribute,
    insertAttribute scope a as = insertBy (expandedName scope) a as
  | [] => rfl
  | b :: bs => by
    rw [insertAttribute, insertAttribute_eq scope a bs, insertBy_cons]
    exact if_congr precedes_iff rfl rfl

theorem sortedAttributes_eq (t : Tag) : sortedAttributes t
    = t.attributes.foldl (fun as a => insertBy (expandedName t.scope) a as) [] := by
  simp only [sortedAttributes, insertAttribute_eq]

theorem sortedAttributes_sorted (t : Tag) : (sortedAttributes t).Pairwise
    fun a b => expandedName t.scope a ≤ expandedName t.scope b := by
  rw [sortedAttributes_eq, List.foldl_eq_foldr_reverse]
  exact foldr_insertBy_ascending t.attributes.reverse

theorem sortedAttributes_of_sorted {t : Tag} (h : t.attributes.Pairwise
    fun a b => expandedName t.scope a ≤ expandedName t.scope b) :
    sortedAttributes t = t.attributes := by
  rw [sortedAttributes_eq, foldl_insertBy_of_ascending h]

/-- Attributes whose expanded names differ are sorted in one way only. -/
theorem sortedAttributes_congr {t u : Tag}
    (hd : (t.attributes.map (expandedName t.scope)).Nodup) (hp : t.attributes.Perm u.attributes)
    (hs : ∀ a ∈ t.attributes, expandedName u.scope a = expandedName t.scope a) :
    sortedAttributes t = sortedAttributes u := by
  have hpu : (sortedAttributes u).Perm t.attributes := (sortedAttributes_perm u).trans hp.symm
  have hu : (sortedAttributes u).Pairwise
      fun a b => expandedName t.scope a ≤ expandedName t.scope b := by
    refine (sortedAttributes_sorted u).imp_of_mem fun {a b} ha hb hab => ?_
    rwa [hs a (hpu.mem_iff.1 ha), hs b (hpu.mem_iff.1 hb)] at hab
  have hstrict : ∀ {as : List Attribute}, as.Perm t.attributes →
      as.Pairwise (fun a b => expandedName t.scope a ≤ expandedName t.scope b) →
      as.Pairwise fun a b => expandedName t.scope a < expandedName t.scope b := by
    intro as has hle
    have hne : as.Pairwise fun a b => expandedName t.scope a ≠ expandedName t.scope b :=
      List.pairwise_map.1 ((has.map (expandedName t.scope)).nodup_iff.2 hd)
    exact hle.imp₂ (fun _ _ hab hn => lt_of_le_of_ne hab hn) hne
  exact ((sortedAttributes_perm t).trans hpu.symm).eq_of_pairwise
    (fun a b _ _ hab hba => absurd hab hba.asymm)
    (hstrict (sortedAttributes_perm t) (sortedAttributes_sorted t)) (hstrict hpu hu)

end Attributes

end ImageTrust.Xml.Canonical
