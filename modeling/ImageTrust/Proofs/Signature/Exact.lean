import ImageTrust.Proofs.Signature.Located
import ImageTrust.Proofs.Xml.Shape

/-!
Canonical octets and the tree they stand for. Two documents have the same octets for a region only if
the two subtrees have one shape, whatever qualifiers are listed, and they do have the same octets when
also the listed qualifiers are bound alike and no expanded names repeat.
-/

namespace ImageTrust.Signature

open ImageTrust.Xml

variable {region : Region} {document : Octets} {n : Node}

theorem hereditary_wellFormed : Hereditary Node.WellFormed where
  child h := (Node.allWellFormed_iff _).1 h.2
  part h hkept := ⟨h.1, (Node.allWellFormed_iff _).2 fun n hn =>
    (Node.allWellFormed_iff _).1 h.2 n (hkept hn)⟩

theorem hereditary_legible {e : Edition} : Hereditary (Node.Legible e) where
  child h := (Node.allLegible_iff _).1 h.2
  part h hkept := ⟨h.1, (Node.allLegible_iff _).2 fun n hn =>
    (Node.allLegible_iff _).1 h.2 n (hkept hn)⟩

theorem Region.find?_wellFormed (h : region.find? (Reading.ofOctets document) = some n) :
    n.WellFormed := by
  obtain ⟨hnodes, hopen⟩ := Reading.ofOctets_wellFormed document
  exact region.find?_of_hereditary hereditary_wellFormed
    (fun root hroot => hnodes _ (node_mem_of_elements hroot)) hopen h

theorem Region.find?_legible (h : region.find? (Reading.ofOctets document) = some n) :
    n.Legible (Manuscript.ofOctets document).edition := by
  obtain ⟨hclosed, hopen⟩ := Reading.ofOctets_legible document
  exact region.find?_of_hereditary hereditary_legible hclosed hopen h

/-- A region has a canonical form when it is found. -/
theorem Region.canonical_ok_iff {listed : List String} {c : String} :
    region.canonical listed document = .ok c
      ↔ ∃ n, region.find? (Reading.ofOctets document) = some n ∧ Canonical.text listed n = c := by
  rw [Region.canonical_eq]
  cases region.find? (Reading.ofOctets document) with
  | none => simp
  | some n => simp

/-- The canonical octets of a region are those of its shape and of no other. -/
theorem canonical_octets_exact (region : Region) (x y : Octets) :
    (∀ listed listed' c, region.canonical listed x = .ok c → region.canonical listed' y = .ok c →
      ∃ m n, region.find? (Reading.ofOctets x) = some m ∧ region.find? (Reading.ofOctets y) = some n
        ∧ m.shape [] = n.shape [])
    ∧ ∀ listed m n, region.find? (Reading.ofOctets x) = some m →
      region.find? (Reading.ofOctets y) = some n → m.Distinct → n.Distinct →
      m.shape listed = n.shape listed →
      ∃ c, region.canonical listed x = .ok c ∧ region.canonical listed y = .ok c := by
  constructor
  · intro listed listed' c hx hy
    obtain ⟨m, hm, hmc⟩ := Region.canonical_ok_iff.1 hx
    obtain ⟨n, hn, hnc⟩ := Region.canonical_ok_iff.1 hy
    refine ⟨m, n, hm, hn, ?_⟩
    exact Canonical.shape_eq_of_text (Region.find?_wellFormed hm) (Region.find?_legible hm)
      (Region.find?_wellFormed hn) (Region.find?_legible hn) (hmc.trans hnc.symm)
  · intro listed m n hm hn hdm hdn hshape
    have htext := Canonical.text_eq_of_shape hdm hdn hshape
    exact ⟨_, Region.canonical_ok_iff.2 ⟨m, hm, rfl⟩, Region.canonical_ok_iff.2 ⟨n, hn, htext.symm⟩⟩

/-- A document with comments, a literal section, an unused declaration and an element in short form. -/
def informal : Octets :=
  Text.encode "<a:r xmlns:b='v' c='2' b=\"1\" xmlns:a=\"u\"><!-- n --><![CDATA[1<]]>2<?p?><e/></a:r>"

/-- The document above written another way. -/
def formal : Octets :=
  Text.encode "<a:r b='1' xmlns:a=\"u\" c='2'>1&lt;2<?p ?><e></e></a:r>"

/-- What differs between the two documents does not show. -/
theorem informal_formal_octets : ∃ m n, Region.document.find? (Reading.ofOctets informal) = some m
    ∧ Region.document.find? (Reading.ofOctets formal) = some n ∧ m.shape [] = n.shape []
    ∧ ∃ c, Region.document.canonical [] informal = .ok c
      ∧ Region.document.canonical [] formal = .ok c := by
  have hx : Region.document.canonical [] informal
      = .ok "<a:r xmlns:a=\"u\" b=\"1\" c=\"2\">1&lt;2<?p?><e></e></a:r>" := by decide +kernel
  have hy : Region.document.canonical [] formal
      = .ok "<a:r xmlns:a=\"u\" b=\"1\" c=\"2\">1&lt;2<?p?><e></e></a:r>" := by decide +kernel
  have hdistinct : ∀ {d : Octets} {n : Node}, (Region.document.find? (Reading.ofOctets d)).all
      (fun n => decide n.Distinct) = true → Region.document.find? (Reading.ofOctets d) = some n →
      n.Distinct := by
    intro d n h hn
    rw [hn] at h
    exact of_decide_eq_true h
  obtain ⟨honly, hif⟩ := canonical_octets_exact .document informal formal
  obtain ⟨m, n, hm, hn, hshape⟩ := honly [] [] _ hx hy
  exact ⟨m, n, hm, hn, hshape, hif [] m n hm hn (hdistinct (by decide +kernel) hm)
    (hdistinct (by decide +kernel) hn) hshape⟩

end ImageTrust.Signature
