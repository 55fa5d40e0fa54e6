import ImageTrust.Proofs.Signature.Located
import ImageTrust.Proofs.Xml.Nesting
import ImageTrust.Proofs.Xml.Rendering

/-!
Namespaces in the canonical form of a region. Whatever events pass by, and whatever of them is left
out, the output follows the rule of exclusive rendering at each element that is written.
-/

namespace ImageTrust.Signature

open ImageTrust.Xml

/-- Every tag at or inside a node binds the qualifier `xml` to its namespace. -/
def BindsXml (n : Node) : Prop :=
  ∀ e ∈ n.preorder, e.tag.scope.space "xml" = xmlSpace

theorem mem_preorderAll {e : Element} {ns : List Node} :
    e ∈ Node.preorderAll ns ↔ ∃ n ∈ ns, e ∈ n.preorder := by
  rw [Node.preorderAll_eq_flatMap, List.mem_flatMap]

theorem hereditary_bindsXml : Hereditary BindsXml where
  child h n hn e he := h e (List.mem_cons_of_mem _ (mem_preorderAll.2 ⟨n, hn, he⟩))
  part := by
    intro tag children kept h hkept e he
    rcases List.mem_cons.1 he with rfl | he
    · exact h ⟨tag, children⟩ List.mem_cons_self
    · obtain ⟨n, hn, he⟩ := mem_preorderAll.1 he
      exact h e (List.mem_cons_of_mem _ (mem_preorderAll.2 ⟨n, hkept hn, he⟩))

/-- What a reader hands out binds the qualifier `xml` in all of a region. -/
theorem Region.find?_bindsXml {d : Reading} (hd : ReaderEvents d.events) {region : Region} {n : Node}
    (h : region.find? d = some n) : BindsXml n := by
  refine region.find?_of_hereditary hereditary_bindsXml ?_ ?_ h
  · intro root hroot e he
    have hmem := mem_preorderAll.2 ⟨root.node, node_mem_of_elements hroot, he⟩
    exact hd.xml e.tag (Reading.start_mem_events.2 (.inl ⟨e, hmem, rfl⟩))
  · intro f hf n hn e he
    have hmem := mem_preorderAll.2 ⟨n, hn, he⟩
    exact hd.xml e.tag (Reading.start_mem_events.2 (.inr ⟨f, hf, .inr ⟨e, hmem, rfl⟩⟩))

/-- Whatever well-nested events pass by, a region is written when it is there, and what is written is
an exclusive rendering of it. -/
theorem canonical_form_exclusive {events : List Event} (he : ReaderEvents events) (region : Region)
    (listed : List String) : ∃ d : Reading, d.events = events
      ∧ (region.find? d = none → Scan.initial.run region listed events = none)
      ∧ ∀ n, region.find? d = some n → ∃ text items,
        Scan.initial.run region listed events = some text
          ∧ text.toList = Canonical.Item.renderAll items
          ∧ Canonical.Rendering listed [] n items := by
  obtain ⟨d, rfl⟩ := he.nested.exists_reading
  have hrun := Scan.run_events region listed d
  refine ⟨d, rfl, ?_, ?_⟩
  · intro hnone
    rw [hrun, hnone]
    rfl
  · intro n hn
    have hrendering : Canonical.Rendering listed [] n (Canonical.content listed [] n) :=
      Canonical.rendering_content n [] (Region.find?_bindsXml he hn)
    rw [hn] at hrun
    refine ⟨_, _, hrun, ?_, hrendering⟩
    rw [Canonical.text, Canonical.toList_write, String.toList_empty, List.nil_append]

/-- A record with a default namespace, one that is undone, and an attribute with a qualifier. -/
def record : Octets :=
  Text.encode "<r:a xmlns='u' xmlns:r='v'><b r:c='1' d='2'/><e xmlns=''/></r:a>"

theorem record_exclusive : ∃ d n items,
    d.events = (Reading.ofOctets record).events ∧ Region.document.find? d = some n
      ∧ "<r:a xmlns=\"u\" xmlns:r=\"v\"><b d=\"2\" r:c=\"1\"></b><e xmlns=\"\"></e></r:a>".toList
        = Canonical.Item.renderAll items
      ∧ Canonical.Rendering ["#default"] [] n items := by
  have hrun : Scan.initial.run .document ["#default"] (Reading.ofOctets record).events
      = some "<r:a xmlns=\"u\" xmlns:r=\"v\"><b d=\"2\" r:c=\"1\"></b><e xmlns=\"\"></e></r:a>" := by
    decide +kernel
  obtain ⟨d, hd, hnone, hsome⟩ :=
    canonical_form_exclusive (readerEvents_ofOctets record) .document ["#default"]
  cases hn : Region.document.find? d with
  | none =>
    rw [hnone hn] at hrun
    cases hrun
  | some n =>
    obtain ⟨text, items, htext, hitems, hrendering⟩ := hsome n hn
    rw [hrun] at htext
    cases htext
    exact ⟨d, n, items, hd, hn, hitems, hrendering⟩

end ImageTrust.Signature
