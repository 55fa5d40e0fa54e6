import ImageTrust.Proofs.Xml.Binding
import ImageTrust.Proofs.Xml.Search
import ImageTrust.Xml.Event

/-!
Which sequences of events there are. A sequence is well nested when each end tag closes the last
element that is open, and the well-nested ones are just the sequences that trees have, with elements
left open where a sequence breaks off. Every tag that is read out of a document binds the qualifier
`xml` to the namespace it always has.
-/

namespace ImageTrust.Xml

/-- Events between which elements with these names are open, the last one first. -/
inductive WellNested : (names : List Name) → List Event → Prop where
  | nil {names} : WellNested names []
  | start {names tag events} : WellNested (tag.name :: names) events →
      WellNested names (.start tag :: events)
  | stop {name names events} : WellNested names events →
      WellNested (name :: names) (.stop name :: events)
  | text {names content events} : WellNested names events →
      WellNested names (.text content :: events)
  | instruction {names target data events} : WellNested names events →
      WellNested names (.instruction target data :: events)

section Appending

mutual

theorem Node.events_append (more : List Event) : ∀ (n : Node) (rest : List Event),
    n.events (rest ++ more) = n.events rest ++ more
  | .element tag children, rest => by
    rw [Node.events, Node.events, ← List.cons_append, Node.allEvents_append more children]
    rfl
  | .text _, _ | .literal _, _ | .comment, _ | .instruction _ _, _ => rfl

theorem Node.allEvents_append (more : List Event) : ∀ (ns : List Node) (rest : List Event),
    Node.allEvents ns (rest ++ more) = Node.allEvents ns rest ++ more
  | [], _ => rfl
  | n :: ns, rest => by
    rw [Node.allEvents, Node.allEvents, Node.allEvents_append more ns, Node.events_append more n]

end

theorem Node.allEvents_snoc (n : Node) (rest : List Event) (ns : List Node) :
    Node.allEvents (ns ++ [n]) rest = Node.allEvents ns (n.events rest) := by
  induction ns with
  | nil => rfl
  | cons m ns ih => rw [List.cons_append, Node.allEvents, Node.allEvents, ih]

theorem Frame.events_snoc (f : Frame) : ∀ fs : List Frame, Frame.events (fs ++ [f])
    = Frame.events fs ++ .start f.tag :: Node.allEvents f.children []
  | [] => rfl
  | g :: fs => by
    rw [List.cons_append, Frame.events, Frame.events, Frame.events_snoc f fs,
      Node.allEvents_append, List.cons_append]

end Appending

section Trees

/-- Puts a node where a reading has arrived: in the last element that is open. -/
def Reading.put (d : Reading) (n : Node) : Reading :=
  match d.unclosed with
  | [] => { d with nodes := d.nodes ++ [n] }
  | f :: fs => { d with unclosed := ⟨f.tag, f.children ++ [n]⟩ :: fs }

theorem Reading.unclosed_put (d : Reading) (n : Node) :
    (d.put n).unclosed.map (·.tag.name) = d.unclosed.map (·.tag.name) := by
  unfold Reading.put
  split
  · rfl
  · rename_i f fs h
    rw [h]
    rfl

theorem Reading.events_open (ns : List Node) (f : Frame) (fs : List Frame) (sound : Bool) :
    (⟨ns, f :: fs, sound⟩ : Reading).events
      = (⟨ns, fs, sound⟩ : Reading).events ++ .start f.tag :: Node.allEvents f.children [] := by
  unfold Reading.events
  dsimp only
  rw [List.reverse_cons, Frame.events_snoc, Node.allEvents_append]

theorem Reading.events_put (d : Reading) (n : Node) : (d.put n).events = d.events ++ n.events [] := by
  obtain ⟨ns, fs, sound⟩ := d
  cases fs with
  | nil =>
    change Node.allEvents (ns ++ [n]) [] = Node.allEvents ns [] ++ n.events []
    rw [Node.allEvents_snoc, ← Node.allEvents_append, List.nil_append]
  | cons f fs =>
    change (⟨ns, ⟨f.tag, f.children ++ [n]⟩ :: fs, sound⟩ : Reading).events = _
    rw [Reading.events_open, Reading.events_open, Node.allEvents_snoc, List.append_assoc,
      List.cons_append, ← Node.allEvents_append, List.nil_append]

/-- A well-nested sequence that goes on where a reading has arrived is that of a longer reading. -/
theorem exists_longer_reading {names : List Name} {es : List Event} (h : WellNested names es) :
    ∀ d : Reading, d.unclosed.map (·.tag.name) = names →
      ∃ longer : Reading, longer.events = d.events ++ es := by
  induction h with
  | nil =>
    intro d _
    exact ⟨d, (List.append_nil _).symm⟩
  | @start _ tag events _ ih =>
    intro d hd
    obtain ⟨longer, hl⟩ := ih ⟨d.nodes, ⟨tag, []⟩ :: d.unclosed, d.sound⟩ (by rw [← hd]; rfl)
    refine ⟨longer, ?_⟩
    rw [hl, Reading.events_open, Node.allEvents, List.append_assoc]
    rfl
  | @stop name names events _ ih =>
    intro d hd
    obtain ⟨ns, fs, sound⟩ := d
    obtain ⟨f, fs, rfl, rfl, rfl⟩ := List.map_eq_cons_iff.1 hd
    -- the element that was opened last becomes a node of the one around it
    obtain ⟨longer, hl⟩ := ih ((⟨ns, fs, sound⟩ : Reading).put (.element f.tag f.children))
      (Reading.unclosed_put _ _)
    refine ⟨longer, ?_⟩
    rw [hl, Reading.events_put, Reading.events_open, Node.events, List.append_assoc,
      List.append_assoc, List.cons_append, List.cons_append, ← List.nil_append [Event.stop f.tag.name],
      Node.allEvents_append, List.append_assoc]
    rfl
  | @text names content events _ ih =>
    intro d hd
    obtain ⟨longer, hl⟩ := ih (d.put (.text content)) ((d.unclosed_put _).trans hd)
    refine ⟨longer, ?_⟩
    rw [hl, Reading.events_put, List.append_assoc]
    rfl
  | @instruction names target data events _ ih =>
    intro d hd
    obtain ⟨longer, hl⟩ := ih (d.put (.instruction target data)) ((d.unclosed_put _).trans hd)
    refine ⟨longer, ?_⟩
    rw [hl, Reading.events_put, List.append_assoc]
    rfl

/-- Every well-nested sequence is that of a tree, of which some elements may be open. -/
theorem WellNested.exists_reading {es : List Event} (h : WellNested [] es) :
    ∃ d : Reading, d.events = es :=
  exists_longer_reading h ⟨[], [], true⟩ rfl

mutual

theorem Node.wellNested_events {names : List Name} : ∀ (n : Node) {rest : List Event},
    WellNested names rest → WellNested names (n.events rest)
  | .element _ children, _, h => .start (Node.wellNested_allEvents children (.stop h))
  | .text _, _, h | .literal _, _, h => .text h
  | .comment, _, h => h
  | .instruction _ _, _, h => .instruction h

theorem Node.wellNested_allEvents {names : List Name} : ∀ (ns : List Node) {rest : List Event},
    WellNested names rest → WellNested names (Node.allEvents ns rest)
  | [], _, h => h
  | n :: ns, _, h => n.wellNested_events (Node.wellNested_allEvents ns h)

end

theorem Frame.wellNested_events : ∀ (fs : List Frame) (names : List Name),
    WellNested names (Frame.events fs)
  | [], _ => .nil
  | f :: fs, _ => .start (Node.wellNested_allEvents f.children (Frame.wellNested_events fs _))

theorem Reading.wellNested_events (d : Reading) : WellNested [] d.events :=
  Node.wellNested_allEvents d.nodes (Frame.wellNested_events _ _)

end Trees

section Tags

mutual

/-- The start tags of a node are those of its elements. -/
theorem Node.start_mem_events {t : Tag} : ∀ (n : Node) (rest : List Event),
    .start t ∈ n.events rest ↔ (∃ e ∈ n.preorder, e.tag = t) ∨ .start t ∈ rest
  | .element tag children, rest => by
    rw [Node.events, List.mem_cons, Node.start_mem_allEvents children, List.mem_cons]
    simp [Node.preorder, eq_comm, or_assoc]
  | .text _, _ | .literal _, _ | .comment, _ | .instruction _ _, _ => by
    simp [Node.events, Node.preorder]

theorem Node.start_mem_allEvents {t : Tag} : ∀ (ns : List Node) (rest : List Event),
    .start t ∈ Node.allEvents ns rest ↔ (∃ e ∈ Node.preorderAll ns, e.tag = t) ∨ .start t ∈ rest
  | [], _ => by simp [Node.allEvents, Node.preorderAll]
  | n :: ns, rest => by
    rw [Node.allEvents, Node.start_mem_events n, Node.start_mem_allEvents ns, Node.preorderAll]
    simp [or_and_right, exists_or, or_assoc]

end

theorem Frame.start_mem_events {t : Tag} : ∀ fs : List Frame, .start t ∈ Frame.events fs
    ↔ ∃ f ∈ fs, f.tag = t ∨ ∃ e ∈ Node.preorderAll f.children, e.tag = t
  | [] => by simp [Frame.events]
  | f :: fs => by
    rw [Frame.events, List.mem_cons, Node.start_mem_allEvents, Frame.start_mem_events fs]
    simp [eq_comm, or_assoc]

theorem Reading.start_mem_events {t : Tag} {d : Reading} : .start t ∈ d.events
    ↔ (∃ e ∈ Node.preorderAll d.nodes, e.tag = t)
      ∨ ∃ f ∈ d.unclosed, f.tag = t ∨ ∃ e ∈ Node.preorderAll f.children, e.tag = t := by
  unfold Reading.events
  rw [Node.start_mem_allEvents, Frame.start_mem_events]
  simp only [List.mem_reverse]

variable {e : Edition}

mutual

theorem Node.Legible.tags : ∀ {n : Node}, n.Legible e → ∀ f ∈ n.preorder, f.tag.Legible e
  | .element _ _, h, f, hf => by
    rcases List.mem_cons.1 hf with rfl | hf
    · exact h.1
    · exact Node.AllLegible.tags h.2 f hf
  | .text _, _, _, hf | .literal _, _, _, hf | .comment, _, _, hf | .instruction _ _, _, _, hf => by
    cases hf

theorem Node.AllLegible.tags : ∀ {ns : List Node}, Node.AllLegible e ns →
    ∀ f ∈ Node.preorderAll ns, f.tag.Legible e
  | [], _, _, hf => by cases hf
  | _ :: _, h, f, hf => by
    rcases List.mem_append.1 hf with hf | hf
    · exact h.1.tags f hf
    · exact Node.AllLegible.tags h.2 f hf

end

theorem exists_root_of_mem {f : Element} : ∀ ns : List Node, f ∈ Node.preorderAll ns →
    ∃ root ∈ Node.elements ns, f ∈ root.node.preorder
  | .element tag children :: ns, hf => by
    rcases List.mem_append.1 hf with hf | hf
    · exact ⟨⟨tag, children⟩, List.mem_cons_self, hf⟩
    · obtain ⟨root, hroot, hin⟩ := exists_root_of_mem ns hf
      exact ⟨root, List.mem_cons_of_mem _ hroot, hin⟩
  | .text _ :: ns, hf | .literal _ :: ns, hf | .comment :: ns, hf | .instruction _ _ :: ns, hf =>
    exists_root_of_mem ns hf

/-- The tags that are read out of any octets are legible. -/
theorem Reading.ofOctets_tags_legible (document : Octets) {t : Tag}
    (ht : .start t ∈ (Reading.ofOctets document).events) :
    t.Legible (Manuscript.ofOctets document).edition := by
  obtain ⟨hclosed, hopen⟩ := Reading.ofOctets_legible document
  rcases Reading.start_mem_events.1 ht with ⟨f, hf, rfl⟩ | ⟨g, hg, rfl | ⟨f, hf, rfl⟩⟩
  · obtain ⟨root, hroot, hin⟩ := exists_root_of_mem _ hf
    exact (hclosed root hroot).tags f hin
  · obtain ⟨r, sound, hr, hd⟩ := Reading.ofOctets_holds document
    rw [hd] at hg
    obtain ⟨frame, hframe, rfl⟩ := List.mem_map.1 hg
    exact (hr.frames frame hframe).1
  · exact Node.AllLegible.tags ((Node.allLegible_iff _).2 (hopen g hg)) f hf

end Tags

/-- Events as a reader hands them out: well nested, and with the qualifier `xml` bound in each tag to
the namespace that it always has. -/
structure ReaderEvents (es : List Event) : Prop where
  nested : WellNested [] es
  xml : ∀ t, .start t ∈ es → t.scope.space "xml" = xmlSpace

theorem readerEvents_ofOctets (document : Octets) :
    ReaderEvents (Reading.ofOctets document).events := by
  refine ⟨Reading.wellNested_events _, ?_⟩
  intro t ht
  have hx := (Reading.ofOctets_tags_legible document ht).scope.lookup_xml
  rw [Scope.space, hx, Option.getD_some]

end ImageTrust.Xml
