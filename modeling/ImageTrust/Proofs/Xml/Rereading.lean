import ImageTrust.Proofs.Xml.Encoding
import ImageTrust.Proofs.Xml.Reads
import ImageTrust.Proofs.Xml.Shape

/-!
Canonical form is read back as a tree with the same canonical form. A start tag is read back with its
attributes in order and with only those bindings that the output makes, and these lead to the same
declarations once more. From there the whole tree follows, node by node.
-/

namespace ImageTrust.Xml

open Canonical

section Tags

variable {e : Edition} {t u : Tag} {listed : List String} {rendered : Scope} {q v : String}

theorem mem_declarations {b : String × String} : b ∈ declarations listed rendered t
    ↔ b.1 ∈ utilized listed t ∧ (b.1 = "xml" || isRendered rendered b.1 (t.scope.space b.1)) = false
      ∧ b.2 = t.scope.space b.1 := by
  unfold declarations
  rw [List.mem_filterMap]
  constructor
  · rintro ⟨q, hq, h⟩
    dsimp only at h
    split_ifs at h with hr
    cases h
    exact ⟨hq, Bool.eq_false_iff.2 hr, rfl⟩
  · rintro ⟨hq, hr, hv⟩
    refine ⟨b.1, hq, ?_⟩
    dsimp only
    rw [hr, if_neg Bool.false_ne_true, ← hv]

theorem declarations_ascending : (declarations listed rendered t).Pairwise fun b c => b.1 < c.1 := by
  refine (utilized_ascending listed t).filterMap _ fun q q' hlt b hb c hc => ?_
  dsimp only at hb hc
  split_ifs at hb hc
  cases hb
  cases hc
  exact hlt

theorem lookup_reverse_declarations :
    (declarations listed rendered t).reverse.lookup q = (declarations listed rendered t).lookup q := by
  rw [lookup_declarations, declarations, ← List.filterMap_reverse]
  refine (lookup_filterMap (fun q => q = "xml" || isRendered rendered q (t.scope.space q))
    t.scope.space _).trans ?_
  simp only [List.mem_reverse]

theorem utilized_ne_xmlns (hn : t.name.qualifier ≠ "xmlns")
    (ha : ∀ a ∈ t.attributes, a.name.qualifier ≠ "xmlns") (hx : "xmlns" ∉ listed)
    (hq : q ∈ utilized listed t) : q ≠ "xmlns" := by
  rintro rfl
  rcases mem_utilized.1 hq with h | ⟨a, hmem, h, -⟩ | ⟨h, -⟩
  · exact hn h.symm
  · exact ha a hmem h
  · obtain ⟨l, hl, h⟩ := List.mem_map.1 h
    split_ifs at h
    · exact absurd h (by decide)
    · exact hx (h ▸ hl)

theorem isRendered_of_lookup (hx : q ≠ "xml") (hxmlns : q ≠ "xmlns")
    (h : (rendered ++ Scope.base).lookup q = some v) : isRendered rendered q v = true := by
  unfold isRendered
  rw [Scope.lookup_append] at h
  cases hr : rendered.lookup q with
  | some w =>
    rw [hr] at h
    cases h
    split_ifs with hq
    · rw [String.isEmpty_iff.1 hq] at hr
      rw [Scope.space, hr]
      exact decide_eq_true rfl
    · exact decide_eq_true rfl
  | none =>
    rw [hr, Option.none_or] at h
    have hbase := lookup_mem h
    simp only [Scope.base, List.mem_cons, Prod.mk.injEq, hx, hxmlns, false_and, List.not_mem_nil,
      or_false, false_or] at hbase
    obtain ⟨rfl, rfl⟩ := hbase
    simp [Scope.space, hr]

/-- A tag as it is read back, where `rendered` is what the output binds around it. -/
structure Rereads (listed : List String) (rendered : Scope) (t u : Tag) : Prop where
  name : u.name = t.name
  attributes : u.attributes = sortedAttributes t
  scope : ∀ q, u.scope.lookup q
    = ((declarations listed rendered t ++ rendered) ++ Scope.base).lookup q

namespace Rereads

theorem space (h : Rereads listed rendered t u) (ht : t.Legible e)
    (hx : rendered.lookup "xml" = none) (hq : q ∈ utilized listed t) :
    u.scope.space q = t.scope.space q := by
  rw [Scope.space, h.scope, ← Scope.space, space_rendered ht hx hq]

theorem utilized_of (h : Rereads listed rendered t u) (ht : t.Legible e)
    (hx : rendered.lookup "xml" = none) (hq : q ∈ utilized listed t) : q ∈ utilized listed u := by
  rcases mem_utilized.1 hq with hn | ⟨a, ha, hqa⟩ | ⟨hl, hb⟩
  · exact mem_utilized.2 (.inl (by rw [h.name, hn]))
  · have ha' : a ∈ u.attributes := by rwa [h.attributes, (sortedAttributes_perm t).mem_iff]
    exact mem_utilized.2 (.inr (.inl ⟨a, ha', hqa⟩))
  · refine mem_utilized.2 (.inr (.inr ⟨hl, ?_⟩))
    rwa [h.scope, lookup_rendered ht hx hq]

/-- What more a tag that was read back has to declare has been declared around it. -/
theorem isRendered_of (h : Rereads listed rendered t u) (hx : q ≠ "xml") (hxmlns : q ≠ "xmlns")
    (hu : q ∈ utilized listed u) (ht : q ∉ utilized listed t) :
    isRendered rendered q (u.scope.space q) = true := by
  have hb : (u.scope.lookup q).isSome = true := by
    rcases mem_utilized.1 hu with hn | ⟨a, ha, hqa⟩ | ⟨hl, hb⟩
    · exact absurd (mem_utilized.2 (.inl (by rw [← h.name, hn]))) ht
    · rw [h.attributes, (sortedAttributes_perm t).mem_iff] at ha
      exact absurd (mem_utilized.2 (.inr (.inl ⟨a, ha, hqa⟩))) ht
    · exact hb
  obtain ⟨v, hv⟩ := Option.isSome_iff_exists.1 hb
  have hspace : u.scope.space q = v := by rw [Scope.space, hv, Option.getD_some]
  rw [h.scope, List.append_assoc, Scope.lookup_append, lookup_declarations,
    if_neg fun hd => ht hd.1, Option.none_or] at hv
  rw [hspace]
  exact isRendered_of_lookup hx hxmlns hv

/-- A tag that was read back makes the same declarations. -/
theorem declarations_eq (h : Rereads listed rendered t u) (hw : t.WellFormed) (ht : t.Legible e)
    (hx : rendered.lookup "xml" = none) (hxmlns : "xmlns" ∉ listed) :
    declarations listed rendered u = declarations listed rendered t := by
  -- the tag may have to declare more when it is read back, since a listed qualifier that the output
  -- binds around it need not be bound in the document; but that has been declared already
  have hmem : ∀ b, b ∈ declarations listed rendered u ↔ b ∈ declarations listed rendered t := by
    intro b
    rw [mem_declarations, mem_declarations]
    constructor
    · rintro ⟨hq, hr, hv⟩
      have hne : b.1 ≠ "xmlns" := by
        refine utilized_ne_xmlns (by rw [h.name]; exact ht.unreserved.2) (fun a ha => ?_) hxmlns hq
        rw [h.attributes, (sortedAttributes_perm t).mem_iff] at ha
        exact (hw.attributes a ha).qualifier
      have hq' : b.1 ∈ utilized listed t := by
        by_contra hn
        obtain ⟨hxml, hnot⟩ := Bool.or_eq_false_iff.1 hr
        rw [h.isRendered_of (of_decide_eq_false hxml) hne hq hn] at hnot
        cases hnot
      rw [h.space ht hx hq'] at hr hv
      exact ⟨hq', hr, hv⟩
    · rintro ⟨hq, hr, hv⟩
      rw [h.space ht hx hq]
      exact ⟨h.utilized_of ht hx hq, hr, hv⟩
  have hirrefl : Std.Irrefl fun b c : String × String => b.1 < c.1 := ⟨fun b => lt_irrefl b.1⟩
  have hanti : Std.Antisymm fun b c : String × String => b.1 < c.1 :=
    ⟨fun b c hbc hcb => absurd hbc hcb.asymm⟩
  exact declarations_ascending.eq_of_mem_iff declarations_ascending hmem

theorem sortedAttributes_eq (h : Rereads listed rendered t u) (ht : t.Legible e)
    (hx : rendered.lookup "xml" = none) : sortedAttributes u = sortedAttributes t := by
  have hname : ∀ a ∈ t.attributes, expandedName u.scope a = expandedName t.scope a := by
    intro a ha
    have hspace : attributeSpace ((declarations listed rendered t ++ rendered) ++ Scope.base) a
        = attributeSpace t.scope a := attributeSpace_rendered ht hx ha
    have hscope : attributeSpace u.scope a
        = attributeSpace ((declarations listed rendered t ++ rendered) ++ Scope.base) a := by
      unfold attributeSpace
      rw [Scope.space, h.scope, ← Scope.space]
    rw [expandedName, expandedName, hscope, hspace]
  refine (sortedAttributes_of_sorted ?_).trans h.attributes
  rw [h.attributes]
  refine (sortedAttributes_sorted t).imp_of_mem fun {a b} ha hb hab => ?_
  rwa [hname a ((sortedAttributes_perm t).mem_iff.1 ha),
    hname b ((sortedAttributes_perm t).mem_iff.1 hb)]

end Rereads

theorem content_reread (h : Rereads listed rendered t u) (hw : t.WellFormed) (ht : t.Legible e)
    (hx : rendered.lookup "xml" = none) (hxmlns : "xmlns" ∉ listed) {children children' : List Node}
    (hc : contentAll listed (declarations listed rendered t ++ rendered) children'
      = contentAll listed (declarations listed rendered t ++ rendered) children) :
    content listed rendered (.element u children') = content listed rendered (.element t children) := by
  simp only [content, written, h.name, h.declarations_eq hw ht hx hxmlns, h.sortedAttributes_eq ht hx,
    hc]

end Tags

namespace Reader

variable {t u : Tag} {listed : List String} {rendered : Scope}

section Opening

theorem add?_declaringName (d : Draft) (q v : String) :
    Draft.add? d (declaringName q) v = Draft.bind? d q v := by
  unfold declaringName
  by_cases h : q = ""
  · rw [if_pos h, h]
    rfl
  · rw [if_neg h]
    rfl

theorem addAll?_declared : ∀ {bs : Scope} {d : Draft}, (∀ b ∈ bs, bindable b.1 b.2 = true) →
    (∀ b ∈ bs, d.declared.lookup b.1 = none) → bs.Pairwise (fun b c => b.1 < c.1) →
    addAll? d (bs.map fun b => (declaringName b.1, b.2))
      = some { d with declared := bs.reverse ++ d.declared }
  | [], _, _, _, _ => rfl
  | b :: bs, d, hb, hd, hp => by
    obtain ⟨hbind, hbinds⟩ := List.forall_mem_cons.1 hb
    obtain ⟨hnone, hnones⟩ := List.forall_mem_cons.1 hd
    obtain ⟨hlt, hps⟩ := List.pairwise_cons.1 hp
    have hfresh : ∀ c ∈ bs, ((b.1, b.2) :: d.declared).lookup c.1 = none := by
      intro c hc
      rw [List.lookup_cons, beq_false_of_ne (hlt c hc).ne']
      exact hnones c hc
    have hstep : Draft.add? d (declaringName b.1) b.2
        = some { d with declared := (b.1, b.2) :: d.declared } := by
      rw [add?_declaringName, Draft.bind?_eq, if_pos hbind, hnone]
      rfl
    have hrest := addAll?_declared (d := { d with declared := (b.1, b.2) :: d.declared }) hbinds
      hfresh hps
    rw [List.reverse_cons, List.append_assoc]
    exact (congrArg (Option.bind · fun d => addAll? d _) hstep).trans hrest

theorem addAll?_proper : ∀ {as : List Attribute} {d : Draft}, (∀ a ∈ as, a.WellFormed) →
    (∀ a ∈ as, ∀ b ∈ d.attributes, b.name ≠ a.name) → (as.map (·.name)).Nodup →
    addAll? d (as.map fun a => (a.name, a.value))
      = some { d with attributes := as.reverse ++ d.attributes }
  | [], _, _, _, _ => rfl
  | a :: as, d, ha, hd, hn => by
    obtain ⟨hw, hws⟩ := List.forall_mem_cons.1 ha
    obtain ⟨hnew, hnews⟩ := List.forall_mem_cons.1 hd
    obtain ⟨hnot, hns⟩ := List.nodup_cons.1 hn
    have hfresh : ∀ b ∈ as, ∀ c ∈ a :: d.attributes, c.name ≠ b.name := by
      intro b hb c hc
      rcases List.mem_cons.1 hc with rfl | hc
      · exact fun h => hnot (List.mem_map.2 ⟨b, hb, h.symm⟩)
      · exact hnews b hb c hc
    have hstep : Draft.add? d a.name a.value = some { d with attributes := a :: d.attributes } := by
      rw [Draft.add?, if_neg hw.qualifier, if_neg hw.plain, if_neg]
      simpa using hnew
    have hrest := addAll?_proper (d := { d with attributes := a :: d.attributes }) hws hfresh hns
    rw [List.reverse_cons, List.append_assoc]
    exact (congrArg (Option.bind · fun d => addAll? d _) hstep).trans hrest

theorem declarations_bindable {e : Edition} (hw : t.WellFormed) (ht : t.Legible e)
    (hx : "xmlns" ∉ listed) {b : String × String} (hb : b ∈ declarations listed rendered t) :
    bindable b.1 b.2 = true ∧ b.2.toList.all e.admits = true := by
  obtain ⟨hq, hr, hv⟩ := mem_declarations.1 hb
  have hxml : b.1 ≠ "xml" := of_decide_eq_false (Bool.or_eq_false_iff.1 hr).1
  have hxmlns : b.1 ≠ "xmlns" := utilized_ne_xmlns ht.unreserved.2
    (fun a ha => (hw.attributes a ha).qualifier) hx hq
  obtain ⟨v, hlookup⟩ := Option.isSome_iff_exists.1 (utilized_bound ht hq)
  rw [Scope.space, hlookup, Option.getD_some] at hv
  subst hv
  rcases ht.scope.lookup hlookup with h | h
  · exact ⟨h.bindable, h.space⟩
  · have hbase := lookup_mem h
    simp only [Scope.base, List.mem_cons, Prod.mk.injEq, hxml, hxmlns, false_and, List.not_mem_nil,
      or_false, false_or] at hbase
    rw [hbase.1, hbase.2]
    exact ⟨by decide, rfl⟩

theorem addAll?_entries {e : Edition} (hw : t.WellFormed) (ht : t.Legible e) (hx : "xmlns" ∉ listed) :
    addAll? ⟨t.name, [], []⟩ (entries (declarations listed rendered t) t)
      = some ⟨t.name, (sortedAttributes t).reverse, (declarations listed rendered t).reverse⟩ := by
  have hproper : ∀ a ∈ sortedAttributes t, a.WellFormed :=
    fun a ha => hw.attributes a ((sortedAttributes_perm t).mem_iff.1 ha)
  have hdistinct : ((sortedAttributes t).map (·.name)).Nodup :=
    ((sortedAttributes_perm t).map (·.name)).nodup_iff.2 ht.distinct
  have hdeclared : addAll? ⟨t.name, [], []⟩
      ((declarations listed rendered t).map fun b => (declaringName b.1, b.2))
      = some ⟨t.name, [], (declarations listed rendered t).reverse ++ []⟩ :=
    addAll?_declared (fun b hb => (declarations_bindable hw ht hx hb).1) (fun _ _ => rfl)
      declarations_ascending
  rw [List.append_nil] at hdeclared
  rw [addAll?, entries, List.foldlM_append]
  refine (congrArg (Option.bind · _) hdeclared).trans ?_
  refine (addAll?_proper hproper (fun _ _ _ hb => absurd hb List.not_mem_nil) hdistinct).trans ?_
  rw [List.append_nil]

/-- The tag that a start tag is read back as, where the reader binds `outer` around it. -/
def rereadTag (listed : List String) (rendered outer : Scope) (t : Tag) : Tag :=
  ⟨t.name, sortedAttributes t, (declarations listed rendered t).reverse ++ outer⟩

/-- What the reader binds is what the output binds, besides what is bound from the beginning. -/
def Binds (rendered outer : Scope) : Prop :=
  ∀ q, outer.lookup q = (rendered ++ Scope.base).lookup q

theorem rereads_rereadTag {outer : Scope} (ho : Binds rendered outer) :
    Rereads listed rendered t (rereadTag listed rendered outer t) where
  name := rfl
  attributes := rfl
  scope q := by
    rw [rereadTag, Scope.lookup_append, lookup_reverse_declarations, ho, ← Scope.lookup_append,
      List.append_assoc]

theorem reads_opening {frames : List Frame} {rooted : Bool} {text : List Char} {m : Mode}
    {outer : Scope} (hm : InText m) (hw : t.WellFormed) (ht : t.Legible .first)
    (hx : rendered.lookup "xml" = none) (hxmlns : "xmlns" ∉ listed)
    (hs : (standing frames rooted text m).scope = outer) (ho : Binds rendered outer) :
    Reads (standing frames rooted text m)
      ('<' :: (t.name.text.toList
        ++ ((written (declarations listed rendered t) t).flatMap renderAttribute ++ ['>'])))
      (standing (⟨rereadTag listed rendered outer t, []⟩ :: settledFrames text frames) true []
        (.content 0)) := by
  have hentries : ∀ a ∈ entries (declarations listed rendered t) t, LegibleEntry a := by
    intro a ha
    refine ⟨entries_legible ht a ha, ?_⟩
    rcases List.mem_append.1 ha with h | h
    · obtain ⟨b, hb, rfl⟩ := List.mem_map.1 h
      exact (declarations_bindable hw ht hxmlns hb).2
    · obtain ⟨b, hb, rfl⟩ := List.mem_map.1 h
      exact (ht.attributes b ((sortedAttributes_perm t).mem_iff.1 hb)).1.value
  have hreread : Rereads listed rendered t (rereadTag listed rendered outer t) :=
    rereads_rereadTag ho
  -- whatever the tag uses it had to declare, so it is bound when the tag is read back
  have hbound : ∀ n : Name, (n.qualifier = "" ∨ n.qualifier ∈ utilized listed t) →
      n.Bound ((declarations listed rendered t).reverse ++ outer) := by
    rintro n (hn | hn)
    · exact .inl hn
    · refine .inr ?_
      have hlookup := hreread.scope n.qualifier
      rw [lookup_rendered ht hx hn] at hlookup
      exact (congrArg Option.isSome hlookup).trans (utilized_bound ht hn)
  have hopen : ∀ m, ((standing frames rooted text m).open? ⟨t.name, (sortedAttributes t).reverse,
      (declarations listed rendered t).reverse⟩).bind (·.goto (.content 0))
      = some (standing (⟨rereadTag listed rendered outer t, []⟩ :: settledFrames text frames) true []
        (.content 0), []) := by
    intro m
    have hsm : (standing frames rooted text m).scope = outer := hs
    rw [open?_standing]
    · rw [hsm, List.reverse_reverse]
      rfl
    · rw [hsm]
      exact hbound t.name (.inr (mem_utilized.2 (.inl rfl)))
    · intro a ha
      rw [hsm]
      have hmem := (sortedAttributes_perm t).mem_iff.1 (List.mem_reverse.1 ha)
      by_cases hne : a.name.qualifier = ""
      · exact hbound a.name (.inl hne)
      · exact hbound a.name (.inr (mem_utilized.2 (.inr (.inl ⟨a, hmem, rfl, hne⟩))))
  have hread := reads_start hm ht.name ht.unreserved hentries (addAll?_entries hw ht hxmlns) hopen
  rwa [entries_text] at hread

end Opening

section Inside

/-- What canonical form shows of children and the text behind them, the last first. -/
def shown (listed : List String) (rendered : Scope) (children : List Node) (text : List Char) :
    List Item :=
  contentAll listed rendered children.reverse ++ text.reverse.map .character

theorem contentAll_append : ∀ ms ns : List Node, contentAll listed rendered (ms ++ ns)
    = contentAll listed rendered ms ++ contentAll listed rendered ns
  | [], _ => rfl
  | m :: ms, ns => by
    rw [List.cons_append, contentAll, contentAll, contentAll_append ms ns, List.append_assoc]

theorem shown_cons (n : Node) (children : List Node) : shown listed rendered (n :: children) []
    = shown listed rendered children [] ++ content listed rendered n := by
  simp [shown, contentAll_append, contentAll]

theorem shown_settled (children : List Node) (text : List Char) :
    shown listed rendered (settled text children) [] = shown listed rendered children text := by
  cases text with
  | nil => rfl
  | cons c text => simp [settled, shown, contentAll_append, contentAll, content]

theorem shown_text (children : List Node) (text cs : List Char) :
    shown listed rendered children (cs.reverse ++ text)
      = shown listed rendered children text ++ cs.map .character := by
  simp [shown]

/-- A reader that has come to the end of an element, when `frames` are open around it. -/
def closed (frames : List Frame) (n : Node) : Reader :=
  { (standing frames true [] (.content 0)).add n with mode := .content 0 }

theorem close_standing (f : Frame) (frames : List Frame) (text : List Char) (m : Mode) :
    (standing (f :: frames) true text m).close
      = some (closed frames (.element f.tag (settled text f.children).reverse), []) := by
  rw [close, flush_standing, closed]
  cases frames <;> rfl

theorem renderAll_element (u : Tag) (cs : List Node) :
    Item.renderAll (content listed rendered (.element u cs))
      = '<' :: (u.name.text.toList
          ++ ((written (declarations listed rendered u) u).flatMap renderAttribute ++ ['>']))
        ++ (Item.renderAll (contentAll listed (declarations listed rendered u ++ rendered) cs)
          ++ '<' :: '/' :: (u.name.text.toList ++ ['>'])) := by
  simp [content, Item.renderAll, Item.render]

theorem contentAll_settled {cs cs' : List Node} {text : List Char}
    (h : shown listed rendered cs' text = shown listed rendered [] [] ++ contentAll listed rendered cs) :
    contentAll listed rendered (settled text cs').reverse = contentAll listed rendered cs := by
  have hsettled : shown listed rendered (settled text cs') [] = shown listed rendered cs' text :=
    shown_settled cs' text
  rw [h] at hsettled
  simpa [shown, contentAll] using hsettled

abbrev inside (fs : List Frame) (t : Tag) (children : List Node) (text : List Char)
    (brackets : Nat) : Reader :=
  standing (⟨t, children⟩ :: fs) true text (.content brackets)

theorem reads_characters {fs : List Frame} {t : Tag} {children : List Node} {s : String}
    (hs : s.toList.all Edition.first.admits = true) (text : List Char) (brackets : Nat) :
    ∃ children' text' brackets', Reads (inside fs t children text brackets)
        (Item.renderAll (s.toList.map .character)) (inside fs t children' text' brackets')
      ∧ shown listed rendered children' text'
        = shown listed rendered children text ++ s.toList.map .character := by
  obtain ⟨brackets', hread⟩ : ∃ brackets', Reads (inside fs t children text brackets)
      (s.toList.flatMap fun c => (textChar c).toList)
      (inside fs t children (s.toList.reverse ++ text) brackets') := reads_text brackets hs
  refine ⟨children, _, brackets', ?_, shown_text children text s.toList⟩
  rwa [renderAll_characters]

/-- Children are read back inside any element in which the output binds what it binds around them. -/
def ReadsInside (listed : List String) (rendered : Scope) (ns : List Node) : Prop :=
  ∀ (fs : List Frame) (t : Tag) (children : List Node) (text : List Char) (brackets : Nat),
    Binds rendered t.scope →
    ∃ children' text' brackets', Reads (inside fs t children text brackets)
        (Item.renderAll (contentAll listed rendered ns)) (inside fs t children' text' brackets')
      ∧ shown listed rendered children' text'
        = shown listed rendered children text ++ contentAll listed rendered ns

theorem reads_element {frames : List Frame} {rooted : Bool} {text : List Char} {m : Mode}
    {outer : Scope} {cs : List Node} (hm : InText m) (hw : t.WellFormed) (ht : t.Legible .first)
    (hx : rendered.lookup "xml" = none) (hxmlns : "xmlns" ∉ listed)
    (hs : (standing frames rooted text m).scope = outer) (ho : Binds rendered outer)
    (hinside : ReadsInside listed (declarations listed rendered t ++ rendered) cs) :
    ∃ u cs', Reads (standing frames rooted text m)
        (Item.renderAll (content listed rendered (.element t cs)))
        (closed (settledFrames text frames) (.element u cs'))
      ∧ content listed rendered (.element u cs') = content listed rendered (.element t cs) := by
  let u := rereadTag listed rendered outer t
  have hreread : Rereads listed rendered t u := rereads_rereadTag ho
  have hopen : Reads (standing frames rooted text m)
      ('<' :: (t.name.text.toList
        ++ ((written (declarations listed rendered t) t).flatMap renderAttribute ++ ['>'])))
      (inside (settledFrames text frames) u [] [] 0) :=
    reads_opening hm hw ht hx hxmlns hs ho
  obtain ⟨cs', text', brackets, hread, hshown⟩ := hinside (settledFrames text frames) u [] [] 0 hreread.scope
  have hend : Reads (inside (settledFrames text frames) u cs' text' brackets)
      ('<' :: '/' :: (t.name.text.toList ++ ['>']))
      (closed (settledFrames text frames) (.element u (settled text' cs').reverse)) :=
    reads_end (f := ⟨u, cs'⟩) ht.name (close_standing ⟨u, cs'⟩ (settledFrames text frames) text')
  refine ⟨u, (settled text' cs').reverse, ?_,
    content_reread hreread hw ht hx hxmlns (contentAll_settled hshown)⟩
  rw [renderAll_element]
  exact hopen.append (hread.append hend)

mutual

/-- Inside an element the canonical form of a node is read back as children and text that show it. How
text falls into pieces is lost, so the children are not those of the node. -/
theorem reads_content (hxmlns : "xmlns" ∉ listed) : ∀ (n : Node) {rendered : Scope} {fs : List Frame}
    {t : Tag} {children : List Node} {text : List Char} {brackets : Nat}, n.WellFormed →
    n.Legible .first → rendered.lookup "xml" = none → Binds rendered t.scope →
    ∃ children' text' brackets', Reads (inside fs t children text brackets)
        (Item.renderAll (content listed rendered n)) (inside fs t children' text' brackets')
      ∧ shown listed rendered children' text'
        = shown listed rendered children text ++ content listed rendered n
  | .element u cs, rendered, fs, t, children, text, brackets, hw, hl, hx, ho => by
    have hinside : ReadsInside listed (declarations listed rendered u ++ rendered) cs :=
      reads_contentAll hxmlns cs hw.2 hl.2 (lookup_xml_rendered hx)
    have hscope : (inside fs t children text brackets).scope = t.scope := rfl
    obtain ⟨u', cs', hread, hcontent⟩ := reads_element (.inr ⟨brackets, rfl⟩) hw.1 hl.1 hx hxmlns
      hscope ho hinside
    refine ⟨.element u' cs' :: settled text children, [], 0, hread, ?_⟩
    rw [shown_cons, shown_settled, hcontent]
  | .text s, _, _, _, _, text, brackets, _, hl, _, _ => reads_characters hl text brackets
  | .literal s, _, _, _, _, text, brackets, _, hl, _, _ => reads_characters hl text brackets
  | .comment, _, _, _, children, text, brackets, _, _, _, _ =>
    ⟨children, text, brackets, .nil _, (List.append_nil _).symm⟩
  | .instruction target data, rendered, fs, t, children, text, brackets, hw, hl, _, _ => by
    have hread : Reads (inside fs t children text brackets)
        ('<' :: '?' :: (instructionBody target data ++ ['?', '>']))
        (inside fs t (.instruction target (shownData data) :: settled text children) [] 0) :=
      reads_instruction hl.1 hl.2 hw brackets
    refine ⟨.instruction target (shownData data) :: settled text children, [], 0, ?_, ?_⟩
    · rw [content, Item.renderAll, Item.render, Item.renderAll, List.append_nil]
      exact hread
    · rw [shown_cons, shown_settled, content, content, instructionBody_shownData]

theorem reads_contentAll (hxmlns : "xmlns" ∉ listed) : ∀ (ns : List Node) {rendered : Scope},
    Node.AllWellFormed ns → Node.AllLegible .first ns → rendered.lookup "xml" = none →
    ReadsInside listed rendered ns
  | [], _, _, _, _ => fun _ _ children text brackets _ =>
    ⟨children, text, brackets, .nil _, (List.append_nil _).symm⟩
  | n :: ns, rendered, hw, hl, hx => by
    intro fs t children text brackets ho
    obtain ⟨children₁, text₁, brackets₁, hread, hshown⟩ :=
      reads_content hxmlns n hw.1 hl.1 hx ho
    obtain ⟨children₂, text₂, brackets₂, hmore, hrest⟩ :=
      reads_contentAll hxmlns ns hw.2 hl.2 hx fs t children₁ text₁ brackets₁ ho
    refine ⟨children₂, text₂, brackets₂, ?_, ?_⟩
    · rw [contentAll, renderAll_append]
      exact hread.append hmore
    · rw [hrest, hshown, contentAll, List.append_assoc]

end

/-- From the beginning of a document the canonical form of an element is read back as an element that
shows it. -/
theorem reads_root (hxmlns : "xmlns" ∉ listed) {cs : List Node} (hw : (Node.element t cs).WellFormed)
    (hl : (Node.element t cs).Legible .first) :
    ∃ u cs', Reads (initial .first false) (Item.renderAll (content listed [] (.element t cs)))
        (closed [] (.element u cs'))
      ∧ content listed [] (.element u cs') = content listed [] (.element t cs) := by
  have hbase : Binds [] Scope.base := fun _ => rfl
  have hinside : ReadsInside listed (declarations listed [] t ++ []) cs :=
    reads_contentAll hxmlns cs hw.2 hl.2 (lookup_xml_rendered rfl)
  exact reads_element (.inl rfl) hw.1 hl.1 rfl hxmlns rfl hbase hinside

end Inside

end Reader

namespace Canonical

theorem toList_text (listed : List String) (n : Node) :
    (text listed n).toList = Item.renderAll (content listed [] n) := by
  simp [text, toList_write]

/-- The canonical form of an element is a document, and reading it gives an element with the same
canonical form. -/
theorem reading_text {t : Tag} {cs : List Node} {listed : List String} (hxmlns : "xmlns" ∉ listed)
    (hw : (Node.element t cs).WellFormed) (hl : (Node.element t cs).Legible .first) :
    ∃ u cs', Reading.ofOctets (Text.encode (text listed (.element t cs)))
        = ⟨[.element u cs'], [], true⟩
      ∧ content listed [] (.element u cs') = content listed [] (.element t cs) := by
  obtain ⟨u, cs', hread, hcontent⟩ := Reader.reads_root hxmlns hw hl
  refine ⟨u, cs', ?_, hcontent⟩
  obtain ⟨c, rest, hname, hc, -⟩ := hl.1.name.spelt
  obtain ⟨more, hbegins⟩ : ∃ more, (text listed (.element t cs)).toList = '<' :: c :: more := by
    rw [toList_text, Reader.renderAll_element, hname]
    exact ⟨_, rfl⟩
  have hoctets := Reading.ofOctets_encode hbegins (Reader.ne_of_class hc (by decide))
  rw [toList_text] at hoctets
  rw [hoctets, Reading.ofManuscript, hread.run]
  rfl

end Canonical

end ImageTrust.Xml
