import ImageTrust.Xml.Reader
import Mathlib.Tactic.SplitIfs

/-!
What a reader stores is well named. Names have a base and two parts spelt with name characters and
without a colon, no attribute proper is a declaration, declared qualifiers are spelt like names, and
the text of an instruction does not hold the end of one. This is an invariant of every step, so it
holds of the tree of any octets, damaged documents included.
-/

namespace ImageTrust.Xml

/-- Holds of the characters in one part of a name. -/
def isPartChar (c : Char) : Bool :=
  isNameChar c && c != ':'

structure Name.WellFormed (n : Name) : Prop where
  qualifier : n.qualifier.toList.all isPartChar = true
  base : n.base.toList.all isPartChar = true
  nonempty : n.base ≠ ""

/-- An attribute proper, which is no declaration. -/
structure Attribute.WellFormed (a : Attribute) : Prop where
  name : a.name.WellFormed
  qualifier : a.name.qualifier ≠ "xmlns"
  plain : a.name ≠ ⟨"", "xmlns"⟩

/-- Declared qualifiers are spelt like parts of names. -/
def Scope.WellFormed (s : Scope) : Prop :=
  ∀ b ∈ s, b.1.toList.all isPartChar = true

structure Tag.WellFormed (t : Tag) : Prop where
  name : t.name.WellFormed
  attributes : ∀ a ∈ t.attributes, a.WellFormed
  scope : t.scope.WellFormed

/-- Characters without the end of an instruction. -/
def Unclosed (cs : List Char) : Prop :=
  ¬ ['?', '>'] <:+: cs

/-- What stands between the ends of an instruction in canonical form. -/
def instructionBody (target : String) (data : Option String) : List Char :=
  let data := data.getD ""
  target.toList ++ if data.isEmpty then [] else ' ' :: data.toList

mutual

def Node.WellFormed : Node → Prop
  | .element tag children => tag.WellFormed ∧ Node.AllWellFormed children
  | .instruction target data => Unclosed (instructionBody target data)
  | _ => True

def Node.AllWellFormed : List Node → Prop
  | [] => True
  | n :: ns => n.WellFormed ∧ Node.AllWellFormed ns

end

theorem Node.allWellFormed_iff : ∀ ns : List Node,
    Node.AllWellFormed ns ↔ ∀ n ∈ ns, n.WellFormed
  | [] => by simp [Node.AllWellFormed]
  | n :: ns => by simp [Node.AllWellFormed, Node.allWellFormed_iff ns]

theorem Scope.WellFormed.append {s t : Scope} (hs : s.WellFormed) (ht : t.WellFormed) :
    (s ++ t : Scope).WellFormed := by
  intro b hb
  rcases List.mem_append.1 hb with h | h
  · exact hs b h
  · exact ht b h

theorem Scope.base_wellFormed : Scope.base.WellFormed := by
  unfold Scope.WellFormed Scope.base
  decide

/-- Name characters in two parts make a name. -/
theorem Name.ofChars?_wellFormed {cs : List Char} {n : Name} (hc : cs.all isNameChar = true)
    (h : Name.ofChars? cs = some n) : n.WellFormed := by
  have hall := List.all_eq_true.1 hc
  have hbefore : (cs.takeWhile (· != ':')).all isPartChar = true := by
    rw [List.all_eq_true]
    intro c hm
    rw [isPartChar, hall c (List.takeWhile_sublist _ |>.subset hm), Bool.true_and]
    exact List.all_eq_true.1 List.all_takeWhile c hm
  unfold Name.ofChars? at h
  split at h
  · dsimp only at h
    split_ifs at h with he
    cases h
    refine ⟨rfl, by simpa using hbefore, ?_⟩
    simpa [String.ofList_eq_empty_iff] using he
  · rename_i x after hd
    dsimp only at h
    split_ifs at h with he
    cases h
    simp only [Bool.or_eq_true, not_or, Bool.not_eq_true] at he
    refine ⟨by simpa using hbefore, ?_, ?_⟩
    · rw [String.toList_ofList, List.all_eq_true]
      intro c hm
      have hmem : c ∈ cs :=
        (List.dropWhile_sublist (· != ':')).subset (hd ▸ List.mem_cons_of_mem x hm)
      rw [isPartChar, hall c hmem, Bool.true_and, bne_iff_ne]
      rintro rfl
      have := he.2
      simp [hm] at this
    · simpa using he.1.2

theorem readName?_wellFormed {read : List Char} {n : Name} (hc : read.all isNameChar = true)
    (h : readName? read = some n) : n.WellFormed := by
  simp only [readName?, bind, Option.bind_eq_some_iff] at h
  obtain ⟨_, -, h⟩ := h
  exact Name.ofChars?_wellFormed (by simpa using hc) h

structure Draft.WellFormed (d : Draft) : Prop where
  name : d.name.WellFormed
  attributes : ∀ a ∈ d.attributes, a.WellFormed
  declared : d.declared.WellFormed

def Place.WellFormed : Place → Prop
  | .text => True
  | .value draft name _ _ => draft.WellFormed ∧ name.WellFormed

/-- What is known about the characters that a place in a document holds. -/
def Mode.WellFormed : Mode → Prop
  | .tagName read | .targetClose read => read.all isNameChar = true
  | .target _ read => read.all isNameChar = true
  | .inTag draft _ | .slash draft => draft.WellFormed
  | .attributeName draft read => draft.WellFormed ∧ read.all isNameChar = true
  | .equals draft name | .quote draft name | .value draft name _ _
  | .valueLess draft name _ _ => draft.WellFormed ∧ name.WellFormed
  | .reference place _ => place.WellFormed
  | .data name read question => name.all isNameChar = true ∧ Unclosed read.reverse
    ∧ (question = true ↔ read.head? = some '?')
  | _ => True

namespace Reader

theorem bind?_wellFormed {d d' : Draft} {qualifier space : String} (hd : d.WellFormed)
    (hq : qualifier.toList.all isPartChar = true) (h : Draft.bind? d qualifier space = some d') :
    d'.WellFormed := by
  have hadd : (⟨d.name, d.attributes, (qualifier, space) :: d.declared⟩ : Draft).WellFormed :=
    ⟨hd.name, hd.attributes, List.forall_mem_cons.2 ⟨hq, hd.declared⟩⟩
  simp only [Draft.bind?] at h
  generalize (if qualifier = "xmlns" then false else _) = admitted at h
  split_ifs at h
  · cases h
    exact hd
  · cases h
    exact hadd

theorem add?_wellFormed {d d' : Draft} {name : Name} {value : String} (hd : d.WellFormed)
    (hn : name.WellFormed) (h : Draft.add? d name value = some d') : d'.WellFormed := by
  unfold Draft.add? at h
  split_ifs at h with hx hp
  · exact bind?_wellFormed hd hn.base h
  · exact bind?_wellFormed hd rfl h
  · cases h
    refine ⟨hd.name, fun a ha => ?_, hd.declared⟩
    rcases List.mem_cons.1 ha with rfl | ha
    · exact ⟨hn, hx, hp⟩
    · exact hd.attributes a ha

/-- The elements and nodes read so far are well formed. -/
structure Stored (r : Reader) : Prop where
  frames : ∀ f ∈ r.frames, f.tag.WellFormed ∧ ∀ n ∈ f.children, n.WellFormed
  nodes : ∀ n ∈ r.nodes, n.WellFormed

/-- The invariant of reading. -/
structure WellFormed (r : Reader) : Prop where
  stored : r.Stored
  mode : r.mode.WellFormed

/-- An outcome, when there is one, has a property. -/
def Leads (P : Reader → Prop) (o : Outcome) : Prop :=
  ∀ r cs, o = some (r, cs) → P r

section Leads

variable {P : Reader → Prop}

theorem keeps_none : Leads P none :=
  nofun

theorem keeps_ite {c : Prop} [Decidable c] {o p : Outcome} (ho : c → Leads P o)
    (hp : ¬ c → Leads P p) : Leads P (if c then o else p) := by
  split_ifs with hc
  · exact ho hc
  · exact hp hc

theorem keeps_bind {α : Type} {x : Option α} {f : α → Outcome}
    (h : ∀ a, x = some a → Leads P (f a)) : Leads P (x.bind f) := by
  cases x with
  | none => exact keeps_none
  | some a => exact h a rfl

end Leads

/-- An outcome, when there is one, satisfies the invariant. -/
abbrev Keeps (o : Outcome) : Prop :=
  Leads WellFormed o

variable {r : Reader}

theorem Stored.goto (hr : r.Stored) {m : Mode} (hm : m.WellFormed) : Keeps (r.goto m) := by
  intro r' cs h
  cases h
  exact ⟨⟨hr.frames, hr.nodes⟩, hm⟩

theorem Stored.scope (hr : r.Stored) : r.scope.WellFormed := by
  unfold Reader.scope
  split
  · rename_i f fs hf
    exact (hr.frames f (hf ▸ List.mem_cons_self)).1.scope
  · exact Scope.base_wellFormed

theorem Stored.add (hr : r.Stored) {n : Node} (hn : n.WellFormed) : (r.add n).Stored := by
  unfold Reader.add
  split
  · rename_i f fs hf
    refine ⟨fun g hg => ?_, hr.nodes⟩
    rcases List.mem_cons.1 hg with rfl | hg
    · obtain ⟨ht, hc⟩ := hr.frames f (hf ▸ List.mem_cons_self)
      exact ⟨ht, List.forall_mem_cons.2 ⟨hn, hc⟩⟩
    · exact hr.frames g (hf ▸ List.mem_cons_of_mem f hg)
  · exact ⟨hr.frames, List.forall_mem_cons.2 ⟨hn, hr.nodes⟩⟩

theorem Stored.flush (hr : r.Stored) : r.flush.Stored := by
  unfold Reader.flush
  split_ifs
  · exact ⟨hr.frames, hr.nodes⟩
  · have h := hr.add (n := .text (String.ofList r.text.reverse)) trivial
    exact ⟨h.frames, h.nodes⟩

theorem Stored.place (hr : r.Stored) {n : Node} (hn : n.WellFormed) : Keeps (r.place n) :=
  (hr.flush.add hn).goto trivial

theorem Stored.close (hr : r.Stored) : Keeps r.close := by
  unfold Reader.close
  dsimp only
  split
  · rename_i f fs hf
    have hframe := hr.flush.frames f (hf ▸ List.mem_cons_self)
    have hrest : ({ r.flush with frames := fs } : Reader).Stored :=
      ⟨fun g hg => hr.flush.frames g (hf ▸ List.mem_cons_of_mem f hg), hr.flush.nodes⟩
    refine (hrest.add (n := .element f.tag f.children.reverse) ⟨hframe.1, ?_⟩).goto trivial
    rw [Node.allWellFormed_iff]
    exact fun n hn => hframe.2 n (List.mem_reverse.1 hn)
  · exact keeps_none

theorem Stored.open? (hr : r.Stored) {d : Draft} (hd : d.WellFormed) {r' : Reader}
    (h : r.open? d = some r') : r'.Stored := by
  unfold Reader.open? at h
  dsimp only at h
  split_ifs at h
  cases h
  refine ⟨fun f hf => ?_, hr.flush.nodes⟩
  rcases List.mem_cons.1 hf with rfl | hf
  · refine ⟨⟨hd.name, fun a ha => hd.attributes a (List.mem_reverse.1 ha), ?_⟩, by simp⟩
    exact hd.declared.append hr.scope
  · exact hr.flush.frames f hf

section Places

variable {c : Char}

theorem isNameChar_of_start (h : isNameStart c = true) : isNameChar c = true := by
  simp [isNameChar, h]

theorem keeps_inText (hr : r.Stored) (brackets : Nat) (first : Bool) :
    Keeps (r.inText brackets first c) := by
  have hpending : ({ r with text := c :: r.text } : Reader).Stored := ⟨hr.frames, hr.nodes⟩
  unfold inText
  refine keeps_ite (fun _ => hr.goto trivial) fun _ => ?_
  refine keeps_ite (fun _ => keeps_ite (fun _ => hr.goto trivial) fun _ => keeps_none) fun _ => ?_
  refine keeps_ite (fun _ => hr.goto trivial) fun _ => ?_
  refine keeps_ite (fun _ => keeps_none) fun _ => ?_
  exact keeps_ite (fun _ => hpending.goto trivial) fun _ => keeps_none

theorem keeps_inMarkup (hr : r.Stored) (first : Bool) : Keeps (r.inMarkup first c) := by
  unfold inMarkup
  refine keeps_ite (fun _ => hr.goto rfl) fun _ => ?_
  refine keeps_ite (fun _ => hr.goto trivial) fun _ => ?_
  refine keeps_ite (fun _ => keeps_ite (fun _ => keeps_none) fun _ => hr.goto trivial) fun _ => ?_
  refine keeps_ite (fun hc => hr.goto ?_) fun _ => keeps_none
  simp [Mode.WellFormed, isNameChar_of_start hc]

theorem keeps_inBang (hr : r.Stored) : Keeps (r.inBang c) := by
  unfold inBang
  refine keeps_ite (fun _ => hr.goto trivial) fun _ => ?_
  refine keeps_ite (fun _ => keeps_ite (fun _ => keeps_none) fun _ => hr.goto trivial) fun _ => ?_
  refine keeps_ite (fun _ => keeps_ite (fun _ => keeps_none) fun _ => hr.goto trivial) fun _ => ?_
  exact keeps_none

theorem keeps_enter (hr : r.Stored) (kind : Section) : Keeps (r.enter kind) := by
  have htyped : ({ r with typed := true } : Reader).Stored := ⟨hr.frames, hr.nodes⟩
  cases kind with
  | comment => exact hr.goto trivial
  | literal => exact hr.goto trivial
  | doctype => exact htyped.goto trivial

theorem keeps_inComment (hr : r.Stored) (dashes : Nat) : Keeps (r.inComment dashes c) := by
  unfold inComment
  refine keeps_ite (fun _ => keeps_ite (fun _ => hr.place trivial) fun _ => keeps_none) fun _ => ?_
  refine keeps_ite (fun _ => hr.goto trivial) fun _ => ?_
  exact keeps_ite (fun _ => hr.goto trivial) fun _ => keeps_none

theorem keeps_inLiteral (hr : r.Stored) (read : List Char) (brackets : Nat) :
    Keeps (r.inLiteral read brackets c) := by
  unfold inLiteral
  refine keeps_ite (fun _ => hr.place trivial) fun _ => ?_
  exact keeps_ite (fun _ => hr.goto trivial) fun _ => keeps_none

theorem keeps_inTarget (hr : r.Stored) (first : Bool) {read : List Char}
    (hread : read.all isNameChar = true) : Keeps (r.inTarget first read c) := by
  unfold inTarget
  refine keeps_ite (fun _ => keeps_ite (fun _ => hr.goto hread) fun _ => keeps_none) fun _ => ?_
  refine keeps_ite (fun _ => keeps_ite (fun _ => hr.goto ?_) fun _ => keeps_none) fun _ => ?_
  · exact ⟨hread, by simp [Unclosed], by simp⟩
  · refine keeps_ite (fun hc => hr.goto ?_) fun _ => keeps_none
    have hname : isNameChar c = true := by
      split_ifs at hc with he
      · exact isNameChar_of_start hc
      · exact hc
    simp [Mode.WellFormed, hname, hread]

/-- Reading on in an instruction does not close it, unless a question mark was last. -/
theorem unclosed_append {cs : List Char} (h : Unclosed cs) {question : Bool}
    (hq : question = true ↔ cs.getLast? = some '?') (hc : ¬ (c = '>' && question) = true) :
    Unclosed (cs ++ [c]) := by
  rintro ⟨before, after, he⟩
  rcases List.eq_nil_or_concat after with rfl | ⟨init, last, rfl⟩
  · have he' : (before ++ ['?']) ++ ['>'] = cs ++ [c] := by simpa using he
    obtain ⟨rfl, hlast⟩ := List.append_inj' he' rfl
    obtain rfl : '>' = c := List.singleton_inj.1 hlast
    exact hc (by simpa using hq)
  · rw [List.concat_eq_append, ← List.append_assoc] at he
    exact h ⟨before, init, (List.append_inj' he rfl).1⟩

theorem unclosed_of_name {cs ds : List Char} (hc : cs.all isNameChar = true) (hd : Unclosed ds) :
    Unclosed (cs ++ ds) := by
  induction cs with
  | nil => exact hd
  | cons x cs ih =>
    obtain ⟨hx, hcs⟩ := Bool.and_eq_true_iff.1 (List.all_cons.symm.trans hc)
    intro h
    rcases List.infix_cons_iff.1 h with h | h
    · obtain ⟨rfl, -⟩ := List.cons_prefix_cons.1 h
      exact absurd hx (by decide)
    · exact ih hcs h

theorem unclosed_blank {ds : List Char} (hd : Unclosed ds) : Unclosed (' ' :: ds) := by
  intro h
  rcases List.infix_cons_iff.1 h with h | h
  · exact absurd (List.cons_prefix_cons.1 h).1 (by decide)
  · exact hd h

theorem instruction?_wellFormed {target : List Char} {data : Option (List Char)} {n : Node}
    (ht : target.all isNameChar = true) (hd : ∀ ds, data = some ds → Unclosed ds.reverse)
    (h : instruction? target data = some n) : n.WellFormed := by
  simp only [instruction?, bind, Option.bind_eq_some_iff] at h
  obtain ⟨name, hname, h⟩ := h
  cases h
  have hn : name.toList.all isNameChar = true := by
    unfold nameText? at hname
    dsimp only at hname
    split_ifs at hname
    cases hname
    simpa using ht
  refine unclosed_of_name hn ?_
  split_ifs
  · simp [Unclosed]
  · cases data with
    | none => exact unclosed_blank (by simp [Unclosed])
    | some ds => exact unclosed_blank (by simpa using hd ds rfl)

theorem keeps_inData (hr : r.Stored) {target read : List Char} {question : Bool}
    (h : (Mode.data target read question).WellFormed) : Keeps (r.inData target read question c) := by
  obtain ⟨ht, hread, hq⟩ := h
  unfold inData
  refine keeps_ite (fun _ => keeps_bind fun n hn => hr.place ?_) fun hc => ?_
  · refine instruction?_wellFormed ht ?_ hn
    rintro ds ⟨⟩ hclose
    refine hread (hclose.trans ?_)
    cases read with
    | nil => simp
    | cons x read =>
      rw [List.reverse_cons]
      exact (List.prefix_append _ _).isInfix
  · refine keeps_ite (fun _ => hr.goto ⟨ht, ?_, by simp⟩) fun _ => keeps_none
    rw [List.reverse_cons]
    exact unclosed_append hread (by rw [hq, List.getLast?_reverse]) hc

theorem Stored.declare (hr : r.Stored) (name value : List Char) : (r.declare name value).Stored := by
  unfold Reader.declare
  split_ifs
  · exact hr
  · exact ⟨hr.frames, hr.nodes⟩

theorem keeps_inTag (hr : r.Stored) {d : Draft} (hd : d.WellFormed) (blank : Bool) :
    Keeps (r.inTag d blank c) := by
  unfold inTag
  refine keeps_ite (fun _ => keeps_bind fun r' h => (hr.open? hd h).goto trivial) fun _ => ?_
  refine keeps_ite (fun _ => hr.goto hd) fun _ => ?_
  refine keeps_ite (fun _ => hr.goto hd) fun _ => ?_
  refine keeps_ite (fun hc => hr.goto ⟨hd, ?_⟩) fun _ => keeps_none
  simp [isNameChar_of_start (Bool.and_eq_true_iff.1 hc).2]

theorem draft?_wellFormed {read : List Char} {d : Draft} (hread : read.all isNameChar = true)
    (h : draft? read = some d) : d.WellFormed := by
  simp only [draft?, bind, Option.bind_eq_some_iff] at h
  obtain ⟨name, hn, h⟩ := h
  split_ifs at h
  cases h
  exact ⟨readName?_wellFormed hread hn, by simp, by simp [Scope.WellFormed]⟩

theorem keeps_inTagName (hr : r.Stored) {read : List Char} (hread : read.all isNameChar = true) :
    Keeps (r.inTagName read c) := by
  unfold inTagName
  refine keeps_ite (fun hc => hr.goto ?_) fun _ => ?_
  · simp [Mode.WellFormed, hc, hread]
  · exact keeps_bind fun d hd => keeps_inTag hr (draft?_wellFormed hread hd) false

theorem keeps_inAttributeName (hr : r.Stored) {d : Draft} (hd : d.WellFormed) {read : List Char}
    (hread : read.all isNameChar = true) : Keeps (r.inAttributeName d read c) := by
  unfold inAttributeName
  refine keeps_ite (fun hc => hr.goto ⟨hd, by simp [hc, hread]⟩) fun _ => ?_
  refine keeps_bind fun name hn => ?_
  have hname := readName?_wellFormed hread hn
  refine keeps_ite (fun _ => hr.goto ⟨hd, hname⟩) fun _ => ?_
  exact keeps_ite (fun _ => hr.goto ⟨hd, hname⟩) fun _ => keeps_none

theorem keeps_inValue (hr : r.Stored) {d : Draft} {name : Name} (hd : d.WellFormed)
    (hn : name.WellFormed) (quote : Char) (read : List Char) :
    Keeps (r.inValue d name quote read c) := by
  unfold inValue
  refine keeps_ite (fun _ => keeps_bind fun d' h => hr.goto (add?_wellFormed hd hn h)) fun _ => ?_
  refine keeps_ite (fun _ => hr.goto ⟨hd, hn⟩) fun _ => ?_
  refine keeps_ite (fun _ => hr.goto ⟨hd, hn⟩) fun _ => ?_
  exact keeps_ite (fun _ => hr.goto ⟨hd, hn⟩) fun _ => keeps_none

theorem keeps_insert (hr : r.Stored) {p : Place} (hp : p.WellFormed) (cs : List Char) :
    Keeps (r.insert p cs) := by
  have hpending : ({ r with text := cs.reverse ++ r.text } : Reader).Stored :=
    ⟨hr.frames, hr.nodes⟩
  cases p with
  | text => exact hpending.goto trivial
  | value d name quote read => exact hr.goto hp

theorem keeps_resolve (hr : r.Stored) {p : Place} (hp : p.WellFormed) (name : List Char) :
    Keeps (r.resolve p name) := by
  unfold resolve
  split
  · exact keeps_bind fun c _ => keeps_insert hr hp [c]
  · split
    · exact keeps_insert hr hp _
    · rintro r' cs ⟨⟩
      exact ⟨⟨hr.frames, hr.nodes⟩, trivial⟩
    · exact keeps_insert hr hp _
    · exact keeps_none

theorem keeps_inReference (hr : r.Stored) {p : Place} (hp : p.WellFormed) (read : List Char) :
    Keeps (r.inReference p read c) := by
  unfold inReference
  refine keeps_ite (fun _ => keeps_ite (fun _ => keeps_none) fun _ => keeps_resolve hr hp _)
    fun _ => ?_
  exact keeps_ite (fun _ => hr.goto hp) fun _ => keeps_none

theorem keeps_closeNamed (hr : r.Stored) (name : Name) : Keeps (r.closeNamed name) := by
  unfold closeNamed
  split
  · exact keeps_ite (fun _ => hr.close) fun _ => keeps_none
  · exact keeps_none

theorem keeps_inEndName (hr : r.Stored) (read : List Char) : Keeps (r.inEndName read c) := by
  unfold inEndName
  refine keeps_ite (fun _ => hr.goto trivial) fun _ => keeps_bind fun name _ => ?_
  refine keeps_ite (fun _ => keeps_closeNamed hr name) fun _ => ?_
  exact keeps_ite (fun _ => hr.goto trivial) fun _ => keeps_none

theorem keeps_inSubset (hr : r.Stored) (p : Subset) : Keeps (r.inSubset p c) := by
  have hgoto : ∀ q, Keeps (r.goto (.doctype q)) := fun q => hr.goto trivial
  cases p with
  | outside =>
    refine keeps_ite (fun _ => hr.goto trivial) fun _ => ?_
    refine keeps_ite (fun _ => hgoto _) fun _ => ?_
    refine keeps_ite (fun _ => hgoto _) fun _ => ?_
    exact keeps_ite (fun _ => hgoto _) fun _ => hgoto _
  | quoted quote => exact hgoto _
  | markup =>
    refine keeps_ite (fun _ => hgoto _) fun _ => ?_
    exact keeps_ite (fun _ => hgoto _) fun _ => keeps_none
  | bang =>
    refine keeps_ite (fun _ => hgoto _) fun _ => ?_
    exact keeps_ite (fun _ => hgoto _) fun _ => keeps_none
  | commentOpen => exact keeps_ite (fun _ => hgoto _) fun _ => keeps_none
  | comment dashes =>
    refine keeps_ite (fun _ => ?_) fun _ => hgoto _
    exact keeps_ite (fun _ => hgoto _) fun _ => keeps_none
  | instruction question => exact hgoto _
  | keyword read =>
    refine keeps_ite (fun _ => hgoto _) fun _ => ?_
    exact keeps_ite (fun _ => keeps_bind fun q _ => hgoto q) fun _ => keeps_none
  | entityName read =>
    refine keeps_ite (fun _ => hgoto _) fun _ => ?_
    refine keeps_ite (fun _ => hgoto _) fun _ => ?_
    exact keeps_ite (fun _ => hgoto _) fun _ => keeps_none
  | parameterName read =>
    refine keeps_ite (fun _ => hgoto _) fun _ => ?_
    exact keeps_ite (fun _ => hgoto _) fun _ => keeps_none
  | definition name =>
    refine keeps_ite (fun _ => hgoto _) fun _ => ?_
    refine keeps_ite (fun _ => hgoto _) fun _ => ?_
    exact keeps_ite (fun _ => (hr.declare name []).goto trivial) fun _ => keeps_none
  | value e =>
    refine keeps_ite (fun _ => (hr.declare e.name e.read.reverse).goto trivial) fun _ => ?_
    refine keeps_ite (fun _ => hgoto _) fun _ => ?_
    refine keeps_ite (fun _ => hgoto _) fun _ => ?_
    exact keeps_ite (fun _ => hgoto _) fun _ => keeps_none
  | ampersand e =>
    refine keeps_ite (fun _ => hgoto _) fun _ => ?_
    refine keeps_ite (fun _ => keeps_none) fun _ => ?_
    exact keeps_ite (fun _ => hgoto _) fun _ => keeps_none
  | number e digits =>
    refine keeps_ite (fun _ => keeps_bind fun d _ => hgoto _) fun _ => ?_
    refine keeps_ite (fun _ => keeps_none) fun _ => ?_
    exact keeps_ite (fun _ => hgoto _) fun _ => keeps_none
  | valueParameter e name =>
    refine keeps_ite (fun _ => keeps_bind fun value _ => hgoto _) fun _ => ?_
    exact keeps_ite (fun _ => hgoto _) fun _ => keeps_none
  | parameter name =>
    refine keeps_ite (fun _ => keeps_bind fun value _ => ?_) fun _ => ?_
    · rintro r' cs ⟨⟩
      exact ⟨⟨hr.frames, hr.nodes⟩, trivial⟩
    · exact keeps_ite (fun _ => hgoto _) fun _ => keeps_none
  | skip quote =>
    cases quote with
    | none =>
      refine keeps_ite (fun _ => hgoto _) fun _ => ?_
      exact keeps_ite (fun _ => hgoto _) fun _ => hgoto _
    | some quote => exact hgoto _

/-- Every step keeps the invariant. -/
theorem WellFormed.step (hr : r.WellFormed) (c : Char) : Keeps (r.step c) := by
  obtain ⟨hs, hm⟩ := hr
  unfold Reader.step
  cases h : r.mode <;> rw [h] at hm
  case start => exact keeps_inText hs 0 true
  case content brackets => exact keeps_inText hs brackets false
  case markup first => exact keeps_inMarkup hs first
  case bang => exact keeps_inBang hs
  case opening rest kind =>
    dsimp only
    split
    · exact keeps_none
    · exact keeps_ite (fun _ => keeps_enter hs kind) fun _ => keeps_none
    · exact keeps_ite (fun _ => hs.goto trivial) fun _ => keeps_none
  case comment dashes => exact keeps_inComment hs dashes
  case literal read brackets => exact keeps_inLiteral hs read brackets
  case target first read => exact keeps_inTarget hs first hm
  case targetClose target =>
    refine keeps_ite (fun _ => keeps_bind fun n hn => hs.place ?_) fun _ => keeps_none
    exact instruction?_wellFormed hm (fun ds h => by cases h) hn
  case data target read question => exact keeps_inData hs hm
  case tagName read => exact keeps_inTagName hs hm
  case inTag d blank => exact keeps_inTag hs hm blank
  case slash d =>
    refine keeps_ite (fun _ => keeps_bind fun r' ho => ?_) fun _ => keeps_none
    exact (hs.open? hm ho).close
  case attributeName d read => exact keeps_inAttributeName hs hm.1 hm.2
  case equals d name =>
    refine keeps_ite (fun _ => hs.goto hm) fun _ => ?_
    exact keeps_ite (fun _ => hs.goto hm) fun _ => keeps_none
  case quote d name =>
    refine keeps_ite (fun _ => hs.goto hm) fun _ => ?_
    exact keeps_ite (fun _ => hs.goto hm) fun _ => keeps_none
  case value d name quote read => exact keeps_inValue hs hm.1 hm.2 quote read
  case valueLess d name quote read => exact keeps_ite (fun _ => hs.goto hm) fun _ => keeps_none
  case reference p read => exact keeps_inReference hs hm read
  case endName read => exact keeps_inEndName hs read
  case endBlank name =>
    refine keeps_ite (fun _ => hs.goto trivial) fun _ => ?_
    exact keeps_ite (fun _ => keeps_closeNamed hs name) fun _ => keeps_none
  case doctype p => exact keeps_inSubset hs p

end Places

/-- A result has a property when the state read to has it, or else the state of the fault. -/
def Settled (P : Reader → Prop) (x : Except Reader Reader) : Prop :=
  match x with
  | .ok r => P r
  | .error r => P r

section Settled

variable {P : Reader → Prop} (hstep : ∀ r, P r → ∀ c, Leads P (r.step c))

include hstep

theorem settled_drainWith {again : List Char → Reader → Except Reader Reader}
    (ha : ∀ cs r, P r → Settled P (again cs r)) :
    ∀ (cs : List Char) (r : Reader), P r → Settled P (drainWith again cs r)
  | [], _, hr => hr
  | c :: cs, r, hr => by
    unfold drainWith
    cases h : r.step c with
    | none => exact hr
    | some o =>
      obtain ⟨r', value⟩ := o
      have hr' := hstep r hr c r' value h
      cases value with
      | nil => exact settled_drainWith ha cs r' hr'
      | cons v value => exact ha _ r' hr'

theorem settled_drain : ∀ (left : Nat) (cs : List Char) (r : Reader), P r →
    Settled P (drain left cs r)
  | 0 => settled_drainWith hstep fun _ _ hr => hr
  | left + 1 => settled_drainWith hstep fun cs r hr => by
    split_ifs
    · exact settled_drain left cs r hr
    · exact hr

/-- What every step keeps, the whole run keeps, and so does the state in which it stops at a fault. -/
theorem settled_run : ∀ (cs : List Char) (r : Reader), P r → Settled P (r.run cs)
  | [], _, hr => hr
  | c :: cs, r, hr => by
    have hc := settled_drain hstep replacementLimit [c] r hr
    unfold run
    rw [List.foldlM_cons]
    change Settled P (r.feed c >>= fun r' => r'.run cs)
    unfold feed
    cases h : drain replacementLimit [c] r with
    | error r' =>
      rw [h] at hc
      exact hc
    | ok r' =>
      rw [h] at hc
      exact settled_run cs r' hc

end Settled

theorem initial_wellFormed (edition : Edition) (declared : Bool) :
    (initial edition declared).WellFormed := by
  refine ⟨⟨by simp [initial], by simp [initial]⟩, ?_⟩
  unfold initial
  cases declared <;> exact trivial

end Reader

/-- A document is what a reader has in the end, and that has whatever every step keeps. -/
theorem Reading.ofManuscript_settled {P : Reader → Prop}
    (hstep : ∀ r, P r → ∀ c, Reader.Leads P (r.step c)) {m : Manuscript}
    (hinitial : P (Reader.initial m.edition m.declared)) :
    ∃ r sound, P r ∧ Reading.ofManuscript m = r.reading sound := by
  have h := Reader.settled_run hstep m.chars _ hinitial
  unfold Reading.ofManuscript
  cases hr : (Reader.initial m.edition m.declared).run m.chars with
  | ok r =>
    rw [hr] at h
    exact ⟨r, _, h, rfl⟩
  | error r =>
    rw [hr] at h
    exact ⟨r, _, h, rfl⟩

/-- The nodes read out of any octets are well formed, those in elements left open included. -/
theorem Reading.ofOctets_wellFormed (document : Octets) :
    (∀ n ∈ (Reading.ofOctets document).nodes, n.WellFormed)
      ∧ ∀ f ∈ (Reading.ofOctets document).unclosed, ∀ n ∈ f.children, n.WellFormed := by
  obtain ⟨r, sound, hr, hd⟩ := Reading.ofManuscript_settled (fun r hr c => hr.step c)
    (Reader.initial_wellFormed (Manuscript.ofOctets document).edition
      (Manuscript.ofOctets document).declared)
  rw [Reading.ofOctets, hd]
  refine ⟨fun n hn => hr.stored.nodes n (List.mem_reverse.1 hn), fun f hf n hn => ?_⟩
  obtain ⟨g, hg, rfl⟩ := List.mem_map.1 hf
  exact (hr.stored.frames g hg).2 n (List.mem_reverse.1 hn)

end ImageTrust.Xml
