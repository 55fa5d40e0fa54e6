import Mathlib.Data.List.Nodup
import ImageTrust.Proofs.Lookup
import ImageTrust.Proofs.Xml.WellNamed

/-!
What a reader stores could be written and read again. Names begin like names and are read back from their
text, declarations are ones that a tag may make, qualifiers in use are bound, and characters are of the
edition of the document. This too is an invariant of every step. Instructions are the exception: outside
the elements a document may begin with one whose target is reserved further on.
-/

namespace ImageTrust.Xml

variable {e : Edition}

/-- Characters that begin like a name and go on like one. -/
def Spelt (cs : List Char) : Prop :=
  ∃ c rest, cs = c :: rest ∧ isNameStart c = true ∧ rest.all isNameChar = true

theorem Spelt.singleton {c : Char} (h : isNameStart c = true) : Spelt [c] :=
  ⟨c, [], rfl, h, rfl⟩

theorem Spelt.snoc {cs : List Char} {c : Char} (h : Spelt cs) (hc : isNameChar c = true) :
    Spelt (cs ++ [c]) := by
  obtain ⟨d, rest, rfl, hd, hrest⟩ := h
  exact ⟨d, rest ++ [c], rfl, hd, by simp [hrest, hc]⟩

theorem Spelt.all {cs : List Char} (h : Spelt cs) : cs.all isNameChar = true := by
  obtain ⟨d, rest, rfl, hd, hrest⟩ := h
  rw [List.all_cons, Reader.isNameChar_of_start hd, hrest]
  rfl

/-- A name that is read from its own text. -/
structure Name.Legible (n : Name) : Prop where
  spelt : Spelt n.text.toList
  read : readName? n.text.toList.reverse = some n

theorem Name.ofChars?_text {cs : List Char} {n : Name} (h : Name.ofChars? cs = some n) :
    n.text.toList = cs := by
  have hsplit := List.takeWhile_append_dropWhile (p := (· != ':')) (l := cs)
  unfold Name.ofChars? at h
  dsimp only at h
  split at h
  · rename_i hd
    split_ifs at h
    cases h
    rw [hd, List.append_nil] at hsplit
    rw [hsplit]
    simp [Name.text]
  · rename_i x after hd
    split_ifs at h with hpart
    cases h
    simp only [Bool.or_eq_true, not_or, Bool.not_eq_true, List.isEmpty_eq_false_iff] at hpart
    have hx : x = ':' := by
      have hnot := List.head?_dropWhile_not (fun c : Char => c != ':') cs
      rw [hd] at hnot
      simpa using hnot
    subst hx
    rw [hd] at hsplit
    simp [Name.text, String.toList_append, hpart.1.1, hsplit]

theorem Name.legible_of_read {read : List Char} {n : Name} (hs : Spelt read.reverse)
    (h : readName? read = some n) : n.Legible := by
  have htext : n.text.toList = read.reverse := by
    simp only [readName?, bind, Option.bind_eq_some_iff] at h
    obtain ⟨_, -, h⟩ := h
    exact Name.ofChars?_text h
  refine ⟨htext ▸ hs, ?_⟩
  rw [htext, List.reverse_reverse, h]

/-- The name of the attribute that declares a qualifier. -/
def declaringName (qualifier : String) : Name :=
  if qualifier = "" then ⟨"", "xmlns"⟩ else ⟨"xmlns", qualifier⟩

/-- Whether a tag may bind a qualifier to a namespace. -/
def bindable (qualifier space : String) : Bool :=
  if qualifier = "xmlns" then false
  else if qualifier = "xml" then space = xmlSpace
  else if qualifier = "" then !(["xmlns", "xml", xmlSpace, xmlnsSpace].contains space)
  else !space.isEmpty

/-- Of two bindings of a qualifier in one tag the first holds. -/
theorem Draft.bind?_eq (d : Draft) (qualifier space : String) :
    Reader.Draft.bind? d qualifier space = if bindable qualifier space then
      if (d.declared.lookup qualifier).isSome then some d
      else some { d with declared := (qualifier, space) :: d.declared }
    else none := by
  unfold Reader.Draft.bind? bindable
  dsimp only
  generalize (if qualifier = "xmlns" then false else _ : Bool) = admitted
  cases admitted <;> rfl

/-- A binding that a tag may declare. -/
structure LegibleBinding (e : Edition) (b : String × String) : Prop where
  name : (declaringName b.1).Legible
  bindable : bindable b.1 b.2 = true
  space : b.2.toList.all e.admits = true

/-- Bindings that tags may declare, one around the other. -/
def Scope.Legible (e : Edition) (s : Scope) : Prop :=
  ∃ declared : Scope, s = declared ++ Scope.base ∧ ∀ b ∈ declared, LegibleBinding e b

/-- A name without a qualifier or with a bound one. -/
def Name.Bound (s : Scope) (n : Name) : Prop :=
  n.qualifier = "" ∨ (s.lookup n.qualifier).isSome = true

structure Attribute.Legible (e : Edition) (a : Attribute) : Prop where
  name : a.name.Legible
  value : a.value.toList.all e.admits = true

structure Tag.Legible (e : Edition) (t : Tag) : Prop where
  name : t.name.Legible
  unreserved : t.name.qualifier ≠ "xml" ∧ t.name.qualifier ≠ "xmlns"
  bound : t.name.Bound t.scope
  attributes : ∀ a ∈ t.attributes, a.Legible e ∧ a.name.Bound t.scope
  distinct : (t.attributes.map (·.name)).Nodup
  scope : t.scope.Legible e

/-- A target that an instruction inside an element may have. -/
structure LegibleTarget (target : String) : Prop where
  spelt : Spelt target.toList
  unreserved : target.toList.map Char.toLower ≠ "xml".toList
  read : nameText? target.toList.reverse = some target

mutual

def Node.Legible (e : Edition) : Node → Prop
  | .element tag children => tag.Legible e ∧ Node.AllLegible e children
  | .text s => s.toList.all e.admits = true
  | .literal s => s.toList.all e.admits = true
  | .comment => True
  | .instruction target data => LegibleTarget target ∧ (data.getD "").toList.all e.admits = true

def Node.AllLegible (e : Edition) : List Node → Prop
  | [] => True
  | n :: ns => n.Legible e ∧ Node.AllLegible e ns

end

theorem Node.allLegible_iff : ∀ ns : List Node,
    Node.AllLegible e ns ↔ ∀ n ∈ ns, n.Legible e
  | [] => by simp [Node.AllLegible]
  | n :: ns => by simp [Node.AllLegible, Node.allLegible_iff ns]

/-- What is known of a start tag before its end, when the bindings around it do not count yet. -/
structure Draft.Legible (e : Edition) (d : Draft) : Prop where
  name : d.name.Legible
  unreserved : d.name.qualifier ≠ "xml" ∧ d.name.qualifier ≠ "xmlns"
  attributes : ∀ a ∈ d.attributes, a.Legible e
  distinct : (d.attributes.map (·.name)).Nodup
  declared : ∀ b ∈ d.declared, LegibleBinding e b

def Place.Legible (e : Edition) : Place → Prop
  | .text => True
  | .value draft name _ read => draft.Legible e ∧ name.Legible ∧ read.all e.admits = true

def Subset.Legible (e : Edition) : Subset → Prop
  | .value entity | .ampersand entity | .number entity _ | .valueParameter entity _ =>
    entity.read.all e.admits = true
  | _ => True

/-- What is known of the characters that a place in a document holds; `outside` when no element is
open. Only there a target may be reserved. -/
def Mode.Legible (e : Edition) (outside : Prop) : Mode → Prop
  | .start => outside
  | .markup first => first = true → outside
  | .literal read _ => read.all e.admits = true
  | .target first read => (first = true → outside) ∧ (read = [] ∨ Spelt read.reverse)
  | .targetClose written => LegibleTarget (String.ofList written.reverse) ∨ nameText? written = none
  | .data written read _ =>
    (outside ∨ LegibleTarget (String.ofList written.reverse) ∨ nameText? written = none)
      ∧ read.all e.admits = true
  | .tagName read => Spelt read.reverse
  | .inTag draft _ | .slash draft => draft.Legible e
  | .attributeName draft read => draft.Legible e ∧ Spelt read.reverse
  | .equals draft name | .quote draft name => draft.Legible e ∧ name.Legible
  | .value draft name _ read | .valueLess draft name _ read =>
    draft.Legible e ∧ name.Legible ∧ read.all e.admits = true
  | .reference place _ => place.Legible e
  | .doctype place => place.Legible e
  | _ => True

namespace Reader

/-- What a reader has stored. -/
structure Holds (e : Edition) (r : Reader) : Prop where
  edition : r.edition = e
  frames : ∀ f ∈ r.frames, f.tag.Legible e ∧ ∀ n ∈ f.children, n.Legible e
  elements : ∀ root ∈ Node.elements r.nodes, root.node.Legible e
  text : r.text.all e.admits = true
  entities : ∀ d ∈ r.entities, d.2.all e.admits = true

structure Legible (e : Edition) (r : Reader) : Prop where
  holds : r.Holds e
  mode : r.mode.Legible e (r.frames = [])

variable {r : Reader} {c : Char}

theorem Holds.goto (hr : r.Holds e) {m : Mode} (hm : m.Legible e (r.frames = [])) :
    Leads (Legible e) (r.goto m) := by
  intro r' cs h
  cases h
  exact ⟨⟨hr.edition, hr.frames, hr.elements, hr.text, hr.entities⟩, hm⟩

theorem Holds.scope (hr : r.Holds e) : r.scope.Legible e := by
  unfold Reader.scope
  split
  · rename_i f fs hf
    exact (hr.frames f (hf ▸ List.mem_cons_self)).1.scope
  · exact ⟨[], rfl, nofun⟩

/-- A node may be added when it is legible, and outside the elements also when it is no element. -/
theorem Holds.add (hr : r.Holds e) {n : Node}
    (hn : n.Legible e ∨ r.frames = [] ∧ Node.elements [n] = []) : (r.add n).Holds e := by
  unfold Reader.add
  split
  · rename_i f fs hf
    have hlegible : n.Legible e := by
      rcases hn with hn | ⟨hnil, -⟩
      · exact hn
      · rw [hf] at hnil
        cases hnil
    refine ⟨hr.edition, fun g hg => ?_, hr.elements, hr.text, hr.entities⟩
    rcases List.mem_cons.1 hg with rfl | hg
    · obtain ⟨ht, hc⟩ := hr.frames f (hf ▸ List.mem_cons_self)
      exact ⟨ht, List.forall_mem_cons.2 ⟨hlegible, hc⟩⟩
    · exact hr.frames g (hf ▸ List.mem_cons_of_mem f hg)
  · refine ⟨hr.edition, hr.frames, fun root hroot => ?_, hr.text, hr.entities⟩
    have hsplit : Node.elements (n :: r.nodes) = Node.elements [n] ++ Node.elements r.nodes :=
      List.filterMap_append (l := [n])
    rw [hsplit] at hroot
    rcases List.mem_append.1 hroot with h | h
    · rcases hn with hn | ⟨-, hnone⟩
      · cases n with
        | element tag children =>
          obtain rfl := List.mem_singleton.1 h
          exact hn
        | _ => cases h
      · rw [hnone] at h
        cases h
    · exact hr.elements root h

theorem Holds.flush (hr : r.Holds e) : r.flush.Holds e := by
  unfold Reader.flush
  split_ifs
  · exact ⟨hr.edition, hr.frames, hr.elements, rfl, hr.entities⟩
  · have h := hr.add (n := .text (String.ofList r.text.reverse))
      (.inl (by simpa [Node.Legible] using hr.text))
    exact ⟨h.edition, h.frames, h.elements, rfl, h.entities⟩

theorem frames_flush : r.flush.frames = [] ↔ r.frames = [] := by
  unfold Reader.flush Reader.add
  split_ifs
  · exact Iff.rfl
  · cases r.frames with
    | nil => exact Iff.rfl
    | cons f fs => exact iff_of_false (List.cons_ne_nil _ _) (List.cons_ne_nil _ _)

theorem Holds.place (hr : r.Holds e) {n : Node}
    (hn : n.Legible e ∨ r.frames = [] ∧ Node.elements [n] = []) : Leads (Legible e) (r.place n) :=
  (hr.flush.add (hn.imp_right fun h => ⟨frames_flush.2 h.1, h.2⟩)).goto trivial

theorem Holds.close (hr : r.Holds e) : Leads (Legible e) r.close := by
  unfold Reader.close
  dsimp only
  split
  · rename_i f fs hf
    obtain ⟨htag, hchildren⟩ := hr.flush.frames f (hf ▸ List.mem_cons_self)
    have hrest : ({ r.flush with frames := fs } : Reader).Holds e :=
      ⟨hr.flush.edition, fun g hg => hr.flush.frames g (hf ▸ List.mem_cons_of_mem f hg),
        hr.flush.elements, hr.flush.text, hr.flush.entities⟩
    refine (hrest.add (n := .element f.tag f.children.reverse) (.inl ⟨htag, ?_⟩)).goto trivial
    rw [Node.allLegible_iff]
    exact fun n hn => hchildren n (List.mem_reverse.1 hn)
  · exact keeps_none

theorem bound_iff {s : Scope} {n : Name} :
    (n.qualifier.isEmpty || (s.lookup n.qualifier).isSome) = true ↔ n.Bound s := by
  rw [Bool.or_eq_true, String.isEmpty_iff, Name.Bound]

theorem Holds.open? (hr : r.Holds e) {d : Draft} (hd : d.Legible e) {r' : Reader}
    (h : r.open? d = some r') : r'.Holds e := by
  unfold Reader.open? at h
  dsimp only at h
  split_ifs at h with hbound
  cases h
  rw [Bool.and_eq_true, List.all_eq_true, bound_iff] at hbound
  obtain ⟨hname, hattributes⟩ := hbound
  have hscope : Scope.Legible e (d.declared ++ r.scope) := by
    obtain ⟨declared, hs, hlegible⟩ := hr.scope
    refine ⟨d.declared ++ declared, by rw [hs, List.append_assoc], fun b hb => ?_⟩
    rcases List.mem_append.1 hb with hb | hb
    · exact hd.declared b hb
    · exact hlegible b hb
  refine ⟨hr.flush.edition, fun f hf => ?_, hr.flush.elements, hr.flush.text, hr.flush.entities⟩
  rcases List.mem_cons.1 hf with rfl | hf
  · refine ⟨⟨hd.name, hd.unreserved, hname, fun a ha => ?_, ?_, hscope⟩, nofun⟩
    · have ha' := List.mem_reverse.1 ha
      exact ⟨hd.attributes a ha', bound_iff.1 (hattributes a ha')⟩
    · simpa using hd.distinct
  · exact hr.flush.frames f hf

theorem Holds.pushText (hr : r.Holds e) {cs : List Char} (h : cs.all e.admits = true) :
    ({ r with text := cs ++ r.text } : Reader).Holds e :=
  ⟨hr.edition, hr.frames, hr.elements, by simpa using ⟨by simpa using h, by simpa using hr.text⟩,
    hr.entities⟩

theorem Holds.declare (hr : r.Holds e) (name : List Char) {value : List Char}
    (h : value.all e.admits = true) : (r.declare name value).Holds e := by
  unfold Reader.declare
  split_ifs
  · exact hr
  · exact ⟨hr.edition, hr.frames, hr.elements, hr.text, List.forall_mem_cons.2 ⟨h, hr.entities⟩⟩

theorem Holds.lookup (hr : r.Holds e) {name value : List Char}
    (h : r.entities.lookup name = some value) : value.all e.admits = true :=
  hr.entities (name, value) (lookup_mem h)

theorem admits_of_text (h : e.admitsInText c = true) : e.admits c = true :=
  (Bool.and_eq_true_iff.1 h).1

section Text

theorem legible_inText (hr : r.Holds e) (brackets : Nat) {first : Bool}
    (hfirst : first = true → r.frames = []) : Leads (Legible e) (r.inText brackets first c) := by
  unfold inText
  refine keeps_ite (fun _ => hr.goto hfirst) fun _ => ?_
  refine keeps_ite (fun _ => keeps_ite (fun _ => hr.goto trivial) fun _ => keeps_none) fun _ => ?_
  refine keeps_ite (fun _ => hr.goto trivial) fun _ => ?_
  refine keeps_ite (fun _ => keeps_none) fun _ => ?_
  refine keeps_ite (fun hc => ?_) fun _ => keeps_none
  rw [hr.edition] at hc
  have hcs : [c].all e.admits = true := by simpa using admits_of_text hc
  exact (hr.pushText hcs).goto trivial

theorem legible_inMarkup (hr : r.Holds e) {first : Bool} (hfirst : first = true → r.frames = []) :
    Leads (Legible e) (r.inMarkup first c) := by
  unfold inMarkup
  refine keeps_ite (fun _ => hr.goto ⟨hfirst, .inl rfl⟩) fun _ => ?_
  refine keeps_ite (fun _ => hr.goto trivial) fun _ => ?_
  refine keeps_ite (fun _ => keeps_ite (fun _ => keeps_none) fun _ => hr.goto trivial) fun _ => ?_
  exact keeps_ite (fun hc => hr.goto (.singleton hc)) fun _ => keeps_none

theorem legible_inBang (hr : r.Holds e) : Leads (Legible e) (r.inBang c) := by
  unfold inBang
  refine keeps_ite (fun _ => hr.goto trivial) fun _ => ?_
  refine keeps_ite (fun _ => keeps_ite (fun _ => keeps_none) fun _ => hr.goto trivial) fun _ => ?_
  refine keeps_ite (fun _ => keeps_ite (fun _ => keeps_none) fun _ => hr.goto trivial) fun _ => ?_
  exact keeps_none

theorem legible_enter (hr : r.Holds e) (kind : Section) : Leads (Legible e) (r.enter kind) := by
  have htyped : ({ r with typed := true } : Reader).Holds e :=
    ⟨hr.edition, hr.frames, hr.elements, hr.text, hr.entities⟩
  cases kind with
  | comment => exact hr.goto trivial
  | literal => exact hr.goto rfl
  | doctype => exact htyped.goto trivial

theorem legible_inComment (hr : r.Holds e) (dashes : Nat) :
    Leads (Legible e) (r.inComment dashes c) := by
  unfold inComment
  refine keeps_ite (fun _ => ?_) fun _ => ?_
  · exact keeps_ite (fun _ => hr.place (.inl trivial)) fun _ => keeps_none
  · refine keeps_ite (fun _ => hr.goto trivial) fun _ => ?_
    exact keeps_ite (fun _ => hr.goto trivial) fun _ => keeps_none

theorem legible_inLiteral (hr : r.Holds e) {read : List Char} (hread : read.all e.admits = true)
    (brackets : Nat) : Leads (Legible e) (r.inLiteral read brackets c) := by
  have hall := List.all_eq_true.1 hread
  unfold inLiteral
  refine keeps_ite (fun _ => hr.place (.inl ?_)) fun _ => ?_
  · simp only [Node.Legible, String.toList_ofList, List.all_reverse, List.all_eq_true]
    exact fun x hx => hall x (List.mem_of_mem_drop hx)
  · refine keeps_ite (fun hc => hr.goto ?_) fun _ => keeps_none
    rw [hr.edition] at hc
    simp only [Mode.Legible, List.all_cons, hc, hread, Bool.and_self]

end Text

section Instructions

/-- A target that is admitted away from the beginning of a document can be read again, if it is not
too long to be read at all. -/
theorem legibleTarget {read : List Char} {first blank : Bool} (hs : read = [] ∨ Spelt read.reverse)
    (hfirst : (first && blank) = false) (h : targetAdmitted first blank read = true) :
    LegibleTarget (String.ofList read.reverse) ∨ nameText? read = none := by
  unfold targetAdmitted at h
  simp only [hfirst, Bool.and_eq_true, Bool.not_eq_true', Bool.or_false, Bool.false_and, bne_iff_ne,
    List.isEmpty_eq_false_iff] at h
  obtain ⟨hne, hreserved⟩ := h
  cases hn : nameText? read with
  | none => exact .inr rfl
  | some target =>
    left
    have htarget : target = String.ofList read.reverse := by
      unfold nameText? at hn
      dsimp only at hn
      split_ifs at hn
      exact (Option.some.inj hn).symm
    refine ⟨?_, ?_, ?_⟩
    · rw [String.toList_ofList]
      exact hs.resolve_left hne
    · rw [String.toList_ofList]
      exact hreserved
    · rw [String.toList_ofList, List.reverse_reverse, hn, htarget]

theorem instruction?_legible {target : List Char} {data : Option (List Char)} {n : Node}
    (ht : LegibleTarget (String.ofList target.reverse) ∨ nameText? target = none)
    (hd : ∀ ds, data = some ds → ds.all e.admits = true) (h : instruction? target data = some n) :
    n.Legible e := by
  simp only [instruction?, bind, Option.bind_eq_some_iff] at h
  obtain ⟨name, hname, h⟩ := h
  cases h
  have hn : name = String.ofList target.reverse := by
    unfold nameText? at hname
    dsimp only at hname
    split_ifs at hname
    exact (Option.some.inj hname).symm
  subst hn
  refine ⟨ht.resolve_right (by rw [hname]; exact Option.some_ne_none _), ?_⟩
  cases data with
  | none => rfl
  | some ds => simpa using hd ds rfl

theorem instruction?_elements {target : List Char} {data : Option (List Char)} {n : Node}
    (h : instruction? target data = some n) : Node.elements [n] = [] := by
  simp only [instruction?, bind, Option.bind_eq_some_iff] at h
  obtain ⟨name, -, h⟩ := h
  cases h
  rfl

theorem legible_inTarget (hr : r.Holds e) {first : Bool} {read : List Char}
    (h : (Mode.target first read).Legible e (r.frames = [])) :
    Leads (Legible e) (r.inTarget first read c) := by
  obtain ⟨hfirst, hs⟩ := h
  unfold inTarget
  refine keeps_ite (fun _ => keeps_ite (fun ht => hr.goto ?_) fun _ => keeps_none) fun _ => ?_
  · exact legibleTarget hs (by simp) ht
  refine keeps_ite (fun _ => keeps_ite (fun ht => hr.goto ⟨?_, rfl⟩) fun _ => keeps_none) fun _ => ?_
  · cases first with
    | true => exact .inl (hfirst rfl)
    | false => exact .inr (legibleTarget hs rfl ht)
  refine keeps_ite (fun hc => hr.goto ⟨hfirst, .inr ?_⟩) fun _ => keeps_none
  rw [List.reverse_cons]
  rcases hs with rfl | hs
  · exact .singleton hc
  · have hne : read.isEmpty = false := by
      obtain ⟨d, rest, hd, -⟩ := hs
      cases read with
      | nil => cases hd
      | cons x read => rfl
    rw [hne] at hc
    exact hs.snoc hc

theorem legible_inData (hr : r.Holds e) {target read : List Char} {question : Bool}
    (h : (Mode.data target read question).Legible e (r.frames = [])) :
    Leads (Legible e) (r.inData target read question c) := by
  obtain ⟨ht, hread⟩ := h
  have hall := List.all_eq_true.1 hread
  unfold inData
  refine keeps_ite (fun _ => keeps_bind fun n hn => hr.place ?_) fun _ => ?_
  · rcases ht with houtside | ht
    · exact .inr ⟨houtside, instruction?_elements hn⟩
    · refine .inl (instruction?_legible ht ?_ hn)
      rintro ds ⟨⟩
      exact List.all_eq_true.2 fun x hx => hall x (List.mem_of_mem_drop hx)
  · refine keeps_ite (fun hc => hr.goto ⟨ht, ?_⟩) fun _ => keeps_none
    rw [hr.edition] at hc
    rw [List.all_cons, hc, hread]
    rfl

end Instructions

section Tags

theorem draft?_legible {read : List Char} {d : Draft} (hs : Spelt read.reverse)
    (h : draft? read = some d) : d.Legible e := by
  simp only [draft?, bind, Option.bind_eq_some_iff] at h
  obtain ⟨name, hn, h⟩ := h
  split_ifs at h with hreserved
  cases h
  simp only [Bool.or_eq_true, decide_eq_true_eq, not_or] at hreserved
  exact ⟨Name.legible_of_read hs hn, hreserved, List.forall_mem_nil _, List.nodup_nil,
    List.forall_mem_nil _⟩

theorem bind?_legible {d d' : Draft} (hd : d.Legible e) {qualifier space : String}
    (hname : (declaringName qualifier).Legible) (hspace : space.toList.all e.admits = true)
    (h : Draft.bind? d qualifier space = some d') : d'.Legible e := by
  rw [Draft.bind?_eq] at h
  split_ifs at h with hb hold
  · cases h
    exact hd
  · cases h
    exact ⟨hd.name, hd.unreserved, hd.attributes, hd.distinct,
      List.forall_mem_cons.2 ⟨⟨hname, hb, hspace⟩, hd.declared⟩⟩

theorem add?_legible {d d' : Draft} (hd : d.Legible e) {name : Name} (hn : name.Legible)
    (hbase : name.base ≠ "") {value : String} (hv : value.toList.all e.admits = true)
    (h : Draft.add? d name value = some d') : d'.Legible e := by
  unfold Draft.add? at h
  split_ifs at h with hx hp ha
  · refine bind?_legible hd ?_ hv h
    rw [declaringName, if_neg hbase, ← hx]
    exact hn
  · refine bind?_legible hd ?_ hv h
    rw [declaringName, if_pos rfl, ← hp]
    exact hn
  · cases h
    simp only [List.any_eq_true, decide_eq_true_eq, not_exists, not_and] at ha
    refine ⟨hd.name, hd.unreserved, List.forall_mem_cons.2 ⟨⟨hn, hv⟩, hd.attributes⟩, ?_, hd.declared⟩
    rw [List.map_cons, List.nodup_cons]
    refine ⟨fun hm => ?_, hd.distinct⟩
    obtain ⟨a, hmem, hname⟩ := List.mem_map.1 hm
    exact ha a hmem hname

/-- A name that could be read has a base. -/
theorem base_ne_of_legible {n : Name} (h : n.Legible) : n.base ≠ "" := by
  have hall : n.text.toList.reverse.all isNameChar = true := by
    rw [List.all_reverse]
    exact h.spelt.all
  exact (readName?_wellFormed hall h.read).nonempty

theorem legible_inTag (hr : r.Holds e) {d : Draft} (hd : d.Legible e) (blank : Bool) :
    Leads (Legible e) (r.inTag d blank c) := by
  unfold inTag
  refine keeps_ite (fun _ => keeps_bind fun r' h => (hr.open? hd h).goto trivial) fun _ => ?_
  refine keeps_ite (fun _ => hr.goto hd) fun _ => ?_
  refine keeps_ite (fun _ => hr.goto hd) fun _ => ?_
  refine keeps_ite (fun hc => hr.goto ⟨hd, ?_⟩) fun _ => keeps_none
  exact .singleton (Bool.and_eq_true_iff.1 hc).2

theorem legible_inTagName (hr : r.Holds e) {read : List Char} (hs : Spelt read.reverse) :
    Leads (Legible e) (r.inTagName read c) := by
  unfold inTagName
  refine keeps_ite (fun hc => hr.goto ?_) fun _ => ?_
  · rw [Mode.Legible, List.reverse_cons]
    exact hs.snoc hc
  · exact keeps_bind fun d hd => legible_inTag hr (draft?_legible hs hd) false

theorem legible_inAttributeName (hr : r.Holds e) {d : Draft} (hd : d.Legible e) {read : List Char}
    (hs : Spelt read.reverse) : Leads (Legible e) (r.inAttributeName d read c) := by
  unfold inAttributeName
  refine keeps_ite (fun hc => hr.goto ⟨hd, ?_⟩) fun _ => ?_
  · rw [List.reverse_cons]
    exact hs.snoc hc
  · refine keeps_bind fun name hn => ?_
    have hname := Name.legible_of_read hs hn
    refine keeps_ite (fun _ => hr.goto ⟨hd, hname⟩) fun _ => ?_
    exact keeps_ite (fun _ => hr.goto ⟨hd, hname⟩) fun _ => keeps_none

theorem legible_inValue (hr : r.Holds e) {d : Draft} {name : Name} {read : List Char}
    (h : d.Legible e ∧ name.Legible ∧ read.all e.admits = true) (quote : Char) :
    Leads (Legible e) (r.inValue d name quote read c) := by
  obtain ⟨hd, hn, hread⟩ := h
  unfold inValue
  refine keeps_ite (fun _ => keeps_bind fun d' h => hr.goto ?_) fun _ => ?_
  · exact add?_legible hd hn (base_ne_of_legible hn) (by simpa using hread) h
  refine keeps_ite (fun _ => hr.goto ⟨hd, hn, hread⟩) fun _ => ?_
  refine keeps_ite (fun _ => hr.goto ⟨hd, hn, hread⟩) fun _ => ?_
  refine keeps_ite (fun hc => hr.goto ⟨hd, hn, ?_⟩) fun _ => keeps_none
  rw [hr.edition] at hc
  rw [List.all_cons, admits_of_text hc, hread]
  rfl

theorem legible_closeNamed (hr : r.Holds e) (name : Name) :
    Leads (Legible e) (r.closeNamed name) := by
  unfold closeNamed
  split
  · exact keeps_ite (fun _ => hr.close) fun _ => keeps_none
  · exact keeps_none

theorem legible_inEndName (hr : r.Holds e) (read : List Char) :
    Leads (Legible e) (r.inEndName read c) := by
  unfold inEndName
  refine keeps_ite (fun _ => hr.goto trivial) fun _ => keeps_bind fun name _ => ?_
  refine keeps_ite (fun _ => legible_closeNamed hr name) fun _ => ?_
  exact keeps_ite (fun _ => hr.goto trivial) fun _ => keeps_none

end Tags

section References

theorem admits_markup (e : Edition) : (['<', '>', '&', '\'', '"', '/']).all e.admits = true := by
  cases e <;> decide

theorem admits_of_markup (e : Edition) (h : c ∈ ['<', '>', '&', '\'', '"', '/']) :
    e.admits c = true :=
  List.all_eq_true.1 (admits_markup e) c h

theorem namedCharacter?_admits {name : List Char} (h : namedCharacter? name = some c) :
    e.admits c = true := by
  unfold namedCharacter? at h
  obtain ⟨⟨n, d⟩, hm, h⟩ := List.exists_of_findSome?_eq_some h
  dsimp only at h
  split_ifs at h
  cases h
  refine admits_of_markup e ?_
  simp only [List.mem_cons, Prod.mk.injEq, List.not_mem_nil, or_false] at hm
  rcases hm with ⟨-, rfl⟩ | ⟨-, rfl⟩ | ⟨-, rfl⟩ | ⟨-, rfl⟩ | ⟨-, rfl⟩ <;> decide

theorem character?_admits {digits : List Char} (h : e.character? digits = some c) :
    e.admits c = true := by
  unfold Edition.character? at h
  generalize hf : (fun n : Nat => if h : n.isValidChar then
    have c := Char.ofNatAux n h
    if e.admits c then some c else none else none) = f at h
  have hadmitted : ∀ {n : Option Nat}, n.bind f = some c → e.admits c = true := by
    intro n hn
    obtain ⟨m, -, hm⟩ := Option.bind_eq_some_iff.1 hn
    rw [← hf] at hm
    obtain ⟨hv, hm⟩ := Option.dite_none_right_eq_some.1 hm
    obtain ⟨ha, ⟨⟩⟩ := Option.ite_none_right_eq_some.1 hm
    exact ha
  clear hf
  split at h
  · exact hadmitted h
  · exact hadmitted h

theorem legible_insert (hr : r.Holds e) {p : Place} (hp : p.Legible e) {cs : List Char}
    (hcs : cs.all e.admits = true) : Leads (Legible e) (r.insert p cs) := by
  have hreverse : cs.reverse.all e.admits = true := by rwa [List.all_reverse]
  cases p with
  | text => exact (hr.pushText hreverse).goto trivial
  | value d name quote read =>
    obtain ⟨hd, hn, hread⟩ := hp
    refine hr.goto ⟨hd, hn, ?_⟩
    rw [List.all_append, hreverse, hread]
    rfl

theorem legible_resolve (hr : r.Holds e) {p : Place} (hp : p.Legible e) (name : List Char) :
    Leads (Legible e) (r.resolve p name) := by
  unfold resolve
  split
  · refine keeps_bind fun c hc => legible_insert hr hp ?_
    rw [hr.edition] at hc
    simpa using character?_admits hc
  · split
    · rename_i hc
      exact legible_insert hr hp (by simpa using namedCharacter?_admits hc)
    · rintro r' cs ⟨⟩
      exact ⟨⟨hr.edition, hr.frames, hr.elements, hr.text, hr.entities⟩, trivial⟩
    · rename_i hv _
      exact legible_insert hr hp (hr.lookup hv)
    · exact keeps_none

theorem legible_inReference (hr : r.Holds e) {p : Place} (hp : p.Legible e) (read : List Char) :
    Leads (Legible e) (r.inReference p read c) := by
  unfold inReference
  refine keeps_ite (fun _ => keeps_ite (fun _ => keeps_none) fun _ => legible_resolve hr hp _)
    fun _ => ?_
  exact keeps_ite (fun _ => hr.goto hp) fun _ => keeps_none

end References

section Subsets

theorem legible_inSubset (hr : r.Holds e) {p : Subset} (hp : p.Legible e) :
    Leads (Legible e) (r.inSubset p c) := by
  have hgoto : ∀ {q : Subset}, q.Legible e → Leads (Legible e) (r.goto (.doctype q)) :=
    fun hq => hr.goto hq
  have hcons : ∀ {cs : List Char}, r.edition.admits c = true → cs.all e.admits = true →
      (c :: cs).all e.admits = true := by
    intro cs hc hcs
    rw [hr.edition] at hc
    rw [List.all_cons, hc, hcs]
    rfl
  cases p with
  | outside =>
    refine keeps_ite (fun _ => hr.goto trivial) fun _ => ?_
    refine keeps_ite (fun _ => hgoto trivial) fun _ => ?_
    refine keeps_ite (fun _ => hgoto trivial) fun _ => ?_
    exact keeps_ite (fun _ => hgoto trivial) fun _ => hgoto trivial
  | quoted quote => exact hgoto (by split_ifs <;> exact trivial)
  | markup =>
    refine keeps_ite (fun _ => hgoto trivial) fun _ => ?_
    exact keeps_ite (fun _ => hgoto trivial) fun _ => keeps_none
  | bang =>
    refine keeps_ite (fun _ => hgoto trivial) fun _ => ?_
    exact keeps_ite (fun _ => hgoto trivial) fun _ => keeps_none
  | commentOpen => exact keeps_ite (fun _ => hgoto trivial) fun _ => keeps_none
  | comment dashes =>
    refine keeps_ite (fun _ => ?_) fun _ => hgoto trivial
    exact keeps_ite (fun _ => hgoto trivial) fun _ => keeps_none
  | instruction question => exact hgoto (by split_ifs <;> exact trivial)
  | keyword read =>
    refine keeps_ite (fun _ => hgoto trivial) fun _ => ?_
    refine keeps_ite (fun _ => keeps_bind fun q hq => hgoto ?_) fun _ => keeps_none
    unfold afterKeyword? at hq
    split_ifs at hq <;> cases hq <;> exact trivial
  | entityName read =>
    refine keeps_ite (fun _ => hgoto (by split_ifs <;> exact trivial)) fun _ => ?_
    refine keeps_ite (fun _ => hgoto trivial) fun _ => ?_
    exact keeps_ite (fun _ => hgoto trivial) fun _ => keeps_none
  | parameterName read =>
    refine keeps_ite (fun _ => hgoto (by split_ifs <;> exact trivial)) fun _ => ?_
    exact keeps_ite (fun _ => hgoto trivial) fun _ => keeps_none
  | definition name =>
    refine keeps_ite (fun _ => hgoto trivial) fun _ => ?_
    refine keeps_ite (fun _ => hgoto rfl) fun _ => ?_
    exact keeps_ite (fun _ => (hr.declare name rfl).goto trivial) fun _ => keeps_none
  | value entity =>
    have hentity : entity.read.reverse.all e.admits = true := by rwa [List.all_reverse]
    refine keeps_ite (fun _ => (hr.declare entity.name hentity).goto trivial) fun _ => ?_
    refine keeps_ite (fun _ => hgoto hp) fun _ => ?_
    refine keeps_ite (fun _ => hgoto hp) fun _ => ?_
    exact keeps_ite (fun hc => hgoto (hcons hc hp)) fun _ => keeps_none
  | ampersand entity =>
    refine keeps_ite (fun _ => hgoto hp) fun _ => ?_
    refine keeps_ite (fun _ => keeps_none) fun _ => ?_
    refine keeps_ite (fun hc => hgoto (hcons hc ?_)) fun _ => keeps_none
    rw [List.all_cons, admits_of_markup e (by decide), hp]
    rfl
  | number entity digits =>
    refine keeps_ite (fun _ => keeps_bind fun d hd => hgoto ?_) fun _ => ?_
    · rw [hr.edition] at hd
      rw [Subset.Legible, List.all_cons, character?_admits hd, hp]
      rfl
    · refine keeps_ite (fun _ => keeps_none) fun _ => ?_
      exact keeps_ite (fun _ => hgoto hp) fun _ => keeps_none
  | valueParameter entity name =>
    refine keeps_ite (fun _ => keeps_bind fun value hv => hgoto ?_) fun _ => ?_
    · rw [Subset.Legible, List.all_append, List.all_reverse, hr.lookup hv, hp]
      rfl
    · exact keeps_ite (fun _ => hgoto hp) fun _ => keeps_none
  | parameter name =>
    refine keeps_ite (fun _ => keeps_bind fun value _ => ?_) fun _ => ?_
    · rintro r' cs ⟨⟩
      exact ⟨⟨hr.edition, hr.frames, hr.elements, hr.text, hr.entities⟩, trivial⟩
    · exact keeps_ite (fun _ => hgoto trivial) fun _ => keeps_none
  | skip quote =>
    cases quote with
    | none =>
      refine keeps_ite (fun _ => hgoto trivial) fun _ => ?_
      exact keeps_ite (fun _ => hgoto trivial) fun _ => hgoto trivial
    | some quote => exact hgoto trivial

end Subsets

/-- Every step keeps what is stored legible. -/
theorem Legible.step (hr : r.Legible e) (c : Char) : Leads (Legible e) (r.step c) := by
  obtain ⟨hs, hm⟩ := hr
  unfold Reader.step
  cases h : r.mode <;> rw [h] at hm
  case start => exact legible_inText hs 0 fun _ => hm
  case content brackets => exact legible_inText hs brackets fun h => absurd h Bool.false_ne_true
  case markup first => exact legible_inMarkup hs hm
  case bang => exact legible_inBang hs
  case opening rest kind =>
    dsimp only
    split
    · exact keeps_none
    · exact keeps_ite (fun _ => legible_enter hs kind) fun _ => keeps_none
    · exact keeps_ite (fun _ => hs.goto trivial) fun _ => keeps_none
  case comment dashes => exact legible_inComment hs dashes
  case literal read brackets => exact legible_inLiteral hs hm brackets
  case target first read => exact legible_inTarget hs hm
  case targetClose written =>
    refine keeps_ite (fun _ => keeps_bind fun n hn => hs.place (.inl ?_)) fun _ => keeps_none
    exact instruction?_legible hm (fun ds h => by cases h) hn
  case data written read question => exact legible_inData hs hm
  case tagName read => exact legible_inTagName hs hm
  case inTag d blank => exact legible_inTag hs hm blank
  case slash d =>
    refine keeps_ite (fun _ => keeps_bind fun r' ho => ?_) fun _ => keeps_none
    exact (hs.open? hm ho).close
  case attributeName d read => exact legible_inAttributeName hs hm.1 hm.2
  case equals d name =>
    refine keeps_ite (fun _ => hs.goto hm) fun _ => ?_
    exact keeps_ite (fun _ => hs.goto hm) fun _ => keeps_none
  case quote d name =>
    refine keeps_ite (fun _ => hs.goto hm) fun _ => ?_
    exact keeps_ite (fun _ => hs.goto ⟨hm.1, hm.2, rfl⟩) fun _ => keeps_none
  case value d name quote read => exact legible_inValue hs hm quote
  case valueLess d name quote read =>
    refine keeps_ite (fun _ => hs.goto ⟨hm.1, hm.2.1, ?_⟩) fun _ => keeps_none
    rw [List.all_cons, List.all_cons, admits_of_markup e (by decide),
      admits_of_markup e (by decide), hm.2.2]
    rfl
  case reference p read => exact legible_inReference hs hm read
  case endName read => exact legible_inEndName hs read
  case endBlank name =>
    refine keeps_ite (fun _ => hs.goto trivial) fun _ => ?_
    exact keeps_ite (fun _ => legible_closeNamed hs name) fun _ => keeps_none
  case doctype p => exact legible_inSubset hs hm

theorem initial_legible (edition : Edition) (declared : Bool) :
    (initial edition declared).Legible edition := by
  refine ⟨⟨rfl, nofun, nofun, rfl, nofun⟩, ?_⟩
  unfold initial
  cases declared
  · exact rfl
  · exact trivial

end Reader

/-- Any octets are read by a reader that holds what is legible in the edition of the document. -/
theorem Reading.ofOctets_holds (document : Octets) : ∃ (r : Reader) (sound : Bool),
    r.Holds (Manuscript.ofOctets document).edition ∧ Reading.ofOctets document = r.reading sound := by
  obtain ⟨r, sound, hr, hd⟩ := Reading.ofManuscript_settled (fun r hr c => hr.step c)
    (Reader.initial_legible (Manuscript.ofOctets document).edition
      (Manuscript.ofOctets document).declared)
  exact ⟨r, sound, hr.holds, hd⟩

/-- The elements read out of any octets are legible in the edition of the document, and so is what is
inside the elements left open. -/
theorem Reading.ofOctets_legible (document : Octets) :
    (∀ root ∈ Node.elements (Reading.ofOctets document).nodes,
      root.node.Legible (Manuscript.ofOctets document).edition)
      ∧ ∀ f ∈ (Reading.ofOctets document).unclosed,
        ∀ n ∈ f.children, n.Legible (Manuscript.ofOctets document).edition := by
  obtain ⟨r, sound, hr, hd⟩ := Reading.ofOctets_holds document
  rw [hd]
  constructor
  · intro root hroot
    refine hr.elements root ?_
    unfold Node.elements Reader.reading at *
    simpa using hroot
  · intro f hf n hn
    obtain ⟨g, hg, rfl⟩ := List.mem_map.1 hf
    exact (hr.frames g hg).2 n (List.mem_reverse.1 hn)

end ImageTrust.Xml
