import ImageTrust.Proofs.Xml.Binding

/-!
Reading what was written. Each piece of canonical form is followed through the reader: characters and
their escapes, names, attributes, start tags, instructions and end tags. Nothing in it stands for more
than one character, so the reader never has to turn back.
-/

namespace ImageTrust.Xml.Reader

open Canonical

/-- Characters lead from one state to another, and none of them stands for others. -/
inductive Reads : Reader → List Char → Reader → Prop
  | nil (r : Reader) : Reads r [] r
  | cons {r s u : Reader} {c : Char} {cs : List Char} :
    r.step c = some (s, []) → Reads s cs u → Reads r (c :: cs) u

section Runs

variable {r s u : Reader} {c : Char} {cs ds : List Char}

theorem Reads.one (h : r.step c = some (s, [])) : Reads r [c] s :=
  .cons h (.nil s)

theorem Reads.append (h : Reads r cs s) (h' : Reads s ds u) : Reads r (cs ++ ds) u := by
  induction h with
  | nil => exact h'
  | cons hstep _ ih => exact .cons hstep (ih h')

theorem Reads.snoc (h : Reads r cs s) (h' : s.step c = some (u, [])) : Reads r (cs ++ [c]) u :=
  h.append (.one h')

theorem feed_of_step (h : r.step c = some (s, [])) : r.feed c = .ok s := by
  change drainWith _ [c] r = .ok s
  unfold drainWith
  rw [h]
  rfl

theorem Reads.run (h : Reads r cs s) : r.run cs = .ok s := by
  induction h with
  | nil => rfl
  | cons hstep _ ih =>
    unfold Reader.run at ih ⊢
    rw [List.foldlM_cons, feed_of_step hstep]
    exact ih

end Runs

/-- A reader of the first edition that knows no entities and has closed no element yet. -/
abbrev standing (frames : List Frame) (rooted : Bool) (text : List Char) (mode : Mode) : Reader :=
  ⟨.first, mode, text, frames, [], [], false, rooted⟩

section Names

variable {f : List Char → Reader}

theorem reads_nameChars (hstep : ∀ x read c, isNameChar c = true →
    (f (x :: read)).step c = some (f (c :: x :: read), [])) :
    ∀ (cs : List Char) (x : Char) (read : List Char), cs.all isNameChar = true →
      Reads (f (x :: read)) cs (f (cs.reverse ++ x :: read))
  | [], x, read, _ => .nil _
  | c :: cs, x, read, h => by
    obtain ⟨hc, hcs⟩ := Bool.and_eq_true_iff.1 (List.all_cons.symm.trans h)
    rw [List.reverse_cons, List.append_assoc]
    exact .cons (hstep x read c hc) (reads_nameChars hstep cs c (x :: read) hcs)

theorem reads_spelt {r : Reader} {cs : List Char}
    (hfirst : ∀ c, isNameStart c = true → r.step c = some (f [c], []))
    (hstep : ∀ x read c, isNameChar c = true →
      (f (x :: read)).step c = some (f (c :: x :: read), []))
    (hs : Spelt cs) : Reads r cs (f cs.reverse) := by
  obtain ⟨c, rest, rfl, hc, hrest⟩ := hs
  rw [List.reverse_cons]
  exact .cons (hfirst c hc) (reads_nameChars hstep rest c [] hrest)

end Names

section Characters

variable {frames : List Frame} {rooted : Bool} {text : List Char} {c : Char}

theorem ne_of_class {p : Char → Bool} {x : Char} (h : p c = true) (hx : p x = false) : c ≠ x := by
  rintro rfl
  rw [h] at hx
  cases hx

theorem not_blank_of_name (h : isNameChar c = true) : isBlank c = false := by
  have hs : c ≠ ' ' := ne_of_class h (by decide)
  have hn : c ≠ '\n' := ne_of_class h (by decide)
  have ht : c ≠ '\t' := ne_of_class h (by decide)
  have hr : c ≠ '\r' := ne_of_class h (by decide)
  simp [isBlank, hs, hn, ht, hr]

theorem not_blank_of_start (h : isNameStart c = true) : isBlank c = false :=
  not_blank_of_name (isNameChar_of_start h)

theorem reads_reference {p : Place} {x : Char} {xs : List Char} {s : Reader}
    (hx : (isNameStart x || x = '#') = true) (hxs : xs.all isNameChar = true)
    (h : (standing frames rooted text (.reference p (x :: xs).reverse)).resolve p (x :: xs)
      = some (s, [])) :
    Reads (standing frames rooted text (.reference p [])) (x :: xs ++ [';']) s := by
  have hne : x ≠ ';' := by
    rintro rfl
    exact absurd hx (by decide)
  have hfirst : (standing frames rooted text (.reference p [])).step x
      = some (standing frames rooted text (.reference p [x]), []) := by
    change inReference _ p [] x = _
    rw [inReference, if_neg hne]
    exact if_pos hx
  have hstep : ∀ y read c, isNameChar c = true →
      (standing frames rooted text (.reference p (y :: read))).step c
        = some (standing frames rooted text (.reference p (c :: y :: read)), []) := by
    intro y read c hc
    change inReference _ p (y :: read) c = _
    rw [inReference, if_neg (ne_of_class hc (by decide))]
    exact if_pos hc
  have hname := reads_nameChars (f := fun read => standing frames rooted text (.reference p read))
    hstep xs x [] hxs
  rw [← List.reverse_cons] at hname
  refine (Reads.cons hfirst hname).snoc ?_
  change inReference _ p (x :: xs).reverse ';' = _
  rw [inReference, if_pos rfl, if_neg (by simp), List.reverse_reverse]
  exact h

/-- The escapes of canonical form, each with the character it stands for. -/
def escapes : List (List Char × Char) :=
  [("amp".toList, '&'), ("lt".toList, '<'), ("gt".toList, '>'), ("quot".toList, '"'),
    ("#x9".toList, '\t'), ("#xA".toList, '\n'), ("#xD".toList, '\r')]

theorem reads_escape {p : Place} {name : List Char} {s : Reader} (h : (name, c) ∈ escapes)
    (hs : (standing frames rooted text (.reference p name.reverse)).insert p [c] = some (s, [])) :
    Reads (standing frames rooted text (.reference p [])) (name ++ [';']) s := by
  simp only [escapes, List.mem_cons, Prod.mk.injEq, List.not_mem_nil, or_false] at h
  rcases h with ⟨rfl, rfl⟩ | ⟨rfl, rfl⟩ | ⟨rfl, rfl⟩ | ⟨rfl, rfl⟩ | ⟨rfl, rfl⟩ | ⟨rfl, rfl⟩ | ⟨rfl, rfl⟩
  all_goals exact reads_reference (by decide) (by decide) hs

theorem reads_textChar {f : Frame} {fs : List Frame} (hc : Edition.first.admits c = true)
    (brackets : Nat) : ∃ brackets', Reads (standing (f :: fs) rooted text (.content brackets))
      (textChar c).toList (standing (f :: fs) rooted (c :: text) (.content brackets')) := by
  have hescape : ∀ name : List Char, (name, c) ∈ escapes →
      ∃ brackets', Reads (standing (f :: fs) rooted text (.content brackets)) ('&' :: (name ++ [';']))
        (standing (f :: fs) rooted (c :: text) (.content brackets')) :=
    fun name h => ⟨0, .cons rfl (reads_escape h rfl)⟩
  unfold textChar
  split_ifs with ha hl hg hr
  · exact hescape "amp".toList (by simp [escapes, ha])
  · exact hescape "lt".toList (by simp [escapes, hl])
  · exact hescape "gt".toList (by simp [escapes, hg])
  · exact hescape "#xD".toList (by simp [escapes, hr])
  · rw [String.toList_singleton]
    refine ⟨if c = ']' then min 2 (brackets + 1) else 0, .one ?_⟩
    have hadmitted : Edition.first.admitsInText c = true := by simp [Edition.admitsInText, hc]
    change inText _ brackets false c = _
    rw [inText, if_neg hl, if_neg (by simp), if_neg ha, if_neg (by simp [hg])]
    exact if_pos hadmitted

theorem reads_text {f : Frame} {fs : List Frame} : ∀ {cs : List Char} {text : List Char}
    (brackets : Nat), cs.all Edition.first.admits = true →
    ∃ brackets', Reads (standing (f :: fs) rooted text (.content brackets))
      (cs.flatMap fun c => (textChar c).toList)
      (standing (f :: fs) rooted (cs.reverse ++ text) (.content brackets'))
  | [], text, brackets, _ => ⟨brackets, .nil _⟩
  | c :: cs, text, brackets, h => by
    obtain ⟨hc, hcs⟩ := Bool.and_eq_true_iff.1 (List.all_cons.symm.trans h)
    obtain ⟨k, hread⟩ : ∃ k, Reads (standing (f :: fs) rooted text (.content brackets))
      (textChar c).toList (standing (f :: fs) rooted (c :: text) (.content k)) :=
      reads_textChar hc brackets
    obtain ⟨k', hmore⟩ := reads_text k hcs
    rw [List.reverse_cons, List.append_assoc]
    exact ⟨k', hread.append hmore⟩

section Values

variable {d : Draft} {n : Name}

/-- A character of a value is written so that it is read as itself. -/
theorem reads_valueChar {read : List Char} (hc : Edition.first.admits c = true) :
    Reads (standing frames rooted text (.value d n '"' read)) (valueChar c).toList
      (standing frames rooted text (.value d n '"' (c :: read))) := by
  have hescape : ∀ name : List Char, (name, c) ∈ escapes →
      Reads (standing frames rooted text (.value d n '"' read)) ('&' :: (name ++ [';']))
        (standing frames rooted text (.value d n '"' (c :: read))) :=
    fun name h => .cons rfl (reads_escape h rfl)
  unfold valueChar
  split_ifs with ha hl hq ht hn hr
  · exact hescape "amp".toList (by simp [escapes, ha])
  · exact hescape "lt".toList (by simp [escapes, hl])
  · exact hescape "quot".toList (by simp [escapes, hq])
  · exact hescape "#x9".toList (by simp [escapes, ht])
  · exact hescape "#xA".toList (by simp [escapes, hn])
  · exact hescape "#xD".toList (by simp [escapes, hr])
  · rw [String.toList_singleton]
    refine .one ?_
    have hadmitted : Edition.first.admitsInText c = true := by simp [Edition.admitsInText, hc]
    change inValue _ d n '"' read c = _
    rw [inValue, if_neg hq, if_neg ha, if_neg hl]
    exact if_pos hadmitted

theorem reads_value : ∀ {cs read : List Char}, cs.all Edition.first.admits = true →
    Reads (standing frames rooted text (.value d n '"' read))
      (cs.flatMap fun c => (valueChar c).toList)
      (standing frames rooted text (.value d n '"' (cs.reverse ++ read)))
  | [], _, _ => .nil _
  | c :: cs, read, hcs => by
    obtain ⟨hc, hrest⟩ := Bool.and_eq_true_iff.1 (List.all_cons.symm.trans hcs)
    rw [List.reverse_cons, List.append_assoc]
    exact (reads_valueChar hc).append (reads_value hrest)

end Values

end Characters

section Tags

variable {frames : List Frame} {rooted : Bool} {text : List Char} {d d' : Draft} {n : Name}

/-- A start tag as far as it was read; the name may still be waiting for its end. -/
def InTag (d : Draft) : Mode → Prop
  | .inTag draft _ => draft = d
  | .tagName read => draft? read = some d
  | _ => False

theorem InTag.blank {m : Mode} (hm : InTag d m) : (standing frames rooted text m).step ' '
    = some (standing frames rooted text (.inTag d true), []) := by
  unfold InTag at hm
  split at hm
  · rw [hm]
    rfl
  · change (draft? _).bind _ = _
    rw [hm]
    rfl
  · exact hm.elim

theorem InTag.finish {m : Mode} (hm : InTag d m) : (standing frames rooted text m).step '>'
    = ((standing frames rooted text m).open? d).bind (·.goto (.content 0)) := by
  unfold InTag at hm
  split at hm
  · rw [hm]
    rfl
  · change (draft? _).bind _ = _
    rw [hm]
    rfl
  · exact hm.elim

theorem reads_attribute {m : Mode} {v : String} (hm : InTag d m) (hn : n.Legible)
    (hv : v.toList.all Edition.first.admits = true) (h : Draft.add? d n v = some d') :
    Reads (standing frames rooted text m) (renderAttribute (n.text, v))
      (standing frames rooted text (.inTag d' false)) := by
  have hname : Reads (standing frames rooted text (.inTag d true)) n.text.toList
      (standing frames rooted text (.attributeName d n.text.toList.reverse)) := by
    refine reads_spelt (f := fun read => standing frames rooted text (.attributeName d read))
      (fun c hc => ?_) (fun x read c hc => ?_) hn.spelt
    · change inTag _ d true c = _
      rw [inTag, if_neg (ne_of_class hc (by decide)), if_neg (ne_of_class hc (by decide)),
        if_neg (by simp [not_blank_of_start hc])]
      exact if_pos (by simp [hc])
    · change inAttributeName _ d (x :: read) c = _
      rw [inAttributeName]
      exact if_pos hc
  have hequals : (standing frames rooted text (.attributeName d n.text.toList.reverse)).step '='
      = some (standing frames rooted text (.quote d n), []) := by
    change inAttributeName _ d _ '=' = _
    rw [inAttributeName, if_neg (by decide), hn.read]
    rfl
  have hvalue : Reads (standing frames rooted text (.value d n '"' []))
      (v.toList.flatMap fun c => (valueChar c).toList)
      (standing frames rooted text (.value d n '"' (v.toList.reverse ++ []))) := reads_value hv
  have hend : (standing frames rooted text (.value d n '"' v.toList.reverse)).step '"'
      = some (standing frames rooted text (.inTag d' false), []) := by
    change inValue _ d n '"' _ '"' = _
    rw [inValue, if_pos rfl, List.reverse_reverse, String.ofList_toList, h]
    rfl
  rw [List.append_nil] at hvalue
  exact .cons hm.blank (hname.append (.cons hequals (.cons rfl (hvalue.snoc hend))))

/-- What can be read back of an attribute or of a declaration. -/
structure LegibleEntry (a : Name × String) : Prop where
  name : a.1.Legible
  value : a.2.toList.all Edition.first.admits = true

def addAll? (d : Draft) (as : List (Name × String)) : Option Draft :=
  as.foldlM (fun d a => Draft.add? d a.1 a.2) d

theorem reads_attributes : ∀ {as : List (Name × String)} {d : Draft} {m : Mode}, InTag d m →
    (∀ a ∈ as, LegibleEntry a) → addAll? d as = some d' → ∃ m', InTag d' m' ∧
      Reads (standing frames rooted text m)
        ((as.map fun a => (a.1.text, a.2)).flatMap renderAttribute)
        (standing frames rooted text m')
  | [], _, m, hm, _, h => by
    cases h
    exact ⟨m, hm, .nil _⟩
  | a :: as, d, m, hm, has, h => by
    rw [addAll?, List.foldlM_cons] at h
    obtain ⟨d₁, h₁, hrest⟩ := Option.bind_eq_some_iff.1 h
    obtain ⟨ha, hmore⟩ := List.forall_mem_cons.1 has
    have hread : Reads (standing frames rooted text m) (renderAttribute (a.1.text, a.2))
        (standing frames rooted text (.inTag d₁ false)) :=
      reads_attribute hm ha.name ha.value h₁
    obtain ⟨m', hm', hall⟩ := reads_attributes (m := .inTag d₁ false) rfl hmore hrest
    exact ⟨m', hm', hread.append hall⟩

/-- Children with the text behind them, the last first. -/
def settled (text : List Char) (children : List Node) : List Node :=
  if text.isEmpty then children else .text (String.ofList text.reverse) :: children

/-- Open elements when the text behind the last piece of markup has been added to the innermost. -/
def settledFrames (text : List Char) : List Frame → List Frame
  | [] => []
  | f :: fs => ⟨f.tag, settled text f.children⟩ :: fs

theorem flush_standing (m : Mode) : (standing frames rooted text m).flush
    = standing (settledFrames text frames) rooted [] m := by
  unfold flush
  cases frames with
  | nil => simp [settledFrames]
  | cons f fs =>
    cases text with
    | nil => rfl
    | cons c text => rfl

theorem open?_standing (m : Mode)
    (hname : d.name.Bound (d.declared ++ (standing frames rooted text m).scope))
    (has : ∀ a ∈ d.attributes, a.name.Bound (d.declared ++ (standing frames rooted text m).scope)) :
    (standing frames rooted text m).open? d = some (standing (⟨⟨d.name, d.attributes.reverse,
        d.declared ++ (standing frames rooted text m).scope⟩, []⟩ :: settledFrames text frames)
      true [] m) := by
  unfold open?
  dsimp only
  rw [flush_standing, if_pos]
  rw [Bool.and_eq_true, List.all_eq_true]
  exact ⟨bound_iff.2 hname, fun a ha => bound_iff.2 (has a ha)⟩

def InText (m : Mode) : Prop :=
  m = .start ∨ ∃ brackets, m = .content brackets

theorem reads_start {m : Mode} (hm : InText m) (hn : n.Legible)
    (hu : n.qualifier ≠ "xml" ∧ n.qualifier ≠ "xmlns") {as : List (Name × String)}
    (has : ∀ a ∈ as, LegibleEntry a) (hd : addAll? ⟨n, [], []⟩ as = some d) {s : Reader}
    (ho : ∀ m, ((standing frames rooted text m).open? d).bind (·.goto (.content 0)) = some (s, [])) :
    Reads (standing frames rooted text m)
      ('<' :: (n.text.toList
        ++ ((as.map fun a => (a.1.text, a.2)).flatMap renderAttribute ++ ['>']))) s := by
  obtain ⟨first, hopen⟩ : ∃ first, (standing frames rooted text m).step '<'
      = some (standing frames rooted text (.markup first), []) := by
    rcases hm with rfl | ⟨brackets, rfl⟩
    · exact ⟨true, rfl⟩
    · exact ⟨false, rfl⟩
  have hname : Reads (standing frames rooted text (.markup first)) n.text.toList
      (standing frames rooted text (.tagName n.text.toList.reverse)) := by
    refine reads_spelt (f := fun read => standing frames rooted text (.tagName read))
      (fun c hc => ?_) (fun x read c hc => ?_) hn.spelt
    · change inMarkup _ first c = _
      rw [inMarkup, if_neg (ne_of_class hc (by decide)), if_neg (ne_of_class hc (by decide)),
        if_neg (ne_of_class hc (by decide))]
      exact if_pos hc
    · change inTagName _ (x :: read) c = _
      rw [inTagName]
      exact if_pos hc
  have hdraft : InTag ⟨n, [], []⟩ (.tagName n.text.toList.reverse) := by
    simp [InTag, draft?, hn.read, hu]
  obtain ⟨m', hm', hattributes⟩ : ∃ m', InTag d m' ∧
      Reads (standing frames rooted text (.tagName n.text.toList.reverse))
        ((as.map fun a => (a.1.text, a.2)).flatMap renderAttribute)
        (standing frames rooted text m') := reads_attributes hdraft has hd
  have hend : (standing frames rooted text m').step '>' = some (s, []) := hm'.finish.trans (ho m')
  exact .cons hopen (hname.append (hattributes.snoc hend))

theorem reads_end {f : Frame} {brackets : Nat} (hn : f.tag.name.Legible) {s : Reader}
    (hc : ∀ m, (standing (f :: frames) rooted text m).close = some (s, [])) :
    Reads (standing (f :: frames) rooted text (.content brackets))
      ('<' :: '/' :: (f.tag.name.text.toList ++ ['>'])) s := by
  have hname : Reads (standing (f :: frames) rooted text (.endName [])) f.tag.name.text.toList
      (standing (f :: frames) rooted text (.endName f.tag.name.text.toList.reverse)) := by
    refine reads_spelt (f := fun read => standing (f :: frames) rooted text (.endName read))
      (fun c hc => ?_) (fun x read c hc => ?_) hn.spelt
    · change inEndName _ [] c = _
      rw [inEndName]
      exact if_pos hc
    · change inEndName _ (x :: read) c = _
      rw [inEndName]
      exact if_pos hc
  refine .cons rfl (.cons rfl (hname.snoc ?_))
  change inEndName _ _ '>' = _
  rw [inEndName, if_neg (by split_ifs <;> decide), hn.read]
  exact (if_pos rfl).trans (hc _)

end Tags

section Instructions

variable {f : Frame} {frames : List Frame} {rooted : Bool} {text : List Char} {target : String}

theorem reads_target (ht : LegibleTarget target) :
    Reads (standing frames rooted text (.target false [])) target.toList
      (standing frames rooted text (.target false target.toList.reverse)) := by
  refine reads_spelt (f := fun read => standing frames rooted text (.target false read))
    (fun c hc => ?_) (fun x read c hc => ?_) ht.spelt
  · change inTarget _ false [] c = _
    rw [inTarget, if_neg (ne_of_class hc (by decide)), if_neg (by simp [not_blank_of_start hc])]
    exact if_pos hc
  · change inTarget _ false (x :: read) c = _
    rw [inTarget, if_neg (ne_of_class hc (by decide)), if_neg (by simp [not_blank_of_name hc])]
    exact if_pos hc

theorem targetAdmitted_of_legible (ht : LegibleTarget target) (blank : Bool) :
    targetAdmitted false blank target.toList.reverse = true := by
  obtain ⟨c, rest, hs, -⟩ := ht.spelt
  have hne : target.toList.reverse.isEmpty = false := by simp [hs]
  rw [targetAdmitted, hne, List.reverse_reverse, bne_iff_ne.2 ht.unreserved]
  rfl

theorem reads_data {written : List Char} : ∀ {cs read : List Char} {question : Bool},
    cs.all Edition.first.admits = true → Unclosed (read.reverse ++ cs) →
    (question = true → ∃ more, read = '?' :: more) →
    ∃ question', Reads (standing frames rooted text (.data written read question)) cs
      (standing frames rooted text (.data written (cs.reverse ++ read) question'))
  | [], _, question, _, _, _ => ⟨question, .nil _⟩
  | c :: cs, read, question, hcs, hu, hq => by
    obtain ⟨hc, hrest⟩ := Bool.and_eq_true_iff.1 (List.all_cons.symm.trans hcs)
    -- a question mark that was just read would end the instruction here
    have hopen : ¬ (c = '>' && question) = true := by
      intro h
      rw [Bool.and_eq_true, decide_eq_true_eq] at h
      obtain ⟨rfl, hquestion⟩ := h
      obtain ⟨more, rfl⟩ := hq hquestion
      exact hu ⟨more.reverse, cs, by simp⟩
    have hstep : (standing frames rooted text (.data written read question)).step c
        = some (standing frames rooted text (.data written (c :: read) (c = '?')), []) := by
      change inData _ written read question c = _
      rw [inData, if_neg hopen]
      exact if_pos hc
    have hlast : decide (c = '?') = true → ∃ more, c :: read = '?' :: more :=
      fun h => ⟨read, by rw [of_decide_eq_true h]⟩
    obtain ⟨question', hmore⟩ := reads_data hrest (by simpa using hu) hlast
    rw [List.reverse_cons, List.append_assoc]
    exact ⟨question', .cons hstep hmore⟩

/-- What an instruction is read back as. -/
def shownData (data : Option String) : Option String :=
  if (data.getD "").isEmpty then none else some (data.getD "")

theorem instructionBody_shownData (target : String) (data : Option String) :
    instructionBody target (shownData data) = instructionBody target data := by
  unfold shownData instructionBody
  dsimp only
  split_ifs with h h' h'
  · rfl
  · exact absurd rfl h'
  · exact absurd h' h
  · rfl

theorem reads_instruction {data : Option String} (ht : LegibleTarget target)
    (hd : (data.getD "").toList.all Edition.first.admits = true)
    (hu : Unclosed (instructionBody target data)) (brackets : Nat) :
    Reads (standing (f :: frames) rooted text (.content brackets))
      ('<' :: '?' :: (instructionBody target data ++ ['?', '>']))
      (standing (⟨f.tag, .instruction target (shownData data) :: settled text f.children⟩ :: frames)
        rooted [] (.content 0)) := by
  have hplace : ∀ (m : Mode) (n : Node), (standing (f :: frames) rooted text m).place n
      = some (standing (⟨f.tag, n :: settled text f.children⟩ :: frames) rooted []
        (.content 0), []) := by
    intro m n
    rw [place, flush_standing]
    rfl
  have htarget : Reads (standing (f :: frames) rooted text (.target false [])) target.toList
      (standing (f :: frames) rooted text (.target false target.toList.reverse)) := reads_target ht
  refine .cons rfl (.cons rfl ?_)
  unfold instructionBody at hu ⊢
  dsimp only at hu ⊢
  unfold shownData
  split_ifs at hu ⊢ with he
  · have hclose : (standing (f :: frames) rooted text (.target false target.toList.reverse)).step '?'
        = some (standing (f :: frames) rooted text (.targetClose target.toList.reverse), []) := by
      change inTarget _ false _ '?' = _
      rw [inTarget, if_pos rfl]
      exact if_pos (targetAdmitted_of_legible ht false)
    rw [List.append_nil]
    refine htarget.append (.cons hclose (.one ?_))
    change (instruction? _ none).bind _ = _
    rw [instruction?, ht.read]
    exact hplace _ _
  · have hblank : (standing (f :: frames) rooted text (.target false target.toList.reverse)).step ' '
        = some (standing (f :: frames) rooted text (.data target.toList.reverse [] false), []) := by
      change inTarget _ false _ ' ' = _
      rw [inTarget, if_neg (by decide), if_pos (by decide)]
      exact if_pos (targetAdmitted_of_legible ht true)
    have hinside : Unclosed (data.getD "").toList :=
      fun h => hu (h.trans ((List.suffix_cons ' ' _).isInfix.trans
        (List.suffix_append target.toList _).isInfix))
    obtain ⟨question, hdata⟩ : ∃ question, Reads
        (standing (f :: frames) rooted text (.data target.toList.reverse [] false))
        (data.getD "").toList (standing (f :: frames) rooted text
          (.data target.toList.reverse ((data.getD "").toList.reverse ++ []) question)) :=
      reads_data hd hinside fun h => absurd h Bool.false_ne_true
    rw [List.append_nil] at hdata
    have hquestion : (standing (f :: frames) rooted text (.data target.toList.reverse
        (data.getD "").toList.reverse question)).step '?'
        = some (standing (f :: frames) rooted text (.data target.toList.reverse
          ('?' :: (data.getD "").toList.reverse) true), []) := by
      change inData _ _ _ question '?' = _
      rw [inData, if_neg (by simp)]
      exact if_pos (show Edition.first.admits '?' = true by decide)
    have hclose : (standing (f :: frames) rooted text (.data target.toList.reverse
        ('?' :: (data.getD "").toList.reverse) true)).step '>'
        = some (standing (⟨f.tag, .instruction target (some (data.getD ""))
          :: settled text f.children⟩ :: frames) rooted [] (.content 0), []) := by
      change inData _ _ _ true '>' = _
      rw [inData, if_pos (by decide), List.drop_one, List.tail_cons, instruction?, ht.read,
        ← hplace (.data target.toList.reverse ('?' :: (data.getD "").toList.reverse) true)]
      simp
    rw [List.append_assoc]
    exact htarget.append (.cons hblank (hdata.append (.cons hquestion (.one hclose))))

end Instructions

end ImageTrust.Xml.Reader
