import ImageTrust.Proofs.Xml.Search
import ImageTrust.Signature.Region
import Mathlib.Tactic.SplitIfs

/-!
Where a region of a document is in its tree. The scan that writes a region sees only tags passing by
and counts depths; the lemmas here follow it through a tree, one for each thing it can be doing
(leaving out, writing, or looking for where to begin) at each depth where that differs, and so find
that it writes the canonical form of one particular node.
-/

namespace ImageTrust.Signature

open ImageTrust.Xml

/-- Whether a node is an element of a signature with this base name. -/
def isPart (base : String) : Node → Bool
  | .element tag _ => tag.isNamed space base
  | _ => false

/-- The children of the document element that belong to a region. -/
def Region.keep (region : Region) (children : List Node) : List Node :=
  if region = .enveloped then children.filter (!isPart "Signature" ·) else children

/-- The first signed information directly inside one of the given elements that is a signature. -/
def signedInfo? (elements : List Element) : Option Node :=
  (elements.filter (·.tag.isNamed space "Signature")).findSome?
    (·.children.find? (isPart "SignedInfo"))

/-- The elements of the second level, in document order, with what was closed of them. -/
def secondLevel (d : Reading) : List Element :=
  let closed := (Node.elements d.nodes).flatMap (Node.elements ·.children)
  let unclosed := match d.unclosed.reverse with
    | [] => []
    | [root] => Node.elements root.children
    | root :: second :: _ => Node.elements root.children ++ [⟨second.tag, second.children⟩]
  closed ++ unclosed

/-- The node that a region of a document is. -/
def Region.find? (d : Reading) : Region → Option Node
  | .signedInfo => signedInfo? (secondLevel d)
  | region => (Node.elements d.nodes).head?.map fun e => .element e.tag (region.keep e.children)

/-- What holds of a node passes on to its children, and is not lost when some of them are left out. -/
structure Hereditary (Q : Node → Prop) : Prop where
  child : ∀ {tag children}, Q (.element tag children) → ∀ n ∈ children, Q n
  part : ∀ {tag children kept}, Q (.element tag children) → kept ⊆ children → Q (.element tag kept)

theorem Region.keep_subset (region : Region) (children : List Node) :
    region.keep children ⊆ children := by
  unfold Region.keep
  split_ifs
  · exact List.filter_sublist.subset
  · exact List.Subset.refl children

/-- What holds of the elements of a document, closed or not, holds of a region of it. -/
theorem Region.find?_of_hereditary {Q : Node → Prop} (hQ : Hereditary Q) {d : Reading}
    (hclosed : ∀ root ∈ Node.elements d.nodes, Q root.node)
    (hopen : ∀ f ∈ d.unclosed, ∀ n ∈ f.children, Q n) {region : Region} {n : Node}
    (h : region.find? d = some n) : Q n := by
  have helements : ∀ {ns : List Node}, (∀ n ∈ ns, Q n) → ∀ e ∈ Node.elements ns,
      ∀ n ∈ e.children, Q n :=
    fun hns e he => hQ.child (hns _ (node_mem_of_elements he))
  have hsecond : ∀ e ∈ secondLevel d, ∀ n ∈ e.children, Q n := by
    intro e he
    rcases List.mem_append.1 he with he | he
    · obtain ⟨root, hroot, hin⟩ := List.mem_flatMap.1 he
      exact helements (hQ.child (hclosed root hroot)) e hin
    · split at he
      · cases he
      · rename_i root hu
        exact helements (hopen root (List.mem_reverse.1 (hu ▸ List.mem_singleton.2 rfl))) e he
      · rename_i root second rest hu
        have hroot := hopen root (List.mem_reverse.1 (hu ▸ List.mem_cons_self))
        have hlast := hopen second
          (List.mem_reverse.1 (hu ▸ List.mem_cons_of_mem _ List.mem_cons_self))
        rcases List.mem_append.1 he with he | he
        · exact helements hroot e he
        · rw [List.mem_singleton.1 he]
          exact hlast
  have hfirst : (Node.elements d.nodes).head?.map
      (fun e => Node.element e.tag (region.keep e.children)) = some n → Q n := by
    intro h
    obtain ⟨root, hroot, rfl⟩ := Option.map_eq_some_iff.1 h
    exact hQ.part (hclosed root (List.mem_of_mem_head? hroot)) (region.keep_subset root.children)
  cases region with
  | document => exact hfirst h
  | enveloped => exact hfirst h
  | signedInfo =>
    obtain ⟨e, he, hn⟩ := List.exists_of_findSome?_eq_some h
    exact hsecond e (List.mem_filter.1 he).1 n (List.mem_of_find?_eq_some hn)

namespace Scan

variable {region : Region} {listed : List String} {b : Bool}

section Steps

variable {d k : Nat} {c s : Option Nat} {o : Canonical.Output} {t : Tag} {name : Name}

theorem start_skipping (hd : 2 ≤ d) :
    start region listed ⟨d, b, c, some k, o⟩ t = ⟨d + 1, b, c, some k, o⟩ := by
  have : ¬ d + 1 = 2 := by omega
  simp [start, this]

theorem stop_skipping (hd : 2 ≤ d) (hk : k ≤ d) :
    stop ⟨d + 1, b, c, some k, o⟩ name = ⟨d, b, c, some k, o⟩ := by
  have h2 : ¬ d + 1 = 2 := by omega
  have hs : ¬ k = d + 1 := by omega
  simp [stop, write, h2, hs]

theorem start_writing (hd : 2 ≤ d) :
    start region listed ⟨d, b, some k, none, o⟩ t
      = ⟨d + 1, b, some k, none, o.start listed t⟩ := by
  have : ¬ d + 1 = 2 := by omega
  simp [start, this]

theorem stop_writing (hd : 2 ≤ d) :
    stop ⟨d + 1, b, some k, none, o⟩ name = ⟨d, b, some k, none, o.stop name⟩ := by
  have : ¬ d + 1 = 2 := by omega
  simp [stop, write, this]

theorem start_beyond (hd : 3 ≤ d) :
    start .signedInfo listed ⟨d, b, none, none, o⟩ t = ⟨d + 1, b, none, none, o⟩ := by
  have h2 : ¬ d + 1 = 2 := by omega
  have h3 : ¬ d + 1 = 3 := by omega
  simp [start, begins, h2, h3]

theorem stop_searching (hd : 2 ≤ d) :
    stop ⟨d + 1, b, none, none, o⟩ name = ⟨d, b, none, none, o⟩ := by
  have : ¬ d + 1 = 2 := by omega
  simp [stop, write, this]

@[simp] theorem write_skipping {f : Canonical.Output → Canonical.Output} :
    write ⟨d, b, c, some k, o⟩ f = ⟨d, b, c, some k, o⟩ := by
  simp [write]

@[simp] theorem write_writing {f : Canonical.Output → Canonical.Output} :
    write ⟨d, b, some k, none, o⟩ f = ⟨d, b, some k, none, f o⟩ :=
  rfl

@[simp] theorem write_searching {f : Canonical.Output → Canonical.Output} :
    write ⟨d, b, none, s, o⟩ f = ⟨d, b, none, s, o⟩ :=
  rfl

@[simp] theorem closes_skipping : closes ⟨d, b, c, some k, o⟩ = false := rfl

@[simp] theorem closes_searching : closes ⟨d, b, none, none, o⟩ = false := rfl

@[simp] theorem closes_writing : closes ⟨d, b, some k, none, o⟩ = decide (k = d) := by
  simp [closes]

end Steps

mutual

/-- Inside a signature that is left out nothing is written. -/
theorem run_skipping {d k : Nat} {c : Option Nat} {o : Canonical.Output} (hd : 2 ≤ d) (hk : k ≤ d) :
    ∀ (n : Node) (rest : List Event), run region listed ⟨d, b, c, some k, o⟩ (n.events rest)
      = run region listed ⟨d, b, c, some k, o⟩ rest
  | .element t children, rest => by
    simp only [Node.events, run, start_skipping hd]
    rw [runAll_skipping (by omega) (by omega) children]
    simp [run, stop_skipping hd hk]
  | .text _, _ | .literal _, _ | .instruction _ _, _ => by simp [Node.events, run]
  | .comment, _ => rfl

theorem runAll_skipping {d k : Nat} {c : Option Nat} {o : Canonical.Output} (hd : 2 ≤ d) (hk : k ≤ d) :
    ∀ (ns : List Node) (rest : List Event),
      run region listed ⟨d, b, c, some k, o⟩ (Node.allEvents ns rest)
        = run region listed ⟨d, b, c, some k, o⟩ rest
  | [], _ => rfl
  | n :: ns, rest => by
    rw [Node.allEvents, run_skipping hd hk n, runAll_skipping hd hk ns]

end

mutual

/-- Below the second level everything inside the region is written. -/
theorem run_writing {d k : Nat} (hd : 2 ≤ d) (hk : k ≤ d) :
    ∀ (n : Node) (o : Canonical.Output) (rest : List Event),
      run region listed ⟨d, b, some k, none, o⟩ (n.events rest)
        = run region listed
          ⟨d, b, some k, none, ⟨Canonical.write listed o.scope o.text n, o.rendered⟩⟩ rest
  | .element t children, o, rest => by
    have hs : ¬ k = d + 1 := by omega
    simp only [Node.events, run, start_writing hd]
    rw [runAll_writing (by omega) (by omega) children]
    simp [run, stop_writing hd, hs, Canonical.write, Canonical.Output.start,
      Canonical.Output.stop, Canonical.Output.scope]
  | .text _, _, _ | .literal _, _, _ | .instruction _ _, _, _ => by
    simp [Node.events, run, Canonical.write, Canonical.Output.characters,
      Canonical.Output.instruction]
  | .comment, _, _ => rfl

theorem runAll_writing {d k : Nat} (hd : 2 ≤ d) (hk : k ≤ d) :
    ∀ (ns : List Node) (o : Canonical.Output) (rest : List Event),
      run region listed ⟨d, b, some k, none, o⟩ (Node.allEvents ns rest)
        = run region listed
          ⟨d, b, some k, none, ⟨Canonical.writeAll listed o.scope o.text ns, o.rendered⟩⟩ rest
  | [], _, _ => rfl
  | n :: ns, o, rest => by
    rw [Node.allEvents, run_writing hd hk n, runAll_writing hd hk ns, Canonical.writeAll]
    rfl

end

mutual

/-- Below the third level nothing is taken for the signed information. -/
theorem run_beyond {d : Nat} {o : Canonical.Output} (hd : 3 ≤ d) :
    ∀ (n : Node) (rest : List Event),
      run .signedInfo listed ⟨d, b, none, none, o⟩ (n.events rest)
        = run .signedInfo listed ⟨d, b, none, none, o⟩ rest
  | .element t children, rest => by
    simp only [Node.events, run, start_beyond hd]
    rw [runAll_beyond (by omega) children]
    rw [run, closes_searching, stop_searching (by omega)]
    rfl
  | .text _, _ | .literal _, _ | .instruction _ _, _ => by simp [Node.events, run]
  | .comment, _ => rfl

theorem runAll_beyond {d : Nat} {o : Canonical.Output} (hd : 3 ≤ d) :
    ∀ (ns : List Node) (rest : List Event),
      run .signedInfo listed ⟨d, b, none, none, o⟩ (Node.allEvents ns rest)
        = run .signedInfo listed ⟨d, b, none, none, o⟩ rest
  | [], _ => rfl
  | n :: ns, rest => by
    rw [Node.allEvents, run_beyond hd n, runAll_beyond hd ns]

end

/-- A region that has begun does not end at the tags of nodes inside it. -/
def Holds (k : Nat) (s : Scan) : Prop :=
  s.captured = some k ∧ k ≤ s.depth

theorem Holds.start {k : Nat} {s : Scan} (h : s.Holds k) (region : Region) (listed : List String)
    (t : Tag) :
    (s.start region listed t).Holds k ∧ (s.start region listed t).depth = s.depth + 1 := by
  obtain ⟨hc, hd⟩ := h
  unfold Scan.start Holds
  simp only [hc, Option.isSome_some]
  split_ifs <;> simp <;> omega

theorem Holds.write {k : Nat} {s : Scan} (h : s.Holds k)
    (f : Canonical.Output → Canonical.Output) :
    (s.write f).Holds k ∧ (s.write f).depth = s.depth := by
  unfold Scan.write
  split_ifs
  · exact ⟨h, rfl⟩
  · exact ⟨h, rfl⟩

theorem Holds.stop {k : Nat} {s : Scan} (hc : s.captured = some k) (hd : k < s.depth)
    (name : Name) : (s.stop name).Holds k ∧ (s.stop name).depth = s.depth - 1
      ∧ s.closes = false := by
  have hk : ¬ k = s.depth := by omega
  refine ⟨?_, ?_, by simp [closes, hc, hk]⟩
  · simp only [Scan.stop, Scan.write, Holds]
    split_ifs <;> simp [hc] <;> omega
  · simp only [Scan.stop, Scan.write]
    split_ifs <;> rfl

mutual

theorem run_holding (region : Region) (listed : List String) {k : Nat} :
    ∀ (n : Node) (s : Scan), s.Holds k → ∃ s' : Scan, s'.Holds k ∧ s'.depth = s.depth
      ∧ ∀ rest, run region listed s (n.events rest) = run region listed s' rest
  | .element t children, s, h => by
    obtain ⟨h₁, d₁⟩ := h.start region listed t
    obtain ⟨s₂, h₂, d₂, run₂⟩ := runAll_holding region listed children _ h₁
    have hk : k < s₂.depth := by have := h.2; omega
    obtain ⟨h₃, d₃, hc⟩ := Holds.stop h₂.1 hk t.name
    refine ⟨s₂.stop t.name, h₃, by omega, fun rest => ?_⟩
    simp [Node.events, run, run₂, hc]
  | .text content, s, h => ⟨_, (h.write _).1, (h.write _).2, fun _ => rfl⟩
  | .literal content, s, h => ⟨_, (h.write _).1, (h.write _).2, fun _ => rfl⟩
  | .instruction target data, s, h => ⟨_, (h.write _).1, (h.write _).2, fun _ => rfl⟩
  | .comment, s, h => ⟨s, h, rfl, fun _ => rfl⟩

theorem runAll_holding (region : Region) (listed : List String) {k : Nat} :
    ∀ (ns : List Node) (s : Scan), s.Holds k → ∃ s' : Scan, s'.Holds k ∧ s'.depth = s.depth
      ∧ ∀ rest, run region listed s (Node.allEvents ns rest) = run region listed s' rest
  | [], s, h => ⟨s, h, rfl, fun _ => rfl⟩
  | n :: ns, s, h => by
    obtain ⟨s₁, h₁, d₁, run₁⟩ := run_holding region listed n s h
    obtain ⟨s₂, h₂, d₂, run₂⟩ := runAll_holding region listed ns s₁ h₁
    exact ⟨s₂, h₂, d₂.trans d₁, fun rest => by rw [Node.allEvents, run₁, run₂]⟩

end

/-- A region whose end tag is missing is not found. -/
theorem run_frames_holding {k : Nat} : ∀ (fs : List Frame) (s : Scan), s.Holds k →
    run region listed s (Frame.events fs) = none
  | [], _, _ => rfl
  | f :: fs, s, h => by
    obtain ⟨s', h', -, hr⟩ := runAll_holding region listed f.children _
      (h.start region listed f.tag).1
    rw [Frame.events, run, hr]
    exact run_frames_holding fs s' h'

theorem writeAll_append (listed : List String) (scope : Scope) : ∀ (ms ns : List Node)
    (out : String), Canonical.writeAll listed scope out (ms ++ ns)
      = Canonical.writeAll listed scope (Canonical.writeAll listed scope out ms) ns
  | [], _, _ => rfl
  | m :: ms, ns, out => by
    simp only [List.cons_append, Canonical.writeAll]
    exact writeAll_append listed scope ms ns _

theorem keep_cons (region : Region) (n : Node) (ns : List Node) :
    region.keep (n :: ns) = region.keep [n] ++ region.keep ns := by
  unfold Region.keep
  split_ifs
  · exact List.filter_append [n] ns
  · rfl

/-- A child of the document element is written, unless it is a signature to be left out. -/
theorem run_child (n : Node) (o : Canonical.Output) (rest : List Event) :
    run region listed ⟨1, false, some 1, none, o⟩ (n.events rest)
      = run region listed ⟨1, false, some 1, none,
        ⟨Canonical.writeAll listed o.scope o.text (region.keep [n]), o.rendered⟩⟩ rest := by
  cases n with
  | element t children =>
    by_cases hs : t.isNamed space "Signature" = true ∧ region = .enveloped
    · obtain ⟨ht, rfl⟩ := hs
      have hstart : start .enveloped listed ⟨1, false, some 1, none, o⟩ t
          = ⟨2, true, some 1, some 2, o⟩ := by
        simp [start, ht]
      simp only [Node.events, run, hstart]
      rw [runAll_skipping (by omega) (by omega)]
      simp [run, stop, Region.keep, isPart, ht, Canonical.writeAll]
    · have hstart : start region listed ⟨1, false, some 1, none, o⟩ t
          = ⟨2, t.isNamed space "Signature", some 1, none, o.start listed t⟩ := by
        simp [start, hs]
      have hk : region.keep [.element t children] = [.element t children] := by
        unfold Region.keep
        split_ifs with hr
        · have ht : t.isNamed space "Signature" = false := by simpa [hr] using hs
          simp [isPart, ht]
        · rfl
      simp only [Node.events, run, hstart]
      rw [runAll_writing (by omega) (by omega), hk]
      simp [run, stop, Canonical.write, Canonical.writeAll, Canonical.Output.start,
        Canonical.Output.stop, Canonical.Output.scope]
  | text content => simp [Node.events, run, Region.keep, isPart, Canonical.writeAll, Canonical.write,
      Canonical.Output.characters]
  | literal content => simp [Node.events, run, Region.keep, isPart, Canonical.writeAll,
      Canonical.write, Canonical.Output.characters]
  | instruction target data => simp [Node.events, run, Region.keep, isPart, Canonical.writeAll,
      Canonical.write, Canonical.Output.instruction]
  | comment => simp [Node.events, Region.keep, isPart, Canonical.writeAll, Canonical.write]

theorem run_children : ∀ (ns : List Node) (o : Canonical.Output) (rest : List Event),
    run region listed ⟨1, false, some 1, none, o⟩ (Node.allEvents ns rest)
      = run region listed ⟨1, false, some 1, none,
        ⟨Canonical.writeAll listed o.scope o.text (region.keep ns), o.rendered⟩⟩ rest
  | [], _, _ => by simp [Node.allEvents, Region.keep, Canonical.writeAll]
  | n :: ns, o, rest => by
    rw [Node.allEvents, run_child n, run_children ns, keep_cons region n ns, writeAll_append]
    rfl

/-- The document element is written as a whole when its end tag is there. -/
theorem run_roots (hr : region ≠ .signedInfo) : ∀ (ns : List Node) (rest : List Event),
    run region listed initial (Node.allEvents ns rest)
      = ((Node.elements ns).head?.map fun e =>
          Canonical.text listed (.element e.tag (region.keep e.children))).or
        (run region listed initial rest)
  | [], _ => rfl
  | .element t children :: ns, rest => by
    have hstart : start region listed initial t
        = ⟨1, false, some 1, none, Canonical.Output.empty.start listed t⟩ := by
      cases region
      · simp [start, begins, initial]
      · simp [start, begins, initial]
      · exact absurd rfl hr
    simp only [Node.allEvents, Node.events, run, hstart]
    rw [run_children]
    simp [run, stop, Node.elements, Canonical.text, Canonical.write, Canonical.Output.start,
      Canonical.Output.stop, Canonical.Output.scope, Canonical.Output.empty]
  | .text _ :: ns, rest | .literal _ :: ns, rest | .instruction _ _ :: ns, rest
  | .comment :: ns, rest => run_roots hr ns rest

theorem run_frames_root (hr : region ≠ .signedInfo) (fs : List Frame) :
    run region listed initial (Frame.events fs) = none := by
  cases fs with
  | nil => rfl
  | cons f fs =>
    have hstart : (start region listed initial f.tag).Holds 1 := by
      cases region
      · simp [start, begins, initial, Holds]
      · simp [start, begins, initial, Holds]
      · exact absurd rfl hr
    obtain ⟨s', h', -, run'⟩ := runAll_holding region listed f.children _
      hstart
    rw [Frame.events, run, run']
    exact run_frames_holding fs s' h'

section SignedInfo

theorem start_third {t : Tag} : start .signedInfo listed ⟨2, b, none, none, .empty⟩ t
    = if b && t.isNamed space "SignedInfo" then
        ⟨3, b, some 3, none, Canonical.Output.empty.start listed t⟩
      else ⟨3, b, none, none, .empty⟩ := by
  simp [start, begins]

theorem start_second {t : Tag} : start .signedInfo listed ⟨1, false, none, none, .empty⟩ t
    = ⟨2, t.isNamed space "Signature", none, none, .empty⟩ := by
  simp [start, begins]

theorem start_first {t : Tag} : start .signedInfo listed initial t
    = ⟨1, false, none, none, .empty⟩ := by
  simp [start, begins, initial]

/-- The first signed information among nodes inside an element, which counts if that is a
signature. -/
def infoIn? (isSignature : Bool) (children : List Node) : Option Node :=
  if isSignature then children.find? (isPart "SignedInfo") else none

theorem signedInfo?_cons (e : Element) (es : List Element) : signedInfo? (e :: es)
    = (infoIn? (e.tag.isNamed space "Signature") e.children).or (signedInfo? es) := by
  unfold signedInfo? infoIn?
  cases h : e.tag.isNamed space "Signature" with
  | true =>
    simp only [List.filter_cons, h, if_true, List.findSome?_cons]
    cases e.children.find? (isPart "SignedInfo") <;> rfl
  | false => simp [h]

theorem signedInfo?_append (es fs : List Element) :
    signedInfo? (es ++ fs) = (signedInfo? es).or (signedInfo? fs) := by
  induction es with
  | nil => rfl
  | cons e es ih => rw [List.cons_append, signedInfo?_cons, signedInfo?_cons, ih, Option.or_assoc]

theorem run_third : ∀ (ns : List Node) (rest : List Event),
    run .signedInfo listed ⟨2, b, none, none, .empty⟩ (Node.allEvents ns rest)
      = ((infoIn? b ns).map (Canonical.text listed)).or
        (run .signedInfo listed ⟨2, b, none, none, .empty⟩ rest)
  | [], _ => by cases b <;> rfl
  | .element t children :: ns, rest => by
    simp only [Node.allEvents, Node.events, run, start_third]
    cases h : b && t.isNamed space "SignedInfo" with
    | true =>
      obtain ⟨rfl, ht⟩ := Bool.and_eq_true_iff.1 h
      rw [if_pos rfl, runAll_writing (by omega) (by omega)]
      simp [run, stop, infoIn?, isPart, ht, Canonical.text, Canonical.write,
        Canonical.Output.start, Canonical.Output.stop, Canonical.Output.scope,
        Canonical.Output.empty]
    | false =>
      have hn : infoIn? b (.element t children :: ns) = infoIn? b ns := by
        cases b with
        | true => simp [infoIn?, isPart, show t.isNamed space "SignedInfo" = false from h]
        | false => rfl
      rw [if_neg (by simp), runAll_beyond (by omega), run]
      simp only [closes_searching, Bool.false_eq_true, if_false, hn]
      rw [stop_searching (by omega)]
      exact run_third ns rest
  | .text _ :: ns, rest | .literal _ :: ns, rest | .instruction _ _ :: ns, rest
  | .comment :: ns, rest => by
    have hn (n : Node) (h : isPart "SignedInfo" n = false) : infoIn? b (n :: ns) = infoIn? b ns := by
      simp [infoIn?, h]
    rw [hn _ rfl]
    exact run_third ns rest

theorem run_second : ∀ (ns : List Node) (rest : List Event),
    run .signedInfo listed ⟨1, false, none, none, .empty⟩ (Node.allEvents ns rest)
      = ((signedInfo? (Node.elements ns)).map (Canonical.text listed)).or
        (run .signedInfo listed ⟨1, false, none, none, .empty⟩ rest)
  | [], _ => rfl
  | .element t children :: ns, rest => by
    have he : Node.elements (.element t children :: ns) = ⟨t, children⟩ :: Node.elements ns := rfl
    simp only [Node.allEvents, Node.events, run, start_second]
    rw [run_third, he, signedInfo?_cons, Option.map_or, Option.or_assoc, ← run_second ns rest]
    simp [run, stop]
  | .text _ :: ns, rest | .literal _ :: ns, rest | .instruction _ _ :: ns, rest
  | .comment :: ns, rest => run_second ns rest

theorem run_first : ∀ (ns : List Node) (rest : List Event),
    run .signedInfo listed initial (Node.allEvents ns rest)
      = ((signedInfo? ((Node.elements ns).flatMap (Node.elements ·.children))).map
          (Canonical.text listed)).or (run .signedInfo listed initial rest)
  | [], _ => rfl
  | .element t children :: ns, rest => by
    have he : Node.elements (.element t children :: ns) = ⟨t, children⟩ :: Node.elements ns := rfl
    simp only [Node.allEvents, Node.events, run, start_first]
    rw [run_second, he, List.flatMap_cons, signedInfo?_append, Option.map_or, Option.or_assoc,
      ← run_first ns rest]
    simp [run, stop, initial]
  | .text _ :: ns, rest | .literal _ :: ns, rest | .instruction _ _ :: ns, rest
  | .comment :: ns, rest => run_first ns rest

theorem run_frames_beyond {d : Nat} (hd : 3 ≤ d) {o : Canonical.Output} : ∀ fs : List Frame,
    run .signedInfo listed ⟨d, b, none, none, o⟩ (Frame.events fs) = none
  | [] => rfl
  | f :: fs => by
    simp only [Frame.events, run, start_beyond hd]
    rw [runAll_beyond (by omega)]
    exact run_frames_beyond (by omega) fs
termination_by fs => fs.length

theorem run_frames_third (fs : List Frame) :
    run .signedInfo listed ⟨2, b, none, none, .empty⟩ (Frame.events fs) = none := by
  cases fs with
  | nil => rfl
  | cons f fs =>
    simp only [Frame.events, run, start_third]
    split_ifs
    · rw [runAll_writing (by omega) (by omega)]
      exact run_frames_holding fs _ ⟨rfl, Nat.le_refl 3⟩
    · rw [runAll_beyond (by omega)]
      exact run_frames_beyond (by omega) fs

theorem run_frames_first (fs : List Frame) :
    run .signedInfo listed initial (Frame.events fs)
      = (signedInfo? (match fs with
        | [] => []
        | [root] => Node.elements root.children
        | root :: second :: _ =>
          Node.elements root.children ++ [⟨second.tag, second.children⟩])).map
        (Canonical.text listed) := by
  match fs with
  | [] => rfl
  | [root] =>
    simp only [Frame.events, run, start_first]
    rw [run_second]
    exact Option.or_none
  | root :: second :: fs =>
    simp only [Frame.events, run, start_first]
    rw [run_second, run, start_second, run_third, run_frames_third, signedInfo?_append,
      signedInfo?_cons, Option.map_or]
    simp [signedInfo?]

end SignedInfo

/-- The scan of a document writes the node that the region is. -/
theorem run_events (region : Region) (listed : List String) (d : Reading) :
    run region listed initial d.events = (region.find? d).map (Canonical.text listed) := by
  unfold Reading.events
  by_cases hr : region = .signedInfo
  · subst hr
    rw [run_first, run_frames_first, ← Option.map_or, ← signedInfo?_append]
    rfl
  · rw [run_roots hr, run_frames_root hr, Option.or_none]
    cases region
    · simp [Region.find?, Function.comp_def]
    · simp [Region.find?, Function.comp_def]
    · exact absurd rfl hr

end Scan

/-- The canonical form of a region is that of the node that it is in the tree of the document. -/
theorem Region.canonical_eq (region : Region) (listed : List String) (document : Octets) :
    region.canonical listed document
      = match region.find? (Reading.ofOctets document) with
        | some n => .ok (Canonical.text listed n)
        | none => .error (.malformed
            (if (Reading.ofOctets document).sound then .regionMissing else .unreadable)) := by
  simp only [Region.canonical, Scan.run_events]
  cases region.find? (Reading.ofOctets document) <;> rfl

/-- The canonical form of a node shows nothing but its events, whatever is closed behind it. -/
theorem text_eq_of_events {listed : List String} {n n' : Node} {name : Name}
    (h : n.events [.stop name] = n'.events [.stop name]) :
    Canonical.text listed n = Canonical.text listed n' := by
  -- a scan that is inside its region when the node begins and leaves it behind the node
  have hrun : ∀ n : Node, Scan.run .document listed ⟨2, false, some 2, none, .empty⟩
      (n.events [.stop name]) = some (Canonical.text listed n ++ ("</" ++ name.text ++ ">")) := by
    intro n
    rw [Scan.run_writing (Nat.le_refl 2) (Nat.le_refl 2)]
    simp [Scan.run, Scan.stop, Scan.write, Canonical.Output.stop, Canonical.Output.empty,
      Canonical.Output.scope, Canonical.text, String.append_assoc]
  have hn := hrun n
  rw [h, hrun n', Option.some.injEq] at hn
  exact (String.append_left_inj _).1 hn.symm

end ImageTrust.Signature
