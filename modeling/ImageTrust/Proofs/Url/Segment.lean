import ImageTrust.Proofs.Fallible
import ImageTrust.Proofs.Text.Utf8
import ImageTrust.Url.Parse
import Mathlib.Data.List.TakeWhile

/-!
Segments of paths. A segment that was read is plain: nothing in it is left to encode, it holds no slash
and does not stand for another segment. Plain segments are read as they are, so a path put together of
them is read back, and joining them to a URL appends them.
-/

namespace ImageTrust.Url

/-- A segment that is read as it is written. -/
structure IsPlain (s : String) : Prop where
  allowed : ∀ c ∈ s.toList, inPathSet c = false
  whole : ∀ c ∈ s.toList, isSlash true c = false
  notAbove : isDoubleDot s.toList = false
  notHere : isSingleDot s.toList = false

variable {inSet : Char → Bool} {cs : List Char}

theorem percentEncode_append (cs ds : List Char) :
    percentEncode inSet (cs ++ ds) = percentEncode inSet cs ++ percentEncode inSet ds :=
  List.flatMap_append

theorem percentEncode_of_allowed (h : ∀ c ∈ cs, inSet c = false) : percentEncode inSet cs = cs := by
  induction cs with
  | nil => rfl
  | cons c cs ih =>
    obtain ⟨hc, hcs⟩ := List.forall_mem_cons.1 h
    have hencoded := ih hcs
    unfold percentEncode at hencoded ⊢
    rw [List.flatMap_cons, hc, hencoded]
    rfl

theorem hexDigit_plain : ∀ n < 16,
    inPathSet (hexDigit n) = false ∧ isSlash true (hexDigit n) = false := by
  decide

theorem percentOctet_plain {b : UInt8} {c : Char} (h : c ∈ percentOctet b) :
    inPathSet c = false ∧ isSlash true c = false := by
  have hb := b.toNat_lt
  have hhigh := hexDigit_plain (b.toNat / 16) (by omega)
  have hlow := hexDigit_plain (b.toNat % 16) (by omega)
  simp only [percentOctet, List.mem_cons, List.not_mem_nil, or_false] at h
  rcases h with rfl | rfl | rfl
  · decide
  · exact hhigh
  · exact hlow

theorem mem_percentEncode {c : Char} (h : c ∈ percentEncode inPathSet cs) :
    inPathSet c = false ∧ (isSlash true c = false ∨ c ∈ cs) := by
  obtain ⟨d, hd, hc⟩ := List.mem_flatMap.1 h
  split at hc
  · obtain ⟨b, -, hb⟩ := List.mem_flatMap.1 hc
    exact ⟨(percentOctet_plain hb).1, .inl (percentOctet_plain hb).2⟩
  · rename_i hset
    obtain rfl := List.mem_singleton.1 hc
    exact ⟨by simpa using hset, .inr hd⟩

/-- The forms of segments that stand for another one. -/
def dotForms : List String :=
  ["..", ".%2e", "%2e.", "%2e%2e", ".", "%2e"]

theorem mem_dotForms {segment : List Char}
    (h : isDoubleDot segment = true ∨ isSingleDot segment = true) :
    ∃ dots ∈ dotForms, segment.map Char.toLower = dots.toList := by
  refine ⟨String.ofList (segment.map Char.toLower), ?_, String.toList_ofList.symm⟩
  have hforms : dotForms = ["..", ".%2e", "%2e.", "%2e%2e"] ++ [".", "%2e"] := rfl
  rw [hforms, List.mem_append]
  unfold isDoubleDot isSingleDot at h
  exact h.imp List.contains_iff_mem.1 List.contains_iff_mem.1

/-- The only octet that such a form can have encoded is that of the dot. -/
theorem dotForms_octet : ∀ n < 256, ∀ dots ∈ dotForms,
    (percentOctet (UInt8.ofNat n)).map Char.toLower <:+: dots.toList → n = 46 := by
  decide +kernel

theorem octet_of_dots {b : UInt8} {before after : List Char}
    (h : isDoubleDot (before ++ percentOctet b ++ after) = true
      ∨ isSingleDot (before ++ percentOctet b ++ after) = true) : b.toNat = 46 := by
  obtain ⟨dots, hdots, hform⟩ := mem_dotForms h
  refine dotForms_octet b.toNat b.toNat_lt dots hdots ?_
  rw [UInt8.ofNat_toNat, ← hform]
  exact ⟨before.map Char.toLower, after.map Char.toLower, by simp⟩

theorem head_octet (c : Char) :
    ∃ b rest, String.utf8EncodeChar c = b :: rest ∧ (b.toNat = 46 → c = '.') := by
  rw [Text.utf8EncodeChar_eq]
  unfold Text.octetsOf
  have hoctet := @Text.toNat_octet
  split
  · refine ⟨_, _, rfl, fun h => ?_⟩
    rw [hoctet (by omega)] at h
    exact Char.toNat_inj.1 h
  · split
    · refine ⟨_, _, rfl, fun h => ?_⟩
      rw [hoctet (by omega)] at h
      omega
    · split
      · refine ⟨_, _, rfl, fun h => ?_⟩
        rw [hoctet (by omega)] at h
        omega
      · refine ⟨_, _, rfl, fun h => ?_⟩
        rw [hoctet (by omega)] at h
        omega

/-- Encoding makes no dots, so what stands for another segment was not changed by it. -/
theorem percentEncode_of_dots (h : isDoubleDot (percentEncode inPathSet cs) = true
    ∨ isSingleDot (percentEncode inPathSet cs) = true) : percentEncode inPathSet cs = cs := by
  refine percentEncode_of_allowed fun c hc => ?_
  by_contra hset
  rw [Bool.not_eq_false] at hset
  -- a character that was encoded has left its first octet behind, which only a dot could have
  obtain ⟨before, after, rfl⟩ := List.append_of_mem hc
  obtain ⟨b, rest, hb, hdot⟩ := head_octet c
  have hsplit : percentEncode inPathSet (before ++ c :: after)
      = percentEncode inPathSet before ++ percentOctet b
        ++ (rest.flatMap percentOctet ++ percentEncode inPathSet after) := by
    rw [percentEncode_append]
    unfold percentEncode
    rw [List.flatMap_cons, hset, if_pos rfl, hb, List.flatMap_cons]
    simp only [List.append_assoc]
  rw [hsplit] at h
  obtain rfl := hdot (octet_of_dots h)
  exact absurd hset (by decide)

theorem IsPlain.empty : IsPlain "" where
  allowed := by simp
  whole := by simp
  notAbove := rfl
  notHere := rfl

theorem isPlain_encoded (hwhole : ∀ c ∈ cs, isSlash true c = false)
    (hd : isDoubleDot cs = false) (hs : isSingleDot cs = false) :
    IsPlain (String.ofList (percentEncode inPathSet cs)) := by
  constructor
  · rw [String.toList_ofList]
    exact fun c hc => (mem_percentEncode hc).1
  · rw [String.toList_ofList]
    exact fun c hc => (mem_percentEncode hc).2.elim id (hwhole c)
  · rw [String.toList_ofList]
    by_contra h
    rw [Bool.not_eq_false] at h
    rw [percentEncode_of_dots (.inl h), hd] at h
    cases h
  · rw [String.toList_ofList]
    by_contra h
    rw [Bool.not_eq_false] at h
    rw [percentEncode_of_dots (.inr h), hs] at h
    cases h

theorem resolve_isPlain {above : List String} {pieces : List (List Char)}
    (ha : ∀ s ∈ above, IsPlain s) (hp : ∀ p ∈ pieces, ∀ c ∈ p, isSlash true c = false) :
    ∀ s ∈ resolve above pieces, IsPlain s := by
  have hdrop : ∀ above : List String, (∀ s ∈ above, IsPlain s) → ∀ s ∈ above.drop 1, IsPlain s :=
    fun above ha s hs => ha s (List.mem_of_mem_drop hs)
  induction pieces generalizing above with
  | nil => simpa [resolve] using ha
  | cons p rest ih =>
    obtain ⟨hwhole, hrest⟩ := List.forall_mem_cons.1 hp
    cases hd : isDoubleDot p with
    | true =>
      cases rest with
      | nil => simpa [resolve, hd, IsPlain.empty, or_imp, forall_and] using hdrop above ha
      | cons q rest =>
        simp only [resolve, hd, if_true]
        exact ih (hdrop above ha) hrest
    | false =>
      cases hs : isSingleDot p with
      | true =>
        cases rest with
        | nil => simpa [resolve, hd, hs, IsPlain.empty, or_imp, forall_and] using ha
        | cons q rest =>
          simp only [resolve, hd, hs, if_true, Bool.false_eq_true, if_false]
          exact ih ha hrest
      | false =>
        have hplain := isPlain_encoded hwhole hd hs
        have ha' : ∀ s ∈ String.ofList (percentEncode inPathSet p) :: above, IsPlain s :=
          List.forall_mem_cons.2 ⟨hplain, ha⟩
        cases rest with
        | nil => simpa [resolve, hd, hs] using fun s hs => ha' s (by simpa [or_comm] using hs)
        | cons q rest =>
          simp only [resolve, hd, hs, Bool.false_eq_true, if_false]
          exact ih ha' hrest

theorem resolve_ne_nil {pieces : List (List Char)} (h : pieces ≠ []) (above : List String) :
    resolve above pieces ≠ [] := by
  induction pieces generalizing above with
  | nil => exact absurd rfl h
  | cons p rest ih =>
    cases rest with
    | nil =>
      rw [resolve, Ne, List.reverse_eq_nil_iff]
      split
      · exact List.cons_ne_nil _ _
      · split <;> exact List.cons_ne_nil _ _
    | cons q rest =>
      rw [resolve]
      · split
        · exact ih (List.cons_ne_nil _ _) _
        · split
          · exact ih (List.cons_ne_nil _ _) _
          · exact ih (List.cons_ne_nil _ _) _
      · simp

theorem resolve_plain {names above : List String} (h : ∀ s ∈ names, IsPlain s) :
    resolve above (names.map String.toList) = above.reverse ++ names := by
  induction names generalizing above with
  | nil => simp [resolve]
  | cons s rest ih =>
    obtain ⟨hs, hrest⟩ := List.forall_mem_cons.1 h
    have hkept : String.ofList (percentEncode inPathSet s.toList) = s := by
      rw [percentEncode_of_allowed hs.allowed, String.ofList_toList]
    cases rest with
    | nil => simp [resolve, hs.notAbove, hs.notHere, hkept]
    | cons t rest =>
      have hrec : resolve (s :: above) ((t :: rest).map String.toList)
          = (s :: above).reverse ++ t :: rest := ih hrest
      rw [List.map_cons] at hrec
      simp only [List.map_cons, resolve, hs.notAbove, hs.notHere, hkept, hrec, Bool.false_eq_true,
        if_false, List.reverse_cons, List.append_assoc, List.singleton_append]

theorem splitPath_append {piece rest : List Char} (h : ∀ c ∈ cs, isSlash true c = false) :
    splitPath true piece (cs ++ rest) = splitPath true (cs.reverse ++ piece) rest := by
  induction cs generalizing piece with
  | nil => rfl
  | cons c cs ih =>
    obtain ⟨hc, hcs⟩ := List.forall_mem_cons.1 h
    rw [List.cons_append, splitPath, hc, if_neg Bool.false_ne_true, ih hcs, List.reverse_cons,
      List.append_assoc, List.singleton_append]

theorem splitPath_whole {piece : List Char} (h : ∀ c ∈ piece, isSlash true c = false) :
    ∀ p ∈ splitPath true piece cs, ∀ c ∈ p, isSlash true c = false := by
  induction cs generalizing piece with
  | nil => simpa [splitPath] using h
  | cons c cs ih =>
    rw [splitPath]
    split
    · exact List.forall_mem_cons.2 ⟨by simpa using h, ih nofun⟩
    · rename_i hc
      exact ih (List.forall_mem_cons.2 ⟨by simpa using hc, h⟩)

theorem splitPath_ne_nil {piece : List Char} : splitPath true piece cs ≠ [] := by
  induction cs generalizing piece with
  | nil => exact List.cons_ne_nil _ _
  | cons c cs ih =>
    rw [splitPath]
    split
    · exact List.cons_ne_nil _ _
    · exact ih

theorem splitPath_intercalate {pieces : List (List Char)} (hne : pieces ≠ [])
    (h : ∀ p ∈ pieces, ∀ c ∈ p, isSlash true c = false) :
    splitPath true [] (['/'].intercalate pieces) = pieces := by
  induction pieces with
  | nil => exact absurd rfl hne
  | cons p rest ih =>
    obtain ⟨hp, hrest⟩ := List.forall_mem_cons.1 h
    cases rest with
    | nil =>
      have happend : splitPath true [] (p ++ []) = splitPath true (p.reverse ++ []) [] :=
        splitPath_append hp
      simpa [splitPath] using happend
    | cons q rest =>
      have hslash : isSlash true '/' = true := by decide
      rw [List.intercalate_cons_cons, List.append_assoc, splitPath_append hp, List.singleton_append,
        splitPath, hslash, if_pos rfl, ih (List.cons_ne_nil _ _) hrest, List.append_nil,
        List.reverse_reverse]

/-- The text of segments with slashes between them. -/
def slashed (names : List String) : List Char :=
  ['/'].intercalate (names.map String.toList)

theorem slashed_cons {s : String} {names : List String} (hne : names ≠ []) :
    slashed (s :: names) = s.toList ++ '/' :: slashed names := by
  obtain ⟨t, rest, rfl⟩ := List.exists_cons_of_ne_nil hne
  unfold slashed
  rw [List.map_cons, List.map_cons, List.intercalate_cons_cons, List.append_assoc,
    List.singleton_append]

theorem readPath_plain {names above : List String} (hne : names ≠ [])
    (h : ∀ s ∈ names, IsPlain s) :
    readPath true above (slashed names) = .segments (above.reverse ++ names) := by
  have hpieces : ∀ p ∈ names.map String.toList, ∀ c ∈ p, isSlash true c = false := by
    intro p hp
    obtain ⟨s, hs, rfl⟩ := List.mem_map.1 hp
    exact (h s hs).whole
  unfold readPath slashed
  rw [splitPath_intercalate (by simpa using hne) hpieces, resolve_plain h]

theorem readPathStart_isPlain (cs : List Char) : ∃ names, names ≠ []
    ∧ readPathStart true cs = .segments names ∧ ∀ s ∈ names, IsPlain s := by
  unfold readPathStart
  cases cs with
  | nil => exact ⟨[""], List.cons_ne_nil _ _, rfl, by simpa using IsPlain.empty⟩
  | cons c rest =>
    exact ⟨_, resolve_ne_nil splitPath_ne_nil _, rfl,
      resolve_isPlain nofun (splitPath_whole nofun)⟩

theorem segments?_of_path {u : Url} {names : List String} (h : u.path = .segments names)
    (hne : names ≠ []) : u.segments? = some names := by
  obtain ⟨s, rest, rfl⟩ := List.exists_cons_of_ne_nil hne
  unfold segments?
  rw [h]

def HasReadPath (scheme : String) (u : Url) : Prop :=
  u.scheme = scheme ∧ ∃ rest, u.path = readPathStart (isSpecialScheme scheme) rest

theorem readAuthority_path (scheme : String) (cs : List Char) :
    Yields (HasReadPath scheme) (readAuthority scheme cs) := by
  unfold readAuthority
  -- the steps may fail or branch, and the last one makes the same URL on every branch
  repeat' first
    | exact .pure ⟨rfl, _, rfl⟩
    | refine .bind fun _ => ?_
    | refine .ite ?_ ?_
    | split

theorem readFile_scheme (cs : List Char) : Yields (fun u => u.scheme = "file") (readFile cs) := by
  unfold readFile
  dsimp only
  repeat' first
    | exact .pure rfl
    | refine .bind fun _ => ?_
    | refine .ite ?_ ?_
    | split

theorem readPlain_scheme (scheme : String) (cs : List Char) :
    Yields (fun u => u.scheme = scheme) (readPlain scheme cs) := by
  unfold readPlain
  split
  · exact fun u hu => (readAuthority_path scheme _ u hu).1
  · exact .pure rfl

/-- What is read of a text whose scheme names a host. -/
theorem ofText_authority {text : String} {u : Url} (h : ofText text = .ok u)
    (hspecial : u.isSpecial = true) (hfile : u.scheme ≠ "file") :
    ∃ scheme rest, scheme? (cleaned text) = some (scheme, rest) ∧ isSpecialScheme scheme = true
      ∧ readAuthority scheme (rest.dropWhile (isSlash true)) = .ok u := by
  unfold ofText at h
  dsimp only at h
  split at h
  · cases h
  · rename_i scheme rest hrest
    split at h
    · exact absurd (readFile_scheme _ _ h) hfile
    · split at h
      · rename_i hscheme
        exact ⟨scheme, rest, hrest, hscheme, h⟩
      · rename_i hscheme
        have hplain : u.scheme = scheme := readPlain_scheme _ _ _ h
        unfold isSpecial at hspecial
        rw [hplain] at hspecial
        exact absurd hspecial hscheme

theorem ofText_path {text : String} {u : Url} (h : ofText text = .ok u)
    (hspecial : u.isSpecial = true) (hfile : u.scheme ≠ "file") :
    ∃ rest, u.path = readPathStart true rest := by
  obtain ⟨scheme, rest, -, hscheme, hread⟩ := ofText_authority h hspecial hfile
  obtain ⟨-, path, hpath⟩ := readAuthority_path _ _ _ hread
  exact ⟨path, hscheme ▸ hpath⟩

/-- A URL of a scheme that names a host has at least one segment, and each is plain. -/
theorem ofText_segments {text : String} {u : Url} (h : ofText text = .ok u)
    (hspecial : u.isSpecial = true) (hfile : u.scheme ≠ "file") :
    ∃ names, names ≠ [] ∧ u.path = .segments names ∧ ∀ s ∈ names, IsPlain s := by
  obtain ⟨rest, hpath⟩ := ofText_path h hspecial hfile
  rw [hpath]
  exact readPathStart_isPlain rest

theorem https?_eq_some_iff {text : String} {u : Url} :
    https? text = some u ↔ ofText text = .ok u ∧ u.scheme = "https" := by
  unfold https?
  cases ofText text with
  | error fault => simp
  | ok v =>
    simp only [Option.ite_none_right_eq_some, Option.some.injEq, Except.ok.injEq]
    constructor
    · rintro ⟨hs, rfl⟩
      exact ⟨rfl, hs⟩
    · rintro ⟨rfl, hs⟩
      exact ⟨hs, rfl⟩

theorem https?_path {text : String} {u : Url} (h : https? text = some u) :
    ∃ names, names ≠ [] ∧ u.path = .segments names ∧ ∀ s ∈ names, IsPlain s := by
  obtain ⟨hread, hscheme⟩ := https?_eq_some_iff.1 h
  have hspecial : u.isSpecial = true := by
    unfold isSpecial
    rw [hscheme]
    decide
  refine ofText_segments hread hspecial ?_
  rw [hscheme]
  decide

theorem IsPlain.visible {s : String} (h : IsPlain s) :
    ∀ c ∈ s.toList, 0x20 < c.toNat ∧ c ≠ '#' ∧ c ≠ '?' := by
  intro c hc
  have hset := h.allowed c hc
  refine ⟨?_, ?_, ?_⟩
  · simp [inPathSet, inFragmentSet, isControl] at hset
    have hspace : c ≠ ' ' := hset.1.2.1
    have hne : c.toNat ≠ 0x20 := fun h => hspace (Char.toNat_inj.1 h)
    omega
  · rintro rfl
    exact absurd hset (by decide)
  · rintro rfl
    exact absurd hset (by decide)

theorem dropWhile_of_visible (h : ∀ c ∈ cs, 0x20 < c.toNat) :
    cs.dropWhile (fun c => c.toNat ≤ 0x20) = cs := by
  rw [List.dropWhile_eq_self_iff]
  intro hl
  simpa using h _ (List.getElem_mem hl)

theorem filter_of_visible (h : ∀ c ∈ cs, 0x20 < c.toNat) :
    cs.filter (fun c => c != '\t' && c != '\n' && c != '\r') = cs := by
  rw [List.filter_eq_self]
  intro c hc
  have hvisible := h c hc
  have hne : ∀ d : Char, d.toNat ≤ 0x20 → c ≠ d := by
    rintro d hd rfl
    omega
  simp [hne]

theorem cleaned_of_visible {s : String} (h : ∀ c ∈ s.toList, 0x20 < c.toNat) :
    cleaned s = s.toList := by
  have hback : ∀ c ∈ s.toList.reverse, 0x20 < c.toNat :=
    fun c hc => h c (List.mem_reverse.1 hc)
  unfold cleaned
  dsimp only
  rw [dropWhile_of_visible h, dropWhile_of_visible hback, List.reverse_reverse, filter_of_visible h]

theorem splitMark_of_notMem {mark : Char} (h : mark ∉ cs) : splitMark mark cs = (cs, none) := by
  have hnone : cs.dropWhile (· != mark) = [] := by
    rw [List.dropWhile_eq_nil_iff]
    intro c hc
    simpa using fun hm : c = mark => h (hm ▸ hc)
  unfold splitMark
  rw [hnone]

theorem ofChars_of_notMem {special : Bool} (hf : '#' ∉ cs) (hq : '?' ∉ cs) :
    Tail.ofChars special cs = ⟨cs, none, none⟩ := by
  unfold Tail.ofChars
  rw [splitMark_of_notMem hf]
  dsimp only
  rw [splitMark_of_notMem hq]
  rfl

theorem slashed_visible {names : List String} (h : ∀ s ∈ names, IsPlain s) :
    ∀ c ∈ slashed names, 0x20 < c.toNat ∧ c ≠ '#' ∧ c ≠ '?' := by
  induction names with
  | nil => nofun
  | cons s names ih =>
    obtain ⟨hs, hnames⟩ := List.forall_mem_cons.1 h
    rcases eq_or_ne names [] with rfl | hne
    · simpa [slashed] using hs.visible
    · rw [slashed_cons hne]
      intro c hc
      rcases List.mem_append.1 hc with hc | hc
      · exact hs.visible c hc
      · rcases List.mem_cons.1 hc with rfl | hc
        · decide
        · exact ih hnames c hc

theorem join_plain {u : Url} {front names : List String} {last relative : String}
    (hspecial : u.isSpecial = true) (hpath : u.path = .segments (front ++ [last]))
    (hne : names ≠ []) (hnames : ∀ s ∈ names, IsPlain s)
    (hrelative : relative.toList = slashed names) :
    u.join relative
      = .ok { u with path := .segments (front ++ names), query := none, fragment := none } := by
  have hvisible := slashed_visible hnames
  rw [← hrelative] at hvisible
  unfold join
  rw [hpath]
  dsimp only
  rw [cleaned_of_visible fun c hc => (hvisible c hc).1,
    ofChars_of_notMem (fun h => (hvisible _ h).2.1 rfl) (fun h => (hvisible _ h).2.2 rfl), hspecial]
  dsimp only
  rw [hrelative, readPath_plain hne hnames]
  simp

/-- A URL with a text in place of its path, which is read anew. -/
def setPath (u : Url) (text : String) : Url :=
  let kept := text.toList.filter fun c => c != '\t' && c != '\n' && c != '\r'
  { u with path := readPathStart u.isSpecial kept }

/-- A path that is written with a slash behind each of its plain segments ends in an empty one. -/
theorem setPath_plain {u : Url} {names : List String} (hspecial : u.isSpecial = true)
    (h : ∀ s ∈ names, IsPlain s) :
    u.setPath ("/" ++ String.join (names.map (· ++ "/")))
      = { u with path := .segments (names ++ [""]) } := by
  have htext : ∀ names : List String,
      (String.join (names.map (· ++ "/"))).toList = slashed (names ++ [""]) := by
    intro names
    induction names with
    | nil => rfl
    | cons s names ih =>
      rw [List.map_cons, String.join_cons, String.toList_append, ih, List.cons_append,
        slashed_cons (by simp), String.toList_append, List.append_assoc]
      rfl
  have hplain : ∀ s ∈ names ++ [""], IsPlain s := by
    simpa [or_imp, forall_and, IsPlain.empty] using h
  have hvisible : ∀ c ∈ '/' :: slashed (names ++ [""]), 0x20 < c.toNat :=
    List.forall_mem_cons.2 ⟨by decide, fun c hc => (slashed_visible hplain c hc).1⟩
  have hslash : ("/" : String).toList = ['/'] := rfl
  unfold setPath
  dsimp only
  rw [String.toList_append, htext, hslash, List.singleton_append, filter_of_visible hvisible,
    hspecial, readPathStart, if_pos (by decide), readPath_plain (by simp) hplain]
  rfl

end ImageTrust.Url
