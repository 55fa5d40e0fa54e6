import Mathlib.Data.Bool.AllAny
import ImageTrust.Proofs.Json.Spelling

/-!
The grammar of JSON text, with blanks wherever they are allowed. Whatever the grammar derives is read as the
tree it derives it for, with no fault, so the choice of blanks is lost in reading. Numbers and strings are
kept as they are written. What the writer makes of a value is a text of the grammar.
-/

namespace ImageTrust.Json

/-- Nothing but blanks. -/
def Blanks (cs : List Char) : Prop :=
  ∀ c ∈ cs, c ∈ [' ', '\n', '\t', '\r']

instance : DecidablePred Blanks := fun cs => List.decidableBAll _ cs

/-- At least one digit, and nothing else. -/
def Digits (ds : List Char) : Prop :=
  ds ≠ [] ∧ ∀ c ∈ ds, c.isDigit = true

/-- The fraction of a number, when it has one. -/
inductive FractionText : List Char → List Char → Prop where
  | none : FractionText [] []
  | some {ds} : Digits ds → FractionText ('.' :: ds) ds

/-- The exponent of a number, when it has one: whether it is negative, and its digits. -/
inductive PowerText : List Char → Option (Bool × List Char) → Prop where
  | none : PowerText [] none
  | unsigned {e ds} : e ∈ ['e', 'E'] → Digits ds → PowerText (e :: ds) (some (false, ds))
  | positive {e ds} : e ∈ ['e', 'E'] → Digits ds → PowerText (e :: '+' :: ds) (some (false, ds))
  | negative {e ds} : e ∈ ['e', 'E'] → Digits ds → PowerText (e :: '-' :: ds) (some (true, ds))

/-- A number. A zero stands before another digit only behind the point or in the exponent. -/
inductive NumberText : List Char → Literal → Prop where
  | mk {negative whole cs fraction ds power} : Digits whole →
    (whole.head? = some '0' → whole = ['0']) → FractionText cs fraction → PowerText ds power →
    NumberText ((if negative then ['-'] else []) ++ (whole ++ (cs ++ ds)))
      ⟨negative, whole, fraction, power⟩

mutual

/-- A value without blanks around it. -/
inductive ValueText : List Char → Source → Prop where
  | nullWord : ValueText ['n', 'u', 'l', 'l'] .null
  | trueWord : ValueText ['t', 'r', 'u', 'e'] (.bool true)
  | falseWord : ValueText ['f', 'a', 'l', 's', 'e'] (.bool false)
  | number {cs n} : NumberText cs n → ValueText cs (.number n)
  | string {raw} : StringText raw → ValueText ('"' :: (raw ++ ['"'])) (.string raw)
  | emptyArray {b} : Blanks b → ValueText ('[' :: (b ++ [']'])) (.array [] .closed)
  | array {cs items} : ItemsText cs items → ValueText ('[' :: (cs ++ [']'])) (.array items .closed)
  | emptyObject {b} : Blanks b → ValueText ('\x7b' :: (b ++ ['\x7d'])) (.object [] .closed)
  | object {cs members} : MembersText cs members →
    ValueText ('\x7b' :: (cs ++ ['\x7d'])) (.object members .closed)

/-- The items of an array, with commas between them. -/
inductive ItemsText : List Char → List Source → Prop where
  | last {b cs b' s} : Blanks b → ValueText cs s → Blanks b' → ItemsText (b ++ (cs ++ b')) [s]
  | more {b cs b' ds s items} : Blanks b → ValueText cs s → Blanks b' → ItemsText ds items →
    ItemsText (b ++ (cs ++ (b' ++ ',' :: ds))) (s :: items)

/-- The members of an object, with commas between them. -/
inductive MembersText : List Char → List (List Char × Source) → Prop where
  | last {b raw b' c cs c' s} : Blanks b → StringText raw → Blanks b' → Blanks c → ValueText cs s →
    Blanks c' →
    MembersText (b ++ '"' :: (raw ++ '"' :: (b' ++ ':' :: (c ++ (cs ++ c'))))) [(raw, s)]
  | more {b raw b' c cs c' ds s members} : Blanks b → StringText raw → Blanks b' → Blanks c →
    ValueText cs s → Blanks c' → MembersText ds members →
    MembersText (b ++ '"' :: (raw ++ '"' :: (b' ++ ':' :: (c ++ (cs ++ (c' ++ ',' :: ds))))))
      ((raw, s) :: members)

end

/-- A whole text: a value with blanks around it. -/
inductive TextOf : List Char → Source → Prop where
  | mk {b cs b' s} : Blanks b → ValueText cs s → Blanks b' → TextOf (b ++ (cs ++ b')) s

section Numbers

variable {cs ds fraction rest : List Char} {power : Option (Bool × List Char)} {n : Literal}

/-- What follows the digits of a number. -/
theorem PowerText.head (h : PowerText ds power) (hrest : EndsNumber rest) :
    ∀ c ∈ (ds ++ rest).head?, c.isDigit = false ∧ c ≠ '.' := by
  have hmark : ∀ e ∈ ['e', 'E'], e.isDigit = false ∧ e ≠ '.' :=
    List.all_iff_forall_prop.1 (by decide)
  cases h with
  | none => exact fun c hc => ⟨(hrest c hc).1, (hrest c hc).2.1⟩
  | unsigned he | positive he | negative he =>
    rintro c hc
    simp only [List.cons_append, List.head?_cons, Option.mem_def, Option.some.injEq] at hc
    exact hc ▸ hmark _ he

theorem FractionText.head (h : FractionText cs fraction)
    (hrest : ∀ c ∈ rest.head?, c.isDigit = false) :
    ∀ c ∈ (cs ++ rest).head?, c.isDigit = false := by
  cases h with
  | none => exact hrest
  | some hds =>
    intro c hc
    simp only [List.cons_append, List.head?_cons, Option.mem_def, Option.some.injEq] at hc
    rw [← hc]
    decide

theorem FractionText.read (h : FractionText cs fraction)
    (hrest : ∀ c ∈ rest.head?, c.isDigit = false ∧ c ≠ '.') :
    readFraction (cs ++ rest) = .ok (fraction, rest) := by
  cases h with
  | none =>
    unfold readFraction
    split
    · rename_i heq
      rw [List.nil_append] at heq
      rw [heq] at hrest
      exact absurd rfl (hrest _ rfl).2
    · rfl
  | some hds =>
    obtain ⟨htake, hdrop⟩ := takeWhile_digits hds.2 fun c hc => (hrest c hc).1
    have hne : fraction.isEmpty = false := by simpa using hds.1
    simp only [List.cons_append, readFraction, htake, hdrop, hne, Bool.false_eq_true, if_false]

theorem PowerText.read (h : PowerText ds power) (hrest : EndsNumber rest) :
    readPower (ds ++ rest) = .ok (power, rest) := by
  have hdigits : ∀ {digits : List Char}, Digits digits →
      (digits ++ rest).takeWhile Char.isDigit = digits
        ∧ (digits ++ rest).dropWhile Char.isDigit = rest ∧ digits.isEmpty = false :=
    fun hds => ⟨(takeWhile_digits hds.2 fun c hc => (hrest c hc).1).1,
      (takeWhile_digits hds.2 fun c hc => (hrest c hc).1).2, by simpa using hds.1⟩
  have hmark : ∀ {e : Char}, e ∈ ['e', 'E'] → (decide (e = 'e') || decide (e = 'E')) = true := by
    simp
  cases h with
  | none =>
    cases rest with
    | nil => rfl
    | cons c rest => simp [readPower, (hrest c rfl).2.2.1, (hrest c rfl).2.2.2]
  | @unsigned e digits he hds =>
    obtain ⟨htake, hdrop, hne⟩ := hdigits hds
    have hsign : ∀ {s behind}, digits ++ rest = s :: behind → s.isDigit = true := by
      intro s behind heq
      obtain ⟨d, more, rfl⟩ := List.exists_cons_of_ne_nil hds.1
      cases heq
      exact hds.2 s List.mem_cons_self
    simp only [List.cons_append, readPower, hmark he, if_true]
    split
    · rename_i heq
      exact absurd (hsign heq) (by decide)
    · rename_i heq
      exact absurd (hsign heq) (by decide)
    · simp only [htake, hdrop, hne, Bool.false_eq_true, if_false]
  | positive he hds =>
    obtain ⟨htake, hdrop, hne⟩ := hdigits hds
    simp only [List.cons_append, readPower, hmark he, if_true, htake, hdrop, hne, Bool.false_eq_true,
      if_false]
  | negative he hds =>
    obtain ⟨htake, hdrop, hne⟩ := hdigits hds
    simp only [List.cons_append, readPower, hmark he, if_true, htake, hdrop, hne, Bool.false_eq_true,
      if_false]

/-- A number behind its sign is read up to where it ends. -/
theorem readNumber_of_text (negative : Bool) {whole : List Char} (hwhole : Digits whole)
    (hzero : whole.head? = some '0' → whole = ['0']) (hcs : FractionText cs fraction)
    (hds : PowerText ds power) (hrest : EndsNumber rest) :
    readNumber negative (whole ++ (cs ++ (ds ++ rest)))
      = .ok (⟨negative, whole, fraction, power⟩, rest) := by
  obtain ⟨htake, hdrop⟩ := takeWhile_digits hwhole.2
    (hcs.head fun c hc => (hds.head hrest c hc).1)
  have hne : whole.isEmpty = false := by simpa using hwhole.1
  have hlong : (decide (whole.length > 1) && decide (whole.head? = some '0')) = false := by
    by_cases hhead : whole.head? = some '0'
    · simp [hzero hhead]
    · simp [hhead]
  simp only [readNumber, htake, hdrop, hne, hlong, hcs.read (hds.head hrest), hds.read hrest, ok_bind,
    Bool.false_eq_true, if_false]
  rfl

end Numbers

section Values

variable {cs rest : List Char} {s : Source} {items : List Source}
  {members : List (List Char × Source)}

theorem skipBlanks_append {b : List Char} (h : Blanks b) (cs : List Char) :
    skipBlanks (b ++ cs) = skipBlanks cs := by
  unfold skipBlanks
  refine List.dropWhile_append_of_pos fun c hc => ?_
  have hblank : ∀ c ∈ [' ', '\n', '\t', '\r'], isJsonBlank c = true :=
    List.all_iff_forall_prop.1 (by decide)
  exact hblank c (h c hc)

/-- What may follow a value: blanks, then a comma or the end of a container or of the text. -/
def Follows (rest : List Char) : Prop :=
  ∀ c ∈ rest.head?, c ∈ [' ', '\n', '\t', '\r', ',', ']', '\x7d']

theorem Follows.endsNumber (h : Follows rest) : EndsNumber rest := by
  have hmarks : ∀ c ∈ [' ', '\n', '\t', '\r', ',', ']', '\x7d'],
      c.isDigit = false ∧ c ≠ '.' ∧ c ≠ 'e' ∧ c ≠ 'E' :=
    List.all_iff_forall_prop.1 (by decide)
  exact fun c hc => hmarks c (h c hc)

theorem Follows.blanks {b : List Char} (hb : Blanks b) (h : Follows rest) : Follows (b ++ rest) := by
  cases b with
  | nil => exact h
  | cons c b =>
    intro d hd
    simp only [List.cons_append, List.head?_cons, Option.mem_def, Option.some.injEq] at hd
    have hc := hb c List.mem_cons_self
    rw [← hd]
    exact List.mem_append_left [',', ']', '\x7d'] hc

theorem NumberText.head {n : Literal} (h : NumberText cs n) :
    ∃ c more, cs = c :: more ∧ (c = '-' ∨ c.isDigit = true) := by
  cases h with
  | @mk negative whole _ _ _ _ hwhole =>
    obtain ⟨d, more, rfl⟩ := List.exists_cons_of_ne_nil hwhole.1
    cases negative with
    | true => exact ⟨'-', _, rfl, .inl rfl⟩
    | false => exact ⟨d, _, rfl, .inr (hwhole.2 d List.mem_cons_self)⟩

/-- A value begins with a character that is no blank and ends no container. -/
theorem ValueText.head (h : ValueText cs s) :
    ∃ c more, cs = c :: more ∧ isJsonBlank c = false ∧ c ≠ ']' ∧ c ≠ '\x7d' := by
  cases h with
  | number h =>
    obtain ⟨c, more, rfl, rfl | hdigit⟩ := h.head
    · exact ⟨_, _, rfl, by decide, by decide, by decide⟩
    · exact ⟨c, more, rfl, not_blank_of_isDigit hdigit, ne_of_isDigit hdigit rfl,
        ne_of_isDigit hdigit rfl⟩
  | _ => exact ⟨_, _, rfl, by decide, by decide, by decide⟩

theorem ValueText.skipBlanks_eq (h : ValueText cs s) {b : List Char} (hb : Blanks b)
    (tail : List Char) : skipBlanks (b ++ (cs ++ tail)) = cs ++ tail := by
  obtain ⟨c, more, rfl, hc, -⟩ := h.head
  rw [skipBlanks_append hb, List.cons_append, skipBlanks_cons hc]

theorem ItemsText.head (h : ItemsText cs items) (tail : List Char) :
    ∃ c more, skipBlanks (cs ++ tail) = c :: more ∧ c ≠ ']' := by
  cases h with
  | last hb hv hb' | more hb hv hb' _ =>
    obtain ⟨c, more, hcs, -, hc, -⟩ := hv.head
    rw [List.append_assoc, List.append_assoc, hv.skipBlanks_eq hb, hcs]
    exact ⟨c, _, rfl, hc⟩

theorem ItemsText.length_pos (h : ItemsText cs items) : 0 < cs.length := by
  cases h with
  | last hb hv hb' | more hb hv hb' _ =>
    obtain ⟨c, more, rfl, -⟩ := hv.head
    simp

theorem MembersText.length_pos (h : MembersText cs members) : 0 < cs.length := by
  cases h <;> simp

theorem MembersText.head (h : MembersText cs members) (tail : List Char) :
    ∃ more, skipBlanks (cs ++ tail) = '"' :: more := by
  cases h with
  | last hb | more hb =>
    rw [List.append_assoc, skipBlanks_append hb, List.cons_append, skipBlanks_cons (by decide)]
    exact ⟨_, rfl⟩

section Steps

variable {fuel : Nat} {b : List Char} {first : Bool}

theorem readItems_closed (hb : Blanks b) :
    readItems (fuel + 1) first (b ++ ']' :: rest) = ([], .closed, some rest) := by
  simp only [readItems, skipBlanks_append hb, skipBlanks_cons (c := ']') (by decide)]

theorem readItems_first {c : Char} {more : List Char} (h : skipBlanks cs = c :: more)
    (hc : c ≠ ']') : readItems (fuel + 1) true cs = readItem fuel (skipBlanks cs) := by
  rw [readItems, h]
  split
  · contradiction
  · rename_i heq
    cases heq
    exact absurd rfl hc
  · rename_i heq
    cases heq
    rfl

theorem readItems_next (hb : Blanks b) {c : Char} {more : List Char}
    (h : skipBlanks cs = c :: more) (hc : c ≠ ']') :
    readItems (fuel + 1) false (b ++ ',' :: cs) = readItem fuel (skipBlanks cs) := by
  simp [readItems, skipBlanks_append hb, skipBlanks_cons, token_not_blank, h]

theorem readMembers_closed (hb : Blanks b) :
    readMembers (fuel + 1) first (b ++ '\x7d' :: rest) = ([], .closed, some rest) := by
  simp only [readMembers, skipBlanks_append hb, skipBlanks_cons (c := '\x7d') (by decide)]

theorem readMembers_first {more : List Char} (h : skipBlanks cs = '"' :: more) :
    readMembers (fuel + 1) true cs = readMember fuel (skipBlanks cs) := by
  simp [readMembers, h]

theorem readMembers_next (hb : Blanks b) {more : List Char} (h : skipBlanks cs = '"' :: more) :
    readMembers (fuel + 1) false (b ++ ',' :: cs) = readMember fuel (skipBlanks cs) := by
  simp [readMembers, skipBlanks_append hb, skipBlanks_cons, token_not_blank, h]

theorem readMember_text {raw b' c tail : List Char} {ending : Ending} {left : Option (List Char)}
    (hraw : StringText raw) (hb' : Blanks b')
    (hv : readValue fuel (c ++ (cs ++ tail)) = (s, some tail))
    (ht : readMembers fuel false tail = (members, ending, left)) :
    readMember (fuel + 1) ('"' :: (raw ++ '"' :: (b' ++ ':' :: (c ++ (cs ++ tail)))))
      = ((raw, s) :: members, ending, left) := by
  simp only [readMember, hraw.read, skipBlanks_append hb', skipBlanks_cons (c := ':') (by decide),
    hv, ht]

end Steps

/-- A comma or the end of a container follows a value, with blanks before it. -/
theorem follows_mark {b : List Char} (hb : Blanks b) {c : Char} (hc : c ∈ [',', ']', '\x7d'])
    (rest : List Char) : Follows (b ++ c :: rest) := by
  refine Follows.blanks hb fun d hd => ?_
  simp only [List.head?_cons, Option.mem_def, Option.some.injEq] at hd
  rw [← hd]
  exact List.mem_append_right [' ', '\n', '\t', '\r'] hc

theorem readValue_number {n : Literal} (h : NumberText cs n) {fuel : Nat} (hrest : EndsNumber rest) :
    readValue (fuel + 1) (cs ++ rest) = (.number n, some rest) := by
  cases h with
  | @mk negative whole fs fraction ds power hwhole hzero hfs hds =>
    have hread := readNumber_of_text negative hwhole hzero hfs hds hrest
    cases negative with
    | true =>
      simp [readValue, skipBlanks_cons, token_not_blank, hread, leaf, Except.map]
    | false =>
      obtain ⟨d, more, rfl⟩ := List.exists_cons_of_ne_nil hwhole.1
      have hdigit := hwhole.2 d List.mem_cons_self
      have hne (c : Char) (hc : c.isDigit = false) : d ≠ c := ne_of_isDigit hdigit hc
      simp only [List.cons_append] at hread
      simp [readValue, skipBlanks_cons (not_blank_of_isDigit hdigit), hne '"' rfl, hne '[' rfl,
        hne '\x7b' rfl, hne 'n' rfl, hne 't' rfl, hne 'f' rfl, hne '-' rfl, hdigit, hread, leaf,
        Except.map]

/-- Adds a blank before the text of a value that is read. -/
theorem readValue_blanks {b : List Char} (hb : Blanks b) (h : ValueText cs s) (fuel : Nat)
    (tail : List Char) : readValue (fuel + 1) (b ++ (cs ++ tail)) = readValue (fuel + 1) (cs ++ tail) := by
  have hskip := h.skipBlanks_eq hb tail
  have hskip' := h.skipBlanks_eq (b := []) nofun tail
  rw [List.nil_append] at hskip'
  simp only [readValue, hskip, hskip']

mutual

/-- A value is read, and what follows it is left. -/
theorem ValueText.read {cs : List Char} {s : Source} (h : ValueText cs s) :
    ∀ fuel {rest}, 3 * cs.length ≤ fuel → Follows rest →
      readValue fuel (cs ++ rest) = (s, some rest) := by
  rintro (_ | fuel) rest hfuel hrest
  · obtain ⟨c, more, rfl, -⟩ := h.head
    simp at hfuel
  · match h with
    | .nullWord | .trueWord | .falseWord =>
      simp [readValue, skipBlanks_cons, token_not_blank, readWord, leaf, Except.map]
    | .number hn => exact readValue_number hn hrest.endsNumber
    | .string hraw =>
      simp [readValue, skipBlanks_cons, token_not_blank, hraw.read, leaf, Except.map]
    | .emptyArray hb =>
      obtain ⟨fuel, rfl⟩ : ∃ left, fuel = left + 1 := ⟨fuel - 1, by simp at hfuel; omega⟩
      simp [readValue, skipBlanks_cons, token_not_blank, readItems_closed hb]
    | .array hitems =>
      obtain ⟨fuel, rfl⟩ : ∃ left, fuel = left + 1 := ⟨fuel - 1, by simp at hfuel; omega⟩
      obtain ⟨c, more, hfirst, hc⟩ := hitems.head (']' :: rest)
      have hread := hitems.read fuel rest (by simp at hfuel; omega)
      simp [readValue, skipBlanks_cons, token_not_blank, readItems_first hfirst hc, hread]
    | .emptyObject hb =>
      obtain ⟨fuel, rfl⟩ : ∃ left, fuel = left + 1 := ⟨fuel - 1, by simp at hfuel; omega⟩
      simp [readValue, skipBlanks_cons, token_not_blank, readMembers_closed hb]
    | .object hmembers =>
      obtain ⟨fuel, rfl⟩ : ∃ left, fuel = left + 1 := ⟨fuel - 1, by simp at hfuel; omega⟩
      obtain ⟨more, hfirst⟩ := hmembers.head ('\x7d' :: rest)
      have hread := hmembers.read fuel rest (by simp at hfuel; omega)
      simp [readValue, skipBlanks_cons, token_not_blank, readMembers_first hfirst, hread]

/-- The items of an array are read up to the bracket that closes it. -/
theorem ItemsText.read {cs : List Char} {items : List Source} (h : ItemsText cs items) :
    ∀ fuel rest, 3 * cs.length + 1 ≤ fuel →
      readItem fuel (skipBlanks (cs ++ ']' :: rest)) = (items, .closed, some rest) := by
  rintro (_ | _ | fuel) rest hfuel
  · omega
  · have hpos := h.length_pos
    omega
  · match h with
    | .last hb hv hb' =>
      rw [List.append_assoc, List.append_assoc, hv.skipBlanks_eq hb]
      exact readItem_of (hv.read _ (by simp at hfuel; omega) (follows_mark hb' (by simp) rest))
        (readItems_closed hb')
    | .more hb hv hb' hmore =>
      obtain ⟨c, more, hnext, hc⟩ := hmore.head (']' :: rest)
      have htail := hmore.read fuel rest (by simp at hfuel; omega)
      simp only [List.append_assoc, List.cons_append]
      rw [hv.skipBlanks_eq hb]
      refine readItem_of (hv.read _ (by simp at hfuel; omega) (follows_mark hb' (by simp) _)) ?_
      rw [readItems_next hb' hnext hc, htail]

theorem MembersText.read {cs : List Char} {members : List (List Char × Source)}
    (h : MembersText cs members) : ∀ fuel rest, 3 * cs.length + 1 ≤ fuel →
      readMember fuel (skipBlanks (cs ++ '\x7d' :: rest)) = (members, .closed, some rest) := by
  rintro (_ | _ | fuel) rest hfuel
  · omega
  · have hpos := h.length_pos
    omega
  · match h with
    | .last hb hraw hb' hc hv hc' =>
      simp only [List.append_assoc, List.cons_append]
      rw [skipBlanks_append hb, skipBlanks_cons (by decide)]
      refine readMember_text hraw hb' ?_ (readMembers_closed hc')
      rw [readValue_blanks hc hv]
      exact hv.read _ (by simp at hfuel; omega) (follows_mark hc' (by simp) rest)
    | .more hb hraw hb' hc hv hc' hmore =>
      obtain ⟨more, hnext⟩ := hmore.head ('\x7d' :: rest)
      have htail := hmore.read fuel rest (by simp at hfuel; omega)
      simp only [List.append_assoc, List.cons_append]
      rw [skipBlanks_append hb, skipBlanks_cons (by decide)]
      refine readMember_text hraw hb' ?_ ((readMembers_next hc' hnext).trans htail)
      rw [readValue_blanks hc hv]
      exact hv.read _ (by simp at hfuel; omega) (follows_mark hc' (by simp) _)

end

/-- A text is read as the tree that the grammar has it for, without a fault. -/
theorem readDocument_of_text (h : TextOf cs s) : readDocument cs = ⟨s, true⟩ := by
  cases h with
  | @mk b cs b' s hb hv hb' =>
    have hread : readValue (3 * (b ++ (cs ++ b')).length + 3) (cs ++ (b' ++ [])) = (s, some (b' ++ [])) :=
      hv.read _ (by simp; omega) (.blanks hb' nofun)
    have hend : skipBlanks b' = [] := by
      rw [← List.append_nil b', skipBlanks_append hb']
      rfl
    rw [List.append_nil] at hread
    simp only [readDocument, readValue_blanks hb hv, hread, Option.getD_some, hend,
      List.isEmpty_nil]

end Values

section Written

variable {escape : Char → List Char}

theorem Blanks.nil : Blanks [] := nofun

theorem numberText_int (n : Int) : NumberText (toString n).toList (Literal.ofInt n) := by
  have hdigits : Digits (Nat.toDigits 10 n.natAbs) :=
    ⟨Nat.toDigits_ne_nil, fun c hc =>
      Nat.isDigit_of_mem_toDigits (b := 10) (by decide) (by decide) hc⟩
  have hzero : (Nat.toDigits 10 n.natAbs).head? = some '0' → Nat.toDigits 10 n.natAbs = ['0'] := by
    intro hhead
    have hshort : ¬ 1 < (Nat.toDigits 10 n.natAbs).length := fun hlong =>
      toDigits_head_ne_zero _ hlong hhead
    generalize Nat.toDigits 10 n.natAbs = ds at hhead hshort
    match ds with
    | [d] => rw [Option.some.inj hhead]
    | _ :: _ :: _ => exact absurd (Nat.le_add_left 2 _) hshort
  have h : NumberText _ (Literal.ofInt n) := .mk hdigits hzero .none .none
  rw [toList_toString_int]
  simpa [Literal.ofInt] using h

mutual

/-- The induction is on the value together with the items and members behind a first one. -/
theorem valueText_render (he : Lossless escape) (v : Json) :
    ValueText (render (quotedWith escape) v) (source escape v) := by
  cases v with
  | null => exact .nullWord
  | bool b =>
    cases b with
    | true => exact .trueWord
    | false => exact .falseWord
  | int n => exact .number (numberText_int n)
  | str s => exact .string (stringText_flatMap he _)
  | arr items =>
    cases items with
    | nil => exact .emptyArray .nil
    | cons item rest =>
      have h := ValueText.array (itemsText_renderItems he (valueText_render he item) rest)
      rwa [List.append_assoc] at h
  | obj members =>
    cases members with
    | nil => exact .emptyObject .nil
    | cons member rest =>
      have h := ValueText.object (membersText_renderMembers he
        (stringText_flatMap he member.1.toList) (valueText_render he member.2) rest)
      rw [render, source, memberSources, quotedWith]
      simpa using h

theorem itemsText_renderItems (he : Lossless escape) {cs : List Char} {s : Source}
    (h : ValueText cs s) (rest : List Json) :
    ItemsText (cs ++ renderItems (quotedWith escape) rest) (s :: sources escape rest) := by
  cases rest with
  | nil => exact .last .nil h .nil
  | cons next rest =>
    exact .more .nil h .nil (itemsText_renderItems he (valueText_render he next) rest)

theorem membersText_renderMembers (he : Lossless escape) {raw cs : List Char} {s : Source}
    (hraw : StringText raw) (h : ValueText cs s) (rest : List (String × Json)) :
    MembersText ('"' :: (raw ++ '"' :: ':' :: (cs ++ renderMembers (quotedWith escape) rest)))
      ((raw, s) :: memberSources escape rest) := by
  cases rest with
  | nil => exact .last .nil hraw .nil .nil h .nil
  | cons next rest =>
    have hnext := membersText_renderMembers he (stringText_flatMap he next.1.toList)
      (valueText_render he next.2) rest
    have hall := MembersText.more .nil hraw .nil .nil h .nil hnext
    rw [renderMembers, memberSources, quotedWith]
    simpa using hall

end

/-- What is written of a value is a text of the grammar. -/
theorem textOf_compact (v : Json) : TextOf v.compact.toList (source escapeChar v) := by
  rw [compact, String.toList_ofList]
  have h := TextOf.mk .nil (valueText_render escaped_escapeChar v) .nil
  rwa [List.nil_append, List.append_nil] at h

end Written

end ImageTrust.Json
