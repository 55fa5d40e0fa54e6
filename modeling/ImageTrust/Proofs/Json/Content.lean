import Mathlib.Logic.Relation
import ImageTrust.Json.Decode
import ImageTrust.Proofs.Json.Grammar

/-!
What a document says, apart from how it is written. Strings may be escaped in different ways, members may
come in any order, and members that no reader knows may be left out when their values are plain. Which
members are known depends on the place in the document. A decoder depends on the content alone when no
such change makes a difference to it; this holds of what reads one value, and of lists if it holds of
their items.
-/

namespace ImageTrust.Json

/-- Which members are known at the places of a document. -/
inductive Schema where
  /-- No member is known here, and none below. -/
  | any
  | list (item : Schema)
  | record (members : List (String × Schema))

/-- The known members of an object. -/
def Schema.names : Schema → List String
  | .record members => members.map Prod.fst
  | _ => []

/-- What is known inside a member. -/
def Schema.member : Schema → String → Schema
  | .record members, name => (members.lookup name).getD .any
  | _, _ => .any

theorem Schema.member_record (members : List (String × Schema)) (name : String) :
    (Schema.record members).member name = (members.lookup name).getD .any :=
  rfl

/-- What is known inside an item. A record may be written as an array, its members in order. -/
def Schema.item : Schema → Nat → Schema
  | .record members, index => (members[index]?.map Prod.snd).getD .any
  | .list item, _ => item
  | .any, _ => .any

/-- The values that a member may have to be left out. -/
inductive Plain : Source → Prop where
  | null : Plain .null
  | bool (b) : Plain (.bool b)
  | string {raw cs} : Spells raw cs → Plain (.string raw)

/-- One change that leaves the content of a document as it is. A member is changed at the front of its
object, where the order may bring any member. -/
inductive Change : Schema → Source → Source → Prop where
  | spelling {sh raw raw' cs} : Spells raw cs → Spells raw' cs →
    Change sh (.string raw) (.string raw')
  | item {sh before s t after} : Change (sh.item before.length) s t →
    Change sh (.array (before ++ s :: after) .closed) (.array (before ++ t :: after) .closed)
  | value {sh key s t rest} {name : String} : Spells key name.toList → Change (sh.member name) s t →
    Change sh (.object ((key, s) :: rest) .closed) (.object ((key, t) :: rest) .closed)
  /-- A key that spells nothing has no name. -/
  | nameless {sh key s t rest} : (∀ cs, ¬ Spells key cs) → Change .any s t →
    Change sh (.object ((key, s) :: rest) .closed) (.object ((key, t) :: rest) .closed)
  | key {sh key key' cs s rest} : Spells key cs → Spells key' cs →
    Change sh (.object ((key, s) :: rest) .closed) (.object ((key', s) :: rest) .closed)
  | order {sh members members'} : members.Perm members' →
    Change sh (.object members .closed) (.object members' .closed)
  | extra {sh key s members} {name : String} : Spells key name.toList → name ∉ sh.names → Plain s →
    Change sh (.object members .closed) (.object ((key, s) :: members) .closed)

/-- Documents with the same content: some changes lead from one to the other. -/
def SameContent (sh : Schema) : Source → Source → Prop :=
  Relation.EqvGen (Change sh)

/-- A decoder that depends on the content of a document alone. -/
def Respects {α : Type} (sh : Schema) (d : Decoder α) : Prop :=
  ∀ p s t, SameContent sh s t → (d p s).toOption = (d p t).toOption

theorem Respects.of_change {α : Type} {sh : Schema} {d : Decoder α}
    (h : ∀ p s t, Change sh s t → (d p s).toOption = (d p t).toOption) : Respects sh d := by
  intro p s t hsame
  induction hsame with
  | rel s t hchange => exact h p s t hchange
  | refl s => rfl
  | symm s t _ ih => exact ih.symm
  | trans s t u _ _ hst htu => exact hst.trans htu

theorem Respects.ok_iff {α : Type} {sh : Schema} {d : Decoder α} (h : Respects sh d) (p : Place)
    {s t : Source} (hsame : SameContent sh s t) {a : α} : d p s = .ok a ↔ d p t = .ok a := by
  rw [← toOption_eq_some_iff, h p s t hsame, toOption_eq_some_iff]

/-- A check that no change makes a difference to. -/
theorem Respects.of_check {sh : Schema} {check : Decoder Unit}
    (h : ∀ p s t, Change sh s t → (check p s = .ok () ↔ check p t = .ok ())) : Respects sh check := by
  refine .of_change fun p s t hchange => Option.ext fun a => ?_
  rw [toOption_eq_some_iff, toOption_eq_some_iff]
  exact h p s t hchange

theorem textOf_ok_iff {raw : List Char} {s : String} : textOf raw = .ok s ↔ Spells raw s.toList := by
  rw [← textOf?_eq_some_iff]
  unfold textOf
  cases Source.textOf? raw <;> simp

theorem textOf_of_spells {raw cs : List Char} (h : Spells raw cs) :
    textOf raw = .ok (String.ofList cs) :=
  textOf_ok_iff.2 (by rwa [String.toList_ofList])

/-- A string that spells something has the text of every other spelling. -/
theorem textOf_eq_of_spells {raw raw' cs : List Char} (h : Spells raw cs) (h' : Spells raw' cs) :
    textOf raw = textOf raw' :=
  (textOf_of_spells h).trans (textOf_of_spells h').symm

/-- Two members with one name, or without any, and the same content under that name. -/
structure MemberAlike (sh : Schema) (m m' : List Char × Source) : Prop where
  name : textOf m.1 = textOf m'.1
  content : ∀ name, textOf m.1 = .ok name → SameContent (sh.member name) m.2 m'.2

/-- How one object comes from another: a member changes, members change places, or an unknown one is
added. -/
inductive ObjectChange (sh : Schema) : List (List Char × Source) → List (List Char × Source) → Prop where
  | member {m m' rest} : MemberAlike sh m m' → ObjectChange sh (m :: rest) (m' :: rest)
  | order {found found'} : found.Perm found' → ObjectChange sh found found'
  | extra {m found} {name : String} : Spells m.1 name.toList → name ∉ sh.names → Plain m.2 →
    ObjectChange sh found (m :: found)

theorem Change.object {sh : Schema} {found : List (List Char × Source)} {t : Source}
    (h : Change sh (.object found .closed) t) :
    ∃ found', t = .object found' .closed ∧ ObjectChange sh found found' := by
  cases h with
  | value hkey h =>
    refine ⟨_, rfl, .member ⟨rfl, fun other hother => ?_⟩⟩
    obtain rfl := ok_unique (textOf_ok_iff.2 hkey) hother
    exact .rel _ _ h
  | nameless hkey h =>
    exact ⟨_, rfl, .member ⟨rfl, fun name hname => absurd (textOf_ok_iff.1 hname) (hkey _)⟩⟩
  | key hkey hkey' =>
    exact ⟨_, rfl, .member ⟨textOf_eq_of_spells hkey hkey', fun _ _ => .refl _⟩⟩
  | order h => exact ⟨_, rfl, .order h⟩
  | extra hkey hnew hplain => exact ⟨_, rfl, .extra hkey hnew hplain⟩

/-- It is enough to know that a decoder depends on the content of strings, of the items of arrays, and of
objects. -/
theorem Respects.of_kinds {α : Type} {sh : Schema} {d : Decoder α}
    (hstring : ∀ p raw raw' cs, Spells raw cs → Spells raw' cs →
      (d p (.string raw)).toOption = (d p (.string raw')).toOption)
    (harray : ∀ p before s t after, Change (sh.item before.length) s t →
      (d p (.array (before ++ s :: after) .closed)).toOption
        = (d p (.array (before ++ t :: after) .closed)).toOption)
    (hobject : ∀ p found found', ObjectChange sh found found' →
      (d p (.object found .closed)).toOption = (d p (.object found' .closed)).toOption) :
    Respects sh d := by
  refine .of_change fun p s t h => ?_
  cases s with
  | object found ending =>
    obtain rfl : ending = .closed := by cases h <;> rfl
    obtain ⟨found', rfl, hchange⟩ := h.object
    exact hobject p found found' hchange
  | string raw =>
    cases h with
    | spelling hraw hraw' => exact hstring p _ _ _ hraw hraw'
  | array found ending =>
    cases h with
    | item hitem => exact harray p _ _ _ _ hitem
  | _ => cases h

section Leaves

variable {α : Type} {sh : Schema}

theorem refuse_toOption (expected : String) (s : Source) :
    (refuse expected s : Except Flaw α).toOption = none := by
  cases s with
  | number n =>
    unfold refuse
    dsimp only
    cases n.numeral <;> rfl
  | string raw =>
    unfold refuse
    dsimp only
    rw [toOption_bind]
    cases (textOf raw).toOption <;> rfl
  | _ => rfl

theorem not_ok_of_refuse {expected : String} {s : Source} {a : α} (h : refuse expected s = .ok a) :
    False := by
  rw [← toOption_eq_some_iff, refuse_toOption] at h
  cases h

theorem text_respects : Respects sh text := by
  refine .of_change fun p s t h => ?_
  cases h with
  | spelling h h' => exact congrArg Except.toOption (textOf_eq_of_spells h h')
  | _ => rfl

theorem boolean_respects : Respects sh boolean := by
  refine .of_change fun p s t h => ?_
  cases h with
  | @spelling _ raw raw' =>
    exact (refuse_toOption "a boolean" (.string raw)).trans
      (refuse_toOption "a boolean" (.string raw')).symm
  | _ => rfl

/-- A change makes no null and removes none. -/
theorem Change.ne_null {s t : Source} (h : Change sh s t) : s ≠ .null ∧ t ≠ .null := by
  cases h <;> exact ⟨nofun, nofun⟩

theorem optional_of_ne_null {d : Decoder α} {p : Place} {s : Source} (h : s ≠ .null) :
    optional d p s = (d p s).map some := by
  cases s <;> first | rfl | exact absurd rfl h

theorem optional_respects {d : Decoder α} (h : Respects sh d) : Respects sh (optional d) := by
  refine .of_change fun p s t hchange => ?_
  obtain ⟨hs, ht⟩ := hchange.ne_null
  rw [optional_of_ne_null hs, optional_of_ne_null ht, toOption_map, toOption_map,
    h p s t (.rel s t hchange)]

end Leaves

section Skipped

variable {sh : Schema} {s t : Source} {p : Place}

theorem skipItems_ok_iff {found : List Source} :
    skipItems found = .ok () ↔ ∀ s ∈ found, skip s = .ok () := by
  induction found with
  | nil => simp [skipItems]
  | cons s rest ih => rw [skipItems, check_bind_ok_iff, ih, List.forall_mem_cons]

theorem skipMembers_ok_iff {members : List (List Char × Source)} :
    skipMembers members = .ok () ↔ ∀ m ∈ members, skip m.2 = .ok () := by
  induction members with
  | nil => simp [skipMembers]
  | cons m rest ih => rw [skipMembers, check_bind_ok_iff, ih, List.forall_mem_cons]

theorem skip_array_iff {found : List Source} :
    skip (.array found .closed) = .ok () ↔ ∀ s ∈ found, skip s = .ok () := by
  rw [skip, check_bind_ok_iff, skipItems_ok_iff]
  exact and_iff_left rfl

theorem skip_object_iff {members : List (List Char × Source)} :
    skip (.object members .closed) = .ok () ↔ ∀ m ∈ members, skip m.2 = .ok () := by
  rw [skip, check_bind_ok_iff, skipMembers_ok_iff]
  exact and_iff_left rfl

theorem Plain.skip (h : Plain s) : Json.skip s = .ok () := by
  cases h <;> rfl

theorem Change.skip_iff (h : Change sh s t) : skip s = .ok () ↔ skip t = .ok () := by
  induction h with
  | spelling => exact Iff.rfl
  | item _ ih => simp only [skip_array_iff, List.forall_mem_append, List.forall_mem_cons, ih]
  | value _ _ ih => simp [skip_object_iff, ih]
  | nameless _ _ ih => simp [skip_object_iff, ih]
  | key => simp [skip_object_iff]
  | order hperm => simp only [skip_object_iff, hperm.mem_iff]
  | extra _ _ hplain => simp [skip_object_iff, hplain.skip]

theorem skip_respects : Respects sh fun _ => Json.skip :=
  .of_check fun _ _ _ h => h.skip_iff

theorem bufferItems_ok_iff {found : List Source} :
    bufferItems p found = .ok () ↔ ∀ s ∈ found, buffer p s = .ok () := by
  induction found with
  | nil => simp [bufferItems]
  | cons s rest ih => rw [bufferItems, check_bind_ok_iff, ih, List.forall_mem_cons]

theorem bufferMembers_ok_iff {members : List (List Char × Source)} : bufferMembers p members = .ok ()
    ↔ ∀ m ∈ members, (∃ name, textOf m.1 = .ok name) ∧ buffer p m.2 = .ok () := by
  induction members with
  | nil => simp [bufferMembers]
  | cons m rest ih =>
    rw [bufferMembers, bind_ok_iff, List.forall_mem_cons, ← ih]
    simp only [check_bind_ok_iff, exists_and_right, and_assoc]

theorem buffer_array_iff {found : List Source} : buffer p (.array found .closed) = .ok ()
    ↔ ∃ q, p.inside = .ok q ∧ ∀ s ∈ found, buffer q s = .ok () := by
  rw [buffer, bind_ok_iff]
  simp only [check_bind_ok_iff, bufferItems_ok_iff]
  exact exists_congr fun q => and_congr_right fun _ => and_iff_left rfl

theorem buffer_object_iff {members : List (List Char × Source)} :
    buffer p (.object members .closed) = .ok () ↔ ∃ q, p.inside = .ok q
      ∧ ∀ m ∈ members, (∃ name, textOf m.1 = .ok name) ∧ buffer q m.2 = .ok () := by
  rw [buffer, bind_ok_iff]
  simp only [check_bind_ok_iff, bufferMembers_ok_iff]
  exact exists_congr fun q => and_congr_right fun _ => and_iff_left rfl

theorem Plain.buffer (h : Plain s) (p : Place) : Json.buffer p s = .ok () := by
  cases h with
  | string h =>
    rw [Json.buffer, textOf_of_spells h]
    rfl
  | _ => rfl

theorem Change.buffer_iff (h : Change sh s t) (p : Place) :
    buffer p s = .ok () ↔ buffer p t = .ok () := by
  induction h generalizing p with
  | spelling h h' => rw [buffer, buffer, textOf_eq_of_spells h h']
  | item _ ih => simp only [buffer_array_iff, List.forall_mem_append, List.forall_mem_cons, ih]
  | value _ _ ih => simp [buffer_object_iff, ih]
  | nameless _ _ ih => simp [buffer_object_iff, ih]
  | key h h' => simp [buffer_object_iff, textOf_eq_of_spells h h']
  | order hperm => simp only [buffer_object_iff, hperm.mem_iff]
  | extra h _ hplain => simp [buffer_object_iff, hplain.buffer, textOf_of_spells h]

theorem buffer_respects : Respects sh buffer :=
  .of_check fun p _ _ h => h.buffer_iff p

end Skipped

/-- What is read of the items of an array, when one of them changes. -/
theorem items_change {α : Type} {d : Decoder α} {p : Place} {s t : Source}
    (h : (d p s).toOption = (d p t).toOption) (before after : List Source) :
    (items d p (before ++ s :: after)).toOption = (items d p (before ++ t :: after)).toOption := by
  induction before with
  | nil => simp only [List.nil_append, items, toOption_bind, h]
  | cons x before ih => simp only [List.cons_append, items, toOption_bind, ih]

theorem list_respects {α : Type} {sh : Schema} {d : Decoder α} (h : Respects sh d) :
    Respects (.list sh) (list d) := by
  refine .of_kinds ?_ (fun p before s t after hitem => ?_) fun p found found' _ => ?_
  · exact fun p raw raw' _ _ _ =>
      (refuse_toOption _ (.string raw)).trans (refuse_toOption _ (.string raw')).symm
  · have hitems := fun q => items_change (h q s t (.rel _ _ hitem))
    simp only [list, toOption_bind, hitems]
  · have hrefused : ∀ members, (list d p (.object members .closed)).toOption = none :=
      fun members => refuse_toOption _ (.object members .closed)
    rw [hrefused, hrefused]

/-- Two texts of documents with the same content. -/
def SameText (sh : Schema) (s s' : String) : Prop :=
  ∃ v v', TextOf s.toList v ∧ TextOf s'.toList v' ∧ SameContent sh v v'

/-- Two texts that are rejected both, or both decoded to one value, and written again alike. A text and its
octets are decoded alike. -/
structure ReadAlike {α : Type} (d : Decoder α) (toJson : α → Json) (s s' : String) : Prop where
  together : (∃ flaw flaw', decode d s = .error flaw ∧ decode d s' = .error flaw')
    ∨ ∃ a, decode d s = .ok a ∧ decode d s' = .ok a
  octets : decodeOctets d (Text.encode s) = decode d s
    ∧ decodeOctets d (Text.encode s') = decode d s'
  rewritten : ∀ a a', decode d s = .ok a → decode d s' = .ok a' →
    Text.encode (toJson a).compact = Text.encode (toJson a').compact

/-- Only the content of a text decides what is decoded from it. A text with the content of one that was
written is accepted, and written again as that one. -/
structure ContentOnly {α : Type} (sh : Schema) (d : Decoder α) (toJson : α → Json) : Prop where
  alike : ∀ s s', SameText sh s s' → ReadAlike d toJson s s'
  accepted : ∀ a s, SameText sh (toJson a).compact s →
    ∃ b, decode d s = .ok b ∧ (toJson b).compact = (toJson a).compact

section Texts

variable {α : Type} {sh : Schema} {d : Decoder α} {s s' : String}

theorem decode_of_text {v : Source} (h : TextOf s.toList v) : decode d s = d .document v := by
  rw [decode, readDocument_of_text h]
  unfold Document.decode
  cases d .document v <;> rfl

theorem SameText.decode_eq (hd : Respects sh d) (h : SameText sh s s') :
    (decode d s).toOption = (decode d s').toOption := by
  obtain ⟨v, v', hv, hv', hsame⟩ := h
  rw [decode_of_text hv, decode_of_text hv']
  exact hd .document v v' hsame

theorem SameText.value_eq (hd : Respects sh d) (h : SameText sh s s') {a a' : α}
    (ha : decode d s = .ok a) (ha' : decode d s' = .ok a') : a = a' := by
  have heq := h.decode_eq hd
  rw [ha, ha'] at heq
  exact Option.some.inj heq

theorem decodeOctets_encode : decodeOctets d (Text.encode s) = decode d s := by
  rw [decodeOctets, readOctets_encode, decode]

theorem Respects.readAlike (hd : Respects sh d) (toJson : α → Json) (hsame : SameText sh s s') :
    ReadAlike d toJson s s' := by
  have h := hsame.decode_eq hd
  refine ⟨?_, ⟨decodeOctets_encode, decodeOctets_encode⟩, fun a a' ha ha' => ?_⟩
  · cases hs : decode d s with
    | error flaw =>
      cases hs' : decode d s' with
      | error flaw' => exact .inl ⟨flaw, flaw', rfl, rfl⟩
      | ok a' =>
        rw [hs, hs'] at h
        cases h
    | ok a =>
      rw [hs] at h
      exact .inr ⟨a, rfl, toOption_eq_some_iff.1 h.symm⟩
  · rw [hsame.value_eq hd ha ha']

/-- It is enough to know what is decoded of each value, if that is written in the same way. -/
theorem Respects.contentOnly {toJson : α → Json} (hd : Respects sh d) (decoded : α → α)
    (hdecoded : ∀ a, d .document (source escapeChar (toJson a)) = .ok (decoded a))
    (hwritten : ∀ a, toJson (decoded a) = toJson a) : ContentOnly sh d toJson := by
  refine ⟨fun s s' => hd.readAlike toJson, fun a s hsame => ⟨decoded a, ?_, by rw [hwritten]⟩⟩
  have h := hsame.decode_eq hd
  rw [decode_of_text (textOf_compact _), hdecoded] at h
  exact toOption_eq_some_iff.1 h.symm

end Texts

end ImageTrust.Json
