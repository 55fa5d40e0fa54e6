import ImageTrust.Json.Decode
import ImageTrust.Proofs.Fallible
import ImageTrust.Proofs.Json.ReadBack

/-!
Records that were written are decoded to what they were written from. Members are taken up in the order
of the text; each is known, given once, and passes its check. A list is read item by item, and a value
that is buffered first is kept as it was written.
-/

namespace ImageTrust.Json

variable {escape : Char → List Char}

theorem textOf_flatMap (he : Lossless escape) (s : String) :
    textOf (s.toList.flatMap escape) = .ok s := by
  simp [textOf, textOf?_flatMap he]

/-- A place with room for a number of containers inside one another. -/
def Place.HasRoom (p : Place) (levels : Nat) : Prop :=
  p.material ≠ .text ∨ levels < p.depth

theorem Place.HasRoom.inside {p : Place} {levels : Nat} (h : p.HasRoom (levels + 1)) :
    ∃ q, p.inside = .ok q ∧ q.HasRoom levels := by
  unfold Place.inside
  by_cases hm : p.material = .text
  · have hd := h.resolve_left (not_not_intro hm)
    refine ⟨{ p with depth := p.depth - 1 }, ?_, .inr (by simp only; omega)⟩
    simp only [hm, ne_eq, not_true_eq_false, if_false, if_neg (show ¬ p.depth ≤ 1 by omega)]
  · exact ⟨p, by simp [hm], .inl hm⟩

theorem Place.HasRoom.mono {p : Place} {levels more : Nat} (h : p.HasRoom more)
    (hle : levels ≤ more) : p.HasRoom levels :=
  h.imp_right hle.trans_lt

theorem Place.document_hasRoom {levels : Nat} (h : levels < 128) : Place.document.HasRoom levels :=
  .inr h

/-- Taking up a member that is known and new, and whose value is read. -/
theorem collect_cons (he : Lossless escape) {α : Type} {m : Member α} {a : α} {checks : List Check}
    {p : Place} {given all : Given} {key : String} {v : Json} {rest : List (String × Json)}
    (h : m.read p (source escape v) = .ok a)
    (hf : checks.find? (·.name = key) = some m.check) (hn : given.lookup key = none)
    (hr : collect checks p ((key, source escape v) :: given) (memberSources escape rest) = .ok all) :
    collect checks p given (memberSources escape ((key, v) :: rest)) = .ok all := by
  have hc : m.check.check p (source escape v) = .ok () := by
    simp [Member.check, h, Except.map]
  simp [memberSources, collect, textOf_flatMap he, hf, hn, hc, bind, Except.bind, hr]

theorem collect_nil {checks : List Check} {p : Place} {given : Given} :
    collect checks p given (memberSources escape []) = .ok given := rfl

theorem record_object {α : Type} {name : String} {checks : List Check}
    {build : Place → Given → Except Flaw α} {p q : Place} {members : List (String × Json)}
    {given : Given} {a : α} (hp : p.inside = .ok q)
    (hc : collect checks q [] (memberSources escape members) = .ok given)
    (hb : build q given = .ok a) :
    record name checks build p (source escape (.obj members)) = .ok a := by
  simp [record, source, hp, hc, failOn, Ending.fault?, bind, Except.bind, hb]

theorem Member.get_of_lookup {α : Type} {m : Member α} {p : Place} {given : Given} {s : Source}
    {a : α} (hl : given.lookup m.name = some s) (h : m.read p s = .ok a) :
    m.get p given = .ok a := by
  simp [Member.get, hl, h]

theorem Member.get_of_absent {α : Type} {m : Member α} {p : Place} {given : Given} {a : α}
    (hl : given.lookup m.name = none) (h : m.absent = some a) : m.get p given = .ok a := by
  simp [Member.get, hl, h]

theorem text_str (he : Lossless escape) (p : Place) (s : String) :
    text p (source escape (.str s)) = .ok s := by
  simp [text, source, textOf_flatMap he]

section Array

variable {α β : Type} {d : Decoder β} {encode : α → Json} {decoded : α → β}

/-- What is read of each item is read of all of them, in order. -/
theorem items_sources {p : Place}
    (h : ∀ a, d p (source escape (encode a)) = .ok (decoded a)) (as : List α) :
    items d p (sources escape (as.map encode)) = .ok (as.map decoded) := by
  induction as with
  | nil => rfl
  | cons a as ih =>
    rw [List.map_cons, sources, items, h, ih]
    rfl

theorem list_arr {p : Place} {levels : Nat} (hp : p.HasRoom (levels + 1))
    (h : ∀ q : Place, q.HasRoom levels → ∀ a, d q (source escape (encode a)) = .ok (decoded a))
    (as : List α) : list d p (source escape (.arr (as.map encode))) = .ok (as.map decoded) := by
  obtain ⟨q, hq, hr⟩ := hp.inside
  rw [source, list, hq, ok_bind, items_sources (h q hr)]
  rfl

end Array

/-- A list of texts needs room for one container. -/
theorem list_text (he : Lossless escape) {p : Place} (hp : p.HasRoom 1) (ss : List String) :
    list text p (source escape (.arr (ss.map .str))) = .ok ss := by
  have h := list_arr hp (fun q _ s => text_str he q s) ss
  rwa [List.map_id'] at h

section Buffer

theorem buffer_str (he : Lossless escape) (p : Place) (s : String) :
    buffer p (source escape (.str s)) = .ok () := by
  rw [source, buffer, textOf_flatMap he]
  rfl

theorem bufferItems_texts (he : Lossless escape) (p : Place) (ss : List String) :
    bufferItems p (sources escape (ss.map .str)) = .ok () := by
  induction ss with
  | nil => rfl
  | cons s ss ih => rw [List.map_cons, sources, bufferItems, buffer_str he, ok_bind, ih]

theorem buffer_texts (he : Lossless escape) {p : Place} (hp : p.HasRoom 1) (ss : List String) :
    buffer p (source escape (.arr (ss.map .str))) = .ok () := by
  obtain ⟨q, hq, -⟩ := hp.inside
  rw [source, buffer, hq, ok_bind, bufferItems_texts he]
  rfl

theorem bufferMembers_cons (he : Lossless escape) {p : Place} {key : String} {v : Json}
    {rest : List (String × Json)} (hv : buffer p (source escape v) = .ok ()) :
    bufferMembers p (memberSources escape ((key, v) :: rest))
      = bufferMembers p (memberSources escape rest) := by
  rw [memberSources, bufferMembers, textOf_flatMap he, ok_bind, hv, ok_bind]

theorem buffer_obj {p q : Place} {members : List (String × Json)} (hp : p.inside = .ok q)
    (h : bufferMembers q (memberSources escape members) = .ok ()) :
    buffer p (source escape (.obj members)) = .ok () := by
  rw [source, buffer, hp, ok_bind, h]
  rfl

end Buffer

/-- The compact text of a value, as text and as octets, is decoded from the tree of the value. -/
theorem decode_compact {α : Type} (d : Decoder α) (v : Json) :
    decode d v.compact = d Place.document (source escapeChar v)
      ∧ decodeOctets d (Text.encode v.compact) = d Place.document (source escapeChar v) := by
  have h : (readDocument v.compact.toList).decode d = d Place.document (source escapeChar v) := by
    rw [compact, String.toList_ofList, readDocument_render escaped_escapeChar]
    unfold Document.decode
    cases d Place.document (source escapeChar v) <;> rfl
  refine ⟨h, ?_⟩
  rw [decodeOctets, readOctets_encode, h]

/-- How values are exchanged: what is decoded from the text of a value, or from its octets, is the same
as the value, and values have one text exactly when they are the same. -/
structure RoundTrip {α : Type} (toJson : α → Json) (d : Decoder α) (same : α → α → Prop) : Prop where
  read_back : ∀ a, ∃ b, decode d (toJson a).compact = .ok b
    ∧ decodeOctets d (Text.encode (toJson a).compact) = .ok b ∧ same b a
  text_iff : ∀ a b, (toJson a).compact = (toJson b).compact ↔ same a b

/-- It is enough to know what is decoded of each value, if that is written in the same way. -/
theorem RoundTrip.of_decoded {α : Type} {toJson : α → Json} {d : Decoder α} {same : α → α → Prop}
    (decoded : α → α)
    (hd : ∀ a, d .document (source escapeChar (toJson a)) = .ok (decoded a))
    (hj : ∀ a, toJson (decoded a) = toJson a)
    (hs : ∀ a b, decoded a = decoded b ↔ same a b) : RoundTrip toJson d same := by
  have htext : ∀ a, decode d (toJson a).compact = .ok (decoded a) := fun a => by
    rw [(decode_compact d (toJson a)).1, hd]
  have hoctets : ∀ a, decodeOctets d (Text.encode (toJson a).compact) = .ok (decoded a) :=
    fun a => by rw [(decode_compact d (toJson a)).2, hd]
  have htwice : ∀ a, decoded (decoded a) = decoded a := fun a => by
    have h := htext (decoded a)
    rw [hj, htext] at h
    exact (Except.ok.inj h).symm
  constructor
  · intro a
    exact ⟨decoded a, htext a, hoctets a, (hs _ _).1 (htwice a)⟩
  · intro a b
    rw [← hs]
    constructor
    · intro h
      have hb := htext b
      rw [← h, htext] at hb
      exact Except.ok.inj hb
    · intro h
      rw [← hj a, ← hj b, h]

/-- Values that are decoded to what they were. -/
theorem RoundTrip.of_decoded_self {α : Type} {toJson : α → Json} {d : Decoder α}
    (hd : ∀ a, d .document (source escapeChar (toJson a)) = .ok a) : RoundTrip toJson d Eq :=
  .of_decoded id hd (fun _ => rfl) (fun _ _ => Iff.rfl)

end ImageTrust.Json
