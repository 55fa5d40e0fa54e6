import ImageTrust.Proofs.Uuid
import ImageTrust.Release.KeyUrl

/-!
The shape of a key's URL. The id of a key is the first segment that is a UUID in hyphenated form, taken
as it is written. A broker is found exactly when the segments that are not empty end in `keys`, the id
and `transfer`, and it is the same URL without these three.
-/

namespace ImageTrust

/-- The segments of the path, the empty ones left out. -/
def Url.filledSegments (u : Url) : List String :=
  (u.segments?.getD []).filter (!·.isEmpty)

namespace KeyUrl

theorem idOf?_eq_some_iff {u : Url} {id : String} :
    idOf? u = some id ↔ Uuid.IsHyphenated id ∧ ∃ before after,
      u.segments?.getD [] = before ++ id :: after ∧ ∀ s ∈ before, ¬ Uuid.IsHyphenated s := by
  unfold idOf?
  simp only [List.find?_eq_some_iff_append, Uuid.parse?_isSome_iff, ← Uuid.parse?_eq_none_iff,
    Bool.not_eq_true', Option.isSome_eq_false_iff, Option.isNone_iff_eq_none]

theorem keyId?_eq_some_iff {text id : String} :
    keyId? text = some id ↔ ∃ u, Url.https? text = some u ∧ idOf? u = some id := by
  unfold keyId?
  exact Option.bind_eq_some_iff

theorem beforeTransfer?_eq_some_iff {id : String} {segments front : List String} :
    beforeTransfer? id segments = some front ↔ segments = front ++ ["keys", id, "transfer"] := by
  unfold beforeTransfer?
  constructor
  · intro h
    split at h
    · rename_i i before hs
      split at h
      · rename_i hi
        cases h
        rw [← List.reverse_reverse segments, hs]
        simp [hi]
      · cases h
    · cases h
  · rintro rfl
    simp

theorem broker?_eq_some_iff {u b : Url} {id : String} : broker? u id = some b
    ↔ ∃ front, u.filledSegments = front ++ ["keys", id, "transfer"]
      ∧ b = { u with path := .segments (front ++ [""]), query := none, fragment := none } := by
  unfold broker? Url.filledSegments
  cases u.segments? with
  | none => simp
  | some segments =>
    simp only [Option.bind_eq_bind, Option.bind_some, Option.getD_some, Option.bind_eq_some_iff,
      beforeTransfer?_eq_some_iff, Option.some.injEq, eq_comm (b := b)]

/-- A text is an `https` URL that ends in `keys`, the id and `transfer`, behind its broker. -/
def LeadsTo (text id : String) (broker : Url) : Prop :=
  ∃ u front, Url.https? text = some u ∧ u.filledSegments = front ++ ["keys", id, "transfer"]
    ∧ broker = { u with path := .segments (front ++ [""]), query := none, fragment := none }

theorem leadsTo_iff {text id : String} {broker : Url} :
    LeadsTo text id broker ↔ (Url.https? text).bind (broker? · id) = some broker := by
  unfold LeadsTo
  simp only [Option.bind_eq_some_iff, broker?_eq_some_iff, exists_and_left]

end KeyUrl

end ImageTrust
