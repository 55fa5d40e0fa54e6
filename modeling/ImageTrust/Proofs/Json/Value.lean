import ImageTrust.Json.Value
import ImageTrust.Proofs.Json.ReadBack

/-!
The value of a text that was written is the value it was written from, however deep that is nested and
whichever characters are escaped.
-/

namespace ImageTrust.Json

variable {escape : Char → List Char}

theorem digitsValue_toDigits (n : Nat) : digitsValue (Nat.toDigits 10 n) = n := by
  have hstep : (fun (n : Nat) (c : Char) => n * 10 + (c.toNat - 48))
      = fun sofar c => 10 * sofar + (c.toNat - '0'.toNat) := by
    funext n c
    rw [Nat.mul_comm]
    rfl
  unfold digitsValue
  rw [hstep]
  exact Nat.ofDigitChars_toDigits (by decide) (by decide)

theorem int?_ofInt (n : Int) : (Literal.ofInt n).int? = some n := by
  simp only [Literal.ofInt, Literal.int?, List.isEmpty_nil, Option.isNone_none, Bool.and_self, if_true,
    digitsValue_toDigits, Option.some.injEq, decide_eq_true_eq]
  split_ifs <;> omega

mutual

/-- The induction is on the value together with the items and members behind a first one. -/
theorem value?_source (he : Lossless escape) (v : Json) : (source escape v).value? = some v := by
  cases v with
  | null => rfl
  | bool b => rfl
  | int n => rw [source, Source.value?, int?_ofInt, Option.map_some]
  | str s => rw [source, Source.value?, textOf?_flatMap he, Option.map_some]
  | arr items => rw [source, Source.value?, values?_sources he items, Option.map_some]
  | obj members => rw [source, Source.value?, memberValues?_memberSources he members, Option.map_some]

theorem values?_sources (he : Lossless escape) (items : List Json) :
    Source.values? (sources escape items) = some items := by
  cases items with
  | nil => rfl
  | cons item rest =>
    rw [sources, Source.values?, value?_source he item, values?_sources he rest]
    rfl

theorem memberValues?_memberSources (he : Lossless escape) (members : List (String × Json)) :
    Source.memberValues? (memberSources escape members) = some members := by
  cases members with
  | nil => rfl
  | cons member rest =>
    rw [memberSources, Source.memberValues?, textOf?_flatMap he, value?_source he member.2,
      memberValues?_memberSources he rest]
    rfl

end

/-- What was written, with any escapes that can be read back, is read as the value it was written from. -/
theorem ofText?_render (he : Lossless escape) (v : Json) :
    ofText? (String.ofList (render (quotedWith escape) v)) = some v := by
  rw [ofText?, String.toList_ofList, readDocument_render he, Document.value?, if_pos rfl,
    value?_source he]

theorem ofOctets?_encode (s : String) : ofOctets? (Text.encode s) = ofText? s := by
  rw [ofOctets?, ofText?, readOctets_encode]

theorem ofText?_compact (v : Json) : ofText? v.compact = some v :=
  ofText?_render escaped_escapeChar v

end ImageTrust.Json
