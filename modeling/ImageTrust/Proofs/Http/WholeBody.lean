import ImageTrust.Http.Response
import ImageTrust.Proofs.Fallible
import Mathlib.Tactic.SplitIfs

/-!
Bodies that are taken whole. A complete body is as long as was declared, so of the two size checks the
second alone would do, and one octet more than the limit is enough to tell a body that is too large.
What is taken is the full body, never its beginning.
-/

namespace ImageTrust

namespace HttpResponse

/-- The full body, delivered without a read error and no larger than a limit. -/
structure Delivers (limit : Nat) (r : HttpResponse) (body : Octets) : Prop where
  complete : r.isComplete = true
  full : body = r.body
  within : body.length ≤ limit

variable {r : HttpResponse} {body octets : Octets} {limit bound : Nat}

theorem readUpTo_ok_iff : r.readUpTo bound = .ok octets
    ↔ (r.isComplete = true ∨ bound ≤ r.body.length) ∧ octets = r.body.take bound := by
  unfold readUpTo
  by_cases hstopped : (r.body.length < bound && !r.isComplete) = true
  · rw [if_pos hstopped]
    rw [Bool.and_eq_true, decide_eq_true_iff, Bool.not_eq_true'] at hstopped
    obtain ⟨hshort, hcut⟩ := hstopped
    refine iff_of_false nofun fun h => ?_
    rw [hcut] at h
    exact h.1.elim nofun (Nat.not_le.2 hshort)
  · rw [if_neg hstopped, Except.ok.injEq]
    have hend : r.isComplete = true ∨ bound ≤ r.body.length := by
      by_contra hneither
      obtain ⟨hcut, hshort⟩ := not_or.1 hneither
      exact hstopped (by simp [hcut, Nat.not_le.1 hshort])
    exact ⟨fun h => ⟨hend, h.symm⟩, fun h => h.2.symm⟩

/-- Asking for one octet more than the limit tells a body that is too large from one that is not. At the
largest limit there is no such octet, and then a body has to be shorter than what a length counts. -/
theorem wholeBody_ok_iff (hcounted : limit < countLimit ∨ r.body.length < countLimit) :
    r.wholeBody limit = .ok body ↔ r.Delivers limit body := by
  unfold wholeBody
  rw [throw_if_ok_iff, bind_ok_iff]
  constructor
  · rintro ⟨-, octets, hread, h⟩
    obtain ⟨hend, rfl⟩ := readUpTo_ok_iff.1 hread
    obtain ⟨hsmall, h⟩ := throw_if_ok_iff.1 h
    cases h
    rw [List.length_take] at hsmall
    have hunfilled : r.body.length < min (limit + 1) countLimit := by omega
    have hall : r.body.take (min (limit + 1) countLimit) = r.body :=
      List.take_of_length_le (Nat.le_of_lt hunfilled)
    refine ⟨hend.resolve_right (Nat.not_le.2 hunfilled), hall, ?_⟩
    rw [hall]
    omega
  · rintro ⟨hcomplete, rfl, hle⟩
    have hunfilled : r.body.length ≤ min (limit + 1) countLimit := by omega
    have hall : r.body.take (min (limit + 1) countLimit) = r.body :=
      List.take_of_length_le hunfilled
    refine ⟨?_, r.body, readUpTo_ok_iff.2 ⟨.inl hcomplete, hall.symm⟩, ?_⟩
    · cases hd : r.declared with
      | none => exact Nat.not_lt_zero limit
      | some n =>
        rw [Option.getD_some, ← r.measured hcomplete n hd]
        exact Nat.not_lt.2 hle
    · exact throw_if_ok_iff.2 ⟨Nat.not_lt.2 hle, rfl⟩

end HttpResponse

end ImageTrust
