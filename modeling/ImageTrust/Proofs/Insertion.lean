import Mathlib.Data.List.Sort

/-!
Insertion by a key. What is inserted stands in front of the first entry with a greater key, so it comes
after those with its own. A list that ascends goes on to ascend.
-/

namespace ImageTrust

variable {α β : Type} [LinearOrder β] (key : α → β)

/-- Insertion in front of the first entry with a greater key. -/
def insertBy (a : α) (as : List α) : List α :=
  as.orderedInsert (fun b c => key b < key c) a

variable {key} {a : α}

theorem insertBy_cons (b : α) (bs : List α) : insertBy key a (b :: bs)
    = if key a < key b then a :: b :: bs else b :: insertBy key a bs :=
  rfl

theorem insertBy_perm (as : List α) : (insertBy key a as).Perm (a :: as) :=
  List.perm_orderedInsert _ a as

theorem insertBy_ascending : ∀ {as : List α}, as.Pairwise (fun b c => key b ≤ key c) →
    (insertBy key a as).Pairwise fun b c => key b ≤ key c
  | [], _ => List.pairwise_singleton _ a
  | b :: bs, h => by
    obtain ⟨hb, hbs⟩ := List.pairwise_cons.1 h
    rw [insertBy_cons]
    split_ifs with hab
    · refine List.pairwise_cons.2 ⟨fun c hc => ?_, h⟩
      rcases List.mem_cons.1 hc with rfl | hc
      · exact hab.le
      · exact hab.le.trans (hb c hc)
    · refine List.pairwise_cons.2 ⟨fun c hc => ?_, insertBy_ascending hbs⟩
      rcases List.mem_cons.1 ((insertBy_perm bs).mem_iff.1 hc) with rfl | hc
      · exact not_lt.1 hab
      · exact hb c hc

theorem foldr_insertBy_ascending (as : List α) :
    (as.foldr (insertBy key) []).Pairwise fun b c => key b ≤ key c := by
  induction as with
  | nil => exact .nil
  | cons a as ih => exact insertBy_ascending ih

/-- What has no smaller key than all others goes to the end. -/
theorem insertBy_last {as : List α} (h : ∀ b ∈ as, key b ≤ key a) : insertBy key a as = as ++ [a] := by
  induction as with
  | nil => rfl
  | cons b bs ih =>
    obtain ⟨hb, hbs⟩ := List.forall_mem_cons.1 h
    rw [insertBy_cons, if_neg (not_lt.2 hb), ih hbs, List.cons_append]

/-- A list that ascends already is left as it is. -/
theorem foldl_insertBy_of_ascending {as : List α} (h : as.Pairwise fun b c => key b ≤ key c) :
    as.foldl (fun bs a => insertBy key a bs) [] = as := by
  have hfold : ∀ as bs : List α, (bs ++ as).Pairwise (fun b c => key b ≤ key c) →
      as.foldl (fun bs a => insertBy key a bs) bs = bs ++ as := by
    intro as
    induction as with
    | nil => exact fun bs _ => (List.append_nil bs).symm
    | cons a as ih =>
      intro bs hbs
      have hlast : insertBy key a bs = bs ++ [a] :=
        insertBy_last fun b hb => (List.pairwise_append.1 hbs).2.2 b hb a List.mem_cons_self
      rw [List.foldl_cons, hlast, ih _ (by rwa [List.append_assoc]), List.append_assoc]
      rfl
  exact hfold as [] h

end ImageTrust
