import Mathlib.Data.List.Nodup

/-!
Looking up a name. What is found stands in the list, and where every name stands once it is what is found.
-/

namespace ImageTrust

variable {κ β : Type} [BEq κ] [LawfulBEq κ] {entries : List (κ × β)} {name : κ} {b : β}

theorem lookup_mem (h : entries.lookup name = some b) : (name, b) ∈ entries := by
  obtain ⟨before, after, rfl, -⟩ := List.lookup_eq_some_iff.1 h
  simp

theorem lookup_eq_some_iff_mem (hdistinct : (entries.map Prod.fst).Nodup) :
    entries.lookup name = some b ↔ (name, b) ∈ entries := by
  refine ⟨lookup_mem, fun h => ?_⟩
  obtain ⟨before, after, rfl⟩ := List.append_of_mem h
  refine List.lookup_eq_some_iff.2 ⟨before, after, rfl, fun earlier hearlier => ?_⟩
  rw [List.map_append, List.map_cons, List.nodup_append] at hdistinct
  have hother := hdistinct.2.2 earlier.1 (List.mem_map_of_mem hearlier) name (by simp)
  exact bne_iff_ne.2 hother.symm

end ImageTrust
