import Mathlib.Data.String.Basic
import ImageTrust.Proofs.Fallible
import ImageTrust.Proofs.Files.Listing
import ImageTrust.Proofs.Insertion
import ImageTrust.X509.Bundle

/-!
Bundles in files. A file of a directory that can be opened is a bundle or not by what it holds alone, and
the bundles of a directory are its regular files with the extension, in ascending order of names.
-/

namespace ImageTrust.Bundle

open X509

variable {p : Pki} {t : FileTree} {directory name : String} {here : List String}
  {entries : List (String × FileEntry)} {content : Octets} {certificates : List Octets}

/-- What the content of a bundle is like, and the certificates in it. -/
structure IsBundle (p : Pki) (content : Octets) (certificates : List Octets) : Prop where
  small : content.length ≤ sizeLimit
  readable : p.bundle? content = some certificates
  filled : certificates ≠ []

/-- A file of a directory is looked at before it is read, and read only if it is small. -/
theorem read_listed (hproper : t.root.IsProper) (h : t.ListsAt directory here entries)
    (hmem : (name, .file content) ∈ entries) :
    read p t (joinPath directory name) = match t.obstruction .look directory here name with
      | some cause => .error (.io (joinPath directory name) cause)
      | none =>
        if sizeLimit < content.length then .error (.tooLarge (joinPath directory name))
        else match t.obstruction .read directory here name with
          | some cause => .error (.io (joinPath directory name) cause)
          | none => match p.bundle? content with
            | none => .error (.invalidPem (joinPath directory name))
            | some [] => .error (.empty (joinPath directory name))
            | some certificates => .ok certificates := by
  unfold read FileTree.size FileTree.read
  rw [FileTree.take_joinPath hproper h hmem, FileTree.take_joinPath hproper h hmem]
  cases t.obstruction .look directory here name with
  | some cause => rfl
  | none =>
    by_cases hlarge : sizeLimit < content.length
    · simp only [ok_bind, Except.mapError, pure, Except.pure, if_pos hlarge]
      rfl
    · simp only [ok_bind, Except.mapError, pure, Except.pure, if_neg hlarge]
      cases t.obstruction .read directory here name <;> rfl

theorem read_listed_ok_iff (hproper : t.root.IsProper) (h : t.ListsAt directory here entries)
    (hmem : (name, .file content) ∈ entries) :
    read p t (joinPath directory name) = .ok certificates
      ↔ t.Opens directory here name ∧ IsBundle p content certificates := by
  rw [read_listed hproper h hmem, FileTree.opens_iff]
  cases t.obstruction .look directory here name with
  | some cause => exact iff_of_false nofun nofun
  | none =>
    cases t.obstruction .read directory here name with
    | some cause =>
      refine iff_of_false ?_ nofun
      dsimp only
      split_ifs <;> exact nofun
    | none =>
      dsimp only
      constructor
      · intro hread
        split_ifs at hread with hlarge
        have hsmall := Nat.not_lt.1 hlarge
        split at hread <;> cases hread
        exact ⟨⟨rfl, rfl⟩, hsmall, ‹_›, ‹_›⟩
      · rintro ⟨-, hbundle⟩
        obtain ⟨leaf, rest, rfl⟩ := List.exists_cons_of_ne_nil hbundle.filled
        rw [if_neg (Nat.not_lt.2 hbundle.small), hbundle.readable]

/-- The system lets a directory be searched and its bundles be looked at and read. -/
def Unrefused (t : FileTree) (directory : String) : Prop :=
  ∀ here entries, t.ListsAt directory here entries → t.refuses .search here = none
    ∧ ∀ name content, (name, .file content) ∈ entries → extension? name = some "pem" →
      t.refuses .look (here ++ [name]) = none ∧ t.refuses .read (here ++ [name]) = none

theorem isCandidate_iff {name : String} {e : FileEntry} : isCandidate name e = true
    ↔ ∃ content, e = .file content ∧ extension? name = some "pem" := by
  unfold isCandidate
  cases e <;> simp

theorem insertName_eq (name : String) (ns : List String) :
    insertName name ns = insertBy id name ns := by
  induction ns with
  | nil => rfl
  | cons n ns ih =>
    rw [insertName, ih, insertBy_cons]
    rfl

theorem candidates_ascending (entries : List (String × FileEntry)) :
    (candidates entries).Perm ((entries.filter fun e => isCandidate e.1 e.2).map (·.1))
      ∧ (candidates entries).Pairwise (· ≤ ·) := by
  have h : insertName = insertBy id := funext₂ insertName_eq
  unfold candidates
  rw [h]
  exact ⟨List.perm_insertionSort _ _, foldr_insertBy_ascending _⟩

end ImageTrust.Bundle
