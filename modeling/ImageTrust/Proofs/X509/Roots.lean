import Mathlib.Data.List.Sort
import ImageTrust.Proofs.Text.Order
import ImageTrust.Proofs.X509.Bundle
import ImageTrust.X509.Standard

/-!
Loading the authorities of a directory. All its bundles are loaded in the order of the octets of their
names, or none is and the first that is no bundle says why. Nothing else in the directory has a say.
-/

namespace ImageTrust.Bundle

open X509

/-- The files of a directory that count as bundles, with what they hold: each once, in the order of the
octets of their names. -/
structure IsListing (entries : List (String × FileEntry)) (files : List (String × Octets)) :
    Prop where
  complete : ∀ name content, (name, content) ∈ files
    ↔ (name, .file content) ∈ entries ∧ extension? name = some "pem"
  ascending : files.Pairwise fun f g => Text.encode f.1 < Text.encode g.1

/-- A file of a directory is loaded as these certificates. -/
def Loads (p : Pki) (t : FileTree) (directory : String) (here : List String)
    (file : String × Octets) (certificates : List Octets) : Prop :=
  t.Opens directory here file.1 ∧ IsBundle p file.2 certificates

/-- A file of a directory is not loaded, and why: it cannot be looked at, it is too large, it cannot be
read, it is no PEM, or there is no certificate in it. -/
inductive Offends (p : Pki) (t : FileTree) (directory : String) (here : List String)
    (file : String × Octets) : Fault → Prop where
  | unseen (cause) : t.obstruction .look directory here file.1 = some cause →
      Offends p t directory here file (.io (joinPath directory file.1) cause)
  | tooLarge : t.obstruction .look directory here file.1 = none → sizeLimit < file.2.length →
      Offends p t directory here file (.tooLarge (joinPath directory file.1))
  | unread (cause) : t.obstruction .look directory here file.1 = none → file.2.length ≤ sizeLimit →
      t.obstruction .read directory here file.1 = some cause →
      Offends p t directory here file (.io (joinPath directory file.1) cause)
  | invalidPem : t.Opens directory here file.1 → file.2.length ≤ sizeLimit →
      p.bundle? file.2 = none →
      Offends p t directory here file (.invalidPem (joinPath directory file.1))
  | empty : t.Opens directory here file.1 → file.2.length ≤ sizeLimit →
      p.bundle? file.2 = some [] →
      Offends p t directory here file (.empty (joinPath directory file.1))

section Listed

variable {p : Pki} {t t' : FileTree} {directory : String} {here : List String}
  {entries entries' : List (String × FileEntry)} {files files' : List (String × Octets)}

theorem IsListing.unique (h : IsListing entries files) (h' : IsListing entries files') :
    files = files' := by
  have hmem : ∀ file, file ∈ files ↔ file ∈ files' := by
    rintro ⟨name, content⟩
    exact (h.complete name content).trans (h'.complete name content).symm
  -- names that ascend are there once
  have hirrefl : Std.Irrefl fun f g : String × Octets => Text.encode f.1 < Text.encode g.1 :=
    ⟨fun f => List.lt_irrefl _⟩
  have hantisymm : Std.Antisymm fun f g : String × Octets => Text.encode f.1 < Text.encode g.1 :=
    ⟨fun f g hfg hgf => absurd hgf (List.lt_asymm hfg)⟩
  exact h.ascending.eq_of_mem_iff h'.ascending hmem

theorem IsListing.entry_mem (h : IsListing entries files) {file : String × Octets}
    (hfile : file ∈ files) : (file.1, .file file.2) ∈ entries :=
  ((h.complete file.1 file.2).1 hfile).1

theorem IsListing.elsewhere (h : IsListing entries files)
    (hsame : ∀ name content, extension? name = some "pem" →
      ((name, .file content) ∈ entries' ↔ (name, .file content) ∈ entries)) :
    IsListing entries' files := by
  refine ⟨fun name content => ?_, h.ascending⟩
  rw [h.complete]
  exact and_congr_left fun hextension => (hsame name content hextension).symm

theorem exists_files : ∀ {names : List String},
    (∀ name ∈ names, ∃ content, (name, .file content) ∈ entries) →
    ∃ files : List (String × Octets), files.map (·.1) = names ∧ ∀ f ∈ files, (f.1, .file f.2) ∈ entries
  | [], _ => ⟨[], rfl, nofun⟩
  | name :: names, h => by
    obtain ⟨⟨content, hmem⟩, hrest⟩ := List.forall_mem_cons.1 h
    obtain ⟨files, hnames, hfiles⟩ := exists_files hrest
    refine ⟨(name, content) :: files, ?_, List.forall_mem_cons.2 ⟨hmem, hfiles⟩⟩
    rw [List.map_cons, hnames]

theorem candidates_isListing (hdistinct : (entries.map (·.1)).Nodup) :
    ∃ files, IsListing entries files ∧ files.map (·.1) = candidates entries := by
  obtain ⟨hperm, hsorted⟩ := candidates_ascending entries
  have hmem : ∀ name, name ∈ candidates entries
      ↔ ∃ content, (name, .file content) ∈ entries ∧ extension? name = some "pem" := by
    intro name
    rw [hperm.mem_iff, List.mem_map]
    constructor
    · rintro ⟨⟨_, e⟩, he, rfl⟩
      obtain ⟨hentry, hcandidate⟩ := List.mem_filter.1 he
      obtain ⟨content, rfl, hextension⟩ := isCandidate_iff.1 hcandidate
      exact ⟨content, hentry, hextension⟩
    · rintro ⟨content, hentry, hextension⟩
      have hcandidate := isCandidate_iff.2 ⟨content, rfl, hextension⟩
      exact ⟨(name, .file content), List.mem_filter.2 ⟨hentry, hcandidate⟩, rfl⟩
  obtain ⟨files, hnames, hfiles⟩ : ∃ files : List (String × Octets),
      files.map (·.1) = candidates entries ∧ ∀ f ∈ files, (f.1, .file f.2) ∈ entries := by
    refine exists_files fun name hname => ?_
    obtain ⟨content, hentry, -⟩ := (hmem name).1 hname
    exact ⟨content, hentry⟩
  refine ⟨files, ⟨fun name content => ?_, ?_⟩, hnames⟩
  · constructor
    · intro hfile
      have hname : name ∈ candidates entries := hnames ▸ List.mem_map_of_mem hfile
      obtain ⟨-, -, hextension⟩ := (hmem name).1 hname
      exact ⟨hfiles _ hfile, hextension⟩
    · rintro ⟨hentry, hextension⟩
      have hname : name ∈ files.map (·.1) := hnames ▸ (hmem name).2 ⟨content, hentry, hextension⟩
      obtain ⟨⟨_, found⟩, hfile, rfl⟩ := List.mem_map.1 hname
      -- a name stands for one entry
      have hfound := (lookup_eq_some_iff_mem hdistinct).2 (hfiles _ hfile)
      cases hfound.symm.trans ((lookup_eq_some_iff_mem hdistinct).2 hentry)
      exact hfile
  · have hnodup : (candidates entries).Nodup :=
      hperm.nodup_iff.2 (hdistinct.sublist (List.filter_sublist.map _))
    have hstrict : (candidates entries).Pairwise (· < ·) :=
      hsorted.imp₂ (fun _ _ hle hne => lt_of_le_of_ne hle hne) hnodup
    rw [← hnames, List.pairwise_map] at hstrict
    exact hstrict.imp Text.encode_lt

theorem listing_of_list (hproper : t.root.IsProper) (h : t.ListsAt directory here entries) :
    ∃ files, IsListing entries files
      ∧ list t directory = .ok (files.map fun f => joinPath directory f.1) := by
  obtain ⟨files, hlisting, hnames⟩ := candidates_isListing (h.fileNames hproper).2
  refine ⟨files, hlisting, ?_⟩
  unfold list
  rw [h.list]
  dsimp only
  rw [← hnames, List.map_map]
  rfl

end Listed

section Reading

variable {p : Pki} {t : FileTree} {directory name : String} {here : List String}
  {entries : List (String × FileEntry)} {content : Octets} {fault : Fault}

theorem read_listed_error_iff (hproper : t.root.IsProper) (h : t.ListsAt directory here entries)
    (hmem : (name, .file content) ∈ entries) :
    read p t (joinPath directory name) = .error fault
      ↔ Offends p t directory here (name, content) fault := by
  have hopens : t.Opens directory here name ↔ t.obstruction .look directory here name = none
    ∧ t.obstruction .read directory here name = none := FileTree.opens_iff
  rw [read_listed hproper h hmem]
  constructor
  · intro hfault
    split at hfault
    · cases hfault
      exact .unseen _ ‹_›
    · rename_i hseen
      split_ifs at hfault with hlarge
      · cases hfault
        exact .tooLarge hseen hlarge
      · have hsmall := Nat.not_lt.1 hlarge
        split at hfault
        · cases hfault
          exact .unread _ hseen hsmall ‹_›
        · have hopened := hopens.2 ⟨hseen, ‹_›⟩
          split at hfault <;> cases hfault
          · exact .invalidPem hopened hsmall ‹_›
          · exact .empty hopened hsmall ‹_›
  · intro hoffends
    cases hoffends with
    | unseen cause hcause => rw [hcause]
    | tooLarge hseen hlarge =>
      rw [hseen]
      exact if_pos hlarge
    | unread cause hseen hsmall hcause =>
      rw [hseen, hcause]
      exact if_neg (Nat.not_lt.2 hsmall)
    | invalidPem hopened hsmall hpem | empty hopened hsmall hpem =>
      rw [(hopens.1 hopened).1, (hopens.1 hopened).2, hpem]
      exact if_neg (Nat.not_lt.2 hsmall)

end Reading

section Loading

variable {p : Pki} {t t' : FileTree} {directory : String} {here here' : List String}
  {entries entries' : List (String × FileEntry)} {files : List (String × Octets)}

/-- A directory is loaded by loading its files one after the other. -/
theorem roots_eq (hproper : t.root.IsProper) (h : t.ListsAt directory here entries)
    (hfiles : IsListing entries files) : roots p t directory = do
      let bundles ← files.mapM fun f => read p t (joinPath directory f.1)
      return bundles.flatten := by
  obtain ⟨found, hfound, hlist⟩ := listing_of_list hproper h
  cases hfiles.unique hfound
  unfold roots
  rw [hlist, ok_bind, List.mapM_map]
  rfl

theorem roots_listed_ok_iff (hproper : t.root.IsProper) (h : t.ListsAt directory here entries)
    (hfiles : IsListing entries files) {certificates : List Octets} :
    roots p t directory = .ok certificates
      ↔ ∃ bundles, List.Forall₂ (Loads p t directory here) files bundles
        ∧ certificates = bundles.flatten := by
  have hloads : ∀ bundles, files.mapM (fun f => read p t (joinPath directory f.1)) = .ok bundles
      ↔ List.Forall₂ (Loads p t directory here) files bundles := by
    intro bundles
    rw [mapM_ok_iff]
    refine forall₂_congr_of_mem fun f hf bundle => ?_
    exact read_listed_ok_iff hproper h (hfiles.entry_mem hf)
  rw [roots_eq hproper h hfiles, bind_ok_iff]
  refine exists_congr fun bundles => and_congr (hloads bundles) ?_
  constructor
  · intro hflat
    exact (Except.ok.inj hflat).symm
  · rintro rfl
    rfl

theorem roots_listed_error_iff (hproper : t.root.IsProper) (h : t.ListsAt directory here entries)
    (hfiles : IsListing entries files) {fault : Fault} :
    roots p t directory = .error fault ↔ ∃ before file after, files = before ++ file :: after
      ∧ (∀ f ∈ before, ∃ bundle, Loads p t directory here f bundle)
      ∧ Offends p t directory here file fault := by
  have hfaults : roots p t directory = .error fault
      ↔ files.mapM (fun f => read p t (joinPath directory f.1)) = .error fault := by
    rw [roots_eq hproper h hfiles, bind_error_iff]
    exact or_iff_left nofun
  rw [hfaults, mapM_error_iff]
  refine exists_congr fun before => exists_congr fun file => exists_congr fun after =>
    and_congr_right fun hsplit => ?_
  refine and_congr ?_ ?_
  · refine forall₂_congr fun f hf => exists_congr fun bundle => ?_
    exact read_listed_ok_iff hproper h (hfiles.entry_mem (by simp [hsplit, hf]))
  · exact read_listed_error_iff hproper h (hfiles.entry_mem (by simp [hsplit]))

/-- A listing is loaded as a whole exactly when each of its files is loaded. -/
theorem exists_bundles_iff : (∃ bundles, List.Forall₂ (Loads p t directory here) files bundles)
    ↔ ∀ f ∈ files, ∃ bundle, Loads p t directory here f bundle := by
  constructor
  · rintro ⟨bundles, hbundles⟩ f hf
    induction hbundles with
    | nil => cases hf
    | cons hload _ ih =>
      rcases List.mem_cons.1 hf with rfl | hf
      · exact ⟨_, hload⟩
      · exact ih hf
  · intro h
    induction files with
    | nil => exact ⟨[], .nil⟩
    | cons f files ih =>
      obtain ⟨⟨bundle, hload⟩, hrest⟩ := List.forall_mem_cons.1 h
      obtain ⟨bundles, hbundles⟩ := ih hrest
      exact ⟨bundle :: bundles, .cons hload hbundles⟩

theorem loaded_iff (hproper : t.root.IsProper) (h : t.ListsAt directory here entries)
    (hfiles : IsListing entries files) : (∃ certificates, roots p t directory = .ok certificates)
      ↔ ∀ name content, (name, .file content) ∈ entries → extension? name = some "pem" →
        t.Opens directory here name ∧ content.length ≤ sizeLimit
          ∧ ∃ certificates, p.bundle? content = some certificates ∧ certificates ≠ [] := by
  have hall : (∃ certificates, roots p t directory = .ok certificates)
      ↔ ∀ f ∈ files, ∃ bundle, Loads p t directory here f bundle := by
    rw [← exists_bundles_iff]
    simp only [roots_listed_ok_iff hproper h hfiles]
    constructor
    · rintro ⟨-, bundles, hbundles, -⟩
      exact ⟨bundles, hbundles⟩
    · rintro ⟨bundles, hbundles⟩
      exact ⟨_, bundles, hbundles, rfl⟩
  rw [hall]
  constructor
  · intro hloads name content hentry hextension
    obtain ⟨bundle, hopens, hbundle⟩ :=
      hloads (name, content) ((hfiles.complete name content).2 ⟨hentry, hextension⟩)
    exact ⟨hopens, hbundle.small, bundle, hbundle.readable, hbundle.filled⟩
  · rintro hloads ⟨name, content⟩ hfile
    obtain ⟨hentry, hextension⟩ := (hfiles.complete name content).1 hfile
    obtain ⟨hopens, hsmall, bundle, hreadable, hfilled⟩ := hloads name content hentry hextension
    exact ⟨bundle, hopens, hsmall, hreadable, hfilled⟩

/-- Nothing else keeps the bundles of a directory from being used in another tree. -/
def SameAccess (t t' : FileTree) (directory : String) (here here' : List String)
    (entries : List (String × FileEntry)) : Prop :=
  ∀ use name content, (name, .file content) ∈ entries → extension? name = some "pem" →
    t'.obstruction use directory here' name = t.obstruction use directory here name

/-- Two directories with the same bundles behind the same path are loaded alike. -/
theorem roots_same (hproper : t.root.IsProper) (hproper' : t'.root.IsProper)
    (h : t.ListsAt directory here entries) (h' : t'.ListsAt directory here' entries')
    (hfiles : IsListing entries files) (hfiles' : IsListing entries' files)
    (haccess : SameAccess t t' directory here here' entries) :
    roots p t' directory = roots p t directory := by
  have hread : ∀ f ∈ files, read p t' (joinPath directory f.1) = read p t (joinPath directory f.1) := by
    intro f hf
    have hextension := ((hfiles.complete f.1 f.2).1 hf).2
    rw [read_listed hproper h (hfiles.entry_mem hf), read_listed hproper' h' (hfiles'.entry_mem hf),
      haccess .look f.1 f.2 (hfiles.entry_mem hf) hextension,
      haccess .read f.1 f.2 (hfiles.entry_mem hf) hextension]
  rw [roots_eq hproper h hfiles, roots_eq hproper' h' hfiles', mapM_congr hread]

end Loading

/-- The authorities of a directory are all loaded, in the order of the octets of the names of their
files, or none is, and then the first file in that order that is at fault says why. A file is at fault
when it cannot be opened and read, is too large, is no PEM, or has no certificate. The entries that are
no bundles change nothing as long as the path leads to the directory and the bundles may be used as
before. -/
theorem roots_all_or_none (p : Pki) {t : FileTree} (hproper : t.root.IsProper) (directory : String) :
    (∀ cause, t.list directory = .error cause → roots p t directory = .error (.io directory cause))
    ∧ ∀ entries, t.list directory = .ok entries → ∃ here, t.ListsAt directory here entries
      ∧ ((∃ certificates, roots p t directory = .ok certificates)
        ↔ ∀ name content, (name, .file content) ∈ entries → extension? name = some "pem" →
          t.Opens directory here name ∧ content.length ≤ sizeLimit
            ∧ ∃ certificates, p.bundle? content = some certificates ∧ certificates ≠ [])
      ∧ (directory.utf8ByteSize + 256 ≤ FileTree.pathLimit →
        ∀ entry ∈ entries, (joinPath directory entry.1).utf8ByteSize ≤ FileTree.pathLimit)
      ∧ (∃ files, IsListing entries files
        ∧ (∀ certificates, roots p t directory = .ok certificates
          ↔ ∃ bundles, List.Forall₂ (Loads p t directory here) files bundles
            ∧ certificates = bundles.flatten)
        ∧ ∀ fault, roots p t directory = .error fault
          ↔ ∃ before file after, files = before ++ file :: after
            ∧ (∀ f ∈ before, ∃ bundle, Loads p t directory here f bundle)
            ∧ Offends p t directory here file fault)
      ∧ ∀ (t' : FileTree) (here' : List String) (entries' : List (String × FileEntry)),
        t'.root.IsProper → t'.ListsAt directory here' entries' →
        (∀ name content, extension? name = some "pem" →
          ((name, .file content) ∈ entries' ↔ (name, .file content) ∈ entries)) →
        SameAccess t t' directory here here' entries → roots p t' directory = roots p t directory := by
  refine ⟨fun cause hcause => ?_, fun entries hlist => ?_⟩
  · unfold roots list
    rw [hcause]
    rfl
  obtain ⟨here, hlisted⟩ := FileTree.list_ok_iff.1 hlist
  obtain ⟨files, hfiles, -⟩ := listing_of_list hproper hlisted
  refine ⟨here, hlisted, loaded_iff hproper hlisted hfiles, fun hroom entry hentry => ?_, ⟨files,
    hfiles, fun certificates => roots_listed_ok_iff hproper hlisted hfiles,
    fun fault => roots_listed_error_iff hproper hlisted hfiles⟩, ?_⟩
  · exact FileTree.joinPath_short hproper hlisted hroom (List.mem_map_of_mem hentry)
  · intro t' here' entries' hproper' hlisted' hsame haccess
    exact roots_same hproper hproper' hlisted hlisted' hfiles (hfiles.elsewhere hsame) haccess

section Anchors

def pemOf (body : String) : Octets :=
  ["-----BEGIN CERTIFICATE-----", body, "-----END CERTIFICATE-----"].flatMap fun line =>
    Text.encode line ++ [0x0a]

/-- Two bundles among entries that are none. -/
def anchorEntries : List (String × FileEntry) :=
  [("b.pem", .file (pemOf "AQ==")), ("c.crt", .file []), ("a.pem", .file (pemOf "AA==")),
    (".pem", .file []), ("d.PEM", .file []), ("x.pem", .directory []), ("y.pem", .link "a.pem")]

def soleEntries : List (String × FileEntry) :=
  [("a.pem", .file (pemOf "AA==")), ("b.pem", .file (pemOf "AQ=="))]

/-- A tree with a directory of authorities inside the current directory; nothing is refused but the
reading of `.pem`, if it is there. -/
def treeOf (entries : List (String × FileEntry)) : FileTree where
  root := .directory [("etc", .directory [("cas", .directory entries)])]
  here := ["etc"]
  refuses := fun use names =>
    if use = .read && names = ["etc", "cas", ".pem"] then some .denied else none

theorem treeOf_isProper {entries : List (String × FileEntry)}
    (hnames : ∀ name ∈ entries.map (·.1), IsFileName name) (hdistinct : (entries.map (·.1)).Nodup)
    (hbelow : ∀ e ∈ entries, e.2.IsProper) : (treeOf entries).root.IsProper := by
  have hcas : IsFileName "cas" := by decide
  have hetc : IsFileName "etc" := by decide
  have hinner : (FileEntry.directory [("cas", .directory entries)]).IsProper := by
    refine .directory _ (by simpa using hcas) (List.nodup_singleton _) ?_
    simpa using FileEntry.IsProper.directory entries hnames hdistinct hbelow
  refine .directory _ (by simpa using hetc) (List.nodup_singleton _) ?_
  simpa using hinner

theorem anchors_isProper : (treeOf anchorEntries).root.IsProper := by
  refine treeOf_isProper (by decide) (by decide) ?_
  simp only [anchorEntries, List.forall_mem_cons, List.not_mem_nil, false_implies, implies_true,
    and_true]
  exact ⟨.file _, .file _, .file _, .file _, .file _, .directory _ nofun .nil nofun, .link _⟩

theorem sole_isProper : (treeOf soleEntries).root.IsProper := by
  refine treeOf_isProper (by decide) (by decide) ?_
  simp only [soleEntries, List.forall_mem_cons, List.not_mem_nil, false_implies, implies_true, and_true]
  exact ⟨.file _, .file _⟩

theorem cas_listed (entries : List (String × FileEntry)) (n : Nat) (h : 3 + n ≤ FileTree.pathLimit) :
    (treeOf entries).ListsAt (FileTree.slashedBehind "cas" n) ["etc", "cas"] entries :=
  ⟨FileTree.locate_slashedBehind (by decide) h rfl rfl, rfl⟩

/-- The directory by its path from the root. -/
theorem etc_cas_listed (entries : List (String × FileEntry)) :
    (treeOf entries).ListsAt "/etc/cas" ["etc", "cas"] entries := by
  have hparts : FileTree.components "/etc/cas" = ["etc", "cas"] := by decide +kernel
  have hslash : ("/etc/cas" : String).startsWith "/" = true := by simp
  exact ⟨FileTree.locate_of_walk (by decide) (if_pos hslash) rfl hparts rfl, rfl⟩

theorem pemOf_isBundle : IsBundle .standard (pemOf "AA==") [[0]]
    ∧ IsBundle .standard (pemOf "AQ==") [[1]] := by
  have h : ((pemOf "AA==").length ≤ sizeLimit ∧ Pki.standard.bundle? (pemOf "AA==") = some [[0]])
      ∧ (pemOf "AQ==").length ≤ sizeLimit ∧ Pki.standard.bundle? (pemOf "AQ==") = some [[1]] := by
    decide +kernel
  obtain ⟨⟨hsmall, hread⟩, hsmall', hread'⟩ := h
  exact ⟨⟨hsmall, hread, List.cons_ne_nil _ _⟩, ⟨hsmall', hread', List.cons_ne_nil _ _⟩⟩

theorem pem_entries (name : String) (content : Octets) (hextension : extension? name = some "pem") :
    (name, .file content) ∈ soleEntries ↔ (name, .file content) ∈ anchorEntries := by
  simp only [soleEntries, anchorEntries, List.mem_cons, Prod.mk.injEq, FileEntry.file.injEq,
    reduceCtorEq, and_false, List.not_mem_nil, or_false]
  constructor
  · rintro (ha | hb)
    · exact .inr (.inr (.inl ha))
    · exact .inl hb
  · rintro (hb | ⟨rfl, -⟩ | ha | ⟨rfl, -⟩ | ⟨rfl, -⟩)
    · exact .inr hb
    · exact absurd hextension (by decide)
    · exact .inl ha
    · exact absurd hextension (by decide)
    · exact absurd hextension (by decide)

theorem anchors_loaded : roots .standard (treeOf anchorEntries) "/etc/cas" = .ok [[0], [1]]
    ∧ roots .standard (treeOf soleEntries) "/etc/cas"
      = roots .standard (treeOf anchorEntries) "/etc/cas" := by
  have hlisted := etc_cas_listed anchorEntries
  obtain ⟨here, hat, -, -, -, hsame⟩ :=
    (roots_all_or_none .standard anchors_isProper "/etc/cas").2 _ hlisted.list
  obtain ⟨rfl, -⟩ := hat.unique hlisted
  refine ⟨by decide +kernel, hsame _ _ _ sole_isProper (etc_cas_listed _) pem_entries ?_⟩
  exact fun _ _ _ _ _ => rfl

theorem sole_loadable (name : String) (content : Octets)
    (hentry : (name, .file content) ∈ soleEntries) : content.length ≤ sizeLimit
      ∧ ∃ certificates, Pki.standard.bundle? content = some certificates ∧ certificates ≠ [] := by
  obtain ⟨hfirst, hsecond⟩ := pemOf_isBundle
  simp only [soleEntries, List.mem_cons, Prod.mk.injEq, FileEntry.file.injEq, List.not_mem_nil,
    or_false] at hentry
  rcases hentry with ⟨-, rfl⟩ | ⟨-, rfl⟩
  · exact ⟨hfirst.small, _, hfirst.readable, hfirst.filled⟩
  · exact ⟨hsecond.small, _, hsecond.readable, hsecond.filled⟩

/-- The tree with one of the bundles unreadable. -/
def deniedTree : FileTree :=
  { treeOf soleEntries with
    refuses := fun use names =>
      if use = .read && names = ["etc", "cas", "a.pem"] then some .denied else none }

/-- The directories of which a condition holds are loaded exactly when their bundles are in order. -/
def LoadedByContent (condition : FileTree → String → Prop) : Prop :=
  ∀ (t : FileTree) (directory : String) (entries : List (String × FileEntry)), t.root.IsProper →
    t.list directory = .ok entries → condition t directory →
    ((∃ certificates, roots .standard t directory = .ok certificates)
      ↔ ∀ name content, (name, .file content) ∈ entries → extension? name = some "pem" →
        content.length ≤ sizeLimit
          ∧ ∃ certificates, Pki.standard.bundle? content = some certificates ∧ certificates ≠ [])

/-- Bundles that are in order are not loaded when one of them may not be read, nor, where everything may
be read, when slashes behind the directory take them out of reach. And a path through an entry that is no
bundle leads nowhere without it. -/
theorem access_stops_loading :
    ¬ LoadedByContent Unrefused
    ∧ ¬ LoadedByContent (fun _ directory => directory.utf8ByteSize + 256 ≤ FileTree.pathLimit)
    ∧ ¬ ∀ (t : FileTree) (directory : String) (names : List String)
      (entries entries' : List (String × FileEntry)), t.root.IsProper →
      t.locate false directory = .ok ⟨names, some (.directory entries)⟩ →
      (FileEntry.put (.directory entries') names t.root).IsProper →
      (∀ name content, extension? name = some "pem" →
        ((name, .file content) ∈ entries' ↔ (name, .file content) ∈ entries)) →
      roots .standard { t with root := FileEntry.put (.directory entries') names t.root } directory
        = roots .standard t directory := by
  refine ⟨fun h => ?_, fun h => ?_, fun h => ?_⟩
  · have hfar := cas_listed soleEntries 4092 (by decide)
    have hfree : Unrefused (treeOf soleEntries) (FileTree.slashedBehind "cas" 4092) := by
      intro here entries hfound
      obtain ⟨rfl, rfl⟩ := hfar.unique hfound
      refine ⟨rfl, fun name content hentry _ => ⟨rfl, ?_⟩⟩
      simp only [soleEntries, List.mem_cons, Prod.mk.injEq, List.not_mem_nil, or_false] at hentry
      rcases hentry with ⟨rfl, -⟩ | ⟨rfl, -⟩ <;> rfl
    have hloaded := (h _ _ _ sole_isProper hfar.list hfree).2
      fun name content hentry _ => sole_loadable name content hentry
    obtain ⟨files, hfiles, -⟩ := listing_of_list sole_isProper hfar
    have hopens := ((loaded_iff sole_isProper hfar hfiles).1 hloaded "a.pem" (pemOf "AA==")
      (by simp [soleEntries]) (by decide)).1
    have hshort := hopens.short
    have hjoined := (FileTree.joinPath_size (FileTree.slashedBehind "cas" 4092) "a.pem").1
    have hname : ("a.pem" : String).utf8ByteSize = 5 := rfl
    have hcas : ("cas" : String).utf8ByteSize = 3 := rfl
    rw [FileTree.slashedBehind_size, hname, hcas] at hjoined
    have hlimit : FileTree.pathLimit = 4095 := rfl
    omega
  · have hlisted : deniedTree.ListsAt "cas" ["etc", "cas"] soleEntries :=
      ⟨FileTree.locate_slashedBehind (n := 0) (by decide) (by decide) rfl rfl, rfl⟩
    obtain ⟨certificates, hloaded⟩ := (h deniedTree "cas" _ sole_isProper hlisted.list
      (by decide)).2 fun name content hentry _ => sole_loadable name content hentry
    have hdenied : roots .standard deniedTree "cas" = .error (.io "cas/a.pem" .denied) := by
      decide +kernel
    exact not_ok_and_error hloaded hdenied
  · have hparts : FileTree.components "cas/x.pem/.." = ["cas", "x.pem", ".."] := by decide +kernel
    have hslash : ("cas/x.pem/.." : String).startsWith "/" = false := by simp
    have hstart : (treeOf anchorEntries).start "cas/x.pem/.." = ["etc"] := by
      rw [FileTree.start, hslash]
      rfl
    have hlocated : (treeOf anchorEntries).locate false "cas/x.pem/.."
        = .ok ⟨["etc", "cas"], some (.directory anchorEntries)⟩ :=
      FileTree.locate_of_walk (by decide) hstart rfl hparts rfl
    have hsame := h _ _ _ _ soleEntries anchors_isProper hlocated sole_isProper pem_entries
    revert hsame
    change ¬ roots .standard (treeOf soleEntries) "cas/x.pem/.."
      = roots .standard (treeOf anchorEntries) "cas/x.pem/.."
    decide +kernel

end Anchors

end ImageTrust.Bundle
