import ImageTrust.Proofs.Files.Listing

/-!
Adding to a file. What is put at a place in a tree is found there, and everywhere else the tree looks
as before to somebody who walks along a path. So a path to a file, through links or not, leads to the
longer file afterwards, and a path behind which a file was made leads to that.
-/

namespace ImageTrust

namespace FileEntry

variable {e d : FileEntry} {new : Octets} {name : String} {names loc : List String}

theorem lookup_setName (name : String) (e : FileEntry) (other : String) :
    ∀ entries : List (String × FileEntry),
      (setName name e entries).lookup other = if other = name then some e else entries.lookup other
  | [] => by
    by_cases h : other = name
    · simp [setName, h]
    · simp [setName, h, List.lookup_cons, beq_false_of_ne h]
  | (n, f) :: rest => by
    have ih := lookup_setName name e other rest
    by_cases hn : n = name
    · by_cases h : other = name
      · simp [setName, hn, h]
      · simp [setName, hn, h, List.lookup_cons, beq_false_of_ne h]
    · by_cases ho : other = n
      · have hne : ¬ other = name := fun h => hn (ho.symm.trans h)
        simp [setName, ho, hn]
      · simp [setName, hn, List.lookup_cons, beq_false_of_ne ho, ih]

theorem at?_cons (e : FileEntry) (name : String) (names : List String) :
    e.at? (name :: names) = (e.child? name).bind (·.at? names) := rfl

theorem at?_append (e : FileEntry) (front back : List String) :
    e.at? (front ++ back) = (e.at? front).bind (·.at? back) := by
  unfold FileEntry.at?
  rw [List.foldlM_append, Option.bind_eq_bind]

theorem at?_of_file (content : Octets) (h : names ≠ []) : (FileEntry.file content).at? names = none := by
  obtain ⟨name, rest, rfl⟩ := List.exists_cons_of_ne_nil h
  rfl

/-- The entry of a name in what is put below it. -/
theorem child?_put (file : FileEntry) (name : String) (names : List String) (e : FileEntry)
    (other : String) : (put file (name :: names) e).child? other
      = if other = name then some (put file names ((e.child? name).getD (.directory [])))
        else e.child? other := by
  cases e with
  | directory entries => exact lookup_setName name _ other entries
  | file content => exact lookup_setName name _ other []
  | link target => exact lookup_setName name _ other []

/-- What is put at a place is there. -/
theorem at?_put (file : FileEntry) (loc : List String) (e : FileEntry) :
    (put file loc e).at? loc = some file := by
  induction loc generalizing e with
  | nil => rfl
  | cons name loc ih => rw [at?_cons, child?_put, if_pos rfl, Option.bind_some, ih]

/-- Two entries that are alike to a walk: it does not see what a directory holds. -/
inductive Alike : Option FileEntry → Option FileEntry → Prop where
  | same (f : Option FileEntry) : Alike f f
  | directory (entries entries') : Alike (some (.directory entries)) (some (.directory entries'))

/-- Only directories are passed on the way to a place. -/
def PassesDirectories (e : FileEntry) (loc : List String) : Prop :=
  ∀ front back, loc = front ++ back → front ≠ [] → back ≠ [] →
    ∃ entries, e.at? front = some (.directory entries)

/-- There is a file, or nothing yet. -/
def TakesFile (e : Option FileEntry) : Prop :=
  e = none ∨ ∃ old, e = some (.file old)

/-- Nothing else looks different to a walk when a file is put at a place. The induction is on the
place. -/
theorem at?_put_alike (hpass : e.PassesDirectories loc) (htakes : TakesFile (e.at? loc))
    (hnames : names ≠ []) (hother : names ≠ loc) :
    Alike (e.at? names) ((put (.file new) loc e).at? names) := by
  induction loc generalizing e names with
  | nil =>
    obtain h | ⟨old, h⟩ := htakes
    · cases h
    · obtain rfl : e = .file old := Option.some.inj h
      rw [put, at?_of_file _ hnames, at?_of_file _ hnames]
      exact .same none
  | cons name loc ih =>
    obtain ⟨first, rest, rfl⟩ := List.exists_cons_of_ne_nil hnames
    rw [at?_cons, at?_cons, child?_put]
    by_cases hfirst : first = name
    · subst hfirst
      have hrest : rest ≠ loc := fun h => hother (by rw [h])
      rw [if_pos rfl, Option.bind_some]
      rw [at?_cons] at htakes
      by_cases hlast : loc = []
      · -- the place is this name, and nothing is below a file
        subst hlast
        rw [put, at?_of_file new hrest]
        obtain h | ⟨old, h⟩ := htakes
        · cases hchild : e.child? first with
          | none => exact .same none
          | some d =>
            rw [hchild] at h
            cases h
        · obtain ⟨d, hchild, hd⟩ := Option.bind_eq_some_iff.1 h
          obtain rfl : d = .file old := Option.some.inj hd
          rw [hchild, Option.bind_some, at?_of_file old hrest]
          exact .same none
      · -- the name is that of a directory on the way
        obtain ⟨entries, hentries⟩ := hpass [first] loc rfl (List.cons_ne_nil _ _) hlast
        rw [at?_cons] at hentries
        obtain ⟨d, hchild, hd⟩ := Option.bind_eq_some_iff.1 hentries
        obtain rfl : d = .directory entries := Option.some.inj hd
        rw [hchild, Option.getD_some, Option.bind_some]
        rw [hchild, Option.bind_some] at htakes
        by_cases hempty : rest = []
        · subst hempty
          obtain ⟨next, more, rfl⟩ := List.exists_cons_of_ne_nil hlast
          exact .directory _ _
        · refine ih ?_ htakes hempty hrest
          intro front back hsplit hfront hback
          obtain ⟨below, hbelow⟩ := hpass (first :: front) back (by rw [hsplit]; rfl)
            (List.cons_ne_nil _ _) hback
          rw [at?_cons, hchild, Option.bind_some] at hbelow
          exact ⟨below, hbelow⟩
    · rw [if_neg hfirst]
      exact .same _

end FileEntry

namespace FileTree

open FileEntry (Alike PassesDirectories TakesFile)

variable {t t' : FileTree} {making : Bool} {names rest : List String} {path : String}
  {content old : Octets} {p : FileLocation}
  {again again' : List String → List String → Except IoFault FileLocation}

/-- Every name leads to a directory, one below the other. -/
def IsWay (t : FileTree) (names : List String) : Prop :=
  ∀ front back, names = front ++ back → front ≠ [] →
    ∃ entries, t.root.at? front = some (.directory entries)

theorem IsWay.passes (h : t.IsWay names) : t.root.PassesDirectories names :=
  fun front back hsplit hfront _ => h front back hsplit hfront

theorem IsWay.nil : t.IsWay [] := fun _ _ hsplit hfront =>
  absurd (List.append_eq_nil_iff.1 hsplit.symm).1 hfront

/-- The names of a directory lead to it through directories. -/
theorem IsWay.of_directory {entries : List (String × FileEntry)}
    (h : t.root.at? names = some (.directory entries)) : t.IsWay names := by
  rintro front back rfl -
  rw [FileEntry.at?_append] at h
  obtain ⟨e, hfront, hback⟩ := Option.bind_eq_some_iff.1 h
  cases e with
  | directory below => exact ⟨below, hfront⟩
  | file | link =>
    cases back <;> cases hback

theorem IsWay.dropLast (h : t.IsWay names) : t.IsWay names.dropLast := by
  intro front back hsplit hfront
  by_cases hempty : names = []
  · subst hempty
    obtain rfl : front = [] := (List.append_eq_nil_iff.1 hsplit.symm).1
    exact absurd rfl hfront
  · refine h front (back ++ [names.getLast hempty]) ?_ hfront
    rw [← List.append_assoc, ← hsplit, List.dropLast_append_getLast]

/-- What is passed on the way to a name behind others are these. -/
theorem split_concat {name : String} {front back : List String} (h : names ++ [name] = front ++ back)
    (hback : back ≠ []) : ∃ between, names = front ++ between := by
  refine ⟨back.dropLast, ?_⟩
  have hlast := congrArg List.dropLast h
  rwa [List.dropLast_concat, List.dropLast_append_of_ne_nil hback] at hlast

theorem IsWay.passes_concat (h : t.IsWay names) (name : String) :
    t.root.PassesDirectories (names ++ [name]) := by
  intro front back hsplit hfront hback
  obtain ⟨between, hnames⟩ := split_concat hsplit hback
  exact h front between hnames hfront

/-- A walk passes directories only. -/
theorem walkWith_passes
    (hagain : ∀ names rest p, t.IsWay names → again names rest = .ok p →
      t.root.PassesDirectories p.names)
    (hway : t.IsWay names) (h : walkWith again t making names rest = .ok p) :
    t.root.PassesDirectories p.names := by
  fun_induction walkWith again t making names rest
  case case1 =>
    cases h
    exact hway.passes
  case case3 | case6 | case7 | case9 | case11 => cases h
  case case2 ih | case4 ih => exact ih hway h
  case case5 ih => exact ih hway.dropLast h
  case case8 | case10 =>
    cases h
    exact hway.passes_concat _
  case case12 hdirectory ih => exact ih (.of_directory hdirectory) h
  case case13 =>
    refine hagain _ _ _ ?_ h
    split_ifs
    · exact .nil
    · exact hway

theorem walk_passes {left : Nat} (hway : t.IsWay names)
    (h : t.walk making left names rest = .ok p) : t.root.PassesDirectories p.names := by
  induction left generalizing names rest p with
  | zero => exact walkWith_passes (fun _ _ _ _ h => by cases h) hway h
  | succ left ih => exact walkWith_passes (fun names rest p hway h => ih hway h) hway h

/-- A tree looks like another one but for a file at a place. -/
structure DiffersAt (t t' : FileTree) (loc : List String) (content : Octets) : Prop where
  here : t'.here = t.here
  refuses : t'.refuses = t.refuses
  takes : TakesFile (t.root.at? loc)
  put : t'.root.at? loc = some (.file content)
  alike : ∀ names, names ≠ [] → names ≠ loc → Alike (t.root.at? names) (t'.root.at? names)

/-- What is neither missing nor a file is at another place, and looks as before. -/
theorem DiffersAt.elsewhere {loc : List String} (h : DiffersAt t t' loc content) {e : FileEntry}
    (hnames : names ≠ []) (he : t.root.at? names = some e) (hfile : ∀ old, e ≠ .file old) :
    Alike (some e) (t'.root.at? names) := by
  rw [← he]
  refine h.alike names hnames ?_
  rintro rfl
  obtain hnone | ⟨old, hold⟩ := h.takes
  · rw [he] at hnone
    cases hnone
  · rw [he] at hold
    exact hfile old (Option.some.inj hold)

theorem DiffersAt.directory {loc : List String} {entries : List (String × FileEntry)}
    (h : DiffersAt t t' loc content) (hnames : names ≠ [])
    (hat : t.root.at? names = some (.directory entries)) :
    ∃ entries, t'.root.at? names = some (.directory entries) := by
  have hsame := h.elsewhere hnames hat fun _ h => by cases h
  generalize t'.root.at? names = seen at hsame ⊢
  cases hsame <;> exact ⟨_, rfl⟩

theorem DiffersAt.link {loc : List String} {target : String} (h : DiffersAt t t' loc content)
    (hnames : names ≠ []) (hat : t.root.at? names = some (.link target)) :
    t'.root.at? names = some (.link target) := by
  have hsame := h.elsewhere hnames hat fun _ h => by cases h
  generalize t'.root.at? names = seen at hsame ⊢
  cases hsame
  rfl

/-- A walk that ends at the place ends there too when the file has been put. -/
theorem walkWith_put {loc : List String} (hdiffers : DiffersAt t t' loc content)
    (hagain : ∀ names rest, again names rest = .ok p →
      again' names rest = .ok ⟨loc, some (.file content)⟩)
    (hloc : p.names = loc) (h : walkWith again t making names rest = .ok p) :
    walkWith again' t' making names rest = .ok ⟨loc, some (.file content)⟩ := by
  fun_induction walkWith again t making names rest
  case case1 names =>
    obtain rfl : names = loc := by
      cases h
      exact hloc
    rw [walkWith, hdiffers.put]
  case case2 ih => exact ih h
  case case3 | case6 | case7 | case9 | case11 => cases h
  case case4 hsearch hfilled ih =>
    rw [walkWith_cons hfilled, hdiffers.refuses, hsearch]
    exact ih h
  case case5 hsearch hfilled hhere ih =>
    rw [walkWith_cons hfilled, hdiffers.refuses, hsearch]
    exact ih h
  -- the last component is missing or a file, so the place is there
  case case8 hfilled hsearch hhere habove hslash hlong here hat hlast =>
    obtain rfl : here = loc := by
      cases h
      exact hloc
    rw [walkWith_step hfilled (hdiffers.refuses ▸ hsearch) hhere habove hslash hlong, hdiffers.put]
    exact if_pos hlast
  case case10 hfilled hsearch hhere habove hslash hlong here old hat hlast =>
    obtain rfl : here = loc := by
      cases h
      exact hloc
    rw [walkWith_step hfilled (hdiffers.refuses ▸ hsearch) hhere habove hslash hlong, hdiffers.put]
    exact if_pos hlast
  case case12 hfilled hsearch hhere habove hslash hlong here entries hat ih =>
    obtain ⟨entries', hat'⟩ :=
      hdiffers.directory (List.append_ne_nil_of_right_ne_nil _ (List.cons_ne_nil _ _)) hat
    rw [walkWith_step hfilled (hdiffers.refuses ▸ hsearch) hhere habove hslash hlong, hat']
    exact ih h
  case case13 hfilled hsearch hhere habove hslash hlong here target hat =>
    have hat' := hdiffers.link (List.append_ne_nil_of_right_ne_nil _ (List.cons_ne_nil _ _)) hat
    rw [walkWith_step hfilled (hdiffers.refuses ▸ hsearch) hhere habove hslash hlong, hat']
    exact hagain _ _ h

theorem walk_put {loc : List String} {left : Nat} (hdiffers : DiffersAt t t' loc content)
    (hloc : p.names = loc) (h : t.walk making left names rest = .ok p) :
    t'.walk making left names rest = .ok ⟨loc, some (.file content)⟩ := by
  induction left generalizing names rest with
  | zero => exact walkWith_put hdiffers (fun _ _ h => by cases h) hloc h
  | succ left ih => exact walkWith_put hdiffers (fun _ _ h => ih h) hloc h

/-- A path leads to the file that was put where it led. -/
theorem locate_put (h : t.locate making path = .ok p) (htakes : TakesFile p.entry) :
    (t.putFile p.names content).locate making path = .ok ⟨p.names, some (.file content)⟩ := by
  obtain ⟨husable, ⟨entries, hstart⟩, hwalk⟩ := locate_ok_iff.1 h
  rw [walk_entry hwalk] at htakes
  have hdiffers : DiffersAt t (t.putFile p.names content) p.names content :=
    ⟨rfl, rfl, htakes, FileEntry.at?_put _ _ _, fun names =>
      FileEntry.at?_put_alike (walk_passes (.of_directory hstart) hwalk) htakes⟩
  have hbegins : (t.putFile p.names content).Begins path := by
    by_cases hempty : t.start path = []
    · -- the root is a directory, so the file stands below it
      rw [hempty] at hstart
      have hbelow : p.names ≠ [] := by
        intro hroot
        rw [hroot, hstart] at htakes
        obtain h | ⟨old, h⟩ := htakes <;> cases h
      obtain ⟨name, names, hnames⟩ := List.exists_cons_of_ne_nil hbelow
      change ∃ entries, (FileEntry.put _ p.names t.root).at? (t.start path) = _
      rw [hempty, hnames]
      exact ⟨_, rfl⟩
    · exact hdiffers.directory hempty hstart
  exact locate_ok_iff.2 ⟨husable, hbegins, walk_put hdiffers rfl hwalk⟩

/-- With a file to be made fewer paths can be resolved, and those lead to the same. -/
theorem walkWith_of_making
    (hagain : ∀ names rest, again names rest = .ok p → again' names rest = .ok p)
    (h : walkWith again t true names rest = .ok p) : walkWith again' t false names rest = .ok p := by
  fun_induction walkWith again t true names rest
  case case1 => exact h
  case case2 ih => exact ih h
  case case3 | case6 | case7 | case9 | case11 => cases h
  case case4 hsearch hfilled ih =>
    rw [walkWith_cons hfilled, hsearch]
    exact ih h
  case case5 hsearch hfilled hhere ih =>
    rw [walkWith_cons hfilled, hsearch]
    exact ih h
  case case8 hfilled hsearch hhere habove _ hlong here hat hlast =>
    rw [walkWith_step hfilled hsearch hhere habove (by simp) hlong, hat]
    exact (if_pos hlast).trans h
  case case10 hfilled hsearch hhere habove _ hlong here old hat hlast =>
    rw [walkWith_step hfilled hsearch hhere habove (by simp) hlong, hat]
    exact (if_pos hlast).trans h
  case case12 hfilled hsearch hhere habove _ hlong here entries hat ih =>
    rw [walkWith_step hfilled hsearch hhere habove (by simp) hlong, hat]
    exact ih h
  case case13 hfilled hsearch hhere habove _ hlong here target hat =>
    rw [walkWith_step hfilled hsearch hhere habove (by simp) hlong, hat]
    exact hagain _ _ h

theorem locate_of_making (h : t.locate true path = .ok p) : t.locate false path = .ok p := by
  have hwalk : ∀ {left : Nat} {names rest : List String}, t.walk true left names rest = .ok p →
      t.walk false left names rest = .ok p := by
    intro left
    induction left with
    | zero => exact fun h => walkWith_of_making (fun _ _ h => by cases h) h
    | succ left ih => exact fun h => walkWith_of_making (fun _ _ h => ih h) h
  obtain ⟨husable, hbegins, h⟩ := locate_ok_iff.1 h
  exact locate_ok_iff.2 ⟨husable, hbegins, hwalk h⟩

/-- A path leads to a file with this content, and the file may be written to. -/
def Writable (t : FileTree) (path : String) (content : Octets) : Prop :=
  ∃ loc, t.locate true path = .ok ⟨loc, some (.file content)⟩ ∧ t.refuses .write loc = none

theorem Writable.entry (h : t.Writable path content) : t.entry path = .ok (.file content) := by
  obtain ⟨loc, hlocated, -⟩ := h
  exact entry_ok_iff.2 ⟨_, locate_of_making hlocated, rfl⟩

/-- What is added stands behind what the file held, or alone in a file that was missing, and the file may
be written to again. -/
theorem writable_of_append (h : t.append path content = .ok t') :
    ∃ old, t'.Writable path (old ++ content)
      ∧ (t.entry path = .ok (.file old) ∨ t.entry path = .error .notFound ∧ old = []) := by
  unfold append at h
  obtain ⟨p, hlocated, h⟩ := (bind_ok_iff _ _ _).1 h
  obtain ⟨old, hold, h⟩ := (bind_ok_iff _ _ _).1 h
  obtain ⟨u, hallowed, h⟩ := (bind_ok_iff _ _ _).1 h
  cases h
  have hput (htakes : TakesFile p.entry) : (t.putFile p.names (old ++ content)).Writable path
      (old ++ content) := ⟨p.names, locate_put hlocated htakes, allow_ok_iff.1 hallowed⟩
  unfold FileLocation.content at hold
  cases hentry : p.entry with
  | none =>
    rw [hentry] at hold
    cases hold
    have hmissing : t.entry path = .error .notFound := by
      rw [FileTree.entry, locate_of_making hlocated, ok_bind, hentry]
      rfl
    exact ⟨[], hput (.inl hentry), .inr ⟨hmissing, rfl⟩⟩
  | some e =>
    rw [hentry] at hold
    cases e with
    | file former =>
      cases hold
      have hfound : t.entry path = .ok (.file old) :=
        entry_ok_iff.2 ⟨p, locate_of_making hlocated, hentry⟩
      exact ⟨old, hput (.inr ⟨old, hentry⟩), .inl hfound⟩
    | directory | link => cases hold

/-- A file that may be written to can be added to. -/
theorem Writable.append (h : t.Writable path old) (content : Octets) :
    ∃ t', t.append path content = .ok t' ∧ t'.Writable path (old ++ content) := by
  obtain ⟨loc, hlocated, hallowed⟩ := h
  refine ⟨t.putFile loc (old ++ content), ?_, loc, locate_put hlocated (.inr ⟨old, rfl⟩), hallowed⟩
  rw [FileTree.append, hlocated, ok_bind, FileLocation.content, ok_bind, allow, hallowed]
  rfl

end FileTree

end ImageTrust
