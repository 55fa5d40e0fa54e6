import Mathlib.Data.List.Basic
import ImageTrust.Files.Tree
import ImageTrust.Proofs.Fallible
import ImageTrust.Proofs.Lookup

/-!
Files of a directory that is listed. In a tree whose directories name their entries properly, the path of
a directory joined with the name of a file that it lists leads to that file. Three things may keep the
file from being used: the path is too long, the directory may not be searched, or the file may not be
used so. The length makes one file be in reach by one path and out of reach by another.
-/

namespace ImageTrust

/-- A name that an entry of a directory can have. -/
structure IsFileName (name : String) : Prop where
  filled : name ≠ ""
  notHere : name ≠ "."
  notAbove : name ≠ ".."
  whole : '/' ∉ name.toList
  noZero : '\x00' ∉ name.toList
  short : name.utf8ByteSize ≤ 255

instance (name : String) : Decidable (IsFileName name) :=
  decidable_of_iff (name ≠ "" ∧ name ≠ "." ∧ name ≠ ".." ∧ '/' ∉ name.toList ∧ '\x00' ∉ name.toList
      ∧ name.utf8ByteSize ≤ 255)
    ⟨fun ⟨hfilled, hhere, habove, hwhole, hzero, hshort⟩ =>
      ⟨hfilled, hhere, habove, hwhole, hzero, hshort⟩,
    fun h => ⟨h.filled, h.notHere, h.notAbove, h.whole, h.noZero, h.short⟩⟩

namespace FileEntry

/-- The directories below an entry name their entries properly, and each by a name of its own. -/
inductive IsProper : FileEntry → Prop where
  | file (content) : IsProper (.file content)
  | link (target) : IsProper (.link target)
  | directory (entries) : (∀ name ∈ entries.map (·.1), IsFileName name) →
      (entries.map (·.1)).Nodup → (∀ e ∈ entries, e.2.IsProper) → IsProper (.directory entries)

theorem IsProper.child? {e f : FileEntry} {name : String} (he : e.IsProper)
    (h : e.child? name = some f) : f.IsProper := by
  cases he with
  | file => cases h
  | link => cases h
  | directory entries _ _ hbelow => exact hbelow _ (lookup_mem h)

theorem IsProper.at? {e f : FileEntry} {names : List String} (he : e.IsProper)
    (h : e.at? names = some f) : f.IsProper := by
  induction names generalizing e with
  | nil =>
    cases h
    exact he
  | cons name names ih =>
    unfold FileEntry.at? at h
    rw [List.foldlM_cons, Option.bind_eq_bind, Option.bind_eq_some_iff] at h
    obtain ⟨c, hc, h⟩ := h
    exact ih (he.child? hc) h

theorem at?_concat (e : FileEntry) (names : List String) (name : String) :
    e.at? (names ++ [name]) = (e.at? names).bind (·.child? name) := by
  unfold FileEntry.at?
  rw [List.foldlM_append, Option.bind_eq_bind]
  refine Option.bind_congr fun d _ => ?_
  simp [List.foldlM_cons]

/-- What has an entry in it is a directory. -/
theorem directory_of_at? {e f : FileEntry} {names : List String} {name : String}
    (h : e.at? (names ++ [name]) = some f) : ∃ entries, e.at? names = some (.directory entries) := by
  rw [at?_concat] at h
  obtain ⟨d, hd, hchild⟩ := Option.bind_eq_some_iff.1 h
  cases d with
  | directory entries => exact ⟨entries, hd⟩
  | file | link => cases hchild

end FileEntry

namespace FileTree

variable {t : FileTree} {making : Bool} {use : FileUse} {name path : String}
  {names rest here : List String} {entries : List (String × FileEntry)} {content : Octets}
  {p : FileLocation} {again : List String → List String → Except IoFault FileLocation}

theorem walkWith_entry
    (hagain : ∀ names rest p, again names rest = .ok p → p.entry = t.root.at? p.names)
    (h : walkWith again t making names rest = .ok p) : p.entry = t.root.at? p.names := by
  fun_induction walkWith again t making names rest
  case case1 =>
    cases h
    rfl
  case case3 | case6 | case7 | case9 | case11 => cases h
  case case2 ih | case4 ih | case5 ih | case12 ih => exact ih h
  -- the last component is missing or a file
  case case8 hlast _ | case10 hlast _ =>
    cases h
    exact hlast.symm
  case case13 => exact hagain _ _ _ h

/-- A walk ends at what the tree has there. -/
theorem walk_entry {left : Nat} (h : t.walk making left names rest = .ok p) :
    p.entry = t.root.at? p.names := by
  induction left generalizing names rest p with
  | zero =>
    refine walkWith_entry (fun names rest p h => ?_) h
    cases h
  | succ left ih => exact walkWith_entry (fun names rest p => ih) h

theorem walkWith_cons (hfilled : name ≠ "") :
    walkWith again t making names (name :: rest) = match t.refuses .search names with
      | some cause => .error cause
      | none =>
        if name = "." then walkWith again t making names rest
        else if name = ".." then walkWith again t making names.dropLast rest
        else if making && rest = [""] then .error .isDirectory
        else if name.utf8ByteSize > 255 then .error .nameTooLong
        else match t.root.at? (names ++ [name]) with
          | none => if rest.isEmpty then .ok ⟨names ++ [name], none⟩ else .error .notFound
          | some (.file content) =>
            if rest.isEmpty then .ok ⟨names ++ [name], some (.file content)⟩ else .error .notDirectory
          | some (.directory _) => walkWith again t making (names ++ [name]) rest
          | some (.link target) =>
            again (if target.startsWith "/" then [] else names) (components target ++ rest) := by
  rw [walkWith.eq_def]
  split
  · contradiction
  · rename_i heq
    exact absurd (List.cons.inj heq).1 hfilled
  · rename_i heq
    obtain ⟨rfl, rfl⟩ := List.cons.inj heq
    rfl

/-- A step to a name that may be looked for. -/
theorem walkWith_step (hfilled : name ≠ "") (hsearch : t.refuses .search names = none)
    (hhere : name ≠ ".") (habove : name ≠ "..") (hslash : ¬ (making && rest = [""]) = true)
    (hlong : ¬ name.utf8ByteSize > 255) :
    walkWith again t making names (name :: rest) = match t.root.at? (names ++ [name]) with
      | none => if rest.isEmpty then .ok ⟨names ++ [name], none⟩ else .error .notFound
      | some (.file content) =>
        if rest.isEmpty then .ok ⟨names ++ [name], some (.file content)⟩ else .error .notDirectory
      | some (.directory _) => walkWith again t making (names ++ [name]) rest
      | some (.link target) =>
        again (if target.startsWith "/" then [] else names) (components target ++ rest) := by
  rw [walkWith_cons hfilled, hsearch]
  dsimp only
  rw [if_neg hhere, if_neg habove, if_neg hslash, if_neg hlong]

/-- A walk that ends in a directory goes on to a name in it, also when a slash at its end made it ask
for the directory. -/
theorem walkWith_onward {tail xs : List String} {outcome : Except IoFault FileLocation}
    (htail : tail = [] ∨ tail = [""])
    (hagain : ∀ names xs, again names (xs ++ tail) = .ok ⟨here, some (.directory entries)⟩ →
      again names (xs ++ [name]) = outcome)
    (hlast : walkWith again t false here [name] = outcome)
    (h : walkWith again t false names (xs ++ tail) = .ok ⟨here, some (.directory entries)⟩) :
    walkWith again t false names (xs ++ [name]) = outcome := by
  induction xs generalizing names with
  | nil =>
    have hnames : names = here := by
      have hstill : (Except.ok ⟨names, t.root.at? names⟩ : Except IoFault FileLocation)
          = .ok ⟨here, some (.directory entries)⟩ := by
        rcases htail with rfl | rfl <;> exact h
      exact congrArg FileLocation.names (Except.ok.inj hstill)
    rw [hnames]
    exact hlast
  | cons c xs ih =>
    rw [List.cons_append] at h ⊢
    by_cases hfilled : c = ""
    · subst hfilled
      exact ih h
    rw [walkWith_cons hfilled] at h ⊢
    cases hsearch : t.refuses .search names with
    | some cause =>
      rw [hsearch] at h
      cases h
    | none =>
      rw [hsearch] at h
      simp only [Bool.false_and, Bool.false_eq_true, if_false] at h ⊢
      by_cases hhere : c = "."
      · rw [if_pos hhere] at h ⊢
        exact ih h
      rw [if_neg hhere] at h ⊢
      by_cases habove : c = ".."
      · rw [if_pos habove] at h ⊢
        exact ih h
      rw [if_neg habove] at h ⊢
      by_cases hlong : c.utf8ByteSize > 255
      · rw [if_pos hlong] at h
        cases h
      rw [if_neg hlong] at h ⊢
      -- with more to come, a component that is missing or a file ends neither walk in a directory
      cases hat : t.root.at? (names ++ [c]) with
      | none =>
        rw [hat] at h
        dsimp only at h
        split_ifs at h
        cases h
      | some e =>
        rw [hat] at h
        cases e with
        | file content =>
          dsimp only at h
          split_ifs at h
          cases h
        | directory below => exact ih h
        | link target =>
          dsimp only at h ⊢
          rw [← List.append_assoc] at h ⊢
          exact hagain _ _ h

/-- What a step to a file of a directory comes to: the file, if the directory may be searched. -/
theorem walk_onward {left : Nat} {tail xs : List String} (htail : tail = [] ∨ tail = [""])
    (hname : IsFileName name) (hentry : entries.lookup name = some (.file content))
    (h : t.walk false left names (xs ++ tail) = .ok ⟨here, some (.directory entries)⟩) :
    t.walk false left names (xs ++ [name]) = match t.refuses .search here with
      | some cause => .error cause
      | none => .ok ⟨here ++ [name], some (.file content)⟩ := by
  have hhere : some (.directory entries) = t.root.at? here := walk_entry h
  have hat : t.root.at? (here ++ [name]) = some (.file content) := by
    rw [FileEntry.at?_concat, ← hhere]
    exact hentry
  have hlast : ∀ again, walkWith again t false here [name] = match t.refuses .search here with
      | some cause => .error cause
      | none => .ok ⟨here ++ [name], some (.file content)⟩ := by
    intro again
    cases hsearch : t.refuses .search here with
    | some cause =>
      rw [walkWith_cons hname.filled, hsearch]
    | none =>
      rw [walkWith_step hname.filled hsearch hname.notHere hname.notAbove (by decide)
        (Nat.not_lt.2 hname.short), hat]
      rfl
  induction left generalizing names xs with
  | zero => exact walkWith_onward htail nofun (hlast _) h
  | succ left ih => exact walkWith_onward htail (fun names xs h => ih h) (hlast _) h

theorem parts_append_slash (path rest : String) :
    parts (path ++ "/" ++ rest) = parts path ++ parts rest := by
  unfold parts
  have hslash : ("/" : String).toList = ['/'] := rfl
  rw [String.toList_append, String.toList_append, List.append_assoc, hslash, List.singleton_append,
    List.splitOn_append_cons_self, List.filter_append, List.map_append]

theorem parts_of_isFileName (h : IsFileName name) : parts name = [name] := by
  have hfilled : name.toList ≠ [] := mt String.toList_eq_nil_iff.1 h.filled
  unfold parts
  rw [List.splitOn_eq_singleton h.whole]
  simp [hfilled]

theorem endsWith_slash_iff : path.endsWith "/" = true ↔ path.toList.getLast? = some '/' := by
  rw [String.endsWith, String.Slice.endsWith_string_iff, String.copy_toSlice,
    List.getLast?_eq_some_iff]
  exact exists_congr fun front => eq_comm

theorem parts_of_slash (front : String) : parts (front ++ "/") = parts front := by
  have h := parts_append_slash front ""
  rw [String.append_empty] at h
  rw [h]
  simp [parts]

theorem components_below (hname : IsFileName name) (front : String) :
    components (front ++ "/" ++ name) = parts front ++ [name] := by
  have hfilled : name.toList ≠ [] := mt String.toList_eq_nil_iff.1 hname.filled
  have hends : ¬ (front ++ "/" ++ name).endsWith "/" = true := by
    rw [endsWith_slash_iff, String.toList_append, List.getLast?_append_of_ne_nil _ hfilled]
    exact fun h => hname.whole (List.mem_of_getLast? h)
  rw [components, if_neg hends, parts_append_slash, parts_of_isFileName hname]

theorem components_joinPath (hne : path ≠ "") (hname : IsFileName name) :
    ∃ xs tail, components path = xs ++ tail ∧ (tail = [] ∨ tail = [""])
      ∧ components (joinPath path name) = xs ++ [name] := by
  have hempty : path.isEmpty = false := by simpa using hne
  unfold joinPath
  rw [hempty, Bool.false_or]
  by_cases hends : path.endsWith "/" = true
  · obtain ⟨front, hfront⟩ := List.getLast?_eq_some_iff.1 (endsWith_slash_iff.1 hends)
    have hpath : path = String.ofList front ++ "/" := by
      refine String.toList_inj.1 ?_
      rw [hfront, String.toList_append, String.toList_ofList]
      rfl
    rw [components, if_pos hends, if_pos hends, hpath, parts_of_slash, components_below hname]
    exact ⟨_, _, rfl, .inr rfl, rfl⟩
  · rw [if_neg hends, components_below hname]
    refine ⟨parts path, [], ?_, .inl rfl, rfl⟩
    rw [components, if_neg hends, List.append_nil]

theorem joinPath_eq (path name : String) :
    ∃ between, (between = "" ∨ between = "/") ∧ joinPath path name = path ++ between ++ name := by
  unfold joinPath
  split_ifs
  · exact ⟨"", .inl rfl, by rw [String.append_empty]⟩
  · exact ⟨"/", .inr rfl, rfl⟩

theorem joinPath_size (path name : String) :
    path.utf8ByteSize + name.utf8ByteSize ≤ (joinPath path name).utf8ByteSize
      ∧ (joinPath path name).utf8ByteSize ≤ path.utf8ByteSize + name.utf8ByteSize + 1 := by
  obtain ⟨between, hbetween, hjoin⟩ := joinPath_eq path name
  have hsize : between.utf8ByteSize ≤ 1 := by
    rcases hbetween with rfl | rfl <;> decide +kernel
  rw [hjoin, String.utf8ByteSize_append, String.utf8ByteSize_append]
  omega

/-- A path that a system call takes. -/
structure IsUsable (path : String) : Prop where
  noZero : '\x00' ∉ path.toList
  filled : path ≠ ""
  short : path.utf8ByteSize ≤ pathLimit

instance (path : String) : Decidable (IsUsable path) :=
  decidable_of_iff ('\x00' ∉ path.toList ∧ path ≠ "" ∧ path.utf8ByteSize ≤ pathLimit)
    ⟨fun ⟨hzero, hfilled, hshort⟩ => ⟨hzero, hfilled, hshort⟩,
    fun h => ⟨h.noZero, h.filled, h.short⟩⟩

/-- The directory in which a path begins is there. -/
def Begins (t : FileTree) (path : String) : Prop :=
  ∃ entries, t.root.at? (t.start path) = some (.directory entries)

theorem locate_of_usable (h : IsUsable path) (hbegins : t.Begins path) :
    t.locate making path = t.walk making linkLimit (t.start path) (components path) := by
  obtain ⟨entries, hstart⟩ := hbegins
  unfold locate
  rw [if_neg (by simpa using h.noZero), if_neg (by simpa using h.filled),
    if_neg (Nat.not_lt.2 h.short), hstart]

theorem locate_ok_iff : t.locate making path = .ok p ↔ IsUsable path ∧ t.Begins path
    ∧ t.walk making linkLimit (t.start path) (components path) = .ok p := by
  constructor
  · intro h
    obtain ⟨husable, hbegins⟩ : IsUsable path ∧ t.Begins path := by
      unfold locate at h
      split_ifs at h with hzero hempty hlong
      split at h
      · rename_i entries hstart
        exact ⟨⟨by simpa using hzero, by simpa using hempty, Nat.not_lt.1 hlong⟩, entries, hstart⟩
      · cases h
    rw [locate_of_usable husable hbegins] at h
    exact ⟨husable, hbegins, h⟩
  · rintro ⟨husable, hbegins, h⟩
    rw [locate_of_usable husable hbegins, h]

/-- A path whose beginning and components are known is walked along. -/
theorem locate_of_walk (husable : IsUsable path) (hstart : t.start path = here)
    (hhere : t.root.at? here = some (.directory entries)) (hparts : components path = names)
    (h : t.walk making linkLimit here names = .ok p) : t.locate making path = .ok p := by
  subst hstart hparts
  exact locate_ok_iff.2 ⟨husable, ⟨entries, hhere⟩, h⟩

theorem entry_ok_iff {e : FileEntry} :
    t.entry path = .ok e ↔ ∃ p, t.locate false path = .ok p ∧ p.entry = some e := by
  unfold entry
  rw [bind_ok_iff]
  refine exists_congr fun p => and_congr_right fun _ => ?_
  cases p.entry with
  | none => exact iff_of_false nofun nofun
  | some e =>
    simp only [pure, Except.pure, Except.ok.injEq, Option.some.injEq]

theorem allow_ok_iff {u : Unit} : t.allow use names = .ok u ↔ t.refuses use names = none := by
  unfold allow
  cases t.refuses use names <;> simp

theorem take_ok_iff {e : FileEntry} : t.take use path = .ok e
    ↔ ∃ p, t.locate false path = .ok p ∧ p.entry = some e ∧ t.refuses use p.names = none := by
  unfold take
  rw [bind_ok_iff]
  refine exists_congr fun p => and_congr_right fun _ => ?_
  cases p.entry with
  | none => exact iff_of_false nofun nofun
  | some e =>
    dsimp only
    rw [bind_ok_iff]
    simp only [allow_ok_iff, pure, Except.pure, Except.ok.injEq, Option.some.injEq, exists_const]
    exact and_comm

/-- A path leads to a directory at a place, and the directory may be listed. -/
structure ListsAt (t : FileTree) (path : String) (here : List String)
    (entries : List (String × FileEntry)) : Prop where
  located : t.locate false path = .ok ⟨here, some (.directory entries)⟩
  readable : t.refuses .read here = none

theorem list_ok_iff : t.list path = .ok entries ↔ ∃ here, t.ListsAt path here entries := by
  unfold list
  rw [bind_ok_iff]
  constructor
  · rintro ⟨⟨here, found⟩, hlocated, h⟩
    split at h
    · obtain ⟨u, hallowed, h⟩ := (bind_ok_iff _ _ _).1 h
      cases h
      dsimp only at *
      subst_vars
      exact ⟨here, hlocated, allow_ok_iff.1 hallowed⟩
    · cases h
    · cases h
  · rintro ⟨here, hlocated, hallowed⟩
    refine ⟨_, hlocated, ?_⟩
    dsimp only
    rw [allow, hallowed]
    rfl

theorem ListsAt.list (h : t.ListsAt path here entries) : t.list path = .ok entries :=
  list_ok_iff.2 ⟨here, h⟩

theorem ListsAt.unique {here' : List String} {entries' : List (String × FileEntry)}
    (h : t.ListsAt path here entries) (h' : t.ListsAt path here' entries') :
    here = here' ∧ entries = entries' := by
  cases ok_unique h.located h'.located
  exact ⟨rfl, rfl⟩

theorem read_ok_iff : t.read path = .ok content ↔ t.take .read path = .ok (.file content) := by
  unfold read
  rw [bind_ok_iff]
  constructor
  · rintro ⟨e, he, h⟩
    cases e <;> cases h
    exact he
  · intro h
    exact ⟨_, h, rfl⟩

theorem IsUsable.of_isFileName (h : IsFileName name) : IsUsable name where
  noZero := h.noZero
  filled := h.filled
  short := Nat.le_trans h.short (by decide)

theorem IsUsable.append {rest : String} (h : IsUsable path) (hzero : '\x00' ∉ rest.toList)
    (hshort : (path ++ rest).utf8ByteSize ≤ pathLimit) : IsUsable (path ++ rest) := by
  refine ⟨?_, ?_, hshort⟩
  · rw [String.toList_append, List.mem_append, not_or]
    exact ⟨h.noZero, hzero⟩
  · intro hempty
    have hnil : path.toList ++ rest.toList = [] := by
      rw [← String.toList_append, hempty]
      rfl
    exact h.filled (String.toList_eq_nil_iff.1 (List.append_eq_nil_iff.1 hnil).1)

/-- What stands behind a path does not change where it begins. -/
theorem start_append (hfilled : path ≠ "") (rest : String) :
    t.start (path ++ rest) = t.start path := by
  obtain ⟨c, cs, hcs⟩ := List.exists_cons_of_ne_nil (mt String.toList_eq_nil_iff.1 hfilled)
  have hsame : (path ++ rest).startsWith "/" = path.startsWith "/" := by
    rw [Bool.eq_iff_iff, String.startsWith_string_iff, String.startsWith_string_iff,
      String.toList_append, hcs, List.cons_append]
    have hslash : ("/" : String).toList = ['/'] := rfl
    simp only [hslash, List.cons_prefix_cons, List.nil_prefix, and_true]
  rw [start, start, hsame]

theorem joinPath_behind (path : String) (hname : '\x00' ∉ name.toList) :
    ∃ rest, '\x00' ∉ rest.toList ∧ joinPath path name = path ++ rest := by
  obtain ⟨between, hbetween, hjoin⟩ := joinPath_eq path name
  have hnone : '\x00' ∉ between.toList := by
    rcases hbetween with rfl | rfl <;> decide
  refine ⟨between ++ name, ?_, by rw [hjoin, String.append_assoc]⟩
  rw [String.toList_append, List.mem_append, not_or]
  exact ⟨hnone, hname⟩

theorem IsUsable.joinPath (h : IsUsable path) (hname : IsFileName name)
    (hshort : (joinPath path name).utf8ByteSize ≤ pathLimit) : IsUsable (joinPath path name) := by
  obtain ⟨rest, hzero, hjoin⟩ := joinPath_behind path hname.noZero
  rw [hjoin] at hshort ⊢
  exact h.append hzero hshort

theorem ListsAt.fileNames (hproper : t.root.IsProper) (h : t.ListsAt path here entries) :
    (∀ name ∈ entries.map (·.1), IsFileName name) ∧ (entries.map (·.1)).Nodup := by
  have hat := walk_entry (locate_ok_iff.1 h.located).2.2
  cases hproper.at? hat.symm with
  | directory _ hnames hdistinct _ => exact ⟨hnames, hdistinct⟩

/-- What keeps a file from being used by the path of its directory and its name. -/
def obstruction (t : FileTree) (use : FileUse) (directory : String) (here : List String)
    (name : String) : Option IoFault :=
  if pathLimit < (joinPath directory name).utf8ByteSize then some .nameTooLong
  else (t.refuses .search here).or (t.refuses use (here ++ [name]))

theorem obstruction_none_iff : t.obstruction use path here name = none
    ↔ (joinPath path name).utf8ByteSize ≤ pathLimit ∧ t.refuses .search here = none
      ∧ t.refuses use (here ++ [name]) = none := by
  unfold obstruction
  split_ifs with hlong
  · exact iff_of_false nofun fun h => absurd h.1 (Nat.not_le.2 hlong)
  · rw [Option.or_eq_none_iff]
    exact (and_iff_right (Nat.not_lt.1 hlong)).symm

/-- A file of a directory can be opened and read by the path of the directory and its name. -/
structure Opens (t : FileTree) (directory : String) (here : List String) (name : String) : Prop where
  short : (joinPath directory name).utf8ByteSize ≤ pathLimit
  searched : t.refuses .search here = none
  seen : t.refuses .look (here ++ [name]) = none
  readable : t.refuses .read (here ++ [name]) = none

theorem opens_iff : t.Opens path here name
    ↔ t.obstruction .look path here name = none ∧ t.obstruction .read path here name = none := by
  rw [obstruction_none_iff, obstruction_none_iff]
  constructor
  · intro h
    exact ⟨⟨h.short, h.searched, h.seen⟩, h.short, h.searched, h.readable⟩
  · rintro ⟨⟨hshort, hsearched, hseen⟩, -, -, hreadable⟩
    exact ⟨hshort, hsearched, hseen, hreadable⟩

/-- A file of a directory is used by the path of the directory joined with its name, unless something
keeps it from being used. -/
theorem take_joinPath (hproper : t.root.IsProper) (h : t.ListsAt path here entries)
    (hmem : (name, .file content) ∈ entries) :
    t.take use (joinPath path name) = match t.obstruction use path here name with
      | some cause => .error cause
      | none => .ok (.file content) := by
  obtain ⟨husable, hbegins, hwalk⟩ := locate_ok_iff.1 h.located
  obtain ⟨hnames, hdistinct⟩ := h.fileNames hproper
  have hname := hnames name (List.mem_map_of_mem hmem)
  obtain ⟨behind, hzero, hbehind⟩ := joinPath_behind path hname.noZero
  unfold obstruction
  by_cases hlong : pathLimit < (joinPath path name).utf8ByteSize
  · have hlocated : t.locate false (joinPath path name) = .error .nameTooLong := by
      have hnone : '\x00' ∉ (joinPath path name).toList := by
        rw [hbehind, String.toList_append, List.mem_append, not_or]
        exact ⟨husable.noZero, hzero⟩
      have hfilled : joinPath path name ≠ "" := by
        intro hempty
        rw [hempty] at hlong
        exact absurd hlong (by decide)
      unfold locate
      rw [if_neg (by simpa using hnone), if_neg (by simpa using hfilled), if_pos hlong]
    rw [if_pos hlong, take, hlocated]
    rfl
  · rw [if_neg hlong]
    have husable' := husable.joinPath hname (Nat.not_lt.1 hlong)
    obtain ⟨xs, tail, hpath, htail, hjoin⟩ := components_joinPath husable.filled hname
    have hstart : t.start (joinPath path name) = t.start path := by
      rw [hbehind, start_append husable.filled]
    rw [hpath] at hwalk
    have hlocated := walk_onward htail hname ((lookup_eq_some_iff_mem hdistinct).2 hmem) hwalk
    have hbegins' : t.Begins (joinPath path name) := by
      rw [Begins, hstart]
      exact hbegins
    rw [← hjoin, ← hstart, ← locate_of_usable husable' hbegins'] at hlocated
    rw [take, hlocated]
    cases t.refuses .search here with
    | some cause => rfl
    | none =>
      rw [Option.none_or, ok_bind]
      dsimp only
      rw [allow]
      cases t.refuses use (here ++ [name]) <;> rfl

/-- Behind a directory's path that leaves room for a name, all its entries are in reach. -/
theorem joinPath_short (hproper : t.root.IsProper) (h : t.ListsAt path here entries)
    (hroom : path.utf8ByteSize + 256 ≤ pathLimit) (hmem : name ∈ entries.map (·.1)) :
    (joinPath path name).utf8ByteSize ≤ pathLimit := by
  have hname := ((h.fileNames hproper).1 name hmem).short
  have hsize := (joinPath_size path name).2
  omega

section Top

/-- A path with slashes behind it. -/
def slashedBehind (path : String) : Nat → String
  | 0 => path
  | n + 1 => slashedBehind path n ++ "/"

theorem slashedBehind_size (path : String) (n : Nat) :
    (slashedBehind path n).utf8ByteSize = path.utf8ByteSize + n := by
  induction n with
  | zero => rfl
  | succ n ih =>
    have hslash : ("/" : String).utf8ByteSize = 1 := rfl
    rw [slashedBehind, String.utf8ByteSize_append, ih, hslash, Nat.add_assoc]

theorem slashedBehind_behind (path : String) : ∀ n, ∃ rest, slashedBehind path n = path ++ rest
  | 0 => ⟨"", String.append_empty.symm⟩
  | n + 1 => by
    obtain ⟨rest, hrest⟩ := slashedBehind_behind path n
    exact ⟨rest ++ "/", by rw [slashedBehind, hrest, String.append_assoc]⟩

theorem parts_slashedBehind (path : String) (n : Nat) : parts (slashedBehind path n) = parts path := by
  induction n with
  | zero => rfl
  | succ n ih => rw [slashedBehind, parts_of_slash, ih]

theorem IsUsable.slashedBehind (h : IsUsable path) {n : Nat}
    (hshort : path.utf8ByteSize + n ≤ pathLimit) : IsUsable (slashedBehind path n) := by
  induction n with
  | zero => exact h
  | succ n ih =>
    refine (ih (by omega)).append (by decide) ?_
    have hsize := slashedBehind_size path (n + 1)
    rw [FileTree.slashedBehind] at hsize
    rw [hsize]
    exact hshort

/-- A directory inside the current one is found by its name, with slashes behind it or not. -/
theorem locate_slashedBehind {n : Nat} (hname : IsFileName name)
    (hshort : name.utf8ByteSize + n ≤ pathLimit) (hsearch : t.refuses .search t.here = none)
    (hat : t.root.at? (t.here ++ [name]) = some (.directory entries)) :
    t.locate false (slashedBehind name n) = .ok ⟨t.here ++ [name], some (.directory entries)⟩ := by
  have hlast : ∀ tail : List String, tail = [] ∨ tail = [""] →
      t.walk false linkLimit t.here (name :: tail)
        = .ok ⟨t.here ++ [name], some (.directory entries)⟩ := by
    intro tail htail
    rw [linkLimit, walk, walkWith_step hname.filled hsearch hname.notHere hname.notAbove (by simp)
      (Nat.not_lt.2 hname.short), hat]
    have hhere : (Except.ok ⟨t.here ++ [name], t.root.at? (t.here ++ [name])⟩ :
        Except IoFault FileLocation) = .ok ⟨t.here ++ [name], some (.directory entries)⟩ := by
      rw [hat]
    rcases htail with rfl | rfl <;> exact hhere
  have hparts := parts_slashedBehind name n
  rw [parts_of_isFileName hname] at hparts
  have hstart : t.start (slashedBehind name n) = t.here := by
    obtain ⟨rest, hrest⟩ := slashedBehind_behind name n
    have hrelative : name.startsWith "/" = false := by
      rw [← Bool.not_eq_true, String.startsWith_string_iff]
      intro hslash
      exact hname.whole (hslash.subset (List.mem_singleton_self '/'))
    rw [hrest, start_append hname.filled, start, hrelative]
    rfl
  have hbegins : t.Begins (slashedBehind name n) := by
    rw [Begins, hstart]
    exact FileEntry.directory_of_at? hat
  rw [locate_of_usable ((IsUsable.of_isFileName hname).slashedBehind hshort) hbegins, hstart,
    components, hparts]
  split_ifs
  · exact hlast _ (.inr rfl)
  · exact hlast _ (.inl rfl)

end Top

end FileTree

end ImageTrust
