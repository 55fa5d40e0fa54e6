import ImageTrust.Proofs.Json.Content
import ImageTrust.Proofs.Lookup

/-!
Records and the content of a document. The members of an object are taken up when each is sound and no
known name repeats, so neither their order nor unknown ones make a difference to what is found. Items of an
array are found in their place. A record depends on the content alone if its members do.
-/

namespace ImageTrust.Json

section Records

/-- The check that a record has for a name, if the name is known. -/
def checkOf? (checks : List Check) (name : String) : Option Check :=
  checks.find? (·.name = name)

/-- A member of an object that a record takes: its key spells a name, and its value passes the check of
that name or can be skipped. -/
def Taken (checks : List Check) (p : Place) (m : List Char × Source) : Prop :=
  ∃ name, textOf m.1 = .ok name ∧ match checkOf? checks name with
    | some c => c.check p m.2 = .ok ()
    | none => skip m.2 = .ok ()

/-- A member by its name, when the name is known. -/
def known? (checks : List Check) (m : List Char × Source) : Option (String × Source) := do
  let name ← (textOf m.1).toOption
  let _ ← checkOf? checks name
  some (name, m.2)

variable {checks : List Check} {p : Place} {given all : Given}
  {members : List (List Char × Source)}

theorem lookup_cons_eq_none_iff {name key : String} {s : Source} :
    List.lookup key ((name, s) :: given) = none ↔ key ≠ name ∧ given.lookup key = none := by
  rw [List.lookup_cons]
  by_cases h : key = name
  · simp [h]
  · rw [beq_false_of_ne h]
    exact (and_iff_right h).symm

theorem lookup_cons_forall {name : String} {s : Source} {found : Given} :
    (∀ e ∈ found, List.lookup e.1 ((name, s) :: given) = none)
      ↔ name ∉ found.map Prod.fst ∧ ∀ e ∈ found, given.lookup e.1 = none := by
  simp only [lookup_cons_eq_none_iff, forall_and, List.mem_map, not_exists, not_and]

section Step

variable {m : List Char × Source} {name : String} {c : Check}

theorem not_taken_of_nameless {flaw : Flaw} (h : textOf m.1 = .error flaw) : ¬ Taken checks p m := by
  rintro ⟨name, hname, -⟩
  exact not_ok_and_error hname h

theorem taken_unknown_iff (hname : textOf m.1 = .ok name) (hcheck : checkOf? checks name = none) :
    Taken checks p m ↔ skip m.2 = .ok () := by
  simp [Taken, hname, hcheck]

theorem taken_known_iff (hname : textOf m.1 = .ok name) (hcheck : checkOf? checks name = some c) :
    Taken checks p m ↔ c.check p m.2 = .ok () := by
  simp [Taken, hname, hcheck]

theorem known?_unknown (hname : textOf m.1 = .ok name) (hcheck : checkOf? checks name = none) :
    known? checks m = none := by
  simp [known?, hname, hcheck, Except.toOption]

theorem known?_known (hname : textOf m.1 = .ok name) (hcheck : checkOf? checks name = some c) :
    known? checks m = some (name, m.2) := by
  simp [known?, hname, hcheck, Except.toOption]

/-- A member whose name is not known is passed over. -/
theorem collect_unknown (hname : textOf m.1 = .ok name) (hcheck : checkOf? checks name = none) :
    collect checks p given (m :: members) = skip m.2 >>= fun _ => collect checks p given members := by
  unfold checkOf? at hcheck
  rw [collect, hname, ok_bind]
  simp only [hcheck]

/-- A member whose name is known must be new. -/
theorem collect_known_ok_iff (hname : textOf m.1 = .ok name)
    (hcheck : checkOf? checks name = some c) : collect checks p given (m :: members) = .ok all ↔
      given.lookup name = none ∧ c.check p m.2 = .ok ()
        ∧ collect checks p ((name, m.2) :: given) members = .ok all := by
  unfold checkOf? at hcheck
  rw [collect, hname, ok_bind]
  simp only [hcheck]
  cases given.lookup name with
  | none => simp [check_bind_ok_iff]
  | some t => simp

end Step

/-- The members of an object are collected when each is taken and no known name repeats. -/
theorem collect_ok_iff : collect checks p given members = .ok all ↔
    (∀ m ∈ members, Taken checks p m)
      ∧ ((members.filterMap (known? checks)).map Prod.fst).Nodup
      ∧ (∀ e ∈ members.filterMap (known? checks), given.lookup e.1 = none)
      ∧ all = (members.filterMap (known? checks)).reverse ++ given := by
  induction members generalizing given with
  | nil =>
    rw [collect, Except.ok.injEq]
    simpa using eq_comm
  | cons m rest ih =>
    rw [List.forall_mem_cons]
    cases hname : textOf m.1 with
    | error flaw =>
      refine iff_of_false ?_ fun h => not_taken_of_nameless hname h.1.1
      simp [collect, hname, bind, Except.bind]
    | ok name =>
      cases hcheck : checkOf? checks name with
      | none =>
        rw [collect_unknown hname hcheck, check_bind_ok_iff, ih, taken_unknown_iff hname hcheck,
          List.filterMap_cons_none (known?_unknown hname hcheck), and_assoc]
      | some c =>
        rw [collect_known_ok_iff hname hcheck, ih, taken_known_iff hname hcheck,
          List.filterMap_cons_some (known?_known hname hcheck), List.map_cons, List.nodup_cons,
          lookup_cons_forall, List.forall_mem_cons, List.reverse_cons, List.append_assoc,
          List.singleton_append]
        tauto

end Records

section Known

variable {sh : Schema} {given given' : Given} {name : String}

/-- Values found for the same names have the same content. -/
def GivenAlike (sh : Schema) (given given' : Given) : Prop :=
  ∀ name, Option.Rel (SameContent (sh.member name)) (given.lookup name) (given'.lookup name)

/-- Two values that are found for one name. -/
structure EntryAlike (sh : Schema) (e e' : String × Source) : Prop where
  name : e.1 = e'.1
  content : SameContent (sh.member e.1) e.2 e'.2

theorem entries_refl (sh : Schema) (given : Given) : List.Forall₂ (EntryAlike sh) given given :=
  List.forall₂_same.2 fun e _ => ⟨rfl, .refl e.2⟩

theorem map_fst_of_entries (h : List.Forall₂ (EntryAlike sh) given given') :
    given.map Prod.fst = given'.map Prod.fst := by
  induction h with
  | nil => rfl
  | cons he _ ih => rw [List.map_cons, List.map_cons, he.name, ih]

theorem givenAlike_of_entries (h : List.Forall₂ (EntryAlike sh) given given') :
    GivenAlike sh given given' := by
  intro name
  induction h with
  | nil => exact .none
  | @cons e e' rest rest' he _ ih =>
    obtain ⟨key, s⟩ := e
    obtain ⟨key', t⟩ := e'
    obtain rfl : key = key' := he.name
    rw [List.lookup_cons, List.lookup_cons]
    by_cases hkey : name = key
    · subst hkey
      rw [beq_self_eq_true]
      exact .some he.content
    · rw [beq_false_of_ne hkey]
      exact ih

/-- The order of what was found makes no difference when no name repeats. -/
theorem givenAlike_of_perm (h : given.Perm given') (hnodup : (given.map Prod.fst).Nodup) :
    GivenAlike sh given given' := by
  intro name
  have hlookup : given.lookup name = given'.lookup name := by
    refine Option.ext fun s => ?_
    rw [lookup_eq_some_iff_mem hnodup, lookup_eq_some_iff_mem ((h.map _).nodup_iff.1 hnodup),
      h.mem_iff]
  rw [hlookup]
  cases given'.lookup name with
  | none => exact .none
  | some s => exact .some (.refl s)

end Known

/-- The checks of a record are those of its members, in order. -/
def Fits (members : List (String × Schema)) (checks : List Check) : Prop :=
  List.Forall₂ (fun m c => c.name = m.1 ∧ Respects m.2 c.check) members checks

theorem Member.check_respects {α : Type} {sh : Schema} {m : Member α} (h : Respects sh m.read) :
    Respects sh m.check.check := by
  intro p s t hsame
  simp only [Member.check, toOption_map, h p s t hsame]

theorem Fits.member {α : Type} {m : Member α} {name : String} {sh : Schema}
    {members : List (String × Schema)} {checks : List Check} (hname : m.name = name)
    (h : Respects sh m.read) (hrest : Fits members checks) :
    Fits ((name, sh) :: members) (m.check :: checks) :=
  .cons ⟨hname, m.check_respects h⟩ hrest

/-- What a record takes up for a member depends on the content of what was found alone. -/
theorem GivenAlike.get {sh : Schema} {given given' : Given} (halike : GivenAlike sh given given')
    {α : Type} {m : Member α} (h : Respects (sh.member m.name) m.read) (p : Place) :
    (m.get p given).toOption = (m.get p given').toOption := by
  have hname := halike m.name
  unfold Member.get
  generalize given.lookup m.name = o at hname ⊢
  generalize given'.lookup m.name = o' at hname ⊢
  cases hname with
  | none => rfl
  | some hsame => exact h p _ _ hsame

/-- Two objects of which a record takes up the same. -/
structure TakenAlike (sh : Schema) (checks : List Check) (found found' : List (List Char × Source)) :
    Prop where
  taken : ∀ p, (∀ m ∈ found, Taken checks p m) ↔ ∀ m ∈ found', Taken checks p m
  once : ((found.filterMap (known? checks)).map Prod.fst).Nodup
    ↔ ((found'.filterMap (known? checks)).map Prod.fst).Nodup
  given : ((found.filterMap (known? checks)).map Prod.fst).Nodup →
    GivenAlike sh (found.filterMap (known? checks)).reverse (found'.filterMap (known? checks)).reverse

section Fits

variable {members : List (String × Schema)} {checks : List Check}

/-- The names that a record checks are those that its schema knows. -/
theorem Fits.checkOf? (h : Fits members checks) (name : String) :
    Option.Rel (fun sh c => Respects sh c.check) (members.lookup name) (checkOf? checks name) := by
  unfold Json.checkOf?
  induction h with
  | nil => exact .none
  | @cons m c members checks hc _ ih =>
    obtain ⟨key, sh⟩ := m
    obtain ⟨rfl, hrespects⟩ := hc
    rw [List.lookup_cons, List.find?_cons]
    by_cases hname : name = c.name
    · subst hname
      rw [beq_self_eq_true, decide_eq_true rfl]
      exact .some hrespects
    · have hne : ¬ c.name = name := fun h => hname h.symm
      rw [beq_false_of_ne hname]
      simpa [hne] using ih

variable {m m' : List Char × Source} {found found' : List (List Char × Source)}

theorem MemberAlike.taken_iff (hfits : Fits members checks) (h : MemberAlike (.record members) m m')
    (p : Place) : Taken checks p m ↔ Taken checks p m' := by
  unfold Taken
  rw [← h.name]
  refine exists_congr fun name => and_congr_right fun hname => ?_
  have hcontent := h.content name hname
  have hcheck := hfits.checkOf? name
  rw [Schema.member_record] at hcontent
  generalize members.lookup name = known at hcontent hcheck
  generalize Json.checkOf? checks name = check at hcheck ⊢
  cases hcheck with
  | none => exact skip_respects.ok_iff p hcontent
  | some hrespects => exact hrespects.ok_iff p hcontent

theorem MemberAlike.known (checks : List Check) (h : MemberAlike (.record members) m m') :
    Option.Rel (EntryAlike (.record members)) (known? checks m) (known? checks m') := by
  unfold known?
  rw [← h.name]
  cases hname : textOf m.1 with
  | error flaw => exact .none
  | ok name =>
    cases hcheck : Json.checkOf? checks name with
    | none => simp [Except.toOption, hcheck]
    | some c =>
      have he : EntryAlike (.record members) (name, m.2) (name, m'.2) := ⟨rfl, h.content name hname⟩
      simpa [Except.toOption, hcheck] using he

theorem MemberAlike.takenAlike (hfits : Fits members checks) (h : MemberAlike (.record members) m m') :
    TakenAlike (.record members) checks (m :: found) (m' :: found) := by
  have hentries : List.Forall₂ (EntryAlike (.record members))
      ((m :: found).filterMap (known? checks)) ((m' :: found).filterMap (known? checks)) := by
    have hrest := entries_refl (.record members) (found.filterMap (known? checks))
    rw [List.filterMap_cons, List.filterMap_cons]
    have hknown := h.known checks
    generalize known? checks m = o at hknown ⊢
    generalize known? checks m' = o' at hknown ⊢
    cases hknown with
    | none => exact hrest
    | some he => exact .cons he hrest
  refine ⟨fun p => ?_, ?_, fun _ => ?_⟩
  · rw [List.forall_mem_cons, List.forall_mem_cons, h.taken_iff hfits p]
  · rw [map_fst_of_entries hentries]
  · exact givenAlike_of_entries (List.rel_reverse hentries)

theorem takenAlike_of_perm {sh : Schema} (h : found.Perm found') : TakenAlike sh checks found found' := by
  have hknown := h.filterMap (known? checks)
  refine ⟨fun p => ?_, (hknown.map _).nodup_iff, fun hnodup => ?_⟩
  · simp only [h.mem_iff]
  · refine givenAlike_of_perm ?_ ?_
    · exact (List.reverse_perm _).trans (hknown.trans (List.reverse_perm _).symm)
    · rwa [List.map_reverse, (List.reverse_perm _).nodup_iff]

theorem takenAlike_extra (hfits : Fits members checks) {name : String}
    (hname : Spells m.1 name.toList) (hnew : name ∉ (Schema.record members).names)
    (hplain : Plain m.2) : TakenAlike (.record members) checks found (m :: found) := by
  have htext : textOf m.1 = .ok name := textOf_ok_iff.2 hname
  have hcheck : Json.checkOf? checks name = none := by
    have hlookup : members.lookup name = none := List.lookup_eq_none_iff.2 fun e he =>
      bne_iff_ne.2 fun h => hnew (List.mem_map.2 ⟨e, he, h.symm⟩)
    have hrel := hfits.checkOf? name
    rw [hlookup] at hrel
    generalize Json.checkOf? checks name = check at hrel ⊢
    cases hrel
    rfl
  have hunknown : known? checks m = none := known?_unknown htext hcheck
  have htaken : ∀ p, Taken checks p m := fun p => (taken_unknown_iff htext hcheck).2 hplain.skip
  refine ⟨fun p => ?_, ?_, fun _ => ?_⟩
  · rw [List.forall_mem_cons, and_iff_right (htaken p)]
  · rw [List.filterMap_cons_none hunknown]
  · rw [List.filterMap_cons_none hunknown]
    exact givenAlike_of_entries (entries_refl _ _)

/-- A change of an object makes no difference to what a record takes up of it. -/
theorem ObjectChange.takenAlike (hfits : Fits members checks)
    (h : ObjectChange (.record members) found found') :
    TakenAlike (.record members) checks found found' := by
  cases h with
  | member h => exact h.takenAlike hfits
  | order h => exact takenAlike_of_perm h
  | extra hname hnew hplain => exact takenAlike_extra hfits hname hnew hplain

end Fits

section Objects

variable {α : Type} {name : String} {checks : List Check} {build : Place → Given → Except Flaw α}
  {p : Place} {a : α} {found found' : List (List Char × Source)}

theorem record_object_iff : record name checks build p (.object found .closed) = .ok a ↔
    ∃ q, p.inside = .ok q ∧ (∀ m ∈ found, Taken checks q m)
      ∧ ((found.filterMap (known? checks)).map Prod.fst).Nodup
      ∧ build q (found.filterMap (known? checks)).reverse = .ok a := by
  rw [record, bind_ok_iff]
  refine exists_congr fun q => and_congr_right fun _ => ?_
  rw [bind_ok_iff]
  constructor
  · rintro ⟨given, hcollect, hbuild⟩
    obtain ⟨htaken, honce, -, rfl⟩ := collect_ok_iff.1 hcollect
    rw [List.append_nil] at hbuild
    exact ⟨htaken, honce, hbuild⟩
  · rintro ⟨htaken, honce, hbuild⟩
    refine ⟨_, collect_ok_iff.2 ⟨htaken, honce, fun _ _ => rfl, rfl⟩, ?_⟩
    rw [List.append_nil]
    exact hbuild

/-- Whatever a record is read from, it is built of what was found. -/
theorem built_of_record {s : Source} (h : record name checks build p s = .ok a) :
    ∃ q given, build q given = .ok a := by
  cases s with
  | object found ending =>
    obtain ⟨q, -, h⟩ := (bind_ok_iff _ _ _).1 h
    obtain ⟨given, -, h⟩ := (bind_ok_iff _ _ _).1 h
    exact ⟨q, given, (check_bind_ok_iff.1 h).2⟩
  | array found ending =>
    obtain ⟨q, -, h⟩ := (bind_ok_iff _ _ _).1 h
    obtain ⟨given, -, h⟩ := (bind_ok_iff _ _ _).1 h
    exact ⟨q, given, h⟩
  | _ =>
    simp only [record] at h
    exact (not_ok_of_refuse h).elim

/-- Of objects of which the same is taken up, a record makes the same. -/
theorem TakenAlike.record_eq {sh : Schema} (h : TakenAlike sh checks found found')
    (hbuild : ∀ q given given', GivenAlike sh given given' →
      (build q given).toOption = (build q given').toOption) :
    (record name checks build p (.object found .closed)).toOption
      = (record name checks build p (.object found' .closed)).toOption := by
  refine Option.ext fun a => ?_
  rw [toOption_eq_some_iff, toOption_eq_some_iff, record_object_iff, record_object_iff]
  refine exists_congr fun q => and_congr_right fun _ => and_congr (h.taken q) ?_
  rw [← h.once]
  refine and_congr_right fun honce => ?_
  rw [← toOption_eq_some_iff, hbuild q _ _ (h.given honce), toOption_eq_some_iff]

end Objects

section Arrays

variable {sh : Schema} {checks : List Check} {shape : String} {p : Place} {index : Nat}

/-- Items that no member is left for are refused, or passed over, by their number alone. -/
theorem collectItems_spare {ending : Ending} {found found' : List Source}
    (h : found.length = found'.length) :
    collectItems shape ending p index [] found = collectItems shape ending p index [] found' := by
  cases found with
  | nil => rw [List.length_eq_zero_iff.1 h.symm]
  | cons s rest =>
    cases found' with
    | nil => exact absurd h (Nat.succ_ne_zero _)
    | cons t rest' =>
      unfold collectItems
      rw [h]

theorem collectItems_cons_toOption {c : Check} {ending : Ending} {s : Source} {rest : List Source} :
    (collectItems shape ending p index (c :: checks) (s :: rest)).toOption
      = (c.check p s).toOption.bind fun _ =>
        (collectItems shape ending p (index + 1) checks rest).toOption.map ((c.name, s) :: ·) := by
  rw [collectItems, toOption_bind]
  cases (c.check p s).toOption with
  | none => rfl
  | some _ => exact toOption_map _ _

theorem collectItems_cons_alike {c : Check} {ending : Ending} {s t : Source} {rest rest' : List Source}
    (hcheck : (c.check p s).toOption = (c.check p t).toOption)
    (he : EntryAlike sh (c.name, s) (c.name, t))
    (hrest : Option.Rel (List.Forall₂ (EntryAlike sh))
      (collectItems shape ending p (index + 1) checks rest).toOption
      (collectItems shape ending p (index + 1) checks rest').toOption) :
    Option.Rel (List.Forall₂ (EntryAlike sh))
      (collectItems shape ending p index (c :: checks) (s :: rest)).toOption
      (collectItems shape ending p index (c :: checks) (t :: rest')).toOption := by
  rw [collectItems_cons_toOption, collectItems_cons_toOption, hcheck]
  generalize (collectItems shape ending p (index + 1) checks rest).toOption = o at hrest ⊢
  generalize (collectItems shape ending p (index + 1) checks rest').toOption = o' at hrest ⊢
  cases (c.check p t).toOption with
  | none => exact .none
  | some _ =>
    cases hrest with
    | none => exact .none
    | some hgiven => exact .some (.cons he hgiven)

/-- What is collected of an array, when one item changes. The induction is on the members that are left; the
item that changes belongs to the first of them when none stands before it. -/
theorem collectItems_alike {members : List (String × Schema)} (hfits : Fits members checks)
    (hknown : ∀ m ∈ members, sh.member m.1 = m.2) {ending : Ending} {s t : Source}
    (before after : List Source)
    (h : SameContent ((Schema.record members).item before.length) s t) :
    Option.Rel (List.Forall₂ (EntryAlike sh))
      (collectItems shape ending p index checks (before ++ s :: after)).toOption
      (collectItems shape ending p index checks (before ++ t :: after)).toOption := by
  have hrefl : ∀ o : Option Given, Option.Rel (List.Forall₂ (EntryAlike sh)) o o := by
    rintro (_ | given)
    · exact .none
    · exact .some (entries_refl sh given)
  induction hfits generalizing before index with
  | nil =>
    have hlength : (before ++ s :: after).length = (before ++ t :: after).length := by simp
    rw [collectItems_spare hlength]
    exact hrefl _
  | @cons m c members checks hc hrest ih =>
    obtain ⟨hname, hrespects⟩ := hc
    have hfirst := hknown m List.mem_cons_self
    cases before with
    | nil =>
      have hcontent : SameContent (sh.member c.name) s t := by
        rw [hname, hfirst]
        exact h
      exact collectItems_cons_alike (hrespects p s t h) ⟨rfl, hcontent⟩ (hrefl _)
    | cons x before =>
      have hlater : ∀ m ∈ members, sh.member m.1 = m.2 := fun m hm =>
        hknown m (List.mem_cons_of_mem _ hm)
      exact collectItems_cons_alike rfl ⟨rfl, .refl x⟩ (ih hlater before h)

theorem Schema.member_of_mem {members : List (String × Schema)} (honce : (members.map Prod.fst).Nodup) :
    ∀ m ∈ members, (Schema.record members).member m.1 = m.2 := by
  intro m hm
  rw [Schema.member_record, (lookup_eq_some_iff_mem honce).2 hm]
  rfl

/-- Of arrays that differ in the content of no item, a record makes the same. -/
theorem record_array_eq {α : Type} {name : String} {members : List (String × Schema)}
    {build : Place → Given → Except Flaw α} (hfits : Fits members checks)
    (honce : (members.map Prod.fst).Nodup)
    (hbuild : ∀ q given given', GivenAlike (.record members) given given' →
      (build q given).toOption = (build q given').toOption) {s t : Source} (before after : List Source)
    (h : SameContent ((Schema.record members).item before.length) s t) :
    (record name checks build p (.array (before ++ s :: after) .closed)).toOption
      = (record name checks build p (.array (before ++ t :: after) .closed)).toOption := by
  rw [record, record, toOption_bind, toOption_bind]
  refine Option.bind_congr fun q _ => ?_
  rw [toOption_bind, toOption_bind]
  have hcollect : Option.Rel (List.Forall₂ (EntryAlike (.record members)))
      (collectItems (sizedName name checks.length) .closed q 0 checks (before ++ s :: after)).toOption
      (collectItems (sizedName name checks.length) .closed q 0 checks (before ++ t :: after)).toOption :=
    collectItems_alike hfits (Schema.member_of_mem honce) before after h
  generalize (collectItems _ .closed q 0 checks (before ++ s :: after)).toOption = o at hcollect ⊢
  generalize (collectItems _ .closed q 0 checks (before ++ t :: after)).toOption = o' at hcollect ⊢
  cases hcollect with
  | none => rfl
  | some hgiven => exact hbuild q _ _ (givenAlike_of_entries hgiven)

end Arrays

/-- A record depends on the content of a document alone, if its checks do and what it makes of the
values that were found. -/
theorem record_respects {α : Type} {name : String} {members : List (String × Schema)}
    {checks : List Check} {build : Place → Given → Except Flaw α} (hfits : Fits members checks)
    (honce : (members.map Prod.fst).Nodup)
    (hbuild : ∀ q given given', GivenAlike (.record members) given given' →
      (build q given).toOption = (build q given').toOption) :
    Respects (.record members) (record name checks build) := by
  have hrefused : ∀ p raw, (record name checks build p (.string raw)).toOption = none := fun p raw =>
    refuse_toOption _ (.string raw)
  refine .of_kinds (fun p raw raw' _ _ _ => ?_) (fun p before s t after hitem => ?_)
    fun p found found' hchange => (hchange.takenAlike hfits).record_eq hbuild
  · rw [hrefused, hrefused]
  · exact record_array_eq hfits honce hbuild before after (.rel _ _ hitem)

end ImageTrust.Json
