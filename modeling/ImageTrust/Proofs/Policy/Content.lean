import ImageTrust.Policy.Report
import ImageTrust.Proofs.Json.RecordContent
import ImageTrust.Proofs.Policy.RoundTrip

/-!
Policies and reports depend on the content of their documents alone. Each record of them is decoded from
its members, whatever their order; a rule finds its name among its own members at any place, once, and what
it keeps of the others is decoded as a record. Texts with one content are therefore rejected together, or
decoded to one value.
-/

namespace ImageTrust

open Json (Schema Respects Member Fits Source Flaw Place)

namespace FlavorDescription

def schema : Schema :=
  .record [("label", .any), ("flavor_part", .any)]

theorem decoder_respects : Respects schema decoder := by
  refine Json.record_respects ?_ (by decide) fun q given given' h => ?_
  · exact .member rfl Json.text_respects (.member rfl Json.text_respects .nil)
  · have hlabel := h.get (m := labelMember) Json.text_respects
    have hpart := h.get (m := flavorPartMember) Json.text_respects
    simp only [toOption_bind, hlabel, hpart]

end FlavorDescription

namespace FlavorMeta

def schema : Schema :=
  .record [("id", .any), ("description", FlavorDescription.schema)]

theorem decoder_respects : Respects schema decoder := by
  refine Json.record_respects ?_ (by decide) fun q given given' h => ?_
  · exact .member rfl Json.text_respects (.member rfl FlavorDescription.decoder_respects .nil)
  · have hid := h.get (m := idMember) Json.text_respects
    have hdescription := h.get (m := descriptionMember) FlavorDescription.decoder_respects
    simp only [toOption_bind, hid, hdescription]

end FlavorMeta

namespace FlavorEncryption

def schema : Schema :=
  .record [("key_url", .any), ("digest", .any)]

theorem decoder_respects : Respects schema decoder := by
  refine Json.record_respects ?_ (by decide) fun q given given' h => ?_
  · exact .member rfl Json.text_respects (.member rfl Json.text_respects .nil)
  · have hurl := h.get (m := keyUrlMember) Json.text_respects
    have hdigest := h.get (m := digestMember) Json.text_respects
    simp only [toOption_bind, hurl, hdigest]

end FlavorEncryption

namespace Flavor

def schema : Schema :=
  .record [("meta", FlavorMeta.schema), ("encryption", FlavorEncryption.schema),
    ("encryption_required", .any), ("integrity_enforced", .any)]

theorem decoder_respects : Respects schema decoder := by
  have hencryption := Json.optional_respects FlavorEncryption.decoder_respects
  refine Json.record_respects ?_ (by decide) fun q given given' h => ?_
  · exact .member rfl FlavorMeta.decoder_respects (.member rfl hencryption
      (.member rfl Json.boolean_respects (.member rfl Json.boolean_respects .nil)))
  · have hmeta := h.get (m := metaMember) FlavorMeta.decoder_respects
    have hblock := h.get (m := encryptionMember) hencryption
    have hrequired := h.get (m := encryptionRequiredMember) Json.boolean_respects
    have henforced := h.get (m := integrityEnforcedMember) Json.boolean_respects
    simp only [toOption_bind, hmeta, hblock, hrequired, henforced]

end Flavor

namespace SignedFlavor

def schema : Schema :=
  .record [("flavor", Flavor.schema), ("signature", .any)]

theorem decoder_respects : Respects schema decoder := by
  refine Json.record_respects ?_ (by decide) fun q given given' h => ?_
  · exact .member rfl Flavor.decoder_respects (.member rfl Json.text_respects .nil)
  · have hflavor := h.get (m := flavorMember) Flavor.decoder_respects
    have hsignature := h.get (m := signatureMember) Json.text_respects
    simp only [toOption_bind, hflavor, hsignature]

end SignedFlavor

namespace Manifest

def schema : Schema :=
  .record [("instance_id", .any), ("host_hardware_uuid", .any), ("image_id", .any),
    ("image_encrypted", .any), ("image_integrity_enforced", .any)]

theorem decoder_respects : Respects schema decoder := by
  refine Json.record_respects ?_ (by decide) fun q given given' h => ?_
  · exact .member rfl Json.text_respects (.member rfl Json.text_respects (.member rfl
      Json.text_respects (.member rfl Json.boolean_respects (.member rfl Json.boolean_respects .nil))))
  · have hinstance := h.get (m := instanceIdMember) Json.text_respects
    have hhost := h.get (m := hostHardwareUuidMember) Json.text_respects
    have himage := h.get (m := imageIdMember) Json.text_respects
    have hencrypted := h.get (m := imageEncryptedMember) Json.boolean_respects
    have henforced := h.get (m := imageIntegrityEnforcedMember) Json.boolean_respects
    simp only [toOption_bind, hinstance, hhost, himage, hencrypted, henforced]

end Manifest

namespace RuleFault

def schema : Schema :=
  .record [("description", .any), ("cause", .any)]

theorem decoder_respects : Respects schema decoder := by
  have hoptional : Respects .any (Json.optional Json.text) :=
    Json.optional_respects Json.text_respects
  refine Json.record_respects ?_ (by decide) fun q given given' h => ?_
  · exact .member rfl Json.text_respects (.member rfl hoptional .nil)
  · have hdescription := h.get (m := descriptionMember) Json.text_respects
    have hcause := h.get (m := causeMember) hoptional
    simp only [toOption_bind, hdescription, hcause]

end RuleFault

namespace ExpectedValue

def schema : Schema :=
  .record [("name", .any), ("value", .any)]

theorem decoder_respects : Respects schema decoder := by
  refine Json.record_respects ?_ (by decide) fun q given given' h => ?_
  · exact .member rfl Json.text_respects (.member rfl Json.boolean_respects .nil)
  · have hname := h.get (m := nameMember) Json.text_respects
    have hvalue := h.get (m := valueMember) Json.boolean_respects
    simp only [toOption_bind, hname, hvalue]

end ExpectedValue

namespace Rule

/-- The members of a rule beside its name. -/
def body : List (String × Schema) :=
  [("markers", .list .any), ("expected", ExpectedValue.schema)]

def schema : Schema :=
  .record (("rule_name", .any) :: body)

theorem markers_respects : Respects (.list .any) (Json.list Json.text) :=
  Json.list_respects Json.text_respects

theorem body_fits : Fits body [markersMember.check, expectedMember.check] :=
  .member rfl markers_respects (.member rfl ExpectedValue.decoder_respects .nil)

variable {kind : RuleKind} {p : Place}

/-- What the body of a rule is made of. -/
theorem body_build (kind : RuleKind) (p : Place) (given given' : Json.Given)
    (h : Json.GivenAlike (.record body) given given') :
    (do
      let markers ← markersMember.get p given
      let expected ← expectedMember.get p given
      return ⟨kind, markers, expected⟩ : Except Flaw Rule).toOption
    = (do
      let markers ← markersMember.get p given'
      let expected ← expectedMember.get p given'
      return ⟨kind, markers, expected⟩ : Except Flaw Rule).toOption := by
  have hmarkers := h.get (m := markersMember) markers_respects
  have hexpected := h.get (m := expectedMember) ExpectedValue.decoder_respects
  simp only [toOption_bind, hmarkers, hexpected]

theorem bodyDecoder_respects (kind : RuleKind) : Respects (.record body) (bodyDecoder kind) :=
  Json.record_respects body_fits (by decide) (body_build kind)

/-- A member whose key spells the name of the tag. -/
def isTag (m : List Char × Source) : Bool :=
  decide ((Json.textOf m.1).toOption = some tag)

/-- A member that can be read past: its key spells a name, and its value can be kept unless it is the
name of the rule. -/
def Sound (p : Place) (m : List Char × Source) : Prop :=
  ∃ name, Json.textOf m.1 = .ok name ∧ (name = tag ∨ Json.buffer p m.2 = .ok ())

/-- What the members with the name of the tag say, where some kind was seen before or none. -/
inductive Named : Option RuleKind → List (List Char × Source) → Option RuleKind → Prop where
  | before (seen) : Named seen [] seen
  | here {m kind} : kindOf m.2 = .ok kind → Named none [m] (some kind)

section Step

variable {m : List Char × Source} {rest others : List (List Char × Source)} {name : String}
  {seen named : Option RuleKind}

theorem isTag_iff_text : isTag m = true ↔ Json.textOf m.1 = .ok tag := by
  rw [isTag, decide_eq_true_iff, toOption_eq_some_iff]

theorem isTag_of_other (hname : Json.textOf m.1 = .ok name) (h : name ≠ tag) : isTag m = false :=
  Bool.eq_false_iff.2 fun his => h (ok_unique hname (isTag_iff_text.1 his))

theorem sound_of_tag (hname : Json.textOf m.1 = .ok tag) : Sound p m :=
  ⟨tag, hname, .inl rfl⟩

theorem sound_other_iff (hname : Json.textOf m.1 = .ok name) (h : name ≠ tag) :
    Sound p m ↔ Json.buffer p m.2 = .ok () := by
  simp [Sound, hname, h]

theorem not_sound_of_nameless {flaw : Flaw} (h : Json.textOf m.1 = .error flaw) : ¬ Sound p m := by
  rintro ⟨name, hname, -⟩
  exact not_ok_and_error hname h

theorem named_cons_iff {tags : List (List Char × Source)} : Named none (m :: tags) named
    ↔ ∃ kind, kindOf m.2 = .ok kind ∧ Named (some kind) tags named := by
  constructor
  · rintro (_ | hkind)
    exact ⟨_, hkind, .before _⟩
  · rintro ⟨kind, hkind, hrest⟩
    cases hrest
    exact .here hkind

/-- The name of the rule is decoded where it stands, when none was met before. -/
theorem splitTag_tag_ok_iff (hname : Json.textOf m.1 = .ok tag) :
    splitTag p seen (m :: rest) = .ok (named, others) ↔ seen = none
      ∧ ∃ kind, kindOf m.2 = .ok kind ∧ splitTag p (some kind) rest = .ok (named, others) := by
  rw [splitTag, hname, ok_bind, if_pos rfl]
  cases seen with
  | some seen => simp
  | none => rw [Option.isSome_none, if_neg Bool.false_ne_true, bind_ok_iff, and_iff_right rfl]

/-- Any other member is kept. -/
theorem splitTag_other_ok_iff (hname : Json.textOf m.1 = .ok name) (h : name ≠ tag) :
    splitTag p seen (m :: rest) = .ok (named, others) ↔ Json.buffer p m.2 = .ok ()
      ∧ ∃ more, splitTag p seen rest = .ok (named, more) ∧ others = m :: more := by
  rw [splitTag, hname, ok_bind, if_neg h, check_bind_ok_iff, bind_ok_iff]
  refine and_congr_right fun _ => ?_
  constructor
  · rintro ⟨⟨kind, more⟩, hmore, ⟨⟩⟩
    exact ⟨more, hmore, rfl⟩
  · rintro ⟨more, hmore, rfl⟩
    exact ⟨(named, more), hmore, rfl⟩

end Step

/-- An object is split when each member can be read past and its name is met once, or not at all. -/
theorem splitTag_ok_iff {seen named : Option RuleKind} {found others : List (List Char × Source)} :
    splitTag p seen found = .ok (named, others) ↔ (∀ m ∈ found, Sound p m)
      ∧ Named seen (found.filter isTag) named ∧ others = found.filter (!isTag ·) := by
  induction found generalizing seen named others with
  | nil =>
    constructor
    · rintro ⟨⟩
      exact ⟨List.forall_mem_nil _, .before seen, rfl⟩
    · rintro ⟨-, h, rfl⟩
      cases h
      rfl
  | cons m rest ih =>
    rw [List.forall_mem_cons]
    cases hname : Json.textOf m.1 with
    | error flaw =>
      refine iff_of_false ?_ fun h => not_sound_of_nameless hname h.1.1
      simp [splitTag, hname, bind, Except.bind]
    | ok name =>
      by_cases htag : name = tag
      · subst htag
        have his := isTag_iff_text.2 hname
        rw [splitTag_tag_ok_iff hname, and_iff_right (sound_of_tag hname),
          List.filter_cons_of_pos his, List.filter_cons_of_neg (by simp [his])]
        cases seen with
        | some seen =>
          constructor
          · rintro ⟨h, -⟩
            cases h
          · rintro ⟨-, h, -⟩
            cases h
        | none =>
          simp only [named_cons_iff, ih, true_and]
          constructor
          · rintro ⟨kind, hkind, hall, hnamed, hothers⟩
            exact ⟨hall, ⟨kind, hkind, hnamed⟩, hothers⟩
          · rintro ⟨hall, ⟨kind, hkind, hnamed⟩, hothers⟩
            exact ⟨kind, hkind, hall, hnamed, hothers⟩
      · have his := isTag_of_other hname htag
        rw [splitTag_other_ok_iff hname htag, sound_other_iff hname htag,
          List.filter_cons_of_neg (by simp [his]), List.filter_cons_of_pos (by simp [his]), and_assoc]
        refine and_congr_right fun _ => ?_
        simp only [ih]
        constructor
        · rintro ⟨more, ⟨hall, hnamed, rfl⟩, rfl⟩
          exact ⟨hall, hnamed, rfl⟩
        · rintro ⟨hall, hnamed, rfl⟩
          exact ⟨_, ⟨hall, hnamed, rfl⟩, rfl⟩

/-- A rule is read from an object that has one member with its name, and whose other members make up its
body. -/
theorem decoder_object_iff {found : List (List Char × Source)} {r : Rule} :
    decoder p (.object found .closed) = .ok r ↔ ∃ q, p.inside = .ok q ∧ (∀ m ∈ found, Sound q m)
      ∧ ∃ kind, (∃ m, found.filter isTag = [m] ∧ kindOf m.2 = .ok kind)
        ∧ bodyDecoder kind { q with material := .buffered }
          (.object (found.filter (!isTag ·)) .closed) = .ok r := by
  rw [decoder, bind_ok_iff]
  refine exists_congr fun q => and_congr_right fun _ => ?_
  rw [bind_ok_iff]
  constructor
  · rintro ⟨⟨named, others⟩, hsplit, h⟩
    obtain ⟨hall, hnamed, rfl⟩ := splitTag_ok_iff.1 hsplit
    generalize found.filter isTag = tags at hnamed ⊢
    cases hnamed with
    | before => cases h
    | @here m kind hkind => exact ⟨hall, kind, ⟨m, rfl, hkind⟩, h⟩
  · rintro ⟨hall, kind, ⟨m, htags, hkind⟩, h⟩
    exact ⟨(some kind, found.filter (!isTag ·)),
      splitTag_ok_iff.2 ⟨hall, by rw [htags]; exact .here hkind, rfl⟩, h⟩

theorem kindOf_respects {sh : Schema} : Respects sh fun _ => kindOf := by
  refine .of_kinds (fun p raw raw' cs hraw hraw' => ?_) (fun p before s t after _ => rfl)
    fun p found found' _ => rfl
  simp only [kindOf, Json.textOf_eq_of_spells hraw hraw']

theorem schema_member {name : String} (h : name ≠ tag) :
    schema.member name = (Schema.record body).member name := by
  rw [schema, Schema.member_record, Schema.member_record, List.lookup_cons,
    show (name == "rule_name") = false from beq_false_of_ne h]

/-- Two objects that a rule is read from alike. -/
structure SplitAlike (found found' : List (List Char × Source)) : Prop where
  sound : ∀ p, (∀ m ∈ found, Sound p m) ↔ ∀ m ∈ found', Sound p m
  name : ∀ kind, (∃ m, found.filter isTag = [m] ∧ kindOf m.2 = .ok kind)
    ↔ ∃ m, found'.filter isTag = [m] ∧ kindOf m.2 = .ok kind
  body : Json.TakenAlike (.record body) [markersMember.check, expectedMember.check]
    (found.filter (!isTag ·)) (found'.filter (!isTag ·))

section Change

variable {m m' : List Char × Source} {found found' : List (List Char × Source)}

theorem sound_iff (h : Json.MemberAlike schema m m') (p : Place) : Sound p m ↔ Sound p m' := by
  unfold Sound
  rw [← h.name]
  refine exists_congr fun name => and_congr_right fun hname => or_congr_right ?_
  exact Json.buffer_respects.ok_iff p (h.content name hname)

theorem isTag_eq (h : Json.textOf m.1 = Json.textOf m'.1) : isTag m = isTag m' := by
  unfold isTag
  rw [h]

theorem splitAlike_member (h : Json.MemberAlike schema m m') : SplitAlike (m :: found) (m' :: found) := by
  have his := isTag_eq h.name
  have hsound : ∀ p, (∀ n ∈ m :: found, Sound p n) ↔ ∀ n ∈ m' :: found, Sound p n := fun p => by
    rw [List.forall_mem_cons, List.forall_mem_cons, sound_iff h p]
  cases htag : isTag m with
  | true =>
    rw [htag] at his
    have hname := isTag_iff_text.1 htag
    have hkind : ∀ kind, kindOf m.2 = .ok kind ↔ kindOf m'.2 = .ok kind := fun kind =>
      kindOf_respects.ok_iff .document (h.content tag hname)
    refine ⟨hsound, fun kind => ?_, ?_⟩
    · rw [List.filter_cons_of_pos htag, List.filter_cons_of_pos his.symm]
      simp only [List.cons.injEq, and_assoc, exists_eq_left', hkind kind]
    · rw [List.filter_cons_of_neg (by simp [htag]), List.filter_cons_of_neg (by simp [← his])]
      exact Json.takenAlike_of_perm (.refl _)
  | false =>
    rw [htag] at his
    refine ⟨hsound, fun kind => ?_, ?_⟩
    · rw [List.filter_cons_of_neg (by simp [htag]), List.filter_cons_of_neg (by simp [← his])]
    · rw [List.filter_cons_of_pos (by simp [htag]), List.filter_cons_of_pos (by simp [← his])]
      refine Json.MemberAlike.takenAlike body_fits ⟨h.name, fun name hname => ?_⟩
      have hother : name ≠ tag := by
        rintro rfl
        rw [isTag_iff_text.2 hname] at htag
        cases htag
      rw [← schema_member hother]
      exact h.content name hname

theorem splitAlike_perm (h : found.Perm found') : SplitAlike found found' := by
  refine ⟨fun p => by simp only [h.mem_iff], fun kind => ?_, Json.takenAlike_of_perm (h.filter _)⟩
  have htags := h.filter isTag
  refine exists_congr fun m => and_congr_left fun _ => ?_
  constructor
  · intro hm
    rw [hm] at htags
    exact (List.singleton_perm.1 htags).symm
  · intro hm
    rw [hm] at htags
    exact List.perm_singleton.1 htags

theorem splitAlike_extra {name : String} (hname : Json.Spells m.1 name.toList)
    (hnew : name ∉ schema.names) (hplain : Json.Plain m.2) : SplitAlike found (m :: found) := by
  have htext := Json.textOf_ok_iff.2 hname
  obtain ⟨hother, hbody⟩ := not_or.1 (mt List.mem_cons.2 hnew)
  have his := isTag_of_other htext hother
  refine ⟨fun p => ?_, fun kind => ?_, ?_⟩
  · have hsound : Sound p m := ⟨name, htext, .inr (hplain.buffer p)⟩
    rw [List.forall_mem_cons, and_iff_right hsound]
  · rw [List.filter_cons_of_neg (by simp [his])]
  · rw [List.filter_cons_of_pos (by simp [his])]
    exact Json.takenAlike_extra body_fits hname hbody hplain

end Change

theorem SplitAlike.of_change {found found' : List (List Char × Source)}
    (h : Json.ObjectChange schema found found') : SplitAlike found found' := by
  cases h with
  | member h => exact splitAlike_member h
  | order h => exact splitAlike_perm h
  | extra hname hnew hplain => exact splitAlike_extra hname hnew hplain

theorem SplitAlike.decoder_eq {found found' : List (List Char × Source)}
    (h : SplitAlike found found') : (decoder p (.object found .closed)).toOption
      = (decoder p (.object found' .closed)).toOption := by
  refine Option.ext fun r => ?_
  rw [toOption_eq_some_iff, toOption_eq_some_iff, decoder_object_iff, decoder_object_iff]
  refine exists_congr fun q => and_congr_right fun _ => and_congr (h.sound q) ?_
  refine exists_congr fun kind => and_congr (h.name kind) ?_
  rw [← toOption_eq_some_iff, bodyDecoder, h.body.record_eq (body_build kind), toOption_eq_some_iff]

theorem bufferItems_change (p : Place) (before after : List Source) {s t : Source} {sh : Schema}
    (h : Json.Change sh s t) : (Json.bufferItems p (before ++ s :: after)).toOption
      = (Json.bufferItems p (before ++ t :: after)).toOption := by
  refine Option.ext fun _ => ?_
  rw [toOption_eq_some_iff, toOption_eq_some_iff, Json.bufferItems_ok_iff, Json.bufferItems_ok_iff,
    List.forall_mem_append, List.forall_mem_append, List.forall_mem_cons, List.forall_mem_cons,
    h.buffer_iff p]

theorem decoder_respects : Respects schema decoder := by
  refine .of_kinds (fun p raw raw' _ _ _ => ?_) (fun p before s t after hitem => ?_)
    fun p found found' hchange => (SplitAlike.of_change hchange).decoder_eq
  · have hrefused : ∀ raw, (decoder p (.string raw)).toOption = none := fun raw =>
      Json.refuse_toOption _ (.string raw)
    rw [hrefused, hrefused]
  · rw [decoder, decoder, toOption_bind, toOption_bind]
    refine Option.bind_congr fun q _ => ?_
    cases before with
    | nil =>
      have hkind := kindOf_respects q s t (.rel _ _ hitem)
      simp only [List.nil_append, toOption_bind, hkind]
    | cons x before =>
      have hbuffer := bufferItems_change q before after hitem
      have hbody : ∀ kind, (bodyDecoder kind { q with material := .buffered }
            (.array (before ++ s :: after) .closed)).toOption
          = (bodyDecoder kind { q with material := .buffered }
            (.array (before ++ t :: after) .closed)).toOption := fun kind =>
        bodyDecoder_respects kind _ _ _ (.rel _ _ (.item hitem))
      simp only [List.cons_append, toOption_bind, hbuffer, hbody]

end Rule

namespace RuleResult

def schema : Schema :=
  .record [("rule", Rule.schema), ("flavor_id", .any), ("faults", .list RuleFault.schema),
    ("trusted", .any)]

theorem decoder_respects : Respects schema decoder := by
  have hlist := Json.list_respects RuleFault.decoder_respects
  refine Json.record_respects ?_ (by decide) fun q given given' h => ?_
  · exact .member rfl Rule.decoder_respects (.member rfl Json.text_respects
      (.member rfl hlist (.member rfl Json.boolean_respects .nil)))
  · have hrule := h.get (m := ruleMember) Rule.decoder_respects
    have hflavor := h.get (m := flavorIdMember) Json.text_respects
    have hfaults := h.get (m := faultsMember) hlist
    have htrusted := h.get (m := trustedMember) Json.boolean_respects
    simp only [toOption_bind, hrule, hflavor, hfaults, htrusted]

end RuleResult

namespace TrustReport

def schema : Schema :=
  .record [("instance_manifest", Manifest.schema), ("policy_name", .any),
    ("results", .list RuleResult.schema), ("trusted", .any)]

theorem decoder_respects : Respects schema decoder := by
  have hlist := Json.list_respects RuleResult.decoder_respects
  refine Json.record_respects ?_ (by decide) fun q given given' h => ?_
  · exact .member rfl Manifest.decoder_respects (.member rfl Json.text_respects
      (.member rfl hlist (.member rfl Json.boolean_respects .nil)))
  · have hmanifest := h.get (m := manifestMember) Manifest.decoder_respects
    have hpolicy := h.get (m := policyNameMember) Json.text_respects
    have hresults := h.get (m := resultsMember) hlist
    have htrusted := h.get (m := trustedMember) Json.boolean_respects
    simp only [toOption_bind, hmanifest, hpolicy, hresults, htrusted]

end TrustReport

/-- A rule that carries its name once among the members of its object: one key spells the word for it,
and its value spells one of the three names. -/
structure NamedOnce (members : List (List Char × Source)) (r : Rule) : Prop where
  name : ∃ before key raw after, members = before ++ (key, .string raw) :: after
    ∧ Json.Spells key "rule_name".toList ∧ Json.Spells raw r.kind.name.toList
    ∧ ∀ m ∈ before ++ after, ¬ Json.Spells m.1 "rule_name".toList
  known : r.kind.name ∈ ["EncryptionMatches", "IntegrityMatches", "FlavorIntegrityMatches"]

namespace Rule

variable {p : Place} {found : List (List Char × Source)} {ending : Json.Ending} {r : Rule}

theorem isTag_iff {m : List Char × Source} : isTag m = true ↔ Json.Spells m.1 tag.toList :=
  isTag_iff_text.trans Json.textOf_ok_iff

theorem closed_of_decoder (h : decoder p (.object found ending) = .ok r) : ending = .closed := by
  obtain ⟨q, -, h⟩ := (bind_ok_iff _ _ _).1 h
  obtain ⟨split, -, h⟩ := (bind_ok_iff _ _ _).1 h
  cases ending with
  | closed => rfl
  | _ => cases h

theorem kind_of_body {kind : RuleKind} {s : Source} (h : bodyDecoder kind p s = .ok r) :
    r.kind = kind := by
  obtain ⟨q, given, h⟩ := Json.built_of_record h
  obtain ⟨markers, -, h⟩ := (bind_ok_iff _ _ _).1 h
  obtain ⟨expected, -, h⟩ := (bind_ok_iff _ _ _).1 h
  cases h
  rfl

theorem kindOf_ok {s : Source} {kind : RuleKind} (h : kindOf s = .ok kind) :
    ∃ raw, s = .string raw ∧ Json.Spells raw kind.name.toList := by
  cases s with
  | string raw =>
    obtain ⟨name, hname, h⟩ := (bind_ok_iff _ _ _).1 h
    cases hkind : RuleKind.ofName? name with
    | none =>
      rw [hkind] at h
      cases h
    | some found =>
      rw [hkind] at h
      cases h
      have hfound := List.find?_some hkind
      obtain rfl : kind.name = name := of_decide_eq_true hfound
      exact ⟨raw, rfl, Json.textOf_ok_iff.1 hname⟩
  | _ =>
    simp only [kindOf] at h
    exact (Json.not_ok_of_refuse h).elim

theorem named_once (h : decoder p (.object found ending) = .ok r) : NamedOnce found r := by
  obtain rfl := closed_of_decoder h
  obtain ⟨q, -, -, kind, ⟨m, htags, hkind⟩, hbody⟩ := decoder_object_iff.1 h
  obtain rfl := kind_of_body hbody
  obtain ⟨before, after, rfl, hbefore, hm, hafter⟩ := List.filter_eq_cons_iff.1 htags
  obtain ⟨key, s⟩ := m
  obtain ⟨raw, rfl, hraw⟩ := kindOf_ok hkind
  refine ⟨⟨before, key, raw, after, rfl, isTag_iff.1 hm, hraw, fun m hm htag => ?_⟩, ?_⟩
  · rcases List.mem_append.1 hm with hm | hm
    · exact hbefore m hm (isTag_iff.2 htag)
    · exact List.filter_eq_nil_iff.1 hafter m hm (isTag_iff.2 htag)
  · cases r.kind <;> simp [RuleKind.name]

end Rule

/-- What is decoded from a text depends on its content alone, and so does the text that the signature of a
flavor covers. A rule that is an object carries its name once. -/
theorem content_decides :
    Json.ContentOnly Flavor.schema Flavor.decoder Flavor.toJson
    ∧ Json.ContentOnly SignedFlavor.schema SignedFlavor.decoder SignedFlavor.toJson
    ∧ Json.ContentOnly Manifest.schema Manifest.decoder Manifest.toJson
    ∧ Json.ContentOnly Rule.schema Rule.decoder Rule.toJson
    ∧ Json.ContentOnly RuleResult.schema RuleResult.decoder RuleResult.toJson
    ∧ Json.ContentOnly TrustReport.schema TrustReport.decoder TrustReport.toJson
    ∧ (∀ s s' f f', Json.SameText Flavor.schema s s' → Json.decode Flavor.decoder s = .ok f →
      Json.decode Flavor.decoder s' = .ok f' → f.signaturePayload = f'.signaturePayload)
    ∧ (∀ s s' f f', Json.SameText SignedFlavor.schema s s' →
      Json.decode SignedFlavor.decoder s = .ok f → Json.decode SignedFlavor.decoder s' = .ok f' →
      f.flavor.signaturePayload = f'.flavor.signaturePayload)
    ∧ ∀ p members ending r, Rule.decoder p (.object members ending) = .ok r → NamedOnce members r := by
  have he := Json.escaped_escapeChar
  have hroom : ∀ {levels : Nat}, levels < 128 → Place.document.HasRoom levels :=
    Place.document_hasRoom
  refine ⟨?_, ?_, ?_, ?_, ?_, ?_, fun s s' f f' hsame hf hf' => ?_, fun s s' f f' hsame hf hf' => ?_,
    fun _ _ _ _ => Rule.named_once⟩
  · exact Flavor.decoder_respects.contentOnly id (fun f => f.decode_toJson he (hroom (by decide)))
      fun _ => rfl
  · exact SignedFlavor.decoder_respects.contentOnly id
      (fun f => f.decode_toJson he (hroom (by decide))) fun _ => rfl
  · exact Manifest.decoder_respects.contentOnly id
      (fun m => m.decode_toJson he (hroom (by decide))) fun _ => rfl
  · exact Rule.decoder_respects.contentOnly Rule.undirected
      (fun r => r.decode_toJson he (hroom (by decide))) Rule.toJson_undirected
  · exact RuleResult.decoder_respects.contentOnly RuleResult.undirected
      (fun r => r.decode_toJson he (hroom (by decide))) RuleResult.toJson_undirected
  · exact TrustReport.decoder_respects.contentOnly TrustReport.undirected
      (fun r => r.decode_toJson he (hroom (by decide))) TrustReport.toJson_undirected
  · rw [hsame.value_eq Flavor.decoder_respects hf hf']
  · rw [hsame.value_eq SignedFlavor.decoder_respects hf hf']

/-- A rule with its members in another order, and one that is not known. -/
def shuffledRule : Json :=
  .obj [("note", .null), ("expected", .obj [("value", .bool true), ("name", .str "a")]),
    ("rule_name", .str "IntegrityMatches"), ("markers", .arr [])]

theorem shuffledRule_content :
    Json.SameContent Rule.schema
      (Json.source Json.escapeChar (Rule.toJson ⟨.integrity, [], ⟨"a", true⟩⟩))
      (Json.source Json.escapeChar shuffledRule) := by
  have hspells := Json.spells_flatMap Json.escaped_escapeChar
  refine .trans _ _ _ (.rel _ _ (.order (@List.perm_append_comm _ [_, _] [_]))) ?_
  refine .trans _ _ _ (.rel _ _ (.value (hspells "expected") (.order (.swap _ _ _)))) ?_
  exact .rel _ _ (.extra (hspells "note") (by decide) .null)

theorem shuffledRule_alike :
    Json.SameText Rule.schema (Rule.toJson ⟨.integrity, [], ⟨"a", true⟩⟩).compact
      ("\n " ++ shuffledRule.compact)
    ∧ Json.decode Rule.decoder ("\n " ++ shuffledRule.compact)
      = .ok ⟨.integrity, [], ⟨"a", true⟩⟩ := by
  have hsame : Json.SameText Rule.schema (Rule.toJson ⟨.integrity, [], ⟨"a", true⟩⟩).compact
      ("\n " ++ shuffledRule.compact) := by
    refine ⟨_, _, Json.textOf_compact _, ?_, shuffledRule_content⟩
    have h := Json.TextOf.mk (show Json.Blanks "\n ".toList by decide)
      (Json.valueText_render Json.escaped_escapeChar shuffledRule) .nil
    rwa [List.append_nil, ← String.toList_ofList (l := Json.render _ _), ← String.toList_append] at h
  have hread : Json.decode Rule.decoder (Rule.toJson ⟨.integrity, [], ⟨"a", true⟩⟩).compact
      = .ok ⟨.integrity, [], ⟨"a", true⟩⟩ := by
    decide +kernel
  obtain ⟨-, -, -, halike, -⟩ := content_decides
  refine ⟨hsame, ?_⟩
  rcases (halike.alike _ _ hsame).together with ⟨flaw, -, hflaw, -⟩ | ⟨r, hr, hr'⟩
  · exact absurd hflaw (not_ok_and_error hread)
  · rw [hr', ← hr, hread]

end ImageTrust
