import Mathlib.Data.Option.Basic
import ImageTrust.Proofs.Service.ReportAddress
import ImageTrust.Proofs.Text.Blank
import ImageTrust.Proofs.Text.Utf8

/-!
What a configuration that was loaded can be relied on for. Checking and use read the same texts apart
from one another. What each check asks for is stated of what is handed out, and not of what is written,
so a use that trims or bounds a text in another way than its check would not be covered. Blanks around a
text change neither what the checks say nor what is handed out.
-/

namespace ImageTrust

theorem HttpPolicy.allowsScheme_iff {plain : Bool} {scheme : String} :
    allowsScheme plain scheme = true ↔ scheme = "https" ∨ scheme = "http" ∧ plain = true := by
  simp [allowsScheme]

theorem Url.slashEnded_endsWith {u : Url} {names : List String} (hspecial : u.isSpecial = true)
    (hne : names ≠ []) (hpath : u.path = .segments names) (hplain : ∀ s ∈ names, IsPlain s) :
    u.slashEnded.pathText.endsWith '/' = true ∧ u.slashEnded.scheme = u.scheme := by
  rw [slashEnded_eq hspecial hne hpath hplain]
  exact ⟨(endsWith_slash_iff rfl IsPlain.empty).2 rfl, rfl⟩

namespace FileTree

variable {t : FileTree} {path : String}

theorem isDirectory_iff :
    t.isDirectory path = true ↔ ∃ entries, t.take .look path = .ok (.directory entries) := by
  unfold isDirectory
  split
  · rename_i entries h
    simp [h]
  · rename_i h
    simpa using h

theorem isFile_iff :
    t.isFile path = true ↔ ∃ content, t.take .look path = .ok (.file content) := by
  unfold isFile
  split
  · rename_i content h
    simp [h]
  · rename_i h
    simpa using h

end FileTree

namespace Config

/-- A path that is not empty and not too long, nor is any of its components. -/
structure IsPath (path : String) : Prop where
  filled : path ≠ ""
  short : path.utf8ByteSize ≤ 4096
  components : ∀ name ∈ FileTree.components path, name.utf8ByteSize ≤ 255

/-- A path that leads to a directory, which the system lets be looked at. -/
structure LeadsToDirectory (t : FileTree) (path : String) : Prop where
  isPath : IsPath path
  found : ∃ entries, t.take .look path = .ok (.directory entries)

/-- A path that leads to a file, which the system lets be looked at. -/
structure LeadsToFile (t : FileTree) (path : String) : Prop where
  isPath : IsPath path
  found : ∃ content, t.take .look path = .ok (.file content)

/-- What a client may be told to allow: two minutes and 16 MiB at most. -/
structure InLimits (p : HttpPolicy) : Prop where
  timeout : 1 ≤ p.timeout ∧ p.timeout ≤ 120000
  sizeLimit : 1 ≤ p.sizeLimit ∧ p.sizeLimit ≤ 16 * 1024 * 1024

/-- A URL for the attestation service: plain connections have to be allowed. -/
structure IsBase (plain : Bool) (u : Url) : Prop where
  scheme : u.scheme = "https" ∨ u.scheme = "http" ∧ plain = true
  slash : u.pathText.endsWith '/' = true

/-- What the section of the attestation service gives to its client. -/
structure UsableService (c : Config) (a : Attestation) : Prop where
  base : ∃ u, a.base = .ok u ∧ IsBase a.limits.allowPlain u
    ∧ ∀ p t environment s, c.clientSettings p t environment = .ok s →
      s.base = u ∧ s.policy = a.limits.policy
  variableName : ∀ name ∈ a.tokenVariable, Text.trim name ≠ ""
  limits : InLimits a.limits.policy

/-- What the section of key release gives to a gate and to the client of a broker. -/
structure UsableGate (t : FileTree) (c : Config) (k : KeyRelease) : Prop where
  settings : ∃ s, c.gateSettings = .ok s ∧ 1 ≤ s.lifetime ∧ s.lifetime ≤ 86400
    ∧ LeadsToFile t s.authorityFile ∧ s.authorities = c.verification.authoritiesPath
  limits : InLimits k.limits.policy

/-- Everything that a configuration hands out can be used. -/
structure Usable (t : FileTree) (c : Config) : Prop where
  signers : LeadsToDirectory t c.verification.signersPath
  authorities : LeadsToDirectory t c.verification.authoritiesPath
  service : ∀ a, c.attestation = some a → UsableService c a
  gate : ∀ k, c.keyRelease = some k → UsableGate t c k
  serviceMissing : (∃ o, c.attestationSection = .error o) ↔ c.attestation = none
  gateMissing : (∃ o, c.gateSettings = .error o) ↔ c.keyRelease = none
  events : ∃ sink, c.audit.target = .ok sink ∧ ∀ path, sink = .file path → IsPath path
  sink : ∀ files o, c.audit.open files ≠ .error (.invalid o)

section Checks

variable {t : FileTree} {field path : String}

theorem hasLongComponent_eq_false_iff : hasLongComponent path = false
    ↔ ∀ name ∈ FileTree.components path, name.utf8ByteSize ≤ 255 := by
  simp [hasLongComponent, componentLimit]

theorem checkPath_ok_iff : checkPath field path = .ok () ↔ IsPath (Text.trim path) := by
  unfold checkPath
  simp only [check_bind_ok_iff, require_ok_iff, decide_eq_true_eq, Bool.not_eq_true',
    String.isEmpty_eq_false_iff, hasLongComponent_eq_false_iff]
  exact ⟨fun ⟨hfilled, hshort, hcomponents⟩ => ⟨hfilled, hshort, hcomponents⟩,
    fun h => ⟨h.filled, h.short, h.components⟩⟩

theorem checkDirectory_ok_iff :
    checkDirectory t field path = .ok () ↔ LeadsToDirectory t (Text.trim path) := by
  unfold checkDirectory
  rw [check_bind_ok_iff, checkPath_ok_iff, require_ok_iff, FileTree.isDirectory_iff]
  exact ⟨fun ⟨hpath, hfound⟩ => ⟨hpath, hfound⟩, fun h => ⟨h.isPath, h.found⟩⟩

theorem checkFile_ok_iff : checkFile t field path = .ok () ↔ LeadsToFile t (Text.trim path) := by
  unfold checkFile
  rw [check_bind_ok_iff, checkPath_ok_iff, require_ok_iff, FileTree.isFile_iff]
  exact ⟨fun ⟨hpath, hfound⟩ => ⟨hpath, hfound⟩, fun h => ⟨h.isPath, h.found⟩⟩

theorem checkRange_ok_iff {n limit : Nat} :
    checkRange field n limit = .ok () ↔ 1 ≤ n ∧ n ≤ limit := by
  unfold checkRange
  rw [require_ok_iff, Bool.and_eq_true, decide_eq_true_eq, decide_eq_true_eq]

theorem checkOptional_ok_iff {α : Type} {check : α → Except Objection Unit} {o : Option α} :
    checkOptional check o = .ok () ↔ ∀ a, o = some a → check a = .ok () := by
  cases o with
  | none => exact iff_of_true rfl nofun
  | some a => exact ⟨fun h b hb => Option.some.inj hb ▸ h, fun h => h a rfl⟩

theorem Limits.check_ok_iff {name : String} {l : Limits} :
    l.check name = .ok () ↔ InLimits l.policy := by
  unfold Limits.check
  rw [check_bind_ok_iff, checkRange_ok_iff, checkRange_ok_iff]
  exact ⟨fun ⟨htimeout, hsize⟩ => ⟨htimeout, hsize⟩, fun h => ⟨h.timeout, h.sizeLimit⟩⟩

theorem Verification.check_ok_iff {v : Verification} : v.check t = .ok ()
    ↔ LeadsToDirectory t v.signersPath ∧ LeadsToDirectory t v.authoritiesPath := by
  unfold Verification.check
  rw [check_bind_ok_iff, checkDirectory_ok_iff, checkDirectory_ok_iff]
  rfl

theorem Attestation.check_ok_iff {a : Attestation} : a.check = .ok ()
    ↔ (∃ u, a.base = .ok u ∧ HttpPolicy.allowsScheme a.limits.allowPlain u.scheme = true)
      ∧ (∀ name ∈ a.tokenVariable, Text.trim name ≠ "") ∧ InLimits a.limits.policy := by
  unfold Attestation.check
  simp only [bind_ok_iff a.base, check_bind_ok_iff, require_ok_iff, checkOptional_ok_iff,
    Limits.check_ok_iff, Bool.not_eq_true', String.isEmpty_eq_false_iff, Option.mem_def]
  exact ⟨fun ⟨u, hu, hscheme, hrest⟩ => ⟨⟨u, hu, hscheme⟩, hrest⟩,
    fun ⟨⟨u, hu, hscheme⟩, hrest⟩ => ⟨u, hu, hscheme, hrest⟩⟩

theorem KeyRelease.check_ok_iff {k : KeyRelease} : k.check t = .ok ()
    ↔ LeadsToFile t (Text.trim k.authorityFile) ∧ (1 ≤ k.lifetime ∧ k.lifetime ≤ 86400)
      ∧ InLimits k.limits.policy := by
  unfold KeyRelease.check
  rw [check_bind_ok_iff, check_bind_ok_iff, checkFile_ok_iff, checkRange_ok_iff,
    Limits.check_ok_iff]
  rfl

theorem Audit.check_ok_iff {a : Audit} : a.check = .ok ()
    ↔ (∀ path ∈ a.path, IsPath (Text.trim path)) ∧ (a.sink = .file → a.path ≠ none) := by
  unfold Audit.check
  simp only [check_bind_ok_iff, checkOptional_ok_iff, checkPath_ok_iff, require_ok_iff,
    Bool.or_eq_true, bne_iff_ne, Option.isSome_iff_ne_none, Option.mem_def, ← imp_iff_not_or]

theorem check_ok_iff {c : Config} : c.check t = .ok ()
    ↔ c.verification.check t = .ok () ∧ (∀ a, c.attestation = some a → a.check = .ok ())
      ∧ (∀ k, c.keyRelease = some k → k.check t = .ok ()) ∧ c.audit.check = .ok () := by
  unfold Config.check
  simp only [check_bind_ok_iff, checkOptional_ok_iff]

theorem check_of_load {environment : String → Option String} {given : Option String} {c : Config}
    (h : load t environment given = .ok c) : c.check t = .ok () := by
  unfold load at h
  obtain ⟨path, -, h⟩ := (bind_ok_iff _ _ _).1 h
  obtain ⟨-, h⟩ := check_bind_ok_iff.1 h
  obtain ⟨content, -, h⟩ := (bind_ok_iff _ _ _).1 h
  obtain ⟨c', -, h⟩ := (bind_ok_iff _ _ _).1 h
  obtain ⟨hcheck, h⟩ := check_bind_ok_iff.1 h
  cases h
  exact (mapError_ok_iff _ _ _).1 hcheck

end Checks

section Use

variable {t : FileTree} {c : Config}

theorem Attestation.isBase_of_check {a : Attestation} (h : a.check = .ok ()) :
    ∃ u, a.base = .ok u ∧ IsBase a.limits.allowPlain u := by
  obtain ⟨given, names, -, hspecial, hne, hpath, hplain, hbase⟩ := a.base_of_check h
  obtain ⟨⟨u, hu, hscheme⟩, -⟩ := Attestation.check_ok_iff.1 h
  cases ok_unique hbase hu
  exact ⟨_, hbase, HttpPolicy.allowsScheme_iff.1 hscheme,
    (Url.slashEnded_endsWith hspecial hne hpath hplain).1⟩

/-- A client is set up with the URL and the limits of the section. -/
theorem clientSettings_ok {a : Attestation} (hsection : c.attestation = some a) {p : X509.Pki}
    {environment : String → Option String} {s : ClientSettings}
    (h : c.clientSettings p t environment = .ok s) :
    a.base = .ok s.base ∧ s.policy = a.limits.policy := by
  refine ⟨clientSettings_base hsection h, ?_⟩
  unfold clientSettings attestationSection at h
  rw [hsection, ok_bind] at h
  obtain ⟨roots, -, h⟩ := (bind_ok_iff _ _ _).1 h
  obtain ⟨base, -, h⟩ := (bind_ok_iff _ _ _).1 h
  obtain ⟨token, -, h⟩ := (bind_ok_iff _ _ _).1 h
  cases h
  rfl

theorem usableService_of_check {a : Attestation} (hsection : c.attestation = some a)
    (h : a.check = .ok ()) : UsableService c a := by
  obtain ⟨-, hname, hlimits⟩ := Attestation.check_ok_iff.1 h
  obtain ⟨u, hu, hbase⟩ := Attestation.isBase_of_check h
  refine ⟨⟨u, hu, hbase, fun p t environment s hs => ?_⟩, hname, hlimits⟩
  obtain ⟨hs, hpolicy⟩ := clientSettings_ok hsection hs
  exact ⟨ok_unique hs hu, hpolicy⟩

/-- A lifetime that passed its check is never too large for a gate. -/
theorem KeyRelease.gate_ok {k : KeyRelease} (h : k.lifetime ≤ 86400) (authorities : String) :
    k.gate authorities = .ok ⟨Text.trim k.authorityFile, authorities, k.lifetime⟩ := by
  have hlifetime : k.lifetime < Nat.pow 2 63 := lt_of_le_of_lt h (by decide)
  unfold KeyRelease.gate require
  rw [decide_eq_true hlifetime]
  rfl

theorem usableGate_of_check {k : KeyRelease} (hsection : c.keyRelease = some k)
    (h : k.check t = .ok ()) : UsableGate t c k := by
  obtain ⟨hfile, hlifetime, hlimits⟩ := KeyRelease.check_ok_iff.1 h
  have hgate : c.gateSettings
      = .ok ⟨Text.trim k.authorityFile, c.verification.authoritiesPath, k.lifetime⟩ := by
    unfold gateSettings
    rw [hsection]
    exact KeyRelease.gate_ok hlifetime.2 _
  exact ⟨⟨_, hgate, hlifetime.1, hlifetime.2, hfile, rfl⟩, hlimits⟩

theorem attestationSection_error_iff :
    (∃ o, c.attestationSection = .error o) ↔ c.attestation = none := by
  unfold attestationSection
  cases c.attestation <;> simp

theorem gateSettings_error_iff (h : c.check t = .ok ()) :
    (∃ o, c.gateSettings = .error o) ↔ c.keyRelease = none := by
  constructor
  · rintro ⟨o, ho⟩
    by_contra hsome
    obtain ⟨k, hk⟩ := Option.ne_none_iff_exists'.1 hsome
    obtain ⟨s, hs, -⟩ := (usableGate_of_check hk ((check_ok_iff.1 h).2.2.1 k hk)).settings
    exact not_ok_and_error hs ho
  · intro hnone
    unfold gateSettings
    rw [hnone]
    exact ⟨_, rfl⟩

theorem Audit.target_of_check {a : Audit} (h : a.check = .ok ()) :
    ∃ sink, a.target = .ok sink ∧ ∀ path, sink = .file path → IsPath path := by
  obtain ⟨hpath, hneeded⟩ := Audit.check_ok_iff.1 h
  unfold target
  cases hsink : a.sink with
  | standardError => exact ⟨_, rfl, nofun⟩
  | nowhere => exact ⟨_, rfl, nofun⟩
  | file =>
    obtain ⟨path, hsome⟩ := Option.ne_none_iff_exists'.1 (hneeded hsink)
    rw [hsome]
    refine ⟨_, rfl, fun p hp => ?_⟩
    cases hp
    exact hpath path hsome

theorem Audit.open_ne_invalid {a : Audit} (h : a.check = .ok ()) (files : FileTree) (o : Objection) :
    a.open files ≠ .error (.invalid o) := by
  obtain ⟨sink, hsink, -⟩ := Audit.target_of_check h
  unfold Audit.open
  rw [hsink]
  intro hopen
  rcases (bind_error_iff _ _ _).1 hopen with hmap | ⟨s, -, hopen⟩
  · cases hmap
  · rcases (bind_error_iff _ _ _).1 hopen with hmap | ⟨t, -, hopen⟩
    · obtain ⟨cause, -, hcause⟩ := (mapError_error_iff _ _ _).1 hmap
      cases hcause
    · cases hopen

theorem usable_of_check (h : c.check t = .ok ()) : Usable t c := by
  obtain ⟨hverification, hattestation, hrelease, haudit⟩ := check_ok_iff.1 h
  obtain ⟨hsigners, hauthorities⟩ := Verification.check_ok_iff.1 hverification
  exact {
    signers := hsigners
    authorities := hauthorities
    service := fun a ha => usableService_of_check ha (hattestation a ha)
    gate := fun k hk => usableGate_of_check hk (hrelease k hk)
    serviceMissing := attestationSection_error_iff
    gateMissing := gateSettings_error_iff h
    events := Audit.target_of_check haudit
    sink := Audit.open_ne_invalid haudit }

end Use

section Blanks

/-- The same sections but for the blanks around their texts. -/
structure Verification.Respaced (v w : Verification) : Prop where
  signers : Text.SameWithin v.signers w.signers
  authorities : Text.SameWithin v.authorities w.authorities
  skipSignature : v.skipSignature = w.skipSignature

structure Attestation.Respaced (a b : Attestation) : Prop where
  baseUrl : Text.SameWithin a.baseUrl b.baseUrl
  tokenVariable : Option.Rel Text.SameWithin a.tokenVariable b.tokenVariable
  limits : a.limits = b.limits

structure KeyRelease.Respaced (k l : KeyRelease) : Prop where
  authorityFile : Text.SameWithin k.authorityFile l.authorityFile
  lifetime : k.lifetime = l.lifetime
  limits : k.limits = l.limits

structure Audit.Respaced (a b : Audit) : Prop where
  sink : a.sink = b.sink
  path : Option.Rel Text.SameWithin a.path b.path

/-- The same configurations but for the blanks around their texts. -/
structure Respaced (c d : Config) : Prop where
  verification : c.verification.Respaced d.verification
  attestation : Option.Rel Attestation.Respaced c.attestation d.attestation
  keyRelease : Option.Rel KeyRelease.Respaced c.keyRelease d.keyRelease
  audit : c.audit.Respaced d.audit

/-- Two configurations hand out the same, whatever the files and the environment. -/
structure HandOutAlike (c d : Config) : Prop where
  signersPath : c.verification.signersPath = d.verification.signersPath
  authoritiesPath : c.verification.authoritiesPath = d.verification.authoritiesPath
  gate : c.gateSettings = d.gateSettings
  gatePolicy : c.keyRelease.map (·.limits.policy) = d.keyRelease.map (·.limits.policy)
  base : (c.attestationSection >>= Attestation.base) = (d.attestationSection >>= Attestation.base)
  client : ∀ p t environment, (c.clientSettings p t environment).toOption
    = (d.clientSettings p t environment).toOption
  sink : c.audit.target = d.audit.target

variable {t : FileTree} {field path path' : String}

theorem checkDirectory_respaced (h : Text.SameWithin path path') :
    checkDirectory t field path = checkDirectory t field path' := by
  unfold checkDirectory checkPath
  rw [h.trim_eq]

theorem checkPath_respaced (h : Text.SameWithin path path') :
    checkPath field path = checkPath field path' := by
  unfold checkPath
  rw [h.trim_eq]

theorem checkFile_respaced (h : Text.SameWithin path path') :
    checkFile t field path = checkFile t field path' := by
  unfold checkFile checkPath
  rw [h.trim_eq]

theorem checkOptional_respaced {α : Type} {R : α → α → Prop} {check : α → Except Objection Unit}
    (hcheck : ∀ a b, R a b → check a = check b) {o o' : Option α} (h : Option.Rel R o o') :
    checkOptional check o = checkOptional check o' := by
  cases h with
  | none => rfl
  | some hab => exact hcheck _ _ hab

theorem isSome_eq_of_rel {α : Type} {R : α → α → Prop} {o o' : Option α} (h : Option.Rel R o o') :
    o.isSome = o'.isSome := by
  cases h <;> rfl

theorem Attestation.base_respaced {a b : Attestation} (h : a.Respaced b) : a.base = b.base := by
  unfold base
  rw [h.baseUrl.trim_eq]

theorem Attestation.check_respaced {a b : Attestation} (h : a.Respaced b) : a.check = b.check := by
  have hname : ∀ name name', Text.SameWithin name name' →
      require (!(Text.trim name).isEmpty) (.fieldEmpty "attestation.bearer_token_env")
        = require (!(Text.trim name').isEmpty) (.fieldEmpty "attestation.bearer_token_env") :=
    fun name name' h => by rw [h.trim_eq]
  unfold check
  rw [Attestation.base_respaced h, h.limits, checkOptional_respaced hname h.tokenVariable]

theorem check_respaced {c d : Config} (h : c.Respaced d) : c.check t = d.check t := by
  have hverification : c.verification.check t = d.verification.check t := by
    unfold Verification.check
    rw [checkDirectory_respaced h.verification.signers,
      checkDirectory_respaced h.verification.authorities]
  have hrelease : ∀ k l : KeyRelease, k.Respaced l → k.check t = l.check t := by
    intro k l h
    unfold KeyRelease.check
    rw [checkFile_respaced h.authorityFile, h.lifetime, h.limits]
  have haudit : c.audit.check = d.audit.check := by
    unfold Audit.check
    rw [checkOptional_respaced (fun _ _ h => checkPath_respaced h) h.audit.path, h.audit.sink,
      isSome_eq_of_rel h.audit.path]
  unfold Config.check
  rw [hverification, checkOptional_respaced (fun _ _ h => Attestation.check_respaced h) h.attestation,
    checkOptional_respaced hrelease h.keyRelease, haudit]

/-- The token is looked up by the name without the blanks; the fault quotes the name as written. -/
theorem Attestation.token_respaced {a b : Attestation} (h : a.Respaced b)
    (environment : String → Option String) :
    (a.token environment).toOption = (b.token environment).toOption := by
  have hname := h.tokenVariable
  unfold token
  generalize a.tokenVariable = o at hname ⊢
  generalize b.tokenVariable = o' at hname ⊢
  cases hname with
  | none => rfl
  | some hname =>
    dsimp only
    rw [hname.trim_eq]
    split <;> rfl

theorem gateSettings_respaced {c d : Config} (h : c.Respaced d) : c.gateSettings = d.gateSettings := by
  have hauthorities : c.verification.authoritiesPath = d.verification.authoritiesPath :=
    h.verification.authorities.trim_eq
  have hrelease := h.keyRelease
  unfold gateSettings
  rw [hauthorities]
  generalize c.keyRelease = o at hrelease ⊢
  generalize d.keyRelease = o' at hrelease ⊢
  cases hrelease with
  | none => rfl
  | some hk =>
    dsimp only
    unfold KeyRelease.gate
    rw [hk.authorityFile.trim_eq, hk.lifetime]

theorem clientSettings_respaced {c d : Config} (h : c.Respaced d) (p : X509.Pki) (t : FileTree)
    (environment : String → Option String) :
    (c.clientSettings p t environment).toOption = (d.clientSettings p t environment).toOption := by
  have hauthorities : c.verification.authoritiesPath = d.verification.authoritiesPath :=
    h.verification.authorities.trim_eq
  have hsection := h.attestation
  unfold clientSettings attestationSection
  rw [hauthorities]
  generalize c.attestation = o at hsection ⊢
  generalize d.attestation = o' at hsection ⊢
  cases hsection with
  | none => rfl
  | some ha =>
    rw [ok_bind, ok_bind]
    simp only [toOption_bind, Attestation.base_respaced ha, Attestation.token_respaced ha, ha.limits]

theorem handOutAlike_of_respaced {c d : Config} (h : c.Respaced d) : c.HandOutAlike d where
  signersPath := h.verification.signers.trim_eq
  authoritiesPath := h.verification.authorities.trim_eq
  gate := gateSettings_respaced h
  gatePolicy := by
    have hrelease := h.keyRelease
    generalize c.keyRelease = o at hrelease ⊢
    generalize d.keyRelease = o' at hrelease ⊢
    cases hrelease with
    | none => rfl
    | some hk => simp only [Option.map_some, hk.limits]
  base := by
    have hsection := h.attestation
    unfold attestationSection
    generalize c.attestation = o at hsection ⊢
    generalize d.attestation = o' at hsection ⊢
    cases hsection with
    | none => rfl
    | some ha =>
      rw [ok_bind, ok_bind]
      exact Attestation.base_respaced ha
  client := clientSettings_respaced h
  sink := by
    have hpath := h.audit.path
    unfold Audit.target
    rw [h.audit.sink]
    generalize c.audit.path = o at hpath ⊢
    generalize d.audit.path = o' at hpath ⊢
    cases hpath with
    | none => rfl
    | some hpath =>
      cases d.audit.sink with
      | standardError => rfl
      | nowhere => rfl
      | file =>
        dsimp only
        rw [hpath.trim_eq]

end Blanks

section Main

variable {t : FileTree} {environment : String → Option String} {given : Option String} {c : Config}

/-- What is loaded can be used as it was checked, with any blanks around its texts. -/
theorem usable_of_load (h : load t environment given = .ok c) :
    Usable t c ∧ ∀ d, c.Respaced d → d.check t = .ok () ∧ Usable t d ∧ c.HandOutAlike d := by
  have hcheck := check_of_load h
  refine ⟨usable_of_check hcheck, fun d hd => ?_⟩
  have hcheck' : d.check t = .ok () := by rw [← check_respaced hd, hcheck]
  exact ⟨hcheck', usable_of_check hcheck', handOutAlike_of_respaced hd⟩

theorem ofOctets_encode {s : String} (hshort : s.length ≤ 262144)
    (h : Toml.decode? decoder s = some c) : ofOctets (Text.encode s) = .ok c := by
  have hsize : ¬ (Text.encode s).length > fileSizeLimit := by
    have := Text.length_encode_le s
    unfold fileSizeLimit
    omega
  unfold ofOctets Text.decode?
  rw [if_neg hsize, Text.decode_encode]
  simp [h, pure, Except.pure]

/-- A configuration with blanks around its texts and the longest lifetime. -/
def roomyText : String :=
  "[verification]\nsigning_certs_dir=\" /srv/s\"\ntrusted_cas_dir=\"\\tc \"\n"
    ++ "[attestation]\nbase_url=\" http://h/v2 \"\nallow_http=true\n"
    ++ "[key_release]\nsaml_ca_file=\" /srv/f \"\ncache_ttl_seconds=86400\n"

def roomyConfig : Config where
  verification := ⟨" /srv/s", "\tc ", false⟩
  attestation := some ⟨" http://h/v2 ", none, 10000, 1048576, true⟩
  keyRelease := some ⟨" /srv/f ", 86400, 10000, 1048576, false⟩
  audit := Audit.standard

/-- The same configuration without the blanks. -/
def tightConfig : Config where
  verification := ⟨"/srv/s", "c", false⟩
  attestation := some ⟨"http://h/v2", none, 10000, 1048576, true⟩
  keyRelease := some ⟨"/srv/f", 86400, 10000, 1048576, false⟩
  audit := Audit.standard

theorem roomyConfig_respaced : roomyConfig.Respaced tightConfig := by
  have hwithin : ∀ before after inner : String, before.toList.all Text.isBlank = true →
      after.toList.all Text.isBlank = true → Text.SameWithin (before ++ inner ++ after) inner := by
    intro before after inner hbefore hafter
    refine ⟨inner, Text.surrounds_of_all _ _ hbefore hafter ?_, Text.surrounds_of_all [] [] rfl rfl ?_⟩
    · rw [String.toList_append, String.toList_append]
    · rw [List.nil_append, List.append_nil]
  have hsigners := hwithin " " "" "/srv/s" (by decide) (by decide)
  have hauthorities := hwithin "\t" " " "c" (by decide) (by decide)
  have hbase := hwithin " " " " "http://h/v2" (by decide) (by decide)
  have hsecret := hwithin " " " " "/srv/f" (by decide) (by decide)
  exact ⟨⟨hsigners, hauthorities, rfl⟩, .some ⟨hbase, .none, rfl⟩, .some ⟨hsecret, rfl, rfl⟩, ⟨rfl, .none⟩⟩

/-- The files that the configuration names by paths from the root and from the current directory, where
the file stands that holds it. -/
def roomyTree (content : Octets) : FileTree where
  root := .directory [("run", .directory [(standardPath, .file content), ("c", .directory [])]),
    ("srv", .directory [("s", .directory []), ("f", .file [])])]
  here := ["run"]
  refuses := fun _ _ => none

theorem roomyConfig_usable :
    load (roomyTree (Text.encode roomyText)) (fun _ => none) none = .ok roomyConfig
      ∧ Usable (roomyTree (Text.encode roomyText)) roomyConfig
      ∧ Usable (roomyTree (Text.encode roomyText)) tightConfig
      ∧ roomyConfig.HandOutAlike tightConfig := by
  have hdecode : Toml.decode? decoder roomyText = some roomyConfig := by decide +kernel
  have hread : (roomyTree (Text.encode roomyText)).read standardPath
      = .ok (Text.encode roomyText) := by decide +kernel
  have hcheck : roomyConfig.check (roomyTree (Text.encode roomyText)) = .ok () := by decide +kernel
  have h : load (roomyTree (Text.encode roomyText)) (fun _ => none) none = .ok roomyConfig := by
    have hpath : checkConfigPath standardPath = .ok () := by decide +kernel
    unfold load findPath
    dsimp only
    simp only [bind_ok_iff, mapError_ok_iff]
    exact ⟨_, rfl, (), hpath, _, hread, _, ofOctets_encode (by decide +kernel) hdecode, (), hcheck, rfl⟩
  obtain ⟨husable, hrespaced⟩ := usable_of_load h
  obtain ⟨-, htight⟩ := hrespaced tightConfig roomyConfig_respaced
  exact ⟨h, husable, htight⟩

end Main

end Config

end ImageTrust
