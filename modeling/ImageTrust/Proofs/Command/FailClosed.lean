import ImageTrust.Command.Run
import ImageTrust.Proofs.Files.Listing
import ImageTrust.Proofs.Json.Printable

/-!
The exit code can be relied on. A command that has its answer prints it as one line, and it succeeds
unless the answer is that an instance is not trusted. A command that meets an obstacle on its way prints
nothing and fails; nothing is printed before the last obstacle is passed.
-/

namespace ImageTrust.Command

/-- A document that is within the limit and is decoded. -/
structure Decoded {α : Type} (t : FileTree) (d : Json.Decoder α) (path : String) (a : α) : Prop where
  size : ∃ n, t.size path = .ok n ∧ n ≤ inputLimit
  content : ∃ octets, t.read path = .ok octets ∧ Json.decodeOctets d octets = .ok a

/-- Why a document cannot be used. -/
inductive Unusable {α : Type} (t : FileTree) (d : Json.Decoder α) (path : String) : Prop where
  | unreadable {cause} : t.size path = .error cause ∨ t.read path = .error cause → Unusable t d path
  | tooLarge {n} : t.size path = .ok n → inputLimit < n → Unusable t d path
  | malformed {octets flaw} : t.read path = .ok octets → Json.decodeOctets d octets = .error flaw →
    Unusable t d path

/-- Why no gate can be set up by a configuration. -/
inductive Unready (w : World) (c : Config) : Prop where
  | gate {o} : c.gateSettings = .error o → Unready w c
  | settings {o} : c.clientSettings w.pki w.files w.environment = .error o → Unready w c
  | client {s fault} : c.clientSettings w.pki w.files w.environment = .ok s →
    AttestationClient.ofSettings w.transport s = .error fault → Unready w c

/-- What the judgement of an instance comes to, once there is a record to write to. -/
def Judged (w : World) (c : Config) (manifest flavor : String)
    (answer : Except Evaluation.InputFault TrustReport) : Prop :=
  ∃ m f sink files, Decoded w.files Manifest.decoder manifest m
    ∧ Decoded w.files SignedFlavor.decoder flavor f ∧ c.audit.open w.files = .ok (sink, files)
    ∧ (Evaluation.evaluate w.pki files w.now
        ⟨c.verification.signersPath, c.verification.authoritiesPath⟩ c.verification.skipSignature
        m f).answer = answer

/-- What a gate answers to a command that asks for a key. -/
inductive Asked (w : World) (c : Config) : Command → Except Release.Fault Octets → Prop where
  | transferKey {g host url answer} : openGate w c = .ok g →
    (Release.transferKey (g.peers w) g.settings.lifetime w.now .empty host url).answer = answer →
    Asked w c (.transferKey host url) answer
  | flavorKey {g f flavor host answer} : Decoded w.files SignedFlavor.decoder flavor f →
    openGate w c = .ok g →
    (Release.flavorKey (g.peers w) g.settings.lifetime w.now .empty host f.flavor).answer = answer →
    Asked w c (.flavorKey flavor host) answer

/-- The answer to a command: the line that is printed, and whether it counts as success. -/
inductive Answered (w : World) (config : Option String) : Command → Json → Bool → Prop where
  | report {c manifest flavor report success} :
    Config.load w.files w.environment config = .ok c → Judged w c manifest flavor (.ok report) →
    report.trusted = success → Answered w config (.verify manifest flavor) report.toJson success
  | key {c command octets} :
    Config.load w.files w.environment config = .ok c → Asked w c command (.ok octets) →
    Answered w config command (.obj [("key", .str (Base64.encode octets))]) true
  | checked {c} : Config.load w.files w.environment config = .ok c →
    Answered w config .checkConfig (configLine c) true

/-- Whether a gate is needed. -/
def asksKey : Command → Bool
  | .transferKey _ _ | .flavorKey _ _ => true
  | .verify _ _ | .checkConfig => false

/-- Whatever keeps a command from its answer. -/
inductive Obstacle (w : World) (config : Option String) : Command → Prop where
  | configuration {fault command} : Config.load w.files w.environment config = .error fault →
    Obstacle w config command
  | manifest {manifest flavor} : Unusable w.files Manifest.decoder manifest →
    Obstacle w config (.verify manifest flavor)
  | flavor {manifest flavor} : Unusable w.files SignedFlavor.decoder flavor →
    Obstacle w config (.verify manifest flavor)
  | keyFlavor {flavor host} : Unusable w.files SignedFlavor.decoder flavor →
    Obstacle w config (.flavorKey flavor host)
  | record {c fault command} : Config.load w.files w.environment config = .ok c →
    command ≠ .checkConfig → c.audit.open w.files = .error fault → Obstacle w config command
  | setup {c command} : Config.load w.files w.environment config = .ok c → command.asksKey = true →
    Unready w c → Obstacle w config command
  | input {c manifest flavor fault} : Config.load w.files w.environment config = .ok c →
    Judged w c manifest flavor (.error fault) → Obstacle w config (.verify manifest flavor)
  | refusal {c command fault} : Config.load w.files w.environment config = .ok c →
    Asked w c command (.error fault) → Obstacle w config command

section Document

variable {α : Type} {t : FileTree} {d : Json.Decoder α} {kind path : String}

theorem readDocument_ok_iff {a : α} :
    readDocument t d kind path = .ok a ↔ Decoded t d path a := by
  unfold readDocument
  simp only [bind_ok_iff (Except.mapError _ _), throw_if_ok_iff, mapError_ok_iff]
  constructor
  · rintro ⟨-, -, n, hn, hle, octets, ho, ha⟩
    exact ⟨⟨n, hn, Nat.not_lt.1 hle⟩, octets, ho, ha⟩
  · rintro ⟨⟨n, hn, hle⟩, octets, ho, ha⟩
    exact ⟨_, FileTree.read_ok_iff.1 ho, n, hn, Nat.not_lt.2 hle, octets, ho, ha⟩

theorem unusable_of_readDocument {fault : Fault} (h : readDocument t d kind path = .error fault) :
    Unusable t d path := by
  unfold readDocument at h
  simp only [bind_error_iff (Except.mapError _ _), throw_if_error_iff, mapError_ok_iff,
    mapError_error_iff] at h
  obtain ⟨cause, ht, -⟩ | ⟨-, -, h⟩ := h
  · -- what cannot be opened cannot be read
    have hr : t.read path = .error cause := by
      rw [FileTree.read, ht]
      rfl
    exact .unreadable (.inr hr)
  obtain ⟨cause, hs, -⟩ | ⟨n, hn, ⟨hlt, -⟩ | ⟨-, ⟨cause, hr, -⟩ | ⟨octets, ho, flaw, hf, -⟩⟩⟩ := h
  · exact .unreadable (.inl hs)
  · exact .tooLarge hn hlt
  · exact .unreadable (.inr hr)
  · exact .malformed ho hf

theorem Decoded.not_unusable {a : α} (h : Decoded t d path a) : ¬ Unusable t d path := by
  obtain ⟨⟨n, hn, hle⟩, octets, ho, ha⟩ := h
  rintro (⟨hu | hu⟩ | ⟨hu, hlt⟩ | ⟨hu, hf⟩)
  · exact not_ok_and_error hn hu
  · exact not_ok_and_error ho hu
  · rw [ok_unique hu hn] at hlt
    exact Nat.not_lt.2 hle hlt
  · rw [ok_unique hu ho] at hf
    exact not_ok_and_error ha hf

theorem Decoded.unique {a b : α} (ha : Decoded t d path a) (hb : Decoded t d path b) : a = b := by
  obtain ⟨-, octets, ho, ha⟩ := ha
  obtain ⟨-, octets', ho', hb⟩ := hb
  cases ok_unique ho ho'
  exact ok_unique ha hb

end Document

variable {w : World} {c : Config}

section Gate

theorem unready_of_openGate {fault : Fault} (h : openGate w c = .error fault) :
    Unready w c ∨ ∃ fault, c.audit.open w.files = .error fault := by
  unfold openGate at h
  simp only [bind_error_iff (Except.mapError _ _), mapError_ok_iff, mapError_error_iff] at h
  rcases h with ⟨o, hg, -⟩ | ⟨_, -, ⟨o, hs, -⟩ | ⟨s, hs, ⟨o, hc, -⟩ | ⟨_, -, ⟨o, ha, -⟩ | ⟨_, -, h⟩⟩⟩⟩
  · exact .inl (.gate hg)
  · exact .inl (.settings hs)
  · exact .inl (.client hs hc)
  · exact .inr ⟨o, ha⟩
  · cases h

theorem ready_of_openGate {g : Gate} (h : openGate w c = .ok g) :
    ¬ Unready w c ∧ ∃ opened, c.audit.open w.files = .ok opened := by
  unfold openGate at h
  simp only [bind_ok_iff (Except.mapError _ _), mapError_ok_iff] at h
  obtain ⟨settings, hg, s, hs, client, hc, opened, ha, -⟩ := h
  refine ⟨?_, opened, ha⟩
  rintro (hu | hu | ⟨hu, hf⟩)
  · exact not_ok_and_error hg hu
  · exact not_ok_and_error hs hu
  · rw [ok_unique hu hs] at hf
    exact not_ok_and_error hc hf

/-- A gate that is not opened is an obstacle to every command that needs one. -/
theorem obstacle_of_openGate {config : Option String} {command : Command} {fault : Fault}
    (hc : Config.load w.files w.environment config = .ok c) (hk : command.asksKey = true)
    (h : openGate w c = .error fault) : Obstacle w config command := by
  rcases unready_of_openGate h with hu | ⟨fault, ho⟩
  · exact .setup hc hk hu
  · refine .record hc ?_ ho
    rintro rfl
    cases hk

end Gate

section Course

/-- The steps of judging an instance, of which the first that fails decides. -/
theorem judge_answer (manifest flavor : String) : (judge w c manifest flavor).answer = do
    let m ← readDocument w.files Manifest.decoder "manifest" manifest
    let f ← readDocument w.files SignedFlavor.decoder "flavor" flavor
    let opened ← (c.audit.open w.files).mapError Fault.setting
    let report ← (Evaluation.evaluate w.pki opened.2 w.now
      ⟨c.verification.signersPath, c.verification.authoritiesPath⟩ c.verification.skipSignature
      m f).answer.mapError Fault.input
    return (report.toJson, report.trusted) := by
  unfold judge
  cases readDocument w.files Manifest.decoder "manifest" manifest with
  | error fault => rfl
  | ok m =>
    cases readDocument w.files SignedFlavor.decoder "flavor" flavor with
    | error fault => rfl
    | ok f =>
      cases c.audit.open w.files with
      | error fault => rfl
      | ok opened =>
        dsimp only [bind, Except.bind, pure, Except.pure, Except.mapError]
        generalize Evaluation.evaluate w.pki opened.2 w.now _ _ m f = judged
        cases judged.answer <;> rfl

theorem gate_ending_answer (g : Gate) (o : Release.Outcome) : (g.ending w o).answer = do
    let octets ← o.answer.mapError Fault.release
    return (keyLine octets, true) := by
  unfold Gate.ending
  cases o.answer <;> rfl

theorem releaseKey_answer (host url : String) : (releaseKey w c host url).answer = do
    let g ← openGate w c
    let octets ← (Release.transferKey (g.peers w) g.settings.lifetime w.now .empty host
      url).answer.mapError Fault.release
    return (keyLine octets, true) := by
  unfold releaseKey
  cases openGate w c with
  | error fault => rfl
  | ok g => exact gate_ending_answer g _

theorem releaseFlavorKey_answer (flavor host : String) :
    (releaseFlavorKey w c flavor host).answer = do
    let f ← readDocument w.files SignedFlavor.decoder "flavor" flavor
    let g ← openGate w c
    let octets ← (Release.flavorKey (g.peers w) g.settings.lifetime w.now .empty host
      f.flavor).answer.mapError Fault.release
    return (keyLine octets, true) := by
  unfold releaseFlavorKey
  cases readDocument w.files SignedFlavor.decoder "flavor" flavor with
  | error fault => rfl
  | ok f =>
    cases openGate w c with
    | error fault => rfl
    | ok g => exact gate_ending_answer g _

theorem judge_ok_iff {manifest flavor : String} {line : Json} {success : Bool} :
    (judge w c manifest flavor).answer = .ok (line, success) ↔ ∃ report : TrustReport,
      Judged w c manifest flavor (.ok report) ∧ report.toJson = line ∧ report.trusted = success := by
  rw [judge_answer]
  simp only [bind_ok_iff, readDocument_ok_iff, mapError_ok_iff]
  constructor
  · rintro ⟨m, hm, f, hf, ⟨sink, files⟩, ho, report, hr, h⟩
    cases h
    exact ⟨report, ⟨m, f, sink, files, hm, hf, ho, hr⟩, rfl, rfl⟩
  · rintro ⟨report, ⟨m, f, sink, files, hm, hf, ho, hr⟩, rfl, rfl⟩
    exact ⟨m, hm, f, hf, (sink, files), ho, report, hr, rfl⟩

theorem obstacle_of_judge {config : Option String} {manifest flavor : String} {fault : Fault}
    (hc : Config.load w.files w.environment config = .ok c)
    (h : (judge w c manifest flavor).answer = .error fault) :
    Obstacle w config (.verify manifest flavor) := by
  rw [judge_answer] at h
  simp only [bind_error_iff, readDocument_ok_iff, mapError_ok_iff, mapError_error_iff] at h
  rcases h with hm | ⟨m, hm, hf | ⟨f, hf, ⟨o, ho, -⟩ | ⟨⟨sink, files⟩, ho, ⟨o, hr, -⟩ | ⟨_, -, h⟩⟩⟩⟩
  · exact .manifest (unusable_of_readDocument hm)
  · exact .flavor (unusable_of_readDocument hf)
  · exact .record hc nofun ho
  · exact .input hc ⟨m, f, sink, files, hm, hf, ho, hr⟩
  · cases h

/-- A command has its answer exactly when every step on its way succeeds. -/
theorem perform_ok_iff {config : Option String} {command : Command} {line : Json} {success : Bool} :
    (perform w config command).answer = .ok (line, success)
      ↔ Answered w config command line success := by
  unfold perform
  cases hc : Config.load w.files w.environment config with
  | error fault =>
    refine iff_of_false nofun ?_
    rintro (⟨hl, -⟩ | ⟨hl, -⟩ | hl) <;> exact not_ok_and_error hl hc
  | ok c =>
    cases command with
    | verify manifest flavor =>
      dsimp only
      rw [judge_ok_iff]
      constructor
      · rintro ⟨report, hj, rfl, hs⟩
        exact .report hc hj hs
      · rintro (⟨hl, hj, hs⟩ | ⟨-, ⟨⟩⟩)
        cases ok_unique hc hl
        exact ⟨_, hj, rfl, hs⟩
    | transferKey host url =>
      dsimp only
      rw [releaseKey_answer]
      simp only [bind_ok_iff, mapError_ok_iff]
      constructor
      · rintro ⟨g, hg, octets, ha, h⟩
        cases h
        exact .key hc (.transferKey hg ha)
      · rintro (_ | ⟨hl, hg, ha⟩)
        cases ok_unique hc hl
        exact ⟨_, hg, _, ha, rfl⟩
    | flavorKey flavor host =>
      dsimp only
      rw [releaseFlavorKey_answer]
      simp only [bind_ok_iff, mapError_ok_iff, readDocument_ok_iff]
      constructor
      · rintro ⟨f, hf, g, hg, octets, ha, h⟩
        cases h
        exact .key hc (.flavorKey hf hg ha)
      · rintro (_ | ⟨hl, ⟨⟩ | ⟨hf, hg, ha⟩⟩)
        cases ok_unique hc hl
        exact ⟨_, hf, _, hg, _, ha, rfl⟩
    | checkConfig =>
      constructor
      · intro h
        cases h
        exact .checked hc
      · rintro (_ | ⟨-, ⟨⟩⟩ | hl)
        cases ok_unique hc hl
        rfl

/-- Whatever fails was kept from its answer by an obstacle. -/
theorem obstacle_of_perform {config : Option String} {command : Command} {fault : Fault}
    (h : (perform w config command).answer = .error fault) : Obstacle w config command := by
  unfold perform at h
  cases hc : Config.load w.files w.environment config with
  | error fault => exact .configuration hc
  | ok c =>
    rw [hc] at h
    cases command with
    | verify manifest flavor => exact obstacle_of_judge hc h
    | transferKey host url =>
      dsimp only at h
      rw [releaseKey_answer] at h
      simp only [bind_error_iff, mapError_error_iff] at h
      rcases h with hg | ⟨g, hg, ⟨o, ha, -⟩ | ⟨_, -, h⟩⟩
      · exact obstacle_of_openGate hc rfl hg
      · exact .refusal hc (.transferKey hg ha)
      · cases h
    | flavorKey flavor host =>
      dsimp only at h
      rw [releaseFlavorKey_answer] at h
      simp only [bind_error_iff, mapError_error_iff, readDocument_ok_iff] at h
      rcases h with hf | ⟨f, hf, hg | ⟨g, hg, ⟨o, ha, -⟩ | ⟨_, -, h⟩⟩⟩
      · exact .keyFlavor (unusable_of_readDocument hf)
      · exact obstacle_of_openGate hc rfl hg
      · exact .refusal hc (.flavorKey hf hg ha)
      · cases h
    | checkConfig => cases h

end Course

section Exclusion

theorem Judged.unique {manifest flavor : String}
    {answer answer' : Except Evaluation.InputFault TrustReport}
    (h : Judged w c manifest flavor answer) (h' : Judged w c manifest flavor answer') :
    answer = answer' := by
  obtain ⟨m, f, sink, files, hm, hf, ho, ha⟩ := h
  obtain ⟨m', f', sink', files', hm', hf', ho', ha'⟩ := h'
  cases hm.unique hm'
  cases hf.unique hf'
  cases ok_unique ho ho'
  exact ha.symm.trans ha'

theorem Asked.unique {command : Command} {answer answer' : Except Release.Fault Octets}
    (h : Asked w c command answer) (h' : Asked w c command answer') : answer = answer' := by
  cases h with
  | transferKey hg ha =>
    obtain ⟨hg', ha'⟩ := h'
    cases ok_unique hg hg'
    exact ha.symm.trans ha'
  | flavorKey hf hg ha =>
    obtain _ | ⟨hf', hg', ha'⟩ := h'
    cases hf.unique hf'
    cases ok_unique hg hg'
    exact ha.symm.trans ha'

theorem Asked.ready {command : Command} {answer : Except Release.Fault Octets}
    (h : Asked w c command answer) :
    ¬ Unready w c ∧ ∃ opened, c.audit.open w.files = .ok opened := by
  cases h with
  | transferKey hg _ => exact ready_of_openGate hg
  | flavorKey _ hg _ => exact ready_of_openGate hg

/-- No command has an answer in spite of an obstacle. -/
theorem Answered.no_obstacle {config : Option String} {command : Command} {line : Json}
    {success : Bool} (h : Answered w config command line success) : ¬ Obstacle w config command := by
  intro ho
  -- each obstacle denies a step of the answer; a command that cannot meet it drops out
  cases h with
  | report hl hj _ =>
    obtain ⟨m, f, sink, files, hm, hf, hopen, -⟩ := id hj
    cases ho with
    | configuration hl' => exact not_ok_and_error hl hl'
    | manifest hu => exact hm.not_unusable hu
    | flavor hu => exact hf.not_unusable hu
    | record hl' _ hr =>
      cases ok_unique hl hl'
      exact not_ok_and_error hopen hr
    | setup _ hk _ => cases hk
    | input hl' hj' =>
      cases ok_unique hl hl'
      exact nomatch hj.unique hj'
    | refusal _ ha => cases ha
  | key hl ha =>
    obtain ⟨hready, opened, hopen⟩ := ha.ready
    cases ho with
    | configuration hl' => exact not_ok_and_error hl hl'
    | manifest _ => cases ha
    | flavor _ => cases ha
    | keyFlavor hu =>
      cases ha with
      | flavorKey hf _ _ => exact hf.not_unusable hu
    | record hl' _ hr =>
      cases ok_unique hl hl'
      exact not_ok_and_error hopen hr
    | setup hl' _ hu =>
      cases ok_unique hl hl'
      exact hready hu
    | input _ _ => cases ha
    | refusal hl' ha' =>
      cases ok_unique hl hl'
      exact nomatch ha.unique ha'
  | checked hl =>
    cases ho with
    | configuration hl' => exact not_ok_and_error hl hl'
    | record _ hne _ => exact hne rfl
    | setup _ hk _ => cases hk
    | refusal _ ha => cases ha

end Exclusion

/-- A line that is all there is on the output. -/
def Outcome.Prints (o : Outcome) (line : Json) : Prop :=
  o.output = line.compact ++ "\n" ∧ '\n' ∉ line.compact.toList

/-- What the exit code and the output of a command tell. -/
structure FailsClosed (w : World) (config : Option String) (command : Command) (o : Outcome) :
    Prop where
  success_iff : o.code = 0 ↔ ∃ line, Answered w config command line true ∧ o.Prints line
  untrusted : ∀ line, Answered w config command line false →
    (∃ manifest flavor, command = .verify manifest flavor) ∧ o.code = 1 ∧ o.Prints line
  obstacle : Obstacle w config command → o.code = 1 ∧ o.output = ""
  complete : (∃ line success, Answered w config command line success) ∨ Obstacle w config command

section Outcome

variable {config : Option String} {command : Command} {line : Json} {success : Bool}

/-- Only an instance can be found wanting. -/
theorem Answered.isVerify (h : Answered w config command line false) :
    ∃ manifest flavor, command = .verify manifest flavor := by
  cases h with
  | report _ _ _ => exact ⟨_, _, rfl⟩

theorem Answered.outcome (h : Answered w config command line success) :
    ((perform w config command).outcome w).code = (if success then 0 else 1)
      ∧ ((perform w config command).outcome w).Prints line := by
  unfold Ending.outcome
  rw [perform_ok_iff.2 h]
  exact ⟨rfl, rfl, Json.newline_not_mem_compact line⟩

theorem Obstacle.outcome (h : Obstacle w config command) :
    ((perform w config command).outcome w).code = 1
      ∧ ((perform w config command).outcome w).output = "" := by
  unfold Ending.outcome
  cases ha : (perform w config command).answer with
  | error fault => exact ⟨rfl, rfl⟩
  | ok answer => exact absurd h (perform_ok_iff.1 ha).no_obstacle

theorem answered_or_obstacle (w : World) (config : Option String) (command : Command) :
    (∃ line success, Answered w config command line success) ∨ Obstacle w config command := by
  cases ha : (perform w config command).answer with
  | error fault => exact .inr (obstacle_of_perform ha)
  | ok answer => exact .inl ⟨answer.1, answer.2, perform_ok_iff.1 ha⟩

end Outcome

/-- A command succeeds exactly when its answer is printed and counts as success. The report on an
instance that is not trusted is printed too, with a failure. Everything else fails on an obstacle,
without output. -/
theorem commands_fail_closed (w : World) (config : Option String) (command : Command) :
    FailsClosed w config command ((perform w config command).outcome w) := by
  refine ⟨⟨fun hcode => ?_, ?_⟩, ?_, Obstacle.outcome, answered_or_obstacle w config command⟩
  · rcases answered_or_obstacle w config command with ⟨line, success, h⟩ | ho
    · cases success with
      | true => exact ⟨line, h, h.outcome.2⟩
      | false => exact absurd (h.outcome.1.symm.trans hcode) nofun
    · exact absurd (ho.outcome.1.symm.trans hcode) nofun
  · rintro ⟨line, h, -⟩
    exact h.outcome.1
  · intro line h
    exact ⟨h.isVerify, h.outcome⟩

end ImageTrust.Command
