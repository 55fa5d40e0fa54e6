import ImageTrust.Proofs.X509.Bundle
import ImageTrust.Trust.FlavorSigner

/-!
The verdict on a flavor and the record of how it was found. Somebody signed the flavor exactly when one
of the bundles of the signing directory has a trusted leaf whose key verifies the signature. The record
tells what stood in the way of trying at all, or else every candidate that was passed over, in the order
of names, and then the one that was accepted or how many were tried.
-/

namespace ImageTrust.FlavorSigner

open ImageTrust.X509

/-- The bundles of a directory: its regular files with the extension, in the order of their names. -/
def Lists (t : FileTree) (directory : String) (paths : List String) : Prop :=
  ∃ (entries : List (String × FileEntry)) (names : List String), t.list directory = .ok entries
    ∧ names.Perm ((entries.filter fun e => Bundle.isCandidate e.1 e.2).map (·.1))
    ∧ names.Pairwise (· ≤ ·) ∧ paths = names.map (joinPath directory)

/-- The certificates of all bundles of a directory, one bundle after the other. -/
def Holds (p : Pki) (t : FileTree) (directory : String) (certificates : List Octets) : Prop :=
  ∃ paths bundles, Lists t directory paths
    ∧ List.Forall₂ (fun path bundle => Bundle.read p t path = .ok bundle) paths bundles
    ∧ certificates = bundles.flatten

/-- What candidates are tried with, when nothing stands in the way of trying. -/
structure Prepared (p : Pki) (t : FileTree) (signers authorities : String) (f : SignedFlavor)
    (q : Preparation p) : Prop where
  listed : Lists t signers q.candidates
  loaded : Holds p t authorities q.trusted.roots
  anchored : List.Forall₂ (fun der anchor => p.anchor der = .ok anchor) q.trusted.roots
    q.trusted.anchors
  decoded : Base64.decode (Text.trim f.signature) = .ok q.signature
  digested : q.digest = Digest.sha384.apply (Text.encode f.flavor.signaturePayload)

/-- What stands in the way of trying: the first of the four things to be read that cannot be. -/
inductive Obstructed (p : Pki) (t : FileTree) (signers authorities : String) (f : SignedFlavor) :
    Obstacle → Prop where
  | signers (fault) : Bundle.list t signers = .error fault →
      Obstructed p t signers authorities f (.directory fault)
  | authorities (paths fault) : Lists t signers paths →
      Bundle.roots p t authorities = .error fault →
      Obstructed p t signers authorities f (.directory fault)
  | anchor (paths roots before der after reason) : Lists t signers paths →
      Holds p t authorities roots → roots = before ++ der :: after →
      (∀ b ∈ before, ∃ anchor, p.anchor b = .ok anchor) →
      p.anchor der = .error reason → Obstructed p t signers authorities f (.anchor reason)
  | signature (paths roots anchors fault) : Lists t signers paths → Holds p t authorities roots →
      List.Forall₂ (fun der anchor => p.anchor der = .ok anchor) roots anchors →
      Base64.decode (Text.trim f.signature) = .error fault →
      Obstructed p t signers authorities f (.signature fault)

/-- A leaf that may sign flavors: an authority that certified itself or climbs to a root, or any other
certificate with a path to an anchor. -/
inductive Trusted (p : Pki) (now : Instant) (trusted : Authorities p) (leaf : Octets)
    (c : p.Certificate) (intermediates : List Octets) : Prop where
  | selfCertified : p.isAuthority c = true → p.isSelfCertified c = true →
      Trusted p now trusted leaf c intermediates
  | ascended : p.isAuthority c = true → ascend p now c intermediates trusted.roots = .ok () →
      Trusted p now trusted leaf c intermediates
  | chained (l) : p.isAuthority c = false → p.leaf leaf = .ok l →
      p.validate trusted.anchors intermediates now l = .ok () →
      Trusted p now trusted leaf c intermediates

/-- A bundle signed: its leaf is trusted and the leaf's key verifies the signature of the digest. -/
def Signed (p : Pki) (t : FileTree) (now : Instant) (q : Preparation p) (path : String) : Prop :=
  ∃ leaf intermediates c k, Bundle.read p t path = .ok (leaf :: intermediates)
    ∧ p.certificate? leaf = some c ∧ Trusted p now q.trusted leaf c intermediates
    ∧ p.rsaKey? c = some k ∧ p.verifies k .sha384 q.digest q.signature = true

section Preparing

variable {p : Pki} {t : FileTree} {directory signers authorities : String} {f : SignedFlavor}

theorem list_ok_iff {paths : List String} :
    Bundle.list t directory = .ok paths ↔ Lists t directory paths := by
  unfold Bundle.list Lists
  cases t.list directory with
  | error cause => simp
  | ok entries =>
    obtain ⟨hperm, hsorted⟩ := Bundle.candidates_ascending entries
    constructor
    · intro h
      cases h
      exact ⟨entries, _, rfl, hperm, hsorted, rfl⟩
    · rintro ⟨found, names, h, hnames, hascending, rfl⟩
      cases h
      -- a set of names has only one ascending order
      rw [(hnames.trans hperm.symm).eq_of_pairwise' hascending hsorted]

theorem roots_ok_iff {certificates : List Octets} :
    Bundle.roots p t directory = .ok certificates ↔ Holds p t directory certificates := by
  unfold Bundle.roots Holds
  simp only [bind_ok_iff, list_ok_iff, mapM_ok_iff]
  constructor
  · rintro ⟨paths, hp, bundles, hb, h⟩
    cases h
    exact ⟨paths, bundles, hp, hb, rfl⟩
  · rintro ⟨paths, bundles, hp, hb, rfl⟩
    exact ⟨paths, hp, bundles, hb, rfl⟩

theorem prepare_ok_iff {q : Preparation p} :
    prepare p t signers authorities f = .ok q ↔ Prepared p t signers authorities f q := by
  unfold prepare
  simp only [bind_ok_iff, mapError_ok_iff, list_ok_iff, roots_ok_iff, mapM_ok_iff]
  constructor
  · rintro ⟨candidates, hc, roots, hr, anchors, ha, signature, hs, h⟩
    cases h
    exact ⟨hc, hr, ha, hs, rfl⟩
  · intro h
    obtain ⟨candidates, ⟨roots, anchors⟩, digest, signature⟩ := q
    have hd : digest = _ := h.digested
    subst hd
    exact ⟨candidates, h.listed, roots, h.loaded, anchors, h.anchored, signature, h.decoded, rfl⟩

theorem prepare_error {o : Obstacle} (h : prepare p t signers authorities f = .error o) :
    Obstructed p t signers authorities f o := by
  unfold prepare at h
  rcases (bind_error_iff _ _ _).1 h with h | ⟨candidates, hc, h⟩
  · obtain ⟨fault, hf, rfl⟩ := (mapError_error_iff _ _ _).1 h
    exact .signers fault hf
  rw [mapError_ok_iff, list_ok_iff] at hc
  rcases (bind_error_iff _ _ _).1 h with h | ⟨roots, hr, h⟩
  · obtain ⟨fault, hf, rfl⟩ := (mapError_error_iff _ _ _).1 h
    exact .authorities candidates fault hc hf
  rw [mapError_ok_iff, roots_ok_iff] at hr
  rcases (bind_error_iff _ _ _).1 h with h | ⟨anchors, ha, h⟩
  · obtain ⟨reason, hf, rfl⟩ := (mapError_error_iff _ _ _).1 h
    obtain ⟨before, der, after, hsplit, hbefore, hder⟩ := mapM_error_iff.1 hf
    exact .anchor candidates roots before der after reason hc hr hsplit hbefore hder
  rw [mapError_ok_iff, mapM_ok_iff] at ha
  rcases (bind_error_iff _ _ _).1 h with h | ⟨signature, -, h⟩
  · obtain ⟨fault, hf, rfl⟩ := (mapError_error_iff _ _ _).1 h
    exact .signature candidates roots anchors fault hc hr ha hf
  · cases h

end Preparing

section Checking

variable {p : Pki} {t : FileTree} {now : Instant} {trusted : Authorities p} {leaf : Octets}
  {c : p.Certificate} {intermediates : List Octets} {digest signature : Octets}

theorem checkLeaf_ok_iff : checkLeaf p now trusted leaf c intermediates = .ok ()
    ↔ Trusted p now trusted leaf c intermediates := by
  unfold checkLeaf
  constructor
  · intro h
    split_ifs at h with ha hs
    · exact .selfCertified ha hs
    · exact .ascended ha ((mapError_ok_iff _ _ _).1 h)
    · rw [Bool.not_eq_true] at ha
      split at h
      · cases h
      · rename_i l hl
        exact .chained l ha hl ((mapError_ok_iff _ _ _).1 h)
  · intro h
    cases h with
    | selfCertified ha hs => rw [if_pos ha, if_pos hs]
    | ascended ha hc =>
      rw [if_pos ha]
      split_ifs
      · rfl
      · exact (mapError_ok_iff _ _ _).2 hc
    | chained l ha hl hv =>
      rw [if_neg (by rw [ha]; decide), hl]
      exact (mapError_ok_iff _ _ _).2 hv

theorem checkBundle_ok_iff {bundle : List Octets} :
    checkBundle p now trusted digest signature bundle = .ok ()
      ↔ ∃ leaf intermediates c k, bundle = leaf :: intermediates
        ∧ p.certificate? leaf = some c ∧ Trusted p now trusted leaf c intermediates
        ∧ p.rsaKey? c = some k ∧ p.verifies k .sha384 digest signature = true := by
  cases bundle with
  | nil => simp [checkBundle]
  | cons leaf intermediates =>
    simp only [checkBundle]
    cases hc : p.certificate? leaf with
    | none =>
      refine iff_of_false (fun h => by cases h) ?_
      rintro ⟨_, _, _, _, hb, hcert, -⟩
      cases hb
      cases hc.symm.trans hcert
    | some c =>
      dsimp only
      rw [bind_ok_iff]
      constructor
      · rintro ⟨⟨⟩, hl, h⟩
        cases hk : p.rsaKey? c with
        | none =>
          rw [hk] at h
          cases h
        | some k =>
          rw [hk] at h
          dsimp only at h
          split_ifs at h with hv
          exact ⟨leaf, intermediates, c, k, rfl, hc, checkLeaf_ok_iff.1 hl, hk, hv⟩
      · rintro ⟨_, _, c', k, hb, hcert, htrusted, hk, hv⟩
        cases hb
        cases hc.symm.trans hcert
        refine ⟨(), checkLeaf_ok_iff.2 htrusted, ?_⟩
        rw [hk]
        dsimp only
        rw [if_pos hv]
        rfl

/-- A candidate passes exactly when it signed. -/
theorem checkCandidate_ok_iff {q : Preparation p} {path : String} :
    checkCandidate p now q.trusted t q.digest q.signature path = .ok () ↔ Signed p t now q path := by
  unfold checkCandidate Signed
  simp only [bind_ok_iff, mapError_ok_iff, checkBundle_ok_iff]
  constructor
  · rintro ⟨bundle, hb, leaf, intermediates, c, k, rfl, h⟩
    exact ⟨leaf, intermediates, c, k, hb, h⟩
  · rintro ⟨leaf, intermediates, c, k, hb, h⟩
    exact ⟨_, hb, leaf, intermediates, c, k, rfl, h⟩

end Checking

section Trying

variable {flavorId : String} {total : Nat} {check : String → Except CandidateFault Unit}

/-- The events of candidates that failed, one for each in their order, each with its own reason. -/
def Rejections (flavorId : String) (check : String → Except CandidateFault Unit)
    (paths : List String) (events : List AuditEvent) : Prop :=
  List.Forall₂ (fun path e => ∃ fault, check path = .error fault
    ∧ e = .flavor flavorId .candidateRejected (some path) (some fault.message)) paths events

theorem Rejections.not_ok {paths : List String} {events : List AuditEvent}
    (h : Rejections flavorId check paths events) : ∀ path ∈ paths, check path ≠ .ok () := by
  induction h with
  | nil => exact nofun
  | cons hpath _ ih =>
    obtain ⟨fault, hfault, -⟩ := hpath
    refine List.forall_mem_cons.2 ⟨?_, ih⟩
    rw [hfault]
    exact nofun

/-- Candidates are tried up to the first that passes; what is left on record tells all of them. -/
theorem tryAll_cases (candidates : List String) :
    (∃ before path after events, candidates = before ++ path :: after
      ∧ Rejections flavorId check before events ∧ check path = .ok ()
      ∧ tryAll flavorId total check candidates
        = (true, events ++ [.flavor flavorId .verified (some path) none]))
    ∨ ∃ events, Rejections flavorId check candidates events
      ∧ tryAll flavorId total check candidates = (false, events ++ [.flavor flavorId .untrusted none
        (some s!"{total} signing certificate(s) tried")]) := by
  induction candidates with
  | nil => exact .inr ⟨[], .nil, rfl⟩
  | cons path rest ih =>
    cases hc : check path with
    | ok u => exact .inl ⟨[], path, rest, [], rfl, .nil, hc, by simp [tryAll, hc]⟩
    | error fault =>
      have hstep : ∀ verdict events, tryAll flavorId total check rest = (verdict, events) →
          tryAll flavorId total check (path :: rest) = (verdict,
            .flavor flavorId .candidateRejected (some path) (some fault.message) :: events) := by
        intro verdict events h
        simp [tryAll, hc, h]
      rcases ih with ⟨before, found, after, events, rfl, hr, hf, h⟩ | ⟨events, hr, h⟩
      · refine .inl ⟨path :: before, found, after, _, rfl, .cons ⟨fault, hc, rfl⟩ hr, hf, ?_⟩
        rw [hstep _ _ h]
        rfl
      · refine .inr ⟨_, .cons ⟨fault, hc, rfl⟩ hr, ?_⟩
        rw [hstep _ _ h]
        rfl

end Trying

/-- What is on record after candidates were tried. Either the first that signed is named, behind the
rejection of every candidate before it, or every candidate is rejected and they are counted. -/
inductive Tried (p : Pki) (t : FileTree) (now : Instant) (flavorId : String) (q : Preparation p) :
    List AuditEvent → Prop where
  | accepted (before path after events) : q.candidates = before ++ path :: after →
      (∀ b ∈ before, ¬ Signed p t now q b) → Signed p t now q path →
      Rejections flavorId (checkCandidate p now q.trusted t q.digest q.signature) before events →
      Tried p t now flavorId q (events ++ [.flavor flavorId .verified (some path) none])
  | exhausted (events) : (∀ b ∈ q.candidates, ¬ Signed p t now q b) →
      Rejections flavorId (checkCandidate p now q.trusted t q.digest q.signature) q.candidates
        events →
      Tried p t now flavorId q (events ++ [.flavor flavorId .untrusted none
        (some s!"{q.candidates.length} signing certificate(s) tried")])

/-- The verdict is that somebody trusted signed, and the record is complete: one event for what stood
in the way, or the trail of the candidates. -/
theorem verdict_and_record (p : Pki) (t : FileTree) (now : Instant) (signers authorities : String)
    (f : SignedFlavor) :
    ((verify p t now signers authorities f).1 = true ↔ ∃ q, Prepared p t signers authorities f q
      ∧ ∃ path ∈ q.candidates, Signed p t now q path)
    ∧ ((∃ o, Obstructed p t signers authorities f o ∧ (verify p t now signers authorities f).2
          = [.flavor f.flavor.identity.id o.outcome none (some o.message)])
      ∨ ∃ q, Prepared p t signers authorities f q
        ∧ Tried p t now f.flavor.identity.id q (verify p t now signers authorities f).2) := by
  unfold verify
  cases hq : prepare p t signers authorities f with
  | error o =>
    refine ⟨iff_of_false nofun ?_, .inl ⟨o, prepare_error hq, rfl⟩⟩
    rintro ⟨q, hprepared, -⟩
    cases hq.symm.trans (prepare_ok_iff.2 hprepared)
  | ok q =>
    have hprepared := prepare_ok_iff.1 hq
    have hunique : ∀ q', Prepared p t signers authorities f q' → q' = q := by
      intro q' hq'
      exact Except.ok.inj ((prepare_ok_iff.2 hq').symm.trans hq)
    dsimp only
    rcases tryAll_cases q.candidates with
      ⟨before, path, after, events, hsplit, hr, hok, h⟩ | ⟨events, hr, h⟩
    · rw [h]
      have hsigned := checkCandidate_ok_iff.1 hok
      refine ⟨iff_of_true rfl ⟨q, hprepared, path, by simp [hsplit], hsigned⟩, .inr ⟨q, hprepared, ?_⟩⟩
      refine .accepted before path after events hsplit (fun b hb hs => ?_) hsigned hr
      exact hr.not_ok b hb (checkCandidate_ok_iff.2 hs)
    · rw [h]
      have hnone : ∀ b ∈ q.candidates, ¬ Signed p t now q b := by
        intro b hb hs
        exact hr.not_ok b hb (checkCandidate_ok_iff.2 hs)
      refine ⟨iff_of_false nofun ?_, .inr ⟨q, hprepared, .exhausted events hnone hr⟩⟩
      rintro ⟨q', hq', path, hpath, hs⟩
      rw [hunique q' hq'] at hpath hs
      exact hnone path hpath hs

end ImageTrust.FlavorSigner
