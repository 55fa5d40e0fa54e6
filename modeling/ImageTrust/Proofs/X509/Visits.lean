import ImageTrust.Proofs.X509.Ascent

/-!
What a climb to a root visits. Each certificate after the first is the issuer that was taken of the one
before, and the climb ends at the first that is out of its time, was issued by a root, or has no issuer.
Issuers that go round in a circle have no such end, and the limit ends the climb there. An authority that
is accepted stands at the foot of a chain of at most eight certificates up to a root.
-/

namespace ImageTrust.X509

namespace Issuance

section

variable {κ : Type} (s : Issuance κ) (order roots : List κ)

/-- The certificates that a climb without a limit visits, and what it ends with. -/
inductive Visits : κ → List κ → Except AscentFault Unit → Prop where
  | expired {c : κ} : s.isValid c = false → Visits c [c] (.error .outsideValidity)
  | rooted {c : κ} : s.isValid c = true → s.Rooted roots c → Visits c [c] (.ok ())
  | stranded {c : κ} : s.isValid c = true → ¬ s.Rooted roots c → s.first? order c = none →
      Visits c [c] (.error .noIssuer)
  | issued {c i : κ} {visited : List κ} {result : Except AscentFault Unit} :
      s.isValid c = true → ¬ s.Rooted roots c → s.first? order c = some i →
      Visits i visited result → Visits c (c :: visited) result

/-- A climb from `c` with a limit comes to its end, or else that end lies beyond the limit. -/
def EndsWithin (limit : Nat) (c : κ) (result : Except AscentFault Unit) : Prop :=
  (∃ visited, visited.length ≤ limit ∧ s.Visits order roots c visited result)
    ∨ result = .error .tooLong
      ∧ ∀ visited fate, s.Visits order roots c visited fate → limit < visited.length

end

variable {κ : Type} {s : Issuance κ} {order roots : List κ} {left : Nat} {c i : κ}
  {visited : List κ} {result : Except AscentFault Unit}

theorem Visits.nonempty (h : s.Visits order roots c visited result) : 0 < visited.length := by
  cases h <;> exact Nat.succ_pos _

/-- Behind a certificate that does not end a climb comes the issuer that is taken. -/
theorem Visits.next (hv : s.isValid c = true) (hr : ¬ s.Rooted roots c)
    (hf : s.first? order c = some i) (h : s.Visits order roots c visited result) :
    ∃ rest, visited = c :: rest ∧ s.Visits order roots i rest result := by
  cases h with
  | expired hv' => cases hv.symm.trans hv'
  | rooted _ hr' => exact absurd hr' hr
  | stranded _ _ hf' => cases hf.symm.trans hf'
  | issued _ _ hf' h =>
    obtain rfl := Option.some.inj (hf'.symm.trans hf)
    exact ⟨_, rfl, h⟩

theorem climb_ends (left : Nat) (c : κ) :
    s.EndsWithin order roots left c (s.climb order roots left c) := by
  induction left generalizing c with
  | zero => exact .inr ⟨rfl, fun visited fate h => h.nonempty⟩
  | succ left ih =>
    rcases climb_succ_cases order roots left c with
      ⟨hv, h⟩ | ⟨hv, hr, h⟩ | ⟨hv, hr, hf, h⟩ | ⟨i, hv, hr, hf, h⟩
    · rw [h]
      exact .inl ⟨[c], Nat.le_add_left 1 left, .expired hv⟩
    · rw [h]
      exact .inl ⟨[c], Nat.le_add_left 1 left, .rooted hv hr⟩
    · rw [h]
      exact .inl ⟨[c], Nat.le_add_left 1 left, .stranded hv hr hf⟩
    · rw [h]
      rcases ih i with ⟨visited, hlen, hi⟩ | ⟨hlong, hbeyond⟩
      · exact .inl ⟨c :: visited, Nat.succ_le_succ hlen, .issued hv hr hf hi⟩
      · refine .inr ⟨hlong, fun visited fate hc => ?_⟩
        obtain ⟨rest, rfl, hi⟩ := hc.next hv hr hf
        exact Nat.succ_lt_succ (hbeyond rest fate hi)

/-- What is visited on the way to a root is a way up. -/
theorem Visits.wayUp (h : s.Visits order roots c visited (.ok ())) :
    ∃ cs, visited = c :: cs ∧ s.WayUp order roots c cs := by
  generalize hresult : (.ok () : Except AscentFault Unit) = result at h
  induction h with
  | expired => cases hresult
  | rooted hv hr => exact ⟨[], rfl, .nil hv hr⟩
  | stranded => cases hresult
  | issued hv _ hf _ ih =>
    obtain ⟨cs, rfl, hway⟩ := ih hresult
    exact ⟨_, rfl, wayUp_cons_iff.2 ⟨hv, issues_of_first hf, hway⟩⟩

theorem wayUp_of_climb (h : s.climb order roots left c = .ok ()) :
    ∃ cs, cs.length < left ∧ s.WayUp order roots c cs := by
  have hends : s.EndsWithin order roots left c (s.climb order roots left c) := climb_ends left c
  rw [h] at hends
  rcases hends with ⟨visited, hlen, hvisits⟩ | ⟨hlong, -⟩
  · obtain ⟨cs, rfl, hway⟩ := hvisits.wayUp
    exact ⟨cs, hlen, hway⟩
  · cases hlong

end Issuance

/-- A certificate was issued by the subject of another: it names that subject as its issuer, and its
signature holds under that subject's key. -/
structure IssuedBy (p : Pki) (c i : p.Certificate) : Prop where
  named : p.issuer c = p.subject i
  signed : p.isSignedBy c i = true

variable {p : Pki}

theorem isIssuedBy_iff {c i : p.Certificate} : p.isIssuedBy c i = true ↔ IssuedBy p c i := by
  unfold Pki.isIssuedBy
  rw [Bool.and_eq_true, decide_eq_true_iff]
  exact ⟨fun ⟨hn, hs⟩ => ⟨hn, hs⟩, fun ⟨hn, hs⟩ => ⟨hn, hs⟩⟩

/-- Certificates that lead from an authority up to a root: bundled authorities within their time, each
the issuer of the one before, the last issued by a root. -/
structure ChainUp (p : Pki) (now : Instant) (intermediates anchors : List p.Certificate)
    (leaf : p.Certificate) (cs : List p.Certificate) : Prop where
  bundled : ∀ c ∈ cs, c ∈ intermediates
  authorities : ∀ c ∈ cs, p.isAuthority c = true
  valid : ∀ c ∈ leaf :: cs, p.isValidAt c now = true
  issued : (leaf :: cs).IsChain (IssuedBy p)
  rooted : ∃ r ∈ anchors, IssuedBy p ((leaf :: cs).getLast (List.cons_ne_nil leaf cs)) r

section

variable {now : Instant} {leaf : p.Certificate} {intermediates anchors cs : List p.Certificate}

theorem chainUp_of_wayUp (h : (issuanceAt p now).WayUp intermediates anchors leaf cs) :
    ChainUp p now intermediates anchors leaf cs := by
  refine ⟨fun c hc => (h.bundled c hc).1, fun c hc => (h.bundled c hc).2, h.valid, ?_, ?_⟩
  · exact h.issued.imp fun c i hci => isIssuedBy_iff.1 hci
  · obtain ⟨r, hr, hissued⟩ := h.rooted
    exact ⟨r, hr, isIssuedBy_iff.1 hissued⟩

end

/-- Tracing an authority to a root through certificates that can be read ends after at most eight of
them. When it accepts, there is a chain of the authority and at most seven others up to a root. -/
theorem accepted_at_foot_of_chain (p : Pki) (now : Instant) (leaf : p.Certificate)
    (bundle roots : List Octets) :
    ((roots.mapM p.certificate? = none ∨ bundle.mapM p.certificate? = none)
        ∧ ascend p now leaf bundle roots = .error .unreadable
      ∨ ∃ intermediates anchors, bundle.mapM p.certificate? = some intermediates
        ∧ roots.mapM p.certificate? = some anchors
        ∧ (issuanceAt p now).EndsWithin intermediates anchors 8 leaf (ascend p now leaf bundle roots))
    ∧ (ascend p now leaf bundle roots = .ok () → ∃ intermediates anchors cs,
      bundle.mapM p.certificate? = some intermediates
        ∧ roots.mapM p.certificate? = some anchors
        ∧ cs.length ≤ 7 ∧ ChainUp p now intermediates anchors leaf cs) := by
  cases hr : roots.mapM p.certificate? with
  | none =>
    have h : ascend p now leaf bundle roots = .error .unreadable := by rw [ascend, hr]
    exact ⟨.inl ⟨.inl rfl, h⟩, fun hok => absurd h (not_ok_and_error hok)⟩
  | some anchors =>
    cases hi : bundle.mapM p.certificate? with
    | none =>
      have h : ascend p now leaf bundle roots = .error .unreadable := by rw [ascend, hr, hi]
      exact ⟨.inl ⟨.inr rfl, h⟩, fun hok => absurd h (not_ok_and_error hok)⟩
    | some intermediates =>
      rw [ascend_eq_climb hi hr]
      refine ⟨.inr ⟨intermediates, anchors, rfl, rfl, Issuance.climb_ends ascentLimit leaf⟩, ?_⟩
      intro hok
      obtain ⟨cs, hlen, hway⟩ := Issuance.wayUp_of_climb hok
      exact ⟨intermediates, anchors, cs, rfl, rfl, Nat.le_of_lt_succ hlen, chainUp_of_wayUp hway⟩

/-- The leaf whose issuer was renewed stands at the foot of a chain. -/
theorem renewed_leaf_at_foot_of_chain : ∃ leaf intermediates anchors cs,
    Pki.standard.certificate? leafDer = some leaf
      ∧ ascend .standard afterRenewal leaf [rootDer, renewedDer] [rootDer] = .ok ()
      ∧ cs.length ≤ 7 ∧ ChainUp .standard afterRenewal intermediates anchors leaf cs := by
  obtain ⟨leaf, expired, renewed, root, hl, -, hn, hr, h⟩ := renewed_certificates
  have hbundle : [rootDer, renewedDer].mapM Pki.standard.certificate? = some [root, renewed] :=
    mapM_some_iff.2 (.cons hr (.cons hn .nil))
  have hroots : [rootDer].mapM Pki.standard.certificate? = some [root] :=
    mapM_some_iff.2 (.cons hr .nil)
  have hway := wayUp_of_renewed h (show renewed ∈ [root, renewed] by simp)
  have hok : ascend .standard afterRenewal leaf [rootDer, renewedDer] [rootDer] = .ok () := by
    rw [ascend_eq_climb hbundle hroots]
    exact Issuance.climb_of_unfailing (List.Subset.refl _) (List.Subset.refl _)
      (Issuance.unfailing_of_wayUp (soleIssuer_of_renewed h) (Nat.lt_of_sub_eq_succ rfl) hway)
  obtain ⟨intermediates, anchors, cs, -, -, hlen, hchain⟩ :=
    (accepted_at_foot_of_chain .standard afterRenewal leaf [rootDer, renewedDer] [rootDer]).2 hok
  exact ⟨leaf, intermediates, anchors, cs, hl, hok, hlen, hchain⟩

end ImageTrust.X509
