import ImageTrust.Proofs.Fallible
import ImageTrust.X509.Ascent
import ImageTrust.X509.Standard
import Mathlib.Data.List.Perm.Basic

/-!
Which authorities are traced to a root. A climb takes the first issuer of the bundle and never comes
back for another, so a bundle may lead to a root in one order and to a dead end in the next. A leaf is
accepted in every order exactly when no choice of issuers ends before a root. Where each certificate
has one issuer at most, that is as much as to say that there is a way up.
-/

namespace ImageTrust.X509

namespace Issuance

section Ways

variable {κ : Type} (s : Issuance κ) (intermediates roots : List κ)

/-- A bundled authority that issued a certificate. -/
def Issues (i c : κ) : Prop :=
  i ∈ intermediates ∧ s.isAuthority i = true ∧ s.issued c i = true

def Rooted (c : κ) : Prop :=
  ∃ r ∈ roots, s.issued c r = true

/-- Certificates that lead from `c` up to a root: bundled authorities, each the issuer of the one
before it. -/
structure WayUp (c : κ) (cs : List κ) : Prop where
  bundled : ∀ i ∈ cs, i ∈ intermediates ∧ s.isAuthority i = true
  valid : ∀ i ∈ c :: cs, s.isValid i = true
  issued : (c :: cs).IsChain fun c i => s.issued c i = true
  rooted : s.Rooted roots ((c :: cs).getLast (List.cons_ne_nil c cs))

/-- Whichever issuers are taken, a root is reached among the next `left` certificates. -/
inductive Unfailing : (left : Nat) → κ → Prop where
  | rooted {left : Nat} {c : κ} : s.isValid c = true → s.Rooted roots c → Unfailing (left + 1) c
  | issued {left : Nat} {c i : κ} : s.isValid c = true → s.Issues intermediates i c →
      (∀ j, s.Issues intermediates j c → Unfailing left j) → Unfailing (left + 1) c

/-- No two bundled authorities issued a certificate. -/
def SoleIssuer (c : κ) : Prop :=
  ∀ i j, s.Issues intermediates i c → s.Issues intermediates j c → i = j

end Ways

section Climbing

variable {κ : Type} {s : Issuance κ} {intermediates order roots : List κ} {left : Nat} {c i : κ}

/-- The issuer that a climb takes: the first in the order of the bundle. -/
def first? (s : Issuance κ) (order : List κ) (c : κ) : Option κ :=
  order.find? fun i => s.isAuthority i && s.issued c i

theorem issues_of_first (h : s.first? order c = some i) : s.Issues order i c := by
  have hp := List.find?_some (p := fun i => s.isAuthority i && s.issued c i) h
  obtain ⟨ha, hi⟩ := Bool.and_eq_true_iff.1 hp
  exact ⟨List.mem_of_find?_eq_some h, ha, hi⟩

theorem first_of_issues (h : s.Issues order i c) : ∃ j, s.first? order c = some j := by
  obtain ⟨hmem, ha, hi⟩ := h
  rw [← Option.isSome_iff_exists, first?, List.find?_isSome]
  exact ⟨i, hmem, by rw [ha, hi]; rfl⟩

/-- What a climb with certificates left to visit does. -/
theorem climb_succ_cases (order roots : List κ) (left : Nat) (c : κ) :
    s.isValid c = false ∧ s.climb order roots (left + 1) c = .error .outsideValidity
    ∨ s.isValid c = true ∧ s.Rooted roots c ∧ s.climb order roots (left + 1) c = .ok ()
    ∨ s.isValid c = true ∧ ¬ s.Rooted roots c ∧ s.first? order c = none
      ∧ s.climb order roots (left + 1) c = .error .noIssuer
    ∨ ∃ i, s.isValid c = true ∧ ¬ s.Rooted roots c ∧ s.first? order c = some i
      ∧ s.climb order roots (left + 1) c = s.climb order roots left i := by
  have hany : roots.any (s.issued c) = true ↔ s.Rooted roots c := List.any_eq_true
  rw [climb]
  cases hv : s.isValid c with
  | false => exact .inl ⟨rfl, rfl⟩
  | true =>
    refine .inr ?_
    rw [if_neg (by decide)]
    by_cases hr : s.Rooted roots c
    · exact .inl ⟨rfl, hr, if_pos (hany.2 hr)⟩
    · refine .inr ?_
      rw [if_neg fun h => hr (hany.1 h)]
      unfold first?
      cases order.find? fun i => s.isAuthority i && s.issued c i with
      | none => exact .inl ⟨rfl, hr, rfl, rfl⟩
      | some i => exact .inr ⟨i, rfl, hr, rfl, rfl⟩

theorem climb_succ_ok_iff : s.climb order roots (left + 1) c = .ok () ↔ s.isValid c = true
    ∧ (s.Rooted roots c ∨ ∃ i, s.first? order c = some i ∧ s.climb order roots left i = .ok ()) := by
  rcases climb_succ_cases order roots left c with
    ⟨hv, h⟩ | ⟨hv, hr, h⟩ | ⟨hv, hr, hf, h⟩ | ⟨i, hv, hr, hf, h⟩
  · rw [h, hv]
    exact iff_of_false nofun nofun
  · rw [h]
    exact iff_of_true rfl ⟨hv, .inl hr⟩
  · rw [h, hf]
    exact iff_of_false nofun fun ⟨_, hok⟩ => hok.elim hr nofun
  · simp [h, hv, hr, hf]

theorem climb_zero : s.climb order roots 0 c ≠ .ok () :=
  nofun

theorem climb_mono {more : Nat} (hle : left ≤ more) (h : s.climb order roots left c = .ok ()) :
    s.climb order roots more c = .ok () := by
  induction left generalizing c more with
  | zero => exact absurd h climb_zero
  | succ left ih =>
    obtain ⟨more, rfl⟩ : ∃ m, more = m + 1 := ⟨more - 1, by omega⟩
    obtain ⟨hv, hr | ⟨i, hi, hclimb⟩⟩ := climb_succ_ok_iff.1 h
    · exact climb_succ_ok_iff.2 ⟨hv, .inl hr⟩
    · exact climb_succ_ok_iff.2 ⟨hv, .inr ⟨i, hi, ih (by omega) hclimb⟩⟩

theorem climb_of_unfailing (horder : order ⊆ intermediates) (hall : intermediates ⊆ order)
    (h : s.Unfailing intermediates roots left c) : s.climb order roots left c = .ok () := by
  induction h with
  | rooted hv hr => exact climb_succ_ok_iff.2 ⟨hv, .inl hr⟩
  | issued hv hi _ ih =>
    obtain ⟨hmem, hissues⟩ := hi
    obtain ⟨j, hj⟩ := first_of_issues ⟨hall hmem, hissues⟩
    obtain ⟨hmem', hissues'⟩ := issues_of_first hj
    exact climb_succ_ok_iff.2 ⟨hv, .inr ⟨j, hj, ih j ⟨horder hmem', hissues'⟩⟩⟩

section Forward

variable [DecidableEq κ]

theorem find?_erase_of_neg {p : κ → Bool} (hp : p i = false) :
    (order.erase i).find? p = order.find? p := by
  induction order with
  | nil => rfl
  | cons j order ih =>
    rw [List.erase_cons]
    split_ifs with hj
    · rw [beq_iff_eq.1 hj, List.find?_cons, hp]
    · rw [List.find?_cons, List.find?_cons, ih]

theorem first?_forward : s.first? (i :: order.erase i) c
    = if s.isAuthority i && s.issued c i then some i else s.first? order c := by
  unfold first?
  rw [List.find?_cons]
  cases h : s.isAuthority i && s.issued c i with
  | true => rfl
  | false => exact find?_erase_of_neg h

/-- Bringing forward an issuer from which a climb fails does not help any climb: either the climb
does not meet the issuer, or it fails from there. -/
theorem climb_forward (hi : s.climb order roots left i ≠ .ok ()) {m : Nat} (hm : m ≤ left)
    (h : s.climb order roots m c ≠ .ok ()) :
    s.climb (i :: order.erase i) roots m c ≠ .ok () := by
  induction m generalizing c with
  | zero => exact climb_zero
  | succ m ih =>
    intro hok
    obtain ⟨hv, hr | ⟨j, hj, hclimb⟩⟩ := climb_succ_ok_iff.1 hok
    · exact h (climb_succ_ok_iff.2 ⟨hv, .inl hr⟩)
    · rw [first?_forward] at hj
      split_ifs at hj with hissued
      · obtain rfl := Option.some.inj hj
        exact ih (by omega) (fun hclimb' => hi (climb_mono (by omega) hclimb')) hclimb
      · exact ih (by omega)
          (fun hclimb' => h (climb_succ_ok_iff.2 ⟨hv, .inr ⟨j, hj, hclimb'⟩⟩)) hclimb

/-- Where some choice of issuers fails, some order of the bundle makes the climb fail. -/
theorem failing_order (left : Nat) (c : κ) (h : ¬ s.Unfailing intermediates roots left c) :
    ∃ order, order.Perm intermediates ∧ s.climb order roots left c ≠ .ok () := by
  induction left generalizing c with
  | zero => exact ⟨intermediates, .refl _, climb_zero⟩
  | succ left ih =>
    by_cases hstuck : s.climb intermediates roots (left + 1) c = .ok ()
    · obtain ⟨hv, hr | ⟨k, hk, -⟩⟩ := climb_succ_ok_iff.1 hstuck
      · exact absurd (.rooted hv hr) h
      · -- some issuer leads on to a dead end, and an order that begins with it takes it
        obtain ⟨i, hi, hfails⟩ : ∃ i, s.Issues intermediates i c
            ∧ ¬ s.Unfailing intermediates roots left i := by
          by_contra hnone
          refine h (.issued hv (issues_of_first hk) fun j hj => ?_)
          by_contra hfails
          exact hnone ⟨j, hj, hfails⟩
        obtain ⟨order, hperm, hclimb⟩ := ih i hfails
        have hmem : i ∈ order := hperm.mem_iff.2 hi.1
        refine ⟨i :: order.erase i, (List.perm_cons_erase hmem).symm.trans hperm, fun hok => ?_⟩
        obtain ⟨-, hr | ⟨j, hj, hclimb'⟩⟩ := climb_succ_ok_iff.1 hok
        · exact h (.rooted hv hr)
        · rw [first?_forward, hi.2.1, hi.2.2, Bool.and_self, if_pos rfl] at hj
          obtain rfl := Option.some.inj hj
          exact climb_forward hclimb (Nat.le_refl left) hclimb hclimb'
    · exact ⟨intermediates, .refl _, hstuck⟩

/-- A climb reaches a root in every order of the bundle exactly when no choice of issuers fails. -/
theorem climb_in_every_order_iff : (∀ order, order.Perm intermediates →
    s.climb order roots left c = .ok ()) ↔ s.Unfailing intermediates roots left c := by
  constructor
  · intro h
    by_contra hfails
    obtain ⟨order, hperm, hclimb⟩ := failing_order left c hfails
    exact hclimb (h order hperm)
  · intro h order hperm
    exact climb_of_unfailing hperm.subset hperm.symm.subset h

end Forward

end Climbing

section WaysUp

variable {κ : Type} {s : Issuance κ} {intermediates roots : List κ} {left : Nat} {c i : κ}
  {cs : List κ}

theorem WayUp.nil (hv : s.isValid c = true) (hr : s.Rooted roots c) :
    s.WayUp intermediates roots c [] := by
  refine ⟨nofun, ?_, .singleton c, hr⟩
  intro i hi
  rwa [List.mem_singleton.1 hi]

theorem wayUp_cons_iff : s.WayUp intermediates roots c (i :: cs)
    ↔ s.isValid c = true ∧ s.Issues intermediates i c ∧ s.WayUp intermediates roots i cs := by
  constructor
  · intro h
    obtain ⟨hi, hcs⟩ := List.forall_mem_cons.1 h.bundled
    obtain ⟨hv, hvs⟩ := List.forall_mem_cons.1 h.valid
    obtain ⟨hissued, hchain⟩ := List.isChain_cons_cons.1 h.issued
    exact ⟨hv, ⟨hi.1, hi.2, hissued⟩, hcs, hvs, hchain, h.rooted⟩
  · rintro ⟨hv, ⟨hmem, ha, hissued⟩, h⟩
    exact ⟨List.forall_mem_cons.2 ⟨⟨hmem, ha⟩, h.bundled⟩, List.forall_mem_cons.2 ⟨hv, h.valid⟩,
      List.isChain_cons_cons.2 ⟨hissued, h.issued⟩, h.rooted⟩

theorem WayUp.mono {fewer : List κ} (hsub : fewer ⊆ intermediates)
    (h : s.WayUp fewer roots c cs) : s.WayUp intermediates roots c cs := by
  refine ⟨?_, h.valid, h.issued, h.rooted⟩
  intro i hi
  obtain ⟨hmem, ha⟩ := h.bundled i hi
  exact ⟨hsub hmem, ha⟩

theorem wayUp_of_unfailing (h : s.Unfailing intermediates roots left c) :
    ∃ cs, cs.length < left ∧ s.WayUp intermediates roots c cs := by
  induction h with
  | rooted hv hr => exact ⟨[], Nat.succ_pos _, .nil hv hr⟩
  | issued hv hi _ ih =>
    obtain ⟨cs, hlen, hway⟩ := ih _ hi
    exact ⟨_ :: cs, Nat.succ_lt_succ hlen, wayUp_cons_iff.2 ⟨hv, hi, hway⟩⟩

theorem soleIssuer_pair {j : κ} (h : s.issued c i = false ∨ s.issued c j = false) :
    s.SoleIssuer [i, j] c := by
  rintro a b ⟨ha, -, hac⟩ ⟨hb, -, hbc⟩
  rcases List.mem_pair.1 ha with rfl | rfl <;> rcases List.mem_pair.1 hb with rfl | rfl <;>
    simp_all

/-- Where there is nothing to choose, a way up is taken. -/
theorem unfailing_of_wayUp (hsole : ∀ d ∈ c :: intermediates, s.SoleIssuer intermediates d)
    (hlen : cs.length < left) (h : s.WayUp intermediates roots c cs) :
    s.Unfailing intermediates roots left c := by
  induction cs generalizing c left with
  | nil =>
    obtain ⟨left, rfl⟩ : ∃ n, left = n + 1 := ⟨left - 1, by simp at hlen; omega⟩
    exact .rooted (h.valid c List.mem_cons_self) h.rooted
  | cons i cs ih =>
    obtain ⟨left, rfl⟩ : ∃ n, left = n + 1 := ⟨left - 1, by simp at hlen; omega⟩
    obtain ⟨hv, hi, hway⟩ := wayUp_cons_iff.1 h
    obtain ⟨hc, hothers⟩ := List.forall_mem_cons.1 hsole
    have hon : s.Unfailing intermediates roots left i :=
      ih (List.forall_mem_cons.2 ⟨hothers i hi.1, hothers⟩) (Nat.lt_of_succ_lt_succ hlen) hway
    refine .issued hv hi fun j hj => ?_
    rw [hc j i hj hi]
    exact hon

end WaysUp

end Issuance

section Bundles

variable {p : Pki} {now : Instant} {leaf : p.Certificate} {bundle roots : List Octets}
  {intermediates anchors : List p.Certificate}

theorem ascend_eq_climb (hi : bundle.mapM p.certificate? = some intermediates)
    (hr : roots.mapM p.certificate? = some anchors) :
    ascend p now leaf bundle roots
      = (issuanceAt p now).climb intermediates anchors ascentLimit leaf := by
  rw [ascend, hi, hr]

/-- To put a bundle in another order is to put its certificates in another order. -/
theorem ascend_in_every_order_iff (hi : bundle.mapM p.certificate? = some intermediates)
    (hr : roots.mapM p.certificate? = some anchors) :
    (∀ order, order.Perm bundle → ascend p now leaf order roots = .ok ())
      ↔ ∀ order, order.Perm intermediates →
        (issuanceAt p now).climb order anchors ascentLimit leaf = .ok () := by
  have hread := mapM_some_iff.1 hi
  constructor
  · intro h order hperm
    obtain ⟨written, hwritten, hbundle⟩ := List.perm_comp_forall₂ hperm hread.flip
    rw [← ascend_eq_climb (mapM_some_iff.2 hwritten.flip) hr]
    exact h written hbundle
  · intro h order hperm
    obtain ⟨certificates, horder, hcertificates⟩ := List.perm_comp_forall₂ hperm hread
    rw [ascend_eq_climb (mapM_some_iff.2 horder) hr]
    exact h certificates hcertificates

/-- An authority is accepted in every order of its bundle exactly when no choice of issuers fails it.
With one issuer at most for each certificate it is so exactly when there is a way up, be it within a
part of the bundle. -/
theorem accepted_in_every_order_iff
    (hi : bundle.mapM p.certificate? = some intermediates)
    (hr : roots.mapM p.certificate? = some anchors) :
    ((∀ order, order.Perm bundle → ascend p now leaf order roots = .ok ())
      ↔ (issuanceAt p now).Unfailing intermediates anchors ascentLimit leaf)
    ∧ ((∀ c ∈ leaf :: intermediates, (issuanceAt p now).SoleIssuer intermediates c) →
      ((∀ order, order.Perm bundle → ascend p now leaf order roots = .ok ())
        ↔ ∃ fewer cs, fewer ⊆ intermediates ∧ cs.length < ascentLimit
          ∧ (issuanceAt p now).WayUp fewer anchors leaf cs)) := by
  have hevery : (∀ order, order.Perm bundle → ascend p now leaf order roots = .ok ())
      ↔ (issuanceAt p now).Unfailing intermediates anchors ascentLimit leaf := by
    classical
    rw [ascend_in_every_order_iff hi hr]
    exact Issuance.climb_in_every_order_iff
  refine ⟨hevery, fun hsole => ?_⟩
  rw [hevery]
  constructor
  · intro h
    obtain ⟨cs, hlen, hway⟩ := Issuance.wayUp_of_unfailing h
    exact ⟨intermediates, cs, List.Subset.refl _, hlen, hway⟩
  · rintro ⟨fewer, cs, hsub, hlen, hway⟩
    exact Issuance.unfailing_of_wayUp hsole hlen (hway.mono hsub)

end Bundles

section Renewal

/-- A value in distinguished encoding, with a content of fewer than 65536 octets. -/
def encoded (tag : UInt8) (parts : List Octets) : Octets :=
  let content := parts.flatten
  let n := content.length
  let more : Octets :=
    if n < 0x80 then [] else if n < 0x100 then [0x81] else [0x82, UInt8.ofNat (n / 0x100)]
  tag :: (more ++ UInt8.ofNat n :: content)

def octetsOfWords (words : List Nat) : Octets :=
  words.flatMap (Sha2.octets 8)

/-- A name that is one letter. -/
def named (letter : UInt8) : Octets :=
  encoded Der.sequenceTag [encoded Der.setTag [encoded Der.sequenceTag
    [[0x06, 0x03, 0x55, 0x04, 0x03], [0x0c, 0x01, letter]]]]

/-- The beginning of a year of two digits. -/
def newYear (a b : UInt8) : Octets :=
  encoded Der.utcTimeTag
    [[a, b, 0x30, 0x31, 0x30, 0x31, 0x30, 0x30, 0x30, 0x30, 0x30, 0x30, 0x5a]]

/-- The name of the signature algorithm of all certificates below. -/
def sha1WithRsa : Octets :=
  encoded Der.sequenceTag
    [[0x06, 0x09, 0x2a, 0x86, 0x48, 0x86, 0xf7, 0x0d, 0x01, 0x01, 0x05, 0x05, 0x00]]

def subjectKey (modulus : List Nat) : Octets :=
  let key := encoded Der.sequenceTag
    [encoded Der.integerTag [0 :: octetsOfWords modulus], [0x02, 0x01, 0x03]]
  encoded Der.sequenceTag
    [encoded Der.sequenceTag [encoded Der.identifierTag [rsaEncryption], [0x05, 0x00]],
      encoded Der.bitStringTag [0 :: key]]

def authorityExtension : Octets :=
  encoded 0xa3 [encoded Der.sequenceTag [encoded Der.sequenceTag
    [encoded Der.identifierTag [basicConstraints], [0x01, 0x01, 0xff],
      encoded Der.octetStringTag [encoded Der.sequenceTag [[0x01, 0x01, 0xff]]]]]]

/-- The certificate of an authority, valid from the year 2000 on. -/
def authority (serial issuer subject : UInt8) (notAfter : Octets) (modulus signature : List Nat) :
    Octets :=
  let signed := encoded Der.sequenceTag
    [[0xa0, 0x03, 0x02, 0x01, 0x02], [0x02, 0x01, serial], sha1WithRsa, named issuer,
      encoded Der.sequenceTag [newYear 0x30 0x30, notAfter], named subject, subjectKey modulus,
      authorityExtension]
  encoded Der.sequenceTag
    [signed, sha1WithRsa, encoded Der.bitStringTag [0 :: octetsOfWords signature]]

def rootModulus : List Nat := [
  0xa5871ce9c4899920, 0xa5f47c9bd0f57f61, 0x90ba157e00493d47, 0xda389769eb681c0b,
  0x418bcdcc037d6ac0, 0xa2bd66c85caf16cd, 0x01d6b3657e09995f, 0xc9f374c9d4a21757,
  0xe7aef7ffef8ea83d, 0x6a8b02a0931a59fc, 0x3f3c87f622ff8ae2, 0x8d6f2442b3891b7f,
  0x97fa22c2061f7180, 0xf4dcaad22f594579, 0x84a91de8a6d741a3, 0x7d3232b7decb1a85]

def lowerModulus : List Nat := [
  0xaa66744248dace41, 0xf853574bfda57be0, 0x8894e6b5705d6fe9, 0x327f0eb6123d81a5,
  0x0ad1d8cad23ae1df, 0x1137e253f62f03c0, 0x93c9c29acf293304, 0x5adb927727255eb0,
  0x34524aa90b06f785, 0xef0bf5f7a7ae66d6, 0xc6d0503d401ab601, 0x2b353c0bcdb37e15,
  0xcd63c80cc5687832, 0x6cd7459638630e04, 0x8fe285bede750fdd, 0x58595f9c98efa6ad]

/-- A root `R` that is valid up to the year 2049. -/
def rootDer : Octets := authority 1 0x52 0x52 (newYear 0x34 0x39) rootModulus [
  0x2caec8a8241a31f2, 0xb5fe2d7b46ded926, 0x86064ec5807b7f15, 0xe796d968aec0b6ff,
  0x40e68bcadf4a5437, 0x1217992c9464eeb6, 0xfc4cc309cd75029d, 0xe967bc77fba9de5a,
  0xed19da8bc11033df, 0x89ab2c20ed16b650, 0x80b8d3f3d8ee492f, 0xe6a55f073f6ac410,
  0x43a4c4073a99a3fb, 0x935b244b56652a31, 0xdb13a6b0c7964303, 0x2e3dd3b70cc680e5]

/-- An authority `I` that the root issued, valid for one year. -/
def expiredDer : Octets := authority 3 0x52 0x49 (newYear 0x30 0x31) lowerModulus [
  0x7af99073e8b5d34e, 0xf7138db67a7534bb, 0xce3c633838ec33d7, 0x0d1b41f2f64881b2,
  0x1b096e441909b2ab, 0xd99aa20311859d9a, 0xf3ee74fc956dd791, 0x3c5f54c17d5ed7a9,
  0x5d308de1a858a719, 0xa5842b629273ed59, 0x2821a93f4995b1db, 0x382e90ac631b6bde,
  0x76c818546523d458, 0x1df46cc386438ddf, 0x7192e774fc3f744d, 0x52017c9a26213ff7]

/-- The same authority with the same key, renewed. -/
def renewedDer : Octets := authority 2 0x52 0x49 (newYear 0x34 0x39) lowerModulus [
  0x8cba21d81b350613, 0x75317e4d25e325d0, 0xa5c3cd21a9815c78, 0x70acc2a928a22970,
  0x8ce1572d3d2acd22, 0xde3170bebe5a478f, 0x96c1ab374c2261fe, 0x36ed1120326d6200,
  0xbe8cfc89cc6aacba, 0x59e1589b1d1f4f74, 0xaf0381d6cab21bed, 0xdf55e3d158ab7263,
  0x9243f7bb54eec2d0, 0x4fb24dfee6d9063e, 0x306beb963006de7d, 0x57fb5766b0b3cfc6]

/-- An authority `L` that `I` issued. -/
def leafDer : Octets := authority 4 0x49 0x4c (newYear 0x34 0x39) lowerModulus [
  0x2a43dc6047ffb31e, 0x2bb9d05c4a321897, 0x2df608e9f272d1c6, 0x65f234944d3b7eab,
  0xbbccbe92de2a4753, 0x848d345dead86f16, 0x50220204771a4923, 0x4b83aef4f525e143,
  0x6acb77257ff5ab94, 0x0db65d56cc766ad7, 0x83f7283c9dee376f, 0x774d36479d4c6a0e,
  0xbbf8fc9da89d402c, 0x879bbe86d9e1f114, 0x9f612a254b5b45ab, 0x0002e690e3f671d9]

/-- A moment in the year 2023. -/
def afterRenewal : Instant := 1700000000 * Clock.nanosecondsPerSecond

/-- What the certificates say about each other. -/
def Renewed (p : Pki) (leaf renewed root : p.Certificate) : Prop :=
  (∀ c ∈ [leaf, renewed], p.isValidAt c afterRenewal = true ∧ p.isAuthority c = true)
    ∧ p.isAuthority root = true
    ∧ p.isIssuedBy leaf renewed = true ∧ p.isIssuedBy renewed root = true
    ∧ p.isIssuedBy leaf root = false ∧ p.isIssuedBy renewed renewed = false
    ∧ p.isIssuedBy root renewed = false
    ∧ ascend p afterRenewal leaf [expiredDer, renewedDer] [rootDer] = .error .outsideValidity

instance (p : Pki) (leaf renewed root : p.Certificate) : Decidable (Renewed p leaf renewed root) :=
  inferInstanceAs (Decidable (_ ∧ _))

theorem renewed_certificates : ∃ leaf expired renewed root,
    Pki.standard.certificate? leafDer = some leaf ∧ Pki.standard.certificate? expiredDer = some expired
      ∧ Pki.standard.certificate? renewedDer = some renewed ∧ Pki.standard.certificate? rootDer = some root
      ∧ Renewed .standard leaf renewed root := by
  have h : (Pki.standard.certificate? leafDer).any (fun leaf =>
      (Pki.standard.certificate? expiredDer).any fun expired =>
      (Pki.standard.certificate? renewedDer).any fun renewed =>
      (Pki.standard.certificate? rootDer).any fun root =>
        decide (Renewed .standard leaf renewed root)) = true := by
    decide +kernel
  simp only [Option.any_eq_true, decide_eq_true_eq] at h
  obtain ⟨leaf, hl, expired, he, renewed, hn, root, hr, h⟩ := h
  exact ⟨leaf, expired, renewed, root, hl, he, hn, hr, h⟩

section Ways

variable {p : Pki} {leaf renewed root : p.Certificate}

/-- From the leaf there is a way up by way of the renewed authority. -/
theorem wayUp_of_renewed {bundle : List p.Certificate} (h : Renewed p leaf renewed root)
    (hmem : renewed ∈ bundle) :
    (issuanceAt p afterRenewal).WayUp bundle [root] leaf [renewed] := by
  obtain ⟨hvalid, -, hleaf, hlower, -⟩ := h
  obtain ⟨hvl, -⟩ := hvalid leaf (by simp)
  obtain ⟨hvn, han⟩ := hvalid renewed (by simp)
  exact Issuance.wayUp_cons_iff.2
    ⟨hvl, ⟨hmem, han, hleaf⟩, .nil hvn ⟨root, List.mem_singleton_self root, hlower⟩⟩

theorem soleIssuer_of_renewed (h : Renewed p leaf renewed root) :
    ∀ c ∈ leaf :: [root, renewed], (issuanceAt p afterRenewal).SoleIssuer [root, renewed] c := by
  obtain ⟨-, -, -, -, hleaf, hself, hroot, -⟩ := h
  intro c hc
  rcases List.mem_cons.1 hc with rfl | hc
  · exact Issuance.soleIssuer_pair (.inl hleaf)
  · rcases List.mem_pair.1 hc with rfl | rfl
    · exact Issuance.soleIssuer_pair (.inr hroot)
    · exact Issuance.soleIssuer_pair (.inr hself)

end Ways

/-- With the root itself in the bundle the leaf is accepted in both orders. -/
theorem renewed_leaf_accepted : ∃ leaf, Pki.standard.certificate? leafDer = some leaf
    ∧ ∀ order, order.Perm [rootDer, renewedDer] →
      ascend .standard afterRenewal leaf order [rootDer] = .ok () := by
  obtain ⟨leaf, expired, renewed, root, hl, -, hn, hr, h⟩ := renewed_certificates
  have hbundle : [rootDer, renewedDer].mapM Pki.standard.certificate? = some [root, renewed] :=
    mapM_some_iff.2 (.cons hr (.cons hn .nil))
  have hroots : [rootDer].mapM Pki.standard.certificate? = some [root] :=
    mapM_some_iff.2 (.cons hr .nil)
  have hway := wayUp_of_renewed h (List.mem_singleton_self renewed)
  have hiff := (accepted_in_every_order_iff hbundle hroots).2 (soleIssuer_of_renewed h)
  exact ⟨leaf, hl, hiff.2 ⟨[renewed], [renewed], by simp, Nat.lt_of_sub_eq_succ rfl, hway⟩⟩

/-- A way up is not always found. The expired certificate of an authority hides the renewed one
behind it. -/
theorem way_up_missed : ¬ ∀ (now : Instant) (leaf : Pki.standard.Certificate)
    (bundle roots : List Octets)
    (intermediates anchors : List Pki.standard.Certificate), Pki.standard.isAuthority leaf = true →
    bundle.mapM Pki.standard.certificate? = some intermediates →
    roots.mapM Pki.standard.certificate? = some anchors →
    (∃ cs, cs.length < ascentLimit ∧ (issuanceAt .standard now).WayUp intermediates anchors leaf cs) →
    ascend .standard now leaf bundle roots = .ok () := by
  intro h
  obtain ⟨leaf, expired, renewed, root, -, he, hn, hr, hrenewed⟩ := renewed_certificates
  have hway : (issuanceAt .standard afterRenewal).WayUp [expired, renewed] [root] leaf [renewed] :=
    wayUp_of_renewed hrenewed (by simp)
  obtain ⟨hvalid, -, -, -, -, -, -, hrejected⟩ := hrenewed
  have haccepted := h afterRenewal leaf [expiredDer, renewedDer] [rootDer] [expired, renewed] [root]
    (hvalid leaf (by simp)).2 (mapM_some_iff.2 (.cons he (.cons hn .nil)))
    (mapM_some_iff.2 (.cons hr .nil)) ⟨[renewed], Nat.lt_of_sub_eq_succ rfl, hway⟩
  rw [hrejected] at haccepted
  cases haccepted

end Renewal

end ImageTrust.X509
