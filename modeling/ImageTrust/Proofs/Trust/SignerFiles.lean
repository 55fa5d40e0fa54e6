import ImageTrust.Proofs.Json.SignerText
import ImageTrust.Proofs.Trust.FlavorVerdict
import ImageTrust.Proofs.X509.Ascent

/-!
Which files of a signing directory count. Every candidate is judged by what its own file holds, and one
that fails is passed over, so neither names nor order nor anything else in the directory matters, and
more files never take trust away. A file counts only if it can be opened: behind a path that is too long,
in a directory that may not be searched, or without leave to read it, it does not.
-/

namespace ImageTrust

namespace FlavorSigner

open ImageTrust.X509

variable {p : Pki} {t : FileTree} {directory : String} {here : List String}
  {entries : List (String × FileEntry)} {content : Octets}

/-- A directory has a file with the extension of bundles, and no link, with this content. -/
def Keeps (t : FileTree) (directory : String) (content : Octets) : Prop :=
  ∃ here entries name, t.ListsAt directory here entries ∧ (name, .file content) ∈ entries
    ∧ extension? name = some "pem"

/-- Such a file, which can be opened and read. -/
def Offers (t : FileTree) (directory : String) (content : Octets) : Prop :=
  ∃ here entries name, t.ListsAt directory here entries ∧ (name, .file content) ∈ entries
    ∧ extension? name = some "pem" ∧ t.Opens directory here name

theorem Offers.keeps (h : Offers t directory content) : Keeps t directory content := by
  obtain ⟨here, entries, name, hlisted, hmem, hextension, -⟩ := h
  exact ⟨here, entries, name, hlisted, hmem, hextension⟩

/-- A directory offers what it keeps when nothing is refused and its path leaves room for a name. -/
theorem keeps_iff_offers (hproper : t.root.IsProper)
    (hroom : directory.utf8ByteSize + 256 ≤ FileTree.pathLimit) (hfree : Bundle.Unrefused t directory) :
    Keeps t directory content ↔ Offers t directory content := by
  refine ⟨?_, Offers.keeps⟩
  rintro ⟨here, entries, name, hlisted, hmem, hextension⟩
  have hshort := FileTree.joinPath_short hproper hlisted hroom (List.mem_map_of_mem hmem)
  obtain ⟨hsearched, hfiles⟩ := hfree here entries hlisted
  obtain ⟨hseen, hreadable⟩ := hfiles name content hmem hextension
  exact ⟨here, entries, name, hlisted, hmem, hextension, hshort, hsearched, hseen, hreadable⟩

theorem tryAll_true_iff {flavorId : String} {total : Nat}
    {check : String → Except CandidateFault Unit} {candidates : List String} :
    (tryAll flavorId total check candidates).1 = true ↔ ∃ path ∈ candidates, check path = .ok () := by
  induction candidates with
  | nil => simp [tryAll]
  | cons path rest ih =>
    rw [tryAll]
    cases hc : check path with
    | ok u => simp [hc]
    | error fault => simpa [hc] using ih

variable {now : Instant} {signers authorities : String} {f : SignedFlavor} {q : Preparation p}
  {paths : List String}

/-- What a file holds signed a flavor. -/
def Signs (p : Pki) (now : Instant) (q : Preparation p) (content : Octets) : Prop :=
  ∃ certificates, Bundle.IsBundle p content certificates
    ∧ checkBundle p now q.trusted q.digest q.signature certificates = .ok ()

theorem mem_candidates_iff (hlisted : t.ListsAt directory here entries)
    (hpaths : Lists t directory paths) {path : String} : path ∈ paths ↔ ∃ name content,
      (name, .file content) ∈ entries ∧ extension? name = some "pem"
      ∧ path = joinPath directory name := by
  obtain ⟨found, names, hfound, hperm, -, rfl⟩ := hpaths
  cases ok_unique hlisted.list hfound
  simp only [List.mem_map, hperm.mem_iff, List.mem_filter, Prod.exists]
  constructor
  · rintro ⟨_, ⟨name, e, ⟨hmem, hcandidate⟩, rfl⟩, rfl⟩
    obtain ⟨content, rfl, hextension⟩ := Bundle.isCandidate_iff.1 hcandidate
    exact ⟨name, content, hmem, hextension, rfl⟩
  · rintro ⟨name, content, hmem, hextension, rfl⟩
    have hcandidate := Bundle.isCandidate_iff.2 ⟨content, rfl, hextension⟩
    exact ⟨name, ⟨name, .file content, ⟨hmem, hcandidate⟩, rfl⟩, rfl⟩

/-- Some candidate passes exactly when a file that can be opened holds a bundle that does. -/
theorem candidate_passes_iff (hproper : t.root.IsProper) (hpaths : Lists t directory paths) :
    (∃ path ∈ paths, checkCandidate p now q.trusted t q.digest q.signature path = .ok ())
      ↔ ∃ content, Offers t directory content ∧ Signs p now q content := by
  obtain ⟨entries, -, hlists, -⟩ := id hpaths
  obtain ⟨here, hlisted⟩ := FileTree.list_ok_iff.1 hlists
  unfold checkCandidate
  simp only [mem_candidates_iff hlisted hpaths, bind_ok_iff, mapError_ok_iff]
  constructor
  · rintro ⟨_, ⟨name, content, hmem, hextension, rfl⟩, certificates, hread, hpass⟩
    obtain ⟨hopens, hbundle⟩ := (Bundle.read_listed_ok_iff hproper hlisted hmem).1 hread
    exact ⟨content, ⟨here, entries, name, hlisted, hmem, hextension, hopens⟩, certificates, hbundle,
      hpass⟩
  · rintro ⟨content, ⟨_, _, name, hfound, hmem, hextension, hopens⟩, certificates, hbundle, hpass⟩
    obtain ⟨rfl, rfl⟩ := hlisted.unique hfound
    have hread := (Bundle.read_listed_ok_iff hproper hlisted hmem).2 ⟨hopens, hbundle⟩
    exact ⟨_, ⟨name, content, hmem, hextension, rfl⟩, certificates, hread, hpass⟩

theorem verify_true_iff (hproper : t.root.IsProper) :
    (verify p t now signers authorities f).1 = true ↔ ∃ q, Prepared p t signers authorities f q
      ∧ ∃ content, Offers t signers content ∧ Signs p now q content := by
  unfold verify
  cases hq : prepare p t signers authorities f with
  | error o =>
    refine iff_of_false nofun ?_
    rintro ⟨q, hprepared, -⟩
    cases hq.symm.trans (prepare_ok_iff.2 hprepared)
  | ok q =>
    have hprepared := prepare_ok_iff.1 hq
    dsimp only
    rw [tryAll_true_iff, candidate_passes_iff hproper hprepared.listed]
    constructor
    · intro h
      exact ⟨q, hprepared, h⟩
    · rintro ⟨q', hq', h⟩
      cases ok_unique hq (prepare_ok_iff.2 hq')
      exact h

/-- Another directory of signers changes nothing but the candidates. -/
theorem Prepared.elsewhere {t' : FileTree} {signers' authorities' : String}
    (h : Prepared p t signers authorities f q) (hpaths : Lists t' signers' paths)
    (hloaded : Holds p t' authorities' q.trusted.roots) :
    Prepared p t' signers' authorities' f { q with candidates := paths } :=
  ⟨hpaths, hloaded, h.anchored, h.decoded, h.digested⟩

theorem lists_of_list (h : t.list directory = .ok entries) : ∃ paths, Lists t directory paths := by
  obtain ⟨hperm, hsorted⟩ := Bundle.candidates_ascending entries
  exact ⟨_, entries, _, h, hperm, hsorted, rfl⟩

theorem trust_kept {t' : FileTree} {signers' authorities' : String}
    {entries' : List (String × FileEntry)} (hproper : t.root.IsProper)
    (hproper' : t'.root.IsProper) (hlisted' : t'.list signers' = .ok entries')
    (hloaded : ∀ roots, Holds p t authorities roots → Holds p t' authorities' roots)
    (hoffers : ∀ content, Offers t signers content → Offers t' signers' content)
    (h : (verify p t now signers authorities f).1 = true) :
    (verify p t' now signers' authorities' f).1 = true := by
  obtain ⟨q, hprepared, content, hoffered, hsigns⟩ := (verify_true_iff hproper).1 h
  obtain ⟨paths, hpaths⟩ := lists_of_list hlisted'
  have hprepared' := hprepared.elsewhere hpaths (hloaded _ hprepared.loaded)
  refine (verify_true_iff hproper').2 ⟨_, hprepared', ?_⟩
  exact ⟨content, hoffers content hoffered, hsigns⟩

/-- A flavor is trusted when a content that is offered signed it. So trust is kept by every directory
that offers at least the same contents, and the verdict is a matter of the set of contents. A directory
offers what it keeps, unless something is refused or its path is so long that names do not fit behind
it. -/
theorem verdict_of_offers (p : Pki) {t t' : FileTree}
    {signers authorities signers' authorities' : String}
    {entries entries' : List (String × FileEntry)} (hproper : t.root.IsProper)
    (hproper' : t'.root.IsProper) (hlisted : t.list signers = .ok entries)
    (hlisted' : t'.list signers' = .ok entries')
    (hroots : ∀ roots, Holds p t authorities roots ↔ Holds p t' authorities' roots)
    (now : Instant) (f : SignedFlavor) :
    ((verify p t now signers authorities f).1 = true ↔ ∃ q, Prepared p t signers authorities f q
      ∧ ∃ content, Offers t signers content ∧ Signs p now q content)
    ∧ ((∀ content, Offers t signers content → Offers t' signers' content) →
      (verify p t now signers authorities f).1 = true →
      (verify p t' now signers' authorities' f).1 = true)
    ∧ ((∀ content, Offers t signers content ↔ Offers t' signers' content) →
      (verify p t now signers authorities f).1 = (verify p t' now signers' authorities' f).1)
    ∧ (signers.utf8ByteSize + 256 ≤ FileTree.pathLimit → Bundle.Unrefused t signers →
      ∀ content, Keeps t signers content ↔ Offers t signers content) := by
  have hloaded := fun roots => (hroots roots).1
  have hloaded' := fun roots => (hroots roots).2
  refine ⟨verify_true_iff hproper, fun hoffers => ?_, fun hoffers => ?_,
    fun hroom hfree content => keeps_iff_offers hproper hroom hfree⟩
  · exact trust_kept hproper hproper' hlisted' hloaded hoffers
  · rw [Bool.eq_iff_iff]
    constructor
    · exact trust_kept hproper hproper' hlisted' hloaded fun content => (hoffers content).1
    · exact trust_kept hproper' hproper hlisted hloaded' fun content => (hoffers content).2

section Rotation

theorem keeps_sole_iff {name : String} {file : Octets}
    (hlisted : t.ListsAt directory here [(name, .file file)])
    (hextension : extension? name = some "pem") : Keeps t directory content ↔ content = file := by
  constructor
  · rintro ⟨_, _, _, hlists, hmem, -⟩
    obtain ⟨rfl, rfl⟩ := hlisted.unique hlists
    simp only [List.mem_singleton, Prod.mk.injEq, FileEntry.file.injEq] at hmem
    exact hmem.2
  · rintro rfl
    exact ⟨_, _, name, hlisted, List.mem_singleton_self _, hextension⟩

theorem offers_sole_iff {name : String} {file : Octets}
    (hlisted : t.ListsAt directory here [(name, .file file)])
    (hextension : extension? name = some "pem") (hopens : t.Opens directory here name) :
    Offers t directory content ↔ content = file := by
  constructor
  · intro h
    exact (keeps_sole_iff hlisted hextension).1 h.keeps
  · rintro rfl
    exact ⟨_, _, name, hlisted, List.mem_singleton_self _, hextension, hopens⟩

/-- A flavor, and the signature that the root's key made for it. -/
def sealedFlavor : SignedFlavor where
  flavor := ⟨⟨"f", ⟨"", "IMAGE"⟩⟩, none, false, false⟩
  signature := "Gp1fSqNXRAL93WchGspaZQ1P/Hk3+HHaHBVZLQ/Kzip0mmn317vhE1zSQyY1ZtfR4yynBsdr5fBqLk9KyPkx5d7Q"
    ++ "MF2hR7Nml/RBL0KViwleJ1KbyUGReBd5ir4dXonU4qTTzVxuNhF1lfpMY1m0uoAk0q8Zzmb02Pr6VkWMeBI="

/-- The root's certificate as a file. -/
def rootFile : Octets :=
  ["-----BEGIN CERTIFICATE-----",
    "MIIBnzCCAQigAwIBAgIBATANBgkqhkiG9w0BAQUFADAMMQowCAYDVQQDDAFSMB4X",
    "DTAwMDEwMTAwMDAwMFoXDTQ5MDEwMTAwMDAwMFowDDEKMAgGA1UEAwwBUjCBnTAN",
    "BgkqhkiG9w0BAQEFAAOBiwAwgYcCgYEApYcc6cSJmSCl9Hyb0PV/YZC6FX4AST1H",
    "2jiXaetoHAtBi83MA31qwKK9ZshcrxbNAdazZX4JmV/J83TJ1KIXV+eu9//vjqg9",
    "aosCoJMaWfw/PIf2Iv+K4o1vJEKziRt/l/oiwgYfcYD03KrSL1lFeYSpHeim10Gj",
    "fTIyt97LGoUCAQOjEzARMA8GA1UdEwEB/wQFMAMBAf8wDQYJKoZIhvcNAQEFBQAD",
    "gYEALK7IqCQaMfK1/i17Rt7ZJoYGTsWAe38V55bZaK7Atv9A5ovK30pUNxIXmSyU",
    "ZO62/EzDCc11Ap3pZ7x3+6neWu0Z2ovBEDPfiassIO0WtlCAuNPz2O5JL+alXwc/",
    "asQQQ6TEBzqZo/uTWyRLVmUqMdsTprDHlkMDLj3TtwzGgOU=",
    "-----END CERTIFICATE-----"].flatMap fun line => Text.encode line ++ [0x0a]

def keptFiles : List (String × FileEntry) := [("a.pem", .file rootFile)]
def renamedFiles : List (String × FileEntry) := [("z.pem", .file rootFile)]

/-- The root's file among a broken one and entries that are not candidates. -/
def rotatedFiles : List (String × FileEntry) :=
  [("0.pem", .file [0x2d]), ("b.pem", .file rootFile), ("c.crt", .file []), ("x.pem", .directory []),
    ("y.pem", .link "0.pem")]

/-- A tree with directories of signers; nothing is refused but the reading of one file. -/
def rotation : FileTree where
  root := .directory [("srv", .directory [("cas", .directory []), ("signers", .directory keptFiles),
    ("renamed", .directory renamedFiles), ("rotated", .directory rotatedFiles),
    ("hidden", .directory keptFiles)])]
  here := ["srv"]
  refuses := fun use names =>
    if use = .read && names = ["srv", "hidden", "a.pem"] then some .denied else none

theorem rotation_isProper : rotation.root.IsProper := by
  have hsrv : IsFileName "srv" := by decide
  have hkept : (FileEntry.directory keptFiles).IsProper := by
    refine .directory _ (by decide) (by decide) ?_
    simpa [keptFiles] using FileEntry.IsProper.file rootFile
  have hrenamed : (FileEntry.directory renamedFiles).IsProper := by
    refine .directory _ (by decide) (by decide) ?_
    simpa [renamedFiles] using FileEntry.IsProper.file rootFile
  have hrotated : (FileEntry.directory rotatedFiles).IsProper := by
    refine .directory _ (by decide) (by decide) ?_
    simp only [rotatedFiles, List.forall_mem_cons, List.not_mem_nil, false_implies, implies_true,
      and_true]
    exact ⟨.file _, .file _, .file _, .directory _ nofun .nil nofun, .link _⟩
  refine .directory _ (by simpa using hsrv) (List.nodup_singleton _) ?_
  simp only [List.forall_mem_cons, List.not_mem_nil, false_implies, implies_true, and_true]
  refine .directory _ (by decide) (by decide) ?_
  simp only [List.forall_mem_cons, List.not_mem_nil, false_implies, implies_true, and_true]
  exact ⟨.directory _ nofun .nil nofun, hkept, hrenamed, hrotated, hkept⟩

/-- A directory of the tree by its name, with slashes behind it or not. -/
theorem rotation_listed {name : String} (n : Nat) (hname : IsFileName name)
    (h : name.utf8ByteSize + n ≤ FileTree.pathLimit)
    (hat : rotation.root.at? ["srv", name] = some (.directory entries)) :
    rotation.ListsAt (FileTree.slashedBehind name n) ["srv", name] entries :=
  ⟨FileTree.locate_slashedBehind hname h rfl hat, by simp [rotation]⟩

theorem signers_listed (n : Nat) (h : 7 + n ≤ FileTree.pathLimit) :
    rotation.ListsAt (FileTree.slashedBehind "signers" n) ["srv", "signers"] keptFiles :=
  rotation_listed n (by decide) h rfl

theorem renamed_listed : rotation.ListsAt "renamed" ["srv", "renamed"] renamedFiles :=
  rotation_listed 0 (by decide) (by decide) rfl

theorem hidden_listed : rotation.ListsAt "hidden" ["srv", "hidden"] keptFiles :=
  rotation_listed 0 (by decide) (by decide) rfl

theorem cas_listed : rotation.ListsAt "cas" ["srv", "cas"] [] :=
  rotation_listed 0 (by decide) (by decide) rfl

/-- One of the directories by its path from the root. -/
theorem rotated_listed : rotation.ListsAt "/srv/rotated" ["srv", "rotated"] rotatedFiles := by
  have hparts : FileTree.components "/srv/rotated" = ["srv", "rotated"] := by decide +kernel
  have hslash : ("/srv/rotated" : String).startsWith "/" = true := by simp
  exact ⟨FileTree.locate_of_walk (by decide) (if_pos hslash) rfl hparts rfl, rfl⟩

/-- What can be opened in a directory whose files are not hidden. -/
theorem rotation_opens {name file : String} (hdirectory : name ≠ "hidden")
    (hshort : directory.utf8ByteSize + file.utf8ByteSize < FileTree.pathLimit) :
    rotation.Opens directory ["srv", name] file := by
  have hjoined := (FileTree.joinPath_size directory file).2
  exact ⟨by omega, rfl, rfl, by simp [rotation, hdirectory]⟩

theorem rootFile_isBundle : Bundle.IsBundle .standard rootFile [rootDer] := by
  have hread : rootFile.length ≤ Bundle.sizeLimit ∧ Pki.standard.bundle? rootFile = some [rootDer] := by
    decide +kernel
  exact ⟨hread.1, hread.2, List.cons_ne_nil _ _⟩

theorem root_seals : ∃ signature c k,
    Base64.decode (Text.trim sealedFlavor.signature) = .ok signature
      ∧ Pki.standard.certificate? rootDer = some c ∧ Pki.standard.isAuthority c = true
      ∧ Pki.standard.isSelfCertified c = true ∧ Pki.standard.rsaKey? c = some k
      ∧ Pki.standard.verifies k .sha384
        (Digest.sha384.apply (Text.encode sealedFlavor.flavor.signaturePayload)) signature = true := by
  have h : (Base64.decode (Text.trim sealedFlavor.signature)).toOption.any (fun signature =>
      (Pki.standard.certificate? rootDer).any fun c =>
        Pki.standard.isAuthority c && Pki.standard.isSelfCertified c
          && (Pki.standard.rsaKey? c).any fun k => Pki.standard.verifies k .sha384
            (Digest.sha384.apply (Text.encode sealedFlavor.flavor.signaturePayload)) signature)
        = true := by
    rw [Flavor.signaturePayload, Json.signerText_eq]
    decide +kernel
  simp only [Option.any_eq_true, toOption_eq_some_iff, Bool.and_eq_true] at h
  obtain ⟨signature, hs, c, hc, ⟨ha, hself⟩, k, hk, hv⟩ := h
  exact ⟨signature, c, k, hs, hc, ha, hself, hk, hv⟩

/-- The flavor is trusted with every directory of the tree that offers the root's file. -/
theorem sealed_flavor_trusted {now : Instant} {directory : String}
    (hlisted : rotation.ListsAt directory here entries) (h : Offers rotation directory rootFile) :
    (verify .standard rotation now directory "cas" sealedFlavor).1 = true := by
  obtain ⟨signature, c, k, hsignature, hc, ha, hself, hk, hv⟩ := root_seals
  obtain ⟨paths, hpaths⟩ := lists_of_list hlisted.list
  have hnone : Holds .standard rotation "cas" [] :=
    ⟨[], [], ⟨[], [], cas_listed.list, .nil, .nil, rfl⟩, .nil, rfl⟩
  refine (verify_true_iff rotation_isProper).2 ⟨⟨paths, ⟨[], []⟩, _, signature⟩,
    ⟨hpaths, hnone, .nil, hsignature, rfl⟩, rootFile, h, [rootDer], rootFile_isBundle, ?_⟩
  exact checkBundle_ok_iff.2 ⟨rootDer, [], c, k, rfl, hc, .selfCertified ha hself, hk, hv⟩

theorem signers_offer : Offers rotation "signers" content ↔ content = rootFile :=
  offers_sole_iff (signers_listed 0 (by decide)) (by decide)
    (rotation_opens (by decide) (by decide))

theorem rotated_signers_trusted :
    (verify .standard rotation 0 "/srv/rotated" "cas" sealedFlavor).1 = true
      ∧ (verify .standard rotation 0 "signers" "cas" sealedFlavor).1
        = (verify .standard rotation 0 "renamed" "cas" sealedFlavor).1 := by
  have hlisted : rotation.ListsAt "signers" ["srv", "signers"] keptFiles :=
    signers_listed 0 (by decide)
  constructor
  · refine (verdict_of_offers .standard rotation_isProper rotation_isProper hlisted.list
      rotated_listed.list (fun roots => Iff.rfl) 0 sealedFlavor).2.1 ?_
      (sealed_flavor_trusted hlisted (signers_offer.2 rfl))
    intro content h
    rw [signers_offer.1 h]
    exact ⟨_, rotatedFiles, "b.pem", rotated_listed, by simp [rotatedFiles], by decide,
      rotation_opens (by decide) (by decide)⟩
  · refine (verdict_of_offers .standard rotation_isProper rotation_isProper hlisted.list
      renamed_listed.list (fun roots => Iff.rfl) 0 sealedFlavor).2.2.1 ?_
    intro content
    rw [signers_offer, offers_sole_iff renamed_listed (by decide)
      (rotation_opens (by decide) (by decide))]

/-- A directory that keeps the root's file but does not let it be opened loses the trust. -/
theorem trust_lost {directory : String} (hlisted : rotation.ListsAt directory here keptFiles)
    (hclosed : ¬ rotation.Opens directory here "a.pem") (p : Pki) (now : Instant) :
    (verify p rotation now directory "cas" sealedFlavor).1 ≠ true := by
  intro h
  obtain ⟨-, -, content, ⟨_, _, name, hlists, hmem, -, hopens⟩, -⟩ :=
    (verify_true_iff rotation_isProper).1 h
  obtain ⟨rfl, rfl⟩ := hlisted.unique hlists
  obtain ⟨rfl, -⟩ : name = "a.pem" ∧ _ := by simpa [keptFiles] using hmem
  exact hclosed hopens

/-- Signers may be moved to any directory of which a condition holds, along with more of them. -/
def Movable (condition : FileTree → String → Prop) : Prop :=
  ∀ (t : FileTree) (now : Instant) (signers signers' authorities : String)
    (entries entries' : List (String × FileEntry)) (f : SignedFlavor), t.root.IsProper →
    t.list signers = .ok entries → t.list signers' = .ok entries' → condition t signers' →
    (∀ content, Keeps t signers content → Keeps t signers' content) →
    (verify .standard t now signers authorities f).1 = true →
    (verify .standard t now signers' authorities f).1 = true

/-- Trust is lost with a file that may not be read, and, where everything may be read, with one that
slashes behind its directory take out of reach. -/
theorem signers_out_of_reach :
    ¬ Movable Bundle.Unrefused
      ∧ ¬ Movable fun _ directory => directory.utf8ByteSize + 256 ≤ FileTree.pathLimit := by
  have hlisted : rotation.ListsAt "signers" ["srv", "signers"] keptFiles :=
    signers_listed 0 (by decide)
  have htrusted : (verify .standard rotation 0 "signers" "cas" sealedFlavor).1 = true :=
    sealed_flavor_trusted hlisted (signers_offer.2 rfl)
  have hkeeps : ∀ {directory : String} {here : List String},
      rotation.ListsAt directory here keptFiles →
      ∀ content, Keeps rotation "signers" content → Keeps rotation directory content := by
    intro directory here h content hkept
    exact (keeps_sole_iff h (by decide)).2 ((keeps_sole_iff hlisted (by decide)).1 hkept)
  constructor
  · intro h
    have hfar := signers_listed 4088 (by decide)
    have hfree : Bundle.Unrefused rotation (FileTree.slashedBehind "signers" 4088) := by
      intro here entries hfound
      obtain ⟨rfl, rfl⟩ := hfar.unique hfound
      exact ⟨rfl, fun name content _ _ => ⟨rfl, by simp [rotation]⟩⟩
    refine trust_lost hfar (fun hopens => ?_) .standard 0
      (h rotation 0 _ _ "cas" _ _ sealedFlavor rotation_isProper hlisted.list hfar.list hfree
        (hkeeps hfar) htrusted)
    have hshort := hopens.short
    have hjoined := (FileTree.joinPath_size (FileTree.slashedBehind "signers" 4088) "a.pem").1
    have hname : ("a.pem" : String).utf8ByteSize = 5 := rfl
    have hsigners : ("signers" : String).utf8ByteSize = 7 := rfl
    rw [FileTree.slashedBehind_size, hname, hsigners] at hjoined
    have hlimit : FileTree.pathLimit = 4095 := rfl
    omega
  · intro h
    refine trust_lost hidden_listed (fun hopens => ?_) .standard 0
      (h rotation 0 _ _ "cas" _ _ sealedFlavor rotation_isProper hlisted.list hidden_listed.list
        (by decide) (hkeeps hidden_listed) htrusted)
    cases hopens.readable

end Rotation

end FlavorSigner

end ImageTrust
