import ImageTrust.Http.Network
import ImageTrust.Proofs.Url.Form
import ImageTrust.Proofs.Url.Segment
import ImageTrust.Service.Attestation
import ImageTrust.X509.Standard

/-!
Where reports are asked for. The URL of a configuration is given a slash at its end, so that joining a
name to it loses no segment, and the query and the fragment that it may have are left behind. Whatever the
text of a host, the query that is asked with names exactly that host and nothing else.
-/

namespace ImageTrust

namespace Url

/-- A URL whose path ends with a slash. A missing one is added, and the path is read anew. -/
def slashEnded (u : Url) : Url :=
  if u.pathText.endsWith '/' then u else u.setPath (u.pathText ++ "/")

/-- The segments of a path without the empty one that a slash at its end leaves. -/
def folders (names : List String) : List String :=
  if names.getLast? = some "" then names.dropLast else names

variable {u : Url} {names front : List String} {last : String}

theorem folders_concat (front : List String) (last : String) :
    folders (front ++ [last]) = if last = "" then front else front ++ [last] := by
  unfold folders
  simp only [List.getLast?_concat, List.dropLast_concat, Option.some.injEq]

theorem pathText_concat (h : u.path = .segments (front ++ [last])) :
    u.pathText = String.join (front.map ("/" ++ ·)) ++ "/" ++ last := by
  unfold pathText
  rw [h]
  simp [String.join_append, String.append_assoc]

theorem endsWith_slash_iff (h : u.path = .segments (front ++ [last])) (hplain : IsPlain last) :
    u.pathText.endsWith '/' = true ↔ last = "" := by
  rw [String.endsWith_char_eq_getLast?, beq_iff_eq, pathText_concat h, String.toList_append,
    List.getLast?_append]
  rcases eq_or_ne last "" with rfl | hne
  · simp
  · have hfilled : last.toList ≠ [] := fun h => hne (String.toList_eq_nil_iff.1 h)
    rw [List.getLast?_eq_some_getLast hfilled, Option.some_or, Option.some.injEq]
    refine iff_of_false (fun hslash => ?_) hne
    have hwhole := hplain.whole _ (List.getLast_mem hfilled)
    rw [hslash] at hwhole
    exact absurd hwhole (by decide)

theorem slashes_moved (names : List String) : String.join (names.map ("/" ++ ·)) ++ "/"
    = "/" ++ String.join (names.map (· ++ "/")) := by
  induction names with
  | nil => rfl
  | cons s names ih =>
    rw [List.map_cons, List.map_cons, String.join_cons, String.join_cons, String.append_assoc, ih]
    simp only [String.append_assoc]

theorem slashEnded_eq (hspecial : u.isSpecial = true) (hne : names ≠ [])
    (hpath : u.path = .segments names) (hplain : ∀ s ∈ names, IsPlain s) :
    u.slashEnded = { u with path := .segments (folders names ++ [""]) } := by
  obtain ⟨front, last, rfl⟩ := List.eq_nil_or_concat names |>.resolve_left hne
  rw [List.concat_eq_append] at *
  have hends := endsWith_slash_iff hpath (hplain last (by simp))
  unfold slashEnded
  rw [folders_concat]
  by_cases hlast : last = ""
  · rw [if_pos (hends.2 hlast), if_pos hlast, ← hlast, ← hpath]
  · have htext : u.pathText = String.join ((front ++ [last]).map ("/" ++ ·)) := by
      unfold pathText
      rw [hpath]
    rw [if_neg fun h => hlast (hends.1 h), if_neg hlast, htext, slashes_moved,
      setPath_plain hspecial hplain]

end Url

namespace Config

theorem require_ok_iff {holds : Bool} {objection : Objection} :
    require holds objection = .ok () ↔ holds = true := by
  unfold require
  cases holds <;> simp

theorem directoryPath_segments (names : List String) :
    directoryPath (.segments names) = .segments (Url.folders names ++ [""]) := by
  unfold directoryPath Url.folders
  dsimp only
  split
  · rename_i hlast
    rw [List.dropLast_append_getLast? "" hlast]
  · rfl

/-- The schemes that a section may have name a host. -/
theorem allowed_scheme {plain : Bool} {u : Url} (h : HttpPolicy.allowsScheme plain u.scheme = true) :
    u.isSpecial = true ∧ u.scheme ≠ "file" := by
  unfold HttpPolicy.allowsScheme at h
  unfold Url.isSpecial
  have hscheme : u.scheme = "https" ∨ u.scheme = "http" := by
    simp only [Bool.or_eq_true, Bool.and_eq_true, decide_eq_true_eq] at h
    exact h.imp id And.left
  rcases hscheme with hs | hs <;> rw [hs] <;> decide

/-- What a checked section says about its URL. -/
theorem Attestation.base_of_check {a : Attestation} (h : a.check = .ok ()) :
    ∃ given names, Url.ofText (Text.trim a.baseUrl) = .ok given ∧ given.isSpecial = true
      ∧ names ≠ [] ∧ given.path = .segments names ∧ (∀ s ∈ names, Url.IsPlain s)
      ∧ a.base = .ok given.slashEnded := by
  unfold check at h
  obtain ⟨base, hbase, h⟩ := (bind_ok_iff _ _ _).1 h
  obtain ⟨⟨⟩, hscheme, -⟩ := (bind_ok_iff _ _ _).1 h
  rw [require_ok_iff] at hscheme
  have hread := hbase
  unfold Attestation.base at hread
  split at hread
  · rename_i given hgiven
    cases hread
    obtain ⟨hspecial, hfile⟩ := allowed_scheme (u := given) hscheme
    obtain ⟨names, hne, hpath, hplain⟩ := Url.ofText_segments hgiven hspecial hfile
    refine ⟨given, names, hgiven, hspecial, hne, hpath, hplain, ?_⟩
    rw [hbase, Url.slashEnded_eq hspecial hne hpath hplain, hpath, directoryPath_segments]
  · cases hread

theorem clientSettings_base {p : X509.Pki} {t : FileTree} {environment : String → Option String}
    {c : Config}
    {a : Attestation} {s : ClientSettings} (hsection : c.attestation = some a)
    (h : c.clientSettings p t environment = .ok s) : a.base = .ok s.base := by
  unfold clientSettings attestationSection at h
  rw [hsection, ok_bind] at h
  obtain ⟨roots, -, h⟩ := (bind_ok_iff _ _ _).1 h
  obtain ⟨base, hbase, h⟩ := (bind_ok_iff _ _ _).1 h
  obtain ⟨token, -, h⟩ := (bind_ok_iff _ _ _).1 h
  cases h
  exact hbase

end Config

namespace AttestationClient

/-- The pairs that the latest report on a host is asked for with. -/
def reportPairs (host : String) : List (String × String) :=
  [("latestPerHost", "true"), ("hostHardwareId", host)]

/-- A URL asks for the report on a host right below a given one. -/
structure AsksBelow (given : Url) (id : String) (u : Url) : Prop where
  scheme : u.scheme = given.scheme
  host : u.host = given.host
  port : u.port = given.port
  pathText : u.pathText
    = (if given.pathText.endsWith '/' then given.pathText else given.pathText ++ "/") ++ "reports"
  segments : ∃ names, given.path = .segments names
    ∧ u.path = .segments (Url.folders names ++ ["reports"])
  fragment : u.fragment = none
  query : ∃ q, u.query = some q ∧ Url.formPairs? q = some (reportPairs id)

theorem reports_isPlain : Url.IsPlain "reports" := by
  have hchars : "reports".toList.all (fun c => !Url.inPathSet c && !Url.isSlash true c) = true := by
    decide +kernel
  simp only [List.all_eq_true, Bool.and_eq_true, Bool.not_eq_true'] at hchars
  exact ⟨fun c hc => (hchars c hc).1, fun c hc => (hchars c hc).2, by decide, by decide⟩

theorem reportQuery_eq (id : String) : reportQuery id = Url.writtenPairs (reportPairs id) := by
  have hfirst : Url.writtenPair ("latestPerHost", "true") = "latestPerHost=true".toList := by
    decide +kernel
  have hname : Url.formEncode "hostHardwareId".toList = "hostHardwareId".toList := by
    decide +kernel
  unfold reportQuery Url.writtenPairs reportPairs
  rw [List.map_cons, List.map_singleton, hfirst, Url.writtenPair, hname]
  refine String.toList_inj.1 ?_
  simp [List.intercalate]

theorem ofSettings_base {x : Transport} {s : Config.ClientSettings} {c : AttestationClient}
    (h : ofSettings x s = .ok c) : c.base = s.base := by
  unfold ofSettings at h
  obtain ⟨⟨⟩, -, h⟩ := (bind_ok_iff _ _ _).1 h
  obtain ⟨http, -, h⟩ := (bind_ok_iff _ _ _).1 h
  cases h
  rfl

theorem request_of_reportUrl {c : AttestationClient} {id : String} {u : Url}
    (h : reportUrl c.base id = .ok u) : ∃ r, c.request id = .ok r ∧ r.url = u := by
  unfold request
  rw [h]
  exact ⟨_, rfl, rfl⟩

variable {given : Url} {names : List String}

/-- The text of the path that a report is asked for at. -/
theorem pathText_reports {u : Url} (hne : names ≠ []) (hpath : given.path = .segments names)
    (hplain : ∀ s ∈ names, Url.IsPlain s)
    (hu : u.path = .segments (Url.folders names ++ ["reports"])) : u.pathText
      = (if given.pathText.endsWith '/' then given.pathText else given.pathText ++ "/")
        ++ "reports" := by
  obtain ⟨front, last, rfl⟩ := List.eq_nil_or_concat names |>.resolve_left hne
  rw [List.concat_eq_append] at hpath hplain hu
  have hends := Url.endsWith_slash_iff hpath (hplain last (by simp))
  have hgiven := Url.pathText_concat hpath
  rw [Url.pathText_concat hu, Url.folders_concat]
  by_cases hlast : last = ""
  · rw [if_pos hlast, if_pos (hends.2 hlast), hgiven, hlast, String.append_empty]
  · rw [if_neg hlast, if_neg fun h => hlast (hends.1 h), hgiven]
    simp [String.join_append, String.append_assoc]

/-- Joining loses no segment of a path that was given a slash at its end. -/
theorem reportUrl_asks (hspecial : given.isSpecial = true) (hne : names ≠ [])
    (hpath : given.path = .segments names) (hplain : ∀ s ∈ names, Url.IsPlain s) (id : String) :
    ∃ u, reportUrl given.slashEnded id = .ok u ∧ AsksBelow given id u := by
  have hreports : ∀ s ∈ ["reports"], Url.IsPlain s := by simpa using reports_isPlain
  have hjoin : Url.join { given with path := .segments (Url.folders names ++ [""]) } "reports"
      = .ok { given with
          path := .segments (Url.folders names ++ ["reports"]), query := none, fragment := none } :=
    Url.join_plain hspecial rfl (List.cons_ne_nil _ _) hreports (by simp [Url.slashed])
  refine ⟨{ given with
    path := .segments (Url.folders names ++ ["reports"])
    query := some (reportQuery id)
    fragment := none }, ?_, rfl, rfl, rfl, ?_, ⟨names, hpath, rfl⟩, rfl, _, rfl, ?_⟩
  · unfold reportUrl
    rw [Url.slashEnded_eq hspecial hne hpath hplain, hjoin, ok_bind]
    rfl
  · exact pathText_reports hne hpath hplain rfl
  · rw [reportQuery_eq, Url.formPairs?_written]

/-- Reports are asked for right below the URL of a section that passes its checks, whatever the host. -/
theorem reports_asked_below_base {a : Config.Attestation} (h : a.check = .ok ()) :
    ∃ given base, Url.ofText (Text.trim a.baseUrl) = .ok given ∧ a.base = .ok base
      ∧ (∀ id, ∃ u, reportUrl base id = .ok u ∧ AsksBelow given id u)
      ∧ ∀ (c : Config) p t environment settings x client, c.attestation = some a →
        c.clientSettings p t environment = .ok settings → ofSettings x settings = .ok client →
        ∀ id, ∃ r, client.request id = .ok r ∧ AsksBelow given id r.url := by
  obtain ⟨given, names, hgiven, hspecial, hne, hpath, hplain, hbase⟩ := a.base_of_check h
  have hasks := reportUrl_asks hspecial hne hpath hplain
  refine ⟨given, given.slashEnded, hgiven, hbase, hasks, ?_⟩
  intro c p t environment settings x client hsection hsettings hclient id
  have hfrom : client.base = given.slashEnded := by
    rw [ofSettings_base hclient]
    exact ok_unique (Config.clientSettings_base hsection hsettings) hbase
  obtain ⟨u, hu, hbelow⟩ := hasks id
  rw [← hfrom] at hu
  obtain ⟨r, hr, rfl⟩ := request_of_reportUrl hu
  exact ⟨r, hr, hbelow⟩

section OddHost

/-- A section whose URL has blanks around it, no slash at the end of its path, a query and a fragment. -/
def looseSection : Config.Attestation where
  baseUrl := " https://HVS.Example.org:8443/mtwilson/v2?x=1#top\n"
  tokenVariable := none
  limits := ⟨10000, 1048576, false⟩

def looseConfig : Config where
  verification := ⟨"/srv/signers", "/srv/cas", false⟩
  attestation := some looseSection
  keyRelease := none
  audit := Config.Audit.standard

/-- A tree with the directory of authorities that the configuration names. -/
def looseTree : FileTree :=
  ⟨.directory [("srv", .directory [("cas", .directory [])])], [], fun _ _ => none⟩

def oddHost : String := "0&latestPerHost=false#=%26+é"

def oddAddress : String :=
  "https://hvs.example.org:8443/mtwilson/v2/reports?latestPerHost=true"
    ++ "&hostHardwareId=0%26latestPerHost%3Dfalse%23%3D%2526%2B%C3%A9"

theorem odd_host_asked_below_base :
    ∃ given base u, Url.ofText (Text.trim looseSection.baseUrl) = .ok given
      ∧ looseSection.base = .ok base ∧ reportUrl base oddHost = .ok u ∧ AsksBelow given oddHost u
      ∧ u.text = oddAddress
      ∧ ∃ settings client r,
        looseConfig.clientSettings .standard looseTree (fun _ => none) = .ok settings
        ∧ ofSettings (Network.transport [] 0) settings = .ok client ∧ client.request oddHost = .ok r
        ∧ AsksBelow given oddHost r.url := by
  obtain ⟨given, base, hgiven, hbase, hasks, hrequests⟩ :=
    reports_asked_below_base (a := looseSection) (by decide +kernel)
  obtain ⟨u, hu, hbelow⟩ := hasks oddHost
  have htext : (looseSection.base.toOption.bind fun base => (reportUrl base oddHost).toOption).any
      (·.text = oddAddress) = true := by
    decide +kernel
  have hset : (looseConfig.clientSettings .standard looseTree fun _ => none).toOption.any
      (fun settings => (ofSettings (Network.transport [] 0) settings).toOption.isSome) = true := by
    decide +kernel
  simp only [Option.any_eq_true, Option.bind_eq_some_iff, Option.isSome_iff_exists,
    toOption_eq_some_iff, decide_eq_true_eq] at htext hset
  obtain ⟨u', ⟨base', hbase', hu'⟩, htext⟩ := htext
  cases ok_unique hbase hbase'
  cases ok_unique hu hu'
  obtain ⟨settings, hsettings, client, hclient⟩ := hset
  obtain ⟨r, hr, hasked⟩ := hrequests _ _ _ _ _ _ _ rfl hsettings hclient oddHost
  exact ⟨given, base, u, hgiven, hbase, hu, hbelow, htext,
    settings, client, r, hsettings, hclient, hr, hasked⟩

end OddHost

end AttestationClient

end ImageTrust
