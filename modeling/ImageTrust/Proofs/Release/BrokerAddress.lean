import ImageTrust.Http.Network
import ImageTrust.Proofs.Release.Atomicity
import ImageTrust.Proofs.Url.Segment
import ImageTrust.Service.Broker

/-!
Where a broker is asked. The URL of a key is taken apart, a broker's URL is made of what stands in front
of its last three segments, and these are joined to it again. What comes out is the URL of the key, but
for its query, its fragment and the empty segments of its path.
-/

namespace ImageTrust

/-- A URL without its query, its fragment and the empty segments of its path. -/
def Url.trimmed (u : Url) : Url :=
  { u with path := .segments u.filledSegments, query := none, fragment := none }

namespace KeyUrl

/-- A text is an `https` URL, and of its segments the first that has the form of a UUID is the id. -/
structure Locates (text : String) (u : Url) (id : String) : Prop where
  read : Url.ofText text = .ok u
  secure : u.scheme = "https"
  form : Uuid.IsHyphenated id
  first : ∃ before after, u.path = .segments (before ++ id :: after)
    ∧ ∀ s ∈ before, ¬ Uuid.IsHyphenated s

/-- A URL with a path that is read from the given segments, a slash before the first and behind each. -/
def rebased (u : Url) (front : List String) : Url :=
  { u.setPath ("/" ++ String.join (front.map (· ++ "/"))) with query := none, fragment := none }

variable {text id : String} {u : Url} {front : List String}

theorem locates_iff : Locates text u id ↔ Url.https? text = some u ∧ idOf? u = some id := by
  constructor
  · rintro ⟨hread, hsecure, hform, before, after, hpath, hfirst⟩
    refine ⟨Url.https?_eq_some_iff.2 ⟨hread, hsecure⟩, ?_⟩
    refine idOf?_eq_some_iff.2 ⟨hform, before, after, ?_, hfirst⟩
    rw [Url.segments?_of_path hpath (by simp), Option.getD_some]
  · rintro ⟨hu, hid⟩
    obtain ⟨hread, hsecure⟩ := Url.https?_eq_some_iff.1 hu
    obtain ⟨names, hne, hpath, -⟩ := Url.https?_path hu
    obtain ⟨hform, before, after, hsegments, hfirst⟩ := idOf?_eq_some_iff.1 hid
    rw [Url.segments?_of_path hpath hne, Option.getD_some] at hsegments
    exact ⟨hread, hsecure, hform, before, after, hsegments ▸ hpath, hfirst⟩

theorem filledSegments_isPlain (h : Url.https? text = some u) :
    ∀ s ∈ u.filledSegments, Url.IsPlain s := by
  obtain ⟨names, hne, hpath, hplain⟩ := Url.https?_path h
  intro s hs
  unfold Url.filledSegments at hs
  rw [Url.segments?_of_path hpath hne, Option.getD_some] at hs
  exact hplain s (List.mem_of_mem_filter hs)

theorem isSpecial_of_https (h : Url.https? text = some u) : u.isSpecial = true := by
  unfold Url.isSpecial
  rw [(Url.https?_eq_some_iff.1 h).2]
  decide

theorem rebased_eq {behind : List String} (h : Url.https? text = some u)
    (hfilled : u.filledSegments = front ++ behind) :
    rebased u front
      = { u with path := .segments (front ++ [""]), query := none, fragment := none } := by
  have hplain := filledSegments_isPlain h
  rw [hfilled] at hplain
  have hfront : ∀ s ∈ front, Url.IsPlain s := fun s hs => hplain s (List.mem_append_left _ hs)
  unfold rebased
  rw [Url.setPath_plain (isSpecial_of_https h) hfront]

/-- Joining `keys`, the id and `transfer` to a broker gives back the URL of the key. -/
theorem keyUrl_rebased (h : Url.https? text = some u)
    (hfilled : u.filledSegments = front ++ ["keys", id, "transfer"]) :
    Broker.keyUrl (rebased u front) id = .ok u.trimmed := by
  have hplain := filledSegments_isPlain h
  rw [hfilled] at hplain
  have hnames : ∀ s ∈ ["keys", id, "transfer"], Url.IsPlain s :=
    fun s hs => hplain s (List.mem_append_right _ hs)
  have hrelative : ("keys/" ++ id ++ "/transfer").toList = Url.slashed ["keys", id, "transfer"] := by
    simp [Url.slashed]
  unfold Broker.keyUrl Url.trimmed
  rw [rebased_eq h hfilled, hfilled]
  exact Url.join_plain (isSpecial_of_https h : u.isSpecial = true) rfl (List.cons_ne_nil _ _) hnames
    hrelative

end KeyUrl

theorem Broker.url_of_prepare {x : Transport} {policy : HttpPolicy} {broker u : Url}
    {roots : List Octets} {id : String} {report : Octets} {http : HttpClient} {request : HttpRequest}
    (h : prepare x policy broker roots id report = .ok (http, request))
    (hu : keyUrl broker id = .ok u) : request.url = u := by
  unfold prepare at h
  rw [hu] at h
  obtain ⟨v, hv, h⟩ := (bind_ok_iff _ _ _).1 h
  obtain ⟨-, -, h⟩ := (bind_ok_iff _ _ _).1 h
  obtain ⟨client, -, h⟩ := (bind_ok_iff _ _ _).1 h
  cases hv
  cases h
  rfl

namespace Release

/-- A broker is asked exactly at the URL of the key: it is an `https` URL with the key's id in its place,
the broker is what stands in front of its last three segments, and whatever the policy of the client, the
request is sent to that URL without query, fragment and empty segments. Every URL of that form has a
broker. -/
theorem broker_asked_at_key_url :
    (∀ lifetime cache (r : Request) broker roots id report,
      .transfer broker roots id report ∈ (r.outcome lifetime cache).calls →
      ∃ text u front, r.target.keyUrl = .ok text ∧ KeyUrl.Locates text u id
        ∧ u.filledSegments = front ++ ["keys", id, "transfer"]
        ∧ broker = KeyUrl.rebased u front ∧ Broker.keyUrl broker id = .ok u.trimmed
        ∧ ∀ x policy http request,
          Broker.prepare x policy broker roots id report = .ok (http, request) →
          request.url = u.trimmed)
      ∧ ∀ text u front id, KeyUrl.Locates text u id →
        u.filledSegments = front ++ ["keys", id, "transfer"] →
        KeyUrl.broker? u id = some (KeyUrl.rebased u front) := by
  constructor
  · intro lifetime cache r broker roots id report hcall
    obtain ⟨text, ⟨hkey, hasks⟩, hdue⟩ :=
      ((request_orderly lifetime cache r).transfer_iff broker roots id report).1 hcall
    obtain ⟨u, front, hu, hfilled, hbroker⟩ := hdue.address
    obtain ⟨u', hu', hid⟩ := KeyUrl.keyId?_eq_some_iff.1 hasks.key
    obtain rfl := Option.some.inj (hu'.symm.trans hu)
    rw [← KeyUrl.rebased_eq hu hfilled] at hbroker
    have hjoined := KeyUrl.keyUrl_rebased hu hfilled
    rw [← hbroker] at hjoined
    exact ⟨text, u', front, hkey, KeyUrl.locates_iff.2 ⟨hu, hid⟩, hfilled, hbroker, hjoined,
      fun x policy http request h => Broker.url_of_prepare h hjoined⟩
  · intro text u front id hlocates hfilled
    obtain ⟨hu, -⟩ := KeyUrl.locates_iff.1 hlocates
    rw [KeyUrl.rebased_eq hu hfilled]
    exact KeyUrl.broker?_eq_some_iff.2 ⟨front, hfilled, rfl⟩

/-- The URL of a key with a port, a dot segment, empty segments, a query and a fragment. -/
def crookedAddress : String :=
  "https://KBS:8443//v1/./keys/6e8c5a3d-2f1b-4a7e-9c0d-1b2a3c4d5e6f/transfer/?at=1#top"

def crookedKey : String :=
  "6e8c5a3d-2f1b-4a7e-9c0d-1b2a3c4d5e6f"

def crookedRequest : Request where
  peers := obligingPeers
  now := 0
  host := (keyRequest 0).host
  target := .url crookedAddress

def crookedReport : Octets :=
  Text.encode "<Assertion><Attribute Name='TRUST_OVERALL'/></Assertion>"

def crookedBroker : Url where
  scheme := "https"
  username := ""
  password := ""
  host := some (.domain "kbs")
  port := some 8443
  path := .segments ["v1", ""]
  query := none
  fragment := none

/-- What a client without roots of its own is about to send. -/
def crookedSending : Except TransportFault (HttpClient × HttpRequest) :=
  Broker.prepare (Network.transport [] 0) .standard crookedBroker [] crookedKey crookedReport

theorem crooked_address_asked_straight :
    ∃ u http request, KeyUrl.Locates crookedAddress u crookedKey
      ∧ .transfer crookedBroker [] crookedKey crookedReport ∈ (crookedRequest.outcome 5 .empty).calls
      ∧ crookedSending = .ok (http, request)
      ∧ request.url = u.trimmed
      ∧ request.url.text = "https://kbs:8443/v1/keys/6e8c5a3d-2f1b-4a7e-9c0d-1b2a3c4d5e6f/transfer"
      ∧ KeyUrl.broker? u crookedKey = some crookedBroker := by
  have hcall : .transfer crookedBroker [] crookedKey crookedReport
      ∈ (crookedRequest.outcome 5 .empty).calls := by
    decide +kernel
  have hprepared : crookedSending.map (·.2.url.text)
      = .ok "https://kbs:8443/v1/keys/6e8c5a3d-2f1b-4a7e-9c0d-1b2a3c4d5e6f/transfer" := by
    decide +kernel
  obtain ⟨hasked, hfound⟩ := broker_asked_at_key_url
  obtain ⟨text, u, front, htext, hlocates, hfilled, hbroker, -, hsent⟩ := hasked _ _ _ _ _ _ _ hcall
  obtain rfl : crookedAddress = text := Except.ok.inj htext
  have hrebased := hfound _ _ _ _ hlocates hfilled
  rw [← hbroker] at hrebased
  cases hp : crookedSending with
  | error fault =>
    rw [hp] at hprepared
    cases hprepared
  | ok sent =>
    obtain ⟨http, request⟩ := sent
    rw [hp] at hprepared
    exact ⟨u, http, request, hlocates, hcall, rfl, hsent _ _ _ _ hp, Except.ok.inj hprepared,
      hrebased⟩

end Release

end ImageTrust
