import ImageTrust.Http.Network
import ImageTrust.Proofs.Fallible
import ImageTrust.Proofs.Http.WholeBody
import ImageTrust.Service.Broker

/-!
Answers of the services are taken whole or refused. Both clients go about a response in one way: a status
other than success is passed on whatever the body, and of a success the full body is taken if it came
without a read error, is within the limit, and can be read. Each client adds only how it reads a body.
-/

namespace ImageTrust

namespace HttpResponse

def Succeeds (r : HttpResponse) : Prop :=
  200 ≤ r.status ∧ r.status ≤ 299

/-- What becomes of a response whose body is read as `Reads` says. -/
structure TakenWhole {α : Type} (limit : Nat) (Reads : Octets → α → Prop) (r : HttpResponse)
    (result : Except ServiceFault α) : Prop where
  taken : ∀ a, result = .ok a ↔ r.Succeeds ∧ r.Delivers limit r.body ∧ Reads r.body a
  refused : ¬ r.Succeeds → result = .error (.status r.status)
  unusable : r.Succeeds → (r.Delivers limit r.body → ∀ a, ¬ Reads r.body a) →
    ∃ reason, result = .error (.invalid reason)

variable {α : Type} {limit : Nat} {Reads : Octets → α → Prop} {r : HttpResponse}
  {read : Octets → Except ServiceFault α}

theorem isSuccess_iff : r.isSuccess = true ↔ r.Succeeds := by
  unfold isSuccess Succeeds
  rw [Bool.and_eq_true, decide_eq_true_iff, decide_eq_true_iff]

theorem answer_whole (hcounted : limit < countLimit ∨ r.body.length < countLimit)
    (hread : ∀ body a, read body = .ok a ↔ Reads body a)
    (hfault : ∀ body fault, read body = .error fault → ∃ reason, fault = .invalid reason) :
    TakenWhole limit Reads r (r.answer limit read) := by
  unfold answer
  by_cases hsuccess : r.isSuccess = true
  · have hs := isSuccess_iff.1 hsuccess
    rw [hsuccess, if_neg (by decide)]
    have hwhole : ∀ body, r.wholeBody limit = .ok body ↔ r.Delivers limit body :=
      fun body => wholeBody_ok_iff hcounted
    cases hb : r.wholeBody limit with
    | error fault =>
      have hnot : ¬ r.Delivers limit r.body := by
        intro h
        exact not_ok_and_error ((hwhole r.body).2 h) hb
      exact ⟨fun a => iff_of_false nofun fun h => hnot h.2.1, fun h => absurd hs h,
        fun _ _ => ⟨_, rfl⟩⟩
    | ok body =>
      have hdelivers := (hwhole body).1 hb
      obtain rfl := hdelivers.full
      refine ⟨fun a => ?_, fun h => absurd hs h, fun _ hnone => ?_⟩
      · exact (hread r.body a).trans ⟨fun h => ⟨hs, hdelivers, h⟩, fun h => h.2.2⟩
      · cases hr : read r.body with
        | ok a => exact absurd ((hread r.body a).1 hr) (hnone hdelivers a)
        | error fault =>
          obtain ⟨reason, rfl⟩ := hfault _ _ hr
          exact ⟨reason, hr⟩
  · have hs : ¬ r.Succeeds := fun h => hsuccess (isSuccess_iff.2 h)
    rw [Bool.not_eq_true] at hsuccess
    rw [hsuccess, if_pos (by decide)]
    exact ⟨fun a => iff_of_false nofun fun h => hs h.1, fun _ => rfl, fun h => absurd h hs⟩

end HttpResponse

namespace AttestationClient

/-- A report is the body itself, with something in it that is not blank. -/
def Reads (body report : Octets) : Prop :=
  report = body ∧ ∃ b ∈ body, Text.isBlankOctet b = false

theorem readReport_ok_iff {body report : Octets} : readReport body = .ok report ↔ Reads body report := by
  unfold readReport Reads
  by_cases hblank : body.all Text.isBlankOctet = true
  · rw [if_pos hblank]
    refine iff_of_false nofun ?_
    rintro ⟨-, b, hb, hvisible⟩
    cases hvisible.symm.trans (List.all_eq_true.1 hblank b hb)
  · rw [if_neg hblank, Except.ok.injEq, eq_comm]
    rw [List.all_eq_true] at hblank
    push Not at hblank
    simpa using fun _ => hblank

theorem readReport_error {body : Octets} {fault : ServiceFault} (h : readReport body = .error fault) :
    ∃ reason, fault = .invalid reason := by
  unfold readReport at h
  split at h <;> cases h
  exact ⟨_, rfl⟩

end AttestationClient

namespace Broker

/-- A key is that of the one document which a body is. -/
def Reads (body : Octets) (key : String) : Prop :=
  Json.decodeOctets KeyTransfer.decoder body = .ok ⟨key⟩

theorem readKey_ok_iff {body : Octets} {key : String} : readKey body = .ok key ↔ Reads body key := by
  unfold readKey Reads
  cases Json.decodeOctets KeyTransfer.decoder body with
  | ok transfer =>
    obtain ⟨wrapped⟩ := transfer
    simp
  | error flaw => exact iff_of_false nofun nofun

theorem readKey_error {body : Octets} {fault : ServiceFault} (h : readKey body = .error fault) :
    ∃ reason, fault = .invalid reason := by
  unfold readKey at h
  split at h <;> cases h
  exact ⟨_, rfl⟩

end Broker

open HttpResponse

/-- Every response that the transport delivers is taken whole or refused, by the client of the
attestation service and by that of the key broker. -/
theorem answers_taken_whole_or_refused (x : Transport) :
    (∀ (c : AttestationClient) (host : String) (request : HttpRequest) (r : HttpResponse),
      c.request host = .ok request → x.send c.http request = .ok r →
      c.http.policy.sizeLimit < countLimit ∨ r.body.length < countLimit →
      TakenWhole c.http.policy.sizeLimit AttestationClient.Reads r (c.fetch x host))
    ∧ ∀ (policy : HttpPolicy) (broker : Url) (roots : List Octets) (id : String) (report : Octets)
      (http : HttpClient) (request : HttpRequest) (r : HttpResponse),
      Broker.prepare x policy broker roots id report = .ok (http, request) →
      x.send http request = .ok r →
      policy.sizeLimit < countLimit ∨ r.body.length < countLimit →
      TakenWhole policy.sizeLimit Broker.Reads r
        (Broker.transfer policy x broker roots id report) := by
  constructor
  · intro c host request r hrequest hsend hcounted
    have hfetch : c.fetch x host = r.answer c.http.policy.sizeLimit AttestationClient.readReport := by
      unfold AttestationClient.fetch
      rw [hrequest]
      simp only [Except.mapError, ok_bind, hsend]
    rw [hfetch]
    exact answer_whole hcounted (fun body report => AttestationClient.readReport_ok_iff)
      (fun body fault => AttestationClient.readReport_error)
  · intro policy broker roots id report http request r hprepare hsend hcounted
    have htransfer : Broker.transfer policy x broker roots id report
        = r.answer policy.sizeLimit Broker.readKey := by
      unfold Broker.transfer
      rw [hprepare]
      simp only [Except.mapError, ok_bind, hsend]
    rw [htransfer]
    exact answer_whole hcounted (fun body key => Broker.readKey_ok_iff)
      (fun body fault => Broker.readKey_error)

section LocalServices

def localServer (port : Nat) (response : String) : Server where
  host := .ipv4 0x7f000001
  port := port
  certificates := none
  response := Text.encode response

/-- An attestation service that declares a length, and a key broker that sends chunks. -/
def localServices : Network :=
  [localServer 8443 "HTTP/1.1 200 OK\r\ncontent-length: 4\r\n\r\n<a/>",
    localServer 9443 ("HTTP/1.1 200 OK\r\ntransfer-encoding: chunked\r\n\r\n"
      ++ "7\r\n\x7b\"wrapp\r\n10\r\ned_key\":\"AQID\"\x7d\n\r\n0\r\n\r\n")]

def localUrl (port : Nat) : Url where
  scheme := "http"
  username := ""
  password := ""
  host := some (.ipv4 0x7f000001)
  port := some port
  path := .segments [""]
  query := none
  fragment := none

/-- A policy under which the broker's body is just small enough. -/
def narrowPolicy : HttpPolicy :=
  { HttpPolicy.standard with allowPlain := true, sizeLimit := 23 }

def localClient : AttestationClient :=
  ⟨localUrl 8443, none, ⟨narrowPolicy, []⟩⟩

theorem local_services_taken_whole :
    localClient.fetch (localServices.transport 0) "h" = .ok (Text.encode "<a/>")
      ∧ Broker.transfer narrowPolicy (localServices.transport 0) (localUrl 9443) [] "k" []
        = .ok "AQID" := by
  obtain ⟨hfetch, htransfer⟩ := answers_taken_whole_or_refused (localServices.transport 0)
  have hlimit : narrowPolicy.sizeLimit < countLimit := by decide
  constructor
  · have hsent : (localClient.request "h" >>= (localServices.transport 0).send localClient.http)
        = .ok (HttpResponse.delimited 200 4 (Text.encode "<a/>")) := by
      decide +kernel
    obtain ⟨request, hrequest, hsend⟩ := (bind_ok_iff _ _ _).1 hsent
    refine ((hfetch _ _ _ _ hrequest hsend (.inl hlimit)).taken _).2 ⟨?_, ?_, ?_, ?_⟩
    · exact ⟨by decide, by decide⟩
    · exact ⟨by decide +kernel, rfl, by decide +kernel⟩
    · decide +kernel
    · exact ⟨60, by decide +kernel, by decide⟩
  · have hsent : (Broker.prepare (localServices.transport 0) narrowPolicy (localUrl 9443) [] "k" []
          >>= fun prepared => (localServices.transport 0).send prepared.1 prepared.2)
        = .ok (.undeclared 200 (Text.encode "\x7b\"wrapped_key\":\"AQID\"\x7d\n") true) := by
      decide +kernel
    obtain ⟨⟨http, request⟩, hprepare, hsend⟩ := (bind_ok_iff _ _ _).1 hsent
    refine ((htransfer _ _ _ _ _ _ _ _ hprepare hsend (.inl hlimit)).taken _).2 ⟨?_, ?_, ?_⟩
    · exact ⟨by decide, by decide⟩
    · exact ⟨rfl, rfl, by decide +kernel⟩
    · show Json.decodeOctets KeyTransfer.decoder _ = .ok _
      decide +kernel

end LocalServices

end ImageTrust
