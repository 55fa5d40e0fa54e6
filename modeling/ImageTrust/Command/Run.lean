import ImageTrust.Command.Arguments
import ImageTrust.Release.Gate
import ImageTrust.Assertion.Signer
import ImageTrust.Service.Broker
import ImageTrust.Trust.Evaluation

/-!
What the program does with its arguments. A command succeeds or it fails with a line on the error
output; only a report on an untrusted instance is both printed and a failure. Events and errors share
the error output, events first.
-/

namespace ImageTrust.Command

/-- What a command works with. Events are stamped with `stamp`, in milliseconds. -/
structure World where
  files : FileTree
  environment : String → Option String
  transport : Transport
  pki : X509.Pki
  now : Instant
  stamp : Nat

/-- What a command leaves behind: its exit code, what it printed, the files, and the requests with the
clients that sent them. -/
structure Outcome where
  code : Nat
  output : String
  errors : String
  files : FileTree
  requests : List (HttpClient × HttpRequest)

def versionText : String := "workload-trust 0.1.0"

/-- The most octets a manifest or a flavor may have. -/
def inputLimit : Nat := 1048576

/-- Why a command fails. -/
inductive Fault where
  | config (fault : Config.Fault)
  | setting (fault : Config.Fault)
  | unreadable (kind path : String) (cause : IoFault)
  | tooLarge (kind path : String) (size : Nat)
  | malformed (kind path : String)
  | input (fault : Evaluation.InputFault)
  | client (fault : TransportFault)
  | release (fault : Release.Fault)
  deriving DecidableEq, Repr

def Fault.message : Fault → String
  | .config fault => s!"failed to load config: {fault.message}"
  | .setting fault => fault.message
  | .unreadable kind path cause => s!"failed to read {kind} {path}: {cause.message}"
  | .tooLarge kind path size =>
    s!"failed to read {kind} {path}: size {size} exceeds limit {inputLimit}"
  | .malformed kind path => s!"failed to parse {kind} {path}"
  | .input fault => s!"verification rejected input: {fault.message}"
  | .client fault =>
    "attestation client setup failed: "
      ++ (ServiceFault.transport fault.reason?).message .attestation
  | .release fault => s!"key release failed: {fault.message}"

def readDocument {α : Type} (t : FileTree) (d : Json.Decoder α) (kind path : String) :
    Except Fault α := do
  -- the file is open before its size is asked for
  let _ ← (t.take .read path).mapError (.unreadable kind path)
  let size ← (t.size path).mapError (.unreadable kind path)
  if size > inputLimit then throw (.tooLarge kind path size)
  let content ← (t.read path).mapError (.unreadable kind path)
  (Json.decodeOctets d content).mapError fun _ => .malformed kind path

/-- What was done before a command ended: the events, where they went, and the requests. -/
structure Deeds where
  sink : AuditSink
  files : FileTree
  events : List AuditEvent
  requests : List (HttpClient × HttpRequest)

/-- Nothing done yet. -/
def Deeds.none (t : FileTree) : Deeds :=
  ⟨.nowhere, t, [], []⟩

/-- How a command ended: with the line it prints and whether it counts as success, or with a fault. -/
structure Ending where
  deeds : Deeds
  answer : Except Fault (Json × Bool)

/-- The events as they stand on the error output. -/
def errorLines (w : World) (d : Deeds) : String :=
  match d.sink with
  | .standardError => String.join (d.events.map fun e => e.line w.stamp ++ "\n")
  | _ => ""

def Ending.outcome (w : World) (e : Ending) : Outcome :=
  let files := e.deeds.sink.record w.stamp e.deeds.events e.deeds.files
  match e.answer with
  | .ok (line, success) =>
    ⟨if success then 0 else 1, line.compact ++ "\n", errorLines w e.deeds, files, e.deeds.requests⟩
  | .error fault =>
    ⟨1, "", errorLines w e.deeds ++ fault.message ++ "\n", files, e.deeds.requests⟩

/-- Judges the instance of a manifest by a flavor. -/
def judge (w : World) (c : Config) (manifest flavor : String) : Ending :=
  let inputs := do
    let m ← readDocument w.files Manifest.decoder "manifest" manifest
    let f ← readDocument w.files SignedFlavor.decoder "flavor" flavor
    let (sink, files) ← (c.audit.open w.files).mapError Fault.setting
    return (m, f, sink, files)
  match inputs with
  | .error fault => ⟨.none w.files, .error fault⟩
  | .ok (m, f, sink, files) =>
    let v := c.verification
    let judged :=
      Evaluation.evaluate w.pki files w.now ⟨v.signersPath, v.authoritiesPath⟩ v.skipSignature m f
    let answer := match judged.answer with
      | .error fault => .error (.input fault)
      | .ok report => .ok (report.toJson, report.trusted)
    ⟨⟨sink, files, judged.events, []⟩, answer⟩

/-- A gate that is ready to release keys. -/
structure Gate where
  settings : Config.GateSettings
  attestation : AttestationClient
  brokerPolicy : HttpPolicy
  sink : AuditSink
  files : FileTree

def openGate (w : World) (c : Config) : Except Fault Gate := do
  let settings ← c.gateSettings.mapError fun o => Fault.setting (.invalid o)
  let policy := match c.keyRelease with
    | some k => k.limits.policy
    | none => HttpPolicy.standard
  let client ← (c.clientSettings w.pki w.files w.environment).mapError
    fun o => Fault.setting (.invalid o)
  let attestation ← (AttestationClient.ofSettings w.transport client).mapError Fault.client
  let (sink, files) ← (c.audit.open w.files).mapError Fault.setting
  return ⟨settings, attestation, policy, sink, files⟩

def Gate.peers (g : Gate) (w : World) : Release.Peers where
  attest := g.attestation.fetch w.transport
  roots := Bundle.roots w.pki g.files g.settings.authorities
  isSigned := fun report roots =>
    (Assertion.verifySigner w.pki g.files w.now g.settings.authorityFile roots report).toBool
  transfer := Broker.transfer g.brokerPolicy w.transport

/-- The request that a call makes, and the client that sends it. -/
def Gate.requestOf (g : Gate) (w : World) : Release.Call → Option (HttpClient × HttpRequest)
  | .attest host => (g.attestation.request host).toOption.map fun r => (g.attestation.http, r)
  | .isSigned .. => none
  | .transfer broker roots id report =>
    (Broker.prepare w.transport g.brokerPolicy broker roots id report).toOption

def keyLine (octets : Octets) : Json :=
  .obj [("key", .str (Base64.encode octets))]

def Gate.ending (g : Gate) (w : World) (o : Release.Outcome) : Ending where
  deeds := ⟨g.sink, g.files, [o.event], o.calls.filterMap (g.requestOf w)⟩
  answer := match o.answer with
    | .ok octets => .ok (keyLine octets, true)
    | .error fault => .error (.release fault)

/-- Releases the key at a URL to a host. -/
def releaseKey (w : World) (c : Config) (host url : String) : Ending :=
  match openGate w c with
  | .error fault => ⟨.none w.files, .error fault⟩
  | .ok g =>
    g.ending w (Release.transferKey (g.peers w) g.settings.lifetime w.now KeyCache.empty host url)

/-- Releases the key of a flavor's image to a host. -/
def releaseFlavorKey (w : World) (c : Config) (flavor host : String) : Ending :=
  let inputs := do
    let f ← readDocument w.files SignedFlavor.decoder "flavor" flavor
    return (f, ← openGate w c)
  match inputs with
  | .error fault => ⟨.none w.files, .error fault⟩
  | .ok (f, g) =>
    g.ending w
      (Release.flavorKey (g.peers w) g.settings.lifetime w.now KeyCache.empty host f.flavor)

/-- What there is to say about a configuration that was loaded. -/
def configLine (c : Config) : Json :=
  .obj [("valid", .bool true),
    ("key_release_enabled", .bool (c.attestation.isSome && c.keyRelease.isSome))]

def perform (w : World) (config : Option String) (command : Command) : Ending :=
  match Config.load w.files w.environment config with
  | .error fault => ⟨.none w.files, .error (.config fault)⟩
  | .ok c =>
    match command with
    | .verify manifest flavor => judge w c manifest flavor
    | .transferKey host url => releaseKey w c host url
    | .flavorKey flavor host => releaseFlavorKey w c flavor host
    | .checkConfig => ⟨.none w.files, .ok (configLine c, true)⟩

def run (w : World) (args : List String) : Outcome :=
  match readArguments args with
  | none => ⟨2, "", "", w.files, []⟩
  | some .version => ⟨0, versionText ++ "\n", "", w.files, []⟩
  | some (.run config command) => (perform w config command).outcome w

end ImageTrust.Command
