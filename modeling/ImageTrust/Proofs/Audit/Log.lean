import ImageTrust.Audit.Log
import ImageTrust.Proofs.Files.Appending
import ImageTrust.Proofs.Json.Printable
import ImageTrust.Proofs.Json.Value

/-!
What a log holds after a run. Every event adds one line behind what was there, and whatever texts it
carries, they cannot end the line early or add to its members. The invariant of a run is that the file
holds its former content and then the lines of all events so far.
-/

namespace ImageTrust.AuditLog

open AuditEvent (textOrNull)

/-- The lines of a file that are ended. -/
def endedLines (content : Octets) : List Octets :=
  (content.splitOn 0x0a).dropLast

/-- Nothing stands behind the last end of a line. -/
def IsEnded (content : Octets) : Prop :=
  content = [] ∨ content.getLast? = some 0x0a

/-- The members of the record of an event. -/
def recordMembers (milliseconds : Nat) : AuditEvent → List (String × Json)
  | .flavor flavorId outcome certificate reason =>
    [("event", .str "flavor_verification"), ("timestamp_ms", .int milliseconds),
      ("flavor_id", .str flavorId), ("outcome", .str outcome.name),
      ("certificate", textOrNull certificate), ("reason", textOrNull reason)]
  | .key hardwareUuid keyId outcome reason =>
    [("event", .str "key_release"), ("timestamp_ms", .int milliseconds),
      ("hardware_uuid", .str hardwareUuid), ("key_id", textOrNull keyId),
      ("outcome", .str outcome.name), ("reason", textOrNull reason)]

/-- A text is a single line that is read as one object, whose members are those of the event. -/
structure IsRecord (milliseconds : Nat) (e : AuditEvent) (line : String) : Prop where
  unbroken : ∀ c ∈ line.toList, 0x20 ≤ c.toNat
  read : Json.ofOctets? (Text.encode line) = some (.obj (recordMembers milliseconds e))

/-- The lines of events, the first of which is recorded as the one with number `start`. -/
def linesFrom (stamp : Nat → Nat) (start : Nat) (events : List AuditEvent) : List String :=
  (events.zipIdx start).map fun (e, n) => e.line (stamp n)

/-- Lines as they stand in a file, each with its end. -/
def framed (lines : List String) : Octets :=
  lines.flatMap fun line => Text.encode line ++ [0x0a]

section Lines

variable {content : Octets} {line : String} {lines : List String}

theorem isRecord_line (milliseconds : Nat) (e : AuditEvent) :
    IsRecord milliseconds e (e.line milliseconds) where
  unbroken := by
    rw [AuditEvent.line, Json.compact, String.toList_ofList]
    exact Json.printable_render _
  read := by
    rw [AuditEvent.line, Json.ofOctets?_encode, Json.ofText?_compact]
    cases e <;> rfl

theorem newline_not_mem_encode (h : ∀ c ∈ line.toList, 0x20 ≤ c.toNat) : 0x0a ∉ Text.encode line :=
  fun hm => absurd (h '\n' (Text.mem_of_octet (by decide) hm)) (by decide)

theorem framed_cons (line : String) (lines : List String) :
    framed (line :: lines) = Text.encode line ++ 0x0a :: framed lines := by
  rw [framed, List.flatMap_cons, List.append_assoc]
  rfl

theorem framed_append (lines more : List String) : framed (lines ++ more) = framed lines ++ framed more :=
  List.flatMap_append

theorem splitOn_framed (h : ∀ line ∈ lines, ∀ c ∈ line.toList, 0x20 ≤ c.toNat) :
    (framed lines).splitOn 0x0a = lines.map Text.encode ++ [[]] := by
  induction lines with
  | nil => rfl
  | cons line lines ih =>
    obtain ⟨hline, hlines⟩ := List.forall_mem_cons.1 h
    rw [framed_cons, List.splitOn_append_cons_self,
      List.splitOn_eq_singleton (newline_not_mem_encode hline),
      ih hlines]
    rfl

/-- Lines behind what is ended are its lines and then these. -/
theorem endedLines_append_framed (hended : IsEnded content)
    (h : ∀ line ∈ lines, ∀ c ∈ line.toList, 0x20 ≤ c.toNat) :
    endedLines (content ++ framed lines) = endedLines content ++ lines.map Text.encode := by
  unfold endedLines
  obtain rfl | hlast := hended
  · rw [List.nil_append, splitOn_framed h, List.dropLast_concat]
    rfl
  · obtain ⟨front, rfl⟩ := List.getLast?_eq_some_iff.1 hlast
    have hends : (front ++ [0x0a]).splitOn 0x0a = front.splitOn 0x0a ++ [[]] := by
      rw [List.splitOn_append_cons_self]
      rfl
    rw [hends, List.append_assoc, List.singleton_append, List.splitOn_append_cons_self,
      splitOn_framed h, ← List.append_assoc, List.dropLast_concat, List.dropLast_concat]

end Lines

section Runs

variable {path : String} {stamp : Nat → Nat} {lifetime : Int} {former : Octets}
  {recorded : List AuditEvent} {s : State}

/-- A log holds its former content and the lines of the events that were recorded, and more can be
added. -/
structure Holds (path : String) (stamp : Nat → Nat) (former : Octets) (recorded : List AuditEvent)
    (s : State) : Prop where
  count : s.recorded = recorded.length
  content : s.files.Writable path (former ++ framed (linesFrom stamp 0 recorded))

theorem linesFrom_concat (stamp : Nat → Nat) (events : List AuditEvent) (e : AuditEvent) :
    linesFrom stamp 0 (events ++ [e]) = linesFrom stamp 0 events ++ [e.line (stamp events.length)] := by
  simp [linesFrom, List.zipIdx_append]

theorem octets_singleton (milliseconds : Nat) (e : AuditEvent) :
    AuditSink.octets milliseconds [e] = framed [e.line milliseconds] := by
  have hend : Text.encode "\n" = [0x0a] := by decide +kernel
  simp only [AuditSink.octets, framed, List.flatMap_singleton, Text.encode_append, hend]

/-- One event adds its line. -/
theorem Holds.record (h : Holds path stamp former recorded s) (e : AuditEvent) :
    Holds path stamp former (recorded ++ [e]) (s.record (.file path) stamp e) := by
  obtain ⟨t', happend, hwritable⟩ :=
    h.content.append (AuditSink.octets (stamp s.recorded) [e])
  refine ⟨?_, ?_⟩
  · rw [List.length_append, ← h.count]
    rfl
  · change (AuditSink.record (.file path) (stamp s.recorded) [e] s.files).Writable path _
    rw [AuditSink.record, happend, linesFrom_concat, framed_append, ← List.append_assoc, ← h.count,
      ← octets_singleton]
    exact hwritable

theorem Holds.records (h : Holds path stamp former recorded s) (events : List AuditEvent) :
    Holds path stamp former (recorded ++ events) (events.foldl (State.record (.file path) stamp) s) := by
  induction events generalizing recorded s with
  | nil => rwa [List.append_nil]
  | cons e events ih =>
    rw [List.append_cons]
    exact ih (h.record e)

/-- An act adds the lines of its events. -/
theorem Holds.perform (h : Holds path stamp former recorded s) (a : Act) :
    Holds path stamp former (recorded ++ a.events lifetime s.cache)
      (s.perform (.file path) lifetime stamp a) :=
  ⟨(h.records _).count, (h.records _).content⟩

theorem Holds.run (h : Holds path stamp former recorded s) (acts : List Act) :
    Holds path stamp former (recorded ++ trail lifetime s.cache acts)
      (s.run (.file path) lifetime stamp acts) := by
  induction acts generalizing recorded s with
  | nil => rwa [trail, List.append_nil]
  | cons a acts ih =>
    rw [trail, ← List.append_assoc]
    exact ih (h.perform a)

theorem isRecord_linesFrom (stamp : Nat → Nat) (events : List AuditEvent) :
    List.Forall₂ (fun (p : AuditEvent × Nat) line => IsRecord (stamp p.2) p.1 line) events.zipIdx
      (linesFrom stamp 0 events) := by
  rw [linesFrom, List.forall₂_map_right_iff, List.forall₂_same]
  exact fun p _ => isRecord_line _ _

/-- A log that was opened has the former content of its file, or none. After a run it has a line behind
that for each event, in the order of recording, and each line is a record of its event. -/
theorem log_one_line_each {t opened : FileTree} (lifetime : Int) (stamp : Nat → Nat)
    (cache : KeyCache) (acts : List Act)
    (hopened : (AuditSink.file path).prepare t = .ok opened)
    (hformer : opened.entry path = .ok (.file former)) (hended : IsEnded former) :
    (t.entry path = .ok (.file former) ∨ t.entry path = .error .notFound ∧ former = [])
    ∧ ∃ content lines,
      (State.run (.file path) lifetime stamp ⟨cache, 0, opened⟩ acts).files.entry path
        = .ok (.file content)
      ∧ content = former ++ framed lines
      ∧ endedLines content = endedLines former ++ lines.map Text.encode
      ∧ List.Forall₂ (fun (p : AuditEvent × Nat) line => IsRecord (stamp p.2) p.1 line)
        (trail lifetime cache acts).zipIdx lines := by
  obtain ⟨old, hwritable, hkept⟩ := FileTree.writable_of_append hopened
  rw [List.append_nil] at hwritable
  obtain rfl : old = former := FileEntry.file.inj (ok_unique hwritable.entry hformer)
  have hbegin : Holds path stamp old [] ⟨cache, 0, opened⟩ := by
    refine ⟨rfl, ?_⟩
    rwa [linesFrom, List.zipIdx_nil, List.map_nil, framed, List.flatMap_nil, List.append_nil]
  have hrun : Holds path stamp old (trail lifetime cache acts)
      (State.run (.file path) lifetime stamp ⟨cache, 0, opened⟩ acts) := hbegin.run acts
  refine ⟨hkept, _, _, hrun.content.entry, rfl, ?_, isRecord_linesFrom stamp _⟩
  refine endedLines_append_framed hended fun line hline => ?_
  obtain ⟨⟨e, n⟩, -, rfl⟩ := List.mem_map.1 hline
  exact (isRecord_line _ e).unbroken

/-- A tree with a log that has a line in it, which may be added to but not read. -/
def noteLog : FileTree where
  root := .directory [("var", .directory [("log", .file (Text.encode "note\n"))])]
  here := []
  refuses := fun use names => if use = .read && names = ["var", "log"] then some .denied else none

/-- Peers that answer nothing. -/
def silentPeers : Release.Peers where
  attest := fun _ => .error (.transport (some "down\n"))
  roots := .error (.empty "cas")
  isSigned := fun _ _ => false
  transfer := fun _ _ _ _ => .error (.transport none)

/-- A host with an end of line and a quote in its name. -/
def crookedRequest : Release.Request where
  peers := silentPeers
  now := 0
  host := "host\n\"x"
  target := .url "https://kbs/\n"

/-- The refusal of the request puts the host's name on record twice. -/
def crookedEvent : AuditEvent :=
  .key "host\n\"x" none .denied (some "invalid hardware uuid: host\n\"x")

theorem crookedRequest_trail :
    trail 300 KeyCache.empty [.gate (.request crookedRequest)] = [crookedEvent] := by
  decide +kernel

theorem crooked_host_one_line : ∃ opened,
    (AuditSink.file "/var/log").prepare noteLog = .ok opened
      ∧ opened.entry "/var/log" = .ok (.file (Text.encode "note\n")) ∧ IsEnded (Text.encode "note\n")
      ∧ ∃ line, (State.run (.file "/var/log") 300 (fun _ => 7) ⟨KeyCache.empty, 0, opened⟩
          [.gate (.request crookedRequest)]).files.entry "/var/log"
            = .ok (.file (Text.encode "note\n" ++ framed [line]))
        ∧ endedLines (Text.encode "note\n" ++ framed [line]) = [Text.encode "note", Text.encode line]
        ∧ IsRecord 7 crookedEvent line := by
  have hnote : noteLog.Writable "/var/log" (Text.encode "note\n") := by
    have hparts : FileTree.components "/var/log" = ["var", "log"] := by decide +kernel
    have hstart : noteLog.start "/var/log" = [] := by decide +kernel
    exact ⟨["var", "log"],
      FileTree.locate_of_walk (by decide +kernel) hstart rfl hparts rfl, rfl⟩
  have hended : IsEnded (Text.encode "note\n") := .inr (by decide +kernel)
  have hlines : endedLines (Text.encode "note\n") = [Text.encode "note"] := by decide +kernel
  obtain ⟨opened, hopened, hwritable⟩ := hnote.append []
  rw [List.append_nil] at hwritable
  obtain ⟨-, content, lines, hcontent, rfl, hsplit, hrecords⟩ :=
    log_one_line_each 300 (fun _ => 7) KeyCache.empty [.gate (.request crookedRequest)] hopened
      hwritable.entry hended
  rw [crookedRequest_trail] at hrecords
  cases hrecords with
  | cons hrecord hnone =>
    cases hnone
    refine ⟨opened, hopened, hwritable.entry, hended, _, hcontent, ?_, hrecord⟩
    rw [hsplit, hlines]
    rfl

end Runs

end ImageTrust.AuditLog
