import Mcproc.Api.StderrTail
import Mcproc.Process.ReadyResult
import Mcproc.Rpc.Encode

namespace ToolResults

open GetLogs (LogFile)
open Grep (Timestamp)
open LogSources (processInfoLogFile)
open ReadyChannel (StreamName matchedText)
open ReadyResult (Returned)
open Rpc (Value optionMember)
open StderrTail (extractStderrTail)

structure ProcessInfo where
  id : String
  name : String
  cmd : String
  cwd : String
  status : Int
  startTime : Option Timestamp
  pid : Option Nat
  logFile : String
  project : String
  ports : List Nat
  waitTimeoutOccurred : Option Bool
  exitCode : Option Int
  exitReason : Option String
  stderrTail : Option String
  logContext : List String
  matchedLine : Option String
  deriving DecidableEq, Repr

def convertProcessStatus : ProcessStatus → Int
  | .starting => 1
  | .running => 2
  | .stopping => 3
  | .stopped => 4
  | .failed => 5

def formatStatus (status : Int) : String :=
  if status = 1 then "Starting"
  else if status = 2 then "Running"
  else if status = 3 then "Stopping"
  else if status = 4 then "Stopped"
  else if status = 5 then "Failed"
  else "Unknown"

def formatExitReason (exitCode : Int) : String :=
  if exitCode = 0 then "Process exited normally"
  else if exitCode = 1 then "General error"
  else if exitCode = 2 then "Misuse of shell builtin"
  else if exitCode = 126 then "Command cannot execute"
  else if exitCode = 127 then "Command not found"
  else if 128 < exitCode then "Terminated by signal " ++ toString (exitCode - 128)
  else "Unknown error"

-- What `create_process_info` reads besides the fields that never change and the status. A lock
-- that another task holds reads as none.
structure Reading where
  cwd : Option String
  startTime : Timestamp
  port : Option Nat
  detectedPort : Option (Option Nat)
  exitCode : Option (Option Int)
  log : LogFile
  deriving DecidableEq, Repr

def extractPorts (v : Reading) : List Nat :=
  match v.port with
  | some port => [port]
  | none => (v.detectedPort.getD none).toList

def extractExitDetails (v : Reading) : Option Int × Option String × Option String :=
  match v.exitCode with
  | some (some code) => (some code, some (formatExitReason code), some (extractStderrTail v.log))
  | some none | none => (none, none, none)

section
variable (p : ProxyInfo) (logDir : UnixPath)

def createProcessInfo (status : ProcessStatus) (v : Reading) (timeoutOccurred : Option Bool)
    (logContext : List String) (matchedLine : Option String) : ProcessInfo :=
  let (exitCode, exitReason, stderrTail) :=
    if status = .failed then extractExitDetails v else (none, none, none)
  { id := p.id
    name := p.name
    cmd := p.cmd.getD ""
    cwd := v.cwd.getD ""
    status := convertProcessStatus status
    startTime := some v.startTime
    pid := some p.pid
    logFile := processInfoLogFile p logDir
    project := p.project
    ports := extractPorts v
    waitTimeoutOccurred := if p.waitForLog.isSome then timeoutOccurred else none
    exitCode := exitCode
    exitReason := exitReason
    stderrTail := stderrTail
    logContext := logContext
    matchedLine := matchedLine }

end

def natValue (n : Nat) : Value := .number (.posInt (UInt64.ofNat n))

-- What the tools use of other crates: a time as RFC 3339, and the bytes without escape codes.
structure Render where
  rfc3339 : Timestamp → String
  strip : List UInt8 → List UInt8

section
variable (render : Render) (info : ProcessInfo)

def cleaned (line : String) : Value :=
  .string (String.ofList (Utf8.fromUtf8Lossy (render.strip (Utf8.encode line))))

def baseMembers : List (String × Value) :=
  [("id", .string info.id),
   ("project", .string info.project),
   ("name", .string info.name),
   ("pid", (info.pid.map natValue).getD .null),
   ("status", .string (formatStatus info.status)),
   ("log_file", .string info.logFile),
   ("start_time", (info.startTime.map fun t => .string (render.rfc3339 t)).getD .null),
   ("ports", .array (info.ports.map natValue))]

def exitMembers : List (String × Value) :=
  if info.status = convertProcessStatus .failed then
    optionMember "exit_code" (info.exitCode.map fun code => .ofInt64 (Int64.ofInt code)) ++
      optionMember "exit_reason" (info.exitReason.map .string) ++
      optionMember "stderr_tail" (info.stderrTail.map .string)
  else []

def contextMembers : List (String × Value) :=
  if info.logContext = [] then [] else [("log_context", .array (info.logContext.map (cleaned render)))]

def lineMembers : List (String × Value) :=
  optionMember "matched_line" (info.matchedLine.map (cleaned render))

def timeoutMembers (message : String) : List (String × Value) :=
  if info.waitTimeoutOccurred = some true then
    [("wait_timeout_occurred", .bool true), ("message", .string message)]
  else []

def matchMembers (message : String) : List (String × Value) :=
  [("pattern_matched", .bool true), ("message", .string message)]

def startResult (waitForLogFlag : Bool) : Value :=
  .object (baseMembers render info ++ exitMembers info ++
    timeoutMembers info "Process started but wait_for_log pattern was not found within timeout" ++
    contextMembers render info ++ lineMembers render info ++
    if waitForLogFlag ∧ info.status = convertProcessStatus .running then
      if info.waitTimeoutOccurred.getD false = false ∧ info.matchedLine.isSome then
        matchMembers "Process started successfully. Pattern matched in logs."
      else []
    else [])

def restartResult : Value :=
  .object (baseMembers render info ++ exitMembers info ++ contextMembers render info ++
    lineMembers render info ++
    timeoutMembers info
      "Process restarted but wait_for_log pattern was not found within timeout" ++
    if info.waitTimeoutOccurred = some false then
      matchMembers "Process restarted successfully. Pattern matched in logs."
    else [])

end

def ReportsMatch (v : Value) : Prop := v.get "pattern_matched" = some (.bool true)

def Silent (members : List (String × Value)) : Prop := ∀ m ∈ members, m.1 ≠ "pattern_matched"

theorem Silent.append {xs ys : List (String × Value)} (hx : Silent xs) (hy : Silent ys) :
    Silent (xs ++ ys) := fun m hm => (List.mem_append.mp hm).elim (hx m) (hy m)

theorem silent_option {name : String} (h : name ≠ "pattern_matched") (v : Option Value) :
    Silent (optionMember name v) := by
  intro m hm
  simp only [optionMember, List.mem_map] at hm
  obtain ⟨a, -, rfl⟩ := hm
  exact h

theorem silent_base (render : Render) (info : ProcessInfo) : Silent (baseMembers render info) := by
  simp [Silent, baseMembers]

theorem silent_exit (info : ProcessInfo) : Silent (exitMembers info) := by
  simp only [exitMembers]
  split
  · exact ((silent_option (by decide) _).append (silent_option (by decide) _)).append
      (silent_option (by decide) _)
  · exact fun m hm => absurd hm List.not_mem_nil

theorem silent_context (render : Render) (info : ProcessInfo) :
    Silent (contextMembers render info) := by
  simp only [contextMembers]
  split <;> simp [Silent]

theorem silent_line (render : Render) (info : ProcessInfo) : Silent (lineMembers render info) :=
  silent_option (by decide) _

theorem silent_timeout (info : ProcessInfo) (message : String) :
    Silent (timeoutMembers info message) := by
  simp only [timeoutMembers]
  split <;> simp [Silent]

theorem get_object (members : List (String × Value)) (name : String) :
    (Value.object members).get name = (members.reverse.find? (·.1 = name)).map Prod.snd := rfl

theorem reports_iff {xs : List (String × Value)} (hx : Silent xs) (c : Prop) [Decidable c]
    (message : String) :
    ReportsMatch (.object (xs ++ if c then matchMembers message else [])) ↔ c := by
  have hnone : xs.reverse.find? (·.1 = "pattern_matched") = none := by
    refine List.find?_eq_none.mpr fun m hm => ?_
    simpa using hx m (List.mem_reverse.mp hm)
  rw [ReportsMatch, get_object, List.reverse_append, List.find?_append, hnone, Option.or_none]
  split
  · next h => exact ⟨fun _ => h, fun _ => rfl⟩
  · next h => exact ⟨fun hf => (by cases hf), fun hc => absurd hc h⟩

theorem restart_reports_iff (render : Render) (info : ProcessInfo) :
    ReportsMatch (restartResult render info) ↔ info.waitTimeoutOccurred = some false :=
  reports_iff ((((silent_base render info).append (silent_exit info)).append
    (silent_context render info)).append (silent_line render info) |>.append
    (silent_timeout info _)) _ _

theorem start_reports_iff (render : Render) (info : ProcessInfo) (waitForLogFlag : Bool) :
    ReportsMatch (startResult render info waitForLogFlag) ↔
      (waitForLogFlag = true ∧ info.status = convertProcessStatus .running) ∧
        info.waitTimeoutOccurred.getD false = false ∧ info.matchedLine.isSome = true := by
  have hif : (if waitForLogFlag = true ∧ info.status = convertProcessStatus .running then
      if info.waitTimeoutOccurred.getD false = false ∧ info.matchedLine.isSome = true then
        matchMembers "Process started successfully. Pattern matched in logs."
      else []
    else []) =
      if (waitForLogFlag = true ∧ info.status = convertProcessStatus .running) ∧
        info.waitTimeoutOccurred.getD false = false ∧ info.matchedLine.isSome = true then
        matchMembers "Process started successfully. Pattern matched in logs."
      else [] := (ite_and ..).symm
  rw [startResult, hif]
  exact reports_iff ((((silent_base render info).append (silent_exit info)).append
    (silent_timeout info _)).append (silent_context render info) |>.append
    (silent_line render info)) _ _

structure State where
  result : ReadyResult.State
  status : ProcessStatus
  info : Option ProcessInfo

def State.initial : State := ⟨.initial, .starting, none⟩

-- The monitor, the sync and the stop of another call set the status at any time.
inductive Action where
  | result (a : ReadyResult.Action)
  | setStatus (status : ProcessStatus)
  | respond (v : Reading)
  deriving DecidableEq

def enabled (s : State) : Action → Prop
  | .result a => ReadyResult.enabled s.result a
  | .setStatus _ => True
  | .respond _ => s.result.returned.isSome ∧ s.info = none

section
variable (isMatch : String → Bool) (waitTimeout : Nat) (p : ProxyInfo) (logDir : UnixPath)

-- `start_process_with_log_stream` returns an empty log context.
def next (s : State) : Action → State
  | .result a => { s with result := ReadyResult.next isMatch waitTimeout s.result a }
  | .setStatus status => { s with status := status }
  | .respond v =>
    { s with
      info := s.result.returned.map fun r =>
        createProcessInfo p logDir s.status v (some r.timeoutOccurred) [] r.matchedLine }

def machine : Machine State Action where
  init := .initial
  enabled := enabled
  next := next isMatch waitTimeout p logDir

instance (s : State) (a : Action) :
    Decidable ((machine isMatch waitTimeout p logDir).enabled s a) := by
  cases a with
  | result a =>
    exact inferInstanceAs
      (Decidable ((ReadyResult.machine isMatch waitTimeout).enabled s.result a))
  | setStatus status => exact isTrue trivial
  | respond v => exact inferInstanceAs (Decidable (_ ∧ _))

structure Justified (info : ProcessInfo) (c : ReadyChannel.State) : Prop where
  running : info.status = convertProcessStatus .running
  matched : c.LineMatched isMatch

-- What the two tools say of one ProcessInfo; `wait_for_log` is in effect where the process has it.
structure Honest (render : Render) (info : ProcessInfo) (c : ReadyChannel.State) : Prop where
  start : ReportsMatch (startResult render info p.waitForLog.isSome) → Justified isMatch info c
  restart : ReportsMatch (restartResult render info) → Justified isMatch info c
  agree : ReportsMatch (startResult render info p.waitForLog.isSome) ↔
    ReportsMatch (restartResult render info)

-- What has to hold where the code goes wrong: the wait ends with a match or when the timer has fired,
-- a process whose line has matched is Running when it is reported, and the rest of a torn line
-- matches only when the line does.
def Settled (s : State) : Action → Prop
  | .result (.channel (.wake outcome _)) =>
    outcome = .matched ∨ s.result.channel.timeoutOccurred = true
  | .result (.channel (.record k r _ _)) =>
    s.result.collectedMatchedLine = none → r.forced = false →
      s.result.channel.patternMatched = false → (matchedText isMatch r.content).isSome →
        (matchedText isMatch ((s.result.channel.stream k).wholeLine r)).isSome
  | .respond _ => s.result.channel.call = .ended .matched → s.status = .running
  | _ => True

instance (s : State) (a : Action) : Decidable (Settled isMatch s a) := by
  cases a with
  | result a =>
    apply ReadyResult.Action.casesOn (motive := fun a => Decidable (Settled isMatch s (.result a))) a
    · intro a
      apply ReadyChannel.Action.casesOn
        (motive := fun a => Decidable (Settled isMatch s (.result (.channel a)))) a <;> intros <;>
        dsimp only [Settled] <;> infer_instance
    · exact fun _ => isTrue trivial
    · exact isTrue trivial
    · exact isTrue trivial
  | setStatus status => exact isTrue trivial
  | respond v =>
    dsimp only [Settled]
    infer_instance

end

variable {isMatch : String → Bool} {waitTimeout : Nat} {p : ProxyInfo} {logDir : UnixPath}
  {render : Render} {s : State}

section
variable {status : ProcessStatus} {v : Reading} {timedOut : Bool} {context : List String}
  {line : Option String}

theorem convert_running : convertProcessStatus status = convertProcessStatus .running ↔
    status = .running := by
  cases status <;> decide

theorem restart_reports_info :
    ReportsMatch (restartResult render
      (createProcessInfo p logDir status v (some timedOut) context line)) ↔
        p.waitForLog.isSome = true ∧ timedOut = false := by
  rw [restart_reports_iff]
  simp only [createProcessInfo]
  cases p.waitForLog.isSome <;> simp

theorem start_reports_info :
    ReportsMatch (startResult render
      (createProcessInfo p logDir status v (some timedOut) context line) p.waitForLog.isSome) ↔
        (p.waitForLog.isSome = true ∧ timedOut = false) ∧ status = .running ∧
          line.isSome = true := by
  rw [start_reports_iff]
  simp only [createProcessInfo, convert_running]
  cases p.waitForLog.isSome
  · simp
  · simp [and_left_comm]

end

theorem Justified.mono {info : ProcessInfo} {c c' : ReadyChannel.State}
    (hc : c.LineMatched isMatch → c'.LineMatched isMatch) (h : Justified isMatch info c) :
    Justified isMatch info c' := ⟨h.running, hc h.matched⟩

theorem Honest.mono {info : ProcessInfo} {c c' : ReadyChannel.State}
    (hc : c.LineMatched isMatch → c'.LineMatched isMatch) (h : Honest isMatch p render info c) :
    Honest isMatch p render info c' :=
  ⟨fun hr => (h.start hr).mono hc, fun hr => (h.restart hr).mono hc, h.agree⟩

theorem honest_createProcessInfo {c : ReadyChannel.State} {status : ProcessStatus} {v : Reading}
    {timedOut : Bool} {context : List String} {line : Option String}
    (hline : line.isSome → c.LineMatched isMatch)
    (hc : timedOut = true ∨ status = .running ∧ line.isSome = true) :
    Honest isMatch p render
      (createProcessInfo p logDir status v (some timedOut) context line) c := by
  have hjustified (hfalse : timedOut = false) :
      Justified isMatch (createProcessInfo p logDir status v (some timedOut) context line) c := by
    rcases hc with ht | ⟨hs, hl⟩
    · cases hfalse.symm.trans ht
    · exact ⟨convert_running.mpr hs, hline hl⟩
  refine ⟨fun hr => hjustified (start_reports_info.mp hr).1.2,
    fun hr => hjustified (restart_reports_info.mp hr).2, ?_⟩
  rw [start_reports_info, restart_reports_info]
  refine ⟨And.left, fun hw => ⟨hw, ?_⟩⟩
  exact hc.resolve_left fun ht => by cases hw.2.symm.trans ht

def notifies : ReadyChannel.Phase → Bool
  | .notify _ _ => true
  | _ => false

theorem notifies_idle {phase : ReadyChannel.Phase} (h : phase.idle = true) :
    notifies phase = false := by
  cases phase with
  | notify todo after => cases h
  | _ => rfl

theorem notifies_afterRecord (isMatch : String → Bool) (matched : Bool) (r : HyperLog.Record)
    (todo : List HyperLog.Record) (after : ReadyChannel.After) :
    notifies (ReadyChannel.afterRecord isMatch matched r todo after) = false := by
  simp only [ReadyChannel.afterRecord]
  repeat' split
  all_goals rfl

def Answered (c : ReadyChannel.State) : ReadyChannel.WaitOutcome → Prop
  | .matched => c.matchedLine.isSome = true
  | .closed | .timedOut => c.timeoutOccurred = true

-- The line is stored before the call is told of it.
structure Told (c : ReadyChannel.State) : Prop where
  stored : ∀ k, notifies (c.stream k).phase = true → c.matchedLine.isSome = true
  sent : c.sent = true → c.matchedLine.isSome = true
  ended : ∀ outcome, c.call = .ended outcome → Answered c outcome

section
variable {c c' : ReadyChannel.State}

theorem Told.same (h : Told c) (hs : c'.stream = c.stream) (hl : c'.matchedLine = c.matchedLine)
    (ht : c'.timeoutOccurred = c.timeoutOccurred) (hn : c'.sent = c.sent)
    (hc : ∀ outcome, c'.call = .ended outcome → Answered c outcome) : Told c' where
  stored k hk := hl ▸ h.stored k (hs ▸ hk)
  sent hk := hl ▸ h.sent (hn ▸ hk)
  ended outcome hk := by
    have hanswered := hc outcome hk
    cases outcome with
    | matched => exact (congrArg Option.isSome hl).trans hanswered
    | closed | timedOut => exact ht.trans hanswered

theorem Told.put (h : Told c) {k : StreamName} {st : ReadyChannel.Streamer}
    (hst : notifies st.phase = true → c.matchedLine.isSome = true) : Told (c.put k st) where
  stored := ReadyChannel.put_cases
    (P := fun _ st => notifies st.phase = true → c.matchedLine.isSome = true) hst
    fun j _ => h.stored j
  sent := h.sent
  ended := h.ended

theorem Told.putQuiet (h : Told c) {k : StreamName} {st : ReadyChannel.Streamer}
    (hst : notifies st.phase = false) : Told (c.put k st) :=
  h.put fun hk => by cases hst.symm.trans hk

theorem told_step {a : ReadyChannel.Action} (h : Told c) (he : ReadyChannel.enabled c a)
    (hw : ∀ outcome deadline, a = .wake outcome deadline →
      outcome = .matched ∨ c.timeoutOccurred = true) :
    Told (ReadyChannel.next isMatch waitTimeout c a) := by
  cases a with
  | tick => exact h.same rfl rfl rfl rfl h.ended
  | spawnStderr =>
    exact (h.putQuiet (k := .stderr) rfl).same rfl rfl rfl rfl fun _ hk => by cases hk
  | wait => exact h.same rfl rfl rfl rfl fun _ hk => by cases hk
  | wake outcome deadline =>
    refine h.same rfl rfl rfl rfl fun outcome' hk => ?_
    cases hk
    have hwoken := he.2
    rcases hw outcome deadline rfl with rfl | ht
    · exact h.sent hwoken
    · cases outcome with
      | matched => exact h.sent hwoken
      | closed | timedOut => exact ht
  | read k chunk => exact h.put (h.stored k)
  | eof k => exact h.put (h.stored k)
  | start k => exact h.putQuiet rfl
  | guardMatched k =>
    refine h.putQuiet ?_
    split <;> rfl
  | guardTimeout k | fire k => exact h.putQuiet rfl
  | setTimeout k =>
    have htimed : Told { c with timeoutOccurred := true } := by
      refine ⟨h.stored, h.sent, fun outcome hk => ?_⟩
      have hanswered := h.ended outcome hk
      cases outcome with
      | matched => exact hanswered
      | closed | timedOut => rfl
    exact htimed.putQuiet rfl
  | closeOnTimeout k | close k =>
    have htaken : Told c.takeSender := h.same rfl rfl rfl rfl h.ended
    exact htaken.putQuiet rfl
  | recv k armed chunk rest => exact h.putQuiet (notifies_idle (ReadyChannel.Streamer.recv_idle ..))
  | batchTimeout k armed | recvNone k armed => exact h.putQuiet rfl
  | record k r todo after => exact h.putQuiet (notifies_afterRecord ..)
  | setMatched k text todo after =>
    have hmarked : Told { c with patternMatched := true } := h.same rfl rfl rfl rfl h.ended
    exact hmarked.putQuiet rfl
  | setLine k text todo after =>
    have hstored : Told { c with matchedLine := some text } := by
      refine ⟨fun _ _ => rfl, fun _ => rfl, fun outcome hk => ?_⟩
      have hanswered := h.ended outcome hk
      cases outcome with
      | matched => rfl
      | closed | timedOut => exact hanswered
    exact hstored.put fun _ => rfl
  | notify k todo after =>
    have hline : c.matchedLine.isSome = true :=
      h.stored k (by rw [show (c.stream k).phase = _ from he]; rfl)
    have hsent : Told c.send := ⟨h.stored, fun _ => hline, h.ended⟩
    exact hsent.putQuiet rfl
  | leave k after => exact h.putQuiet (notifies_idle (ReadyChannel.Streamer.leave_idle _ after))

theorem ended_next {a : ReadyChannel.Action} (he : ReadyChannel.enabled c a)
    {outcome : ReadyChannel.WaitOutcome} (hc : c.call = .ended outcome) :
    (ReadyChannel.next isMatch waitTimeout c a).call = .ended outcome := by
  cases a with
  | spawnStderr => cases hc.symm.trans he.1
  | wait => cases hc.symm.trans he
  | wake => cases hc.symm.trans he.1
  | _ => exact hc

end

-- What has been read of the channel agrees with how the wait ended.
structure Read (s : ReadyResult.State) : Prop where
  told : Told s.channel
  called : s.collectedMatchedLine.isSome = true → s.channel.Released
  line : ∀ l, s.collectedMatchedLine = some l → s.channel.call = .ended .matched →
    l.isSome = true
  timeout : ∀ t, s.timeoutOccurred = some t → s.collectedMatchedLine.isSome = true ∧
    ∀ outcome, s.channel.call = .ended outcome → outcome ≠ .matched → t = true

theorem read_initial : Read .initial where
  told := by
    refine ⟨fun k hk => ?_, fun hk => ?_, fun _ hk => ?_⟩
    · cases k <;> cases hk
    · cases hk
    · cases hk
  called h := by cases h
  line _ h := by cases h
  timeout _ h := by cases h

theorem answered_other {c : ReadyChannel.State} {outcome : ReadyChannel.WaitOutcome}
    (h : Answered c outcome) (hne : outcome ≠ .matched) : c.timeoutOccurred = true := by
  cases outcome with
  | matched => exact absurd rfl hne
  | closed | timedOut => exact h

theorem read_step {r : ReadyResult.State} {a : ReadyResult.Action} (h : Read r)
    (he : ReadyResult.enabled r a)
    (hw : ∀ outcome deadline, a = .channel (.wake outcome deadline) →
      outcome = .matched ∨ r.channel.timeoutOccurred = true) :
    Read (ReadyResult.next isMatch waitTimeout r a) := by
  cases a with
  | channel a =>
    have htold : Told (ReadyChannel.next isMatch waitTimeout r.channel a) :=
      told_step h.told he fun outcome deadline e => hw outcome deadline (congrArg _ e)
    have hcall {outcome : ReadyChannel.WaitOutcome} (hl : r.collectedMatchedLine.isSome = true)
        (hc : (ReadyChannel.next isMatch waitTimeout r.channel a).call = .ended outcome) :
        r.channel.call = .ended outcome := by
      obtain ⟨before, hbefore⟩ := h.called hl
      have hsame : (ReadyChannel.next isMatch waitTimeout r.channel a).call = .ended before :=
        ended_next he hbefore
      rw [hbefore, ← hsame, hc]
    refine ⟨htold, fun hl => ?_, fun l hl hc => ?_, fun t ht => ?_⟩
    · obtain ⟨outcome, hc⟩ := h.called hl
      exact ⟨outcome, ended_next he hc⟩
    · exact h.line l hl (hcall (Option.isSome_iff_exists.mpr ⟨l, hl⟩) hc)
    · obtain ⟨hl, hread⟩ := h.timeout t ht
      exact ⟨hl, fun outcome hc => hread outcome (hcall hl hc)⟩
  | readLine outcome =>
    refine ⟨h.told, fun _ => ⟨outcome, he.1⟩, fun l hl hc => ?_, fun t ht => ?_⟩
    · cases hl
      exact h.told.ended .matched hc
    · have hl := (h.timeout t ht).1
      rw [he.2] at hl
      cases hl
  | readTimeout =>
    refine ⟨h.told, h.called, h.line, fun t ht => ⟨he.1, fun outcome hc hne => ?_⟩⟩
    cases ht
    exact answered_other (h.told.ended outcome hc) hne
  | readMatched => exact ⟨h.told, h.called, h.line, h.timeout⟩

theorem read_returned {r : ReadyResult.State} (h : Read r) {returned : Returned}
    (hr : r.returned = some returned) : returned.timeoutOccurred = true ∨
      r.channel.call = .ended .matched ∧ returned.matchedLine.isSome = true := by
  obtain ⟨c, line, timeout, matched⟩ := r
  cases line with
  | none => cases timeout <;> cases matched <;> cases hr
  | some line =>
    cases timeout with
    | none => cases hr
    | some timeout =>
      cases matched with
      | none => cases hr
      | some matched =>
        cases hr
        obtain ⟨outcome, hc⟩ := h.called rfl
        by_cases hm : outcome = .matched
        · subst hm
          exact Or.inr ⟨hc, h.line line rfl hc⟩
        · exact Or.inl ((h.timeout timeout rfl).2 outcome hc hm)

variable (isMatch waitTimeout p render) in
structure Inv (s : State) : Prop where
  ordered : ∀ k, (s.result.channel.stream k).Ordered waitTimeout
  claiming : s.result.collectedMatchedLine = none → s.result.channel.Claiming →
    s.result.channel.LineMatched isMatch
  line : s.result.answer.matchedLine.isSome → s.result.channel.LineMatched isMatch
  read : Read s.result
  honest : ∀ info, s.info = some info → Honest isMatch p render info s.result.channel

theorem lineMatched_claims {c : ReadyChannel.State} {a : ReadyChannel.Action}
    (ho : ∀ k, (c.stream k).Ordered waitTimeout) (he : ReadyChannel.enabled c a)
    (ha : a.Claims isMatch c)
    (hwhole : ∀ k r todo after, a = .record k r todo after → r.forced = false →
      c.patternMatched = false → (matchedText isMatch r.content).isSome →
        (matchedText isMatch ((c.stream k).wholeLine r)).isSome) :
    c.LineMatched isMatch := by
  cases a with
  | record k r todo after =>
    obtain ⟨hforced, hflag, hm⟩ := ha
    exact ⟨k, _, (ho k).wholeLine_complete he hforced,
      hwhole k r todo after rfl hforced hflag hm⟩
  | _ => exact ha.elim

theorem Inv.channel (h : Inv isMatch waitTimeout p render s) {a : ReadyChannel.Action}
    (he : ReadyChannel.enabled s.result.channel a)
    (hc : Settled isMatch s (.result (.channel a)))
    (hr : Read (ReadyResult.next isMatch waitTimeout s.result (.channel a))) :
    Inv isMatch waitTimeout p render
      (next isMatch waitTimeout p logDir s (.result (.channel a))) := by
  have hgrows : s.result.channel.LineMatched isMatch →
      (ReadyChannel.next isMatch waitTimeout s.result.channel a).LineMatched isMatch :=
    ReadyChannel.lineMatched_next he
  refine ⟨fun k => (ReadyChannel.advances_next he k).ordered (h.ordered k), fun hn hk => ?_,
    fun hl => ?_, hr, fun info hi => (h.honest info hi).mono hgrows⟩
  · have hn : s.result.collectedMatchedLine = none := hn
    refine hgrows ((ReadyChannel.claiming_next he hk).elim (h.claiming hn) fun ha => ?_)
    refine lineMatched_claims h.ordered he ha fun k r todo after hr => ?_
    subst hr
    exact hc hn
  · have hl : (s.result.collectedMatchedLine.getD
        (ReadyChannel.next isMatch waitTimeout s.result.channel a).matchedLine).isSome := hl
    have hanswer : (s.result.collectedMatchedLine.getD s.result.channel.matchedLine).isSome →
        s.result.channel.LineMatched isMatch := h.line
    refine hgrows ?_
    cases hn : s.result.collectedMatchedLine with
    | some l =>
      rw [hn] at hl hanswer
      exact hanswer hl
    | none =>
      rw [hn] at hl hanswer
      exact (ReadyChannel.line_next he hl).elim hanswer (h.claiming hn)

theorem Inv.readLine (h : Inv isMatch waitTimeout p render s)
    (hn : s.result.collectedMatchedLine = none) (outcome : ReadyChannel.WaitOutcome)
    (hr : Read (ReadyResult.next isMatch waitTimeout s.result (.readLine outcome))) :
    Inv isMatch waitTimeout p render
      (next isMatch waitTimeout p logDir s (.result (.readLine outcome))) := by
  have hline : (s.result.collectedMatchedLine.getD s.result.channel.matchedLine).isSome →
      s.result.channel.LineMatched isMatch := h.line
  rw [hn] at hline
  exact ⟨h.ordered, (fun hs => by cases hs), hline, hr, h.honest⟩

theorem inv_step {a : Action} (h : Inv isMatch waitTimeout p render s) (he : enabled s a)
    (hc : Settled isMatch s a) :
    Inv isMatch waitTimeout p render (next isMatch waitTimeout p logDir s a) := by
  cases a with
  | result a =>
    have hr : Read (ReadyResult.next isMatch waitTimeout s.result a) :=
      read_step h.read he fun outcome deadline ha => by
        subst ha
        exact hc
    cases a with
    | channel a => exact h.channel he hc hr
    | readLine outcome => exact h.readLine he.2 outcome hr
    | readTimeout => exact ⟨h.ordered, h.claiming, h.line, hr, h.honest⟩
    | readMatched => exact ⟨h.ordered, h.claiming, h.line, hr, h.honest⟩
  | setStatus status => exact ⟨h.ordered, h.claiming, h.line, h.read, h.honest⟩
  | respond v =>
    refine ⟨h.ordered, h.claiming, h.line, h.read, fun info hi => ?_⟩
    obtain ⟨r, hr, rfl⟩ := Option.map_eq_some_iff.mp hi
    have hline : r.matchedLine.isSome → s.result.channel.LineMatched isMatch := by
      rw [(ReadyResult.returned_answer hr).1]
      exact h.line
    refine honest_createProcessInfo hline ((read_returned h.read hr).imp_right fun hm => ?_)
    exact ⟨hc hm.1, hm.2⟩

theorem Inv.initial : Inv isMatch waitTimeout p render .initial := by
  have hchannel : ReadyChannel.Inv isMatch waitTimeout .initial := ReadyChannel.Inv.initial
  refine ⟨hchannel.ordered, fun _ hk => ?_, fun hl => ?_, read_initial, fun info hi => ?_⟩
  · obtain ⟨k, hk⟩ := hk
    cases k <;> cases hk
  · cases hl
  · cases hi

theorem tools_report_matches {as : List Action}
    (hl : (machine isMatch waitTimeout p logDir).Legal .initial as)
    (hc : (machine isMatch waitTimeout p logDir).Throughout (Settled isMatch) .initial as) :
    (machine isMatch waitTimeout p logDir).Always
      (fun s => ∀ info, s.info = some info → Honest isMatch p render info s.result.channel)
      .initial as :=
  (machine isMatch waitTimeout p logDir).always_mono
    (fun _ (h : Inv isMatch waitTimeout p render _) => h.honest)
    ((machine isMatch waitTimeout p logDir).always_of_step (J := Inv isMatch waitTimeout p render)
      (fun _ _ h he hc => inv_step h he hc) Inv.initial hl hc)

def waitingProcess : ProxyInfo where
  id := "1"
  name := "web"
  project := "app"
  cmd := some "serve"
  args := []
  cwd := none
  env := some []
  waitForLog := some "ready"
  waitTimeout := none
  toolchain := none
  pid := 7

def logs : UnixPath := ⟨true, []⟩

def plain : Render := ⟨fun _ => "", id⟩

def quietReading : Reading := ⟨none, ⟨0, 0⟩, none, some none, some (some 1), .absent⟩

def readyInfo : ProcessInfo :=
  createProcessInfo waitingProcess logs .running quietReading (some false) [] (some "ready")

def respondRun (status : ProcessStatus) (as : List ReadyResult.Action) : List Action :=
  as.map .result ++ [.setStatus status, .respond quietReading]

theorem tools_report_matches_ready :
    let m := machine ReadyChannel.saysReady 60 waitingProcess logs
    let last := m.exec .initial (respondRun .running ReadyResult.answeredRun)
    m.Always (fun s => ∀ info, s.info = some info →
        Honest ReadyChannel.saysReady waitingProcess plain info s.result.channel)
        .initial (respondRun .running ReadyResult.answeredRun) ∧
      last.info = some readyInfo ∧ ReportsMatch (startResult plain readyInfo true) ∧
      ReportsMatch (restartResult plain readyInfo) :=
  ⟨tools_report_matches (by decide) (by decide), rfl, start_reports_info.mpr (by decide),
    restart_reports_info.mpr (by decide)⟩

-- The process exits and leaves nothing: both streams end and the wait with them.
def exitRun : List ReadyChannel.Action :=
  ReadyChannel.spawnRun ++
    [.eof .stdout, .eof .stderr, .guardMatched .stderr, .guardTimeout .stderr,
     .recvNone .stderr true, .leave .stderr .flush, .leave .stderr .close, .close .stderr,
     .wake .closed 70]

theorem restart_reports_a_failed_process :
    ¬ ∀ (isMatch : String → Bool) (waitTimeout : Nat) (p : ProxyInfo) (logDir : UnixPath)
      (render : Render) (as : List Action),
      (machine isMatch waitTimeout p logDir).Legal .initial as →
      (machine isMatch waitTimeout p logDir).Always
        (fun s => ∀ info, s.info = some info → Honest isMatch p render info s.result.channel)
        .initial as := by
  intro hall
  have hlast := (machine ReadyChannel.saysReady 60 waitingProcess logs).always_last
    (hall ReadyChannel.saysReady 60 waitingProcess logs plain
      (respondRun .failed (exitRun.map .channel ++ ReadyResult.readRun .closed)) (by decide))
  have hjustified := (hlast (createProcessInfo waitingProcess logs .failed quietReading
    (some false) [] none) (by rfl)).restart (restart_reports_info.mpr ⟨rfl, rfl⟩)
  have hrunning : convertProcessStatus .failed = convertProcessStatus .running :=
    hjustified.running
  exact absurd hrunning (by decide)

end ToolResults
