import Mathlib.Logic.Function.Basic
import Mcproc.Common.Validation
import Mcproc.Lib.Machine
import Mcproc.Lib.Utf8
import Mcproc.Process.HyperLog

namespace ReadyChannel

open HyperLog (Record chunkSize batchSize processBatch finalFlush)

def chunkChannelCapacity : Nat := 1024
def managerBufferSecs : Nat := 10

inductive StreamName where
  | stdout
  | stderr
  deriving DecidableEq, Repr

def StreamName.other : StreamName → StreamName
  | .stdout => .stderr
  | .stderr => .stdout

-- Where a batch leads once its records are handled: back to the loop, out of it, or to the end.
inductive After where
  | loop
  | flush
  | close
  deriving DecidableEq, Repr

inductive Phase where
  | absent
  | starting
  | guardMatched
  | guardTimeout
  | select (armed : Bool)
  | setTimeout
  | closeOnTimeout
  | records (todo : List Record) (after : After)
  | setMatched (text : String) (todo : List Record) (after : After)
  | setLine (text : String) (todo : List Record) (after : After)
  | notify (todo : List Record) (after : After)
  | close
  | done
  deriving DecidableEq, Repr

structure Streamer where
  emitted : List UInt8
  ended : Bool
  queue : List (List UInt8)
  batch : List (List UInt8)
  lineBuffer : List UInt8
  consumed : List UInt8
  timeoutInstant : Option Nat
  phase : Phase
  deriving DecidableEq

inductive WaitOutcome where
  | matched
  | closed
  | timedOut
  deriving DecidableEq, Repr

inductive CallPhase where
  | spawnStderr
  | spawned
  | waiting (deadline : Nat)
  | ended (outcome : WaitOutcome)
  deriving DecidableEq, Repr

structure State where
  now : Nat
  stream : StreamName → Streamer
  patternMatched : Bool
  matchedLine : Option String
  timeoutOccurred : Bool
  sender : Bool
  sent : Bool
  call : CallPhase

def Streamer.new (phase : Phase) : Streamer := ⟨[], false, [], [], [], [], none, phase⟩

-- The stdout reader has just been spawned; time is counted from there.
def State.initial : State where
  now := 0
  stream
    | .stdout => .new .starting
    | .stderr => .new .absent
  patternMatched := false
  matchedLine := none
  timeoutOccurred := false
  sender := true
  sent := false
  call := .spawnStderr

def spent (after : After) (r : Record) : List UInt8 :=
  if after = .close then r.content.dropLast else r.payload

namespace Streamer

def goto (st : Streamer) (phase : Phase) : Streamer := { st with phase := phase }

def read (st : Streamer) (chunk : List UInt8) : Streamer :=
  { st with emitted := st.emitted ++ chunk, queue := st.queue ++ [chunk] }

def processBatch (st : Streamer) (after : After) : Streamer :=
  { st with
    batch := []
    lineBuffer := (HyperLog.processBatch st.lineBuffer st.batch).2
    phase := .records (HyperLog.processBatch st.lineBuffer st.batch).1 after }

def push (st : Streamer) (chunk : List UInt8) (rest : List (List UInt8)) : Streamer :=
  { st with queue := rest, batch := st.batch ++ [chunk] }

def recv (st : Streamer) (chunk : List UInt8) (rest : List (List UInt8)) : Streamer :=
  if batchSize ≤ (st.push chunk rest).batch.length then (st.push chunk rest).processBatch .loop
  else (st.push chunk rest).goto .guardMatched

def consume (st : Streamer) (after : After) (r : Record) (phase : Phase) : Streamer :=
  { st with consumed := st.consumed ++ spent after r, phase := phase }

def leave (st : Streamer) : After → Streamer
  | .loop => st.goto .guardMatched
  | .flush => { st with lineBuffer := [], phase := .records (finalFlush st.lineBuffer) .close }
  | .close => st.goto .close

end Streamer

namespace State

def put (s : State) (k : StreamName) (st : Streamer) : State :=
  { s with stream := Function.update s.stream k st }

def goto (s : State) (k : StreamName) (phase : Phase) : State := s.put k ((s.stream k).goto phase)

def takeSender (s : State) : State := { s with sender := false }

def send (s : State) : State := { s with sender := false, sent := s.sent || s.sender }

end State

section
variable (isMatch : String → Bool) (waitTimeout : Nat)

def matchedText (content : List UInt8) : Option String :=
  ((Utf8.fromUtf8 content).map fun cs => String.ofList (Validation.trimEnd cs)).filter isMatch

def afterRecord (patternMatched : Bool) (r : Record) (todo : List Record) (after : After) : Phase :=
  if r.forced || patternMatched then .records todo after
  else
    match matchedText isMatch r.content with
    | some text => .setMatched text todo after
    | none => .records todo after

inductive Action where
  | tick
  | spawnStderr
  | wait
  | wake (outcome : WaitOutcome) (deadline : Nat)
  | read (k : StreamName) (chunk : List UInt8)
  | eof (k : StreamName)
  | start (k : StreamName)
  | guardMatched (k : StreamName)
  | guardTimeout (k : StreamName)
  | fire (k : StreamName)
  | setTimeout (k : StreamName)
  | closeOnTimeout (k : StreamName)
  | recv (k : StreamName) (armed : Bool) (chunk : List UInt8) (rest : List (List UInt8))
  | batchTimeout (k : StreamName) (armed : Bool)
  | recvNone (k : StreamName) (armed : Bool)
  | record (k : StreamName) (r : Record) (todo : List Record) (after : After)
  | setMatched (k : StreamName) (text : String) (todo : List Record) (after : After)
  | setLine (k : StreamName) (text : String) (todo : List Record) (after : After)
  | notify (k : StreamName) (todo : List Record) (after : After)
  | leave (k : StreamName) (after : After)
  | close (k : StreamName)
  deriving DecidableEq

def State.phaseIs (s : State) (k : StreamName) (phase : Phase) : Prop := (s.stream k).phase = phase

instance (s : State) (k : StreamName) (phase : Phase) : Decidable (s.phaseIs k phase) :=
  inferInstanceAs (Decidable (_ = _))

def woken (s : State) (deadline : Nat) : WaitOutcome → Prop
  | .matched => s.sent = true
  | .closed => s.sender = false ∧ s.sent = false
  | .timedOut => deadline ≤ s.now

instance (s : State) (deadline : Nat) : ∀ o, Decidable (woken s deadline o)
  | .matched => inferInstanceAs (Decidable (_ = _))
  | .closed => inferInstanceAs (Decidable (_ ∧ _))
  | .timedOut => inferInstanceAs (Decidable (_ ≤ _))

def enabled (s : State) : Action → Prop
  | .tick => True
  | .spawnStderr => s.call = .spawnStderr ∧ s.phaseIs .stderr .absent
  | .wait => s.call = .spawned
  | .wake outcome deadline => s.call = .waiting deadline ∧ woken s deadline outcome
  | .read k chunk =>
    ¬ s.phaseIs k .absent ∧ (s.stream k).ended = false ∧ chunk ≠ [] ∧ chunk.length ≤ chunkSize ∧
      (s.stream k).queue.length < chunkChannelCapacity
  | .eof k => ¬ s.phaseIs k .absent ∧ (s.stream k).ended = false
  | .start k => s.phaseIs k .starting
  | .guardMatched k => s.phaseIs k .guardMatched
  | .guardTimeout k => s.phaseIs k .guardTimeout
  | .fire k => s.phaseIs k (.select true) ∧ (s.stream k).timeoutInstant.any (· ≤ s.now)
  | .setTimeout k => s.phaseIs k .setTimeout
  | .closeOnTimeout k => s.phaseIs k .closeOnTimeout
  | .recv k armed chunk rest => s.phaseIs k (.select armed) ∧ (s.stream k).queue = chunk :: rest
  | .batchTimeout k armed => s.phaseIs k (.select armed) ∧ (s.stream k).batch ≠ []
  | .recvNone k armed =>
    s.phaseIs k (.select armed) ∧ (s.stream k).queue = [] ∧ (s.stream k).ended = true
  | .record k r todo after => s.phaseIs k (.records (r :: todo) after)
  | .setMatched k text todo after => s.phaseIs k (.setMatched text todo after)
  | .setLine k text todo after => s.phaseIs k (.setLine text todo after)
  | .notify k todo after => s.phaseIs k (.notify todo after)
  | .leave k after => s.phaseIs k (.records [] after)
  | .close k => s.phaseIs k .close

def next (s : State) : Action → State
  | .tick => { s with now := s.now + 1 }
  | .spawnStderr => { s.goto .stderr .starting with call := .spawned }
  | .wait => { s with call := .waiting (s.now + (waitTimeout + managerBufferSecs)) }
  | .wake outcome _ => { s with call := .ended outcome }
  | .read k chunk => s.put k ((s.stream k).read chunk)
  | .eof k => s.put k { s.stream k with ended := true }
  | .start k =>
    s.put k { s.stream k with timeoutInstant := some (s.now + waitTimeout), phase := .guardMatched }
  | .guardMatched k => s.goto k (if s.patternMatched then .select false else .guardTimeout)
  | .guardTimeout k => s.goto k (.select (!s.timeoutOccurred))
  | .fire k => s.goto k .setTimeout
  | .setTimeout k => { s with timeoutOccurred := true }.goto k .closeOnTimeout
  | .closeOnTimeout k => s.takeSender.goto k .guardMatched
  | .recv k _ chunk rest => s.put k ((s.stream k).recv chunk rest)
  | .batchTimeout k _ => s.put k ((s.stream k).processBatch .loop)
  | .recvNone k _ => s.put k ((s.stream k).processBatch .flush)
  | .record k r todo after =>
    s.put k ((s.stream k).consume after r (afterRecord isMatch s.patternMatched r todo after))
  | .setMatched k text todo after =>
    { s with patternMatched := true }.goto k (.setLine text todo after)
  | .setLine k text todo after => { s with matchedLine := some text }.goto k (.notify todo after)
  | .notify k todo after => s.send.goto k (.records todo after)
  | .leave k after => s.put k ((s.stream k).leave after)
  | .close k => s.takeSender.goto k .done

def machine : Machine State Action where
  init := .initial
  enabled := enabled
  next := next isMatch waitTimeout

instance (s : State) (a : Action) : Decidable ((machine isMatch waitTimeout).enabled s a) := by
  cases a <;> dsimp only [machine, enabled] <;> infer_instance

end

end ReadyChannel
