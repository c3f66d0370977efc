import Mathlib.Logic.Function.Basic
import Mcproc.Lib.Machine
import Mcproc.Lib.Utf8
import Mcproc.Process.HyperLog

namespace Follow

open HyperLog (Record processBatch finalFlush)

def maxLogLines : Nat := 10000
def writeBatchSize : Nat := 100
def channelBufferSize : Nat := 10000

def clampTail (tail : Nat) : Nat := min tail maxLogLines

-- A line of the process: the stream it came from and its number there.
structure Entry where
  isStderr : Bool
  index : Nat
  content : List UInt8
  deriving DecidableEq, Repr

def Entry.valid (e : Entry) : Bool := (Utf8.fromUtf8 e.content).isSome

def entries (isStderr : Bool) : Nat → List Record → List Entry
  | _, [] => []
  | n, r :: rs => ⟨isStderr, n, r.content⟩ :: entries isStderr (n + 1) rs

structure Pipe where
  input : List UInt8
  lineBuffer : List UInt8
  ended : Bool
  emitted : List Entry
  toEnqueue : List Entry
  toPublish : List Entry
  opened : Bool
  channel : List Entry
  batch : List Entry
  closed : Bool
  deriving DecidableEq

def Pipe.new : Pipe := ⟨[], [], false, [], [], [], false, [], [], false⟩

inductive RequestPhase where
  | idle
  | looked (registered : Bool)
  | resolved (source : Bool)
  | subscribed (source : Bool)
  | following
  deriving DecidableEq, Repr

-- A line of the file that is no entry was there before the process started.
structure State where
  pipe : Bool → Pipe
  fileExists : Bool
  file : List (Option Entry)
  registered : Bool
  published : List Entry
  request : RequestPhase
  missed : List Entry
  cutOff : List Entry
  tailRead : List Entry
  received : List Entry
  forwarded : List Entry

def State.initial (old : Option Nat) : State where
  pipe := fun _ => .new
  fileExists := old.isSome
  file := List.replicate (old.getD 0) none
  registered := false
  published := []
  request := .idle
  missed := []
  cutOff := []
  tailRead := []
  received := []
  forwarded := []

namespace Pipe

def emit (p : Pipe) (isStderr : Bool) (rs : List Record) (rest : List UInt8) : Pipe :=
  let es := entries isStderr p.emitted.length rs
  { p with
    lineBuffer := rest
    emitted := p.emitted ++ es
    toEnqueue := es
    toPublish := es.filter Entry.valid }

def process (p : Pipe) (isStderr : Bool) (chunks : List (List UInt8)) : Pipe :=
  { p.emit isStderr (processBatch p.lineBuffer chunks).1 (processBatch p.lineBuffer chunks).2 with
    input := p.input ++ chunks.flatten }

def finish (p : Pipe) (isStderr : Bool) : Pipe :=
  { p.emit isStderr (finalFlush p.lineBuffer) [] with ended := true }

def enqueue (p : Pipe) (e : Entry) (es : List Entry) : Pipe :=
  { p with channel := p.channel ++ [e], toEnqueue := es }

def receive (p : Pipe) (e : Entry) (es : List Entry) : Pipe :=
  { p with channel := es, batch := p.batch ++ [e] }

end Pipe

namespace State

def put (s : State) (k : Bool) (p : Pipe) : State :=
  { s with pipe := Function.update s.pipe k p }

def flushBatch (s : State) (k : Bool) : State :=
  { s.put k { s.pipe k with batch := [] } with file := s.file ++ (s.pipe k).batch.map some }

def listening (s : State) : Bool :=
  match s.request with
  | .subscribed _ | .following => true
  | _ => false

-- The channel of the hub is taken to be wide enough: no receiver lags.
def publish (s : State) (e : Entry) : State :=
  { s with
    published := s.published ++ [e]
    received := if s.listening then s.received ++ [e] else s.received }

def response (s : State) : List Entry := s.tailRead ++ s.forwarded

end State

inductive Action where
  | process (k : Bool) (chunks : List (List UInt8))
  | finish (k : Bool)
  | enqueue (k : Bool) (e : Entry) (es : List Entry)
  | publish (k : Bool) (e : Entry) (es : List Entry)
  | openFile (k : Bool)
  | receive (k : Bool) (e : Entry) (es : List Entry)
  | tick (k : Bool)
  | close (k : Bool)
  | register
  | unregister
  | lookup
  | discover (registered : Bool)
  | subscribe (source : Bool)
  | readTail (source : Bool)
  | forward (e : Entry) (es : List Entry)
  deriving DecidableEq

def enabled (s : State) : Action → Prop
  | .process k _ | .finish k =>
    (s.pipe k).ended = false ∧ (s.pipe k).toEnqueue = [] ∧ (s.pipe k).toPublish = []
  | .enqueue k e es =>
    (s.pipe k).toEnqueue = e :: es ∧ (s.pipe k).channel.length < channelBufferSize
  | .publish k e es => (s.pipe k).toEnqueue = [] ∧ (s.pipe k).toPublish = e :: es
  | .openFile k => (s.pipe k).opened = false
  | .receive k e es => (s.pipe k).opened = true ∧ (s.pipe k).channel = e :: es
  | .tick k => (s.pipe k).opened = true ∧ (s.pipe k).batch ≠ []
  | .close k =>
    (s.pipe k).opened = true ∧ (s.pipe k).ended = true ∧ (s.pipe k).closed = false ∧
      (s.pipe k).toEnqueue = [] ∧ (s.pipe k).toPublish = [] ∧ (s.pipe k).channel = []
  | .register | .unregister => True
  | .lookup => s.request = .idle
  | .discover registered => s.request = .looked registered
  | .subscribe source => s.request = .resolved source
  | .readTail source => s.request = .subscribed source
  | .forward e es => s.request = .following ∧ s.received = e :: es

variable (tail : Nat)

def State.readable (s : State) (source : Bool) : Bool := 0 < tail && source && s.fileExists

def State.kept (s : State) (source : Bool) : Nat :=
  if s.readable tail source then s.file.length - clampTail tail else s.file.length

def State.tailLines (s : State) (source : Bool) : List Entry :=
  (s.file.drop (s.kept tail source)).filterMap id

def State.cutLines (s : State) (source : Bool) : List Entry :=
  (s.file.take (s.kept tail source)).filterMap id

def next (s : State) : Action → State
  | .process k chunks => s.put k ((s.pipe k).process k chunks)
  | .finish k => s.put k ((s.pipe k).finish k)
  | .enqueue k e es => s.put k ((s.pipe k).enqueue e es)
  | .publish k e es => (s.publish e).put k { s.pipe k with toPublish := es }
  | .openFile k => { s.put k { s.pipe k with opened := true } with fileExists := true }
  | .receive k e es =>
    let s' := s.put k ((s.pipe k).receive e es)
    if writeBatchSize ≤ (s'.pipe k).batch.length then s'.flushBatch k else s'
  | .tick k => s.flushBatch k
  | .close k => (s.put k { s.pipe k with closed := true }).flushBatch k
  | .register => { s with registered := true }
  | .unregister => { s with registered := false }
  | .lookup => { s with request := .looked s.registered }
  | .discover registered => { s with request := .resolved (registered || s.fileExists) }
  | .subscribe source => { s with request := .subscribed source, missed := s.published }
  | .readTail source =>
    { s with
      request := .following
      tailRead := s.tailLines tail source
      cutOff := s.cutLines tail source }
  | .forward e es => { s with received := es, forwarded := s.forwarded ++ [e] }

def machine (old : Option Nat) : Machine State Action where
  init := .initial old
  enabled := enabled
  next := next tail

instance (s : State) (a : Action) (old : Option Nat) :
    Decidable ((machine tail old).enabled s a) := by
  cases a <;> dsimp only [machine, enabled] <;> infer_instance

end Follow
