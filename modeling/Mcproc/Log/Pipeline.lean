import Mathlib.Logic.Function.Basic
import Mcproc.Lib.Runs
import Mcproc.Log.BatchAppend
import Mcproc.Process.LiveStream
import Mcproc.Process.ReadyChannel

namespace Pipeline

open HyperLog (Record chunkSize batchSize finalFlush)
open LiveStream (linesToPublish publishLogEvent)
open ReadyChannel (After chunkChannelCapacity)
open BatchWriter (LogEntry)

-- A chunk that is read waits for room in the channel.
inductive Reader where
  | reading
  | sending (chunk : List UInt8)
  | ended
  deriving DecidableEq, Repr

-- Lines are written one by one; those of a batch are published after its last write.
inductive Processor where
  | creating
  | select
  | processing (toWrite : List Record) (toPublish : List (List Char)) (after : After)
  | closing
  | joining
  | done
  deriving DecidableEq, Repr

structure Stream where
  emitted : List UInt8
  reader : Reader
  channel : List (List UInt8)
  batch : List (List UInt8)
  lineBuffer : List UInt8
  processor : Processor
  published : List (List Char)
  deriving DecidableEq, Repr

-- The streams of a process append to one file, each through a writer task of its own.
structure State (W : Type) (chrono : Chrono) where
  streams : W → Stream
  log : BatchAppend.State W chrono

inductive Action (W : Type) (chrono : Chrono) where
  | read (k : W) (chunk : List UInt8)
  | eof (k : W)
  | deliver (k : W)
  | create (k : W)
  | recv (k : W)
  | recvNone (k : W)
  | batchTimeout (k : W)
  | write (k : W) (now : chrono.DateTime)
  | publish (k : W)
  | leave (k : W)
  | close (k : W)
  | join (k : W)
  | log (a : BatchAppend.Action W chrono)

def Reader.pending : Reader → List (List UInt8)
  | .sending chunk => [chunk]
  | _ => []

namespace Processor

def toWrite : Processor → List Record
  | .processing toWrite _ _ => toWrite
  | _ => []

def toPublish : Processor → List (List Char)
  | .processing _ toPublish _ => toPublish
  | _ => []

-- The loop has been left.
def outside : Processor → Bool
  | .processing _ _ .flush | .processing _ _ .close | .closing | .joining | .done => true
  | _ => false

-- What had no newline at its end has been taken out of the line buffer.
def final : Processor → Bool
  | .processing _ _ .close | .closing | .joining | .done => true
  | _ => false

def closed : Processor → Bool
  | .joining | .done => true
  | _ => false

end Processor

namespace Stream

def new : Stream := ⟨[], .reading, [], [], [], .creating, []⟩

def goto (st : Stream) (processor : Processor) : Stream := { st with processor := processor }

def process (st : Stream) (records : List Record) (after : After) : Stream :=
  st.goto (.processing records (linesToPublish records) after)

def processBatch (st : Stream) (after : After) : Stream :=
  { st with
    batch := []
    lineBuffer := (HyperLog.processBatch st.lineBuffer st.batch).2 }.process
      (HyperLog.processBatch st.lineBuffer st.batch).1 after

def recv (st : Stream) : Stream :=
  match st.channel with
  | [] => st
  | chunk :: rest =>
    if batchSize ≤ (st.batch ++ [chunk]).length then
      { st with channel := rest, batch := st.batch ++ [chunk] }.processBatch .loop
    else { st with channel := rest, batch := st.batch ++ [chunk] }

def publish (st : Stream) : Stream :=
  match st.processor with
  | .processing [] (line :: lines) after =>
    { st with
      published := st.published ++ [publishLogEvent line]
      processor := .processing [] lines after }
  | _ => st

def leave (st : Stream) : Stream :=
  match st.processor with
  | .processing [] [] .loop => st.goto .select
  | .processing [] [] .flush =>
    { st with lineBuffer := [] }.process (finalFlush st.lineBuffer) .close
  | .processing [] [] .close => st.goto .closing
  | _ => st

end Stream

section
variable {W : Type} {chrono : Chrono}

-- A writer task runs from the moment its stream has created it.
def writerOpen (s : State W chrono) : BatchAppend.Action W chrono → Prop
  | .send _ _ | .close _ => False
  | .openFile k | .metadata k | .seekEnd k | .readExact k | .repair k | .recv k | .tick k
  | .flush k => (s.streams k).processor ≠ .creating

def enabled (s : State W chrono) : Action W chrono → Prop
  | .read k chunk =>
    (s.streams k).reader = .reading ∧ chunk ≠ [] ∧ chunk.length ≤ chunkSize
  | .eof k => (s.streams k).reader = .reading
  | .deliver k =>
    (∃ chunk, (s.streams k).reader = .sending chunk) ∧
      (s.streams k).channel.length < chunkChannelCapacity
  | .create k => (s.streams k).processor = .creating
  | .recv k => (s.streams k).processor = .select ∧ (s.streams k).channel ≠ []
  | .recvNone k =>
    (s.streams k).processor = .select ∧ (s.streams k).channel = [] ∧
      (s.streams k).reader = .ended
  | .batchTimeout k => (s.streams k).processor = .select ∧ (s.streams k).batch ≠ []
  | .write k _ =>
    (∃ r todo lines after, (s.streams k).processor = .processing (r :: todo) lines after) ∧
      (s.log.writers k).queue.length < BatchAppend.channelBufferSize
  | .publish k => ∃ line lines after, (s.streams k).processor = .processing [] (line :: lines) after
  | .leave k => ∃ after, (s.streams k).processor = .processing [] [] after
  | .close k => (s.streams k).processor = .closing
  | .join k => (s.streams k).processor = .joining ∧ (s.log.writers k).phase = .done
  | .log a => BatchAppend.enabled s.log a ∧ writerOpen s a

variable [DecidableEq W] (rfc : Rfc3339 chrono) (isStderr : W → Bool)

def State.put (s : State W chrono) (k : W) (st : Stream) : State W chrono :=
  { s with streams := Function.update s.streams k st }

def State.write (s : State W chrono) (k : W) (now : chrono.DateTime) : State W chrono :=
  match (s.streams k).processor with
  | .processing (r :: todo) lines after =>
    { s.put k ((s.streams k).goto (.processing todo lines after)) with
      log := BatchAppend.next rfc s.log (.send k ⟨now, r.content, isStderr k⟩) }
  | _ => s

def next (s : State W chrono) : Action W chrono → State W chrono
  | .read k chunk =>
    s.put k { s.streams k with
      emitted := (s.streams k).emitted ++ chunk
      reader := .sending chunk }
  | .eof k => s.put k { s.streams k with reader := .ended }
  | .deliver k =>
    s.put k { s.streams k with
      channel := (s.streams k).channel ++ (s.streams k).reader.pending
      reader := .reading }
  | .create k => s.put k ((s.streams k).goto .select)
  | .recv k => s.put k (s.streams k).recv
  | .recvNone k => s.put k ((s.streams k).processBatch .flush)
  | .batchTimeout k => s.put k ((s.streams k).processBatch .loop)
  | .write k now => s.write rfc isStderr k now
  | .publish k => s.put k (s.streams k).publish
  | .leave k => s.put k (s.streams k).leave
  | .close k =>
    { s.put k ((s.streams k).goto .joining) with log := BatchAppend.next rfc s.log (.close k) }
  | .join k => s.put k ((s.streams k).goto .done)
  | .log a => { s with log := BatchAppend.next rfc s.log a }

def machine (old : List UInt8) : Machine (State W chrono) (Action W chrono) where
  init := ⟨fun _ => .new, (BatchAppend.machine rfc old).init⟩
  enabled := enabled
  next := next rfc isStderr

def recordsOf (final : Bool) (chunks : List (List UInt8)) : List Record :=
  if final then
    (HyperLog.processBatch [] chunks).1 ++ finalFlush (HyperLog.processBatch [] chunks).2
  else (HyperLog.processBatch [] chunks).1

-- No byte is lost between the pipe and the writer's channel.
structure Carried (stderr : Bool) (st : Stream) (x : BatchAppend.Writer chrono)
    (chunks : List (List UInt8)) : Prop where
  emitted : (chunks ++ st.batch ++ st.channel ++ st.reader.pending).flatten = st.emitted
  buffer : st.lineBuffer =
    if st.processor.final then [] else (HyperLog.processBatch [] chunks).2
  written : x.sent.map LogEntry.content ++ st.processor.toWrite.map Record.content =
    (recordsOf st.processor.final chunks).map Record.content
  published : st.published ++ st.processor.toPublish.map publishLogEvent =
    (linesToPublish (recordsOf st.processor.final chunks)).map publishLogEvent
  outside : st.processor.outside = true → st.reader = .ended ∧ st.channel = [] ∧ st.batch = []
  level : ∀ entry ∈ x.sent, entry.isStderr = stderr
  closed : x.closed = st.processor.closed
  joined : st.processor = .done → x.phase = .done

theorem linesToPublish_append (rs rs' : List Record) :
    linesToPublish (rs ++ rs') = linesToPublish rs ++ linesToPublish rs' :=
  List.filterMap_append

variable {stderr : Bool} {st : Stream} {x : BatchAppend.Writer chrono}
  {chunks : List (List UInt8)}

theorem carried_new : Carried stderr .new (.new : BatchAppend.Writer chrono) [] :=
  ⟨rfl, rfl, rfl, rfl, nofun, nofun, rfl, nofun⟩

theorem Carried.writer {x' : BatchAppend.Writer chrono} (h : Carried stderr st x chunks)
    (hsent : x'.sent = x.sent) (hclosed : x'.closed = x.closed)
    (hdone : x.phase = .done → x'.phase = .done) : Carried stderr st x' chunks :=
  { h with
    written := hsent ▸ h.written
    level := hsent ▸ h.level
    closed := hclosed.trans h.closed
    joined := fun hp => hdone (h.joined hp) }

theorem Carried.reader {emitted : List UInt8} {reader : Reader} {channel : List (List UInt8)}
    (h : Carried stderr st x chunks) (hreading : st.reader ≠ .ended)
    (hemitted : ∀ before, before ++ st.channel.flatten ++ st.reader.pending.flatten = st.emitted →
      before ++ channel.flatten ++ reader.pending.flatten = emitted) :
    Carried stderr { st with emitted := emitted, reader := reader, channel := channel } x chunks :=
  { h with
    emitted := by
      have hsame := h.emitted
      simp only [List.flatten_append] at hsame ⊢
      exact hemitted _ hsame
    outside := fun hp => absurd (h.outside hp).1 hreading }

theorem Carried.processBatch {after : After} (h : Carried stderr st x chunks)
    (hselect : st.processor = .select) (hafter : after ≠ .close)
    (hfinished : after = .flush → st.reader = .ended ∧ st.channel = []) :
    Carried stderr (st.processBatch after) x (chunks ++ st.batch) := by
  have hfinal : (Processor.processing (HyperLog.processBatch st.lineBuffer st.batch).1
      (linesToPublish (HyperLog.processBatch st.lineBuffer st.batch).1) after).final = false := by
    cases after with
    | loop | flush => rfl
    | close => exact absurd rfl hafter
  obtain ⟨hemitted, hbuffer, hwritten, hpublished, -, hlevel, hclosed, -⟩ := h
  simp only [hselect, Processor.final, Processor.toWrite, Processor.toPublish, List.map_nil,
    List.append_nil] at hwritten hpublished
  have hbuffer' : st.lineBuffer = (HyperLog.processBatch [] chunks).2 := by
    rw [hbuffer, hselect]
    rfl
  have hrecords : recordsOf false (chunks ++ st.batch) =
      recordsOf false chunks ++ (HyperLog.processBatch st.lineBuffer st.batch).1 := by
    rw [hbuffer']
    exact congrArg Prod.fst (HyperLog.processBatch_append [] chunks st.batch)
  constructor
  · simpa [Stream.processBatch, Stream.process, Stream.goto] using hemitted
  · simp only [Stream.processBatch, Stream.process, Stream.goto, hfinal, Bool.false_eq_true,
      if_false]
    rw [HyperLog.processBatch_append, hbuffer']
  · simp only [Stream.processBatch, Stream.process, Stream.goto, hfinal]
    rw [hrecords, List.map_append, ← hwritten]
    simp [Processor.toWrite]
  · simp only [Stream.processBatch, Stream.process, Stream.goto, hfinal]
    rw [hrecords, linesToPublish_append, List.map_append, ← hpublished]
    simp [Processor.toPublish]
  · intro hp
    cases after with
    | loop => cases hp
    | flush => exact ⟨(hfinished rfl).1, (hfinished rfl).2, rfl⟩
    | close => exact absurd rfl hafter
  · exact hlevel
  · rw [hclosed, hselect]
    rfl
  · exact fun hp => by cases hp

theorem Carried.recv (h : Carried stderr st x chunks) (hselect : st.processor = .select)
    (hne : st.channel ≠ []) : ∃ chunks', Carried stderr st.recv x chunks' := by
  obtain ⟨chunk, rest, hchannel⟩ := List.exists_cons_of_ne_nil hne
  have hpushed : Carried stderr { st with channel := rest, batch := st.batch ++ [chunk] } x chunks :=
    { h with
      emitted := by
        rw [← h.emitted, hchannel]
        simp
      outside := fun hp => by
        rw [hselect] at hp
        cases hp }
  simp only [Stream.recv, hchannel]
  split
  · exact ⟨_, hpushed.processBatch hselect nofun nofun⟩
  · exact ⟨_, hpushed⟩

theorem Carried.move {processor : Processor} {published : List (List Char)}
    {x' : BatchAppend.Writer chrono} (h : Carried stderr st x chunks)
    (hfinal : processor.final = st.processor.final)
    (houtside : processor.outside → st.processor.outside)
    (hwritten : x'.sent.map LogEntry.content ++ processor.toWrite.map Record.content =
      x.sent.map LogEntry.content ++ st.processor.toWrite.map Record.content)
    (hpublished : published ++ processor.toPublish.map publishLogEvent =
      st.published ++ st.processor.toPublish.map publishLogEvent)
    (hlevel : ∀ entry ∈ x'.sent, entry.isStderr = stderr) (hclosed : x'.closed = processor.closed)
    (hdone : processor = .done → x'.phase = .done) :
    Carried stderr { st with processor := processor, published := published } x' chunks where
  emitted := h.emitted
  buffer := by
    rw [hfinal]
    exact h.buffer
  written := by
    rw [hwritten, hfinal]
    exact h.written
  published := by
    rw [hpublished, hfinal]
    exact h.published
  outside hp := h.outside (houtside hp)
  level := hlevel
  closed := hclosed
  joined := hdone

theorem Carried.write {r : Record} {todo : List Record} {lines : List (List Char)} {after : After}
    (h : Carried stderr st x chunks) (hp : st.processor = .processing (r :: todo) lines after)
    (now : chrono.DateTime) :
    Carried stderr (st.goto (.processing todo lines after)) (x.send ⟨now, r.content, stderr⟩)
      chunks := by
  refine h.move ?_ ?_ ?_ ?_ ?_ ?_ nofun
  · rw [hp]
    cases after <;> rfl
  · rw [hp]
    cases after <;> exact id
  · rw [hp]
    simp [BatchAppend.Writer.send, Processor.toWrite]
  · rw [hp]
    rfl
  · intro entry hentry
    rcases List.mem_append.mp hentry with hentry | hentry
    · exact h.level entry hentry
    · rw [List.mem_singleton.mp hentry]
  · have hclosed := h.closed
    rw [hp] at hclosed
    exact hclosed

theorem Carried.publish {line : List Char} {lines : List (List Char)} {after : After}
    (h : Carried stderr st x chunks) (hp : st.processor = .processing [] (line :: lines) after) :
    Carried stderr st.publish x chunks := by
  simp only [Stream.publish, hp]
  refine h.move ?_ ?_ ?_ ?_ h.level ?_ nofun
  · rw [hp]
    cases after <;> rfl
  · rw [hp]
    cases after <;> exact id
  · rw [hp]
    rfl
  · rw [hp]
    simp [Processor.toPublish]
  · have hclosed := h.closed
    rw [hp] at hclosed
    exact hclosed

theorem Carried.finalFlush (h : Carried stderr st x chunks)
    (hp : st.processor = .processing [] [] .flush) :
    Carried stderr ({ st with lineBuffer := [] }.process (HyperLog.finalFlush st.lineBuffer) .close)
      x chunks := by
  obtain ⟨hemitted, hbuffer, hwritten, hpublished, hfinished, hlevel, hclosed, -⟩ := h
  simp only [hp, Processor.final, Processor.toWrite, Processor.toPublish, List.map_nil,
    List.append_nil] at hwritten hpublished
  have hbuffer' : st.lineBuffer = (HyperLog.processBatch [] chunks).2 := by
    rw [hbuffer, hp]
    rfl
  have hrecords : recordsOf true chunks =
      recordsOf false chunks ++ HyperLog.finalFlush st.lineBuffer := by
    rw [hbuffer']
    rfl
  refine ⟨hemitted, rfl, ?_, ?_, fun _ => hfinished (by rw [hp]; rfl), hlevel, ?_, nofun⟩
  · refine Eq.trans ?_ (congrArg (List.map Record.content) hrecords).symm
    rw [List.map_append, ← hwritten]
    rfl
  · refine Eq.trans ?_
      (congrArg (fun rs => (linesToPublish rs).map publishLogEvent) hrecords).symm
    rw [linesToPublish_append, List.map_append, ← hpublished]
    rfl
  · rw [hclosed, hp]
    rfl

theorem Carried.leave {after : After} (h : Carried stderr st x chunks)
    (hp : st.processor = .processing [] [] after) : Carried stderr st.leave x chunks := by
  cases after with
  | loop =>
    simp only [Stream.leave, hp]
    exact h.move (by rw [hp]; rfl) nofun (by rw [hp]; rfl) (by rw [hp]; rfl) h.level
      (by rw [h.closed, hp]; rfl) nofun
  | flush =>
    simp only [Stream.leave, hp]
    exact h.finalFlush hp
  | close =>
    simp only [Stream.leave, hp]
    exact h.move (by rw [hp]; rfl) (fun _ => by rw [hp]; rfl) (by rw [hp]; rfl) (by rw [hp]; rfl)
      h.level (by rw [h.closed, hp]; rfl) nofun

theorem Carried.create (h : Carried stderr st x chunks) (hp : st.processor = .creating) :
    Carried stderr (st.goto .select) x chunks :=
  h.move (by rw [hp]; rfl) nofun (by rw [hp]; rfl) (by rw [hp]; rfl) h.level
    (by rw [h.closed, hp]; rfl) nofun

theorem Carried.close (h : Carried stderr st x chunks) (hp : st.processor = .closing) :
    Carried stderr (st.goto .joining) { x with closed := true } chunks :=
  h.move (by rw [hp]; rfl) (fun _ => by rw [hp]; rfl) (by rw [hp]; rfl) (by rw [hp]; rfl)
    h.level rfl nofun

theorem Carried.join (h : Carried stderr st x chunks) (hp : st.processor = .joining)
    (hdone : x.phase = .done) : Carried stderr (st.goto .done) x chunks :=
  h.move (by rw [hp]; rfl) (fun _ => by rw [hp]; rfl) (by rw [hp]; rfl) (by rw [hp]; rfl)
    h.level (by rw [h.closed, hp]; rfl) fun _ => hdone

structure WriterStep (x x' : BatchAppend.Writer chrono) : Prop where
  sent : x'.sent = x.sent
  closed : x'.closed = x.closed
  done : x.phase = .done → x'.phase = .done

theorem writerStep_refl (x : BatchAppend.Writer chrono) : WriterStep x x := ⟨rfl, rfl, id⟩

theorem flushOr_step {x : BatchAppend.Writer chrono} {last : Bool} {phase : BatchAppend.Phase}
    (h : x.phase ≠ .done) : WriterStep x (x.flushOr last phase) := by
  simp only [BatchAppend.Writer.flushOr]
  split <;> exact ⟨rfl, rfl, fun hp => absurd hp h⟩

theorem recv_step {x : BatchAppend.Writer chrono} (h : x.phase ≠ .done) :
    WriterStep x x.recv := by
  simp only [BatchAppend.Writer.recv]
  split
  · exact ⟨rfl, rfl, fun hp => absurd hp h⟩
  · exact flushOr_step h

theorem set_step {s : BatchAppend.State W chrono} {k : W} {x : BatchAppend.Writer chrono}
    (h : WriterStep (s.writers k) x) (v : W) :
    WriterStep (s.writers v) ((s.set k x).writers v) := by
  by_cases hv : v = k
  · subst hv
    simpa [BatchAppend.State.set] using h
  · simpa [BatchAppend.State.set, hv] using writerStep_refl (s.writers v)

theorem log_step {s : State W chrono} {a : BatchAppend.Action W chrono}
    (he : BatchAppend.enabled s.log a) (ho : writerOpen s a) (v : W) :
    WriterStep (s.log.writers v) ((BatchAppend.next rfc s.log a).writers v) := by
  have hgoto : ∀ {k : W} {p q : BatchAppend.Phase}, (s.log.writers k).phase = p → p ≠ .done →
      WriterStep (s.log.writers k) ((s.log.writers k).goto q) := fun hp hne =>
    ⟨rfl, rfl, fun hdone => absurd (hp.symm.trans hdone) hne⟩
  have hopen : ∀ {k : W} {p : BatchAppend.Phase}, (s.log.writers k).phase = p → p ≠ .done →
      (s.log.writers k).phase ≠ .done := fun hp hne hdone => hne (hp.symm.trans hdone)
  cases a with
  | send | close => exact absurd ho id
  | openFile k => exact set_step (hgoto he (by simp)) v
  | metadata k => exact set_step (hgoto he (by simp)) v
  | seekEnd k => exact set_step (hgoto he.1 (by simp)) v
  | readExact k =>
    simp only [BatchAppend.next]
    split
    · next pos hp => exact set_step (hgoto hp (by simp)) v
    · exact writerStep_refl _
  | repair k => exact set_step (hgoto he (by simp)) v
  | recv k => exact set_step (recv_step (hopen he.1 (by simp))) v
  | tick k => exact set_step (flushOr_step (hopen he (by simp))) v
  | flush k =>
    simp only [BatchAppend.next]
    split
    · next last hp =>
      exact set_step (s := s.log.append _) (x := (s.log.writers k).flushed last)
        ⟨rfl, rfl, fun hdone => absurd hdone (hopen hp (by simp))⟩ v
    · exact writerStep_refl _

def AllCarried (isStderr : W → Bool) (s : State W chrono) : Prop :=
  ∀ k, ∃ chunks, Carried (isStderr k) (s.streams k) (s.log.writers k) chunks

variable {isStderr : W → Bool}

theorem AllCarried.put {s : State W chrono} (h : AllCarried isStderr s) {k : W} {st : Stream}
    {l : BatchAppend.State W chrono} (hlog : ∀ v, v ≠ k → l.writers v = s.log.writers v)
    (hk : ∃ chunks, Carried (isStderr k) st (l.writers k) chunks) :
    AllCarried isStderr { s.put k st with log := l } := by
  intro v
  by_cases hv : v = k
  · subst hv
    simpa [State.put] using hk
  · simpa [State.put, hv, hlog v hv] using h v

theorem set_other {s : BatchAppend.State W chrono} {k v : W} (hv : v ≠ k)
    (x : BatchAppend.Writer chrono) : (s.set k x).writers v = s.writers v := by
  simp [BatchAppend.State.set, hv]

theorem set_self {s : BatchAppend.State W chrono} {k : W} (x : BatchAppend.Writer chrono) :
    (s.set k x).writers k = x := by
  simp [BatchAppend.State.set]

theorem carried_next {s : State W chrono} {a : Action W chrono} (h : AllCarried isStderr s)
    (he : enabled s a) : AllCarried isStderr (next rfc isStderr s a) := by
  have hput : ∀ {k : W} {st : Stream},
      (∃ chunks, Carried (isStderr k) st (s.log.writers k) chunks) →
        AllCarried isStderr (s.put k st) := fun hk => h.put (l := s.log) (fun _ _ => rfl) hk
  cases a with
  | read k chunk =>
    obtain ⟨chunks, hk⟩ := h k
    refine hput ⟨chunks, hk.reader (by rw [he.1]; nofun) fun before hbefore => ?_⟩
    rw [he.1] at hbefore
    rw [← hbefore]
    simp [Reader.pending]
  | eof k =>
    obtain ⟨chunks, hk⟩ := h k
    have hreading : (s.streams k).reader = .reading := he
    refine hput ⟨chunks, hk.reader (by rw [hreading]; nofun) fun before hbefore => ?_⟩
    rw [hreading] at hbefore
    exact hbefore
  | deliver k =>
    obtain ⟨chunks, hk⟩ := h k
    obtain ⟨⟨chunk, hsending⟩, -⟩ := he
    refine hput ⟨chunks, hk.reader (by rw [hsending]; nofun) fun before hbefore => ?_⟩
    rw [← hbefore]
    simp [Reader.pending]
  | create k =>
    obtain ⟨chunks, hk⟩ := h k
    exact hput ⟨chunks, hk.create he⟩
  | recv k =>
    obtain ⟨chunks, hk⟩ := h k
    exact hput (hk.recv he.1 he.2)
  | recvNone k =>
    obtain ⟨chunks, hk⟩ := h k
    exact hput ⟨_, hk.processBatch he.1 nofun fun _ => ⟨he.2.2, he.2.1⟩⟩
  | batchTimeout k =>
    obtain ⟨chunks, hk⟩ := h k
    exact hput ⟨_, hk.processBatch he.1 nofun nofun⟩
  | write k now =>
    obtain ⟨chunks, hk⟩ := h k
    obtain ⟨⟨r, todo, lines, after, hp⟩, -⟩ := he
    simp only [next, State.write, hp]
    refine h.put (fun v hv => set_other hv _) ⟨chunks, ?_⟩
    rw [BatchAppend.next, set_self]
    exact hk.write hp now
  | publish k =>
    obtain ⟨chunks, hk⟩ := h k
    obtain ⟨line, lines, after, hp⟩ := he
    exact hput ⟨chunks, hk.publish hp⟩
  | leave k =>
    obtain ⟨chunks, hk⟩ := h k
    obtain ⟨after, hp⟩ := he
    exact hput ⟨chunks, hk.leave hp⟩
  | close k =>
    obtain ⟨chunks, hk⟩ := h k
    refine h.put (fun v hv => set_other hv _) ⟨chunks, ?_⟩
    rw [BatchAppend.next, set_self]
    exact hk.close he
  | join k =>
    obtain ⟨chunks, hk⟩ := h k
    exact hput ⟨chunks, hk.join he.1 he.2⟩
  | log a =>
    intro k
    obtain ⟨chunks, hk⟩ := h k
    obtain ⟨hsent, hclosed, hdone⟩ := log_step rfc he.1 he.2 k
    exact ⟨chunks, hk.writer hsent hclosed hdone⟩

theorem reachable_carried {old : List UInt8} {s : State W chrono}
    (hs : (machine rfc isStderr old).Reachable s) : AllCarried isStderr s :=
  (machine rfc isStderr old).reachable_induction (fun _ => ⟨[], carried_new⟩)
    (fun _ _ => carried_next rfc) hs

theorem refines_log (old : List UInt8) :
    (machine rfc isStderr old).Refines (BatchAppend.machine rfc old) State.log where
  init := rfl
  step s a hs he := by
    have hopen : ∀ {k : W}, (s.streams k).processor.closed = false →
        (s.log.writers k).closed = false := fun {k} hp => by
      obtain ⟨chunks, hk⟩ := reachable_carried rfc hs k
      exact hk.closed.trans hp
    cases a with
    | write k now =>
      obtain ⟨⟨r, todo, lines, after, hp⟩, hroom⟩ := he
      refine ⟨[.send k ⟨now, r.content, isStderr k⟩], ⟨⟨hopen ?_, hroom⟩, trivial⟩, ?_⟩
      · rw [hp]
        rfl
      · simp only [machine, next, State.write, hp]
        rfl
    | close k =>
      have hp : (s.streams k).processor = .closing := he
      exact ⟨[.close k], ⟨hopen (by rw [hp]; rfl), trivial⟩, rfl⟩
    | log a => exact ⟨[a], ⟨he.1, trivial⟩, rfl⟩
    | _ => exact ⟨[], trivial, rfl⟩

end

-- The writer has one entry, and stderr's chunk is still in the channel.
def julyOpening : List (Action Bool BatchWriter.julyChrono) :=
  [.create false, .create true, .log (.openFile false), .log (.metadata false),
    .log (.openFile true), .log (.metadata true), .read false [0x61, 10, 0x62], .deliver false,
    .read true [0x65, 10], .eof false, .deliver true, .eof true, .recv false, .recvNone false,
    .write false true]

-- Standard output ends in the middle of a line; what stderr has is handled when a batch times out.
def julyRun : List (Action Bool BatchWriter.julyChrono) :=
  julyOpening ++
    [.publish false, .leave false, .write false true, .publish false, .leave false, .close false,
      .log (.recv false), .log (.recv false), .log (.recv false), .log (.flush false), .join false,
      .recv true, .batchTimeout true, .write true false, .publish true, .leave true, .recvNone true,
      .leave true, .leave true, .close true, .log (.recv true), .log (.tick true),
      .log (.flush true), .log (.recv true), .join true]

def july : Machine (State Bool BatchWriter.julyChrono) (Action Bool BatchWriter.julyChrono) :=
  machine BatchWriter.julyRfc3339 id []

def julyEnd : State Bool BatchWriter.julyChrono := july.exec july.init julyRun

theorem julyRun_legal : july.Legal july.init julyRun :=
  ⟨rfl, rfl, ⟨rfl, nofun⟩, ⟨rfl, nofun⟩, ⟨rfl, nofun⟩, ⟨rfl, nofun⟩,
    ⟨rfl, by decide, by decide⟩, ⟨⟨_, rfl⟩, by decide⟩, ⟨rfl, by decide, by decide⟩, rfl,
    ⟨⟨_, rfl⟩, by decide⟩, rfl, ⟨rfl, by decide⟩, ⟨rfl, rfl, rfl⟩, ⟨⟨_, _, _, _, rfl⟩, by decide⟩,
    ⟨_, _, _, rfl⟩, ⟨_, rfl⟩, ⟨⟨_, _, _, _, rfl⟩, by decide⟩, ⟨_, _, _, rfl⟩, ⟨_, rfl⟩, rfl,
    ⟨⟨rfl, nofun⟩, nofun⟩, ⟨⟨rfl, nofun⟩, nofun⟩, ⟨⟨rfl, fun _ => rfl⟩, nofun⟩, ⟨trivial, nofun⟩,
    ⟨rfl, rfl⟩, ⟨rfl, by decide⟩, ⟨rfl, by decide⟩, ⟨⟨_, _, _, _, rfl⟩, by decide⟩, ⟨_, _, _, rfl⟩,
    ⟨_, rfl⟩, ⟨rfl, rfl, rfl⟩, ⟨_, rfl⟩, ⟨_, rfl⟩, rfl, ⟨⟨rfl, nofun⟩, nofun⟩, ⟨rfl, nofun⟩,
    ⟨trivial, nofun⟩, ⟨⟨rfl, fun _ => rfl⟩, nofun⟩, ⟨rfl, rfl⟩, trivial⟩

theorem julyEnd_reachable : july.Reachable julyEnd := ⟨julyRun, julyRun_legal, rfl⟩

def julyBusy : State Bool BatchWriter.julyChrono := july.exec july.init julyOpening

theorem julyBusy_reachable : july.Reachable julyBusy :=
  ⟨julyOpening, (july.throughout_append.mp julyRun_legal).1, rfl⟩

end Pipeline
