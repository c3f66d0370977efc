import Mcproc.Log.Pipeline

namespace BatchAppend

variable {W : Type} {chrono : Chrono} [DecidableEq W] (rfc : Rfc3339 chrono)

-- A full batch is flushed before anything else is received.
structure Roomy (x : Writer chrono) : Prop where
  queue : x.queue.length ≤ channelBufferSize
  batch : x.batch.length ≤ writeBatchSize
  room : (∀ last, x.phase ≠ .flush last) → x.batch.length < writeBatchSize

variable {s : State W chrono}

theorem roomy_set (h : ∀ v, Roomy (s.writers v)) {k : W} {x : Writer chrono} (hx : Roomy x) (v : W) :
    Roomy ((s.set k x).writers v) := by
  by_cases hv : v = k
  · subst hv
    simpa [State.set] using hx
  · simpa [State.set, hv] using h v

theorem Roomy.goto {x : Writer chrono} (h : Roomy x) (hflush : ∀ last, x.phase ≠ .flush last)
    (phase : Phase) : Roomy (x.goto phase) :=
  ⟨h.queue, h.batch, fun _ => h.room hflush⟩

theorem Roomy.flushOr {x : Writer chrono} (h : Roomy x) (hflush : ∀ last, x.phase ≠ .flush last)
    (last : Bool) (phase : Phase) : Roomy (x.flushOr last phase) := by
  simp only [Writer.flushOr]
  split <;> exact h.goto hflush _

theorem Roomy.recv {x : Writer chrono} (h : Roomy x) (hflush : ∀ last, x.phase ≠ .flush last) :
    Roomy x.recv := by
  have hroom := h.room hflush
  have hqueue := h.queue
  simp only [Writer.recv]
  split
  · next entry queue hq =>
    rw [hq, List.length_cons] at hqueue
    refine ⟨Nat.le_of_succ_le hqueue, ?_, fun hnot => ?_⟩
    · rw [List.length_append, List.length_singleton]
      exact hroom
    · refine Nat.lt_of_not_le fun hfull => hnot false ?_
      exact if_pos hfull
  · exact h.flushOr hflush _ _

theorem roomy_next {a : Action W chrono} (h : ∀ v, Roomy (s.writers v)) (he : enabled s a) :
    ∀ v, Roomy ((next rfc s a).writers v) := by
  have hopen : ∀ {k : W} {p : Phase}, (s.writers k).phase = p → (∀ last, p ≠ .flush last) →
      ∀ last, (s.writers k).phase ≠ .flush last := fun hp hne last hl => hne last (hp.symm.trans hl)
  cases a with
  | send k entry =>
    refine roomy_set h ⟨?_, (h k).batch, (h k).room⟩
    simp only [Writer.send, List.length_append, List.length_singleton]
    exact he.2
  | close k => exact roomy_set h ⟨(h k).queue, (h k).batch, (h k).room⟩
  | openFile k => exact roomy_set h ((h k).goto (hopen he (by simp)) _)
  | metadata k => exact roomy_set h ((h k).goto (hopen he (by simp)) _)
  | seekEnd k => exact roomy_set h ((h k).goto (hopen he.1 (by simp)) _)
  | readExact k =>
    simp only [next]
    split
    · next pos hp => exact roomy_set h ((h k).goto (hopen hp (by simp)) _)
    · exact h
  | repair k => exact roomy_set (s := s.append _) h ((h k).goto (hopen he (by simp)) _)
  | recv k => exact roomy_set h ((h k).recv (hopen he.1 (by simp)))
  | tick k => exact roomy_set h ((h k).flushOr (hopen he (by simp)) _ _)
  | flush k =>
    simp only [next]
    split
    · exact roomy_set (s := s.append _) h
        ⟨(h k).queue, Nat.zero_le _, fun _ => by simp [Writer.flushed, writeBatchSize]⟩
    · exact h

theorem reachable_roomy {old : List UInt8} (hs : (machine rfc old).Reachable s) :
    ∀ v, Roomy (s.writers v) :=
  (machine rfc old).reachable_induction
    (fun _ => ⟨Nat.zero_le _, Nat.zero_le _, fun _ => Nat.zero_lt_succ 99⟩)
    (fun _ _ => roomy_next rfc) hs

end BatchAppend

namespace Pipeline

open HyperLog (Record newline chunkSize batchSize maxLineBufferSize finalFlush)
open LiveStream (linesToPublish)
open ReadyChannel (After chunkChannelCapacity)
open BatchWriter (LogEntry)

section
variable {W : Type} {chrono : Chrono} [DecidableEq W] (rfc : Rfc3339 chrono) {isStderr : W → Bool}
  {stderr : Bool} {st : Stream} {x : BatchAppend.Writer chrono} {chunks : List (List UInt8)}

theorem Carried.kept (h : Carried stderr st x chunks) : HyperLog.Kept st.lineBuffer := by
  rw [h.buffer]
  split
  · exact ⟨List.not_mem_nil, Nat.zero_le _⟩
  · exact HyperLog.processBatch_kept _ ⟨List.not_mem_nil, Nat.zero_le _⟩

theorem feed_count (b c : List UInt8) :
    (Lines.feed newline b c).1.length + (Lines.feed newline b c).2.length ≤ b.length + c.length := by
  induction c generalizing b with
  | nil => simp [Lines.feed]
  | cons x c ih =>
    simp only [Lines.feed]
    split
    · have hrest := ih []
      simp only [List.length_cons, List.length_nil] at hrest ⊢
      omega
    · have hrest := ih (b ++ [x])
      simp only [List.length_append, List.length_cons, List.length_nil] at hrest ⊢
      omega

theorem processBatch_count {b : List UInt8} (cs : List (List UInt8)) (hb : newline ∉ b) :
    (HyperLog.processBatch b cs).1.length + (HyperLog.processBatch b cs).2.length ≤
      b.length + cs.flatten.length := by
  induction cs generalizing b with
  | nil => simp [HyperLog.processBatch]
  | cons c cs ih =>
    have hrest := ih (HyperLog.processChunk_kept c hb).1
    have hcount := feed_count b c
    have hchunk : (HyperLog.processChunk b c).1.length + (HyperLog.processChunk b c).2.length ≤
        b.length + c.length := by
      rw [HyperLog.processChunk_eq c hb]
      split
      · simp only [List.length_append, List.length_map, List.length_singleton, List.length_nil]
        omega
      · simpa using hcount
    simp only [HyperLog.processBatch, List.length_append, List.flatten_cons]
    omega

def readerWeight : Reader → Nat
  | .reading => 1
  | .sending chunk => 5 * chunk.length + 5
  | .ended => 0

def processorWeight : Processor → Nat
  | .creating => 6
  | .select => 5
  | .processing toWrite toPublish after =>
    3 * toWrite.length + toPublish.length +
      match after with
      | .loop => 6
      | .flush => 4
      | .close => 3
  | .closing => 2
  | .joining => 1
  | .done => 0

def streamWeight (st : Stream) : Nat :=
  readerWeight st.reader + (5 * st.channel.flatten.length + 3 * st.channel.length) +
    (5 * st.batch.flatten.length + 2 * st.batch.length) + 5 * st.lineBuffer.length +
    processorWeight st.processor

def phaseWeight : BatchAppend.Phase → Nat
  | .openFile => 8
  | .metadata => 7
  | .seekEnd => 6
  | .readExact _ => 5
  | .repair => 4
  | .flush false => 3
  | .select => 2
  | .flush true => 1
  | .done => 0

def writerWeight (x : BatchAppend.Writer chrono) : Nat := 2 * x.queue.length + phaseWeight x.phase

def remaining (k : W) (s : State W chrono) : Nat :=
  streamWeight (s.streams k) + writerWeight (s.log.writers k)

theorem process_weight (records : List Record) (after : After) :
    processorWeight (.processing records (linesToPublish records) after) ≤
      4 * records.length + processorWeight (.processing [] [] after) := by
  have hlines : (linesToPublish records).length ≤ records.length :=
    List.length_filterMap_le _ _
  simp only [processorWeight, List.length_nil]
  omega

theorem processBatch_weight (hb : newline ∉ st.lineBuffer) (hp : st.processor = .select)
    {after : After} (hafter : after = .loop ∧ st.batch ≠ [] ∨ after = .flush) :
    streamWeight (st.processBatch after) < streamWeight st := by
  have hcount := processBatch_count st.batch hb
  have hprocess := process_weight (HyperLog.processBatch st.lineBuffer st.batch).1 after
  have hselect : processorWeight .select = 5 := rfl
  have hphase : processorWeight (.processing [] [] after) < 5 + 2 * st.batch.length := by
    rcases hafter with ⟨rfl, hne⟩ | rfl
    · have hpos := List.length_pos_iff.mpr hne
      simp only [processorWeight, List.length_nil]
      omega
    · simp only [processorWeight, List.length_nil]
      omega
  simp only [streamWeight, Stream.processBatch, Stream.process, Stream.goto, hp, List.flatten_nil,
    List.length_nil]
  omega

theorem recv_weight (hb : newline ∉ st.lineBuffer) (hp : st.processor = .select)
    (hne : st.channel ≠ []) : streamWeight st.recv < streamWeight st := by
  obtain ⟨chunk, rest, hchannel⟩ := List.exists_cons_of_ne_nil hne
  have hpushed : streamWeight { st with channel := rest, batch := st.batch ++ [chunk] } <
      streamWeight st := by
    simp only [streamWeight, hchannel, List.flatten_cons, List.flatten_append, List.flatten_nil,
      List.append_nil, List.length_append, List.length_cons, List.length_nil]
    omega
  simp only [Stream.recv, hchannel]
  split
  · have hsplit : streamWeight
          (({ st with channel := rest, batch := st.batch ++ [chunk] } : Stream).processBatch .loop) <
        streamWeight { st with channel := rest, batch := st.batch ++ [chunk] } := by
      refine processBatch_weight ?_ ?_ (Or.inl ⟨rfl, ?_⟩)
      · exact hb
      · exact hp
      · simp
    exact hsplit.trans hpushed
  · exact hpushed

theorem leave_weight {after : After} (hb : newline ∉ st.lineBuffer)
    (hp : st.processor = .processing [] [] after) :
    streamWeight st.leave < streamWeight st := by
  cases after with
  | loop => simp [Stream.leave, hp, streamWeight, Stream.goto, processorWeight]
  | flush =>
    have hrecords : (finalFlush st.lineBuffer).length ≤ st.lineBuffer.length := by
      rw [HyperLog.finalFlush_eq hb]
      split
      · exact Nat.zero_le _
      · next hne => exact List.length_pos_iff.mpr hne
    have hprocess := process_weight (finalFlush st.lineBuffer) .close
    have hclose : processorWeight (.processing [] [] .close) = 3 := rfl
    have hflush : processorWeight (.processing [] [] .flush) = 4 := rfl
    simp only [Stream.leave, hp, streamWeight, Stream.process, Stream.goto, List.length_nil]
    omega
  | close => simp [Stream.leave, hp, streamWeight, Stream.goto, processorWeight]

theorem writer_onward {old : List UInt8} {s : State W chrono}
    (hs : (machine rfc isStderr old).Reachable s) {k : W}
    (hcreated : (s.streams k).processor ≠ .creating) (hdone : (s.log.writers k).phase ≠ .done)
    (hwork : (s.log.writers k).queue ≠ [] ∨ (s.log.writers k).closed = true) :
    ∃ a, enabled s a ∧ remaining k (next rfc isStderr s a) < remaining k s := by
  obtain ⟨pieces, hw⟩ := BatchAppend.reachable_written rfc ((refines_log rfc old).reachable hs)
  have hphase := hw.phase k
  have hquiet : ∀ {phase : BatchAppend.Phase} {a : BatchAppend.Action W chrono},
      BatchAppend.enabled s.log a → writerOpen s a →
      BatchAppend.next rfc s.log a = s.log.set k ((s.log.writers k).goto phase) →
      phaseWeight phase < phaseWeight (s.log.writers k).phase →
      ∃ a, enabled s a ∧ remaining k (next rfc isStderr s a) < remaining k s := by
    intro phase a he ho hnext hless
    refine ⟨.log a, ⟨he, ho⟩, ?_⟩
    simp only [next, hnext, remaining, set_self, writerWeight, BatchAppend.Writer.goto]
    omega
  cases hp : (s.log.writers k).phase with
  | openFile =>
    exact hquiet (a := .openFile k) hp hcreated rfl (by rw [hp]; decide)
  | metadata =>
    refine hquiet (a := .metadata k) hp hcreated rfl ?_
    rw [hp]
    split <;> decide
  | seekEnd =>
    rw [hp] at hphase
    exact hquiet (a := .seekEnd k) ⟨hp, hphase⟩ hcreated rfl
      (by rw [hp]; exact Nat.lt_succ_self 5)
  | readExact pos =>
    rw [hp] at hphase
    refine hquiet (a := .readExact k) (by simpa only [BatchAppend.enabled, hp] using hphase.1)
      hcreated (by simp only [BatchAppend.next, hp]; rfl) ?_
    rw [hp]
    split
    · exact (by decide : 2 < 5)
    · exact (by decide : 4 < 5)
  | repair =>
    refine ⟨.log (.repair k), ⟨hp, hcreated⟩, ?_⟩
    simp only [next, BatchAppend.next, remaining, set_self, writerWeight, BatchAppend.Writer.goto, hp]
    exact Nat.add_lt_add_left (Nat.add_lt_add_left (by decide) _) _
  | select =>
    refine ⟨.log (.recv k), ⟨⟨hp, fun hempty => hwork.resolve_left (not_not_intro hempty)⟩,
      hcreated⟩, ?_⟩
    simp only [next, BatchAppend.next, remaining, set_self]
    refine Nat.add_lt_add_left ?_ _
    simp only [BatchAppend.Writer.recv]
    cases hq : (s.log.writers k).queue with
    | cons entry queue =>
      simp only [writerWeight, hq, hp, List.length_cons]
      split <;> simp only [phaseWeight] <;> omega
    | nil =>
      simp only [BatchAppend.Writer.flushOr]
      split <;> simp [writerWeight, BatchAppend.Writer.goto, hq, hp, phaseWeight]
  | flush last =>
    refine ⟨.log (.flush k), ⟨by simp only [BatchAppend.enabled, hp], hcreated⟩, ?_⟩
    simp only [next, BatchAppend.next, hp, remaining, set_self, writerWeight,
      BatchAppend.Writer.flushed]
    refine Nat.add_lt_add_left (Nat.add_lt_add_left ?_ _) _
    cases last <;> decide
  | done => exact absurd hp hdone

theorem put_weight {s : State W chrono} {k : W} {st : Stream} (h : streamWeight st <
    streamWeight (s.streams k)) : remaining k (s.put k st) < remaining k s := by
  simp only [remaining, State.put, Function.update_self]
  omega

theorem stream_onward {old : List UInt8} {s : State W chrono}
    (hs : (machine rfc isStderr old).Reachable s) {k : W} (now : chrono.DateTime)
    (hopen : (s.streams k).processor ≠ .done) :
    ∃ a, enabled s a ∧ remaining k (next rfc isStderr s a) < remaining k s := by
  obtain ⟨chunks, hk⟩ := reachable_carried rfc hs k
  have hb : newline ∉ (s.streams k).lineBuffer := hk.kept.1
  have hdrained := @BatchAppend.done_drained W chrono rfc _ old s.log
    ((refines_log rfc old).reachable hs) k
  cases hp : (s.streams k).processor with
  | creating =>
    refine ⟨.create k, hp, put_weight ?_⟩
    simp [streamWeight, Stream.goto, hp, processorWeight]
  | select =>
    by_cases hchannel : (s.streams k).channel = []
    · cases hr : (s.streams k).reader with
      | reading =>
        refine ⟨.eof k, hr, put_weight ?_⟩
        simp [streamWeight, hr, readerWeight]
      | sending chunk =>
        refine ⟨.deliver k, ⟨⟨chunk, hr⟩, by rw [hchannel]; decide⟩, put_weight ?_⟩
        simp only [streamWeight, hr, hchannel, readerWeight, Reader.pending, List.nil_append,
          List.flatten_cons, List.flatten_nil, List.append_nil, List.length_cons, List.length_nil]
        omega
      | ended =>
        exact ⟨.recvNone k, ⟨hp, hchannel, hr⟩,
          put_weight (processBatch_weight hb hp (Or.inr rfl))⟩
    · exact ⟨.recv k, ⟨hp, hchannel⟩, put_weight (recv_weight hb hp hchannel)⟩
  | processing toWrite toPublish after =>
    have hwriting : (s.log.writers k).closed = false := by rw [hk.closed, hp]; rfl
    cases toWrite with
    | cons r todo =>
      by_cases hroom : (s.log.writers k).queue.length < BatchAppend.channelBufferSize
      · refine ⟨.write k now, ⟨⟨r, todo, toPublish, after, hp⟩, hroom⟩, ?_⟩
        simp only [next, State.write, hp, remaining, State.put, Function.update_self,
          BatchAppend.next, set_self, streamWeight, Stream.goto, processorWeight, writerWeight,
          BatchAppend.Writer.send, List.length_append, List.length_cons, List.length_nil]
        omega
      · refine writer_onward rfc hs (by rw [hp]; simp) (fun hdone => ?_) (Or.inl fun hempty => ?_)
        · exact absurd ((hdrained hdone).1.symm.trans hwriting) (by decide)
        · exact hroom (by rw [hempty, List.length_nil]; decide)
    | nil =>
      cases toPublish with
      | cons line lines =>
        refine ⟨.publish k, ⟨line, lines, after, hp⟩, put_weight ?_⟩
        simp only [Stream.publish, hp, streamWeight, processorWeight, List.length_cons]
        omega
      | nil => exact ⟨.leave k, ⟨after, hp⟩, put_weight (leave_weight hb hp)⟩
  | closing =>
    refine ⟨.close k, hp, ?_⟩
    simp only [next, remaining, State.put, Function.update_self, BatchAppend.next, set_self,
      streamWeight, Stream.goto, hp, writerWeight, processorWeight]
    omega
  | joining =>
    by_cases hdone : (s.log.writers k).phase = .done
    · refine ⟨.join k, ⟨hp, hdone⟩, put_weight ?_⟩
      simp [streamWeight, Stream.goto, hp, processorWeight]
    · exact writer_onward rfc hs (by rw [hp]; simp) hdone (Or.inr (by rw [hk.closed, hp]; rfl))
  | done => exact absurd hp hopen

theorem done_stays {s : State W chrono} {a : Action W chrono} (he : enabled s a) {v : W}
    (hv : (s.streams v).processor = .done) :
    ((next rfc isStderr s a).streams v).processor = .done := by
  have hput {k : W} {st : Stream} (h : k = v → st.processor = .done) :
      ((s.put k st).streams v).processor = .done := by
    by_cases hk : k = v
    · subst hk
      simpa [State.put] using h rfl
    · simpa [State.put, Ne.symm hk] using hv
  have hopen {k : W} {p : Processor} (hp : (s.streams k).processor = p) (hne : p ≠ .done) :
      k ≠ v := by
    rintro rfl
    exact hne (hp.symm.trans hv)
  cases a with
  | read | eof | deliver => exact hput fun hk => hk ▸ hv
  | create => exact hput fun hk => absurd hk (hopen he (by simp))
  | recv | recvNone | batchTimeout => exact hput fun hk => absurd hk (hopen he.1 (by simp))
  | write =>
    obtain ⟨⟨r, todo, lines, after, hp⟩, -⟩ := he
    simp only [next, State.write, hp]
    exact hput fun hk => absurd hk (hopen hp (by simp))
  | publish =>
    obtain ⟨line, lines, after, hp⟩ := he
    exact hput fun hk => absurd hk (hopen hp (by simp))
  | leave =>
    obtain ⟨after, hp⟩ := he
    exact hput fun hk => absurd hk (hopen hp (by simp))
  | close => exact hput fun hk => absurd hk (hopen he (by simp))
  | join => exact hput fun _ => rfl
  | log => exact hv

theorem can_finish_next {old : List UInt8} {s : State W chrono}
    (hs : (machine rfc isStderr old).Reachable s) (now : chrono.DateTime) {finished : List W}
    (hfinished : ∀ v ∈ finished, (s.streams v).processor = .done) (k : W) :
    (machine rfc isStderr old).CanReach (fun t => (machine rfc isStderr old).Reachable t ∧
      ∀ v ∈ k :: finished, (t.streams v).processor = .done) s := by
  refine (machine rfc isStderr old).canReach_mono
    (fun t ht => ⟨ht.1.1, List.forall_mem_cons.mpr ⟨ht.2, ht.1.2⟩⟩)
    ((machine rfc isStderr old).canReach_of_size (J := fun t =>
      (machine rfc isStderr old).Reachable t ∧ ∀ v ∈ finished, (t.streams v).processor = .done)
      (P := fun t => (t.streams k).processor = .done) (remaining k) (fun t ht hopen => ?_)
      ⟨hs, hfinished⟩)
  obtain ⟨a, he, hless⟩ := stream_onward rfc ht.1 now hopen
  exact ⟨a, he, ⟨(machine rfc isStderr old).reachable_next ht.1 he,
    fun v hv => done_stays rfc he (ht.2 v hv)⟩, hless⟩

theorem streams_can_finish {old : List UInt8} {s : State W chrono}
    (hs : (machine rfc isStderr old).Reachable s) (now : chrono.DateTime) (ks : List W) :
    (machine rfc isStderr old).CanReach
      (fun t => ∀ k ∈ ks, (t.streams k).processor = .done) s := by
  have hall : (machine rfc isStderr old).CanReach (fun t =>
      (machine rfc isStderr old).Reachable t ∧ ∀ k ∈ ks, (t.streams k).processor = .done) s := by
    induction ks with
    | nil => exact (machine rfc isStderr old).canReach_here ⟨hs, nofun⟩
    | cons k ks ih =>
      exact (machine rfc isStderr old).canReach_trans ih fun t ht =>
        can_finish_next rfc ht.1 now ht.2 k
  exact (machine rfc isStderr old).canReach_mono (fun t ht => ht.2) hall

-- The lines of one batch, with a newline for each place where a line is cut.
def recordsLimit : Nat := maxLineBufferSize + batchSize * (chunkSize + 1)

theorem flatten_bounded {A : Type} {ls : List (List A)} {m : Nat} (h : ∀ l ∈ ls, l.length ≤ m) :
    ls.flatten.length ≤ ls.length * m := by
  induction ls with
  | nil => simp
  | cons l ls ih =>
    have hl := h l List.mem_cons_self
    have hrest := ih fun l' hl' => h l' (List.mem_cons_of_mem l hl')
    rw [List.flatten_cons, List.length_append, List.length_cons, Nat.succ_mul]
    omega

theorem processChunk_bytes {b : List UInt8} (c : List UInt8) (hb : newline ∉ b) :
    ((HyperLog.processChunk b c).1.map Record.content).flatten.length +
        (HyperLog.processChunk b c).2.length ≤ b.length + c.length + 1 := by
  have hflatten := congrArg List.length (Lines.feed_flatten newline b c)
  rw [List.length_append, List.length_append] at hflatten
  have hcontents : (((Lines.feed newline b c).1.map (⟨·, false⟩ : List UInt8 → Record)).map
      Record.content) = (Lines.feed newline b c).1 := by
    simp [Function.comp_def]
  rw [HyperLog.processChunk_eq c hb]
  split
  · simp only [List.map_append, hcontents, List.flatten_append, List.length_append, List.map_cons,
      List.map_nil, List.flatten_cons, List.flatten_nil, List.length_nil, List.length_cons]
    omega
  · simp only [hcontents]
    omega

theorem processBatch_bytes {b : List UInt8} (cs : List (List UInt8)) (hb : newline ∉ b) :
    ((HyperLog.processBatch b cs).1.map Record.content).flatten.length +
        (HyperLog.processBatch b cs).2.length ≤ b.length + cs.flatten.length + cs.length := by
  induction cs generalizing b with
  | nil => simp [HyperLog.processBatch]
  | cons c cs ih =>
    have hrest := ih (HyperLog.processChunk_kept c hb).1
    have hchunk := processChunk_bytes c hb
    simp only [HyperLog.processBatch, List.map_append, List.flatten_append, List.length_append,
      List.flatten_cons, List.length_cons]
    omega

theorem fromUtf8_length {bytes : List UInt8} {cs : List Char} (h : Utf8.fromUtf8 bytes = some cs) :
    cs.length ≤ bytes.length := by
  rw [← Utf8.encode_of_fromUtf8 h, Utf8.encode, String.toList_ofList]
  clear h
  induction cs with
  | nil => exact Nat.zero_le _
  | cons c cs ih =>
    have hpos : 0 < (String.utf8EncodeChar c).length := by
      rw [String.length_utf8EncodeChar]
      exact Char.utf8Size_pos c
    rw [List.flatMap_cons, List.length_append, List.length_cons]
    omega

theorem trimEnd_length (cs : List Char) : (Validation.trimEnd cs).length ≤ cs.length := by
  have hdrop : (cs.reverse.dropWhile Validation.isWhitespace).length ≤ cs.reverse.length :=
    (List.dropWhile_sublist _).length_le
  rw [Validation.trimEnd, List.length_reverse]
  rwa [List.length_reverse] at hdrop

theorem linesToPublish_length (records : List Record) :
    (linesToPublish records).flatten.length ≤ (records.map Record.content).flatten.length := by
  induction records with
  | nil => exact Nat.le_refl _
  | cons r records ih =>
    rw [List.map_cons, List.flatten_cons, List.length_append]
    cases hr : Utf8.fromUtf8 r.content with
    | none =>
      have hnone : linesToPublish (r :: records) = linesToPublish records :=
        List.filterMap_cons_none (by rw [hr]; rfl)
      rw [hnone]
      omega
    | some cs =>
      have hsome : linesToPublish (r :: records) =
          Validation.trimEnd cs :: linesToPublish records :=
        List.filterMap_cons_some (by rw [hr]; rfl)
      have htrim := trimEnd_length cs
      have hlength := fromUtf8_length hr
      rw [hsome, List.flatten_cons, List.length_append]
      omega

structure Bounded (st : Stream) (x : BatchAppend.Writer chrono) : Prop where
  channel : st.channel.length ≤ chunkChannelCapacity
  batch : st.batch.length < batchSize
  chunks : ∀ chunk ∈ st.reader.pending ++ st.channel ++ st.batch, chunk.length ≤ chunkSize
  records : (st.processor.toWrite.map Record.content).flatten.length ≤ recordsLimit
  lines : st.processor.toPublish.flatten.length ≤ recordsLimit
  entries : ∀ entry ∈ x.sent, entry.content.length ≤ recordsLimit

theorem Bounded.writer {x' : BatchAppend.Writer chrono} (h : Bounded st x)
    (hsent : x'.sent = x.sent) : Bounded st x' :=
  { h with entries := hsent ▸ h.entries }

theorem Bounded.goto {processor : Processor} (h : Bounded st x) (htoWrite : processor.toWrite = [])
    (htoPublish : processor.toPublish = []) : Bounded (st.goto processor) x :=
  { h with
    records := by
      simp only [Stream.goto, htoWrite]
      exact Nat.zero_le _
    lines := by
      simp only [Stream.goto, htoPublish]
      exact Nat.zero_le _ }

theorem Bounded.process {records : List Record} {after : After} (h : Bounded st x)
    (hrecords : (records.map Record.content).flatten.length ≤ recordsLimit) :
    Bounded (st.process records after) x :=
  { h with
    records := hrecords
    lines := Nat.le_trans (linesToPublish_length records) hrecords }

theorem splitting_bounded {b : List UInt8} {cs : List (List UInt8)} (hb : HyperLog.Kept b)
    (hlen : cs.length ≤ batchSize) (hchunks : ∀ chunk ∈ cs, chunk.length ≤ chunkSize) :
    ((HyperLog.processBatch b cs).1.map Record.content).flatten.length ≤ recordsLimit := by
  have hbytes := processBatch_bytes cs hb.1
  have hflatten := flatten_bounded hchunks
  have hsize : cs.length * (chunkSize + 1) ≤ batchSize * (chunkSize + 1) :=
    Nat.mul_le_mul_right _ hlen
  have hkept := hb.2
  rw [Nat.mul_succ] at hsize
  rw [recordsLimit]
  omega

theorem Bounded.processBatch {after : After} (h : Bounded st x) (hb : HyperLog.Kept st.lineBuffer) :
    Bounded (st.processBatch after) x := by
  have hsplit := splitting_bounded hb (Nat.le_of_lt h.batch)
    fun chunk hchunk => h.chunks chunk (List.mem_append_right _ hchunk)
  have hempty : Bounded { st with
      batch := []
      lineBuffer := (HyperLog.processBatch st.lineBuffer st.batch).2 } x :=
    { h with
      batch := Nat.zero_lt_succ 3
      chunks := fun chunk hchunk => h.chunks chunk (by
        rw [List.append_nil] at hchunk
        exact List.mem_append_left _ hchunk) }
  exact hempty.process hsplit

theorem Bounded.recv (h : Bounded st x) (hb : HyperLog.Kept st.lineBuffer) :
    Bounded st.recv x := by
  cases hchannel : st.channel with
  | nil =>
    simp only [Stream.recv, hchannel]
    exact h
  | cons chunk rest =>
    simp only [Stream.recv, hchannel]
    have hlen := h.channel
    have hbatch := h.batch
    have hall := h.chunks
    rw [hchannel] at hlen hall
    have hrest : rest.length ≤ chunkChannelCapacity := Nat.le_of_succ_le hlen
    have hpushed : ∀ c ∈ st.batch ++ [chunk], c.length ≤ chunkSize := fun c hc => by
      refine hall c ?_
      simp only [List.mem_append, List.mem_cons, List.not_mem_nil, or_false] at hc ⊢
      tauto
    have hleft : ∀ c ∈ st.reader.pending ++ rest, c.length ≤ chunkSize := fun c hc => by
      refine hall c ?_
      simp only [List.mem_append, List.mem_cons] at hc ⊢
      tauto
    split
    · refine ⟨hrest, Nat.zero_lt_succ 3, ?_, ?_, ?_, h.entries⟩
      · intro c hc
        exact hleft c (by simpa [Stream.processBatch, Stream.process, Stream.goto] using hc)
      · refine splitting_bounded hb ?_ hpushed
        rw [List.length_append, List.length_singleton]
        exact hbatch
      · refine Nat.le_trans (linesToPublish_length _) (splitting_bounded hb ?_ hpushed)
        rw [List.length_append, List.length_singleton]
        exact hbatch
    · next hnotFull =>
      refine ⟨hrest, Nat.lt_of_not_le hnotFull, ?_, h.records, h.lines, h.entries⟩
      intro c hc
      rcases List.mem_append.mp hc with hc | hc
      · exact hleft c hc
      · exact hpushed c hc

theorem Bounded.write {r : Record} {todo : List Record} {lines : List (List Char)} {after : After}
    (h : Bounded st x) (hp : st.processor = .processing (r :: todo) lines after)
    (entry : LogEntry chrono) (hentry : entry.content = r.content) :
    Bounded (st.goto (.processing todo lines after)) (x.send entry) := by
  have hrecords := h.records
  have hlines := h.lines
  simp only [hp, Processor.toWrite, Processor.toPublish, List.map_cons, List.flatten_cons,
    List.length_append] at hrecords hlines
  refine ⟨h.channel, h.batch, h.chunks, ?_, hlines, ?_⟩
  · simp only [Stream.goto, Processor.toWrite]
    omega
  · intro e he
    rcases List.mem_append.mp he with he | he
    · exact h.entries e he
    · rw [List.mem_singleton.mp he, hentry]
      omega

theorem Bounded.publish {line : List Char} {lines : List (List Char)} {after : After}
    (h : Bounded st x) (hp : st.processor = .processing [] (line :: lines) after) :
    Bounded st.publish x := by
  have hlines := h.lines
  simp only [hp, Processor.toPublish, List.flatten_cons, List.length_append] at hlines
  simp only [Stream.publish, hp]
  exact ⟨h.channel, h.batch, h.chunks, Nat.zero_le _, Nat.le_trans (Nat.le_add_left _ _) hlines,
    h.entries⟩

theorem Bounded.leave {after : After} (h : Bounded st x) (hb : HyperLog.Kept st.lineBuffer)
    (hp : st.processor = .processing [] [] after) : Bounded st.leave x := by
  cases after with
  | loop =>
    simp only [Stream.leave, hp]
    exact h.goto rfl rfl
  | flush =>
    have hempty : Bounded { st with lineBuffer := [] } x := { h with }
    have hkept := hb.2
    simp only [Stream.leave, hp]
    refine hempty.process ?_
    rw [HyperLog.finalFlush_eq hb.1, recordsLimit]
    split
    · exact Nat.zero_le _
    · simp only [List.map_cons, List.map_nil, List.flatten_cons, List.flatten_nil, List.append_nil,
        List.length_append, List.length_singleton, batchSize]
      omega
  | close =>
    simp only [Stream.leave, hp]
    exact h.goto rfl rfl

theorem bounded_put {s : State W chrono} (h : ∀ k, Bounded (s.streams k) (s.log.writers k)) {k : W}
    {st : Stream} {l : BatchAppend.State W chrono}
    (hlog : ∀ v, v ≠ k → l.writers v = s.log.writers v) (hk : Bounded st (l.writers k)) (v : W) :
    Bounded (({ s.put k st with log := l } : State W chrono).streams v) (l.writers v) := by
  by_cases hv : v = k
  · subst hv
    simpa [State.put] using hk
  · simpa [State.put, hv, hlog v hv] using h v

theorem bounded_next {old : List UInt8} {s : State W chrono} {a : Action W chrono}
    (hs : (machine rfc isStderr old).Reachable s)
    (h : ∀ k, Bounded (s.streams k) (s.log.writers k)) (he : enabled s a) :
    ∀ k, Bounded ((next rfc isStderr s a).streams k) ((next rfc isStderr s a).log.writers k) := by
  have hkept : ∀ k, HyperLog.Kept (s.streams k).lineBuffer := fun k => by
    obtain ⟨chunks, hk⟩ := reachable_carried rfc hs k
    exact hk.kept
  have hput : ∀ {k : W} {st : Stream}, Bounded st (s.log.writers k) →
      ∀ v, Bounded ((s.put k st).streams v) (s.log.writers v) := fun hk =>
    bounded_put h (l := s.log) (fun _ _ => rfl) hk
  cases a with
  | read k chunk =>
    obtain ⟨hreading, -, hsize⟩ := he
    refine hput { h k with
      chunks := fun c hc => ?_ }
    rw [List.append_assoc] at hc
    rcases List.mem_append.mp hc with hc | hc
    · rw [List.mem_singleton.mp hc]
      exact hsize
    · exact (h k).chunks c (by rw [List.append_assoc]; exact List.mem_append_right _ hc)
  | eof k =>
    refine hput { h k with
      chunks := fun c hc => (h k).chunks c ?_ }
    rw [List.append_assoc]
    exact List.mem_append_right _ hc
  | deliver k =>
    obtain ⟨⟨chunk, hsending⟩, hroom⟩ := he
    have hall := (h k).chunks
    rw [hsending] at hall
    refine hput { h k with
      channel := ?_
      chunks := fun c hc => hall c ?_ }
    · rw [hsending, List.length_append]
      exact hroom
    · simp only [hsending, Reader.pending, List.mem_append] at hc ⊢
      tauto
  | create k => exact hput ((h k).goto rfl rfl)
  | recv k => exact hput ((h k).recv (hkept k))
  | recvNone k | batchTimeout k => exact hput ((h k).processBatch (hkept k))
  | write k now =>
    obtain ⟨⟨r, todo, lines, after, hp⟩, -⟩ := he
    simp only [next, State.write, hp]
    refine bounded_put h (fun v hv => set_other hv _) ?_
    rw [set_self]
    exact (h k).write hp _ rfl
  | publish k =>
    obtain ⟨line, lines, after, hp⟩ := he
    exact hput ((h k).publish hp)
  | leave k =>
    obtain ⟨after, hp⟩ := he
    exact hput ((h k).leave (hkept k) hp)
  | close k =>
    refine bounded_put h (l := BatchAppend.next rfc s.log (.close k)) (fun v hv => set_other hv _) ?_
    rw [BatchAppend.next, set_self]
    exact ((h k).goto rfl rfl).writer rfl
  | join k => exact hput ((h k).goto rfl rfl)
  | log a =>
    intro k
    exact (h k).writer (log_step rfc he.1 he.2 k).sent

theorem reachable_bounded {old : List UInt8} {s : State W chrono}
    (hs : (machine rfc isStderr old).Reachable s) (k : W) :
    Bounded (s.streams k) (s.log.writers k) :=
  (machine rfc isStderr old).reachable_induction'
    (J := fun s => ∀ k, Bounded (s.streams k) (s.log.writers k))
    (fun _ => ⟨Nat.zero_le _, Nat.zero_lt_succ 3, nofun, Nat.zero_le _, Nat.zero_le _, nofun⟩)
    (fun _ _ => bounded_next rfc) hs k

-- The output of a process that is held somewhere between its pipe and the file.
def heldBytes (st : Stream) (x : BatchAppend.Writer chrono) : Nat :=
  (st.reader.pending ++ st.channel ++ st.batch).flatten.length + st.lineBuffer.length +
    (st.processor.toWrite.map Record.content).flatten.length +
    st.processor.toPublish.flatten.length +
    ((x.batch ++ x.queue).map LogEntry.content).flatten.length

def heldLimit : Nat :=
  (1 + chunkChannelCapacity + batchSize) * chunkSize + maxLineBufferSize + 2 * recordsLimit +
    (BatchAppend.writeBatchSize + BatchAppend.channelBufferSize) * recordsLimit

theorem held_bounded {old : List UInt8} {s : State W chrono}
    (hs : (machine rfc isStderr old).Reachable s) (k : W) :
    heldBytes (s.streams k) (s.log.writers k) ≤ heldLimit := by
  have h := reachable_bounded rfc hs k
  have hlog := (refines_log rfc old).reachable hs
  have hroomy := BatchAppend.reachable_roomy rfc hlog k
  obtain ⟨chunks, hk⟩ := reachable_carried rfc hs k
  obtain ⟨pieces, hpieces⟩ := BatchAppend.reachable_written rfc hlog
  have hchunks := flatten_bounded h.chunks
  have hchunkCount : ((s.streams k).reader.pending ++ (s.streams k).channel ++
      (s.streams k).batch).length ≤ 1 + chunkChannelCapacity + batchSize := by
    have hpending : (s.streams k).reader.pending.length ≤ 1 := by
      cases (s.streams k).reader <;> simp [Reader.pending]
    have hchannel := h.channel
    have hbatch := h.batch
    rw [List.length_append, List.length_append]
    omega
  have hentries : ∀ content ∈ ((s.log.writers k).batch ++ (s.log.writers k).queue).map
      LogEntry.content, content.length ≤ recordsLimit := by
    intro content hcontent
    obtain ⟨entry, hentry, rfl⟩ := List.mem_map.mp hcontent
    refine h.entries entry ?_
    rw [← hpieces.entries k, List.append_assoc]
    exact List.mem_append_right _ hentry
  have hentryBytes := flatten_bounded hentries
  have hentryCount : (((s.log.writers k).batch ++ (s.log.writers k).queue).map
      LogEntry.content).length ≤ BatchAppend.writeBatchSize + BatchAppend.channelBufferSize := by
    have hqueue := hroomy.queue
    have hbatch := hroomy.batch
    rw [List.length_map, List.length_append]
    omega
  have hchunkBytes := Nat.le_trans hchunks (Nat.mul_le_mul_right chunkSize hchunkCount)
  have hentryBytes' := Nat.le_trans hentryBytes (Nat.mul_le_mul_right recordsLimit hentryCount)
  have hline := hk.kept.2
  have hrecords := h.records
  have hlines := h.lines
  rw [heldBytes, heldLimit]
  omega

end

theorem streams_can_finish_july :
    (julyBusy.streams true).channel = [[0x65, 10]] ∧
      (julyBusy.log.writers false).queue.length = 1 ∧
      july.CanReach (fun t => ∀ k ∈ [false, true], (t.streams k).processor = .done) julyBusy :=
  ⟨rfl, rfl, streams_can_finish BatchWriter.julyRfc3339 julyBusy_reachable true [false, true]⟩

theorem held_bounded_july :
    heldBytes (julyBusy.streams true) (julyBusy.log.writers true) = 2 ∧
      heldBytes (julyBusy.streams false) (julyBusy.log.writers false) = 4 ∧
      ∀ k, heldBytes (julyBusy.streams k) (julyBusy.log.writers k) ≤ heldLimit :=
  ⟨rfl, rfl, held_bounded BatchWriter.julyRfc3339 julyBusy_reachable⟩

end Pipeline
