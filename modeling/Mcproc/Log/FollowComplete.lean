import Mcproc.Lib.Sequences
import Mcproc.Log.Follow

namespace Follow

open HyperLog (Record newline)
open Sequences (InOrder)

def State.ofFile (s : State) (k : Bool) : List Entry :=
  (s.file.filterMap id).filter (·.isStderr = k)

def State.publishedOf (s : State) (k : Bool) : List Entry := s.published.filter (·.isStderr = k)

structure Sound (k : Bool) (p : Pipe) (onFile published : List Entry) : Prop where
  own : ∀ e ∈ p.emitted, e.isStderr = k ∧ e.index < p.emitted.length
  sorted : p.emitted.Pairwise (·.index < ·.index)
  written : p.emitted = onFile ++ (p.batch ++ (p.channel ++ p.toEnqueue))
  announced : p.emitted.filter Entry.valid = published ++ p.toPublish

structure Inv (s : State) : Prop where
  sound : ∀ k, Sound k (s.pipe k) (s.ofFile k) (s.publishedOf k)
  heard : s.listening = true → s.published = s.missed ++ (s.forwarded ++ s.received)
  deaf : s.listening = false → s.forwarded = [] ∧ s.received = []
  snapshot : s.request = .following → ∀ k,
    (s.cutOff ++ s.tailRead).filter (·.isStderr = k) <+: s.ofFile k

theorem mem_entries {k : Bool} {n : Nat} {rs : List Record} {e : Entry} (h : e ∈ entries k n rs) :
    e.isStderr = k ∧ n ≤ e.index ∧ e.index < n + rs.length := by
  induction rs generalizing n with
  | nil => cases h
  | cons r rs ih =>
    rw [List.length_cons]
    rcases List.mem_cons.mp h with rfl | h
    · exact ⟨rfl, Nat.le_refl _, by dsimp only; omega⟩
    · obtain ⟨hk, hlo, hhi⟩ := ih h
      exact ⟨hk, by omega, by omega⟩

theorem entries_length (k : Bool) (n : Nat) (rs : List Record) :
    (entries k n rs).length = rs.length := by
  induction rs generalizing n with
  | nil => rfl
  | cons r rs ih => simp [entries, ih]

theorem entries_sorted (k : Bool) (n : Nat) (rs : List Record) :
    (entries k n rs).Pairwise (·.index < ·.index) := by
  induction rs generalizing n with
  | nil => exact .nil
  | cons r rs ih =>
    refine .cons (fun e he => ?_) (ih _)
    obtain ⟨-, hlo, -⟩ := mem_entries he
    exact hlo

section
variable {k : Bool} {p : Pipe} {onFile published : List Entry}

theorem Sound.emit (h : Sound k p onFile published) (hq : p.toEnqueue = [])
    (hp : p.toPublish = []) (rs : List Record) (rest : List UInt8) :
    Sound k (p.emit k rs rest) onFile published where
  own e he := by
    simp only [Pipe.emit, List.length_append, entries_length] at he ⊢
    rcases List.mem_append.mp he with he | he
    · obtain ⟨hk, hi⟩ := h.own e he
      exact ⟨hk, by omega⟩
    · obtain ⟨hk, -, hi⟩ := mem_entries he
      exact ⟨hk, hi⟩
  sorted := by
    refine List.pairwise_append.mpr ⟨h.sorted, entries_sorted k _ rs, fun a ha b hb => ?_⟩
    exact Nat.lt_of_lt_of_le (h.own a ha).2 (mem_entries hb).2.1
  written := by
    have hw := h.written
    rw [hq, List.append_nil] at hw
    simp only [Pipe.emit]
    rw [hw]
    simp only [List.append_assoc]
  announced := by
    have ha := h.announced
    rw [hp, List.append_nil] at ha
    simp only [Pipe.emit, List.filter_append, ha]

theorem Sound.process (h : Sound k p onFile published) (hq : p.toEnqueue = [])
    (hp : p.toPublish = []) (chunks : List (List UInt8)) :
    Sound k (p.process k chunks) onFile published := by
  obtain ⟨own, sorted, written, announced⟩ := h.emit hq hp
    (HyperLog.processBatch p.lineBuffer chunks).1 (HyperLog.processBatch p.lineBuffer chunks).2
  exact ⟨own, sorted, written, announced⟩

theorem Sound.finish (h : Sound k p onFile published) (hq : p.toEnqueue = [])
    (hp : p.toPublish = []) : Sound k (p.finish k) onFile published := by
  obtain ⟨own, sorted, written, announced⟩ := h.emit hq hp (HyperLog.finalFlush p.lineBuffer) []
  exact ⟨own, sorted, written, announced⟩

theorem Sound.enqueue (h : Sound k p onFile published) {e : Entry} {es : List Entry}
    (hq : p.toEnqueue = e :: es) : Sound k (p.enqueue e es) onFile published where
  own := h.own
  sorted := h.sorted
  written := by
    have hw := h.written
    rw [hq] at hw
    simpa [Pipe.enqueue] using hw
  announced := h.announced

theorem Sound.receive (h : Sound k p onFile published) {e : Entry} {es : List Entry}
    (hc : p.channel = e :: es) : Sound k (p.receive e es) onFile published where
  own := h.own
  sorted := h.sorted
  written := by
    have hw := h.written
    rw [hc] at hw
    simpa [Pipe.receive] using hw
  announced := h.announced

theorem Sound.flush (h : Sound k p onFile published) :
    Sound k { p with batch := [] } (onFile ++ p.batch) published where
  own := h.own
  sorted := h.sorted
  written := by simpa using h.written
  announced := h.announced

theorem Sound.publish (h : Sound k p onFile published) {e : Entry} {es : List Entry}
    (hp : p.toPublish = e :: es) :
    Sound k { p with toPublish := es } onFile (published ++ [e]) where
  own := h.own
  sorted := h.sorted
  written := h.written
  announced := by simpa [hp] using h.announced

theorem Sound.batch_own (h : Sound k p onFile published) : ∀ e ∈ p.batch, e.isStderr = k := by
  intro e he
  refine (h.own e ?_).1
  rw [h.written]
  exact List.mem_append_right _ (List.mem_append_left _ he)

theorem Sound.toPublish_own (h : Sound k p onFile published) :
    ∀ e ∈ p.toPublish, e.isStderr = k := by
  intro e he
  refine (h.own e (List.mem_of_mem_filter (p := Entry.valid) ?_)).1
  rw [h.announced]
  exact List.mem_append_right _ he

theorem Sound.onFile_emitted (h : Sound k p onFile published) : onFile <+: p.emitted := by
  rw [h.written]
  exact List.prefix_append _ _

theorem Sound.published_sorted (h : Sound k p onFile published) :
    published.Pairwise (·.index < ·.index) := by
  refine h.sorted.sublist (.trans ?_ (List.filter_sublist (p := Entry.valid)))
  rw [h.announced]
  exact List.sublist_append_left _ _

end

theorem filter_own {k : Bool} {es : List Entry} (h : ∀ e ∈ es, e.isStderr = k) :
    es.filter (·.isStderr = k) = es :=
  List.filter_eq_self.mpr fun e he => decide_eq_true (h e he)

theorem filter_other {j k : Bool} {es : List Entry} (h : ∀ e ∈ es, e.isStderr = k) (hj : j ≠ k) :
    es.filter (·.isStderr = j) = [] :=
  List.filter_eq_nil_iff.mpr fun e he hb => hj ((of_decide_eq_true hb).symm.trans (h e he))

section
variable {s : State}

theorem State.put_self (s : State) (k : Bool) (p : Pipe) : (s.put k p).pipe k = p :=
  Function.update_self ..

theorem State.put_other (s : State) {j k : Bool} (p : Pipe) (h : j ≠ k) :
    (s.put k p).pipe j = s.pipe j := Function.update_of_ne h ..

theorem State.flushBatch_self (s : State) (k : Bool) :
    (s.flushBatch k).pipe k = { s.pipe k with batch := [] } := s.put_self k _

theorem State.flushBatch_other (s : State) {j k : Bool} (h : j ≠ k) :
    (s.flushBatch k).pipe j = s.pipe j := s.put_other _ h

theorem Inv.put (h : Inv s) {k : Bool} {p : Pipe}
    (hp : Sound k p (s.ofFile k) (s.publishedOf k)) : Inv (s.put k p) where
  sound j := by
    by_cases hj : j = k
    · subst hj
      rw [State.put_self]
      exact hp
    · rw [State.put_other s p hj]
      exact h.sound j
  heard := h.heard
  deaf := h.deaf
  snapshot := h.snapshot

theorem ofFile_flushBatch (k j : Bool) :
    (s.flushBatch k).ofFile j = s.ofFile j ++ (s.pipe k).batch.filter (·.isStderr = j) := by
  simp [State.flushBatch, State.ofFile, List.filterMap_append, List.filterMap_map]

theorem Inv.flushBatch (h : Inv s) (k : Bool) : Inv (s.flushBatch k) where
  sound j := by
    have hown := (h.sound k).batch_own
    rw [ofFile_flushBatch]
    by_cases hj : j = k
    · subst hj
      rw [filter_own hown, State.flushBatch_self]
      exact (h.sound j).flush
    · rw [filter_other hown hj, List.append_nil, State.flushBatch_other s hj]
      exact h.sound j
  heard := h.heard
  deaf := h.deaf
  snapshot hr j := by
    rw [ofFile_flushBatch]
    exact (h.snapshot hr j).trans (List.prefix_append _ _)

theorem Inv.publish (h : Inv s) {k : Bool} {e : Entry} {es : List Entry}
    (hp : (s.pipe k).toPublish = e :: es) :
    Inv ((s.publish e).put k { s.pipe k with toPublish := es }) where
  sound j := by
    have hk : ∀ e' ∈ [e], e'.isStderr = k := by
      intro e' he
      obtain rfl := List.mem_singleton.mp he
      exact (h.sound k).toPublish_own e' (by rw [hp]; exact List.mem_cons_self)
    have hpub : State.publishedOf ((s.publish e).put k { s.pipe k with toPublish := es }) j =
        s.publishedOf j ++ [e].filter (·.isStderr = j) := List.filter_append ..
    rw [hpub]
    by_cases hj : j = k
    · subst hj
      rw [filter_own hk, State.put_self]
      exact (h.sound j).publish hp
    · rw [filter_other hk hj, List.append_nil, State.put_other _ _ hj]
      exact h.sound j
  heard hl := by
    have hl' : s.listening = true := hl
    have hh := h.heard hl'
    simp only [State.put, State.publish, hl', if_true, hh, List.append_assoc]
  deaf hl := by
    have hl' : s.listening = false := hl
    simpa [State.put, State.publish, hl'] using h.deaf hl'
  snapshot := h.snapshot

variable (tail : Nat)

theorem cut_tail (source : Bool) :
    s.cutLines tail source ++ s.tailLines tail source = s.file.filterMap id := by
  rw [State.cutLines, State.tailLines, ← List.filterMap_append, List.take_append_drop]

theorem Inv.readTail (h : Inv s) {source : Bool} (hr : s.request = .subscribed source) :
    Inv (next tail s (.readTail source)) where
  sound := h.sound
  heard _ := h.heard (by rw [State.listening, hr])
  deaf hl := by cases hl
  snapshot _ k := by
    have hs : (s.cutLines tail source ++ s.tailLines tail source).filter (·.isStderr = k) =
        s.ofFile k := by
      rw [cut_tail]
      rfl
    exact hs ▸ List.prefix_refl _

theorem Inv.forward (h : Inv s) {e : Entry} {es : List Entry} (hr : s.request = .following)
    (he : s.received = e :: es) : Inv (next tail s (.forward e es)) where
  sound := h.sound
  heard _ := by
    have hh := h.heard (by rw [State.listening, hr])
    rw [he] at hh
    simpa [next] using hh
  deaf hl := by
    have hl' : s.listening = false := hl
    rw [State.listening, hr] at hl'
    cases hl'
  snapshot := h.snapshot

theorem Inv.subscribe (h : Inv s) {source : Bool} (hr : s.request = .resolved source) :
    Inv (next tail s (.subscribe source)) where
  sound := h.sound
  heard _ := by
    obtain ⟨hf, hc⟩ := h.deaf (by rw [State.listening, hr])
    simp [next, hf, hc]
  deaf hl := by cases hl
  snapshot hf := by cases hf

theorem Inv.request (h : Inv s) {phase : RequestPhase} (hl : s.listening = false)
    (hp : State.listening { s with request := phase } = false) : Inv { s with request := phase } where
  sound := h.sound
  heard ht := by cases hp.symm.trans ht
  deaf _ := h.deaf hl
  snapshot hf := by
    obtain rfl : phase = .following := hf
    cases hp

end

theorem inv_initial (old : Option Nat) : Inv (.initial old) where
  sound k := by
    have hfile : (State.initial old).ofFile k = [] := by
      simp [State.ofFile, State.initial]
    rw [hfile]
    exact ⟨(by intro e he; cases he), .nil, rfl, rfl⟩
  heard hl := by cases hl
  deaf _ := ⟨rfl, rfl⟩
  snapshot hf := by cases hf

theorem inv_step {tail : Nat} {s : State} {a : Action} (h : Inv s) (he : enabled s a) :
    Inv (next tail s a) := by
  cases a with
  | process k chunks => exact h.put ((h.sound k).process he.2.1 he.2.2 chunks)
  | finish k => exact h.put ((h.sound k).finish he.2.1 he.2.2)
  | enqueue k e es => exact h.put ((h.sound k).enqueue he.1)
  | publish k e es => exact h.publish he.2
  | openFile k =>
    obtain ⟨own, sorted, written, announced⟩ := h.sound k
    obtain ⟨sound, heard, deaf, snapshot⟩ :=
      h.put (k := k) (p := { s.pipe k with opened := true }) ⟨own, sorted, written, announced⟩
    exact ⟨sound, heard, deaf, snapshot⟩
  | receive k e es =>
    have hput := h.put ((h.sound k).receive he.2)
    simp only [next]
    split
    · exact hput.flushBatch k
    · exact hput
  | tick k => exact h.flushBatch k
  | close k =>
    obtain ⟨own, sorted, written, announced⟩ := h.sound k
    exact (h.put (k := k) (p := { s.pipe k with closed := true })
      ⟨own, sorted, written, announced⟩).flushBatch k
  | register => exact ⟨h.sound, h.heard, h.deaf, h.snapshot⟩
  | unregister => exact ⟨h.sound, h.heard, h.deaf, h.snapshot⟩
  | lookup => exact h.request (by rw [State.listening, show s.request = _ from he]) rfl
  | discover registered =>
    exact h.request (by rw [State.listening, show s.request = _ from he]) rfl
  | subscribe source => exact h.subscribe tail he
  | readTail source => exact h.readTail tail he
  | forward e es => exact h.forward tail he.1 he.2

-- Without overlong lines the entries of a stream are the lines of its input.
structure Cut (p : Pipe) : Prop where
  kept : HyperLog.Kept p.lineBuffer
  lines : HyperLog.ShortRuns p.input → p.emitted.map Entry.content =
    if p.ended then Lines.lines newline p.input else (Lines.feed newline [] p.input).1
  rest : HyperLog.ShortRuns p.input → p.ended = false →
    p.lineBuffer = (Lines.feed newline [] p.input).2

theorem entries_content (k : Bool) (n : Nat) (rs : List Record) :
    (entries k n rs).map Entry.content = rs.map Record.content := by
  induction rs generalizing n with
  | nil => rfl
  | cons r rs ih => simp [entries, ih]

theorem Cut.process {p : Pipe} (h : Cut p) (he : p.ended = false) (k : Bool)
    (chunks : List (List UInt8)) : Cut (p.process k chunks) := by
  have hshort (hs : HyperLog.ShortRuns (p.input ++ chunks.flatten)) :
      HyperLog.ShortRuns p.input ∧ HyperLog.ShortRuns (p.lineBuffer ++ chunks.flatten) := by
    have hin : HyperLog.ShortRuns p.input :=
      fun run hrun => hs run (hrun.trans (List.prefix_append _ _).isInfix)
    refine ⟨hin, fun run hrun => hs run (hrun.trans ?_)⟩
    obtain ⟨pre, hpre⟩ := Lines.feed_suffix newline [] p.input
    rw [List.nil_append, ← h.rest hin he] at hpre
    exact ⟨pre, [], by rw [← hpre]; simp⟩
  have hfeed (hs : HyperLog.ShortRuns (p.input ++ chunks.flatten)) :
      Lines.feed newline [] (p.input ++ chunks.flatten) =
        (p.emitted.map Entry.content ++
            ((HyperLog.processBatch p.lineBuffer chunks).1.map Record.content),
          (HyperLog.processBatch p.lineBuffer chunks).2) := by
    obtain ⟨hin, hbuf⟩ := hshort hs
    obtain ⟨h₁, h₂⟩ := HyperLog.processBatch_short chunks h.kept.1 hbuf
    have hl := h.lines hin
    rw [he, if_neg Bool.false_ne_true] at hl
    rw [Lines.feed_append, ← h.rest hin he, h₁, h₂, hl]
  refine ⟨HyperLog.processBatch_kept chunks h.kept, fun hs => ?_, fun hs _ => ?_⟩
  · rw [show (p.process k chunks).ended = false from he, if_neg Bool.false_ne_true,
      show (p.process k chunks).input = p.input ++ chunks.flatten from rfl, hfeed hs]
    exact (List.map_append ..).trans (congrArg _ (entries_content k _ _))
  · rw [show (p.process k chunks).input = p.input ++ chunks.flatten from rfl, hfeed hs]
    rfl

theorem Cut.finish {p : Pipe} (h : Cut p) (he : p.ended = false) (k : Bool) :
    Cut (p.finish k) := by
  refine ⟨⟨List.not_mem_nil, Nat.zero_le _⟩, fun hs => ?_, fun _ hn => by cases hn⟩
  have hl := h.lines hs
  rw [he, if_neg Bool.false_ne_true] at hl
  rw [show (p.finish k).ended = true from rfl, if_pos rfl, show (p.finish k).input = p.input from rfl,
    Lines.lines_eq, ← h.rest hs he, ← hl]
  refine (List.map_append ..).trans (congrArg _ ?_)
  rw [entries_content, HyperLog.finalFlush_eq h.kept.1]
  split <;> rfl

theorem Cut.of_same {p q : Pipe} (h : Cut p) (hi : q.input = p.input)
    (hb : q.lineBuffer = p.lineBuffer) (he : q.ended = p.ended) (hm : q.emitted = p.emitted) :
    Cut q := by
  obtain ⟨kept, lines, rest⟩ := h
  exact ⟨hb ▸ kept, by rwa [hi, he, hm], by rwa [hi, he, hb]⟩

theorem cut_put {s : State} {k : Bool} {p : Pipe} (h : ∀ j, Cut (s.pipe j)) (hp : Cut p) (j : Bool) :
    Cut ((s.put k p).pipe j) := by
  by_cases hj : j = k
  · subst hj
    rwa [State.put_self]
  · rw [State.put_other s p hj]
    exact h j

theorem cut_step {tail : Nat} {s : State} {a : Action} (h : ∀ k, Cut (s.pipe k))
    (he : enabled s a) : ∀ k, Cut ((next tail s a).pipe k) := by
  cases a with
  | process k chunks => exact cut_put h ((h k).process he.1 k chunks)
  | finish k => exact cut_put h ((h k).finish he.1 k)
  | receive k e es =>
    have hput := cut_put h (k := k) (p := (s.pipe k).receive e es) ((h k).of_same rfl rfl rfl rfl)
    simp only [next]
    split
    · exact cut_put hput ((hput k).of_same rfl rfl rfl rfl)
    · exact hput
  | close k =>
    have hput := cut_put h (k := k) (p := { s.pipe k with closed := true })
      ((h k).of_same rfl rfl rfl rfl)
    exact cut_put hput ((hput k).of_same rfl rfl rfl rfl)
  | enqueue k | publish k | openFile k | tick k => exact cut_put h ((h k).of_same rfl rfl rfl rfl)
  | _ => exact h

theorem entries_are_lines {tail : Nat} {old : Option Nat} {s : State}
    (h : (machine tail old).Reachable s) (k : Bool) (hs : HyperLog.ShortRuns (s.pipe k).input) :
    (s.pipe k).emitted.map Entry.content =
      if (s.pipe k).ended then Lines.lines newline (s.pipe k).input
      else (Lines.feed newline [] (s.pipe k).input).1 := by
  have hcut : ∀ k, Cut (s.pipe k) := by
    refine (machine tail old).reachable_induction (J := fun s => ∀ k, Cut (s.pipe k))
      (fun _ => ⟨⟨List.not_mem_nil, Nat.zero_le _⟩, fun _ => rfl, fun _ _ => rfl⟩)
      (fun _ _ h he => cut_step h he) h
  exact (hcut k).lines hs

structure Quiet (s : State) : Prop where
  following : s.request = .following
  drained : s.received = []
  settled : ∀ k, (s.pipe k).toEnqueue = [] ∧ (s.pipe k).toPublish = []

structure Complete (s : State) : Prop where
  delivered : ∀ k, ∀ e ∈ (s.pipe k).emitted, e.valid = true → e ∈ s.response
  ordered : ∀ k, ∀ e ∈ (s.pipe k).emitted, ∀ e' ∈ (s.pipe k).emitted, e.valid = true →
    e'.valid = true → e.index < e'.index → s.response.idxOf e < s.response.idxOf e'

-- The tail has what was published too early to be heard, and cuts no stream in two.
structure Overlap (missed cutOff tailRead : List Entry) : Prop where
  missed : ∀ e ∈ missed, e ∈ tailRead
  cut : ∀ e ∈ cutOff, ∀ e' ∈ tailRead, e.valid = true → e'.valid = true →
    e.isStderr = e'.isStderr → ¬ e.index < e'.index

def Covered (tail : Nat) (s : State) : Action → Prop
  | .readTail source => Overlap s.missed (s.cutLines tail source) (s.tailLines tail source)
  | _ => True

def Recorded (s : State) : Prop :=
  s.request = .following → Overlap s.missed s.cutOff s.tailRead

section
variable {s : State}

theorem Inv.published_inOrder (h : Inv s) : InOrder Entry.isStderr Entry.index s.published :=
  Sequences.inOrder_of_each fun k => (h.sound k).published_sorted

theorem Inv.snapshot_inOrder (h : Inv s) (hr : s.request = .following) :
    InOrder Entry.isStderr Entry.index (s.cutOff ++ s.tailRead) :=
  Sequences.inOrder_of_each fun k =>
    (h.sound k).sorted.sublist
      ((h.snapshot hr k).trans (h.sound k).onFile_emitted).sublist

theorem Inv.snapshot_emitted (h : Inv s) (hr : s.request = .following) {e : Entry}
    (he : e ∈ s.cutOff ++ s.tailRead) : e ∈ (s.pipe e.isStderr).emitted :=
  ((h.snapshot hr _).trans (h.sound _).onFile_emitted).subset
    (List.mem_filter.mpr ⟨he, decide_eq_true rfl⟩)

theorem Inv.snapshot_earlier (h : Inv s) (hr : s.request = .following) {k : Bool} {e e' : Entry}
    (he : e ∈ (s.pipe k).emitted) (he' : e' ∈ (s.pipe k).emitted)
    (hs : e' ∈ s.cutOff ++ s.tailRead) (hi : e.index < e'.index) :
    e ∈ s.cutOff ++ s.tailRead := by
  have hk : e'.isStderr = k := ((h.sound k).own e' he').1
  exact List.mem_of_mem_filter (Sequences.mem_of_prefix (h.sound k).sorted
    ((h.snapshot hr k).trans (h.sound k).onFile_emitted) he
    (List.mem_filter.mpr ⟨hs, decide_eq_true hk⟩) hi)

theorem Quiet.published_iff (hq : Quiet s) (h : Inv s) {e : Entry} :
    e ∈ s.published ↔ e ∈ (s.pipe e.isStderr).emitted ∧ e.valid = true := by
  have ha := (h.sound e.isStderr).announced
  rw [(hq.settled _).2, List.append_nil] at ha
  rw [← List.mem_filter, ha, State.publishedOf, List.mem_filter]
  simp

theorem Quiet.heard (hq : Quiet s) (h : Inv s) : s.published = s.missed ++ s.forwarded := by
  have hh := h.heard (by rw [State.listening, hq.following])
  rwa [hq.drained, List.append_nil] at hh

theorem complete_of_overlap (h : Inv s) (hq : Quiet s)
    (ho : Overlap s.missed s.cutOff s.tailRead) : Complete s := by
  have hdelivered (k : Bool) (e : Entry) (he : e ∈ (s.pipe k).emitted) (hv : e.valid = true) :
      e ∈ s.tailRead ∨ e ∈ s.forwarded := by
    obtain rfl : e.isStderr = k := ((h.sound k).own e he).1
    have hp := (hq.published_iff h).mpr ⟨he, hv⟩
    rw [hq.heard h] at hp
    exact (List.mem_append.mp hp).imp_left (ho.missed e)
  refine ⟨fun k e he hv => List.mem_append.mpr (hdelivered k e he hv), ?_⟩
  intro k e he e' he' hv hv' hi
  have hk : e.isStderr = e'.isStderr :=
    ((h.sound k).own e he).1.trans ((h.sound k).own e' he').1.symm
  by_cases ht' : e' ∈ s.tailRead
  · have ht : e ∈ s.tailRead := by
      have hsnap := h.snapshot_earlier hq.following he he' (List.mem_append_right _ ht') hi
      rcases List.mem_append.mp hsnap with hc | ht
      · exact absurd hi (ho.cut e hc e' ht' hv hv' hk)
      · exact ht
    have hlt := ((h.snapshot_inOrder hq.following).sublist (List.sublist_append_right _ _)).idxOf_lt
      ht hk hi
    rwa [State.response, List.idxOf_append_of_mem ht, List.idxOf_append_of_mem ht']
  · rw [State.response, List.idxOf_append_of_notMem ht']
    by_cases ht : e ∈ s.tailRead
    · rw [List.idxOf_append_of_mem ht]
      exact Nat.lt_of_lt_of_le (List.idxOf_lt_length_of_mem ht) (Nat.le_add_right _ _)
    · rw [List.idxOf_append_of_notMem ht]
      have hf := (hdelivered k e he hv).resolve_left ht
      have horder := h.published_inOrder
      rw [hq.heard h] at horder
      exact Nat.add_lt_add_left
        ((horder.sublist (List.sublist_append_right _ _)).idxOf_lt hf hk hi) _

theorem overlap_of_complete (h : Inv s) (hq : Quiet s) (hc : Complete s) :
    Overlap s.missed s.cutOff s.tailRead where
  missed e he := by
    have hp : e ∈ s.published := by
      rw [hq.heard h]
      exact List.mem_append_left _ he
    obtain ⟨hemit, hv⟩ := (hq.published_iff h).mp hp
    have horder := h.published_inOrder
    rw [hq.heard h] at horder
    exact (List.mem_append.mp (hc.delivered _ e hemit hv)).resolve_right
      (horder.not_mem_right he)
  cut e he e' he' hv hv' hk hi := by
    have hemit := h.snapshot_emitted hq.following (List.mem_append_left s.tailRead he)
    have hemit' := h.snapshot_emitted hq.following (List.mem_append_right s.cutOff he')
    have hlt := hc.ordered _ e hemit e' (hk ▸ hemit') hv hv' hi
    rw [State.response, List.idxOf_append_of_mem he',
      List.idxOf_append_of_notMem ((h.snapshot_inOrder hq.following).not_mem_right he)] at hlt
    have hlen := List.idxOf_lt_length_of_mem he'
    omega

end

theorem recorded_iff_covered {tail : Nat} {s : State} {a : Action} (hr : Recorded s)
    (he : enabled s a) : Recorded (next tail s a) ↔ Covered tail s a := by
  cases a with
  | readTail source => exact ⟨fun h => h rfl, fun h _ => h⟩
  | receive k e es =>
    refine iff_of_true ?_ trivial
    simp only [next]
    split <;> exact hr
  | lookup | discover registered | subscribe source => exact iff_of_true nofun trivial
  | _ => exact iff_of_true hr trivial

theorem recorded_back {tail : Nat} {s : State} {a : Action} (he : enabled s a)
    (hr : Recorded (next tail s a)) : Recorded s := by
  intro hf
  cases a with
  | readTail source => cases hf.symm.trans he
  | lookup => cases hf.symm.trans he
  | discover registered => cases hf.symm.trans he
  | subscribe source => cases hf.symm.trans he
  | receive k e es =>
    simp only [next] at hr
    split at hr <;> exact hr hf
  | _ => exact hr hf

theorem follow_complete_iff {tail : Nat} {old : Option Nat} {as : List Action}
    (hl : (machine tail old).Legal (.initial old) as)
    (hq : Quiet ((machine tail old).exec (.initial old) as)) :
    Complete ((machine tail old).exec (.initial old) as) ↔
      (machine tail old).Throughout (Covered tail) (.initial old) as := by
  have hinv : Inv ((machine tail old).exec (.initial old) as) :=
    (machine tail old).reachable_induction (J := Inv) (inv_initial old)
      (fun _ _ h he => inv_step h he) ⟨as, hl, rfl⟩
  have hrecord := (machine tail old).throughout_iff_always (J := fun _ => True) (P := Recorded)
    (C := Covered tail) (fun _ _ _ hr he hc => ⟨trivial, (recorded_iff_covered hr he).mpr hc⟩)
    (fun _ _ _ hr he hc hr' => hc ((recorded_iff_covered hr he).mp hr')) trivial
    (by intro hf; cases hf) hl
  rw [hrecord, (machine tail old).always_iff_last (fun _ _ he hr => recorded_back he hr) hl]
  exact ⟨fun hc _ => overlap_of_complete hinv hq hc,
    fun ho => complete_of_overlap hinv hq (ho hq.following)⟩

def TailAtLeast (tail : Nat) (s : State) : Action → Prop
  | .readTail _ => s.file.length ≤ tail
  | _ => True

def firstLine : Entry := ⟨false, 0, [104, 105, 10]⟩

def secondLine : Entry := ⟨false, 1, [121, 111, 10]⟩

def overlapRun : List Action :=
  [.register, .openFile false, .process false [[104, 105], [10]], .enqueue false firstLine [],
   .receive false firstLine [], .tick false, .publish false firstLine [], .lookup, .discover true,
   .subscribe true, .readTail true, .process false [[121, 111, 10]], .enqueue false secondLine [],
   .publish false secondLine [], .forward secondLine []]

def earlyReadRun : List Action :=
  [.register, .openFile false, .process false [[104, 105, 10]], .enqueue false firstLine [],
   .receive false firstLine [], .publish false firstLine [], .lookup, .discover true,
   .subscribe true, .readTail true, .tick false]

theorem follow_complete_iff_overlap :
    Complete ((machine 100 (some 1)).exec (.initial (some 1)) overlapRun) := by
  refine (follow_complete_iff (by decide) ⟨by decide, by decide, by decide⟩).mpr ?_
  exact ⟨trivial, trivial, trivial, trivial, trivial, trivial, trivial, trivial, trivial, trivial,
    ⟨by decide, by decide⟩, trivial, trivial, trivial, trivial, trivial⟩

theorem line_lost_before_flush :
    ¬ ∀ (tail : Nat) (old : Option Nat) (as : List Action),
      (machine tail old).Legal (.initial old) as →
      (machine tail old).Throughout (TailAtLeast tail) (.initial old) as →
      Quiet ((machine tail old).exec (.initial old) as) →
      Complete ((machine tail old).exec (.initial old) as) := by
  intro hall
  have hc := hall 100 none earlyReadRun (by decide)
    ⟨trivial, trivial, trivial, trivial, trivial, trivial, trivial, trivial, trivial,
      Nat.zero_le _, trivial, trivial⟩ ⟨by decide, by decide, by decide⟩
  exact absurd (hc.delivered false firstLine (by decide) (by decide)) (by decide)

end Follow
