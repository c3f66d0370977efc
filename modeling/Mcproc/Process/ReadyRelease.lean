import Mcproc.Process.ReadyChannel

namespace ReadyChannel

open HyperLog (Record Kept newline)

variable (isMatch : String → Bool) (waitTimeout : Nat)

def Phase.todo : Phase → List Record
  | .records todo _ | .setMatched _ todo _ | .setLine _ todo _ | .notify todo _ => todo
  | _ => []

def Phase.after : Phase → After
  | .records _ after | .setMatched _ _ after | .setLine _ _ after | .notify _ after => after
  | .close | .done => .close
  | _ => .loop

def Phase.claims : Phase → Bool
  | .setMatched _ _ _ | .setLine _ _ _ | .notify _ _ => true
  | _ => false

def Phase.fires : Phase → Bool
  | .setTimeout | .closeOnTimeout => true
  | _ => false

def Phase.idle (phase : Phase) : Bool := !phase.claims && !phase.fires

namespace Streamer

-- Once the stream has ended, what follows its last newline counts as its last line.
def completeLines (st : Streamer) : List (List UInt8) :=
  (Lines.feed newline [] st.emitted).1 ++
    if st.ended ∧ (Lines.feed newline [] st.emitted).2 ≠ [] then
      [(Lines.feed newline [] st.emitted).2 ++ [newline]]
    else []

structure Grows (st st' : Streamer) : Prop where
  lines : ∀ l ∈ st.completeLines, l ∈ st'.completeLines
  ended : st.ended = true → st'.ended = true

structure Ordered (st : Streamer) : Prop where
  bytes : st.emitted = st.consumed ++ (st.phase.todo.map (spent st.phase.after)).flatten ++
    st.lineBuffer ++ st.batch.flatten ++ st.queue.flatten
  kept : Kept st.lineBuffer
  lines : ∀ r ∈ st.phase.todo, Lines.IsLine newline r.content
  flushing : st.phase.after ≠ .loop → st.ended = true ∧ st.batch = [] ∧ st.queue = []
  closing : st.phase.after = .close → st.lineBuffer = [] ∧
    ∀ r ∈ st.phase.todo, st.phase.todo = [r] ∧ r.content ≠ [newline]
  instant : ∀ d, st.timeoutInstant = some d → waitTimeout ≤ d

-- The line a record ends, with what a forced flush has already taken off its front.
def wholeLine (st : Streamer) (r : Record) : List UInt8 :=
  (Lines.feed newline [] st.consumed).2 ++ r.content

theorem grows_of_same {st st' : Streamer} (he : st'.emitted = st.emitted)
    (hd : st'.ended = st.ended) : st.Grows st' :=
  ⟨fun l hl => by rwa [completeLines, he, hd], fun h => hd ▸ h⟩

theorem grows_read {st : Streamer} (h : st.ended = false) (chunk : List UInt8) :
    st.Grows (st.read chunk) := by
  refine ⟨fun l hl => ?_, fun he => by cases h.symm.trans he⟩
  rw [completeLines, h] at hl
  simp only [Bool.false_eq_true, false_and, if_false, List.append_nil] at hl
  refine List.mem_append_left _ ?_
  rw [read, Lines.feed_append]
  exact List.mem_append_left _ hl

theorem grows_eof (st : Streamer) : st.Grows { st with ended := true } := by
  refine ⟨fun l hl => ?_, fun _ => rfl⟩
  rcases List.mem_append.mp hl with hl | hl
  · exact List.mem_append_left _ hl
  · split at hl
    · next h =>
      refine List.mem_append_right _ ?_
      rwa [if_pos ⟨rfl, h.2⟩]
    · cases hl

variable {waitTimeout}

theorem Ordered.goto {st : Streamer} (h : st.Ordered waitTimeout) {phase : Phase}
    (ht : phase.todo = st.phase.todo) (ha : phase.after = st.phase.after) :
    (st.goto phase).Ordered waitTimeout where
  bytes := by rw [Streamer.goto, ht, ha]; exact h.bytes
  kept := h.kept
  lines := by rw [Streamer.goto, ht]; exact h.lines
  flushing := by rw [Streamer.goto, ha]; exact h.flushing
  closing := by rw [Streamer.goto, ha, ht]; exact h.closing
  instant := h.instant

theorem Ordered.read {st : Streamer} (h : st.Ordered waitTimeout) (he : st.ended = false)
    (chunk : List UInt8) : (st.read chunk).Ordered waitTimeout where
  bytes := by simp [Streamer.read, h.bytes]
  kept := h.kept
  lines := h.lines
  flushing ha := by cases he.symm.trans (h.flushing ha).1
  closing := h.closing
  instant := h.instant

theorem Ordered.eof {st : Streamer} (h : st.Ordered waitTimeout) :
    Ordered waitTimeout { st with ended := true } where
  bytes := h.bytes
  kept := h.kept
  lines := h.lines
  flushing ha := ⟨rfl, (h.flushing ha).2⟩
  closing := h.closing
  instant := h.instant

theorem Ordered.start {st : Streamer} (h : st.Ordered waitTimeout) (hp : st.phase = .starting)
    (now : Nat) :
    Ordered waitTimeout
      { st with timeoutInstant := some (now + waitTimeout), phase := .guardMatched } where
  bytes := by simpa [hp, Phase.todo] using h.bytes
  kept := h.kept
  lines r hr := by cases hr
  flushing ha := absurd rfl ha
  closing ha := by cases ha
  instant d hd := by cases hd; exact Nat.le_add_left _ _

theorem Ordered.push {st : Streamer} (h : st.Ordered waitTimeout) {chunk : List UInt8}
    {rest : List (List UInt8)} (hq : st.queue = chunk :: rest) :
    (st.push chunk rest).Ordered waitTimeout where
  bytes := by simpa [Streamer.push, hq] using h.bytes
  kept := h.kept
  lines := h.lines
  flushing ha := by cases hq.symm.trans (h.flushing ha).2.2
  closing := h.closing
  instant := h.instant

theorem map_spent {after : After} (ha : after ≠ .close) (rs : List Record) :
    rs.map (spent after) = rs.map Record.payload :=
  List.map_congr_left fun _ _ => if_neg ha

theorem Ordered.processBatch {st : Streamer} (h : st.Ordered waitTimeout) {after : After}
    (ht : st.phase.todo = []) (hc : after ≠ .close)
    (hf : after ≠ .loop → st.ended = true ∧ st.queue = []) :
    (st.processBatch after).Ordered waitTimeout where
  bytes := by
    have hpay := HyperLog.processBatch_payload st.batch h.kept.1
    have hb := h.bytes
    simp only [ht, List.map_nil, List.flatten_nil, List.append_nil] at hb
    simp only [Streamer.processBatch, Phase.todo, Phase.after, map_spent hc, List.flatten_nil,
      List.append_nil]
    rw [hb, List.append_assoc st.consumed, ← hpay]
    simp only [List.append_assoc]
  kept := HyperLog.processBatch_kept _ h.kept
  lines := HyperLog.processBatch_lines _ h.kept.1
  flushing ha := ⟨(hf ha).1, rfl, (hf ha).2⟩
  closing ha := absurd ha hc
  instant := h.instant

theorem Ordered.recv {st : Streamer} (h : st.Ordered waitTimeout) {armed : Bool}
    (hp : st.phase = .select armed) {chunk : List UInt8} {rest : List (List UInt8)}
    (hq : st.queue = chunk :: rest) : (st.recv chunk rest).Ordered waitTimeout := by
  have hpush := h.push hq
  have hphase : (st.push chunk rest).phase = .select armed := hp
  simp only [Streamer.recv]
  split
  · exact hpush.processBatch (by rw [hphase]; rfl) (by decide) (fun ha => absurd rfl ha)
  · exact hpush.goto (by rw [hphase]; rfl) (by rw [hphase]; rfl)

theorem Ordered.consume {st : Streamer} (h : st.Ordered waitTimeout) {r : Record}
    {todo : List Record} {after : After} (hp : st.phase = .records (r :: todo) after)
    {phase : Phase} (ht : phase.todo = todo) (ha : phase.after = after) :
    (st.consume after r phase).Ordered waitTimeout where
  bytes := by
    rw [Streamer.consume, ht, ha]
    simpa [hp, Phase.todo, Phase.after] using h.bytes
  kept := h.kept
  lines q hq := h.lines q (by
    rw [hp]
    exact List.mem_cons_of_mem _ (ht ▸ hq))
  flushing hl := h.flushing (by rw [hp]; exact ha ▸ hl)
  closing hc := by
    obtain ⟨hb, hr⟩ := h.closing (by rw [hp]; exact ha.symm.trans hc)
    refine ⟨hb, fun q hq => ?_⟩
    obtain ⟨hone, -⟩ := hr r (by rw [hp]; exact List.mem_cons_self)
    rw [hp] at hone
    obtain rfl : todo = [] := (List.cons.inj hone).2
    cases ht ▸ hq
  instant := h.instant

theorem Ordered.leave {st : Streamer} (h : st.Ordered waitTimeout) {after : After}
    (hp : st.phase = .records [] after) : (st.leave after).Ordered waitTimeout := by
  cases after with
  | loop => exact h.goto (by rw [hp]; rfl) (by rw [hp]; rfl)
  | close => exact h.goto (by rw [hp]; rfl) (by rw [hp]; rfl)
  | flush =>
    obtain ⟨he, hbatch, hqueue⟩ := h.flushing (by rw [hp]; decide)
    have hb := h.bytes
    rw [hp, hbatch, hqueue] at hb
    have hfinal := HyperLog.finalFlush_eq h.kept.1
    refine ⟨?_, ⟨List.not_mem_nil, Nat.zero_le _⟩, ?_, fun _ => ⟨he, hbatch, hqueue⟩,
      fun _ => ⟨rfl, ?_⟩, h.instant⟩
    · simp only [Streamer.leave, Phase.todo, Phase.after, hbatch, hqueue, hfinal]
      split
      · next hn => simpa [hn, Phase.todo] using hb
      · simpa [spent, Phase.todo] using hb
    · simp only [Streamer.leave, Phase.todo, hfinal]
      split
      · intro r hr
        cases hr
      · intro r hr
        obtain rfl := List.mem_singleton.mp hr
        exact ⟨_, rfl, h.kept.1⟩
    · simp only [Streamer.leave, Phase.todo, hfinal]
      split
      · intro r hr
        cases hr
      · next hn =>
        intro r hr
        obtain rfl := List.mem_singleton.mp hr
        exact ⟨rfl, fun e => hn (List.append_left_eq_self.mp e)⟩

theorem Ordered.wholeLine_complete {st : Streamer} (h : st.Ordered waitTimeout) {r : Record}
    {todo : List Record} {after : After} (hp : st.phase = .records (r :: todo) after)
    (hforced : r.forced = false) : st.wholeLine r ∈ st.completeLines := by
  have hmem : r ∈ st.phase.todo := by
    rw [hp]
    exact List.mem_cons_self
  obtain ⟨body, hbody, hnl⟩ := h.lines r hmem
  have hb := h.bytes
  rw [hp] at hb
  rw [wholeLine, hbody]
  have hacc := Lines.feed_rest newline (s := st.consumed) List.not_mem_nil
  generalize hfeed : Lines.feed newline [] st.consumed = before at hacc ⊢
  have hline : newline ∉ before.2 ++ body := by simp [hacc, hnl]
  by_cases ha : after = .close
  · subst ha
    obtain ⟨hlb, hr⟩ := h.closing (by rw [hp]; rfl)
    obtain ⟨hone, hne⟩ := hr r hmem
    rw [hp] at hone
    obtain rfl : todo = [] := (List.cons.inj hone).2
    obtain ⟨he, hbatch, hqueue⟩ := h.flushing (by rw [hp]; exact After.noConfusion)
    have hemit : st.emitted = st.consumed ++ body := by
      simpa [hlb, hbatch, hqueue, Phase.todo, Phase.after, spent, hbody] using hb
    have hlast : (Lines.feed newline [] st.emitted).2 = before.2 ++ body := by
      rw [hemit, Lines.feed_append, hfeed, Lines.feed_of_not_mem newline _ hnl]
    have hne' : before.2 ++ body ≠ [] := by
      rintro e
      rw [hbody, (List.append_eq_nil_iff.mp e).2] at hne
      exact hne rfl
    refine List.mem_append_right _ ?_
    rw [if_pos ⟨he, by rwa [hlast]⟩, hlast, List.append_assoc]
    exact List.mem_singleton_self _
  · have hemit : ∃ rest, st.emitted = st.consumed ++ (body ++ [newline] ++ rest) := by
      refine ⟨(todo.map (spent after)).flatten ++
        (st.lineBuffer ++ (st.batch.flatten ++ st.queue.flatten)), hb.trans ?_⟩
      simp only [Phase.todo, Phase.after, List.map_cons, List.flatten_cons, spent, if_neg ha,
        Record.payload, hforced, hbody, List.append_assoc, Bool.false_eq_true, if_false]
    obtain ⟨rest, hemit⟩ := hemit
    refine List.mem_append_left _ ?_
    rw [hemit, Lines.feed_append, hfeed, ← Lines.feed_nil_append newline _ hacc,
      ← List.append_assoc, ← List.append_assoc, Lines.feed_line newline rest hline,
      List.append_assoc]
    exact List.mem_append_right _ List.mem_cons_self

variable (waitTimeout) in
structure Advances (st st' : Streamer) : Prop where
  ordered : st.Ordered waitTimeout → st'.Ordered waitTimeout
  grows : st.Grows st'

theorem advances_goto {st : Streamer} {old phase : Phase} (hp : st.phase = old)
    (ht : phase.todo = old.todo) (ha : phase.after = old.after) :
    st.Advances waitTimeout (st.goto phase) :=
  ⟨fun h => h.goto (by rw [hp, ht]) (by rw [hp, ha]), grows_of_same rfl rfl⟩

theorem advances_read {st : Streamer} (he : st.ended = false) (chunk : List UInt8) :
    st.Advances waitTimeout (st.read chunk) :=
  ⟨fun h => h.read he chunk, grows_read he chunk⟩

theorem advances_eof (st : Streamer) : st.Advances waitTimeout { st with ended := true } :=
  ⟨Ordered.eof, grows_eof st⟩

theorem advances_start {st : Streamer} (hp : st.phase = .starting) (now : Nat) :
    st.Advances waitTimeout
      { st with timeoutInstant := some (now + waitTimeout), phase := .guardMatched } :=
  ⟨fun h => h.start hp now, grows_of_same rfl rfl⟩

theorem advances_recv {st : Streamer} {armed : Bool} (hp : st.phase = .select armed)
    {chunk : List UInt8} {rest : List (List UInt8)} (hq : st.queue = chunk :: rest) :
    st.Advances waitTimeout (st.recv chunk rest) := by
  refine ⟨fun h => h.recv hp hq, ?_⟩
  simp only [recv]
  split
  · exact grows_of_same rfl rfl
  · exact grows_of_same rfl rfl

theorem advances_batchTimeout {st : Streamer} {armed : Bool} (hp : st.phase = .select armed) :
    st.Advances waitTimeout (st.processBatch .loop) :=
  ⟨fun h => h.processBatch (by rw [hp]; rfl) (by decide) (fun ha => absurd rfl ha),
    grows_of_same rfl rfl⟩

theorem advances_recvNone {st : Streamer} {armed : Bool} (hp : st.phase = .select armed)
    (hq : st.queue = []) (he : st.ended = true) :
    st.Advances waitTimeout (st.processBatch .flush) :=
  ⟨fun h => h.processBatch (by rw [hp]; rfl) (by decide) (fun _ => ⟨he, hq⟩),
    grows_of_same rfl rfl⟩

theorem advances_consume {st : Streamer} {r : Record} {todo : List Record} {after : After}
    (hp : st.phase = .records (r :: todo) after) {phase : Phase} (ht : phase.todo = todo)
    (ha : phase.after = after) : st.Advances waitTimeout (st.consume after r phase) :=
  ⟨fun h => h.consume hp ht ha, grows_of_same rfl rfl⟩

theorem advances_leave {st : Streamer} {after : After} (hp : st.phase = .records [] after) :
    st.Advances waitTimeout (st.leave after) := by
  refine ⟨fun h => h.leave hp, ?_⟩
  cases after with
  | loop => exact grows_of_same rfl rfl
  | flush => exact grows_of_same rfl rfl
  | close => exact grows_of_same rfl rfl

theorem advances_refl (st : Streamer) : st.Advances waitTimeout st := ⟨id, grows_of_same rfl rfl⟩

theorem recv_idle (st : Streamer) (chunk : List UInt8) (rest : List (List UInt8)) :
    (st.recv chunk rest).phase.idle = true := by
  simp only [recv]
  split
  · rfl
  · rfl

theorem leave_idle (st : Streamer) (after : After) : (st.leave after).phase.idle = true := by
  cases after with
  | loop => rfl
  | flush => rfl
  | close => rfl

end Streamer

section
variable {s : State}

def State.LineMatched (s : State) : Prop :=
  ∃ k, ∃ l ∈ (s.stream k).completeLines, (matchedText isMatch l).isSome

def State.Elapsed (s : State) : Prop := waitTimeout ≤ s.now

def State.BothEnded (s : State) : Prop := ∀ k, (s.stream k).ended = true

def State.Allowed (s : State) : Prop :=
  s.LineMatched isMatch ∨ s.Elapsed waitTimeout ∨ s.BothEnded

def State.Released (s : State) : Prop := ∃ outcome, s.call = .ended outcome

structure Inv (s : State) : Prop where
  ordered : ∀ k, (s.stream k).Ordered waitTimeout
  matched : s.patternMatched = true → s.LineMatched isMatch
  claimed : ∀ k, (s.stream k).phase.claims = true → s.LineMatched isMatch
  fired : ∀ k, (s.stream k).phase.fires = true → s.Elapsed waitTimeout
  taken : s.sender = false → s.Allowed isMatch waitTimeout
  sent : s.sent = true → s.sender = false
  deadline : ∀ d, s.call = .waiting d → waitTimeout ≤ d
  released : s.Released → s.Allowed isMatch waitTimeout

@[simp] theorem State.put_self (s : State) (k : StreamName) (st : Streamer) :
    (s.put k st).stream k = st := Function.update_self ..

theorem State.put_other (s : State) {j k : StreamName} (st : Streamer) (h : j ≠ k) :
    (s.put k st).stream j = s.stream j := Function.update_of_ne h ..

theorem put_cases {P : StreamName → Streamer → Prop} {k : StreamName} {st : Streamer}
    (hk : P k st) (ho : ∀ j, j ≠ k → P j (s.stream j)) (j : StreamName) :
    P j ((s.put k st).stream j) := by
  by_cases h : j = k
  · subst h
    rwa [State.put_self]
  · rw [State.put_other s st h]
    exact ho j h

theorem lineMatched_put {k : StreamName} {st : Streamer} (hg : (s.stream k).Grows st)
    (h : s.LineMatched isMatch) : (s.put k st).LineMatched isMatch := by
  obtain ⟨j, l, hl, hm⟩ := h
  refine ⟨j, l, ?_, hm⟩
  by_cases hj : j = k
  · subst hj
    rw [State.put_self]
    exact hg.lines l hl
  · rwa [State.put_other s st hj]

theorem bothEnded_put {k : StreamName} {st : Streamer} (hg : (s.stream k).Grows st)
    (h : s.BothEnded) : (s.put k st).BothEnded :=
  put_cases (P := fun _ st => st.ended = true) (hg.ended (h k)) fun j _ => h j

theorem allowed_put {k : StreamName} {st : Streamer} (hg : (s.stream k).Grows st)
    (h : s.Allowed isMatch waitTimeout) : (s.put k st).Allowed isMatch waitTimeout := by
  rcases h with h | h | h
  · exact Or.inl (lineMatched_put isMatch hg h)
  · exact Or.inr (Or.inl h)
  · exact Or.inr (Or.inr (bothEnded_put hg h))

variable {isMatch waitTimeout}

theorem Inv.put (h : Inv isMatch waitTimeout s) {k : StreamName} {st : Streamer}
    (ha : (s.stream k).Advances waitTimeout st)
    (hc : st.phase.claims = true → s.LineMatched isMatch)
    (hf : st.phase.fires = true → s.Elapsed waitTimeout) :
    Inv isMatch waitTimeout (s.put k st) where
  ordered := put_cases (P := fun _ st => st.Ordered waitTimeout) (ha.ordered (h.ordered k))
    fun j _ => h.ordered j
  matched hm := lineMatched_put isMatch ha.grows (h.matched hm)
  claimed j := put_cases
    (P := fun _ st' => st'.phase.claims = true → (s.put k st).LineMatched isMatch)
    (fun hk => lineMatched_put isMatch ha.grows (hc hk))
    (fun j _ hk => lineMatched_put isMatch ha.grows (h.claimed j hk)) j
  fired := put_cases (P := fun _ st => st.phase.fires = true → s.Elapsed waitTimeout) hf
    fun j _ => h.fired j
  taken ht := allowed_put isMatch waitTimeout ha.grows (h.taken ht)
  sent := h.sent
  deadline := h.deadline
  released hr := allowed_put isMatch waitTimeout ha.grows (h.released hr)

theorem Inv.goto (h : Inv isMatch waitTimeout s) {k : StreamName} {old phase : Phase}
    (hp : (s.stream k).phase = old) (ht : phase.todo = old.todo) (ha : phase.after = old.after)
    (hc : phase.claims = true → s.LineMatched isMatch)
    (hf : phase.fires = true → s.Elapsed waitTimeout) :
    Inv isMatch waitTimeout (s.goto k phase) :=
  h.put (Streamer.advances_goto hp ht ha) hc hf

theorem Inv.putIdle (h : Inv isMatch waitTimeout s) {k : StreamName} {st : Streamer}
    (ha : (s.stream k).Advances waitTimeout st) (hi : st.phase.idle = true) :
    Inv isMatch waitTimeout (s.put k st) := by
  simp only [Phase.idle, Bool.and_eq_true, Bool.not_eq_true'] at hi
  exact h.put ha (fun hc => by cases hi.1.symm.trans hc) fun hf => by cases hi.2.symm.trans hf

theorem Inv.gotoIdle (h : Inv isMatch waitTimeout s) {k : StreamName} {old phase : Phase}
    (hp : (s.stream k).phase = old) (ht : phase.todo = old.todo) (ha : phase.after = old.after)
    (hi : phase.idle = true) : Inv isMatch waitTimeout (s.goto k phase) :=
  h.putIdle (Streamer.advances_goto hp ht ha) hi

theorem Inv.claims (h : Inv isMatch waitTimeout s) {k : StreamName} {phase : Phase}
    (hp : (s.stream k).phase = phase) (hc : phase.claims = true) : s.LineMatched isMatch :=
  h.claimed k (by rw [hp]; exact hc)

theorem Inv.fires (h : Inv isMatch waitTimeout s) {k : StreamName} {phase : Phase}
    (hp : (s.stream k).phase = phase) (hf : phase.fires = true) : s.Elapsed waitTimeout :=
  h.fired k (by rw [hp]; exact hf)

theorem Inv.tick (h : Inv isMatch waitTimeout s) :
    Inv isMatch waitTimeout { s with now := s.now + 1 } := by
  have hmono : s.Elapsed waitTimeout → waitTimeout ≤ s.now + 1 := fun he => Nat.le_succ_of_le he
  have hallowed : s.Allowed isMatch waitTimeout →
      State.Allowed isMatch waitTimeout { s with now := s.now + 1 } :=
    Or.imp_right (Or.imp_left hmono)
  exact ⟨h.ordered, h.matched, h.claimed, fun k hk => hmono (h.fired k hk),
    fun ht => hallowed (h.taken ht), h.sent, h.deadline, fun hr => hallowed (h.released hr)⟩

theorem Inv.setMatched (h : Inv isMatch waitTimeout s) (hm : s.LineMatched isMatch) :
    Inv isMatch waitTimeout { s with patternMatched := true } :=
  ⟨h.ordered, fun _ => hm, h.claimed, h.fired, h.taken, h.sent, h.deadline, h.released⟩

theorem Inv.takeSender (h : Inv isMatch waitTimeout s)
    (ha : s.sender = true → s.Allowed isMatch waitTimeout) :
    Inv isMatch waitTimeout s.takeSender := by
  refine ⟨h.ordered, h.matched, h.claimed, h.fired, fun _ => ?_, fun _ => rfl, h.deadline,
    h.released⟩
  cases hs : s.sender with
  | true => exact ha hs
  | false => exact h.taken hs

theorem Inv.send (h : Inv isMatch waitTimeout s) (hm : s.LineMatched isMatch) :
    Inv isMatch waitTimeout s.send :=
  ⟨h.ordered, h.matched, h.claimed, h.fired, fun _ => Or.inl hm, fun _ => rfl, h.deadline,
    h.released⟩

theorem Inv.spawned (h : Inv isMatch waitTimeout s) :
    Inv isMatch waitTimeout { s with call := .spawned } :=
  ⟨h.ordered, h.matched, h.claimed, h.fired, h.taken, h.sent, (by intro d hd; cases hd),
    (by rintro ⟨o, ho⟩; cases ho)⟩

theorem Inv.wait (h : Inv isMatch waitTimeout s) :
    Inv isMatch waitTimeout
      { s with call := .waiting (s.now + (waitTimeout + managerBufferSecs)) } := by
  refine ⟨h.ordered, h.matched, h.claimed, h.fired, h.taken, h.sent, fun d hd => ?_, ?_⟩
  · cases hd
    omega
  · rintro ⟨o, ho⟩
    cases ho

theorem Inv.wake (h : Inv isMatch waitTimeout s) {outcome : WaitOutcome} {deadline : Nat}
    (hcall : s.call = .waiting deadline) (hw : woken s deadline outcome) :
    Inv isMatch waitTimeout { s with call := .ended outcome } := by
  have hallowed : s.Allowed isMatch waitTimeout := by
    cases outcome with
    | matched => exact h.taken (h.sent hw)
    | closed => exact h.taken hw.1
    | timedOut => exact Or.inr (Or.inl (Nat.le_trans (h.deadline deadline hcall) hw))
  exact ⟨h.ordered, h.matched, h.claimed, h.fired, h.taken, h.sent, (by intro d hd; cases hd),
    fun _ => hallowed⟩

theorem Inv.initial : Inv isMatch waitTimeout .initial := by
  refine ⟨fun k => ?_, ?_, fun k hk => ?_, fun k hk => ?_, ?_, ?_, ?_, ?_⟩
  · cases k <;> constructor <;> simp [State.initial, Streamer.new, Phase.todo, Phase.after, Kept]
  · intro hm
    cases hm
  · cases k <;> cases hk
  · cases k <;> cases hk
  · intro ht
    cases ht
  · intro hs
    cases hs
  · intro d hd
    cases hd
  · rintro ⟨o, ho⟩
    cases ho

end

-- What has to hold where the code goes wrong: the end of one stream closes the channel only when
-- nothing more is to be waited for, and the rest of a torn line matches only when the line does.
def Careful (s : State) : Action → Prop
  | .close k =>
    s.sender = true →
      (s.stream k.other).ended = true ∨ s.patternMatched = true ∨ waitTimeout ≤ s.now
  | .record k r _ _ =>
    r.forced = false → s.patternMatched = false → (matchedText isMatch r.content).isSome →
      (matchedText isMatch ((s.stream k).wholeLine r)).isSome
  | _ => True

instance (s : State) (a : Action) : Decidable (Careful isMatch waitTimeout s a) := by
  apply Action.casesOn (motive := fun a => Decidable (Careful isMatch waitTimeout s a)) a <;> intros <;>
    dsimp only [Careful] <;> infer_instance

variable {isMatch waitTimeout}

theorem afterRecord_todo (isMatch : String → Bool) (patternMatched : Bool) (r : Record)
    (todo : List Record) (after : After) :
    (afterRecord isMatch patternMatched r todo after).todo = todo ∧
      (afterRecord isMatch patternMatched r todo after).after = after ∧
      (afterRecord isMatch patternMatched r todo after).fires = false := by
  simp only [afterRecord]
  repeat' split
  all_goals exact ⟨rfl, rfl, rfl⟩

theorem afterRecord_claims {patternMatched : Bool} {r : Record} {todo : List Record} {after : After}
    (h : (afterRecord isMatch patternMatched r todo after).claims = true) :
    r.forced = false ∧ patternMatched = false ∧ (matchedText isMatch r.content).isSome := by
  simp only [afterRecord] at h
  split at h
  · cases h
  · next hf =>
    simp only [Bool.or_eq_true, not_or, Bool.not_eq_true] at hf
    split at h
    · next text ht => exact ⟨hf.1, hf.2, by simp [ht]⟩
    · cases h

section
variable {s : State} {a : Action}

theorem advances_put {k : StreamName} {st : Streamer}
    (h : (s.stream k).Advances waitTimeout st) (j : StreamName) :
    (s.stream j).Advances waitTimeout ((s.put k st).stream j) :=
  put_cases (P := fun j st => (s.stream j).Advances waitTimeout st) h
    (fun j _ => Streamer.advances_refl (s.stream j)) j

theorem advances_phase {k : StreamName} {old : Phase} (phase : Phase)
    (hp : (s.stream k).phase = old) (ht : phase.todo = old.todo) (ha : phase.after = old.after)
    (j : StreamName) : (s.stream j).Advances waitTimeout ((s.goto k phase).stream j) :=
  advances_put (Streamer.advances_goto hp ht ha) j

structure SameResults (s s' : State) : Prop where
  matched : s'.patternMatched = s.patternMatched
  line : s'.matchedLine = s.matchedLine
  timeout : s'.timeoutOccurred = s.timeoutOccurred

-- What a step does to the streamers and to the results. The four steps left by name look for a
-- match or store a result.
variable (waitTimeout) in
inductive Effect (s s' : State) : Action → Prop where
  | still {a : Action} (hs : s'.stream = s.stream) (hr : SameResults s s') : Effect s s' a
  | move {a : Action} (k : StreamName) (st : Streamer)
      (ha : (s.stream k).Advances waitTimeout st)
      (hp : st.phase.claims = false ∨ st.phase = (s.stream k).phase)
      (hs : s'.stream = (s.put k st).stream) (hr : SameResults s s') : Effect s s' a
  | record (k : StreamName) (r : Record) (todo : List Record) (after : After) :
      Effect s s' (.record k r todo after)
  | setTimeout (k : StreamName) : Effect s s' (.setTimeout k)
  | setMatched (k : StreamName) (text : String) (todo : List Record) (after : After) :
      Effect s s' (.setMatched k text todo after)
  | setLine (k : StreamName) (text : String) (todo : List Record) (after : After) :
      Effect s s' (.setLine k text todo after)

theorem Effect.phase {s' : State} {k : StreamName} {old : Phase} (phase : Phase)
    (hp : (s.stream k).phase = old) (ht : phase.todo = old.todo) (ha : phase.after = old.after)
    (hc : phase.claims = false) (hs : s'.stream = (s.goto k phase).stream)
    (hr : SameResults s s') : Effect waitTimeout s s' a :=
  .move k ((s.stream k).goto phase) (Streamer.advances_goto hp ht ha) (Or.inl hc) hs hr

theorem claims_of_idle {phase : Phase} (h : phase.idle = true) : phase.claims = false := by
  simp only [Phase.idle, Bool.and_eq_true, Bool.not_eq_true'] at h
  exact h.1

theorem effect_next (he : enabled s a) : Effect waitTimeout s (next isMatch waitTimeout s a) a := by
  cases a with
  | tick => exact .still rfl ⟨rfl, rfl, rfl⟩
  | spawnStderr => exact .phase .starting he.2 rfl rfl rfl rfl ⟨rfl, rfl, rfl⟩
  | wait => exact .still rfl ⟨rfl, rfl, rfl⟩
  | wake outcome deadline => exact .still rfl ⟨rfl, rfl, rfl⟩
  | read k chunk =>
    exact .move k _ (Streamer.advances_read he.2.1 chunk) (Or.inr rfl) rfl ⟨rfl, rfl, rfl⟩
  | eof k => exact .move k _ (Streamer.advances_eof _) (Or.inr rfl) rfl ⟨rfl, rfl, rfl⟩
  | start k =>
    exact .move k _ (Streamer.advances_start he s.now) (Or.inl rfl) rfl ⟨rfl, rfl, rfl⟩
  | guardMatched k =>
    simp only [next]
    split
    · exact .phase (.select false) he rfl rfl rfl rfl ⟨rfl, rfl, rfl⟩
    · exact .phase .guardTimeout he rfl rfl rfl rfl ⟨rfl, rfl, rfl⟩
  | guardTimeout k =>
    exact .phase (.select (!s.timeoutOccurred)) he rfl rfl rfl rfl ⟨rfl, rfl, rfl⟩
  | fire k => exact .phase .setTimeout he.1 rfl rfl rfl rfl ⟨rfl, rfl, rfl⟩
  | setTimeout k => exact .setTimeout k
  | closeOnTimeout k => exact .phase .guardMatched he rfl rfl rfl rfl ⟨rfl, rfl, rfl⟩
  | recv k armed chunk rest =>
    exact .move k _ (Streamer.advances_recv he.1 he.2)
      (Or.inl (claims_of_idle (Streamer.recv_idle _ chunk rest))) rfl ⟨rfl, rfl, rfl⟩
  | batchTimeout k armed =>
    exact .move k _ (Streamer.advances_batchTimeout he.1) (Or.inl rfl) rfl ⟨rfl, rfl, rfl⟩
  | recvNone k armed =>
    exact .move k _ (Streamer.advances_recvNone he.1 he.2.1 he.2.2) (Or.inl rfl) rfl
      ⟨rfl, rfl, rfl⟩
  | record k r todo after => exact .record k r todo after
  | setMatched k text todo after => exact .setMatched k text todo after
  | setLine k text todo after => exact .setLine k text todo after
  | notify k todo after => exact .phase (.records todo after) he rfl rfl rfl rfl ⟨rfl, rfl, rfl⟩
  | leave k after =>
    exact .move k _ (Streamer.advances_leave he)
      (Or.inl (claims_of_idle (Streamer.leave_idle _ after))) rfl ⟨rfl, rfl, rfl⟩
  | close k => exact .phase .done he rfl rfl rfl rfl ⟨rfl, rfl, rfl⟩

theorem advances_next (he : enabled s a) (j : StreamName) :
    (s.stream j).Advances waitTimeout ((next isMatch waitTimeout s a).stream j) := by
  have heffect : Effect waitTimeout s (next isMatch waitTimeout s a) a := effect_next he
  cases heffect with
  | still hs => rw [hs]; exact Streamer.advances_refl _
  | move k st ha _ hs => rw [hs]; exact advances_put ha j
  | record k r todo after =>
    obtain ⟨ht, ha, -⟩ := afterRecord_todo isMatch s.patternMatched r todo after
    exact advances_put (Streamer.advances_consume he ht ha) j
  | setTimeout k => exact advances_phase .closeOnTimeout he rfl rfl j
  | setMatched k text todo after => exact advances_phase (.setLine text todo after) he rfl rfl j
  | setLine k text todo after => exact advances_phase (.notify todo after) he rfl rfl j

def State.Claiming (s : State) : Prop := ∃ k, (s.stream k).phase.claims = true

-- A record that starts a claim: the streamers look at no other one.
def Action.Claims (isMatch : String → Bool) (s : State) : Action → Prop
  | .record _ r _ _ =>
    r.forced = false ∧ s.patternMatched = false ∧ (matchedText isMatch r.content).isSome = true
  | _ => False

theorem claiming_congr {s' : State} (hs : s'.stream = s.stream) (h : s'.Claiming) : s.Claiming := by
  obtain ⟨k, hk⟩ := h
  exact ⟨k, by rwa [hs] at hk⟩

theorem claiming_put {k : StreamName} {st : Streamer} (hst : st.phase.claims = true → s.Claiming)
    (h : (s.put k st).Claiming) : s.Claiming := by
  obtain ⟨j, hj⟩ := h
  exact put_cases (P := fun _ st => st.phase.claims = true → s.Claiming) hst
    (fun i _ hi => ⟨i, hi⟩) j hj

theorem claiming_quiet {k : StreamName} {st : Streamer} (hst : st.phase.claims = false)
    (h : (s.put k st).Claiming) : s.Claiming :=
  claiming_put (fun hc => by cases hst.symm.trans hc) h

theorem claiming_next (he : enabled s a) (h : (next isMatch waitTimeout s a).Claiming) :
    s.Claiming ∨ a.Claims isMatch s := by
  have heffect : Effect waitTimeout s (next isMatch waitTimeout s a) a := effect_next he
  cases heffect with
  | still hs => exact Or.inl (claiming_congr hs h)
  | move k st _ hp hs =>
    refine Or.inl (claiming_put (fun hc => ?_) (claiming_congr hs h))
    rcases hp with hquiet | hsame
    · cases hquiet.symm.trans hc
    · exact ⟨k, hsame ▸ hc⟩
  | record k r todo after =>
    cases hc : (afterRecord isMatch s.patternMatched r todo after).claims with
    | true => exact Or.inr (afterRecord_claims hc)
    | false => exact Or.inl (claiming_quiet hc h)
  | setTimeout k => exact Or.inl (claiming_quiet (k := k) rfl h)
  | setMatched k text todo after => exact Or.inl ⟨k, by rw [show _ = _ from he]; rfl⟩
  | setLine k text todo after => exact Or.inl ⟨k, by rw [show _ = _ from he]; rfl⟩

theorem line_next (he : enabled s a) (h : (next isMatch waitTimeout s a).matchedLine.isSome) :
    s.matchedLine.isSome ∨ s.Claiming := by
  have heffect : Effect waitTimeout s (next isMatch waitTimeout s a) a := effect_next he
  cases heffect with
  | still _ hr => exact Or.inl (hr.line ▸ h)
  | move _ _ _ _ _ hr => exact Or.inl (hr.line ▸ h)
  | record => exact Or.inl h
  | setTimeout => exact Or.inl h
  | setMatched => exact Or.inl h
  | setLine k text todo after => exact Or.inr ⟨k, by rw [show _ = _ from he]; rfl⟩

theorem lineMatched_next (he : enabled s a) (h : s.LineMatched isMatch) :
    (next isMatch waitTimeout s a).LineMatched isMatch := by
  obtain ⟨k, l, hl, hm⟩ := h
  exact ⟨k, l, (advances_next he k).grows.lines l hl, hm⟩

end

theorem other_ended {s : State} {k : StreamName} (hk : (s.stream k).ended = true)
    (ho : (s.stream k.other).ended = true) : s.BothEnded := by
  intro j
  cases k <;> cases j <;> assumption

theorem inv_step {s : State} {a : Action} (h : Inv isMatch waitTimeout s) (he : enabled s a)
    (hc : Careful isMatch waitTimeout s a) :
    Inv isMatch waitTimeout (next isMatch waitTimeout s a) := by
  cases a with
  | tick => exact h.tick
  | spawnStderr =>
    have hgoto : Inv isMatch waitTimeout (s.goto .stderr .starting) :=
      h.gotoIdle he.2 rfl rfl rfl
    exact hgoto.spawned
  | wait => exact h.wait
  | wake outcome deadline => exact h.wake he.1 he.2
  | read k chunk =>
    exact h.put (Streamer.advances_read he.2.1 chunk) (h.claimed k) (h.fired k)
  | eof k => exact h.put (Streamer.advances_eof _) (h.claimed k) (h.fired k)
  | start k => exact h.putIdle (Streamer.advances_start he s.now) rfl
  | guardMatched k =>
    simp only [next]
    split
    · exact h.gotoIdle he rfl rfl rfl
    · exact h.gotoIdle he rfl rfl rfl
  | guardTimeout k => exact h.gotoIdle he rfl rfl rfl
  | fire k =>
    refine h.goto he.1 rfl rfl (by intro hp; cases hp) fun _ => ?_
    obtain ⟨d, hd, hle⟩ := (Option.any_eq_true _ _).mp he.2
    exact Nat.le_trans ((h.ordered k).instant d hd) (of_decide_eq_true hle)
  | setTimeout k =>
    exact Inv.goto (s := { s with timeoutOccurred := true })
      ⟨h.ordered, h.matched, h.claimed, h.fired, h.taken, h.sent, h.deadline, h.released⟩
      he rfl rfl (by intro hp; cases hp) fun _ => h.fires he rfl
  | closeOnTimeout k =>
    exact (h.takeSender fun _ => Or.inr (Or.inl (h.fires he rfl))).gotoIdle he rfl rfl rfl
  | recv k armed chunk rest =>
    exact h.putIdle (Streamer.advances_recv he.1 he.2) (Streamer.recv_idle _ chunk rest)
  | batchTimeout k armed => exact h.putIdle (Streamer.advances_batchTimeout he.1) rfl
  | recvNone k armed => exact h.putIdle (Streamer.advances_recvNone he.1 he.2.1 he.2.2) rfl
  | record k r todo after =>
    obtain ⟨ht, ha, hf⟩ := afterRecord_todo isMatch s.patternMatched r todo after
    refine h.put (Streamer.advances_consume he ht ha) (fun hk => ?_)
      (fun hk => by cases hf.symm.trans hk)
    obtain ⟨hforced, hflag, hm⟩ := afterRecord_claims hk
    exact ⟨k, _, (h.ordered k).wholeLine_complete he hforced, hc hforced hflag hm⟩
  | setMatched k text todo after =>
    exact (h.setMatched (h.claims he rfl)).goto he rfl rfl (fun _ => h.claims he rfl)
      (by intro hp; cases hp)
  | setLine k text todo after =>
    exact Inv.goto (s := { s with matchedLine := some text })
      ⟨h.ordered, h.matched, h.claimed, h.fired, h.taken, h.sent, h.deadline, h.released⟩
      he rfl rfl (fun _ => h.claims he rfl) (by intro hp; cases hp)
  | notify k todo after => exact (h.send (h.claims he rfl)).gotoIdle he rfl rfl rfl
  | leave k after => exact h.putIdle (Streamer.advances_leave he) (Streamer.leave_idle _ after)
  | close k =>
    have hended : (s.stream k).ended = true :=
      ((h.ordered k).flushing (by rw [show _ = _ from he]; exact After.noConfusion)).1
    refine (h.takeSender fun hs => ?_).gotoIdle he rfl rfl rfl
    rcases hc hs with ho | hm | ht
    · exact Or.inr (Or.inr (other_ended hended ho))
    · exact Or.inl (h.matched hm)
    · exact Or.inr (Or.inl ht)

theorem release_justified {as : List Action}
    (hl : (machine isMatch waitTimeout).Legal .initial as)
    (hc : (machine isMatch waitTimeout).Throughout (Careful isMatch waitTimeout) .initial as) :
    (machine isMatch waitTimeout).Always
      (fun s => s.Released → s.Allowed isMatch waitTimeout) .initial as :=
  (machine isMatch waitTimeout).always_mono (fun _ h => h.released)
    ((machine isMatch waitTimeout).always_of_step (J := Inv isMatch waitTimeout)
      (fun _ _ h he hc => inv_step h he hc) Inv.initial hl hc)

def readyLine : List UInt8 := [114, 101, 97, 100, 121, 10]

def saysReady (line : String) : Bool := line = "ready"

def spawnRun : List Action := [.spawnStderr, .start .stdout, .start .stderr, .wait]

def matchRun : List Action :=
  spawnRun ++
    [.guardMatched .stdout, .guardTimeout .stdout, .read .stdout readyLine,
     .recv .stdout true readyLine [], .guardMatched .stdout, .guardTimeout .stdout,
     .batchTimeout .stdout true, .record .stdout ⟨readyLine, false⟩ [] .loop,
     .setMatched .stdout "ready" [] .loop, .setLine .stdout "ready" [] .loop,
     .notify .stdout [] .loop, .wake .matched 70]

def closedStderrRun : List Action :=
  spawnRun ++
    [.eof .stderr, .guardMatched .stderr, .guardTimeout .stderr, .recvNone .stderr true,
     .leave .stderr .flush, .leave .stderr .close, .close .stderr, .wake .closed 70]

theorem release_justified_ready :
    (machine saysReady 60).Always (fun s => s.Released → s.Allowed saysReady 60) .initial matchRun :=
  release_justified (by decide) (by decide)

theorem released_by_closed_stderr :
    ¬ ∀ (isMatch : String → Bool) (waitTimeout : Nat) (as : List Action),
      (machine isMatch waitTimeout).Legal .initial as →
      (machine isMatch waitTimeout).Always (fun s => s.Released → s.Allowed isMatch waitTimeout)
        .initial as := by
  intro hall
  have hlast := (machine saysReady 60).always_last (hall saysReady 60 closedStderrRun (by decide))
  rcases hlast ⟨.closed, by decide⟩ with ⟨k, l, hl, -⟩ | h | h
  · have hnone : (((machine saysReady 60).exec .initial closedStderrRun).stream k).completeLines =
        [] := by
      cases k <;> decide
    cases hnone ▸ hl
  · exact absurd (show 60 ≤ ((machine saysReady 60).exec .initial closedStderrRun).now from h)
      (by decide)
  · exact absurd (h .stdout) (by decide)

end ReadyChannel
