import Mathlib.Algebra.Ring.Nat
import Mathlib.Data.List.Forall2
import Mathlib.Data.List.Perm.Basic
import Mcproc.Lib.Runs
import Mcproc.Rpc.Server
import Mcproc.Rpc.Stdio

namespace Stdio

open Rpc LineReader

-- The lines that reach the parser: nothing is read after the first that is no text.
def readable (input : List UInt8) : List (List UInt8) :=
  (rawLines input).takeWhile fun raw => Utf8.Valid raw

section
variable {read : String → Option Value} {input : List UInt8} {s : State}

structure CutShort (read : String → Option Value) (input : List UInt8) (s : State) : Prop where
  phase : s.phase = .stopped .invalidData
  delivered : s.received ++ s.channel = messages read (readable input)
  answered : writtenByReader s = parseErrors read (readable input)

def Heard (read : String → Option Value) (input : List UInt8) (s : State) : Prop :=
  (Faithful read input s ∧ ∀ raw ∈ s.consumed, Utf8.Valid raw) ∨ CutShort read input s

theorem readable_of_valid {pre rest : List (List UInt8)} (hlines : pre ++ rest = rawLines input)
    (hpre : ∀ raw ∈ pre, Utf8.Valid raw) :
    readable input = pre ++ rest.takeWhile fun raw => Utf8.Valid raw := by
  rw [readable, ← hlines, List.takeWhile_append_of_pos fun raw hraw => decide_eq_true (hpre raw hraw)]

theorem readUntil_shorter {bytes : List UInt8} (hne : bytes ≠ []) :
    (readUntil bytes).2.length < bytes.length := by
  rw [readUntil]
  cases hcut : Lines.cut newline bytes with
  | none => exact List.length_pos_iff.mpr hne
  | some p =>
    obtain ⟨line, rest⟩ := p
    obtain ⟨body, rfl, -, rfl⟩ := Lines.cut_some newline hcut
    simp only [Option.getD_some, List.length_append, List.length_singleton]
    omega

theorem heard_initial : Heard read input (initial input) :=
  Or.inl ⟨faithful_initial, fun _ hraw => by cases hraw⟩

theorem Faithful.cutShort (h : Faithful read input s) (hv : ∀ raw ∈ s.consumed, Utf8.Valid raw)
    (hphase : s.phase = .reading) (hne : s.input ≠ [])
    (hbad : ¬ Utf8.Valid (readUntil s.input).1) :
    CutShort read input (next read s .readLine) := by
  obtain ⟨hlines, hdelivered, hanswered, -⟩ := h
  rw [hphase] at hdelivered hanswered
  rw [rawLines_read hne] at hlines
  have hall : readable input = s.consumed := by
    rw [readable_of_valid hlines hv, List.takeWhile_cons_of_neg (by simpa using hbad),
      List.append_nil]
  refine ⟨afterLine_invalid hbad, ?_, ?_⟩
  · rw [hall, ← hdelivered]
    exact (List.append_nil _).symm
  · rw [hall, ← hanswered]
    exact (List.append_nil _).symm

theorem CutShort.step {a : Action} (h : CutShort read input s) (he : enabled s a) :
    CutShort read input (next read s a) := by
  obtain ⟨hphase, hdelivered, hanswered⟩ := h
  have hstopped : ∀ {p : Phase}, s.phase = p → p = .stopped .invalidData := fun hp =>
    hp.symm.trans hphase
  cases a with
  | receive =>
    obtain ⟨m, ms, hchannel⟩ := List.exists_cons_of_ne_nil he
    rw [hchannel] at hdelivered
    refine ⟨hphase, ?_, hanswered⟩
    simp only [next, hchannel]
    rw [← hdelivered]
    simp
  | send m =>
    refine ⟨hphase, hdelivered, Eq.trans ?_ hanswered⟩
    simp [next, writtenByReader]
  | readLine | endOfInput => cases hstopped he.1
  | inputFails | shutdown => cases hstopped he
  | deliver =>
    obtain ⟨⟨m, hm⟩, -⟩ := he
    cases hstopped hm
  | receiverGone | respond | outputFails =>
    obtain ⟨m, hm⟩ := he
    cases hstopped hm

theorem heard_step {a : Action} (h : Heard read input s) (he : enabled s a) :
    Heard read input (next read s a) := by
  rcases h with ⟨h, hv⟩ | h
  · by_cases hd : Decodable s a
    · refine Or.inl ⟨faithful_step h he hd, ?_⟩
      cases a with
      | readLine =>
        intro raw hraw
        rcases List.mem_append.mp hraw with hraw | hraw
        · exact hv raw hraw
        · rw [List.mem_singleton.mp hraw]
          exact hd
      | deliver =>
        obtain ⟨⟨m, hm⟩, -⟩ := he
        simp only [next, hm]
        exact hv
      | receiverGone =>
        obtain ⟨m, hm⟩ := he
        simp only [next, hm]
        exact hv
      | respond | outputFails =>
        obtain ⟨r, hr⟩ := he
        simp only [next, hr]
        exact hv
      | _ => exact hv
    · cases a with
      | readLine => exact Or.inr (h.cutShort hv he.1 he.2 hd)
      | _ => exact absurd trivial hd
  · exact Or.inr (h.step he)

theorem heard_reachable (h : (machine read input).Reachable s) : Heard read input s :=
  (machine read input).reachable_induction heard_initial (fun _ _ => heard_step) h

theorem Heard.settled (h : Heard read input s)
    (hstop : s.phase = .stopped .endOfInput ∨ s.phase = .stopped .invalidData) :
    s.received ++ s.channel = messages read (readable input) ∧
      writtenByReader s = parseErrors read (readable input) := by
  rcases h with ⟨h, hv⟩ | h
  · have hend : s.phase = .stopped .endOfInput := hstop.resolve_right h.stops.1
    have hlines := h.lines
    rw [h.stops.2 hend] at hlines
    have hall : rawLines input = s.consumed := by
      rw [← hlines]
      exact List.append_nil _
    have hreadable : readable input = rawLines input := by
      rw [readable_of_valid hlines hv, hall]
      exact List.append_nil _
    rw [hreadable]
    exact h.all_lines hend
  · exact ⟨h.delivered, h.answered⟩

end

end Stdio

namespace Rpc

theorem leavesAll_eq (ms : List JsonRpcMessage) : leavesAll ms = ms.flatMap leaves := by
  induction ms with
  | nil => rfl
  | cons m ms ih => rw [leavesAll, ih, List.flatMap_cons]

theorem leavesAll_perm {ms ms' : List JsonRpcMessage} (h : ms.Perm ms') :
    (leavesAll ms).Perm (leavesAll ms') := by
  rw [leavesAll_eq, leavesAll_eq]
  exact h.flatMap_right _

theorem leavesAll_notifications (ns : List JsonRpcNotification) :
    leavesAll (ns.map .notification) = [] := by
  induction ns with
  | nil => rfl
  | cons n ns ih => rw [List.map_cons, leavesAll, ih, leaves, List.append_nil]

theorem leavesAll_flatMap {A : Type} (f : A → List JsonRpcMessage) (l : List A) :
    leavesAll (l.flatMap f) = l.flatMap fun x => leavesAll (f x) := by
  induction l with
  | nil => rfl
  | cons x l ih => rw [List.flatMap_cons, List.flatMap_cons, leavesAll_append, ih]

end Rpc

namespace Server

open Rpc

theorem Inv.arrives {incoming : List JsonRpcMessage} {s : State} (h : Inv incoming s)
    (hphase : s.phase ≠ .draining ∧ s.phase ≠ .closed) (ms : List JsonRpcMessage) :
    Inv (incoming ++ ms) { s with incoming := s.incoming ++ ms } where
  spawned := by
    rw [← List.append_assoc]
    exact congrArg (· ++ ms) h.spawned
  consistent := h.consistent
  accounted := h.accounted
  owned := h.owned
  bounded := h.bounded
  ended hp := (hp.elim hphase.1 hphase.2).elim
  drained hp := (hphase.2 hp).elim

theorem sentBy_perm (l : List Outgoing) (n : Nat) :
    ((l.filter (·.task < n)).map Outgoing.message).Perm
      ((List.range n).flatMap fun i => sentBy i l) := by
  induction n with
  | zero => simp
  | succ n ih =>
    rw [List.range_succ, List.flatMap_append, List.flatMap_singleton]
    refine List.Perm.trans ?_ (ih.append_right _)
    have hsplit := (List.filter_append_perm (fun o : Outgoing => decide (o.task < n))
      (l.filter (·.task < n + 1))).symm.map Outgoing.message
    rw [List.filter_filter, List.filter_filter, List.map_append] at hsplit
    have hbelow : ∀ o : Outgoing,
        (decide (o.task < n) && decide (o.task < n + 1)) = decide (o.task < n) := fun o => by
      by_cases h : o.task < n
      · simp [h, Nat.lt_succ_of_lt h]
      · simp [h]
    have hlast : ∀ o : Outgoing,
        (!decide (o.task < n) && decide (o.task < n + 1)) = decide (o.task = n) := fun o => by
      by_cases h : o.task = n
      · simp [h]
      · by_cases hlt : o.task < n
        · simp [h, hlt]
        · have hge : ¬ o.task < n + 1 := by omega
          simp [h, hge]
    simp only [hbelow, hlast] at hsplit
    exact hsplit

theorem Complete.sent_perm {incoming : List JsonRpcMessage} {s : State}
    (h : Complete incoming s) :
    (s.sent.map Outgoing.message).Perm (s.tasks.flatMap Task.produced) := by
  have hall : s.sent.filter (·.task < s.tasks.length) = s.sent :=
    List.filter_eq_self.mpr fun o ho => decide_eq_true (h.nothingElse o ho)
  have hgroups : (List.range s.tasks.length).map (fun i => sentBy i s.sent) =
      s.tasks.map Task.produced := by
    refine List.ext_getElem (by simp) fun i hi hi' => ?_
    rw [List.getElem_map, List.getElem_range, List.getElem_map]
    exact h.inOrder i _ (List.getElem?_eq_getElem _)
  have hperm := sentBy_perm s.sent s.tasks.length
  rw [hall, List.flatMap_def, hgroups] at hperm
  exact hperm

theorem produced_leaves (t : Task) : leavesAll t.produced = answers t.response := by
  rw [Task.produced, leavesAll_append, leavesAll_notifications, List.nil_append]
  rfl

theorem Inv.task_answered {incoming : List JsonRpcMessage} {s : State} (h : Inv incoming s)
    (hclosed : s.phase = .closed) :
    ∀ t ∈ s.tasks, Answered (due t.message) (answers t.response) := by
  intro t ht
  refine ((h.consistent t ht).answered ?_ ?_).1
  · rw [(h.drained hclosed).1 t ht]
    exact fun e => by cases e
  · rw [(h.drained hclosed).1 t ht]
    exact fun e => by cases e

theorem answered_flatMap {ts : List Task}
    (h : ∀ t ∈ ts, Answered (due t.message) (answers t.response)) :
    Answered ((ts.map Task.message).flatMap due) (ts.flatMap fun t => answers t.response) := by
  induction ts with
  | nil => exact answered_nil
  | cons t ts ih =>
    rw [List.map_cons, List.flatMap_cons, List.flatMap_cons]
    exact (h t List.mem_cons_self).append (ih fun u hu => h u (List.mem_cons_of_mem t hu))

end Server

namespace Session

open Rpc

-- The reader task, the channel behind it and the server's loop share one stdout.
structure State where
  transport : Stdio.State
  server : Server.State

-- The server sees of its transport the channel alone.
def State.view (s : State) : Server.State := { s.server with incoming := s.transport.channel }

inductive Action where
  | read (a : Stdio.Action)
  | receive
  | endOfInput
  | send
  | serve (a : Server.Action)

-- The other end of the shutdown channel and the receiver go when the server's loop is over.
def readerOpen (s : State) : Stdio.Action → Prop
  | .receive | .send _ => False
  | .shutdown | .receiverGone => ¬ s.server.Running
  | _ => True

-- `recv` fails on no channel.
def serverOpen : Server.Action → Prop
  | .receive | .receiveFails | .endOfInput | .send => False
  | _ => True

def enabled (s : State) : Action → Prop
  | .read a => Stdio.enabled s.transport a ∧ readerOpen s a
  | .receive => Server.enabled s.view .receive
  | .endOfInput =>
    (∃ why, s.transport.phase = .stopped why) ∧ Server.enabled s.view .endOfInput
  | .send => Server.enabled s.view .send
  | .serve a => Server.enabled s.view a ∧ serverOpen a

section
variable (read : String → Option Value)

def next (s : State) : Action → State
  | .read a => { s with transport := Stdio.next read s.transport a }
  | .receive => ⟨Stdio.next read s.transport .receive, Server.next s.view .receive⟩
  | .endOfInput => { s with server := Server.next s.view .endOfInput }
  | .send =>
    match s.server.outgoing.head? with
    | none => s
    | some o => ⟨Stdio.next read s.transport (.send o.message), Server.next s.view .send⟩
  | .serve a => { s with server := Server.next s.view a }

def initial (input : List UInt8) : State := ⟨Stdio.initial input, Server.initial []⟩

def machine (input : List UInt8) : Machine State Action where
  init := initial input
  enabled := enabled
  next := next read

end

def writtenByServer (t : Stdio.State) : List JsonRpcMessage :=
  (t.stdout.filter (·.1 ≠ .reader)).map Prod.snd

structure ReaderStep (t t' : Stdio.State) : Prop where
  running : ∀ why, t.phase ≠ .stopped why
  received : t'.received = t.received
  arrived : ∃ ms, t'.channel = t.channel ++ ms
  written : writtenByServer t' = writtenByServer t

structure ServerStep (s s' : Server.State) : Prop where
  incoming : s'.incoming = s.incoming
  sent : s'.sent = s.sent
  phase : s'.phase = .draining ∨ s'.phase = .closed → s.phase = .draining ∨ s.phase = .closed

section
variable {read : String → Option Value}

theorem reader_step {s : State} {a : Stdio.Action} (he : Stdio.enabled s.transport a)
    (ho : readerOpen s a) : ReaderStep s.transport (Stdio.next read s.transport a) := by
  have hkeep : s.transport.channel = s.transport.channel ++ [] := (List.append_nil _).symm
  have hopen : ∀ {p : Stdio.Phase}, s.transport.phase = p → (∀ why, p ≠ .stopped why) →
      ∀ why, s.transport.phase ≠ .stopped why := fun hp h => hp.symm ▸ h
  cases a with
  | receive | send => exact absurd ho id
  | readLine | endOfInput => exact ⟨hopen he.1 (by simp), rfl, ⟨[], hkeep⟩, rfl⟩
  | inputFails | shutdown => exact ⟨hopen he (by simp), rfl, ⟨[], hkeep⟩, rfl⟩
  | deliver =>
    obtain ⟨⟨m, hm⟩, -⟩ := he
    simp only [Stdio.next, hm]
    exact ⟨hopen hm (by simp), rfl, ⟨[m], rfl⟩, rfl⟩
  | receiverGone =>
    obtain ⟨m, hm⟩ := he
    simp only [Stdio.next, hm]
    exact ⟨hopen hm (by simp), rfl, ⟨[], hkeep⟩, rfl⟩
  | respond =>
    obtain ⟨r, hr⟩ := he
    simp only [Stdio.next, hr]
    refine ⟨hopen hr (by simp), rfl, ⟨[], hkeep⟩, ?_⟩
    simp [writtenByServer]
  | outputFails =>
    obtain ⟨r, hr⟩ := he
    simp only [Stdio.next, hr]
    exact ⟨hopen hr (by simp), rfl, ⟨[], hkeep⟩, rfl⟩

theorem update_step (s : Server.State) (i : Nat) (f : Server.Task → Server.Task)
    (messages : Server.Task → List JsonRpcMessage) : ServerStep s (s.update i f messages) := by
  simp only [Server.State.update]
  split
  · exact ⟨rfl, rfl, id⟩
  · exact ⟨rfl, rfl, id⟩

theorem server_step {s : Server.State} {a : Server.Action} (he : Server.enabled s a)
    (ho : serverOpen a) : ServerStep s (Server.next s a) := by
  cases a with
  | receive | receiveFails | endOfInput | send => exact absurd ho id
  | sendFails | joinPanicked => exact ⟨rfl, rfl, (by rintro (h | h) <;> cases h)⟩
  | close => exact ⟨rfl, rfl, fun _ => Or.inl he.1⟩
  | join | notify | respond | panic | enqueue => exact update_step ..

theorem refines_transport (input : List UInt8) :
    (machine read input).Refines (Stdio.machine read input) State.transport where
  init := rfl
  step s a _ he := by
    cases a with
    | read a => exact ⟨[a], ⟨he.1, trivial⟩, rfl⟩
    | receive => exact ⟨[.receive], ⟨he.2, trivial⟩, rfl⟩
    | endOfInput => exact ⟨[], trivial, rfl⟩
    | serve a => exact ⟨[], trivial, rfl⟩
    | send =>
      simp only [machine, next]
      split
      · exact ⟨[], trivial, rfl⟩
      · next o _ => exact ⟨[.send o.message], ⟨trivial, trivial⟩, rfl⟩

variable {input : List UInt8}

structure Linked (s : State) : Prop where
  sound : Server.Sound (s.transport.received ++ s.transport.channel) s.view
  stopped : s.server.phase = .draining ∨ s.server.phase = .closed →
    ∃ why, s.transport.phase = .stopped why
  written : writtenByServer s.transport = s.server.sent.map Server.Outgoing.message

theorem Linked.reader {s : State} {t : Stdio.State} (h : Linked s) (hr : ReaderStep s.transport t) :
    Linked { s with transport := t } := by
  obtain ⟨hrunning, hreceived, ⟨ms, harrived⟩, hwritten⟩ := hr
  have hopen : ¬ (s.server.phase = .draining ∨ s.server.phase = .closed) := fun hp => by
    obtain ⟨why, hwhy⟩ := h.stopped hp
    exact hrunning why hwhy
  refine ⟨?_, fun hp => absurd hp hopen, hwritten.trans h.written⟩
  rcases h.sound with hfailed | hinv
  · exact Or.inl hfailed
  · have harrives := hinv.arrives (not_or.mp hopen) ms
    right
    simp only [State.view, hreceived, harrived, ← List.append_assoc]
    exact harrives

theorem Linked.receive {s : State} (h : Linked s) (he : Server.enabled s.view .receive) :
    Linked (next read s .receive) := by
  obtain ⟨m, ms, hchannel⟩ := List.exists_cons_of_ne_nil he.2
  have hchannel' : s.transport.channel = m :: ms := hchannel
  refine ⟨?_, ?_, h.written⟩
  · have hstep := Server.sound_step h.sound he
    simp only [next, Stdio.next, State.view, Server.next, hchannel'] at hstep ⊢
    simpa using hstep
  · intro hp
    have hphase : s.server.phase = .accepting := he.1
    rcases hp with hp | hp <;> cases hphase.symm.trans hp

theorem Linked.endOfInput {s : State} (h : Linked s) (hw : ∃ why, s.transport.phase = .stopped why)
    (he : Server.enabled s.view .endOfInput) : Linked (next read s .endOfInput) :=
  ⟨Server.sound_step h.sound he, fun _ => hw, h.written⟩

theorem Linked.send {s : State} (h : Linked s) (he : Server.enabled s.view .send) :
    Linked (next read s .send) := by
  obtain ⟨o, os, hout⟩ := List.exists_cons_of_ne_nil he.2
  have hout' : s.server.outgoing = o :: os := hout
  have hstep := Server.sound_step h.sound he
  simp only [next, hout', List.head?_cons]
  refine ⟨hstep, h.stopped, ?_⟩
  simp only [Stdio.next, Server.next, State.view, hout']
  have hwritten := h.written
  simp only [writtenByServer, List.filter_append, List.map_append] at hwritten ⊢
  rw [hwritten]
  rfl

theorem with_incoming {s : Server.State} {ms : List JsonRpcMessage} (h : s.incoming = ms) :
    { s with incoming := ms } = s := by
  rw [← h]

theorem Linked.serve {s : State} {a : Server.Action} (h : Linked s)
    (he : Server.enabled s.view a) (ho : serverOpen a) : Linked (next read s (.serve a)) := by
  obtain ⟨hincoming, hsent, hphase⟩ := server_step he ho
  have hview : (next read s (.serve a)).view = Server.next s.view a := with_incoming hincoming
  refine ⟨?_, fun hp => h.stopped (hphase hp), ?_⟩
  · rw [hview]
    exact Server.sound_step h.sound he
  · have hwritten := h.written
    simp only [next]
    rw [hsent]
    exact hwritten

theorem linked_step {s : State} {a : Action} (h : Linked s) (he : enabled s a) :
    Linked (next read s a) := by
  cases a with
  | read a => exact h.reader (reader_step he.1 he.2)
  | receive => exact h.receive he
  | endOfInput => exact h.endOfInput he.1 he.2
  | send => exact h.send he
  | serve a => exact h.serve he.1 he.2

theorem linked_reachable {s : State} (hs : (machine read input).Reachable s) : Linked s := by
  refine (machine read input).reachable_induction ?_ (fun _ _ => linked_step) hs
  exact ⟨Or.inr (Server.inv_initial []), (by rintro (h | h) <;> cases h), rfl⟩

theorem written_perm (t : Stdio.State) :
    (t.stdout.map Prod.snd).Perm (Stdio.writtenByReader t ++ writtenByServer t) := by
  have hsplit := (List.filter_append_perm (fun w : Stdio.Writer × JsonRpcMessage =>
    decide (w.1 = .reader)) t.stdout).symm.map Prod.snd
  rw [List.map_append] at hsplit
  simpa only [Stdio.writtenByReader, writtenByServer, decide_not] using hsplit

inductive Owed where
  | due (d : Due)
  | parseError
  deriving DecidableEq, Repr

def Owed.PaidBy : Owed → JsonRpcResponse → Prop
  | .due d, r => d.AnsweredBy r ∧ r.Definite
  | .parseError, r => r = parseErrorResponse

variable (read) in
def owed (raw : List UInt8) : List Owed :=
  match Stdio.lineMessage read raw with
  | some m => (due m).map .due
  | none => [.parseError]

theorem owed_perm (raws : List (List UInt8)) :
    ((((Stdio.messages read raws).flatMap due).map Owed.due) ++
        (Stdio.parseErrors read raws).map fun _ => Owed.parseError).Perm
      (raws.flatMap (owed read)) := by
  induction raws with
  | nil => exact .refl _
  | cons raw raws ih =>
    rw [List.flatMap_cons]
    cases hm : Stdio.lineMessage read raw with
    | some m =>
      have hmessages : Stdio.messages read (raw :: raws) = m :: Stdio.messages read raws :=
        List.filterMap_cons_some hm
      have herrors : Stdio.parseErrors read (raw :: raws) = Stdio.parseErrors read raws := by
        simp [Stdio.parseErrors, hm]
      rw [hmessages, herrors, List.flatMap_cons, List.map_append, List.append_assoc, owed, hm]
      exact ih.append_left _
    | none =>
      have hmessages : Stdio.messages read (raw :: raws) = Stdio.messages read raws :=
        List.filterMap_cons_none hm
      have herrors : Stdio.parseErrors read (raw :: raws) =
          .response parseErrorResponse :: Stdio.parseErrors read raws := by
        simp [Stdio.parseErrors, hm]
      rw [hmessages, herrors, List.map_cons, owed, hm]
      exact List.perm_middle.trans (ih.cons _)

theorem paid_due {ds : List Due} {rs : List JsonRpcResponse} (h : Answered ds rs) :
    List.Forall₂ Owed.PaidBy (ds.map Owed.due) rs := by
  obtain ⟨hinOrder, hdefinite⟩ := h
  induction hinOrder with
  | nil => exact .nil
  | cons hd _ ih =>
    exact .cons ⟨hd, hdefinite _ List.mem_cons_self⟩
      (ih fun r hr => hdefinite r (List.mem_cons_of_mem _ hr))

variable (read) in
theorem paid_parseErrors (raws : List (List UInt8)) :
    List.Forall₂ Owed.PaidBy ((Stdio.parseErrors read raws).map fun _ => Owed.parseError)
      (leavesAll (Stdio.parseErrors read raws)) := by
  rw [Stdio.parseErrors]
  induction raws.filter fun raw => (Stdio.lineMessage read raw).isNone with
  | nil => exact .nil
  | cons raw raws ih => exact .cons rfl ih

theorem heard_session {s : State} (hs : (machine read input).Reachable s) :
    Stdio.Heard read input s.transport :=
  Stdio.heard_reachable ((refines_transport input).reachable hs)

theorem closed_session_answers {s : State} (hs : (machine read input).Reachable s)
    (hclosed : s.server.phase = .closed)
    (hstop : s.transport.phase = .stopped .endOfInput ∨
      s.transport.phase = .stopped .invalidData) :
    ∃ rs, (leavesAll (s.transport.stdout.map Prod.snd)).Perm rs ∧
      List.Forall₂ Owed.PaidBy ((Stdio.readable input).flatMap (owed read)) rs := by
  have hlinked := linked_reachable hs
  obtain ⟨hmessages, herrors⟩ := (heard_session hs).settled hstop
  have hinv := hlinked.sound.resolve_left fun hfailed => by cases hclosed.symm.trans hfailed
  have hcomplete := hinv.complete hclosed
  have hserved := hcomplete.served
  rw [hmessages] at hserved
  have hanswered := Server.answered_flatMap (hinv.task_answered hclosed)
  rw [hserved] at hanswered
  have hpaid := List.rel_append (paid_due hanswered) (paid_parseErrors read (Stdio.readable input))
  obtain ⟨rs, hrs, hperm⟩ := List.perm_comp_forall₂ (owed_perm _).symm hpaid
  refine ⟨rs, List.Perm.trans ?_ hperm.symm, hrs⟩
  refine (leavesAll_perm (written_perm s.transport)).trans ?_
  rw [leavesAll_append, herrors, hlinked.written]
  refine List.perm_append_comm.trans (List.Perm.append_right _ ?_)
  have hsent := leavesAll_perm hcomplete.sent_perm
  simp only [leavesAll_flatMap, Server.produced_leaves] at hsent
  exact hsent

def taskWeight (t : Server.Task) : Nat :=
  match t.progress with
  | .handling => 4
  | .notifying _ => 6
  | .responding _ => 3
  | .returned => 1
  | .panicked | .joined => 0

def readerWeight : Stdio.Phase → Nat
  | .reading => 1
  | .delivering _ => 7
  | .responding _ => 2
  | .stopped _ => 0

def serverWeight : Server.Phase → Nat
  | .accepting => 2
  | .draining => 1
  | .closed | .failed => 0

-- What is left to do until the server closes; notifications still to come are not counted.
def remaining (s : State) : Nat :=
  8 * s.transport.input.length + readerWeight s.transport.phase + 5 * s.transport.channel.length +
    (s.server.tasks.map taskWeight).sum + s.server.outgoing.length + serverWeight s.server.phase

theorem sum_map_set {A : Type} (w : A → Nat) {l : List A} {i : Nat} {x : A} (h : l[i]? = some x)
    (y : A) : ((l.set i y).map w).sum + w x = (l.map w).sum + w y := by
  induction l generalizing i with
  | nil => cases h
  | cons a l ih =>
    cases i with
    | zero =>
      cases h
      simp only [List.set_cons_zero, List.map_cons, List.sum_cons]
      omega
    | succ i =>
      have hrest := ih (i := i) (by simpa using h)
      simp only [List.set_cons_succ, List.map_cons, List.sum_cons]
      omega

theorem update_weight {s : Server.State} {i : Nat} {t : Server.Task}
    (ht : s.tasks[i]? = some t) (f : Server.Task → Server.Task)
    (messages : Server.Task → List JsonRpcMessage) :
    ((s.update i f messages).tasks.map taskWeight).sum + (s.update i f messages).outgoing.length +
        taskWeight t =
      (s.tasks.map taskWeight).sum + s.outgoing.length +
        (taskWeight (f t) + (messages t).length) := by
  have hsum := sum_map_set taskWeight ht (f t)
  simp only [Server.State.update, ht, List.length_append, List.length_map]
  omega

-- A notification is work that nobody has counted before.
def Action.notifies : Action → Nat
  | .serve (.notify _ _) => 1
  | _ => 0

def work (s : Server.State) : Nat :=
  (s.tasks.map taskWeight).sum + s.outgoing.length + serverWeight s.phase

theorem remaining_eq (s : State) :
    remaining s = 8 * s.transport.input.length + readerWeight s.transport.phase +
      5 * s.transport.channel.length + work s.server := by
  simp only [remaining, work]
  omega

theorem update_work {s : Server.State} {i : Nat} {t : Server.Task} (ht : s.tasks[i]? = some t)
    {f : Server.Task → Server.Task} {messages : Server.Task → List JsonRpcMessage} {k : Nat}
    (h : taskWeight (f t) + (messages t).length < taskWeight t + k) :
    work (s.update i f messages) < work s + k := by
  have hweight := update_weight ht f messages
  have hphase : (s.update i f messages).phase = s.phase := by
    simp only [Server.State.update, ht]
  simp only [work, hphase]
  omega

theorem running_weight {s : Server.State} (h : s.Running) : 0 < serverWeight s.phase := by
  rcases h with hp | hp <;> rw [hp] <;> decide

theorem serve_work {s : Server.State} {a : Server.Action} (he : Server.enabled s a)
    (ho : serverOpen a) :
    work (Server.next s a) < work s + 3 * (Action.serve a).notifies := by
  have hpos := running_weight (Server.running_of_enabled he)
  have hclosed : serverWeight .closed = 0 := rfl
  have hfailed : serverWeight .failed = 0 := rfl
  cases a with
  | receive | receiveFails | endOfInput | send => exact absurd ho id
  | sendFails =>
    simp only [Server.next, work, List.length_tail]
    omega
  | joinPanicked i =>
    simp only [Server.next, work]
    omega
  | close =>
    simp only [Server.next, work]
    omega
  | join i =>
    obtain ⟨-, t, ht, hp⟩ := he
    exact update_work ht (by simp [Server.Task.goTo, taskWeight, hp, Action.notifies])
  | notify i n =>
    obtain ⟨-, t, ht, hp⟩ := he
    exact update_work ht (by simp [Server.Task.notify, taskWeight, hp, Action.notifies])
  | respond i response =>
    obtain ⟨-, t, ht, hp, -⟩ := he
    refine update_work ht ?_
    cases response <;> simp [Server.Task.respond, taskWeight, hp, Action.notifies]
  | panic i =>
    obtain ⟨-, t, ht, hp⟩ := he
    exact update_work ht (by simp [Server.Task.goTo, taskWeight, hp, Action.notifies])
  | enqueue i =>
    obtain ⟨-, -, t, ht, hpending⟩ := he
    refine update_work ht ?_
    cases hp : t.progress with
    | notifying n | responding r =>
      simp [Server.Task.goTo, taskWeight, hp, Server.Progress.resumed, Server.Progress.pending,
        Action.notifies]
    | _ => simp [hp, Server.Progress.pending] at hpending

variable (read) in
theorem afterLine_weight (raw : List UInt8) : readerWeight (Stdio.afterLine read raw) ≤ 7 := by
  simp only [Stdio.afterLine]
  split
  · exact Nat.zero_le _
  · split
    · exact Nat.le_refl _
    · exact Nat.le_of_ble_eq_true rfl

theorem reader_weight {s : State} {a : Stdio.Action} (he : Stdio.enabled s.transport a)
    (ho : readerOpen s a) : remaining (next read s (.read a)) < remaining s := by
  have hreading : readerWeight .reading = 1 := rfl
  have hstopped : ∀ why, readerWeight (.stopped why) = 0 := fun _ => rfl
  cases a with
  | receive | send => exact absurd ho id
  | readLine =>
    obtain ⟨hphase, hne⟩ := he
    have hshorter := Stdio.readUntil_shorter hne
    have hweight := afterLine_weight read (LineReader.readUntil s.transport.input).1
    simp only [remaining, next, Stdio.next, hphase]
    omega
  | endOfInput =>
    simp only [remaining, next, Stdio.next, he.1, hstopped, hreading]
    omega
  | inputFails | shutdown =>
    have hphase : s.transport.phase = .reading := he
    simp only [remaining, next, Stdio.next, hphase, hstopped, hreading]
    omega
  | deliver =>
    obtain ⟨⟨m, hm⟩, -⟩ := he
    simp only [remaining, next, Stdio.next, hm, readerWeight, List.length_append,
      List.length_singleton]
    omega
  | receiverGone =>
    obtain ⟨m, hm⟩ := he
    simp only [remaining, next, Stdio.next, hm, readerWeight]
    omega
  | respond | outputFails =>
    obtain ⟨r, hr⟩ := he
    simp only [remaining, next, Stdio.next, hr, readerWeight]
    omega

theorem remaining_step {s : State} {a : Action} (he : enabled s a) :
    remaining (next read s a) < remaining s + 3 * a.notifies := by
  cases a with
  | read a => exact reader_weight he.1 he.2
  | receive =>
    obtain ⟨m, ms, hchannel⟩ := List.exists_cons_of_ne_nil he.2
    have hchannel' : s.transport.channel = m :: ms := hchannel
    simp only [remaining, next, Server.next, Stdio.next, State.view, hchannel', List.tail_cons,
      List.head?_cons, Option.toList_some, List.map_append, List.map_cons, List.map_nil,
      List.sum_append, List.sum_cons, List.sum_nil, List.length_cons, Server.Task.spawn,
      taskWeight, Action.notifies]
    omega
  | endOfInput =>
    have hphase : s.server.phase = .accepting := he.2.1
    simp only [remaining, next, Server.next, State.view, hphase, serverWeight, Action.notifies]
    omega
  | send =>
    obtain ⟨o, os, hout⟩ := List.exists_cons_of_ne_nil he.2
    have hout' : s.server.outgoing = o :: os := hout
    simp only [remaining, next, hout', List.head?_cons, Stdio.next, Server.next, State.view,
      List.tail_cons, List.length_cons, Action.notifies]
    omega
  | serve a =>
    have hwork := serve_work he.1 he.2
    have hview : work s.view = work s.server := rfl
    rw [remaining_eq, remaining_eq]
    simp only [next]
    omega

theorem session_run_bounded {as : List Action}
    (hl : (machine read input).Legal (initial input) as) :
    as.length ≤ 8 * input.length + 3 + 3 * (as.map Action.notifies).sum := by
  suffices h : ∀ s, (machine read input).Legal s as →
      as.length + remaining ((machine read input).exec s as) ≤
        remaining s + 3 * (as.map Action.notifies).sum by
    have hall := h _ hl
    have hinitial : remaining (initial input) = 8 * input.length + 3 := rfl
    omega
  clear hl
  induction as with
  | nil =>
    intro s _
    simp
  | cons a as ih =>
    rintro s ⟨he, hl⟩
    have hstep : remaining (next read s a) < remaining s + 3 * a.notifies := remaining_step he
    have hrest := ih _ hl
    rw [Machine.exec_cons, List.map_cons, List.sum_cons, List.length_cons]
    change as.length + remaining ((machine read input).exec (next read s a) as) ≤
      remaining (next read s a) + _ at hrest
    change as.length + 1 + remaining ((machine read input).exec (next read s a) as) ≤ _
    omega

structure Healthy (s : State) : Prop where
  linked : Linked s
  running : s.server.phase ≠ .failed
  unharmed : ∀ t ∈ s.server.tasks, t.progress ≠ .panicked

theorem Healthy.drained {s : State} (h : Healthy s) (hclosed : s.server.phase = .closed) :
    s.server.AllJoined ∧ s.server.outgoing = [] := by
  have hinv := h.linked.sound.resolve_left h.running
  exact hinv.drained hclosed

-- A step that neither notifies nor harms.
def Onward (read : String → Option Value) (s : State) : Prop :=
  ∃ a, enabled s a ∧ a.notifies = 0 ∧ Healthy (next read s a)

theorem exists_response (m : JsonRpcMessage) : ∃ response, Server.MayRespond m response :=
  ⟨_, Server.mayRespond_realtime (fun _ => "") (Protocol.new "mcproc" "1") m ⟨(), none, [], []⟩⟩

theorem update_onward {s : State} {i : Nat} {t : Server.Task} (h : Healthy s)
    (ht : s.server.tasks[i]? = some t) {a : Server.Action} (he : Server.enabled s.view a)
    (ho : serverOpen a) (hquiet : (Action.serve a).notifies = 0) {f : Server.Task → Server.Task}
    {messages : Server.Task → List JsonRpcMessage}
    (hnext : Server.next s.view a = s.view.update i f messages)
    (hharm : (f t).progress ≠ .panicked) : Onward read s := by
  refine ⟨.serve a, ⟨he, ho⟩, hquiet, linked_step h.linked ⟨he, ho⟩, ?_, ?_⟩
  · have ht' : s.view.tasks[i]? = some t := ht
    simp only [next, hnext, Server.State.update, ht']
    exact h.running
  · have ht' : s.view.tasks[i]? = some t := ht
    simp only [next, hnext, Server.State.update, ht']
    intro u hu
    rcases List.mem_or_eq_of_mem_set hu with hmem | rfl
    · exact h.unharmed u hmem
    · exact hharm

theorem task_onward {s : State} {t : Server.Task} {i : Nat} (h : Healthy s)
    (hrun : s.view.Running) (hout : s.view.outgoing = []) (ht : s.server.tasks[i]? = some t)
    (hbusy : t.progress ≠ .joined) : Onward read s := by
  have hroom : s.view.outgoing.length < Server.outgoingChannelCapacity := by
    rw [hout]
    exact Nat.zero_lt_succ _
  cases hp : t.progress with
  | handling =>
    obtain ⟨response, hmay⟩ := exists_response t.message
    refine update_onward h ht (a := .respond i response) ⟨hrun, t, ht, hp, hmay⟩ trivial rfl rfl ?_
    cases response <;> exact fun e => by cases e
  | notifying n | responding r =>
    have hpending : t.progress.pending.isSome := by rw [hp]; rfl
    refine update_onward h ht (a := .enqueue i) ⟨hrun, hroom, t, ht, hpending⟩ trivial rfl rfl ?_
    rw [Server.Task.goTo, hp]
    exact fun e => by cases e
  | returned =>
    exact update_onward h ht (a := .join i) ⟨hrun, t, ht, hp⟩ trivial rfl rfl
      fun e => by cases e
  | panicked => exact absurd hp (h.unharmed t (List.mem_of_getElem? ht))
  | joined => exact absurd hp hbusy

theorem reader_onward {s : State} (h : Healthy s) {a : Stdio.Action}
    (he : Stdio.enabled s.transport a) (ho : readerOpen s a) : Onward read s :=
  ⟨.read a, ⟨he, ho⟩, rfl, h.linked.reader (reader_step he ho), h.running, h.unharmed⟩

theorem idle_onward {s : State} (h : Healthy s) (hrun : s.server.Running)
    (hout : s.server.outgoing = []) (hall : s.server.AllJoined) : Onward read s := by
  rcases hrun with hphase | hphase
  · cases hchannel : s.transport.channel with
    | cons m ms =>
      have he : enabled s .receive := ⟨hphase, by
        simp only [State.view, hchannel]
        exact List.cons_ne_nil _ _⟩
      refine ⟨.receive, he, rfl, linked_step h.linked he, h.running, ?_⟩
      intro t ht
      simp only [next, Server.next, State.view, hchannel] at ht
      rcases List.mem_append.mp ht with ht | ht
      · exact h.unharmed t ht
      · rw [List.mem_singleton.mp ht]
        exact fun e => by cases e
    | nil =>
      cases hreading : s.transport.phase with
      | reading =>
        by_cases hinput : s.transport.input = []
        · exact reader_onward h (a := .endOfInput) ⟨hreading, hinput⟩ trivial
        · exact reader_onward h (a := .readLine) ⟨hreading, hinput⟩ trivial
      | delivering m =>
        refine reader_onward h (a := .deliver) ⟨⟨m, hreading⟩, ?_⟩ trivial
        rw [hchannel]
        exact Nat.zero_lt_succ _
      | responding r => exact reader_onward h (a := .respond) ⟨r, hreading⟩ trivial
      | stopped why =>
        have he : enabled s .endOfInput := ⟨⟨why, hreading⟩, hphase, hchannel⟩
        exact ⟨.endOfInput, he, rfl, linked_step h.linked he, (fun e => by cases e), h.unharmed⟩
  · have he : enabled s (.serve .close) := ⟨⟨hphase, hall, hout⟩, trivial⟩
    exact ⟨.serve .close, he, rfl, linked_step h.linked he, (fun e => by cases e), h.unharmed⟩

theorem healthy_onward {s : State} (h : Healthy s) (hopen : s.server.phase ≠ .closed) :
    Onward read s := by
  have hrun : s.server.Running := by
    cases hp : s.server.phase with
    | accepting => exact Or.inl hp
    | draining => exact Or.inr hp
    | closed => exact absurd hp hopen
    | failed => exact absurd hp h.running
  cases hout : s.server.outgoing with
  | cons o os =>
    have he : enabled s .send := ⟨hrun, by
      simp only [State.view, hout]
      exact List.cons_ne_nil _ _⟩
    refine ⟨.send, he, rfl, linked_step h.linked he, ?_, ?_⟩
    · simp only [next, hout, List.head?_cons]
      exact h.running
    · simp only [next, hout, List.head?_cons]
      exact h.unharmed
  | nil =>
    by_cases hall : s.server.AllJoined
    · exact idle_onward h hrun hout hall
    · obtain ⟨t, ht, hbusy⟩ : ∃ t ∈ s.server.tasks, t.progress ≠ .joined := by
        simpa [Server.State.AllJoined] using hall
      obtain ⟨i, hi⟩ := List.mem_iff_getElem?.mp ht
      exact task_onward h hrun hout hi hbusy

theorem session_can_close {s : State} (hs : (machine read input).Reachable s)
    (hrunning : s.server.phase ≠ .failed)
    (hunharmed : ∀ t ∈ s.server.tasks, t.progress ≠ .panicked) :
    (machine read input).CanReach
      (fun t => t.server.phase = .closed ∧ t.server.AllJoined ∧ t.server.outgoing = []) s := by
  have hclose := (machine read input).canReach_of_size (J := Healthy)
    (P := fun t => t.server.phase = .closed) remaining (fun t ht hopen => ?_)
    ⟨linked_reachable hs, hrunning, hunharmed⟩
  · exact (machine read input).canReach_mono (fun t ht => ⟨ht.2, ht.1.drained ht.2⟩) hclose
  · obtain ⟨a, he, hquiet, hhealthy⟩ := healthy_onward ht hopen
    have hless : remaining (next read t a) < remaining t + 3 * a.notifies := remaining_step he
    rw [hquiet] at hless
    exact ⟨a, he, hhealthy, hless⟩

end

def pingInput : List UInt8 := [112, 105, 110, 103, 10, 63, 10]

def readPing (line : String) : Option Value :=
  if line = "ping" then
    some (.object [("jsonrpc", .string "2.0"), ("method", .string "tools/call"),
      ("id", .number (.posInt 1))])
  else none

def pingOpening : List Action :=
  [.read .readLine, .read .deliver, .read .readLine, .receive,
    .serve (.notify 0 Server.noisyNotification), .serve (.enqueue 0)]

-- The call is answered only after end of input, its notification stays in front of the answer.
def pingRun : List Action :=
  pingOpening ++ [.read .respond, .read .endOfInput, .endOfInput,
    .serve (.respond 0 (some Server.noisyResponse)), .send, .serve (.enqueue 0), .serve (.join 0),
    .send, .serve .close]

def pingEnd : State := (machine readPing pingInput).exec (initial pingInput) pingRun

theorem pingRun_legal : (machine readPing pingInput).Legal (initial pingInput) pingRun := by
  have hmay : Server.MayRespond Server.noisyCall (some Server.noisyResponse) :=
    ⟨answered_one rfl rfl, fun r hr => by rw [List.mem_singleton.mp hr]; exact List.cons_ne_nil _ _⟩
  have hne : ∀ {A : Type} {x : A} {xs : List A}, x :: xs ≠ [] := List.cons_ne_nil _ _
  exact ⟨⟨⟨rfl, hne⟩, trivial⟩, ⟨⟨⟨Server.noisyCall, rfl⟩, by decide⟩, trivial⟩,
    ⟨⟨rfl, hne⟩, trivial⟩, ⟨rfl, hne⟩, ⟨⟨Or.inl rfl, _, rfl, rfl⟩, trivial⟩,
    ⟨⟨Or.inl rfl, by decide, _, rfl, rfl⟩, trivial⟩, ⟨⟨_, rfl⟩, trivial⟩, ⟨⟨rfl, rfl⟩, trivial⟩,
    ⟨⟨_, rfl⟩, rfl, rfl⟩, ⟨⟨Or.inr rfl, _, rfl, rfl, hmay⟩, trivial⟩, ⟨Or.inr rfl, hne⟩,
    ⟨⟨Or.inr rfl, by decide, _, rfl, rfl⟩, trivial⟩, ⟨⟨Or.inr rfl, _, rfl, rfl⟩, trivial⟩,
    ⟨Or.inr rfl, hne⟩,
    ⟨⟨rfl, fun t ht => by rw [List.mem_singleton.mp ht]; rfl, rfl⟩, trivial⟩, trivial⟩

theorem closed_session_answers_ping :
    ∃ rs, (leavesAll (pingEnd.transport.stdout.map Prod.snd)).Perm rs ∧
      List.Forall₂ Owed.PaidBy ((Stdio.readable pingInput).flatMap (owed readPing)) rs :=
  closed_session_answers ⟨pingRun, pingRun_legal, rfl⟩ rfl (Or.inl rfl)

theorem session_run_bounded_ping :
    pingRun.length ≤ 8 * pingInput.length + 3 + 3 * (pingRun.map Action.notifies).sum :=
  session_run_bounded pingRun_legal

-- The call is being handled, its notification is queued, and the reader owes a parse error.
def pingBusy : State := (machine readPing pingInput).exec (initial pingInput) pingOpening

theorem session_can_close_ping :
    pingBusy.server.outgoing.length = 1 ∧
      (machine readPing pingInput).CanReach
        (fun t => t.server.phase = .closed ∧ t.server.AllJoined ∧ t.server.outgoing = [])
        pingBusy := by
  have hopening : (machine readPing pingInput).Legal (initial pingInput) pingOpening :=
    ((machine readPing pingInput).throughout_append.mp pingRun_legal).1
  refine ⟨rfl, session_can_close ⟨pingOpening, hopening, rfl⟩ (fun e => by cases e) ?_⟩
  intro t ht
  rw [List.mem_singleton.mp ht]
  exact fun e => by cases e

end Session
