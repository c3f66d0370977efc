import Mcproc.Lib.Machine
import Mcproc.Rpc.Answers

namespace Server

open Rpc

def outgoingChannelCapacity : Nat := 1024

inductive Progress where
  | handling
  | notifying (n : JsonRpcNotification)
  | responding (r : JsonRpcMessage)
  | returned
  | panicked
  | joined

-- The message a task waits to put into the queue.
def Progress.pending : Progress → Option JsonRpcMessage
  | .notifying n => some (.notification n)
  | .responding r => some r
  | _ => none

def Progress.resumed : Progress → Progress
  | .notifying _ => .handling
  | .responding _ => .returned
  | p => p

def Progress.inHandler : Progress → Bool
  | .handling | .notifying _ => true
  | _ => false

-- `notified` and `response` are all that the handler has produced, wherever it is by now.
structure Task where
  message : JsonRpcMessage
  progress : Progress
  notified : List JsonRpcNotification
  response : Option JsonRpcMessage

namespace Task

def spawn (message : JsonRpcMessage) : Task := ⟨message, .handling, [], none⟩

def produced (t : Task) : List JsonRpcMessage :=
  t.notified.map .notification ++ t.response.toList

def notify (n : JsonRpcNotification) (t : Task) : Task :=
  { t with progress := .notifying n, notified := t.notified ++ [n] }

def respond (response : Option JsonRpcMessage) (t : Task) : Task :=
  { t with progress := response.elim .returned .responding, response := response }

def goTo (progress : Progress) (t : Task) : Task := { t with progress := progress }

end Task

-- The channel carries the message alone; the number of the task says whose it is.
structure Outgoing where
  task : Nat
  message : JsonRpcMessage

inductive Phase where
  | accepting
  | draining
  | closed
  | failed
  deriving DecidableEq, Repr

structure State where
  incoming : List JsonRpcMessage
  tasks : List Task
  outgoing : List Outgoing
  sent : List Outgoing
  phase : Phase

inductive Action where
  | receive
  | receiveFails
  | endOfInput
  | send
  | sendFails
  | join (i : Nat)
  | joinPanicked (i : Nat)
  | close
  | notify (i : Nat) (n : JsonRpcNotification)
  | respond (i : Nat) (response : Option JsonRpcMessage)
  | panic (i : Nat)
  | enqueue (i : Nat)

namespace State

def Running (s : State) : Prop := s.phase = .accepting ∨ s.phase = .draining

def TaskAt (s : State) (i : Nat) (p : Task → Prop) : Prop := ∃ t, s.tasks[i]? = some t ∧ p t

def AllJoined (s : State) : Prop := ∀ t ∈ s.tasks, t.progress = .joined

def update (s : State) (i : Nat) (f : Task → Task) (messages : Task → List JsonRpcMessage) :
    State :=
  match s.tasks[i]? with
  | none => s
  | some t =>
    { s with
      tasks := s.tasks.set i (f t)
      outgoing := s.outgoing ++ (messages t).map (⟨i, ·⟩) }

end State

-- What `handle_message_realtime` may return for a message.
def MayRespond (message : JsonRpcMessage) (response : Option JsonRpcMessage) : Prop :=
  Answered (due message) (answers response) ∧ Full response.toList

def enabled (s : State) : Action → Prop
  | .receive => s.phase = .accepting ∧ s.incoming ≠ []
  | .receiveFails => s.phase = .accepting
  | .endOfInput => s.phase = .accepting ∧ s.incoming = []
  | .send | .sendFails => s.Running ∧ s.outgoing ≠ []
  | .join i => s.Running ∧ s.TaskAt i fun t => t.progress = .returned
  | .joinPanicked i => s.Running ∧ s.TaskAt i fun t => t.progress = .panicked
  | .close => s.phase = .draining ∧ s.AllJoined ∧ s.outgoing = []
  | .notify i _ => s.Running ∧ s.TaskAt i fun t => t.progress = .handling
  | .respond i response =>
    s.Running ∧ s.TaskAt i fun t => t.progress = .handling ∧ MayRespond t.message response
  | .panic i => s.Running ∧ s.TaskAt i fun t => t.progress = .handling
  | .enqueue i =>
    s.Running ∧ s.outgoing.length < outgoingChannelCapacity ∧
      s.TaskAt i fun t => t.progress.pending.isSome

def next (s : State) : Action → State
  | .receive =>
    { s with
      incoming := s.incoming.tail
      tasks := s.tasks ++ s.incoming.head?.toList.map Task.spawn }
  | .endOfInput => { s with phase := .draining }
  | .send => { s with outgoing := s.outgoing.tail, sent := s.sent ++ s.outgoing.head?.toList }
  -- Dropping the task set aborts the tasks that are left, and nothing more is sent.
  | .receiveFails | .joinPanicked _ => { s with phase := .failed }
  | .sendFails => { s with outgoing := s.outgoing.tail, phase := .failed }
  | .join i => s.update i (Task.goTo .joined) fun _ => []
  | .close => { s with phase := .closed }
  | .notify i n => s.update i (Task.notify n) fun _ => []
  | .respond i response => s.update i (Task.respond response) fun _ => []
  | .panic i => s.update i (Task.goTo .panicked) fun _ => []
  | .enqueue i =>
    s.update i (fun t => t.goTo t.progress.resumed) fun t => t.progress.pending.toList

def initial (incoming : List JsonRpcMessage) : State := ⟨incoming, [], [], [], .accepting⟩

def machine (incoming : List JsonRpcMessage) : Machine State Action where
  init := initial incoming
  enabled := enabled
  next := next

def sentBy (i : Nat) (l : List Outgoing) : List JsonRpcMessage :=
  (l.filter (·.task = i)).map Outgoing.message

theorem sentBy_append (i : Nat) (l m : List Outgoing) :
    sentBy i (l ++ m) = sentBy i l ++ sentBy i m := by
  simp [sentBy]

theorem sentBy_own (i : Nat) (ms : List JsonRpcMessage) : sentBy i (ms.map (⟨i, ·⟩)) = ms := by
  induction ms with
  | nil => rfl
  | cons m ms ih =>
    rw [List.map_cons, sentBy, List.filter_cons_of_pos (by simp), List.map_cons]
    exact congrArg (m :: ·) ih

theorem sentBy_other {i j : Nat} (h : i ≠ j) (ms : List JsonRpcMessage) :
    sentBy i (ms.map (⟨j, ·⟩)) = [] := by
  simp [sentBy, List.filter_map, Function.comp_def, h.symm]

theorem sentBy_unused {i : Nat} {l : List Outgoing} (h : ∀ o ∈ l, o.task < i) : sentBy i l = [] := by
  have hf : l.filter (·.task = i) = [] :=
    List.filter_eq_nil_iff.mpr fun o ho => by simpa using Nat.ne_of_lt (h o ho)
  rw [sentBy, hf]
  rfl

structure Task.Consistent (t : Task) : Prop where
  unanswered : t.progress.inHandler → t.response = none
  answered : ¬ t.progress.inHandler → t.progress ≠ .panicked → MayRespond t.message t.response

theorem resumed_inHandler (p : Progress) : p.resumed.inHandler = p.inHandler := by
  cases p <;> rfl

structure Inv (incoming : List JsonRpcMessage) (s : State) : Prop where
  spawned : s.tasks.map Task.message ++ s.incoming = incoming
  consistent : ∀ t ∈ s.tasks, t.Consistent
  accounted : ∀ i t, s.tasks[i]? = some t →
    sentBy i (s.sent ++ s.outgoing) ++ t.progress.pending.toList = t.produced
  owned : ∀ o ∈ s.sent ++ s.outgoing, o.task < s.tasks.length
  bounded : s.outgoing.length ≤ outgoingChannelCapacity
  ended : s.phase = .draining ∨ s.phase = .closed → s.incoming = []
  drained : s.phase = .closed → s.AllJoined ∧ s.outgoing = []

theorem inv_initial (incoming : List JsonRpcMessage) : Inv incoming (initial incoming) where
  spawned := rfl
  consistent _ ht := by cases ht
  accounted _ _ ht := by cases ht
  owned _ ho := by cases ho
  bounded := Nat.zero_le _
  ended := by rintro (h | h) <;> cases h
  drained h := by cases h

section
variable {incoming : List JsonRpcMessage} {s : State}

theorem Inv.update {i : Nat} {f : Task → Task} {messages : Task → List JsonRpcMessage}
    (h : Inv incoming s) (hrun : s.Running)
    (hmessage : ∀ t, (f t).message = t.message)
    (hconsistent : ∀ t, s.tasks[i]? = some t → t.Consistent → (f t).Consistent)
    (hproduced : ∀ t, s.tasks[i]? = some t → ∀ before,
      before ++ t.progress.pending.toList = t.produced →
        before ++ messages t ++ (f t).progress.pending.toList = (f t).produced)
    (hroom : ∀ t, s.tasks[i]? = some t →
      s.outgoing.length + (messages t).length ≤ outgoingChannelCapacity) :
    Inv incoming (s.update i f messages) := by
  simp only [State.update]
  split
  · exact h
  · next t ht =>
    obtain ⟨hi, hget⟩ := List.getElem?_eq_some_iff.mp ht
    have hopen : s.phase ≠ .closed := by
      rcases hrun with hp | hp <;> rw [hp] <;> exact fun e => by cases e
    refine ⟨?_, ?_, ?_, ?_, ?_, h.ended, fun hp => absurd hp hopen⟩
    · have hsame : (s.tasks.set i (f t)).map Task.message = s.tasks.map Task.message := by
        rw [List.map_set, hmessage, ← hget, ← List.getElem_map Task.message (h := by simpa using hi)]
        exact List.set_getElem_self _
      rw [hsame]
      exact h.spawned
    · intro t' ht'
      rcases List.mem_or_eq_of_mem_set ht' with hmem | rfl
      · exact h.consistent t' hmem
      · exact hconsistent t ht (h.consistent t (List.mem_of_getElem? ht))
    · intro j t' ht'
      rw [← List.append_assoc, sentBy_append]
      rw [List.getElem?_set] at ht'
      split at ht'
      · next hij =>
        subst hij
        cases ht'
        rw [sentBy_own]
        exact hproduced t ht _ (h.accounted i t ht)
      · next hij =>
        rw [sentBy_other (Ne.symm hij), List.append_nil]
        exact h.accounted j t' ht'
    · intro o ho
      rw [List.length_set]
      rw [← List.append_assoc] at ho
      rcases List.mem_append.mp ho with ho | ho
      · exact h.owned o ho
      · obtain ⟨m, -, rfl⟩ := List.mem_map.mp ho
        exact hi
    · simpa using hroom t ht

theorem Inv.relabel {i : Nat} {p q : Progress} (h : Inv incoming s) (hrun : s.Running)
    (ht : s.TaskAt i fun t => t.progress = p) (hp : p.pending = none) (hq : q.pending = none)
    (hkeep : ∀ t : Task, t.progress = p → t.Consistent → (t.goTo q).Consistent) :
    Inv incoming (s.update i (Task.goTo q) fun _ => []) := by
  obtain ⟨t, hget, htp⟩ := ht
  have honly : ∀ t', s.tasks[i]? = some t' → t'.progress = p := fun t' ht' => by
    cases hget.symm.trans ht'
    exact htp
  refine h.update hrun (fun _ => rfl) (fun t' ht' hc => hkeep t' (honly t' ht') hc) ?_
    fun _ _ => h.bounded
  intro t' ht' before hbefore
  rw [honly t' ht', hp] at hbefore
  rw [Task.goTo, hq, List.append_nil]
  exact hbefore

theorem Inv.notify {i : Nat} (n : JsonRpcNotification) (h : Inv incoming s) (hrun : s.Running)
    (ht : s.TaskAt i fun t => t.progress = .handling) :
    Inv incoming (s.update i (Task.notify n) fun _ => []) := by
  obtain ⟨t, hget, htp⟩ := ht
  have honly : ∀ t', s.tasks[i]? = some t' → t' = t := fun t' ht' =>
    Option.some.inj (ht'.symm.trans hget)
  refine h.update hrun (fun _ => rfl) ?_ ?_ fun _ _ => h.bounded
  · intro t' ht' hc
    obtain rfl := honly t' ht'
    exact ⟨fun _ => hc.unanswered (by rw [htp]; rfl), fun hn => absurd rfl hn⟩
  · intro t' ht' before hbefore
    obtain rfl := honly t' ht'
    have hnone : t'.response = none :=
      (h.consistent t' (List.mem_of_getElem? ht')).unanswered (by rw [htp]; rfl)
    simp only [Task.produced, Task.notify, htp, hnone, Progress.pending, Option.toList_none,
      List.append_nil, Option.toList_some, List.map_append, List.map_cons, List.map_nil]
      at hbefore ⊢
    rw [hbefore]

theorem Inv.respond {i : Nat} {response : Option JsonRpcMessage} (h : Inv incoming s)
    (hrun : s.Running)
    (ht : s.TaskAt i fun t => t.progress = .handling ∧ MayRespond t.message response) :
    Inv incoming (s.update i (Task.respond response) fun _ => []) := by
  obtain ⟨t, hget, htp, hmay⟩ := ht
  have honly : ∀ t', s.tasks[i]? = some t' → t' = t := fun t' ht' =>
    Option.some.inj (ht'.symm.trans hget)
  refine h.update hrun (fun _ => rfl) ?_ ?_ fun _ _ => h.bounded
  · intro t' ht' hc
    obtain rfl := honly t' ht'
    refine ⟨fun hin => ?_, fun _ _ => hmay⟩
    cases response <;> cases hin
  · intro t' ht' before hbefore
    obtain rfl := honly t' ht'
    have hnone : t'.response = none :=
      (h.consistent t' (List.mem_of_getElem? ht')).unanswered (by rw [htp]; rfl)
    simp only [Task.produced, htp, hnone, Progress.pending, Option.toList_none,
      List.append_nil] at hbefore
    rw [hbefore]
    cases response <;> simp [Task.produced, Task.respond, Progress.pending]

theorem Inv.enqueue {i : Nat} (h : Inv incoming s) (hrun : s.Running)
    (hroom : s.outgoing.length < outgoingChannelCapacity) :
    Inv incoming (s.update i (fun t => t.goTo t.progress.resumed)
      fun t => t.progress.pending.toList) := by
  refine h.update hrun (fun _ => rfl) ?_ ?_ ?_
  · intro t _ hc
    refine ⟨fun hin => hc.unanswered ?_, fun hn hp => hc.answered ?_ fun e => hp ?_⟩
    · exact (resumed_inHandler t.progress).symm.trans hin
    · exact fun e => hn ((resumed_inHandler t.progress).trans e)
    · rw [Task.goTo, e]
      rfl
  · intro t ht before hbefore
    have hdone : t.progress.resumed.pending = none := by cases t.progress <;> rfl
    rw [Task.goTo, hdone, Option.toList_none, List.append_nil]
    exact hbefore
  · intro t _
    have hone : t.progress.pending.toList.length ≤ 1 := by cases t.progress.pending <;> simp
    omega

theorem Inv.receive (h : Inv incoming s) (hphase : s.phase = .accepting) {m : JsonRpcMessage}
    {ms : List JsonRpcMessage} (hin : s.incoming = m :: ms) :
    Inv incoming { s with incoming := ms, tasks := s.tasks ++ [Task.spawn m] } := by
  refine ⟨?_, ?_, ?_, ?_, h.bounded, ?_, ?_⟩
  · have hspawned := h.spawned
    rw [hin] at hspawned
    simpa [Task.spawn] using hspawned
  · intro t ht
    rcases List.mem_append.mp ht with ht | ht
    · exact h.consistent t ht
    · obtain rfl := List.mem_singleton.mp ht
      exact ⟨fun _ => rfl, fun hn => absurd rfl hn⟩
  · intro i t ht
    rw [List.getElem?_append] at ht
    split at ht
    · exact h.accounted i t ht
    · next hi =>
      rw [List.getElem?_singleton] at ht
      split at ht
      · next hz =>
        cases ht
        have hlast : i = s.tasks.length := by omega
        rw [hlast, sentBy_unused h.owned]
        rfl
      · cases ht
  · intro o ho
    rw [List.length_append]
    exact Nat.lt_add_right _ (h.owned o ho)
  · rintro (hp | hp) <;> rw [hphase] at hp <;> cases hp
  · intro hp
    rw [hphase] at hp
    cases hp

theorem Inv.send (h : Inv incoming s) (hrun : s.Running) {o : Outgoing} {os : List Outgoing}
    (hout : s.outgoing = o :: os) :
    Inv incoming { s with outgoing := os, sent := s.sent ++ [o] } := by
  have hsame : s.sent ++ [o] ++ os = s.sent ++ s.outgoing := by rw [hout]; simp
  have hbounded := h.bounded
  rw [hout] at hbounded
  refine ⟨h.spawned, h.consistent, ?_, ?_, Nat.le_of_succ_le hbounded, h.ended, fun hp => ?_⟩
  · rw [hsame]
    exact h.accounted
  · rw [hsame]
    exact h.owned
  · rcases hrun with hr | hr <;> rw [hr] at hp <;> cases hp

def Sound (incoming : List JsonRpcMessage) (s : State) : Prop :=
  s.phase = .failed ∨ Inv incoming s

theorem running_of_enabled {a : Action} (he : enabled s a) : s.Running := by
  cases a with
  | receive | endOfInput => exact Or.inl he.1
  | receiveFails => exact Or.inl he
  | close => exact Or.inr he.1
  | _ => exact he.1

theorem sound_step {a : Action} (hs : Sound incoming s) (he : enabled s a) :
    Sound incoming (next s a) := by
  have hrun := running_of_enabled he
  rcases hs with hfailed | h
  · rcases hrun with hr | hr <;> rw [hfailed] at hr <;> cases hr
  cases a with
  | receive =>
    obtain ⟨hphase, hne⟩ := he
    obtain ⟨m, ms, hin⟩ := List.exists_cons_of_ne_nil hne
    right
    simp only [next, hin]
    exact h.receive hphase hin
  | receiveFails | sendFails | joinPanicked => exact Or.inl rfl
  | endOfInput =>
    exact Or.inr { h with
      ended := fun _ => he.2
      drained := fun hp => by cases hp }
  | send =>
    obtain ⟨o, os, hout⟩ := List.exists_cons_of_ne_nil he.2
    right
    simp only [next, hout]
    exact h.send hrun hout
  | join i =>
    refine Or.inr (h.relabel hrun he.2 rfl rfl fun t ht hc => ?_)
    refine ⟨fun hin => (by cases hin), fun _ _ => hc.answered ?_ ?_⟩
    · rw [ht]
      exact fun e => by cases e
    · rw [ht]
      exact fun e => by cases e
  | close =>
    exact Or.inr { h with
      ended := fun _ => h.ended (Or.inl he.1)
      drained := fun _ => he.2 }
  | notify i n => exact Or.inr (h.notify n hrun he.2)
  | respond i response => exact Or.inr (h.respond hrun he.2)
  | panic i =>
    exact Or.inr (h.relabel hrun he.2 rfl rfl fun t ht hc =>
      { unanswered := fun hin => by cases hin
        answered := fun _ hp => absurd rfl hp })
  | enqueue i => exact Or.inr (h.enqueue hrun he.2.1)

theorem sound_run {as : List Action} (hl : (machine incoming).Legal (initial incoming) as) :
    Sound incoming ((machine incoming).exec (initial incoming) as) :=
  (machine incoming).reachable_induction (Or.inr (inv_initial incoming))
    (fun _ _ => sound_step) ⟨as, hl, rfl⟩

structure Complete (incoming : List JsonRpcMessage) (s : State) : Prop where
  served : s.tasks.map Task.message = incoming
  inOrder : ∀ i t, s.tasks[i]? = some t → sentBy i s.sent = t.produced
  nothingElse : ∀ o ∈ s.sent, o.task < s.tasks.length
  allJoined : s.AllJoined
  queueEmpty : s.outgoing = []

theorem Inv.sent_eq (h : Inv incoming s) (hclosed : s.phase = .closed) {i : Nat} {t : Task}
    (ht : s.tasks[i]? = some t) : sentBy i s.sent = t.produced := by
  obtain ⟨hjoined, hempty⟩ := h.drained hclosed
  have haccounted := h.accounted i t ht
  rw [hempty, hjoined t (List.mem_of_getElem? ht), List.append_nil] at haccounted
  simpa only [Progress.pending, Option.toList_none, List.append_nil] using haccounted

theorem Inv.complete (h : Inv incoming s) (hclosed : s.phase = .closed) : Complete incoming s := by
  obtain ⟨hjoined, hempty⟩ := h.drained hclosed
  have hspawned := h.spawned
  have howned := h.owned
  rw [h.ended (Or.inr hclosed), List.append_nil] at hspawned
  rw [hempty, List.append_nil] at howned
  exact ⟨hspawned, fun i t ht => h.sent_eq hclosed ht, howned, hjoined, hempty⟩

theorem closed_inv {as : List Action}
    (hl : (machine incoming).Legal (initial incoming) as)
    (hclosed : ((machine incoming).exec (initial incoming) as).phase = .closed) :
    Inv incoming ((machine incoming).exec (initial incoming) as) := by
  refine (sound_run hl).resolve_left fun hfailed => ?_
  rw [hclosed] at hfailed
  cases hfailed

theorem closed_complete {incoming : List JsonRpcMessage} {as : List Action}
    (hl : (machine incoming).Legal (initial incoming) as)
    (hclosed : ((machine incoming).exec (initial incoming) as).phase = .closed) :
    Complete incoming ((machine incoming).exec (initial incoming) as) :=
  (closed_inv hl hclosed).complete hclosed

theorem mayRespond_realtime {W : Type} (pretty : Value → String) (P : Protocol W)
    (message : JsonRpcMessage) (t : Rpc.State W) :
    MayRespond message (P.handleMessageRealtime pretty message t).1 :=
  P.realtime_answered pretty message t

end

def noisyCall : JsonRpcMessage := .request ⟨"2.0", "tools/call", none, .number 1⟩

def noisyNotification : JsonRpcNotification := ⟨"2.0", "notifications/message", none⟩

def noisyResponse : JsonRpcMessage := .response ⟨"2.0", some (.object []), none, .number 1⟩

-- The response enters the queue only after end of input.
def noisyRun : List Action :=
  [.receive, .notify 0 noisyNotification, .enqueue 0, .endOfInput, .respond 0 (some noisyResponse),
    .send, .enqueue 0, .join 0, .send, .close]

theorem closed_complete_noisy :
    Complete [noisyCall] ((machine [noisyCall]).exec (initial [noisyCall]) noisyRun) := by
  refine closed_complete ?_ rfl
  have hmay : MayRespond noisyCall (some noisyResponse) :=
    ⟨answered_one rfl rfl, fun r hr => by rw [List.mem_singleton.mp hr]; exact List.cons_ne_nil _ _⟩
  exact ⟨⟨rfl, List.cons_ne_nil _ _⟩, ⟨Or.inl rfl, _, rfl, rfl⟩,
    ⟨Or.inl rfl, by decide, _, rfl, rfl⟩, ⟨rfl, rfl⟩, ⟨Or.inr rfl, _, rfl, rfl, hmay⟩,
    ⟨Or.inr rfl, List.cons_ne_nil _ _⟩, ⟨Or.inr rfl, by decide, _, rfl, rfl⟩,
    ⟨Or.inr rfl, _, rfl, rfl⟩, ⟨Or.inr rfl, List.cons_ne_nil _ _⟩,
    ⟨rfl, fun t ht => by rw [List.mem_singleton.mp ht]; rfl, rfl⟩, trivial⟩

end Server
