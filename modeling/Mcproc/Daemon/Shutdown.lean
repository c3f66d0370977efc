import Mcproc.Process.Orphans

namespace Shutdown

-- `found` is the entry its lookup gave, `result` what it reported.
structure StopTask where
  slot : Nat
  entry : ProxyInfo
  found : Option ProxyInfo
  result : Option Bool
  deriving DecidableEq

inductive Phase where
  | serving
  | signalled
  | filtering (todo : List ProxyInfo)
  | spawning (todo : List ProxyInfo)
  | pipelines
  | returned
  deriving DecidableEq

structure State where
  manager : Manager.State
  phase : Phase
  running : List ProxyInfo
  tasks : List StopTask

inductive Action where
  | manager (a : Manager.Action)
  | signal
  | snapshot
  | filter
  | spawn (i : Nat)
  | join
  | ret
  deriving DecidableEq

def State.Free (s : State) (i : Nat) : Prop := ∀ t ∈ s.tasks, t.slot ≠ i

instance (s : State) (i : Nat) : Decidable (s.Free i) :=
  inferInstanceAs (Decidable (∀ t ∈ s.tasks, t.slot ≠ i))

-- A stop task is no request: nobody begins another in its place or drops it.
def Serves (s : State) : Manager.Action → Prop
  | .begin i _ | .drop i _ => s.Free i
  | _ => True

instance (s : State) (a : Manager.Action) : Decidable (Serves s a) := by
  apply Manager.Action.casesOn (motive := fun a => Decidable (Serves s a)) a <;> intros <;>
    dsimp only [Serves] <;> infer_instance

section
variable (isUuid : String → Bool) (compileRegex : String → Except String Unit)

def lookedUp (m : Manager.State) (i : Nat) : Manager.Action → Option ProxyInfo
  | .stopLookup j n project _ _ =>
    if j = i then m.registry.getProcessByNameOrIdWithProject isUuid n (some project) else none
  | _ => none

def concluded (m : Manager.State) (i : Nat) : Manager.Action → Option Bool
  | .stopLookup j n project _ _ =>
    if j = i ∧ m.registry.getProcessByNameOrIdWithProject isUuid n (some project) = none then
      some false
    else none
  | .stopReturn j _ => if j = i then some true else none
  | .stopConfirmElapsed j _ => if j = i then some false else none
  | .stopTimeout j c _ => if j = i ∧ c.forced = true then some false else none
  | _ => none

def StopTask.advance (m : Manager.State) (a : Manager.Action) (t : StopTask) : StopTask :=
  { t with
    found := t.found.or (lookedUp isUuid m t.slot a)
    result := t.result.or (concluded isUuid m t.slot a) }

def stopTask (p : ProxyInfo) : Manager.Task := .stop p.name p.project false false

def enabled (s : State) : Action → Prop
  | .manager a =>
    s.phase ≠ .returned ∧ Manager.enabled isUuid compileRegex s.manager a ∧ Serves s a
  | .signal => s.phase = .serving
  | .snapshot => s.phase = .signalled
  | .filter => match s.phase with
    | .filtering _ => True
    | _ => False
  | .spawn i => match s.phase with
    | .spawning (_ :: _) => (s.manager.calls i).pc = .idle ∧ s.Free i
    | _ => False
  | .join => s.phase = .spawning [] ∧ ∀ t ∈ s.tasks, t.result ≠ none
  | .ret => s.phase = .pipelines

def next (s : State) : Action → State
  | .manager a =>
    { s with
      manager := Manager.next isUuid s.manager a
      tasks := s.tasks.map (StopTask.advance isUuid s.manager a) }
  | .signal => { s with phase := .signalled }
  | .snapshot => { s with phase := .filtering s.manager.registry.processes }
  | .filter => match s.phase with
    | .filtering (p :: todo) =>
      { s with
        phase := .filtering todo
        running := if (s.manager.status p.id).active then s.running ++ [p] else s.running }
    | .filtering [] => { s with phase := .spawning s.running }
    | _ => s
  | .spawn i => match s.phase with
    | .spawning (p :: todo) =>
      { s with
        manager := Manager.next isUuid s.manager (.begin i (stopTask p))
        phase := .spawning todo
        tasks := s.tasks ++ [⟨i, p, none, none⟩] }
    | _ => s
  | .join => { s with phase := .pipelines }
  | .ret => { s with phase := .returned }

def machine : Machine State Action where
  init := ⟨.initial, .serving, [], []⟩
  enabled := enabled isUuid compileRegex
  next := next isUuid

end

def Honest (s : State) : Action → Prop
  | .manager a => Manager.Truthful s.manager a
  | _ => True

def Live (m : Manager.State) (g : Nat) : Prop := ∃ G, m.groups[g]? = some G ∧ G.Live

-- The stop of the group was attempted and reported as failed.
def Reported (s : State) (g : Nat) : Prop :=
  ∃ t ∈ s.tasks, t.result = some false ∧ ∃ q, t.found = some q ∧ s.manager.groupOf q.id = some g

def LeavesNothing (s : State) : Prop := ∀ g, Live s.manager g → Reported s g

def Phase.early : Phase → Bool
  | .serving | .signalled => true
  | _ => false

-- What is alive at the snapshot is registered, and nothing is launched after it; what is alive when
-- the filter reads it is Running or Starting; what is alive when its stop task looks it up still has
-- its name.
def Reached (isUuid : String → Bool) (s : State) : Action → Prop
  | .snapshot => ∀ g, Live s.manager g →
      ∃ p ∈ s.manager.registry.processes, s.manager.groupOf p.id = some g
  | .filter => match s.phase with
    | .filtering (p :: _) => s.manager.GroupLive p.id → (s.manager.status p.id).active = true
    | _ => True
  | .manager (.startSpawn _ _ _) => s.phase.early = true
  | .manager (.stopLookup i n project _ _) => ∀ t ∈ s.tasks, t.slot = i →
      s.manager.GroupLive t.entry.id →
      s.manager.registry.getProcessByNameOrIdWithProject isUuid n (some project) = some t.entry
  | _ => True

def Covered (isUuid : String → Bool) (s : State) (a : Action) : Prop :=
  Honest s a ∧ Reached isUuid s a

variable (isUuid : String → Bool) (compileRegex : String → Except String Unit)

-- Where the call behind a task stands while it has reported nothing.
def Pending (m : Manager.State) (t : StopTask) : Prop :=
  match t.found with
  | none => m.calls t.slot = ⟨.ready, [stopTask t.entry]⟩ ∨
      (m.calls t.slot).pc = .stopLookup t.entry.name t.entry.project false false
  | some q => ∃ c phase, (m.calls t.slot).pc = .stop c phase ∧ c.proxy = q

structure TaskOk (m : Manager.State) (t : StopTask) : Prop where
  known : ∀ q, t.found = some q → m.Knows q
  pending : t.result = none → Pending m t
  succeeded : t.result = some true → ∃ q, t.found = some q ∧ ¬ m.GroupLive q.id

def Unheld (i : Nat) : Manager.Action → Prop
  | .begin j _ | .drop j _ => i ≠ j
  | _ => True

theorem ready_exit {m : Manager.State} {a : Manager.Action} {i : Nat}
    (h : Manager.enabled isUuid compileRegex m a) (hi : a.actor = some i) (hu : Unheld i a)
    {t : Manager.Task} (hc : m.calls i = ⟨.ready, [t]⟩) : a = .task i t [] := by
  have hsource := Manager.source_eq isUuid compileRegex h hi
  rw [hc] at hsource
  cases a with
  | task j t' rest =>
    cases hi
    cases hc.symm.trans h
    rfl
  | finish j => cases hi; cases hc.symm.trans h
  | drop j pc => cases hi; exact absurd rfl hu
  | _ => cases hsource

theorem lookup_exit {m : Manager.State} {a : Manager.Action} {i : Nat}
    (h : Manager.enabled isUuid compileRegex m a) (hi : a.actor = some i) (hu : Unheld i a)
    {n project : String} {f t : Bool} (hpc : (m.calls i).pc = .stopLookup n project f t) :
    a = .stopLookup i n project f t := by
  have hsource := Manager.source_eq isUuid compileRegex h hi
  rw [hpc] at hsource
  cases a with
  | stopLookup j n' project' f' t' =>
    cases hi
    cases hsource
    rfl
  | drop j pc => cases hi; exact absurd rfl hu
  | _ => cases hsource

theorem stop_exit {m : Manager.State} {a : Manager.Action} {i : Nat}
    (h : Manager.enabled isUuid compileRegex m a) (hi : a.actor = some i) (hu : Unheld i a)
    {c : Manager.StopCall} {phase : Manager.StopPhase} (hpc : (m.calls i).pc = .stop c phase) :
    (lookedUp isUuid m i a = none ∧
      ∃ c' phase', ((Manager.next isUuid m a).calls i).pc = .stop c' phase' ∧ c'.proxy = c.proxy) ∨
      concluded isUuid m i a = some false ∨
        concluded isUuid m i a = some true ∧ phase = .linger := by
  have hsource := Manager.source_eq isUuid compileRegex h hi
  rw [hpc] at hsource
  cases a with
  | stopPublish j c' | stopSetStopping j c' | stopSigterm j c' sent alive | stopPoll j c' alive
  | stopPollElapsed j c' | stopPollWake j c' | stopSigkill j c' | stopConfirm j c' alive
  | stopConfirmPs j c' survivors | stopConfirmWake j c' | stopSetStopped j c'
  | stopRelease j c' k =>
    cases hi
    cases hsource
    exact Or.inl ⟨rfl, c, _, by rw [Manager.next, Manager.State.goto_pc_self], rfl⟩
  | stopRemove j c' =>
    cases hi
    cases hsource
    left
    rw [Manager.next, Manager.State.goto_pc_self]
    cases m.registry.getProcessById c.proxy.id with
    | none => exact ⟨rfl, c, _, rfl, rfl⟩
    | some p => exact ⟨rfl, c, _, rfl, rfl⟩
  | stopConfirmElapsed j c' =>
    cases hi
    exact Or.inr (Or.inl (if_pos rfl))
  | stopTimeout j c' phase' =>
    cases hi
    cases hsource
    cases hf : c.forced with
    | true => exact Or.inr (Or.inl (if_pos ⟨rfl, hf⟩))
    | false =>
      refine Or.inl ⟨rfl, { c with retry := true }, .setStopping, ?_, rfl⟩
      rw [Manager.next, Manager.State.goto_pc_self, Manager.afterStopTimeout, hf]
      rfl
  | stopReturn j c' =>
    cases hi
    cases hsource
    exact Or.inr (Or.inr ⟨if_pos rfl, rfl⟩)
  | drop j pc => cases hi; exact absurd rfl hu
  | _ => cases hsource

theorem advance_other {m : Manager.State} {a : Manager.Action} {t : StopTask}
    (hi : a.actor ≠ some t.slot) : t.advance isUuid m a = t := by
  have hne {j : Nat} (hj : Manager.Action.actor a = some j) : j ≠ t.slot :=
    fun e => hi (by rw [hj, e])
  have hl : lookedUp isUuid m t.slot a = none := by
    cases a <;> first
      | rfl
      | exact if_neg (hne rfl)
  have hc : concluded isUuid m t.slot a = none := by
    cases a <;> first
      | rfl
      | exact if_neg (hne rfl)
      | exact if_neg fun e => hne rfl e.1
  simp [StopTask.advance, hl, hc]

theorem lookedUp_known {m : Manager.State} {a : Manager.Action} {i : Nat} {q : ProxyInfo}
    (hf : Manager.GroupFrame m) (hq : lookedUp isUuid m i a = some q) : m.Knows q := by
  cases a with
  | stopLookup j n project f t =>
    simp only [lookedUp] at hq
    split at hq
    · exact hf.owned.resolved.entries q (Registry.lookup_mem isUuid hq)
    · cases hq
  | _ => cases hq

theorem pending_task {m : Manager.State} {a : Manager.Action} {t : StopTask}
    (h : Manager.enabled isUuid compileRegex m a) (hu : Unheld t.slot a)
    (hi : a.actor = some t.slot) (hp : Pending m t)
    (hr : concluded isUuid m t.slot a = none) :
    Pending (Manager.next isUuid m a)
      { t with found := t.found.or (lookedUp isUuid m t.slot a) } := by
  cases hfound : t.found with
  | none =>
    simp only [Pending, hfound] at hp
    rcases hp with hready | hlookup
    · obtain rfl := ready_exit isUuid compileRegex h hi hu hready
      refine Or.inr ?_
      simp [Manager.next, stopTask, Manager.Task.run]
    · obtain rfl := lookup_exit isUuid compileRegex h hi hu hlookup
      simp only [concluded, lookedUp, true_and, if_true] at hr ⊢
      cases hq : m.registry.getProcessByNameOrIdWithProject isUuid t.entry.name
          (some t.entry.project) with
      | none =>
        rw [hq, if_pos rfl] at hr
        cases hr
      | some q =>
        refine ⟨⟨q, false, false, false⟩, .publish, ?_, rfl⟩
        rw [Manager.next, Manager.State.goto_pc_self, hq]
        rfl
  | some q =>
    simp only [Pending, hfound] at hp
    obtain ⟨c, phase, hpc, rfl⟩ := hp
    rcases stop_exit isUuid compileRegex h hi hu hpc with ⟨-, c', phase', hpc', hc⟩ | hc | ⟨hc, -⟩
    · exact ⟨c', phase', hpc', hc⟩
    · cases hr.symm.trans hc
    · cases hr.symm.trans hc

theorem concluded_true {m : Manager.State} {a : Manager.Action} {t : StopTask}
    (h : Manager.enabled isUuid compileRegex m a) (hu : Unheld t.slot a)
    (hi : a.actor = some t.slot) (hp : Pending m t)
    (hr : concluded isUuid m t.slot a = some true) :
    ∃ c, t.found = some c.proxy ∧ (m.calls t.slot).pc = .stop c .linger := by
  cases hfound : t.found with
  | none =>
    simp only [Pending, hfound] at hp
    rcases hp with hready | hlookup
    · obtain rfl := ready_exit isUuid compileRegex h hi hu hready
      cases hr
    · obtain rfl := lookup_exit isUuid compileRegex h hi hu hlookup
      simp only [concluded] at hr
      split at hr <;> cases hr
  | some q =>
    simp only [Pending, hfound] at hp
    obtain ⟨c, phase, hpc, rfl⟩ := hp
    rcases stop_exit isUuid compileRegex h hi hu hpc with ⟨-, c', phase', hpc', -⟩ | hc | ⟨-, rfl⟩
    · cases a with
      | stopReturn j c'' =>
        cases hi
        rw [Manager.next, Manager.State.goto_pc_self] at hpc'
        cases hpc'
      | stopLookup | stopConfirmElapsed | stopTimeout =>
        simp only [concluded] at hr
        split at hr <;> cases hr
      | _ => cases hr
    · cases hr.symm.trans hc
    · exact ⟨c, rfl, hpc⟩

theorem taskOk_step {m : Manager.State} {a : Manager.Action} {t : StopTask}
    (hf : Manager.GroupFrame m) (h : Manager.enabled isUuid compileRegex m a)
    (hu : Unheld t.slot a) (hok : TaskOk m t) :
    TaskOk (Manager.next isUuid m a) (t.advance isUuid m a) := by
  have he := Manager.extends_step isUuid compileRegex h
  have dead {q : ProxyInfo} (hk : m.Knows q) (hdead : ¬ m.GroupLive q.id) :
      ¬ (Manager.next isUuid m a).GroupLive q.id :=
    fun hl => hdead (Manager.groupLive_step isUuid compileRegex h hk hl)
  have known : ∀ q, (t.advance isUuid m a).found = some q → m.Knows q := by
    intro q hq
    rcases Option.or_eq_some_iff.mp hq with hq | ⟨-, hq⟩
    · exact hok.known q hq
    · exact lookedUp_known isUuid hf hq
  refine ⟨fun q hq => (known q hq).mono he, fun hr => ?_, fun hr => ?_⟩
  · obtain ⟨hold, hnew⟩ := Option.or_eq_none_iff.mp hr
    by_cases hi : a.actor = some t.slot
    · exact pending_task isUuid compileRegex h hu hi (hok.pending hold) hnew
    · have hp := hok.pending hold
      rw [advance_other isUuid hi]
      simpa only [Pending, Manager.calls_frame isUuid m a hi] using hp
  · rcases Option.or_eq_some_iff.mp hr with hold | ⟨hnone, hnew⟩
    · obtain ⟨q, hq, hdead⟩ := hok.succeeded hold
      exact ⟨q, by simp [StopTask.advance, hq], dead (hok.known q hq) hdead⟩
    · have hi : a.actor = some t.slot := by
        by_contra hi
        have hadv := congrArg StopTask.result (advance_other isUuid (m := m) hi)
        rw [hr, hnone] at hadv
        cases hadv
      obtain ⟨c, hc, hpc⟩ :=
        concluded_true isUuid compileRegex h hu hi (hok.pending hnone) hnew
      exact ⟨c.proxy, by simp [StopTask.advance, hc],
        dead (hok.known _ hc) (hf.gone t.slot c .linger hpc rfl)⟩

def Phase.todo : Phase → List ProxyInfo
  | .filtering todo | .spawning todo => todo
  | _ => []

def State.Mentions (s : State) (p : ProxyInfo) : Prop :=
  p ∈ s.phase.todo ∨ p ∈ s.running ∨ ∃ t ∈ s.tasks, t.entry = p

structure Sound (s : State) : Prop where
  frame : Manager.GroupFrame s.manager
  tasks : ∀ t ∈ s.tasks, TaskOk s.manager t
  known : ∀ p, s.Mentions p → s.manager.Knows p

theorem sound_initial : Sound (machine isUuid compileRegex).init where
  frame := Manager.groupFrame_initial
  tasks _ ht := by cases ht
  known p hp := by
    rcases hp with hp | hp | ⟨t, ht, -⟩
    · cases hp
    · cases hp
    · cases ht

theorem unheld_of_serves {s : State} {a : Manager.Action} (h : Serves s a) {t : StopTask}
    (ht : t ∈ s.tasks) : Unheld t.slot a := by
  cases a with
  | begin i t' => exact h t ht
  | drop i pc => exact h t ht
  | _ => trivial

theorem mentions_filter {s : State} {p : ProxyInfo} (h : (next isUuid s .filter).Mentions p) :
    s.Mentions p := by
  simp only [next] at h
  split at h
  · next q todo hphase =>
    rcases h with h | h | h
    · exact Or.inl (by rw [hphase]; exact List.mem_cons_of_mem q h)
    · dsimp only at h
      split at h
      · rcases List.mem_append.mp h with h | h
        · exact Or.inr (Or.inl h)
        · obtain rfl := List.mem_singleton.mp h
          exact Or.inl (by rw [hphase]; exact List.mem_cons_self)
      · exact Or.inr (Or.inl h)
    · exact Or.inr (Or.inr h)
  · rcases h with h | h
    · exact Or.inr (Or.inl h)
    · exact Or.inr h
  · exact h

theorem sound_spawn {s : State} {i : Nat} (hs : Sound s)
    (h : enabled isUuid compileRegex s (.spawn i)) : Sound (next isUuid s (.spawn i)) := by
  simp only [enabled] at h
  split at h
  swap
  · cases h
  next p todo hphase =>
  obtain ⟨hidle, hfree⟩ := h
  have hbegin : Manager.enabled isUuid compileRegex s.manager (.begin i (stopTask p)) :=
    ⟨hidle, rfl⟩
  have he := Manager.extends_step isUuid compileRegex hbegin
  simp only [next, hphase]
  refine ⟨Manager.groupFrame_step isUuid compileRegex hs.frame hbegin trivial, fun t ht => ?_,
    fun q hq => (hs.known q ?_).mono he⟩
  · rcases List.mem_append.mp ht with ht | ht
    · have hok := taskOk_step isUuid compileRegex hs.frame hbegin (hfree t ht) (hs.tasks t ht)
      have hother : Manager.Action.actor (.begin i (stopTask p)) ≠ some t.slot :=
        fun e => hfree t ht (Option.some.inj e).symm
      rwa [advance_other isUuid hother] at hok
    · obtain rfl := List.mem_singleton.mp ht
      refine ⟨fun _ => nofun, fun _ => Or.inl ?_, fun hr => by cases hr⟩
      simp [Manager.next]
  · rcases hq with hq | hq | ⟨t, ht, rfl⟩
    · exact Or.inl (by rw [hphase]; exact List.mem_cons_of_mem p hq)
    · exact Or.inr (Or.inl hq)
    · rcases List.mem_append.mp ht with ht | ht
      · exact Or.inr (Or.inr ⟨t, ht, rfl⟩)
      · obtain rfl := List.mem_singleton.mp ht
        exact Or.inl (by rw [hphase]; exact List.mem_cons_self)

theorem sound_step {s : State} {a : Action} (hs : Sound s)
    (h : enabled isUuid compileRegex s a) (hh : Honest s a) : Sound (next isUuid s a) := by
  cases a with
  | manager a =>
    obtain ⟨-, he, hserves⟩ := h
    have hext := Manager.extends_step isUuid compileRegex he
    refine ⟨Manager.groupFrame_step isUuid compileRegex hs.frame he hh, fun t ht => ?_,
      fun p hp => (hs.known p ?_).mono hext⟩
    · obtain ⟨t, hold, rfl⟩ := List.mem_map.mp ht
      exact taskOk_step isUuid compileRegex hs.frame he (unheld_of_serves hserves hold)
        (hs.tasks t hold)
    · rcases hp with hp | hp | ⟨t, ht, rfl⟩
      · exact Or.inl hp
      · exact Or.inr (Or.inl hp)
      · obtain ⟨t, hold, rfl⟩ := List.mem_map.mp ht
        exact Or.inr (Or.inr ⟨t, hold, rfl⟩)
  | signal =>
    refine ⟨hs.frame, hs.tasks, fun p hp => hs.known p (hp.imp_left fun hp => ?_)⟩
    cases hp
  | snapshot =>
    refine ⟨hs.frame, hs.tasks, fun p hp => ?_⟩
    rcases hp with hp | hp
    · exact hs.frame.owned.resolved.entries p hp
    · exact hs.known p (Or.inr hp)
  | filter =>
    have hm : (next isUuid s .filter).manager = s.manager := by
      simp only [next]
      split <;> rfl
    have ht : (next isUuid s .filter).tasks = s.tasks := by
      simp only [next]
      split <;> rfl
    refine ⟨hm ▸ hs.frame, by rw [hm, ht]; exact hs.tasks, fun p hp => ?_⟩
    rw [hm]
    exact hs.known p (mentions_filter isUuid hp)
  | spawn i => exact sound_spawn isUuid compileRegex hs h
  | join =>
    refine ⟨hs.frame, hs.tasks, fun p hp => hs.known p (hp.imp_left fun hp => ?_)⟩
    cases hp
  | ret =>
    refine ⟨hs.frame, hs.tasks, fun p hp => hs.known p (hp.imp_left fun hp => ?_)⟩
    cases hp

-- Through the phases every group still alive stays with an entry that a stop task is made for.
def Held (s : State) : Prop :=
  match s.phase with
  | .serving | .signalled => True
  | .filtering todo => ∀ g, Live s.manager g →
      ∃ p, s.manager.groupOf p.id = some g ∧ (p ∈ s.running ∨ p ∈ todo)
  | .spawning todo => ∀ g, Live s.manager g →
      ∃ p, s.manager.groupOf p.id = some g ∧ ((∃ t ∈ s.tasks, t.entry = p) ∨ p ∈ todo)
  | .pipelines | .returned => ∀ g, Live s.manager g →
      ∃ t ∈ s.tasks, s.manager.groupOf t.entry.id = some g ∧ t.result ≠ none

def Found (m : Manager.State) (t : StopTask) : Prop :=
  m.GroupLive t.entry.id → t.found = none ∧ t.result = none ∨ t.found = some t.entry

structure Tracks (s : State) : Prop where
  held : Held s
  found : ∀ t ∈ s.tasks, Found s.manager t

theorem groupLive_of_live {m : Manager.State} {p : ProxyInfo} {g : Nat} (hl : Live m g)
    (hg : m.groupOf p.id = some g) : m.GroupLive p.id := by
  obtain ⟨G, hG, hl⟩ := hl
  exact ⟨g, G, hg, hG, hl⟩

theorem live_before {s : State} {a : Manager.Action}
    (he : Manager.enabled isUuid compileRegex s.manager a)
    (hc : Reached isUuid s (.manager a)) (hp : s.phase.early = false) {g : Nat}
    (hl : Live (Manager.next isUuid s.manager a) g) : Live s.manager g := by
  obtain ⟨G, hG, hl⟩ := hl
  rcases Manager.live_step isUuid compileRegex he hG hl with hold | ⟨i, r, pid, rfl, -⟩
  · exact hold
  · have hearly : s.phase.early = true := hc
    cases hearly.symm.trans hp

theorem held_manager {s : State} {a : Manager.Action} (h : Held s)
    (he : Manager.enabled isUuid compileRegex s.manager a)
    (hc : Reached isUuid s (.manager a)) : Held (next isUuid s (.manager a)) := by
  have hg := (Manager.extends_step isUuid compileRegex he).groupOf
  have hbefore := live_before isUuid compileRegex (s := s) he hc
  simp only [Held, next] at h ⊢
  split at h
  · trivial
  · trivial
  · next hphase =>
    intro g hl
    obtain ⟨p, hp, hmem⟩ := h g (hbefore (by rw [hphase]; rfl) hl)
    exact ⟨p, hg _ _ hp, hmem⟩
  · next hphase =>
    intro g hl
    obtain ⟨p, hp, ⟨t, ht, rfl⟩ | hmem⟩ := h g (hbefore (by rw [hphase]; rfl) hl)
    · exact ⟨t.entry, hg _ _ hp, Or.inl ⟨_, List.mem_map_of_mem ht, rfl⟩⟩
    · exact ⟨p, hg _ _ hp, Or.inr hmem⟩
  all_goals
    next hphase =>
    intro g hl
    obtain ⟨t, ht, hp, hr⟩ := h g (hbefore (by rw [hphase]; rfl) hl)
    refine ⟨_, List.mem_map_of_mem ht, hg _ _ hp, ?_⟩
    obtain ⟨b, hb⟩ := Option.ne_none_iff_exists'.mp hr
    simp [StopTask.advance, hb]

theorem found_manager {s : State} {a : Manager.Action} (hs : Sound s)
    (h : ∀ t ∈ s.tasks, Found s.manager t)
    (he : Manager.enabled isUuid compileRegex s.manager a) (hserves : Serves s a)
    (hc : Reached isUuid s (.manager a)) :
    ∀ t ∈ (next isUuid s (.manager a)).tasks, Found (next isUuid s (.manager a)).manager t := by
  intro t' ht' hl'
  obtain ⟨t, ht, rfl⟩ := List.mem_map.mp ht'
  have hl : s.manager.GroupLive t.entry.id :=
    Manager.groupLive_step isUuid compileRegex he (hs.known t.entry (Or.inr (Or.inr ⟨t, ht, rfl⟩)))
      hl'
  rcases h t ht hl with ⟨hf, hr⟩ | hf
  swap
  · exact Or.inr (by simp [StopTask.advance, hf])
  by_cases hi : a.actor = some t.slot
  swap
  · rw [advance_other isUuid hi]
    exact Or.inl ⟨hf, hr⟩
  have hp := (hs.tasks t ht).pending hr
  simp only [Pending, hf] at hp
  rcases hp with hready | hlookup
  · obtain rfl := ready_exit isUuid compileRegex he hi (unheld_of_serves hserves ht) hready
    exact Or.inl (by simp [StopTask.advance, hf, hr, lookedUp, concluded])
  · obtain rfl := lookup_exit isUuid compileRegex he hi (unheld_of_serves hserves ht) hlookup
    exact Or.inr (by simp [StopTask.advance, hf, lookedUp, hc t ht rfl hl])

theorem held_filter {s : State} (h : Held s) (hc : Reached isUuid s .filter) :
    Held (next isUuid s .filter) := by
  simp only [next]
  split
  · next p todo hphase =>
    simp only [Held, Reached, hphase] at h hc ⊢
    intro g hl
    obtain ⟨q, hq, hmem⟩ := h g hl
    refine ⟨q, hq, ?_⟩
    rcases hmem with hmem | hmem
    · left
      split
      · exact List.mem_append_left _ hmem
      · exact hmem
    · rcases List.mem_cons.mp hmem with rfl | hmem
      · left
        rw [if_pos (hc (groupLive_of_live hl hq))]
        exact List.mem_append_right _ List.mem_cons_self
      · exact Or.inr hmem
  · next hphase =>
    simp only [Held, hphase] at h ⊢
    intro g hl
    obtain ⟨q, hq, hmem⟩ := h g hl
    exact ⟨q, hq, Or.inr (hmem.resolve_right List.not_mem_nil)⟩
  · exact h

theorem tracks_spawn {s : State} {i : Nat} (h : Tracks s) : Tracks (next isUuid s (.spawn i)) := by
  simp only [next]
  split
  swap
  · exact h
  next p todo hphase =>
  constructor
  · have hh := h.held
    simp only [Held, hphase] at hh ⊢
    intro g hl
    obtain ⟨q, hq, ⟨t, ht, rfl⟩ | hmem⟩ := hh g hl
    · exact ⟨t.entry, hq, Or.inl ⟨t, List.mem_append_left _ ht, rfl⟩⟩
    · rcases List.mem_cons.mp hmem with rfl | hmem
      · exact ⟨q, hq, Or.inl ⟨_, List.mem_append_right _ List.mem_cons_self, rfl⟩⟩
      · exact ⟨q, hq, Or.inr hmem⟩
  · intro t ht hl
    rcases List.mem_append.mp ht with ht | ht
    · exact h.found t ht hl
    · obtain rfl := List.mem_singleton.mp ht
      exact Or.inl ⟨rfl, rfl⟩

theorem tracks_step {s : State} {a : Action} (hs : Sound s) (ht : Tracks s)
    (h : enabled isUuid compileRegex s a) (hc : Reached isUuid s a) :
    Tracks (next isUuid s a) := by
  cases a with
  | manager a =>
    obtain ⟨-, he, hserves⟩ := h
    exact ⟨held_manager isUuid compileRegex ht.held he hc,
      found_manager isUuid compileRegex hs ht.found he hserves hc⟩
  | signal => exact ⟨trivial, ht.found⟩
  | snapshot =>
    refine ⟨fun g hl => ?_, ht.found⟩
    obtain ⟨p, hp, hg⟩ := hc g hl
    exact ⟨p, hg, Or.inr hp⟩
  | filter =>
    refine ⟨held_filter isUuid ht.held hc, ?_⟩
    have hfound := ht.found
    simp only [next]
    split <;> exact hfound
  | spawn i => exact tracks_spawn isUuid ht
  | join =>
    obtain ⟨hphase, hresults⟩ := h
    refine ⟨fun g hl => ?_, ht.found⟩
    have hh := ht.held
    simp only [Held, hphase] at hh
    obtain ⟨q, hq, ⟨t, hmem, rfl⟩ | hmem⟩ := hh g hl
    · exact ⟨t, hmem, hq, hresults t hmem⟩
    · cases hmem
  | ret =>
    have hphase : s.phase = .pipelines := h
    refine ⟨?_, ht.found⟩
    have hh := ht.held
    simp only [Held, hphase] at hh
    exact hh

theorem leaves_nothing_of_tracks {s : State} (hs : Sound s) (ht : Tracks s)
    (hr : s.phase = .returned) : LeavesNothing s := by
  intro g hl
  have hh := ht.held
  simp only [Held, hr] at hh
  obtain ⟨t, hmem, hg, hres⟩ := hh g hl
  have hlive := groupLive_of_live hl hg
  have hfound := (ht.found t hmem hlive).resolve_left fun h => hres h.2
  refine ⟨t, hmem, ?_, t.entry, hfound, hg⟩
  cases hb : t.result with
  | none => exact absurd hb hres
  | some b =>
    cases b with
    | false => rfl
    | true =>
      obtain ⟨q, hq, hdead⟩ := (hs.tasks t hmem).succeeded hb
      obtain rfl := Option.some.inj (hfound.symm.trans hq)
      exact absurd hlive hdead

theorem shutdown_leaves_nothing {as : List Action}
    (h : (machine isUuid compileRegex).Legal (machine isUuid compileRegex).init as)
    (hc : (machine isUuid compileRegex).Throughout (Covered isUuid)
      (machine isUuid compileRegex).init as)
    (hr : ((machine isUuid compileRegex).exec (machine isUuid compileRegex).init as).phase =
      .returned) :
    LeavesNothing ((machine isUuid compileRegex).exec (machine isUuid compileRegex).init as) := by
  have hall := (machine isUuid compileRegex).always_of_step (J := fun s => Sound s ∧ Tracks s)
    (fun s a hs he hc => ⟨sound_step isUuid compileRegex hs.1 he hc.1,
      tracks_step isUuid compileRegex hs.1 hs.2 he hc.2⟩)
    ⟨sound_initial isUuid compileRegex, ⟨trivial, fun t ht => by cases ht⟩⟩ h hc
  have hlast := (machine isUuid compileRegex).always_last hall
  exact leaves_nothing_of_tracks hlast.1 hlast.2 hr

instance (s : State) (a : Action) : Decidable ((machine isUuid compileRegex).enabled s a) := by
  apply Action.casesOn (motive := fun a => Decidable ((machine isUuid compileRegex).enabled s a)) a
  · exact fun a => inferInstanceAs (Decidable (s.phase ≠ .returned ∧
      (Manager.machine isUuid compileRegex).enabled s.manager a ∧ Serves s a))
  all_goals
    intros
    dsimp only [machine, enabled]
    try split
    all_goals infer_instance

instance (s : State) (a : Action) : Decidable (Honest s a) := by
  apply Action.casesOn (motive := fun a => Decidable (Honest s a)) a <;> intros <;>
    dsimp only [Honest] <;> infer_instance

instance (m : Manager.State) (g : Nat) : Decidable (Live m g) :=
  decidable_of_iff ((m.groups[g]?).any (fun G => decide G.Live) = true)
    (by simp [Live, Option.any_eq_true])

instance (m : Manager.State) (id : String) : Decidable (m.GroupLive id) :=
  decidable_of_iff ((m.groupOf id).any (fun g => decide (Live m g)) = true)
    (by
      simp only [Option.any_eq_true, decide_eq_true_eq]
      simp only [Live, Manager.State.GroupLive, exists_and_left])

instance (m : Manager.State) : Decidable
    (∀ g, Live m g → ∃ p ∈ m.registry.processes, m.groupOf p.id = some g) :=
  decidable_of_iff
    (∀ g < m.groups.length, Live m g → ∃ p ∈ m.registry.processes, m.groupOf p.id = some g)
    ⟨fun h g hl => h g (List.getElem?_eq_some_iff.mp hl.choose_spec.1).1 hl,
      fun h g _ hl => h g hl⟩

instance (s : State) (a : Action) : Decidable (Reached isUuid s a) := by
  apply Action.casesOn (motive := fun a => Decidable (Reached isUuid s a)) a
  · intro a
    apply Manager.Action.casesOn (motive := fun a => Decidable (Reached isUuid s (.manager a))) a <;>
      intros <;> dsimp only [Reached] <;> infer_instance
  all_goals
    intros
    dsimp only [Reached]
    try split
    all_goals infer_instance

instance (s : State) (a : Action) : Decidable (Covered isUuid s a) :=
  inferInstanceAs (Decidable (_ ∧ _))

def workerRequest : StartRequest := { Manager.webRequest with name := "worker" }

def webStop : Manager.StopCall := ⟨Manager.webProxy, false, false, false⟩

def workerStop : Manager.StopCall := ⟨ProxyInfo.new workerRequest "b" 9, false, false, false⟩

def workerRun : List Manager.Action :=
  [.begin 1 (.start workerRequest), .task 1 (.start workerRequest) [],
   .startLookup 1 workerRequest, .startReserve 1 workerRequest, .startSpawn 1 workerRequest 9,
   .startAdd 1 workerRequest 9 1 "b", .startKeep 1 workerStop.proxy]

def beginStop (i : Nat) (c : Manager.StopCall) : List Manager.Action :=
  [.task i (stopTask c.proxy) [], .stopLookup i c.proxy.name c.proxy.project false false,
   .stopPublish i c, .stopSetStopping i c, .stopSigterm i c true true]

def endStop (i : Nat) (c : Manager.StopCall) : List Manager.Action :=
  [.leaderExit 0, .monitorReap c.proxy.id 0 (some 0), .stopPoll i c false, .stopSetStopped i c,
   .stopRemove i c, .stopRelease i c c.proxy.key, .stopReturn i c]

def failStop (i : Nat) (c : Manager.StopCall) : List Manager.Action :=
  [.stopPoll i c true, .stopPollWake i c, .stopPollElapsed i c, .stopSigkill i c,
   .stopConfirm i c true, .stopConfirmPs i c true, .stopConfirmWake i c, .stopConfirmElapsed i c]

-- web ends on SIGTERM; worker survives SIGKILL too, and its stop reports that.
def stoppedRun : List Action :=
  (Manager.startRun 0 Manager.webRequest 7 "a" ++ workerRun).map .manager ++
    [.signal, .snapshot, .filter, .filter, .filter, .spawn 2, .spawn 3] ++
    (beginStop 2 workerStop ++ beginStop 3 webStop ++ endStop 3 webStop ++
      failStop 2 workerStop).map .manager ++
    [.join, .ret]

theorem shutdown_leaves_nothing_web :
    let last := (machine (fun _ => false) (fun _ => .ok ())).exec
      (machine (fun _ => false) (fun _ => .ok ())).init stoppedRun
    LeavesNothing last ∧ ¬ Live last.manager 0 ∧ Live last.manager 1 ∧
      last.tasks.map (fun t => (t.entry.name, t.result)) =
        [("worker", some false), ("web", some true)] :=
  ⟨shutdown_leaves_nothing _ _ (by decide) (by decide) (by decide), by decide⟩

-- The command has exited and left a child in its group; the filter passes the entry over.
def survivorRun : List Action :=
  (Manager.startRun 0 Manager.webRequest 7 "a").map .manager ++
    [.manager (.fork 0), .manager (.leaderExit 0), .manager (.monitorReap "a" 0 (some 0)),
     .manager (.monitorExitCode "a" (some 0)), .manager (.monitorStatus "a" (some 0)), .signal,
     .snapshot, .filter, .filter, .join, .ret]

theorem survivor_left_behind :
    (machine (fun _ => false) (fun _ => .ok ())).Legal
        (machine (fun _ => false) (fun _ => .ok ())).init survivorRun ∧
      (machine (fun _ => false) (fun _ => .ok ())).Throughout Honest
        (machine (fun _ => false) (fun _ => .ok ())).init survivorRun ∧
      ((machine (fun _ => false) (fun _ => .ok ())).exec
        (machine (fun _ => false) (fun _ => .ok ())).init survivorRun).phase = .returned ∧
      ¬ LeavesNothing ((machine (fun _ => false) (fun _ => .ok ())).exec
        (machine (fun _ => false) (fun _ => .ok ())).init survivorRun) := by
  refine ⟨by decide, by decide, by decide, fun h => ?_⟩
  obtain ⟨t, ht, -⟩ := h 0 ⟨⟨7, .reaped, 1, 0⟩, by decide, by decide⟩
  have hnone : ((machine (fun _ => false) (fun _ => .ok ())).exec
      (machine (fun _ => false) (fun _ => .ok ())).init survivorRun).tasks = [] := by decide
  rw [hnone] at ht
  cases ht

end Shutdown
