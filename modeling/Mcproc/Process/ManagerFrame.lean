import Mathlib.Data.List.Nodup
import Mcproc.Process.Manager

namespace Manager

namespace State

@[simp] theorem goto_registry (s : State) (i : Nat) (pc : Pc) :
    (s.goto i pc).registry = s.registry := rfl
@[simp] theorem goto_status (s : State) (i : Nat) (pc : Pc) : (s.goto i pc).status = s.status := rfl
@[simp] theorem goto_groups (s : State) (i : Nat) (pc : Pc) : (s.goto i pc).groups = s.groups := rfl
@[simp] theorem goto_groupOf (s : State) (i : Nat) (pc : Pc) :
    (s.goto i pc).groupOf = s.groupOf := rfl

theorem goto_calls (s : State) (i j : Nat) (pc : Pc) :
    (s.goto i pc).calls j = if j = i then ⟨pc, (s.calls i).rest⟩ else s.calls j := by
  simp only [goto, Function.update_apply]

@[simp] theorem goto_pc_self (s : State) (i : Nat) (pc : Pc) : ((s.goto i pc).calls i).pc = pc := by
  simp [goto_calls]

theorem goto_or {s : State} {i j : Nat} {pc : Pc} (Q : Pc → Prop) (R : List Task → Prop)
    (h : Q ((s.goto i pc).calls j).pc ∨ R ((s.goto i pc).calls j).rest) :
    (Q (s.calls j).pc ∨ R (s.calls j).rest) ∨ j = i ∧ Q pc := by
  rw [goto_calls] at h
  split at h
  · next e =>
    subst e
    rcases h with h | h
    · exact Or.inr ⟨rfl, h⟩
    · exact Or.inl (Or.inr h)
  · exact Or.inl h

end State

def Action.actor : Action → Option Nat
  | .begin i _ | .task i _ _ | .finish i | .drop i _ | .startLookup i _ | .startStatus i _ _
  | .startRemove i _ _ | .startRelease i _ _ | .startReserve i _ | .startReject i _
  | .startSpawn i _ _ | .startDrop i _ | .startAdd i _ _ _ _ | .startKeep i _
  | .startPublish i _ | .startMonitor i _ | .startWake i _ | .startReport i _
  | .startStarted i _ | .startReturn i _ | .syncExitCode i _ _ | .syncExitStatus i _ _ _
  | .syncProbe i _ _ _ | .syncProbeError i _ _ | .syncProbeStatus i _ _ _ | .syncStore i _ _ _
  | .stopLookup i _ _ _ _ | .stopPublish i _ | .stopSetStopping i _ | .stopSigterm i _ _ _
  | .stopPoll i _ _ | .stopPollElapsed i _ | .stopPollWake i _ | .stopSigkill i _
  | .stopConfirm i _ _ | .stopConfirmElapsed i _ | .stopConfirmPs i _ _ | .stopConfirmWake i _
  | .stopTimeout i _ _ | .stopSetStopped i _ | .stopRemove i _ | .stopRelease i _ _
  | .stopReturn i _ | .removalSeen i _ _ | .removalTimeout i _ _ => some i
  | .monitorReap _ _ _ | .monitorError _ | .monitorExitCode _ _ | .monitorStatus _ _
  | .monitorFailed _ | .monitorPublish _ _ | .leaderExit _ | .fork _ | .memberExit _
  | .memberReap _ => none

def Action.source : Action → Option Pc
  | .begin _ _ => some .idle
  | .task _ _ _ | .finish _ => some .ready
  | .drop _ pc => some pc
  | .startLookup _ r => some (.startLookup r)
  | .startStatus _ r e => some (.startStatus r e)
  | .startRemove _ r e => some (.startRemove r e)
  | .startRelease _ r k => some (.startRelease r k)
  | .startReserve _ r => some (.startReserve r)
  | .startReject _ r | .startSpawn _ r _ => some (.startLaunch r)
  | .startDrop _ k => some (.startDrop k)
  | .startAdd _ r pid group _ => some (.startAdd r pid group)
  | .startKeep _ p => some (.startKeep p)
  | .startPublish _ p => some (.startPublish p)
  | .startMonitor _ p => some (.startMonitor p)
  | .startWake _ p => some (.startWait p)
  | .startReport _ p => some (.startReport p)
  | .startStarted _ p => some (.startStarted p)
  | .startReturn _ p => some (.startPorts p)
  | .syncExitCode _ p f => some (.sync p f .exitCode)
  | .syncExitStatus _ p f code => some (.sync p f (.exitStatus code))
  | .syncProbe _ p f _ | .syncProbeError _ p f => some (.sync p f .probe)
  | .syncProbeStatus _ p f alive => some (.sync p f (.probeStatus alive))
  | .syncStore _ p f status => some (.sync p f (.store status))
  | .stopLookup _ n project force tolerant => some (.stopLookup n project force tolerant)
  | .stopPublish _ c => some (.stop c .publish)
  | .stopSetStopping _ c => some (.stop c .setStopping)
  | .stopSigterm _ c _ _ => some (.stop c .sigterm)
  | .stopPoll _ c _ | .stopPollElapsed _ c => some (.stop c .poll)
  | .stopPollWake _ c => some (.stop c .pollSleep)
  | .stopSigkill _ c => some (.stop c .sigkill)
  | .stopConfirm _ c _ | .stopConfirmElapsed _ c => some (.stop c .confirm)
  | .stopConfirmPs _ c _ => some (.stop c .confirmPs)
  | .stopConfirmWake _ c => some (.stop c .confirmSleep)
  | .stopTimeout _ c phase => some (.stop c phase)
  | .stopSetStopped _ c => some (.stop c .setStopped)
  | .stopRemove _ c => some (.stop c .remove)
  | .stopRelease _ c k => some (.stop c (.release k))
  | .stopReturn _ c => some (.stop c .linger)
  | .removalSeen _ name project | .removalTimeout _ name project =>
    some (.awaitRemoval name project)
  | .monitorReap _ _ _ | .monitorError _ | .monitorExitCode _ _ | .monitorStatus _ _
  | .monitorFailed _ | .monitorPublish _ _ | .leaderExit _ | .fork _ | .memberExit _
  | .memberReap _ => none

variable (isUuid : String → Bool) (compileRegex : String → Except String Unit)

theorem calls_frame (s : State) (a : Action) {j : Nat} (hj : a.actor ≠ some j) :
    (next isUuid s a).calls j = s.calls j := by
  cases a <;> first
    | rfl
    | exact Function.update_of_ne (fun e => hj (congrArg some e.symm)) _ _

theorem source_eq {s : State} {a : Action} (h : enabled isUuid compileRegex s a) {i : Nat}
    (hi : a.actor = some i) : a.source = some (s.calls i).pc := by
  cases a with
  | task | finish => cases hi; exact congrArg some (congrArg Call.pc h).symm
  | begin | drop | startSpawn | startAdd | stopTimeout | removalSeen =>
    cases hi
    exact congrArg some h.1.symm
  | monitorReap | monitorError | monitorExitCode | monitorStatus | monitorFailed | monitorPublish
  | leaderExit | fork | memberExit | memberReap => cases hi
  | _ => cases hi; exact congrArg some h.symm

theorem exec_calls_frame (s : State) {j : Nat} (as : List Action)
    (h : ∀ a ∈ as, a.actor ≠ some j) :
    ((machine isUuid compileRegex).exec s as).calls j = s.calls j := by
  induction as generalizing s with
  | nil => rfl
  | cons a as ih =>
    have ha := calls_frame isUuid s a (h a List.mem_cons_self)
    exact (ih _ fun b hb => h b (List.mem_cons_of_mem _ hb)).trans ha

theorem exec_calls_ge (s : State) {as : List Action} {n j : Nat}
    (h : ∀ a ∈ as, a.actor.all (· < n) = true) (hj : n ≤ j) :
    ((machine isUuid compileRegex).exec s as).calls j = s.calls j := by
  refine exec_calls_frame isUuid compileRegex s as fun a ha e => ?_
  have hlt := h a ha
  rw [e] at hlt
  exact absurd (of_decide_eq_true hlt) (Nat.not_lt.mpr hj)

def Pc.proxy : Pc → Option ProxyInfo
  | .startStatus _ e | .startRemove _ e => some e
  | .startKeep p | .startPublish p | .startMonitor p | .startWait p | .startReport p
  | .startStarted p | .startPorts p => some p
  | .sync p _ _ => some p
  | .stop c _ => some c.proxy
  | _ => none

def Call.Mentions (c : Call) (p : ProxyInfo) : Prop := c.pc.proxy = some p ∨ .sync p ∈ c.rest

theorem afterLookup_proxy (r : StartRequest) (o : Option ProxyInfo) :
    (afterLookup r o).proxy = o := by
  cases o <;> rfl

theorem afterStatus_proxy {r : StartRequest} {e p : ProxyInfo} {st : ProcessStatus}
    (h : (afterStatus r e st).proxy = some p) : e = p := by
  cases st <;> simp_all [afterStatus, Pc.proxy]

theorem afterRemove_proxy (r : StartRequest) (o : Option ProxyInfo) :
    (afterRemove r o).proxy = none := by
  cases o <;> rfl

theorem afterSync_proxy {p q : ProxyInfo} {f : Bool} (h : (afterSync p f).proxy = some q) :
    p = q := by
  cases f <;> simp_all [afterSync, Pc.proxy]

theorem afterExitCode_proxy (p : ProxyInfo) (f : Bool) (o : Option Int) :
    (afterExitCode p f o).proxy = some p := by
  cases o <;> rfl

theorem afterExitStatus_proxy {p q : ProxyInfo} {f : Bool} {code : Int} {st : ProcessStatus}
    (h : (afterExitStatus p f code st).proxy = some q) : p = q := by
  simp only [afterExitStatus] at h
  split at h
  · exact Option.some.inj h
  · exact afterSync_proxy h

theorem afterProbeStatus_proxy {p q : ProxyInfo} {f alive : Bool} {st : ProcessStatus}
    (h : (afterProbeStatus p f alive st).proxy = some q) : p = q := by
  simp only [afterProbeStatus] at h
  repeat' split at h
  all_goals first
    | exact Option.some.inj h
    | exact afterSync_proxy h

theorem afterReport_proxy (p : ProxyInfo) (st : ProcessStatus) :
    (afterReport p st).proxy = some p := by
  simp only [afterReport]
  split <;> rfl

theorem afterStopError_proxy (tolerant : Bool) : (afterStopError tolerant).proxy = none := by
  cases tolerant <;> rfl

theorem afterStopLookup_proxy (force tolerant : Bool) (o : Option ProxyInfo) :
    (afterStopLookup force tolerant o).proxy = o := by
  cases o
  · exact afterStopError_proxy tolerant
  · rfl

theorem afterStopRemove_proxy (c : StopCall) (o : Option ProxyInfo) :
    (afterStopRemove c o).proxy = some c.proxy := by
  cases o <;> rfl

theorem afterStopTimeout_proxy {c : StopCall} {p : ProxyInfo}
    (h : (afterStopTimeout c).proxy = some p) : c.proxy = p := by
  simp only [afterStopTimeout] at h
  split at h
  · rw [afterStopError_proxy] at h; cases h
  · exact Option.some.inj h

theorem mentions_goto {s : State} {i j : Nat} {pc : Pc} {p : ProxyInfo}
    (h : ((s.goto i pc).calls j).Mentions p) :
    (s.calls j).Mentions p ∨ j = i ∧ pc.proxy = some p :=
  State.goto_or (·.proxy = some p) (fun rest => Task.sync p ∈ rest) h

theorem run_mentions {s : State} {t : Task} {rest : List Task} {p : ProxyInfo}
    (h : (t.run isUuid s rest).Mentions p) :
    .sync p ∈ t :: rest ∨ p ∈ s.registry.processes := by
  cases t with
  | start | stop | awaitRemoval | clean | cleanAll =>
    exact Or.inl (List.mem_cons_of_mem _ (by simpa [Task.run, Call.Mentions, Pc.proxy] using h))
  | forceRestart | restart =>
    left
    simp only [Task.run] at h
    split at h <;> simpa [Call.Mentions, Pc.proxy] using h
  | syncAll =>
    simp only [Task.run, Call.Mentions, Pc.proxy, List.mem_append, List.mem_map] at h
    rcases h with h | ⟨q, hq, e⟩ | h
    · cases h
    · cases e
      exact Or.inr (List.mem_of_mem_filter hq)
    · exact Or.inl (List.mem_cons_of_mem _ h)
  | sync q =>
    rcases h with h | h
    · cases h
      exact Or.inl List.mem_cons_self
    · exact Or.inl (List.mem_cons_of_mem _ h)

theorem mentions_keep {s : State} {i : Nat} {pc pc' : Pc} {p : ProxyInfo}
    (hpc : (s.calls i).pc = pc) (hk : ∀ q, pc'.proxy = some q → pc.proxy = some q)
    (h : ((s.goto i pc').calls i).Mentions p) : (s.calls i).Mentions p := by
  rcases mentions_goto h with h | ⟨-, h⟩
  · exact h
  · exact Or.inl (hpc ▸ hk p h)

theorem mentions_step {s : State} {a : Action} (h : enabled isUuid compileRegex s a) {j : Nat}
    {p : ProxyInfo} (hm : ((next isUuid s a).calls j).Mentions p) :
    (s.calls j).Mentions p ∨ p ∈ s.registry.processes ∨
      p ∈ (next isUuid s a).registry.processes := by
  by_cases hj : a.actor = some j
  swap
  · rw [calls_frame isUuid s a hj] at hm
    exact Or.inl hm
  cases a with
  | begin i t =>
    cases hj
    simp only [next, Function.update_self, Call.Mentions, Pc.proxy, List.mem_singleton] at hm
    rcases hm with hm | hm
    · cases hm
    · exact absurd h.2 (by simp [← hm, Task.admitted])
  | task i t rest =>
    cases hj
    simp only [next, Function.update_self] at hm
    rcases run_mentions isUuid hm with hm | hm
    · exact Or.inl (Or.inr (by rw [show s.calls j = _ from h]; exact hm))
    · exact Or.inr (Or.inl hm)
  | startLookup i r =>
    cases hj
    rcases mentions_goto hm with hm | ⟨-, hm⟩
    · exact Or.inl hm
    · rw [afterLookup_proxy] at hm
      exact Or.inr (Or.inl (Registry.getProcessByNameWithProject_some hm).1)
  | stopLookup i n project force tolerant =>
    cases hj
    rcases mentions_goto hm with hm | ⟨-, hm⟩
    · exact Or.inl hm
    · rw [afterStopLookup_proxy] at hm
      exact Or.inr (Or.inl (Registry.lookup_mem isUuid hm))
  | startAdd i r pid g id =>
    cases hj
    rcases mentions_goto hm with hm | ⟨-, hm⟩
    · exact Or.inl hm
    · cases hm
      exact Or.inr (Or.inr (by simp [next, State.add]))
  | startStatus i r e =>
    cases hj
    exact Or.inl (mentions_keep h (fun _ hq => congrArg some (afterStatus_proxy hq)) hm)
  | startRemove i r e =>
    cases hj
    exact Or.inl (mentions_keep h (fun _ hq => by rw [afterRemove_proxy] at hq; cases hq) hm)
  | startReserve i r =>
    cases hj
    exact Or.inl (mentions_keep h (fun _ hq => by split at hq <;> cases hq) hm)
  | syncExitCode i q f =>
    cases hj
    exact Or.inl (mentions_keep h (fun _ hq => by rwa [afterExitCode_proxy] at hq) hm)
  | syncExitStatus i q f code =>
    cases hj
    exact Or.inl (mentions_keep h (fun _ hq => congrArg some (afterExitStatus_proxy hq)) hm)
  | syncProbeStatus i q f alive =>
    cases hj
    exact Or.inl (mentions_keep h (fun _ hq => congrArg some (afterProbeStatus_proxy hq)) hm)
  | syncProbeError i q f | syncStore i q f status =>
    cases hj
    exact Or.inl (mentions_keep h (fun _ hq => congrArg some (afterSync_proxy hq)) hm)
  | startReport i q =>
    cases hj
    exact Or.inl (mentions_keep h (fun _ hq => by rwa [afterReport_proxy] at hq) hm)
  | stopConfirmElapsed i c =>
    cases hj
    exact Or.inl (mentions_keep h (fun _ hq => by rw [afterStopError_proxy] at hq; cases hq) hm)
  | stopTimeout i c phase =>
    cases hj
    exact Or.inl (mentions_keep h.1 (fun _ hq => congrArg some (afterStopTimeout_proxy hq)) hm)
  | stopRemove i c =>
    cases hj
    exact Or.inl (mentions_keep h (fun _ hq => by rwa [afterStopRemove_proxy] at hq) hm)
  | drop i pc =>
    cases hj
    exact Or.inl (mentions_keep h.1 (fun _ hq => by cases hq) hm)
  | finish i =>
    cases hj
    exact Or.inl (mentions_keep (congrArg Call.pc h) (fun _ hq => by cases hq) hm)
  | startSpawn i r pid =>
    cases hj
    exact Or.inl (mentions_keep h.1 (fun _ hq => by cases hq) hm)
  | removalSeen i name project =>
    cases hj
    exact Or.inl (mentions_keep h.1 (fun _ hq => by cases hq) hm)
  | monitorReap | monitorError | monitorExitCode | monitorStatus | monitorFailed | monitorPublish
  | leaderExit | fork | memberExit | memberReap => cases hj
  | _ =>
    cases hj
    exact Or.inl (mentions_keep h (fun _ hq => by cases hq <;> rfl) hm)

structure State.Extends (s s' : State) : Prop where
  groupOf : ∀ id g, s.groupOf id = some g → s'.groupOf id = some g
  pids : ∀ (g : Nat) G, s.groups[g]? = some G → ∃ G', s'.groups[g]? = some G' ∧ G'.pid = G.pid
  added : ∀ p ∈ s'.registry.processes, p ∈ s.registry.processes ∨ s.groupOf p.id = none

theorem extends_modifyGroup (s : State) (g : Nat) (f : Group → Group)
    (hf : ∀ G, (f G).pid = G.pid) : s.Extends (s.modifyGroup g f) where
  groupOf _ _ h := h
  pids j G hG := by
    by_cases hj : g = j
    · exact ⟨f G, by simp [State.modifyGroup, hj, hG], hf G⟩
    · exact ⟨G, by simp [State.modifyGroup, hj, hG], rfl⟩
  added _ h := Or.inl h

theorem extends_launch (s : State) (pid : Nat) : s.Extends (s.launch pid) := by
  refine ⟨fun _ _ h => h, fun g G hG => ⟨G, ?_, rfl⟩, fun _ h => Or.inl h⟩
  have hlt : g < s.groups.length := (List.getElem?_eq_some_iff.mp hG).1
  exact (List.getElem?_append_left hlt).trans hG

theorem extends_registry {s s' : State} (hg : s'.groups = s.groups) (ho : s'.groupOf = s.groupOf)
    (hr : ∀ p ∈ s'.registry.processes, p ∈ s.registry.processes) : s.Extends s' where
  groupOf _ _ h := by rw [ho]; exact h
  pids _ G hG := ⟨G, by rw [hg]; exact hG, rfl⟩
  added p h := Or.inl (hr p h)

theorem extends_step {s : State} {a : Action} (h : enabled isUuid compileRegex s a) :
    s.Extends (next isUuid s a) := by
  cases a with
  | startSpawn i r pid =>
    obtain ⟨ho, hp, ha⟩ := extends_launch s pid
    exact ⟨ho, hp, ha⟩
  | startAdd i r pid g id =>
    refine ⟨fun j k hk => ?_, fun _ G hG => ⟨G, hG, rfl⟩, fun p hp => ?_⟩
    · have hne : j ≠ id := fun e => by rw [e, h.2] at hk; cases hk
      exact (Function.update_of_ne hne _ _).trans hk
    · rcases Registry.mem_addProcess.mp hp with rfl | hp
      · exact Or.inr h.2
      · exact Or.inl hp.1
  | startRemove i r e =>
    exact extends_registry rfl rfl fun p hp => (Registry.mem_dropProcess.mp hp).1
  | stopRemove i c => exact extends_registry rfl rfl fun p hp => (Registry.mem_dropProcess.mp hp).1
  | startReserve i r =>
    refine extends_registry rfl rfl fun p hp => ?_
    change p ∈ (s.registry.tryReserveName r.key).2.processes at hp
    simp only [Registry.tryReserveName] at hp
    split at hp <;> exact hp
  | monitorReap id g code =>
    obtain ⟨ho, hp, ha⟩ := extends_modifyGroup s g Group.leaderReap fun _ => rfl
    exact ⟨ho, hp, ha⟩
  | leaderExit g => exact extends_modifyGroup s g Group.leaderExit fun _ => rfl
  | fork g => exact extends_modifyGroup s g Group.fork fun _ => rfl
  | memberExit g => exact extends_modifyGroup s g Group.memberExit fun _ => rfl
  | memberReap g => exact extends_modifyGroup s g Group.memberReap fun _ => rfl
  | _ => exact extends_registry rfl rfl fun _ hp => hp

structure State.Knows (s : State) (p : ProxyInfo) : Prop where
  group : ∃ (g : Nat) (G : Group), s.groupOf p.id = some g ∧ s.groups[g]? = some G ∧ G.pid = p.pid
  unique : ∀ q ∈ s.registry.processes, q.id = p.id → q = p

theorem State.Knows.mono {s s' : State} {p : ProxyInfo} (hk : s.Knows p) (he : s.Extends s') :
    s'.Knows p := by
  obtain ⟨g, G, hg, hG, hp⟩ := hk.group
  obtain ⟨G', hG', hp'⟩ := he.pids g G hG
  refine ⟨⟨g, G', he.groupOf _ _ hg, hG', hp'.trans hp⟩, fun q hq hid => ?_⟩
  rcases he.added q hq with hq | hq
  · exact hk.unique q hq hid
  · rw [hid, hg] at hq; cases hq

structure Resolved (s : State) : Prop where
  entries : ∀ p ∈ s.registry.processes, s.Knows p
  calls : ∀ i p, (s.calls i).Mentions p → s.Knows p
  spawned : ∀ i r pid g, (s.calls i).pc = .startAdd r pid g →
    ∃ G, s.groups[g]? = some G ∧ G.pid = pid

-- A plain call is answerable for no name and has spawned nothing; a calm one is, besides, neither
-- about to store a status nor past the point where its stop is confirmed.
def Pc.plain : Pc → Bool
  | .startLaunch _ | .startDrop _ | .startAdd _ _ _ | .startRelease _ _
  | .stop _ (.release _) => false
  | _ => true

def StopPhase.confirmed : StopPhase → Bool
  | .setStopped | .remove | .release _ | .linger => true
  | _ => false

def Pc.calm : Pc → Bool
  | .sync _ _ (.store _) => false
  | .stop _ phase => !phase.confirmed
  | pc => pc.plain

theorem Pc.plain_of_calm {pc : Pc} (h : pc.calm = true) : pc.plain = true := by
  cases pc with
  | stop c phase => cases phase <;> first | rfl | cases h
  | sync p f phase => rfl
  | _ => exact h

theorem afterLookup_calm (r : StartRequest) (o : Option ProxyInfo) :
    (afterLookup r o).calm = true := by
  cases o <;> rfl

theorem afterStatus_calm (r : StartRequest) (e : ProxyInfo) (st : ProcessStatus) :
    (afterStatus r e st).calm = true := by
  cases st <;> rfl

theorem afterSync_calm (p : ProxyInfo) (f : Bool) : (afterSync p f).calm = true := by
  cases f <;> rfl

theorem afterExitCode_calm (p : ProxyInfo) (f : Bool) (o : Option Int) :
    (afterExitCode p f o).calm = true := by
  cases o <;> rfl

theorem afterReport_calm (p : ProxyInfo) (st : ProcessStatus) :
    (afterReport p st).calm = true := by
  simp only [afterReport]
  split <;> rfl

theorem afterStopError_calm (tolerant : Bool) : (afterStopError tolerant).calm = true := by
  cases tolerant <;> rfl

theorem afterStopLookup_calm (force tolerant : Bool) (o : Option ProxyInfo) :
    (afterStopLookup force tolerant o).calm = true := by
  cases o
  · exact afterStopError_calm tolerant
  · rfl

theorem afterStopTimeout_calm (c : StopCall) : (afterStopTimeout c).calm = true := by
  simp only [afterStopTimeout]
  split
  · exact afterStopError_calm _
  · rfl

theorem run_calm (s : State) (rest : List Task) (t : Task) :
    (t.run isUuid s rest).pc.calm = true := by
  cases t <;> simp only [Task.run] <;> (try split) <;> rfl

def Action.uncalm : Action → Bool
  | .startReserve _ _ | .startReject _ _ | .startSpawn _ _ _ | .startRemove _ _ _
  | .syncExitStatus _ _ _ _ | .syncProbeStatus _ _ _ _ | .stopSigterm _ _ _ _ | .stopPoll _ _ _
  | .stopConfirm _ _ _ | .stopConfirmPs _ _ _ | .stopSetStopped _ _ | .stopRemove _ _
  | .stopRelease _ _ _ => true
  | _ => false

theorem calm_step (s : State) {a : Action} {i : Nat} (hi : a.actor = some i)
    (ha : a.uncalm = false) : ((next isUuid s a).calls i).pc.calm = true := by
  cases a with
  | begin j t => cases hi; simp [next, Pc.calm, Pc.plain]
  | task j t rest => cases hi; simpa [next] using run_calm isUuid s rest t
  | startLookup j r => cases hi; simpa [next] using afterLookup_calm r _
  | startStatus j r e => cases hi; simpa [next] using afterStatus_calm r e _
  | syncExitCode j p f => cases hi; simpa [next] using afterExitCode_calm p f _
  | syncProbeError j p f => cases hi; simpa [next] using afterSync_calm p f
  | syncStore j p f st => cases hi; simpa [next] using afterSync_calm p f
  | startReport j p => cases hi; simpa [next] using afterReport_calm p _
  | stopLookup j n project force tolerant =>
    cases hi; simpa [next] using afterStopLookup_calm force tolerant _
  | stopConfirmElapsed j c => cases hi; simpa [next] using afterStopError_calm c.tolerant
  | stopTimeout j c phase => cases hi; simpa [next] using afterStopTimeout_calm c
  | stopSetStopping j c => cases hi; simp only [next, State.goto_pc_self]; split <;> rfl
  | startReserve | startReject | startSpawn | startRemove | syncExitStatus | syncProbeStatus
  | stopSigterm | stopPoll | stopConfirm | stopConfirmPs | stopSetStopped | stopRemove
  | stopRelease => cases ha
  | monitorReap | monitorError | monitorExitCode | monitorStatus | monitorFailed | monitorPublish
  | leaderExit | fork | memberExit | memberReap => cases hi
  | _ => cases hi; simp [next, Pc.calm, Pc.plain, StopPhase.confirmed]

def Action.confirms : Action → Option (Nat × StopCall)
  | .stopSigterm i c sent alive => if sent || alive then none else some (i, c)
  | .stopPoll i c alive | .stopConfirm i c alive => if alive then none else some (i, c)
  | .stopConfirmPs i c survivors => if survivors then none else some (i, c)
  | _ => none

-- Where a step leaves the call that takes it.
inductive Landing (s : State) (a : Action) (i : Nat) : Pc → Prop where
  | calm {pc : Pc} : pc.calm = true → Landing s a i pc
  | launch {r : StartRequest} : a = .startReserve i r → r.key ∉ s.registry.reservedNames →
      Landing s a i (.startLaunch r)
  | reject {r : StartRequest} : a = .startReject i r → Landing s a i (.startDrop r.key)
  | spawn {r : StartRequest} {pid : Nat} : a = .startSpawn i r pid →
      Landing s a i (.startAdd r pid s.groups.length)
  | startRemove {r : StartRequest} {e p : ProxyInfo} : a = .startRemove i r e →
      s.registry.getProcessById e.id = some p → Landing s a i (.startRelease r p.key)
  | store {p : ProxyInfo} {ofStart : Bool} {status : ProcessStatus} : status ≠ .stopping →
      Landing s a i (.sync p ofStart (.store status))
  | confirm {c : StopCall} {phase : StopPhase} : a.confirms = some (i, c) →
      (s.calls i).pc = .stop c phase → Landing s a i (.stop c .setStopped)
  | setStopped {c : StopCall} : a = .stopSetStopped i c → Landing s a i (.stop c .remove)
  | stopRemove {c : StopCall} {p : ProxyInfo} : a = .stopRemove i c →
      s.registry.getProcessById c.proxy.id = some p → Landing s a i (.stop c (.release p.key))
  | stopMissing {c : StopCall} : a = .stopRemove i c → Landing s a i (.stop c .linger)
  | stopRelease {c : StopCall} {k : ProcessKey} : a = .stopRelease i c k →
      Landing s a i (.stop c .linger)

section

variable {s : State} {a : Action} {i : Nat}

theorem landing_exitStatus (p : ProxyInfo) (f : Bool) (code : Int) (st : ProcessStatus) :
    Landing s a i (afterExitStatus p f code st) := by
  simp only [afterExitStatus]
  split
  · exact .store (by split <;> decide)
  · exact .calm (afterSync_calm p f)

theorem landing_probeStatus (p : ProxyInfo) (f alive : Bool) (st : ProcessStatus) :
    Landing s a i (afterProbeStatus p f alive st) := by
  simp only [afterProbeStatus]
  repeat' split
  all_goals first
    | exact .store (by decide)
    | exact .calm (afterSync_calm p f)

theorem landing (h : enabled isUuid compileRegex s a) (hi : a.actor = some i) :
    Landing s a i ((next isUuid s a).calls i).pc := by
  cases hu : a.uncalm with
  | false => exact .calm (calm_step isUuid s hi hu)
  | true =>
    cases a with
    | startReserve j r =>
      cases hi
      rw [next, State.goto_pc_self, Registry.tryReserveName]
      by_cases hr : r.key ∈ s.registry.reservedNames
      · rw [if_pos hr]
        exact .calm rfl
      · rw [if_neg hr]
        exact .launch rfl hr
    | startReject j r => cases hi; rw [next, State.goto_pc_self]; exact .reject rfl
    | startSpawn j r pid => cases hi; rw [next, State.goto_pc_self]; exact .spawn rfl
    | startRemove j r e =>
      cases hi
      rw [next, State.goto_pc_self]
      cases hp : s.registry.getProcessById e.id with
      | none => exact .calm rfl
      | some p => exact .startRemove rfl hp
    | syncExitStatus j p f code =>
      cases hi; rw [next, State.goto_pc_self]; exact landing_exitStatus p f code _
    | syncProbeStatus j p f alive =>
      cases hi; rw [next, State.goto_pc_self]; exact landing_probeStatus p f alive _
    | stopSigterm j c sent alive =>
      cases hi
      rw [next, State.goto_pc_self]
      split
      · exact .calm rfl
      · next hdead => exact .confirm (by simp [Action.confirms, hdead]) h
    | stopPoll j c alive | stopConfirm j c alive =>
      cases hi
      rw [next, State.goto_pc_self]
      cases alive
      · exact .confirm rfl h
      · exact .calm rfl
    | stopConfirmPs j c survivors =>
      cases hi
      rw [next, State.goto_pc_self]
      cases survivors
      · exact .confirm rfl h
      · exact .calm rfl
    | stopSetStopped j c => cases hi; rw [next, State.goto_pc_self]; exact .setStopped rfl
    | stopRemove j c =>
      cases hi
      rw [next, State.goto_pc_self]
      cases hp : s.registry.getProcessById c.proxy.id with
      | none => exact .stopMissing rfl
      | some p => exact .stopRemove rfl hp
    | stopRelease j c k => cases hi; rw [next, State.goto_pc_self]; exact .stopRelease rfl
    | _ => cases hu

end

theorem startAdd_step {s : State} {a : Action} (h : enabled isUuid compileRegex s a) {i : Nat}
    {r : StartRequest} {pid g : Nat} (hpc : ((next isUuid s a).calls i).pc = .startAdd r pid g) :
    (s.calls i).pc = .startAdd r pid g ∨
      a = .startSpawn i r pid ∧ g = s.groups.length := by
  by_cases hi : a.actor = some i
  swap
  · rw [calls_frame isUuid s a hi] at hpc
    exact Or.inl hpc
  have hl := landing isUuid compileRegex h hi
  rw [hpc] at hl
  cases hl with
  | calm hc => cases hc
  | spawn ha => exact Or.inr ⟨ha, rfl⟩

theorem entry_step {s : State} {a : Action} {p : ProxyInfo}
    (hp : p ∈ (next isUuid s a).registry.processes) :
    p ∈ s.registry.processes ∨
      ∃ i r pid g id, a = .startAdd i r pid g id ∧ p = ProxyInfo.new r id pid := by
  cases a with
  | startAdd i r pid g id =>
    rcases Registry.mem_addProcess.mp hp with rfl | hp
    · exact Or.inr ⟨i, r, pid, g, id, rfl, rfl⟩
    · exact Or.inl hp.1
  | startRemove i r e => exact Or.inl (Registry.mem_dropProcess.mp hp).1
  | stopRemove i c => exact Or.inl (Registry.mem_dropProcess.mp hp).1
  | startReserve i r =>
    change p ∈ (s.registry.tryReserveName r.key).2.processes at hp
    simp only [Registry.tryReserveName] at hp
    split at hp <;> exact Or.inl hp
  | _ => exact Or.inl hp

theorem resolved_initial : Resolved State.initial where
  entries _ hp := by cases hp
  calls i p h := by rcases h with h | h <;> cases h
  spawned i r pid g h := by cases h

theorem resolved_step {s : State} {a : Action} (hs : Resolved s)
    (h : enabled isUuid compileRegex s a) : Resolved (next isUuid s a) := by
  have he := extends_step isUuid compileRegex h
  have entries : ∀ p ∈ (next isUuid s a).registry.processes, (next isUuid s a).Knows p := by
    intro p hp
    rcases entry_step isUuid hp with hold | ⟨i, r, pid, g, id, rfl, rfl⟩
    · exact (hs.entries p hold).mono he
    · obtain ⟨G, hG, hpid⟩ := hs.spawned i r pid g h.1
      refine ⟨⟨g, G, Function.update_self .., hG, hpid⟩, fun q hq hid => ?_⟩
      rcases Registry.mem_addProcess.mp hq with rfl | hq
      · rfl
      · exact absurd hid hq.2
  refine ⟨entries, fun i p hm => ?_, fun i r pid g hpc => ?_⟩
  · rcases mentions_step isUuid compileRegex h hm with hm | hm | hm
    · exact (hs.calls i p hm).mono he
    · exact (hs.entries p hm).mono he
    · exact entries p hm
  · rcases startAdd_step isUuid compileRegex h hpc with hpc | ⟨rfl, rfl⟩
    · obtain ⟨G, hG, hp⟩ := hs.spawned i r pid g hpc
      obtain ⟨G', hG', hp'⟩ := he.pids g G hG
      exact ⟨G', hG', hp'.trans hp⟩
    · exact ⟨Group.spawn pid, by simp [next, State.launch], rfl⟩

end Manager
