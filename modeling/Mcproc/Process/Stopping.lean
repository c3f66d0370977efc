import Mcproc.Process.NameTokens

namespace Manager

def Pc.storing : Pc → Option ProcessStatus
  | .sync _ _ (.store status) => some status
  | _ => none

def StopPhase.removed : StopPhase → Bool
  | .release _ | .linger => true
  | _ => false

variable (isUuid : String → Bool) (compileRegex : String → Except String Unit)

theorem storing_of_calm {pc : Pc} (h : pc.calm = true) : pc.storing = none := by
  cases pc with
  | sync p f phase => cases phase <;> first | rfl | cases h
  | _ => rfl

theorem storing_step {s : State} {a : Action} (h : enabled isUuid compileRegex s a) {i : Nat}
    (hst : ((next isUuid s a).calls i).pc.storing = some .stopping) :
    (s.calls i).pc.storing = some .stopping := by
  by_cases hi : a.actor = some i
  swap
  · rwa [calls_frame isUuid s a hi] at hst
  have hl := landing isUuid compileRegex h hi
  generalize ((next isUuid s a).calls i).pc = pc at hst hl
  cases hl with
  | calm hc =>
    rw [storing_of_calm hc] at hst
    cases hst
  | store hne => exact absurd (Option.some.inj hst) hne
  | _ => cases hst

theorem removed_phase_step {s : State} {a : Action} (h : enabled isUuid compileRegex s a) {i : Nat}
    {c : StopCall} {phase : StopPhase} (hpc : ((next isUuid s a).calls i).pc = .stop c phase)
    (hr : phase.removed = true) :
    (∃ phase', (s.calls i).pc = .stop c phase' ∧ phase'.removed = true) ∨ a = .stopRemove i c := by
  by_cases hi : a.actor = some i
  swap
  · rw [calls_frame isUuid s a hi] at hpc
    exact Or.inl ⟨phase, hpc, hr⟩
  have hl := landing isUuid compileRegex h hi
  rw [hpc] at hl
  cases hl with
  | calm hc => cases phase <;> first | (cases hr; done) | cases hc
  | confirm | setStopped => cases hr
  | stopRemove ha | stopMissing ha => exact Or.inr ha
  | stopRelease ha =>
    subst ha
    exact Or.inl ⟨_, h, rfl⟩

def Pc.stopsOn : Pc → Option String
  | .stop c _ => some c.proxy.id
  | _ => none

def StoppingHeld (s : State) : Prop :=
  ∀ p ∈ s.registry.processes, s.status p.id = .stopping →
    ∃ i, (s.calls i).pc.stopsOn = some p.id

-- The exits of a stop that has not seen its group gone: the confirmation window or the second
-- outer timeout runs out, or the request is dropped.
def Action.abandons : Action → Option (Nat × StopCall)
  | .stopConfirmElapsed i c => some (i, c)
  | .stopTimeout i c _ => if c.forced then some (i, c) else none
  | .drop i (.stop c phase) => if phase.suspended then some (i, c) else none
  | _ => none

-- A stop that gives up on a registered entry leaves it to another one.
def Attended (s : State) (a : Action) : Prop :=
  ∀ i c, a.abandons = some (i, c) → c.proxy ∈ s.registry.processes →
    ∃ j ≠ i, (s.calls j).pc.stopsOn = some c.proxy.id

structure StopFrame (s : State) : Prop where
  owned : Owned s
  stores : ∀ i, (s.calls i).pc.storing ≠ some .stopping
  removed : ∀ i c phase, (s.calls i).pc = .stop c phase → phase.removed = true →
    ∀ p ∈ s.registry.processes, p.id ≠ c.proxy.id

theorem stopFrame_initial : StopFrame State.initial where
  owned := owned_initial
  stores i h := by cases h
  removed i c phase h := by cases h

theorem stopFrame_step {s : State} {a : Action} (hs : StopFrame s)
    (h : enabled isUuid compileRegex s a) : StopFrame (next isUuid s a) where
  owned := owned_next isUuid compileRegex hs.owned h
  stores i hi := hs.stores i (storing_step isUuid compileRegex h hi)
  removed i c phase hpc hr p hp := by
    rcases removed_phase_step isUuid compileRegex h hpc hr with ⟨phase', hpc', hr'⟩ | rfl
    · rcases entry_step isUuid hp with hp | ⟨j, r, pid, g, id, rfl, rfl⟩
      · exact hs.removed i c phase' hpc' hr' p hp
      · intro hid
        have hknows := hs.owned.resolved.calls i c.proxy (Or.inl (by rw [hpc']; rfl))
        obtain ⟨g', G, hg, -⟩ := hknows.group
        rw [← hid, ProxyInfo.new_id, h.2] at hg
        cases hg
    · exact (Registry.mem_dropProcess.mp hp).2

theorem update_stopping {f : String → ProcessStatus} {id : String} {st : ProcessStatus}
    {id' : String} (h : Function.update f id st id' = .stopping) :
    f id' = .stopping ∨ id' = id ∧ st = .stopping := by
  rw [Function.update_apply] at h
  split at h
  · next e => exact Or.inr ⟨e, h⟩
  · exact Or.inl h

theorem stopping_step {s : State} {a : Action} (hs : StopFrame s)
    (h : enabled isUuid compileRegex s a) {id : String}
    (hst : (next isUuid s a).status id = .stopping) :
    s.status id = .stopping ∨ ∃ i c, a = .stopSetStopping i c ∧ c.proxy.id = id := by
  have kept : ∀ id' st, st ≠ .stopping → Function.update s.status id' st id = .stopping →
      s.status id = .stopping :=
    fun id' st hne hu => (update_stopping hu).resolve_right fun e => hne e.2
  cases a with
  | stopSetStopping i c =>
    rcases update_stopping (f := s.status) hst with hst | ⟨rfl, -⟩
    · exact Or.inl hst
    · exact Or.inr ⟨i, c, rfl, rfl⟩
  | startAdd i r pid g id' => exact Or.inl (kept id' .starting (by decide) hst)
  | syncStore i p f st =>
    refine Or.inl (kept p.id st (fun e => hs.stores i ?_) hst)
    rw [show (s.calls i).pc = _ from h, e]
    rfl
  | stopSetStopped i c => exact Or.inl (kept c.proxy.id .stopped (by decide) hst)
  | monitorStatus id' code => exact Or.inl (kept id' _ (by split <;> decide) hst)
  | monitorFailed id' => exact Or.inl (kept id' .failed (by decide) hst)
  | _ => exact Or.inl hst

theorem stop_exit_step {s : State} {a : Action} (h : enabled isUuid compileRegex s a) {i : Nat}
    (hi : a.actor = some i) {c : StopCall} {phase : StopPhase}
    (hpc : (s.calls i).pc = .stop c phase) :
    ((next isUuid s a).calls i).pc.stopsOn = some c.proxy.id ∨ a.abandons = some (i, c) ∨
      phase.removed = true := by
  have hsource := source_eq isUuid compileRegex h hi
  rw [hpc] at hsource
  cases a with
  | stopPublish j c' | stopSetStopping j c' | stopSigterm j c' sent alive | stopPoll j c' alive
  | stopPollElapsed j c' | stopPollWake j c' | stopSigkill j c' | stopConfirm j c' alive
  | stopConfirmPs j c' survivors | stopConfirmWake j c' | stopSetStopped j c'
  | stopRelease j c' k =>
    cases hi
    cases hsource
    exact Or.inl (by rw [next, State.goto_pc_self]; rfl)
  | stopRemove j c' =>
    cases hi
    cases hsource
    left
    rw [next, State.goto_pc_self]
    simp only [afterStopRemove]
    split <;> rfl
  | stopConfirmElapsed j c' =>
    cases hi
    cases hsource
    exact Or.inr (Or.inl rfl)
  | stopTimeout j c' phase' =>
    cases hi
    cases hsource
    cases hf : c.forced with
    | true => exact Or.inr (Or.inl (by simp [Action.abandons, hf]))
    | false => exact Or.inl (by rw [next, State.goto_pc_self, afterStopTimeout, hf]; rfl)
  | stopReturn j c' =>
    cases hi
    cases hsource
    exact Or.inr (Or.inr rfl)
  | drop j pc =>
    cases hi
    cases hsource
    cases hs : phase.suspended with
    | true => exact Or.inr (Or.inl (by simp [Action.abandons, hs]))
    | false =>
      cases phase with
      | linger => exact Or.inr (Or.inr rfl)
      | _ => cases h.2.symm.trans hs
  | _ => cases hsource

theorem stoppingHeld_step {s : State} {a : Action} (hs : StopFrame s) (hp : StoppingHeld s)
    (h : enabled isUuid compileRegex s a) (ha : Attended s a) :
    StoppingHeld (next isUuid s a) := by
  intro p hmem hst
  rcases stopping_step isUuid compileRegex hs h hst with hst' | ⟨i, c, rfl, hid⟩
  swap
  · refine ⟨i, ?_⟩
    rw [next, State.goto_pc_self]
    exact congrArg some hid
  rcases entry_step isUuid hmem with hmem' | ⟨i, r, pid, g, id, rfl, rfl⟩
  swap
  · have hnew : (next isUuid s (.startAdd i r pid g id)).status id = .starting := by
      simp [next, State.add]
    cases hnew.symm.trans hst
  obtain ⟨i, hi⟩ := hp p hmem' hst'
  by_cases hact : a.actor = some i
  swap
  · exact ⟨i, by rw [calls_frame isUuid s a hact]; exact hi⟩
  cases hpc : (s.calls i).pc with
  | stop c phase =>
    rw [hpc] at hi
    have hid : c.proxy.id = p.id := Option.some.inj hi
    have hpc' : p = c.proxy :=
      (hs.owned.resolved.calls i c.proxy (Or.inl (by rw [hpc]; rfl))).unique p hmem' hid.symm
    rcases stop_exit_step isUuid compileRegex h hact hpc with hstill | hab | hrem
    · exact ⟨i, hstill.trans (congrArg some hid)⟩
    · obtain ⟨j, hj, hstop⟩ := ha i c hab (hpc' ▸ hmem')
      refine ⟨j, ?_⟩
      have hother : a.actor ≠ some j := by
        rw [hact]
        exact fun e => hj (Option.some.inj e).symm
      rw [calls_frame isUuid s a hother, hstop, hid]
    · exact absurd hid.symm (hs.removed i c phase hpc hrem p hmem')
  | _ =>
    rw [hpc] at hi
    cases hi

theorem stopping_held {as : List Action} (h : (machine isUuid compileRegex).Legal .initial as)
    (hc : (machine isUuid compileRegex).Throughout Attended .initial as) :
    (machine isUuid compileRegex).Always StoppingHeld .initial as := by
  have hboth := (machine isUuid compileRegex).always_of_step
    (J := fun s => StopFrame s ∧ StoppingHeld s)
    (fun s a hs he ha => ⟨stopFrame_step isUuid compileRegex hs.1 he,
      stoppingHeld_step isUuid compileRegex hs.1 hs.2 he ha⟩)
    ⟨stopFrame_initial, fun p hp _ => by cases hp⟩ h hc
  exact (machine isUuid compileRegex).always_mono (fun _ hs => hs.2) hboth

theorem attended_of_none {s : State} {a : Action} (h : a.abandons = none) : Attended s a := by
  intro i c hab
  rw [h] at hab
  cases hab

def webStop : StopCall := ⟨ProxyInfo.new webRequest "a" 7, false, false, false⟩

def webKill : StopCall := ⟨ProxyInfo.new webRequest "a" 7, true, false, false⟩

def pollingRun : List Action :=
  startRun 0 webRequest 7 "a" ++
    [.begin 1 (.stop "web" "app" false false), .task 1 (.stop "web" "app" false false) [],
     .stopLookup 1 "web" "app" false false, .stopPublish 1 webStop, .stopSetStopping 1 webStop,
     .stopSigterm 1 webStop true true, .stopPoll 1 webStop true]

def joinedRun : List Action :=
  pollingRun ++
    [.begin 2 (.stop "web" "app" true false), .task 2 (.stop "web" "app" true false) [],
     .stopLookup 2 "web" "app" true false, .stopPublish 2 webKill, .stopSetStopping 2 webKill]

def killedRun : List Action :=
  [.stopSigkill 2 webKill, .leaderExit 0, .monitorReap "a" 0 none, .stopConfirm 2 webKill false,
   .stopSetStopped 2 webKill, .stopRemove 2 webKill, .stopRelease 2 webKill webRequest.key,
   .stopReturn 2 webKill]

theorem stopping_held_web :
    let m := machine (fun _ => false) (fun _ => .ok ())
    let dropped := m.exec .initial (joinedRun ++ [.drop 1 (.stop webStop .pollSleep)])
    m.Always StoppingHeld .initial
        (joinedRun ++ .drop 1 (.stop webStop .pollSleep) :: killedRun) ∧
      webStop.proxy ∈ dropped.registry.processes ∧ dropped.status "a" = .stopping ∧
      (dropped.calls 1).pc = .idle ∧ (dropped.calls 2).pc = .stop webKill .sigkill ∧
      (m.exec dropped killedRun).registry.processes = [] := by
  refine ⟨stopping_held _ _ (by decide) ?_, by decide⟩
  have hbefore : ∀ a ∈ joinedRun, a.abandons = none := by decide
  have hafter : ∀ a ∈ killedRun, a.abandons = none := by decide
  refine (Machine.throughout_append _).mpr ⟨?_, ?_, ?_⟩
  · exact Machine.throughout_of_forall _ fun a ha s => attended_of_none (hbefore a ha)
  · intro i c hab _
    cases hab
    exact ⟨2, by decide, by decide⟩
  · exact Machine.throughout_of_forall _ fun a ha s => attended_of_none (hafter a ha)

def droppedStop : List Action := pollingRun ++ [.drop 1 (.stop webStop .pollSleep)]

theorem stopping_outlives_dropped_stop :
    ¬ ∀ s, (machine (fun _ => false) (fun _ => .ok ())).Reachable s → StoppingHeld s := by
  intro hall
  set m := machine (fun _ => false) (fun _ => .ok ())
  have hp := hall (m.exec .initial droppedStop) ⟨droppedStop, by decide, rfl⟩
  obtain ⟨i, hi⟩ := hp (ProxyInfo.new webRequest "a" 7) (by decide) (by decide)
  match i with
  | 0 => revert hi; decide
  | 1 => revert hi; decide
  | i + 2 =>
    rw [exec_calls_ge _ _ _ (n := 2) (by decide) (Nat.le_add_left 2 i)] at hi
    cases hi

end Manager
