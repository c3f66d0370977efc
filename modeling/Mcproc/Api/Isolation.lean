import Mcproc.Api.ProcessHandlers
import Mcproc.Process.ManagerFrame

namespace Isolation

open Manager (Action Call Pc StopCall StopPhase Task)
open ProcessHandlers (Status)

def scopeOf : Task → Option String
  | .start r | .forceRestart r => some r.project
  | .stop _ project _ _ | .restart _ project _ _ | .awaitRemoval _ project | .clean project _ =>
    some project
  | .cleanAll _ _ | .syncAll | .sync _ => none

-- `scope` is the project that the request a call serves was scoped to.
structure State where
  manager : Manager.State
  scope : Nat → Option String

def State.initial : State := ⟨.initial, fun _ => none⟩

def afterBegin (scope : Nat → Option String) : Action → Nat → Option String
  | .begin i t => Function.update scope i (scopeOf t)
  | _ => scope

section
variable (isUuid : String → Bool) (compileRegex : String → Except String Unit)

def machine : Machine State Action where
  init := .initial
  enabled s a := (Manager.machine isUuid compileRegex).enabled s.manager a
  next s a := ⟨Manager.next isUuid s.manager a, afterBegin s.scope a⟩

instance (s : State) (a : Action) : Decidable ((machine isUuid compileRegex).enabled s a) :=
  inferInstanceAs (Decidable ((Manager.machine isUuid compileRegex).enabled s.manager a))

def getProcessImpl (r : Registry) (name project : String) : Except Status ProxyInfo :=
  match r.getProcessByNameOrIdWithProject isUuid name (some project) with
  | some p => .ok p
  | none => .error ⟨.notFound, "Process not found"⟩

end

def Within (P : String) : Pc → Prop
  | .idle | .ready => True
  | .startLookup r | .startReserve r | .startLaunch r | .startAdd r _ _ => r.project = P
  | .startStatus r e | .startRemove r e => r.project = P ∧ e.project = P
  | .startRelease r k => r.project = P ∧ k.project = P
  | .startDrop k => k.project = P
  | .startKeep p | .startPublish p | .startMonitor p | .startWait p | .startReport p
  | .startStarted p | .startPorts p | .sync p _ _ => p.project = P
  | .stopLookup _ project _ _ | .awaitRemoval _ project => project = P
  | .stop c phase => c.proxy.project = P ∧ ∀ k, phase = .release k → k.project = P

structure CallWithin (P : String) (c : Call) : Prop where
  pc : Within P c.pc
  rest : ∀ t ∈ c.rest, scopeOf t = some P

structure Untouched (P : String) (s s' : Manager.State) : Prop where
  entries : ∀ q, q.project ≠ P → (q ∈ s'.registry.processes ↔ q ∈ s.registry.processes)
  status : ∀ q ∈ s.registry.processes, q.project ≠ P → s'.status q.id = s.status q.id
  reserved : ∀ k : ProcessKey, k.project ≠ P →
    (k ∈ s'.registry.reservedNames ↔ k ∈ s.registry.reservedNames)
  signals : ∀ q ∈ s.registry.processes, q.project ≠ P →
    s'.signals.filter (·.1 = q.id) = s.signals.filter (·.1 = q.id)

-- The steps of the requests scoped to the project, and those of processes and their monitors that
-- report no exit of another project's process.
def reports : Action → Option String
  | .monitorStatus id _ | .monitorFailed id => some id
  | _ => none

structure Serves (P : String) (s : State) (a : Action) : Prop where
  scope : ∀ i, a.actor = some i → afterBegin s.scope a i = some P
  reports : ∀ q ∈ s.manager.registry.processes, q.project ≠ P → reports a ≠ some q.id

theorem serves_iff {P : String} {s : State} {a : Action} :
    Serves P s a ↔ (∀ i ∈ a.actor, afterBegin s.scope a i = some P) ∧
      ∀ q ∈ s.manager.registry.processes, q.project ≠ P → reports a ≠ some q.id :=
  ⟨fun h => ⟨h.scope, h.reports⟩, fun h => ⟨h.1, h.2⟩⟩

instance (P : String) (s : State) (a : Action) : Decidable (Serves P s a) :=
  decidable_of_iff _ serves_iff.symm

def StopsWithin (P : String) (s : State) : Prop :=
  ∀ i c phase, s.scope i = some P → (s.manager.calls i).pc = .stop c phase → c.proxy.project = P

def AnswersWithin (r : Registry) (name P : String) : Except Status ProxyInfo → Prop
  | .ok p => p ∈ r.processes ∧ p.project = P ∧ (p.name = name ∨ p.id = name)
  | .error e => e = ⟨.notFound, "Process not found"⟩ ∧
    ∀ p ∈ r.processes, p.project = P → p.name ≠ name ∧ p.id ≠ name

variable {P : String}

theorem within_afterLookup {r : StartRequest} (hr : r.project = P) {o : Option ProxyInfo}
    (ho : ∀ e, o = some e → e.project = P) : Within P (Manager.afterLookup r o) := by
  cases o with
  | none => exact hr
  | some e => exact ⟨hr, ho e rfl⟩

theorem within_afterStatus {r : StartRequest} {e : ProxyInfo}
    (h : Within P (.startStatus r e)) (st : ProcessStatus) :
    Within P (Manager.afterStatus r e st) := by
  cases st with
  | failed | stopped => exact h
  | _ => trivial

theorem within_afterRemove {r : StartRequest} (hr : r.project = P) {o : Option ProxyInfo}
    (ho : ∀ e, o = some e → e.project = P) : Within P (Manager.afterRemove r o) := by
  cases o with
  | none => exact hr
  | some e => exact ⟨hr, ho e rfl⟩

theorem within_afterSync {p : ProxyInfo} (hp : p.project = P) (ofStart : Bool) :
    Within P (Manager.afterSync p ofStart) := by
  cases ofStart with
  | false => trivial
  | true => exact hp

theorem within_afterExitCode {p : ProxyInfo} (hp : p.project = P) (ofStart : Bool)
    (o : Option Int) : Within P (Manager.afterExitCode p ofStart o) := by
  cases o <;> exact hp

theorem within_afterExitStatus {p : ProxyInfo} (hp : p.project = P) (ofStart : Bool) (code : Int)
    (st : ProcessStatus) : Within P (Manager.afterExitStatus p ofStart code st) := by
  simp only [Manager.afterExitStatus]
  split
  · exact hp
  · exact within_afterSync hp ofStart

theorem within_afterProbeStatus {p : ProxyInfo} (hp : p.project = P) (ofStart alive : Bool)
    (st : ProcessStatus) : Within P (Manager.afterProbeStatus p ofStart alive st) := by
  simp only [Manager.afterProbeStatus]
  repeat' split
  all_goals first
    | exact hp
    | exact within_afterSync hp ofStart

theorem within_afterReport {p : ProxyInfo} (hp : p.project = P) (st : ProcessStatus) :
    Within P (Manager.afterReport p st) := by
  simp only [Manager.afterReport]
  split <;> exact hp

theorem within_afterStopError (tolerant : Bool) : Within P (Manager.afterStopError tolerant) := by
  cases tolerant <;> trivial

theorem within_stop {c : StopCall} (hc : c.proxy.project = P) {phase : StopPhase}
    (hp : ∀ k, phase ≠ .release k) : Within P (.stop c phase) :=
  ⟨hc, fun k e => absurd e (hp k)⟩

theorem within_afterStopLookup {o : Option ProxyInfo} (ho : ∀ e, o = some e → e.project = P)
    (force tolerant : Bool) : Within P (Manager.afterStopLookup force tolerant o) := by
  cases o with
  | none => exact within_afterStopError tolerant
  | some e => exact within_stop (ho e rfl) fun k h => by cases h

theorem within_afterStopRemove {c : StopCall} (hc : c.proxy.project = P) {o : Option ProxyInfo}
    (ho : ∀ e, o = some e → e.project = P) : Within P (Manager.afterStopRemove c o) := by
  cases o with
  | none => exact within_stop hc fun k h => by cases h
  | some e =>
    refine ⟨hc, fun k hk => ?_⟩
    cases hk
    exact ho e rfl

theorem within_afterStopTimeout {c : StopCall} (hc : c.proxy.project = P) :
    Within P (Manager.afterStopTimeout c) := by
  simp only [Manager.afterStopTimeout]
  split
  · exact within_afterStopError _
  · exact within_stop (c := { c with retry := true }) hc fun k h => by cases h

theorem run_within {isUuid : String → Bool} {s : Manager.State} {t : Task} {rest : List Task}
    (ht : scopeOf t = some P) (hrest : ∀ u ∈ rest, scopeOf u = some P) :
    CallWithin P (t.run isUuid s rest) := by
  cases t with
  | start r => exact ⟨Option.some.inj ht, hrest⟩
  | stop n project force tolerant => exact ⟨Option.some.inj ht, hrest⟩
  | awaitRemoval name project => exact ⟨Option.some.inj ht, hrest⟩
  | forceRestart r =>
    simp only [Task.run]
    split
    · exact ⟨trivial, by simpa [scopeOf] using ⟨Option.some.inj ht, hrest⟩⟩
    · exact ⟨trivial, List.forall_mem_cons.mpr ⟨ht, hrest⟩⟩
  | restart n project w t =>
    simp only [Task.run]
    split
    · next p hp =>
      have hproject : p.project = P := (Registry.lookup_project isUuid hp).1.trans (Option.some.inj ht)
      exact ⟨trivial, by simpa [scopeOf, Manager.restartRequest, hproject] using hrest⟩
    · exact ⟨trivial, hrest⟩
  | clean project force =>
    refine ⟨trivial, fun u hu => ?_⟩
    rcases List.mem_append.mp hu with hu | hu
    · obtain ⟨p, -, rfl⟩ := List.mem_map.mp hu
      exact ht
    · exact hrest u hu
  | cleanAll | syncAll | sync => cases ht

theorem untouched_refl (s : Manager.State) : Untouched P s s :=
  ⟨fun _ _ => Iff.rfl, fun _ _ _ => rfl, fun _ _ => Iff.rfl, fun _ _ _ => rfl⟩

theorem untouched_trans {s t u : Manager.State} (hst : Untouched P s t) (htu : Untouched P t u) :
    Untouched P s u where
  entries q hq := (htu.entries q hq).trans (hst.entries q hq)
  status q hm hq := (htu.status q ((hst.entries q hq).mpr hm) hq).trans (hst.status q hm hq)
  reserved k hk := (htu.reserved k hk).trans (hst.reserved k hk)
  signals q hm hq := (htu.signals q ((hst.entries q hq).mpr hm) hq).trans (hst.signals q hm hq)

theorem untouched_of_eq {s s' : Manager.State} (hr : s'.registry = s.registry)
    (hst : s'.status = s.status) (hsig : s'.signals = s.signals) : Untouched P s s' where
  entries q _ := by rw [hr]
  status q _ _ := by rw [hst]
  reserved k _ := by rw [hr]
  signals q _ _ := by rw [hsig]

theorem untouched_goto {s s' : Manager.State} (h : Untouched P s s') (i : Nat) (pc : Pc) :
    Untouched P s (s'.goto i pc) :=
  ⟨h.entries, h.status, h.reserved, h.signals⟩

theorem foreign_id {s : Manager.State} {p : ProxyInfo} (hk : s.Knows p) (hp : p.project = P)
    {q : ProxyInfo} (hq : q ∈ s.registry.processes) (hproject : q.project ≠ P) : q.id ≠ p.id := by
  intro hid
  rw [hk.unique q hq hid] at hproject
  exact hproject hp

theorem untouched_drop {s : Manager.State} {p : ProxyInfo} (hk : s.Knows p) (hp : p.project = P) :
    Untouched P s (s.setRegistry (s.registry.dropProcess p.id)) where
  entries q hq := by
    refine Registry.mem_dropProcess.trans ⟨fun h => h.1, fun h => ⟨h, foreign_id hk hp h hq⟩⟩
  status _ _ _ := rfl
  reserved _ _ := Iff.rfl
  signals _ _ _ := rfl

theorem untouched_release (s : Manager.State) {k : ProcessKey} (hk : k.project = P) :
    Untouched P s (s.setRegistry (s.registry.releaseName k)) where
  entries _ _ := Iff.rfl
  status _ _ _ := rfl
  reserved k' hk' := by
    refine Registry.mem_releaseName.trans ⟨fun h => h.2, fun h => ⟨fun e => hk' ?_, h⟩⟩
    rw [e, hk]
  signals _ _ _ := rfl

theorem untouched_reserve (s : Manager.State) {k : ProcessKey} (hk : k.project = P) :
    Untouched P s (s.setRegistry (s.registry.tryReserveName k).2) := by
  simp only [Registry.tryReserveName]
  split
  · exact untouched_of_eq rfl rfl rfl
  · refine ⟨fun _ _ => Iff.rfl, fun _ _ _ => rfl, fun k' hk' => ?_, fun _ _ _ => rfl⟩
    refine Registry.mem_reserveName.trans ⟨fun h => h.resolve_left fun e => hk' ?_, Or.inr⟩
    rw [e, hk]

theorem untouched_setStatus {s : Manager.State} {id : String}
    (h : ∀ q ∈ s.registry.processes, q.project ≠ P → q.id ≠ id) (st : ProcessStatus) :
    Untouched P s (s.setStatus id st) where
  entries _ _ := Iff.rfl
  status q hm hq := Function.update_of_ne (h q hm hq) _ _
  reserved _ _ := Iff.rfl
  signals _ _ _ := rfl

theorem untouched_signal {s : Manager.State} {p : ProxyInfo} (hk : s.Knows p)
    (hp : p.project = P) (sig : Manager.Signal) : Untouched P s (s.signal p sig) where
  entries _ _ := Iff.rfl
  status _ _ _ := rfl
  reserved _ _ := Iff.rfl
  signals q hm hq := by
    have hne : ¬ p.id = q.id := fun e => foreign_id hk hp hm hq e.symm
    simp [Manager.State.signal, List.filter_append, hne]

theorem untouched_add {s : Manager.State} (hs : Manager.Resolved s) {p : ProxyInfo}
    (hp : p.project = P) (hid : s.groupOf p.id = none) (group : Nat) :
    Untouched P s (s.add p group) := by
  have hfresh : ∀ q ∈ s.registry.processes, q.id ≠ p.id := by
    intro q hq e
    obtain ⟨g, -, hg, -⟩ := (hs.entries q hq).group
    rw [e, hid] at hg
    cases hg
  refine ⟨fun q hq => ?_, fun q hm _ => Function.update_of_ne (hfresh q hm) _ _,
    fun _ _ => Iff.rfl, fun _ _ _ => rfl⟩
  refine Registry.mem_addProcess.trans ⟨fun h => ?_, fun h => Or.inr ⟨h, hfresh q h⟩⟩
  rcases h with rfl | h
  · exact absurd hp hq
  · exact h.1

theorem removed_project {s : Manager.State} {p : ProxyInfo} (hk : s.Knows p) (hp : p.project = P) :
    ∀ e, s.registry.getProcessById p.id = some e → e.project = P := by
  intro e he
  obtain ⟨hmem, hid⟩ := Registry.getProcessById_some he
  rw [hk.unique e hmem hid]
  exact hp

theorem callWithin_goto {s t : Manager.State} {i : Nat} {pc : Pc} (hc : CallWithin P (s.calls i))
    (ht : t.calls = s.calls) (hpc : Within P pc) : CallWithin P ((t.goto i pc).calls i) := by
  rw [Manager.State.goto_calls, if_pos rfl, ht]
  exact ⟨hpc, hc.rest⟩

variable (isUuid : String → Bool) (compileRegex : String → Except String Unit)

theorem within_step {s : Manager.State} {a : Action} (hs : Manager.Resolved s)
    (h : Manager.enabled isUuid compileRegex s a) {i : Nat} (hi : a.actor = some i)
    (hb : ∀ t, a ≠ .begin i t) (hc : CallWithin P (s.calls i)) :
    CallWithin P ((Manager.next isUuid s a).calls i) := by
  have hsource {pc : Pc} (hpc : (s.calls i).pc = pc) : Within P pc := hpc ▸ hc.pc
  have hknows {pc : Pc} (hpc : (s.calls i).pc = pc) {p : ProxyInfo} (hp : pc.proxy = some p) :
      s.Knows p := hs.calls i p (Or.inl (hpc ▸ hp))
  cases a with
  | begin j t =>
    cases hi
    exact absurd rfl (hb t)
  | task j t rest =>
    cases hi
    have hcall : s.calls i = ⟨.ready, t :: rest⟩ := h
    have hrest := hc.rest
    rw [hcall] at hrest
    simp only [Manager.next, Function.update_self]
    exact run_within (hrest t List.mem_cons_self) fun u hu => hrest u (List.mem_cons_of_mem _ hu)
  | finish | drop | startReturn | stopReturn | removalSeen | removalTimeout =>
    cases hi
    exact callWithin_goto hc rfl trivial
  | startLookup j r =>
    cases hi
    have hr : r.project = P := hsource h
    exact callWithin_goto hc rfl (within_afterLookup hr fun e he =>
      (Registry.getProcessByNameWithProject_some he).2.2.trans hr)
  | startStatus j r e =>
    cases hi
    exact callWithin_goto hc rfl (within_afterStatus (hsource h) _)
  | startRemove j r e =>
    cases hi
    obtain ⟨hr, he⟩ : Within P (.startRemove r e) := hsource h
    exact callWithin_goto (t := s.setRegistry _) hc rfl
      (within_afterRemove hr (removed_project (hknows h rfl) he))
  | startRelease j r k =>
    cases hi
    have hr : Within P (.startRelease r k) := hsource h
    exact callWithin_goto (t := s.setRegistry _) hc rfl hr.1
  | startReserve j r =>
    cases hi
    have hr : Within P (.startReserve r) := hsource h
    refine callWithin_goto (t := s.setRegistry _) hc rfl ?_
    split
    · exact hr
    · trivial
  | startReject | startKeep | startPublish | startMonitor | startWake | startStarted | syncProbe =>
    cases hi
    exact callWithin_goto hc rfl (hsource h :)
  | startSpawn | startAdd =>
    cases hi
    exact callWithin_goto hc rfl (hsource h.1 :)
  | startDrop =>
    cases hi
    exact callWithin_goto hc rfl trivial
  | startReport j p =>
    cases hi
    exact callWithin_goto hc rfl (within_afterReport (hsource h) _)
  | syncExitCode j p f =>
    cases hi
    exact callWithin_goto hc rfl (within_afterExitCode (hsource h) f _)
  | syncExitStatus j p f code =>
    cases hi
    exact callWithin_goto hc rfl (within_afterExitStatus (hsource h) f code _)
  | syncProbeError j p f | syncStore j p f =>
    cases hi
    exact callWithin_goto hc rfl (within_afterSync (hsource h) f)
  | syncProbeStatus j p f alive =>
    cases hi
    exact callWithin_goto hc rfl (within_afterProbeStatus (hsource h) f alive _)
  | stopLookup j n project force tolerant =>
    cases hi
    have hp : project = P := hsource h
    exact callWithin_goto hc rfl (within_afterStopLookup
      (fun e he => (Registry.lookup_project isUuid he).1.trans hp) force tolerant)
  | stopRemove j c =>
    cases hi
    have hp := (hsource h :).1
    exact callWithin_goto hc rfl
      (within_afterStopRemove hp (removed_project (hknows h rfl) hp))
  | stopTimeout j c phase =>
    cases hi
    exact callWithin_goto hc rfl (within_afterStopTimeout (hsource h.1 :).1)
  | stopConfirmElapsed =>
    cases hi
    exact callWithin_goto hc rfl (within_afterStopError _)
  | stopPublish | stopSetStopping | stopSigterm | stopPoll | stopPollElapsed | stopPollWake
  | stopSigkill | stopConfirm | stopConfirmPs | stopConfirmWake | stopSetStopped | stopRelease =>
    cases hi
    refine callWithin_goto hc rfl (within_stop (hsource h :).1 ?_)
    intro k e
    first
    | cases e
    | split at e <;> cases e
  | monitorReap | monitorError | monitorExitCode | monitorStatus | monitorFailed | monitorPublish
  | leaderExit | fork | memberExit | memberReap => cases hi

theorem untouched_step {s : Manager.State} {a : Action} (hs : Manager.Resolved s)
    (h : Manager.enabled isUuid compileRegex s a) {i : Nat} (hi : a.actor = some i)
    (hc : CallWithin P (s.calls i)) : Untouched P s (Manager.next isUuid s a) := by
  have hsource {pc : Pc} (hpc : (s.calls i).pc = pc) : Within P pc := hpc ▸ hc.pc
  have hknows {pc : Pc} (hpc : (s.calls i).pc = pc) {p : ProxyInfo} (hp : pc.proxy = some p) :
      s.Knows p := hs.calls i p (Or.inl (hpc ▸ hp))
  cases a with
  | startRemove j r e =>
    cases hi
    exact untouched_goto (untouched_drop (hknows h rfl) (hsource h :).2) _ _
  | startRelease j r k =>
    cases hi
    exact untouched_goto (untouched_release s (hsource h :).2) _ _
  | startReserve j r =>
    cases hi
    have hr : r.project = P := hsource h
    exact untouched_goto (untouched_reserve s (k := r.key) hr) _ _
  | startDrop j k =>
    cases hi
    exact untouched_goto (untouched_release s (hsource h :)) _ _
  | startAdd j r pid group id =>
    cases hi
    exact untouched_goto (untouched_add hs (p := ProxyInfo.new r id pid) (hsource h.1 :) h.2 group)
      _ _
  | syncStore j p f st =>
    cases hi
    exact untouched_goto (untouched_setStatus
      (fun q hq hne => foreign_id (hknows h rfl) (hsource h :) hq hne) st) _ _
  | stopSetStopping j c | stopSetStopped j c =>
    cases hi
    exact untouched_goto (untouched_setStatus
      (fun q hq hne => foreign_id (hknows h rfl) (hsource h :).1 hq hne) _) _ _
  | stopSigterm j c | stopSigkill j c =>
    cases hi
    exact untouched_goto (untouched_signal (hknows h rfl) (hsource h :).1 _) _ _
  | stopRemove j c =>
    cases hi
    exact untouched_goto (untouched_drop (hknows h rfl) (hsource h :).1) _ _
  | stopRelease j c k =>
    cases hi
    exact untouched_goto (untouched_release s ((hsource h :).2 k rfl)) _ _
  | monitorReap | monitorError | monitorExitCode | monitorStatus | monitorFailed | monitorPublish
  | leaderExit | fork | memberExit | memberReap => cases hi
  | _ => exact untouched_of_eq rfl rfl rfl

theorem untouched_environment {s : Manager.State} {a : Action} (ha : a.actor = none)
    (hr : ∀ q ∈ s.registry.processes, q.project ≠ P → reports a ≠ some q.id) :
    Untouched P s (Manager.next isUuid s a) := by
  have hid {id : String} (e : reports a = some id) :
      ∀ q ∈ s.registry.processes, q.project ≠ P → q.id ≠ id := by
    intro q hq hne hid
    exact hr q hq hne (e.trans (congrArg some hid.symm))
  cases a with
  | monitorStatus id code =>
    have hst := untouched_setStatus (hid rfl) (if code = some 0 then .stopped else .failed)
    exact ⟨hst.entries, hst.status, hst.reserved, hst.signals⟩
  | monitorFailed id =>
    have hst := untouched_setStatus (hid rfl) .failed
    exact ⟨hst.entries, hst.status, hst.reserved, hst.signals⟩
  | monitorReap | monitorError | monitorExitCode | monitorPublish | leaderExit | fork
  | memberExit | memberReap => exact untouched_of_eq rfl rfl rfl
  | _ => cases ha

structure Inv (s : State) : Prop where
  resolved : Manager.Resolved s.manager
  within : ∀ i P, s.scope i = some P → CallWithin P (s.manager.calls i)

theorem afterBegin_of_ne {scope : Nat → Option String} {a : Action} {i : Nat}
    (h : ∀ t, a ≠ .begin i t) : afterBegin scope a i = scope i := by
  cases a with
  | begin j t => exact Function.update_of_ne (fun e => h t (by rw [e])) _ _
  | _ => rfl

theorem inv_step {s : State} {a : Action} (hs : Inv s)
    (h : (machine isUuid compileRegex).enabled s a) :
    Inv ((machine isUuid compileRegex).next s a) := by
  refine ⟨Manager.resolved_step isUuid compileRegex hs.resolved h, fun i P hi => ?_⟩
  change CallWithin P ((Manager.next isUuid s.manager a).calls i)
  change afterBegin s.scope a i = some P at hi
  by_cases hb : ∃ t, a = .begin i t
  · obtain ⟨t, rfl⟩ := hb
    simp only [afterBegin, Function.update_self] at hi
    simp only [Manager.next, Function.update_self]
    exact ⟨trivial, List.forall_mem_singleton.mpr hi⟩
  · have hb' : ∀ t, a ≠ .begin i t := fun t e => hb ⟨t, e⟩
    have hc := hs.within i P ((afterBegin_of_ne hb').symm.trans hi)
    by_cases ha : a.actor = some i
    · exact within_step isUuid compileRegex hs.resolved h ha hb' hc
    · rw [Manager.calls_frame isUuid s.manager a ha]
      exact hc

theorem reachable_inv {s : State} (h : (machine isUuid compileRegex).Reachable s) : Inv s :=
  Machine.reachable_induction _ ⟨Manager.resolved_initial, fun _ _ h => by cases h⟩
    (fun _ _ hs he => inv_step isUuid compileRegex hs he) h

theorem untouched_serves {s : State} {a : Action} (hs : Inv s)
    (h : (machine isUuid compileRegex).enabled s a) (hserves : Serves P s a) :
    Untouched P s.manager ((machine isUuid compileRegex).next s a).manager := by
  cases ha : a.actor with
  | some i =>
    by_cases hb : ∃ t, a = .begin i t
    · obtain ⟨t, rfl⟩ := hb
      exact untouched_of_eq rfl rfl rfl
    · have hscope := hserves.scope i ha
      rw [afterBegin_of_ne fun t e => hb ⟨t, e⟩] at hscope
      exact untouched_step isUuid compileRegex hs.resolved h ha (hs.within i P hscope)
  | none => exact untouched_environment isUuid ha hserves.reports

theorem untouched_exec {s : State} {as : List Action} (hs : Inv s)
    (hl : (machine isUuid compileRegex).Legal s as)
    (hc : (machine isUuid compileRegex).Throughout (Serves P) s as) :
    Untouched P s.manager ((machine isUuid compileRegex).exec s as).manager := by
  induction as generalizing s with
  | nil => exact untouched_refl _
  | cons a as ih =>
    exact untouched_trans (untouched_serves isUuid compileRegex hs hl.1 hc.1)
      (ih (inv_step isUuid compileRegex hs hl.1) hl.2 hc.2)

theorem stopsWithin {s : State} (hs : Inv s) : StopsWithin P s := by
  intro i c phase hi hpc
  have hc := (hs.within i P hi).pc
  rw [hpc] at hc
  exact hc.1

theorem getProcessImpl_within {r : Registry}
    (hu : ∀ p ∈ r.processes, ∀ q ∈ r.processes, q.id = p.id → q = p) (name P : String) :
    AnswersWithin r name P (getProcessImpl isUuid r name P) := by
  simp only [getProcessImpl]
  split
  · next p hp => exact ⟨Registry.lookup_mem isUuid hp, Registry.lookup_project isUuid hp⟩
  · next hnone =>
    refine ⟨rfl, fun p hp hproject => ?_⟩
    simp only [Registry.getProcessByNameOrIdWithProject] at hnone
    have hboth : (r.getProcessById name).filter (·.project = P) = none ∧
        r.getProcessByNameWithProject name P = none := by
      split at hnone
      · exact Option.or_eq_none_iff.mp hnone
      · exact (Option.or_eq_none_iff.mp hnone).symm
    refine ⟨fun hname => ?_, fun hid => ?_⟩
    · have := List.find?_eq_none.mp hboth.2 p hp
      simp [hname, hproject] at this
    · subst hid
      rw [Registry.getProcessById_of_mem hp (hu p hp)] at hboth
      simp [hproject] at hboth

theorem projects_isolated {s : State} (hs : (machine isUuid compileRegex).Reachable s)
    (P : String) :
    StopsWithin P s ∧
      (∀ as, (machine isUuid compileRegex).Legal s as →
        (machine isUuid compileRegex).Throughout (Serves P) s as →
        Untouched P s.manager ((machine isUuid compileRegex).exec s as).manager) ∧
      ∀ name, AnswersWithin s.manager.registry name P
        (getProcessImpl isUuid s.manager.registry name P) := by
  have hinv := reachable_inv isUuid compileRegex hs
  refine ⟨stopsWithin hinv, fun as => untouched_exec isUuid compileRegex hinv, fun name => ?_⟩
  exact getProcessImpl_within isUuid (fun p hp => (hinv.resolved.entries p hp).unique) name P

def webId : String := "0f8fad5b-d9cb-469f-a165-70867728950e"

def isWebId (s : String) : Bool := s = webId

def otherRequest : StartRequest := { Manager.webRequest with project := "other" }

def otherProxy : ProxyInfo := ProxyInfo.new otherRequest "b" 8

-- Two projects, each with a process web.
def twoWebs : List Action :=
  Manager.startRun 0 Manager.webRequest 7 webId ++
    [.begin 2 (.start otherRequest), .task 2 (.start otherRequest) [],
     .startLookup 2 otherRequest, .startReserve 2 otherRequest, .startSpawn 2 otherRequest 8,
     .startAdd 2 otherRequest 8 1 "b", .startKeep 2 otherProxy, .startPublish 2 otherProxy,
     .startMonitor 2 otherProxy]

def webState : State := (machine isWebId (fun _ => .ok ())).exec .initial twoWebs

-- A stop of web in the other project, beside one by the id that the process of "app" has.
def otherStops : List Action :=
  let c : StopCall := ⟨otherProxy, true, false, false⟩
  [.begin 3 (.stop webId "other" true false), .begin 1 (.stop "web" "other" true false),
   .task 1 (.stop "web" "other" true false) [], .task 3 (.stop webId "other" true false) [],
   .stopLookup 1 "web" "other" true false, .stopLookup 3 webId "other" true false,
   .stopPublish 1 c, .stopSetStopping 1 c, .stopSigkill 1 c, .leaderExit 1, .monitorReap "b" 1 none,
   .stopConfirm 1 c false, .stopSetStopped 1 c, .stopRemove 1 c, .stopRelease 1 c otherRequest.key]

theorem projects_isolated_web :
    let stopped := (machine isWebId (fun _ => .ok ())).exec webState otherStops
    webState.manager.registry.processes.map (·.project) = ["other", "app"] ∧
      stopped.manager.registry.processes.map (·.project) = ["app"] ∧
      Untouched "other" webState.manager stopped.manager ∧
      StopsWithin "other" webState ∧
      AnswersWithin webState.manager.registry webId "other"
        (getProcessImpl isWebId webState.manager.registry webId "other") := by
  have hreach : (machine isWebId (fun _ => .ok ())).Reachable webState :=
    ⟨twoWebs, by decide, rfl⟩
  obtain ⟨hstop, hrun, hget⟩ := projects_isolated isWebId (fun _ => .ok ()) hreach "other"
  exact ⟨by decide, by decide, hrun otherStops (by decide) (by decide), hstop, hget webId⟩

end Isolation
