import Mcproc.Lib.Runs
import Mcproc.Process.ProjectNames

def ProxyInfo.request (p : ProxyInfo) : StartRequest where
  name := p.name
  project := p.project
  cmd := p.cmd
  args := p.args
  cwd := p.cwd
  env := p.env
  waitForLog := p.waitForLog
  waitTimeout := p.waitTimeout
  toolchain := p.toolchain

namespace Manager

def overrideWaits (r : StartRequest) (waitForLog : Option String) (waitTimeout : Option Nat) :
    StartRequest :=
  { r with waitForLog := waitForLog.or r.waitForLog, waitTimeout := waitTimeout.or r.waitTimeout }

theorem restartRequest_eq (p : ProxyInfo) (w : Option String) (t : Option Nat) :
    restartRequest p w t = overrideWaits p.request w t := rfl

-- A client sent the request itself, or restarts it with waits of its own.
inductive Asked (as : List Action) : StartRequest → Prop where
  | start {i : Nat} {r : StartRequest} : .begin i (.start r) ∈ as → Asked as r
  | forceRestart {i : Nat} {r : StartRequest} : .begin i (.forceRestart r) ∈ as → Asked as r
  | restart {i : Nat} {n project : String} {w : Option String} {t : Option Nat}
      {r : StartRequest} : .begin i (.restart n project w t) ∈ as → Asked as r →
      Asked as (overrideWaits r w t)

def StartRequest.Admitted (r : StartRequest) : Prop :=
  validWaitTimeout r.waitTimeout ∧ Validation.ValidProcess r.name ∧
    Validation.ValidProject r.project

theorem validWaitTimeout_or {t t' : Option Nat} (h : validWaitTimeout t)
    (h' : validWaitTimeout t') : validWaitTimeout (t.or t') := by
  cases t with
  | none => exact h'
  | some n => exact h

def Task.Sourced (as : List Action) : Task → Prop
  | .start r | .forceRestart r => Asked as r
  | .restart n project w t => ∃ i, .begin i (.restart n project w t) ∈ as
  | _ => True

structure Sourced (as : List Action) (s : State) : Prop where
  entries : ∀ p ∈ s.registry.processes, Asked as p.request
  requests : ∀ i r, (s.calls i).pc.request = some r → Asked as r
  tasks : ∀ i, ∀ t ∈ (s.calls i).rest, t.Sourced as

variable (isUuid : String → Bool) (compileRegex : String → Except String Unit)

theorem begun_admitted {s : State} {as : List Action}
    (hl : (machine isUuid compileRegex).Legal s as) {i : Nat} {t : Task}
    (h : .begin i t ∈ as) : t.admitted := by
  obtain ⟨s', he⟩ := (machine isUuid compileRegex).throughout_mem hl h
  exact he.2

theorem asked_admitted {s : State} {as : List Action} {r : StartRequest}
    (hl : (machine isUuid compileRegex).Legal s as) (h : Asked as r) :
    StartRequest.Admitted r := by
  induction h with
  | start hmem => exact begun_admitted isUuid compileRegex hl hmem
  | forceRestart hmem => exact begun_admitted isUuid compileRegex hl hmem
  | restart hmem _ ih =>
    exact ⟨validWaitTimeout_or (begun_admitted isUuid compileRegex hl hmem) ih.1, ih.2⟩

def Action.requests : Action → Bool
  | .task _ _ _ | .startLookup _ _ | .startStatus _ _ _ | .startRemove _ _ _
  | .startRelease _ _ _ | .startReserve _ _ | .startSpawn _ _ _ => true
  | _ => false

theorem request_none (s : State) {a : Action} {i : Nat} (hi : a.actor = some i)
    (ha : a.requests = false) : ((next isUuid s a).calls i).pc.request = none := by
  cases a with
  | task | startLookup | startStatus | startRemove | startRelease | startReserve
  | startSpawn => cases ha
  | monitorReap | monitorError | monitorExitCode | monitorStatus | monitorFailed | monitorPublish
  | leaderExit | fork | memberExit | memberReap => cases hi
  | begin j t => cases hi; simp [next, Pc.request]
  | _ =>
    cases hi
    simp only [next, State.goto_pc_self]
    first
    | rfl
    | simp

theorem request_step {s : State} {a : Action} (h : enabled isUuid compileRegex s a) {i : Nat}
    {r : StartRequest} (hr : ((next isUuid s a).calls i).pc.request = some r) :
    (s.calls i).pc.request = some r ∨ .start r ∈ (s.calls i).rest := by
  by_cases hi : a.actor = some i
  swap
  · rw [calls_frame isUuid s a hi] at hr
    exact Or.inl hr
  cases hq : a.requests with
  | false =>
    rw [request_none isUuid s hi hq] at hr
    cases hr
  | true =>
    have hpc := source_eq isUuid compileRegex h hi
    cases a with
    | task j t rest =>
      cases hi
      have hcall : s.calls i = ⟨.ready, t :: rest⟩ := h
      simp only [next, Function.update_self] at hr
      cases t with
      | start r' =>
        obtain rfl := Option.some.inj hr
        rw [hcall]
        exact Or.inr List.mem_cons_self
      | forceRestart | restart =>
        simp only [Task.run] at hr
        split at hr <;> cases hr
      | _ => cases hr
    | startLookup j r' =>
      cases hi
      rw [next, State.goto_pc_self] at hr
      rw [← Option.some.inj hpc]
      cases ho : s.registry.getProcessByNameWithProject r'.name r'.project <;>
      · rw [ho] at hr
        exact Or.inl hr
    | startStatus j r' e =>
      cases hi
      rw [next, State.goto_pc_self] at hr
      rw [← Option.some.inj hpc]
      cases ho : s.status e.id <;> rw [ho] at hr <;> first
        | exact Or.inl hr
        | cases hr
    | startRemove j r' e =>
      cases hi
      rw [next, State.goto_pc_self] at hr
      rw [← Option.some.inj hpc]
      cases ho : s.registry.getProcessById e.id <;>
      · rw [ho] at hr
        exact Or.inl hr
    | startReserve j r' =>
      cases hi
      rw [next, State.goto_pc_self] at hr
      rw [← Option.some.inj hpc]
      split at hr
      · exact Or.inl hr
      · cases hr
    | startRelease j r' k | startSpawn j r' pid =>
      cases hi
      rw [next, State.goto_pc_self] at hr
      rw [← Option.some.inj hpc]
      exact Or.inl hr
    | _ => cases hq

theorem rest_step (s : State) {a : Action} {i : Nat} :
    ((next isUuid s a).calls i).rest = (s.calls i).rest ∨
      (∃ t, a = .begin i t ∧ ((next isUuid s a).calls i).rest = [t]) ∨
      ∃ t rest, a = .task i t rest ∧
        ((next isUuid s a).calls i).rest = (t.run isUuid s rest).rest := by
  by_cases hi : a.actor = some i
  swap
  · exact Or.inl (congrArg Call.rest (calls_frame isUuid s a hi))
  cases a with
  | begin j t =>
    cases hi
    exact Or.inr (Or.inl ⟨t, rfl, by simp [next]⟩)
  | task j t rest =>
    cases hi
    exact Or.inr (Or.inr ⟨t, rest, rfl, by simp [next]⟩)
  | monitorReap | monitorError | monitorExitCode | monitorStatus | monitorFailed | monitorPublish
  | leaderExit | fork | memberExit | memberReap => cases hi
  | _ =>
    cases hi
    exact Or.inl (by simp [next, State.goto_calls, State.setRegistry, State.setStatus,
      State.setMonitor, State.publish, State.signal, State.launch, State.add])

theorem task_begun {as : List Action} {i : Nat} {t : Task} (h : .begin i t ∈ as) :
    t.Sourced as := by
  cases t with
  | start r => exact .start h
  | forceRestart r => exact .forceRestart h
  | restart n project w t => exact ⟨i, h⟩
  | _ => trivial

theorem run_sourced {s : State} {as : List Action} (hs : Sourced as s) {t : Task}
    {rest : List Task} (ht : t.Sourced as) (hrest : ∀ u ∈ rest, u.Sourced as) :
    ∀ u ∈ (t.run isUuid s rest).rest, u.Sourced as := by
  cases t with
  | start | stop | awaitRemoval | sync => exact hrest
  | forceRestart r =>
    simp only [Task.run]
    split <;> simp only [List.forall_mem_cons]
    · exact ⟨trivial, trivial, ht, hrest⟩
    · exact ⟨ht, hrest⟩
  | restart n project w t =>
    simp only [Task.run]
    split
    · next p hp =>
      obtain ⟨i, hbegin⟩ := ht
      have hasked := Asked.restart hbegin (hs.entries p (Registry.lookup_mem isUuid hp))
      simp only [List.forall_mem_cons]
      exact ⟨trivial, trivial, restartRequest_eq p w t ▸ hasked, hrest⟩
    · exact hrest
  | clean | cleanAll | syncAll =>
    intro u hu
    rcases List.mem_append.mp hu with hu | hu
    · obtain ⟨p, -, rfl⟩ := List.mem_map.mp hu
      trivial
    · exact hrest u hu

theorem sourced_initial (as : List Action) : Sourced as State.initial where
  entries _ h := by cases h
  requests _ _ h := by cases h
  tasks _ _ h := by cases h

theorem sourced_step {as : List Action} {s : State} {a : Action} (hs : Sourced as s)
    (h : enabled isUuid compileRegex s a) (ha : a ∈ as) : Sourced as (next isUuid s a) where
  entries p hp := by
    rcases entry_step isUuid hp with hold | ⟨i, r, pid, g, id, rfl, rfl⟩
    · exact hs.entries p hold
    · exact hs.requests i r (by rw [show (s.calls i).pc = _ from h.1]; rfl)
  requests i r hr := by
    rcases request_step isUuid compileRegex h hr with hold | hstart
    · exact hs.requests i r hold
    · exact hs.tasks i _ hstart
  tasks i t ht := by
    rcases rest_step isUuid s (i := i) (a := a) with heq | ⟨u, rfl, heq⟩ | ⟨u, rest, rfl, heq⟩ <;>
      rw [heq] at ht
    · exact hs.tasks i t ht
    · obtain rfl := List.mem_singleton.mp ht
      exact task_begun ha
    · have hcall : (s.calls i).rest = u :: rest := congrArg Call.rest h
      have htasks := hs.tasks i
      rw [hcall, List.forall_mem_cons] at htasks
      exact run_sourced isUuid hs htasks.1 htasks.2 t ht

theorem sourced_exec {as : List Action} (h : (machine isUuid compileRegex).Legal .initial as) :
    Sourced as ((machine isUuid compileRegex).exec .initial as) :=
  (machine isUuid compileRegex).always_last
    ((machine isUuid compileRegex).always_of_step (C := fun _ a => a ∈ as)
      (fun _ _ hs he ha => sourced_step isUuid compileRegex hs he ha) (sourced_initial as) h
      ((machine isUuid compileRegex).throughout_of_forall fun _ ha _ => ha))

theorem launches_asked {as : List Action}
    (h : (machine isUuid compileRegex).Legal .initial as) :
    (∀ p ∈ ((machine isUuid compileRegex).exec .initial as).registry.processes,
      Asked as p.request ∧ StartRequest.Admitted p.request) ∧
    ∀ i r pid,
      enabled isUuid compileRegex ((machine isUuid compileRegex).exec .initial as)
        (.startSpawn i r pid) →
      Asked as r ∧ StartRequest.Admitted r := by
  have hs := sourced_exec isUuid compileRegex h
  refine ⟨fun p hp => ?_, fun i r pid he => ?_⟩
  · have hasked := hs.entries p hp
    exact ⟨hasked, asked_admitted isUuid compileRegex h hasked⟩
  · have hasked := hs.requests i r (by rw [he.1]; rfl)
    exact ⟨hasked, asked_admitted isUuid compileRegex h hasked⟩

def restartedWeb : StartRequest :=
  restartRequest (ProxyInfo.new webRequest "a" 7) (some "ready") none

-- A restart that waits for a line, up to the launch it leads to.
def restartRun : List Action :=
  let c : StopCall := ⟨ProxyInfo.new webRequest "a" 7, false, false, false⟩
  let stop : Task := .stop "web" "app" false false
  let removal : Task := .awaitRemoval "web" "app"
  startRun 0 webRequest 7 "a" ++
    [.begin 1 (.restart "web" "app" (some "ready") none),
     .task 1 (.restart "web" "app" (some "ready") none) [],
     .task 1 stop [removal, .start restartedWeb], .stopLookup 1 "web" "app" false false,
     .stopPublish 1 c, .stopSetStopping 1 c, .stopSigterm 1 c true true, .leaderExit 0,
     .monitorReap "a" 0 none, .stopPoll 1 c false, .stopSetStopped 1 c, .stopRemove 1 c,
     .stopRelease 1 c webRequest.key, .stopReturn 1 c, .task 1 removal [.start restartedWeb],
     .removalSeen 1 "web" "app", .task 1 (.start restartedWeb) [], .startLookup 1 restartedWeb,
     .startReserve 1 restartedWeb]

def relaunch : List Action := [.startSpawn 1 restartedWeb 8, .startAdd 1 restartedWeb 8 1 "b"]

theorem launches_asked_web :
    let m := machine (fun _ => false) (fun _ => .ok ())
    ((m.exec .initial (restartRun ++ relaunch)).registry.processes =
        [ProxyInfo.new restartedWeb "b" 8] ∧
      ∀ p ∈ (m.exec .initial (restartRun ++ relaunch)).registry.processes,
        Asked (restartRun ++ relaunch) p.request ∧ StartRequest.Admitted p.request) ∧
    Asked restartRun restartedWeb := by
  intro m
  have hlaunch : m.enabled (m.exec .initial restartRun) (.startSpawn 1 restartedWeb 8) := by
    decide
  refine ⟨⟨by decide, ?_⟩, ?_⟩
  · exact (launches_asked (fun _ => false) (fun _ => .ok ()) (by decide)).1
  · exact ((launches_asked (fun _ => false) (fun _ => .ok ()) (by decide)).2 1 _ 8 hlaunch).1

end Manager
