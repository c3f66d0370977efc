import Mcproc.Process.Manager

namespace ProcessHandlers

open Manager (Signal restartRequest validWaitTimeout)
open Validation (validateProcessName validateProjectName)

structure Status where
  code : Code
  message : String
  deriving DecidableEq, Repr

structure Daemon where
  registry : Registry
  status : String → ProcessStatus
  signals : List (String × Signal)

inductive StopEnd where
  | gone
  | killed
  | survived
  | timedOut (escalated : Bool)
  deriving DecidableEq, Repr

def StopEnd.escalated : StopEnd → Bool
  | .gone => false
  | .killed | .survived => true
  | .timedOut escalated => escalated

def StopEnd.signals (force : Bool) (e : StopEnd) : List Signal :=
  (if force then [] else [.sigterm]) ++ (if force || e.escalated then [.sigkill] else [])

structure Spawned where
  pid : Nat
  id : String
  status : ProcessStatus
  deriving DecidableEq, Repr

structure Env where
  isUuid : String → Bool
  compileRegex : String → Except String Unit
  stopEnd : ProxyInfo → StopEnd
  retryEnd : ProxyInfo → StopEnd
  spawn : StartRequest → String → Except String Spawned

variable (env : Env)

namespace Daemon

def lookup (d : Daemon) (nameOrId project : String) : Option ProxyInfo :=
  d.registry.getProcessByNameOrIdWithProject env.isUuid nameOrId (some project)

def signalAll (d : Daemon) (p : ProxyInfo) (sigs : List Signal) : Daemon :=
  { d with signals := d.signals ++ sigs.map fun sig => (p.id, sig) }

def setStatus (d : Daemon) (id : String) (status : ProcessStatus) : Daemon :=
  { d with status := Function.update d.status id status }

def remove (d : Daemon) (id : String) : Daemon :=
  { d with registry := (d.registry.removeProcess id).2 }

end Daemon

def survivedMessage (p : ProxyInfo) : String :=
  "Process group " ++ p.name ++ " (PGID " ++ toString p.pid ++
    ") still has live members after SIGKILL"

def retryResult (p : ProxyInfo) : Except McprocdError Unit :=
  match env.retryEnd p with
  | .gone | .killed => .ok ()
  | .survived => .error (.stopError (survivedMessage p))
  | .timedOut _ => .error (.stopError ("Timed out force killing process " ++ p.name))

def stopResult (p : ProxyInfo) (force : Bool) : Except McprocdError Unit × List Signal :=
  let sent := (env.stopEnd p).signals force
  match env.stopEnd p with
  | .gone | .killed => (.ok (), sent)
  | .survived => (.error (.stopError (survivedMessage p)), sent)
  | .timedOut _ =>
    if force then (.error (.stopError ("Timed out stopping process " ++ p.name)), sent)
    else (retryResult env p, sent ++ (env.retryEnd p).signals true)

def stopProcess (d : Daemon) (nameOrId project : String) (force : Bool) :
    Except McprocdError Unit × Daemon :=
  match d.lookup env nameOrId project with
  | none => (.error (.processNotFound nameOrId), d)
  | some p =>
    match stopResult env p force with
    | (.ok (), sent) =>
      (.ok (), (((d.setStatus p.id .stopping).signalAll p sent).setStatus p.id .stopped).remove p.id)
    | (.error e, sent) => (.error e, (d.setStatus p.id .stopping).signalAll p sent)

def launch (d : Daemon) (r : StartRequest) : Except McprocdError ProxyInfo × Daemon :=
  match Launcher.checkLaunch env.compileRegex r with
  | .error e => (.error e, d)
  | .ok command =>
    match env.spawn r command with
    | .error e => (.error (.processSpawnFailed r.name e), d)
    | .ok spawned =>
      let p := ProxyInfo.new r spawned.id spawned.pid
      (.ok p, { d.setStatus p.id spawned.status with registry := d.registry.addProcess p })

-- The reservation guard gives the name back on every path that adds no entry.
def reserveAndLaunch (d : Daemon) (r : StartRequest) : Except McprocdError ProxyInfo × Daemon :=
  match d.registry.tryReserveName r.key with
  | (false, _) => (.error (.processAlreadyExists r.name), d)
  | (true, reserved) =>
    match launch env { d with registry := reserved } r with
    | (.error e, d') => (.error e, { d' with registry := d'.registry.releaseName r.key })
    | (.ok p, d') => (.ok p, d')

def startWithLogStream (d : Daemon) (r : StartRequest) : Except McprocdError ProxyInfo × Daemon :=
  match d.registry.getProcessByNameWithProject r.name r.project with
  | none => reserveAndLaunch env d r
  | some existing =>
    match d.status existing.id with
    | .failed | .stopped => reserveAndLaunch env (d.remove existing.id) r
    | _ => (.error (.processAlreadyExists r.name), d)

def restartWithLogStream (d : Daemon) (nameOrId project : String) (waitForLog : Option String)
    (waitTimeout : Option Nat) : Except McprocdError ProxyInfo × Daemon :=
  match d.lookup env nameOrId project with
  | none => (.error (.processNotFound nameOrId), d)
  | some p =>
    match stopProcess env d nameOrId p.project false with
    | (.error e, d') => (.error e, d')
    | (.ok (), d') => startWithLogStream env d' (restartRequest p waitForLog waitTimeout)

def mcprocdErrorToStatus (e : McprocdError) : Status := ⟨e.code, e.toString⟩

def startErrorToStatus : McprocdError → Status
  | .processAlreadyExists name => ⟨.alreadyExists, "Process '" ++ name ++ "' is already running"⟩
  | e => mcprocdErrorToStatus e

def forceRestartStopResult (e : McprocdError) : Status :=
  ⟨.failedPrecondition, "Failed to stop existing process before restart: " ++ e.toString⟩

def validateWaitTimeout (t : Option Nat) : Except Status Unit :=
  if validWaitTimeout t then .ok ()
  else .error ⟨.invalidArgument, "wait_timeout must not exceed 3600 seconds"⟩

def validateStart (r : StartRequest) : Except Status Unit :=
  match validateWaitTimeout r.waitTimeout with
  | .error e => .error e
  | .ok () =>
    match validateProcessName r.name with
    | .error e => .error ⟨.invalidArgument, "Invalid process name: " ++ e⟩
    | .ok () =>
      match validateProjectName r.project with
      | .error e => .error ⟨.invalidArgument, "Invalid project name: " ++ e⟩
      | .ok () => .ok ()

def startStream (d : Daemon) (r : StartRequest) : Except Status ProxyInfo × Daemon :=
  match startWithLogStream env d r with
  | (.error e, d') => (.error (startErrorToStatus e), d')
  | (.ok p, d') => (.ok p, d')

def startProcessImpl (d : Daemon) (r : StartRequest) (forceRestart : Bool) :
    Except Status ProxyInfo × Daemon :=
  match validateStart r with
  | .error e => (.error e, d)
  | .ok () =>
    match if forceRestart then d.lookup env r.name r.project else none with
    | none => startStream env d r
    | some existing =>
      match stopProcess env d existing.id r.project true with
      | (.error e, d') => (.error (forceRestartStopResult e), d')
      | (.ok (), d') => startStream env d' r

def restartProcessImpl (d : Daemon) (nameOrId project : String) (waitForLog : Option String)
    (waitTimeout : Option Nat) : Except Status ProxyInfo × Daemon :=
  match validateWaitTimeout waitTimeout with
  | .error e => (.error e, d)
  | .ok () =>
    match restartWithLogStream env d nameOrId project waitForLog waitTimeout with
    | (.error e, d') => (.error (mcprocdErrorToStatus e), d')
    | (.ok p, d') => (.ok p, d')

inductive Request where
  | start (r : StartRequest) (forceRestart : Bool)
  | restart (nameOrId project : String) (waitForLog : Option String) (waitTimeout : Option Nat)
  deriving DecidableEq

def handle (d : Daemon) : Request → Except Status ProxyInfo × Daemon
  | .start r forceRestart => startProcessImpl env d r forceRestart
  | .restart nameOrId project w t => restartProcessImpl env d nameOrId project w t

def Rejected (result : Except Status ProxyInfo) : Prop :=
  ∃ e, result = .error e ∧ e.code = .invalidArgument

structure Unchanged (d d' : Daemon) : Prop where
  processes : ∀ p, p ∈ d'.registry.processes ↔ p ∈ d.registry.processes
  statuses : ∀ p ∈ d.registry.processes, d'.status p.id = d.status p.id
  reserved : d'.registry.reservedNames = d.registry.reservedNames
  signals : d'.signals = d.signals

theorem unchanged_self (d : Daemon) : Unchanged d d :=
  ⟨fun _ => Iff.rfl, fun _ _ => rfl, rfl, rfl⟩

def Daemon.terminal (d : Daemon) (p : ProxyInfo) : Prop :=
  d.status p.id = .failed ∨ d.status p.id = .stopped

-- The checks made before anything is stopped or removed reject the request, or there is nothing
-- to stop or remove.
def Harmless (d : Daemon) : Request → Prop
  | .start r forceRestart =>
    validateStart r ≠ .ok () ∨
      (forceRestart = true → d.lookup env r.name r.project = none) ∧
        ∀ p, d.registry.getProcessByNameWithProject r.name r.project = some p → ¬ d.terminal p
  | .restart _ _ _ waitTimeout => validateWaitTimeout waitTimeout ≠ .ok ()

theorem launch_error {d d' : Daemon} {r : StartRequest} {e : McprocdError}
    (h : launch env d r = (.error e, d')) : d' = d := by
  simp only [launch] at h
  split at h
  · cases h; rfl
  · split at h
    · cases h; rfl
    · cases h

theorem reserveAndLaunch_error {d d' : Daemon} {r : StartRequest} {e : McprocdError}
    (h : reserveAndLaunch env d r = (.error e, d')) : d' = d := by
  simp only [reserveAndLaunch] at h
  split at h
  · cases h; rfl
  · next reserved hr =>
    split at h
    · next e' d'' hl =>
      cases h
      rw [launch_error env hl]
      simp only [Registry.tryReserveName] at hr
      split at hr
      · cases hr
      · next hk =>
        cases hr
        simp [Registry.releaseName, Registry.reserveName, hk]
    · cases h

theorem mem_remove {d : Daemon} {id : String} {p : ProxyInfo}
    (h : p ∈ (d.remove id).registry.processes) : p ∈ d.registry.processes ∧ p.id ≠ id := by
  simp only [Daemon.remove, Registry.removeProcess] at h
  split at h
  · exact Registry.mem_dropProcess.mp h
  · next hn => exact ⟨h, Registry.getProcessById_none hn p h⟩

theorem startWithLogStream_error {d d' : Daemon} {r : StartRequest} {e : McprocdError}
    (h : startWithLogStream env d r = (.error e, d')) :
    d' = d ∨ ∃ p, d.registry.getProcessByNameWithProject r.name r.project = some p ∧
      d.terminal p ∧ d' = d.remove p.id := by
  simp only [startWithLogStream] at h
  split at h
  · exact Or.inl (reserveAndLaunch_error env h)
  · next p hp =>
    split at h
    · next hs => exact Or.inr ⟨p, hp, Or.inl hs, reserveAndLaunch_error env h⟩
    · next hs => exact Or.inr ⟨p, hp, Or.inr hs, reserveAndLaunch_error env h⟩
    · cases h; exact Or.inl rfl

theorem startWithLogStream_shrinks {d d' : Daemon} {r : StartRequest} {e : McprocdError}
    (h : startWithLogStream env d r = (.error e, d')) {p : ProxyInfo}
    (hp : p ∈ d'.registry.processes) : p ∈ d.registry.processes := by
  rcases startWithLogStream_error env h with rfl | ⟨q, -, -, rfl⟩
  · exact hp
  · exact (mem_remove hp).1

theorem startWithLogStream_unchanged {d d' : Daemon} {r : StartRequest} {e : McprocdError}
    (h : startWithLogStream env d r = (.error e, d')) :
    Unchanged d d' ↔
      ∀ p, d.registry.getProcessByNameWithProject r.name r.project = some p → ¬ d.terminal p := by
  constructor
  · intro hu p hp ht
    have hmem := (Registry.getProcessByNameWithProject_some hp).1
    rcases startWithLogStream_error env h with rfl | ⟨q, hq, -, rfl⟩
    · simp only [startWithLogStream] at h
      rw [hp] at h
      rcases ht with ht | ht <;> simp only [ht] at h <;>
        exact (mem_remove (reserveAndLaunch_error env h ▸ hmem)).2 rfl
    · obtain rfl := Option.some.inj (hp.symm.trans hq)
      exact (mem_remove ((hu.processes p).mpr hmem)).2 rfl
  · intro hn
    rcases startWithLogStream_error env h with rfl | ⟨q, hq, ht, -⟩
    · exact unchanged_self d'
    · exact absurd ht (hn q hq)

theorem stopProcess_ok {d d' : Daemon} {nameOrId project : String} {force : Bool}
    (h : stopProcess env d nameOrId project force = (.ok (), d')) :
    ∃ p ∈ d.registry.processes, p ∉ d'.registry.processes := by
  simp only [stopProcess] at h
  split at h
  · cases h
  · next p hp =>
    split at h
    · cases h
      exact ⟨p, Registry.lookup_mem _ hp, fun hmem => (mem_remove hmem).2 rfl⟩
    · cases h

theorem retryResult_error {p : ProxyInfo} {e : McprocdError} (h : retryResult env p = .error e) :
    e.code = .internal := by
  simp only [retryResult] at h
  split at h <;> cases h <;> rfl

theorem stopResult_error {p : ProxyInfo} {force : Bool} {e : McprocdError} {sent : List Signal}
    (h : stopResult env p force = (.error e, sent)) : e.code = .internal := by
  simp only [stopResult] at h
  split at h
  · cases h
  · cases h
  · cases h; rfl
  · split at h
    · cases h; rfl
    · exact retryResult_error env (congrArg Prod.fst h)

theorem stopProcess_error {d d' : Daemon} {nameOrId project : String} {force : Bool}
    {e : McprocdError} (h : stopProcess env d nameOrId project force = (.error e, d')) :
    e.code ≠ .invalidArgument := by
  simp only [stopProcess] at h
  split at h
  · cases h
    exact fun hc => by cases hc
  · split at h
    · cases h
    · next hs =>
      cases h
      exact fun hc => by cases (stopResult_error env hs).symm.trans hc

theorem startStream_rejected {d d' : Daemon} {r : StartRequest} {e : Status}
    (h : startStream env d r = (.error e, d')) (he : e.code = .invalidArgument) :
    ∃ e', startWithLogStream env d r = (.error e', d') ∧ e'.code = .invalidArgument := by
  simp only [startStream] at h
  split at h
  · next e' d'' hs =>
    cases h
    refine ⟨e', hs, ?_⟩
    cases e' <;> exact he
  · cases h

theorem start_rejected_unchanged {d : Daemon} {r : StartRequest} {forceRestart : Bool}
    (h : Rejected (startProcessImpl env d r forceRestart).1) :
    Unchanged d (startProcessImpl env d r forceRestart).2 ↔
      Harmless env d (.start r forceRestart) := by
  obtain ⟨e, he, hcode⟩ := h
  simp only [startProcessImpl] at he ⊢
  cases hv : validateStart r with
  | error e' => exact iff_of_true (unchanged_self d) (Or.inl (by simp [hv]))
  | ok u =>
    simp only [hv] at he ⊢
    cases ht : (if forceRestart then d.lookup env r.name r.project else none) with
    | none =>
      simp only [ht] at he ⊢
      obtain ⟨e', hs, -⟩ := startStream_rejected env (Prod.ext he rfl) hcode
      rw [startWithLogStream_unchanged env hs]
      simp only [Harmless, hv, ne_eq, not_true_eq_false, false_or]
      refine ⟨fun hn => ⟨fun hf => by simpa [hf] using ht, hn⟩, fun hn => hn.2⟩
    | some existing =>
      have hf : forceRestart = true ∧ d.lookup env r.name r.project = some existing := by
        cases forceRestart <;> simp_all
      simp only [ht] at he ⊢
      cases hs : stopProcess env d existing.id r.project true with
      | mk result d' =>
        rw [hs] at he
        cases result with
        | error e' =>
          cases he
          cases hcode
        | ok u =>
          obtain ⟨p, hp, hgone⟩ := stopProcess_ok env hs
          obtain ⟨e', hs', -⟩ := startStream_rejected env (Prod.ext he rfl) hcode
          refine iff_of_false (fun hu => ?_) ?_
          · exact hgone (startWithLogStream_shrinks env hs' ((hu.processes p).mpr hp))
          · rintro (hn | ⟨hn, -⟩)
            · exact hn hv
            · cases hf.2.symm.trans (hn hf.1)

theorem restartWithLogStream_rejected {d d' : Daemon} {nameOrId project : String}
    {w : Option String} {t : Option Nat} {e : McprocdError}
    (h : restartWithLogStream env d nameOrId project w t = (.error e, d'))
    (he : e.code = .invalidArgument) : ∃ p ∈ d.registry.processes, p ∉ d'.registry.processes := by
  simp only [restartWithLogStream] at h
  split at h
  · cases h
    cases he
  · next p hp =>
    split at h
    · next e' d'' hs =>
      cases h
      exact absurd he (stopProcess_error env hs)
    · next d'' hs =>
      obtain ⟨q, hq, hgone⟩ := stopProcess_ok env hs
      exact ⟨q, hq, fun hmem => hgone (startWithLogStream_shrinks env h hmem)⟩

theorem restart_rejected_unchanged {d : Daemon} {nameOrId project : String}
    {w : Option String} {t : Option Nat}
    (h : Rejected (restartProcessImpl env d nameOrId project w t).1) :
    Unchanged d (restartProcessImpl env d nameOrId project w t).2 ↔
      Harmless env d (.restart nameOrId project w t) := by
  obtain ⟨e, he, hcode⟩ := h
  simp only [restartProcessImpl] at he ⊢
  cases hv : validateWaitTimeout t with
  | error e' => exact iff_of_true (unchanged_self d) (by simp [Harmless, hv])
  | ok u =>
    simp only [hv] at he ⊢
    refine iff_of_false (fun hu => ?_) (fun hn => hn hv)
    cases hs : restartWithLogStream env d nameOrId project w t with
    | mk result d' =>
      rw [hs] at he hu
      cases result with
      | ok p => cases he
      | error e' =>
        cases he
        obtain ⟨p, hp, hgone⟩ := restartWithLogStream_rejected env hs hcode
        exact hgone ((hu.processes p).mpr hp)

theorem rejected_unchanged_iff {d : Daemon} {q : Request} (h : Rejected (handle env d q).1) :
    Unchanged d (handle env d q).2 ↔ Harmless env d q := by
  cases q with
  | start r forceRestart => exact start_rejected_unchanged env h
  | restart nameOrId project w t => exact restart_rejected_unchanged env h

def quietEnv : Env where
  isUuid _ := false
  compileRegex pattern := if pattern = "[" then .error "unclosed character class" else .ok ()
  stopEnd _ := .gone
  retryEnd _ := .gone
  spawn _ _ := .ok ⟨7, "a", .running⟩

def webDaemon : Daemon where
  registry := Registry.new.addProcess (ProxyInfo.new Manager.webRequest "a" 7) |>.reserveName
    Manager.webRequest.key
  status _ := .running
  signals := []

theorem rejected_unchanged_iff_web :
    Unchanged webDaemon (handle quietEnv webDaemon (.restart "web" "app" none (some 3601))).2 :=
  (rejected_unchanged_iff quietEnv ⟨⟨.invalidArgument, "wait_timeout must not exceed 3600 seconds"⟩,
    by decide, by decide⟩).mpr (by decide : validateWaitTimeout (some 3601) ≠ .ok ())

theorem rejected_restart_stops_web :
    ¬ ∀ (env : Env) (d : Daemon) (q : Request), Rejected (handle env d q).1 →
      Unchanged d (handle env d q).2 := by
  intro hall
  have hu := hall quietEnv webDaemon (.restart "web" "app" (some "[") none)
    ⟨⟨.invalidArgument, "Invalid regex pattern [: unclosed character class"⟩, by decide, by decide⟩
  have hsent : (handle quietEnv webDaemon (.restart "web" "app" (some "[") none)).2.signals =
      [("a", .sigterm)] := by decide
  cases hsent.symm.trans hu.signals

end ProcessHandlers
