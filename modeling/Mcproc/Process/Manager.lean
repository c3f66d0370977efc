import Mathlib.Logic.Function.Basic
import Mcproc.Lib.Machine
import Mcproc.Process.Registry

inductive ProcessStatus where
  | starting
  | running
  | stopping
  | stopped
  | failed
  deriving DecidableEq, Repr

def ProcessStatus.active : ProcessStatus → Bool
  | .starting | .running => true
  | _ => false

namespace Manager

inductive LeaderState where
  | running
  | zombie
  | reaped
  deriving DecidableEq, Repr

structure Group where
  pid : Nat
  leader : LeaderState
  others : Nat
  zombies : Nat
  deriving DecidableEq, Repr

namespace Group

def Live (g : Group) : Prop := g.leader = .running ∨ 0 < g.others

def Present (g : Group) : Prop := g.leader ≠ .reaped ∨ 0 < g.others ∨ 0 < g.zombies

instance (g : Group) : Decidable g.Live := inferInstanceAs (Decidable (_ ∨ _))

instance (g : Group) : Decidable g.Present := inferInstanceAs (Decidable (_ ∨ _))

theorem Live.present {g : Group} (h : g.Live) : g.Present := by
  rcases h with h | h
  · exact Or.inl (by simp [h])
  · exact Or.inr (Or.inl h)

def spawn (pid : Nat) : Group := ⟨pid, .running, 0, 0⟩
def leaderExit (g : Group) : Group := { g with leader := .zombie }
def leaderReap (g : Group) : Group := { g with leader := .reaped }
def fork (g : Group) : Group := { g with others := g.others + 1 }
def memberExit (g : Group) : Group := { g with others := g.others - 1, zombies := g.zombies + 1 }
def memberReap (g : Group) : Group := { g with zombies := g.zombies - 1 }

end Group

inductive Signal where
  | sigterm
  | sigkill
  deriving DecidableEq, Repr

inductive ProcessEvent where
  | starting (id : String)
  | started (id : String)
  | stopping (id : String)
  | stopped (id : String) (exitCode : Option Int)
  | failed (id : String)
  deriving DecidableEq, Repr

inductive Task where
  | start (r : StartRequest)
  | forceRestart (r : StartRequest)
  | stop (nameOrId project : String) (force tolerant : Bool)
  | restart (nameOrId project : String) (waitForLog : Option String) (waitTimeout : Option Nat)
  | awaitRemoval (name project : String)
  | clean (project : String) (force : Bool)
  | cleanAll (logDirs : List String) (force : Bool)
  | syncAll
  | sync (p : ProxyInfo)
  deriving DecidableEq

structure StopCall where
  proxy : ProxyInfo
  force : Bool
  tolerant : Bool
  retry : Bool
  deriving DecidableEq

def StopCall.forced (c : StopCall) : Bool := c.force || c.retry

inductive StopPhase where
  | publish
  | setStopping
  | sigterm
  | poll
  | pollSleep
  | sigkill
  | confirm
  | confirmPs
  | confirmSleep
  | setStopped
  | remove
  | release (k : ProcessKey)
  | linger
  deriving DecidableEq

inductive SyncPhase where
  | exitCode
  | exitStatus (code : Int)
  | probe
  | probeStatus (alive : Bool)
  | store (status : ProcessStatus)
  deriving DecidableEq

inductive Pc where
  | idle
  | ready
  | startLookup (r : StartRequest)
  | startStatus (r : StartRequest) (existing : ProxyInfo)
  | startRemove (r : StartRequest) (existing : ProxyInfo)
  | startRelease (r : StartRequest) (k : ProcessKey)
  | startReserve (r : StartRequest)
  | startLaunch (r : StartRequest)
  | startDrop (k : ProcessKey)
  | startAdd (r : StartRequest) (pid group : Nat)
  | startKeep (p : ProxyInfo)
  | startPublish (p : ProxyInfo)
  | startMonitor (p : ProxyInfo)
  | startWait (p : ProxyInfo)
  | startReport (p : ProxyInfo)
  | startStarted (p : ProxyInfo)
  | startPorts (p : ProxyInfo)
  | sync (p : ProxyInfo) (ofStart : Bool) (phase : SyncPhase)
  | stopLookup (nameOrId project : String) (force tolerant : Bool)
  | stop (c : StopCall) (phase : StopPhase)
  | awaitRemoval (name project : String)
  deriving DecidableEq

structure Call where
  pc : Pc
  rest : List Task
  deriving DecidableEq

inductive MonitorPc where
  | absent
  | waiting
  | reaped (code : Option Int)
  | exitStored (code : Option Int)
  | waitError
  | publishing (e : ProcessEvent)
  | done
  deriving DecidableEq

structure State where
  registry : Registry
  status : String → ProcessStatus
  exitCode : String → Option Int
  monitor : String → MonitorPc
  groups : List Group
  groupOf : String → Option Nat
  signals : List (String × Signal × Option Nat)
  events : List ProcessEvent
  calls : Nat → Call

def State.initial : State where
  registry := .new
  status := fun _ => .starting
  exitCode := fun _ => none
  monitor := fun _ => .absent
  groups := []
  groupOf := fun _ => none
  signals := []
  events := []
  calls := fun _ => ⟨.idle, []⟩

namespace State

def goto (s : State) (i : Nat) (pc : Pc) : State :=
  { s with calls := Function.update s.calls i ⟨pc, (s.calls i).rest⟩ }

def setStatus (s : State) (id : String) (status : ProcessStatus) : State :=
  { s with status := Function.update s.status id status }

def setMonitor (s : State) (id : String) (pc : MonitorPc) : State :=
  { s with monitor := Function.update s.monitor id pc }

def setRegistry (s : State) (r : Registry) : State := { s with registry := r }

def publish (s : State) (e : ProcessEvent) : State := { s with events := s.events ++ [e] }

def modifyGroup (s : State) (g : Nat) (f : Group → Group) : State :=
  { s with groups := s.groups.modify g f }

-- killpg reaches whichever group carries the number at that moment.
def receiver (s : State) (pid : Nat) : Option Nat :=
  s.groups.findIdx? fun g => decide (g.pid = pid ∧ g.Present)

def signal (s : State) (p : ProxyInfo) (sig : Signal) : State :=
  { s with signals := s.signals ++ [(p.id, sig, s.receiver p.pid)] }

def launch (s : State) (pid : Nat) : State := { s with groups := s.groups ++ [Group.spawn pid] }

def add (s : State) (p : ProxyInfo) (group : Nat) : State :=
  { s with
    registry := s.registry.addProcess p
    status := Function.update s.status p.id .starting
    exitCode := Function.update s.exitCode p.id none
    groupOf := Function.update s.groupOf p.id (some group) }

end State

def restartRequest (p : ProxyInfo) (waitForLog : Option String) (waitTimeout : Option Nat) :
    StartRequest where
  name := p.name
  project := p.project
  cmd := p.cmd
  args := p.args
  cwd := p.cwd
  env := p.env
  waitForLog := waitForLog.or p.waitForLog
  waitTimeout := waitTimeout.or p.waitTimeout
  toolchain := p.toolchain

def validWaitTimeout (t : Option Nat) : Bool := t.all (· ≤ 3600)

-- What the gRPC handlers check before they call the manager.
def Task.admitted : Task → Prop
  | .start r | .forceRestart r =>
    validWaitTimeout r.waitTimeout ∧ Validation.ValidProcess r.name ∧ Validation.ValidProject r.project
  | .stop _ _ _ tolerant => tolerant = false
  | .restart _ _ _ t => validWaitTimeout t
  | .clean _ _ | .cleanAll _ _ | .syncAll => True
  | .awaitRemoval _ _ | .sync _ => False

instance : ∀ t : Task, Decidable t.admitted
  | .start _ | .forceRestart _ => inferInstanceAs (Decidable (_ ∧ _))
  | .stop _ _ _ _ | .restart _ _ _ _ => inferInstanceAs (Decidable (_ = _))
  | .clean _ _ | .cleanAll _ _ | .syncAll => isTrue trivial
  | .awaitRemoval _ _ | .sync _ => isFalse id

section
variable (isUuid : String → Bool)

def Task.run (s : State) (rest : List Task) : Task → Call
  | .start r => ⟨.startLookup r, rest⟩
  | .forceRestart r =>
    match s.registry.getProcessByNameOrIdWithProject isUuid r.name (some r.project) with
    | some existing =>
      ⟨.ready, .stop existing.id r.project true false :: .awaitRemoval r.name r.project ::
        .start r :: rest⟩
    | none => ⟨.ready, .start r :: rest⟩
  | .stop n project force tolerant => ⟨.stopLookup n project force tolerant, rest⟩
  | .restart n project w t =>
    match s.registry.getProcessByNameOrIdWithProject isUuid n (some project) with
    | some p =>
      ⟨.ready, .stop n p.project false false :: .awaitRemoval p.name p.project ::
        .start (restartRequest p w t) :: rest⟩
    | none => ⟨.idle, rest⟩
  | .awaitRemoval name project => ⟨.awaitRemoval name project, rest⟩
  | .clean project force =>
    ⟨.ready, (s.registry.getProcessesByProject project).map
      (fun p => .stop p.id project force true) ++ rest⟩
  | .cleanAll logDirs force =>
    ⟨.ready, ((s.registry.getAllProjects ++ logDirs).dedup.mergeSort).map
      (fun project => .clean project force) ++ rest⟩
  | .syncAll =>
    ⟨.ready, (s.registry.processes.filter fun p => (s.status p.id).active).map .sync ++ rest⟩
  | .sync p => ⟨.sync p false .exitCode, rest⟩
end

def afterLookup (r : StartRequest) : Option ProxyInfo → Pc
  | none => .startReserve r
  | some existing => .startStatus r existing

def afterStatus (r : StartRequest) (existing : ProxyInfo) : ProcessStatus → Pc
  | .failed | .stopped => .startRemove r existing
  | _ => .idle

def afterRemove (r : StartRequest) : Option ProxyInfo → Pc
  | some removed => .startRelease r removed.key
  | none => .startReserve r

def afterSync (p : ProxyInfo) (ofStart : Bool) : Pc := if ofStart then .startReport p else .ready

def afterExitStatus (p : ProxyInfo) (ofStart : Bool) (code : Int) (status : ProcessStatus) : Pc :=
  if status.active then .sync p ofStart (.store (if code = 0 then .stopped else .failed))
  else afterSync p ofStart

def afterProbeStatus (p : ProxyInfo) (ofStart alive : Bool) (status : ProcessStatus) : Pc :=
  if alive then
    if status = .starting then .sync p ofStart (.store .running) else afterSync p ofStart
  else if status.active then .sync p ofStart (.store .failed) else afterSync p ofStart

def afterExitCode (p : ProxyInfo) (ofStart : Bool) : Option Int → Pc
  | some code => .sync p ofStart (.exitStatus code)
  | none => .sync p ofStart .probe

def afterReport (p : ProxyInfo) (status : ProcessStatus) : Pc :=
  if status = .running then .startStarted p else .startPorts p

def afterStopError (tolerant : Bool) : Pc := if tolerant then .ready else .idle

def afterStopLookup (force tolerant : Bool) : Option ProxyInfo → Pc
  | some p => .stop ⟨p, force, tolerant, false⟩ .publish
  | none => afterStopError tolerant

def afterStopRemove (c : StopCall) : Option ProxyInfo → Pc
  | some removed => .stop c (.release removed.key)
  | none => .stop c .linger

def afterStopTimeout (c : StopCall) : Pc :=
  if c.forced then afterStopError c.tolerant else .stop { c with retry := true } .setStopping

-- The phases of `ProxyInfo::stop` that are suspended at an await.
def StopPhase.suspended : StopPhase → Bool
  | .pollSleep | .confirmPs | .confirmSleep => true
  | _ => false

def Pc.droppable : Pc → Bool
  | .startWait _ | .startPorts _ | .awaitRemoval _ _ | .stop _ .linger => true
  | .sync _ _ .probe => true
  | .stop _ phase => phase.suspended
  | _ => false

inductive Action where
  | begin (i : Nat) (t : Task)
  | task (i : Nat) (t : Task) (rest : List Task)
  | finish (i : Nat)
  | drop (i : Nat) (pc : Pc)
  | startLookup (i : Nat) (r : StartRequest)
  | startStatus (i : Nat) (r : StartRequest) (existing : ProxyInfo)
  | startRemove (i : Nat) (r : StartRequest) (existing : ProxyInfo)
  | startRelease (i : Nat) (r : StartRequest) (k : ProcessKey)
  | startReserve (i : Nat) (r : StartRequest)
  | startReject (i : Nat) (r : StartRequest)
  | startSpawn (i : Nat) (r : StartRequest) (pid : Nat)
  | startDrop (i : Nat) (k : ProcessKey)
  | startAdd (i : Nat) (r : StartRequest) (pid group : Nat) (id : String)
  | startKeep (i : Nat) (p : ProxyInfo)
  | startPublish (i : Nat) (p : ProxyInfo)
  | startMonitor (i : Nat) (p : ProxyInfo)
  | startWake (i : Nat) (p : ProxyInfo)
  | startReport (i : Nat) (p : ProxyInfo)
  | startStarted (i : Nat) (p : ProxyInfo)
  | startReturn (i : Nat) (p : ProxyInfo)
  | syncExitCode (i : Nat) (p : ProxyInfo) (ofStart : Bool)
  | syncExitStatus (i : Nat) (p : ProxyInfo) (ofStart : Bool) (code : Int)
  | syncProbe (i : Nat) (p : ProxyInfo) (ofStart alive : Bool)
  | syncProbeError (i : Nat) (p : ProxyInfo) (ofStart : Bool)
  | syncProbeStatus (i : Nat) (p : ProxyInfo) (ofStart alive : Bool)
  | syncStore (i : Nat) (p : ProxyInfo) (ofStart : Bool) (status : ProcessStatus)
  | stopLookup (i : Nat) (nameOrId project : String) (force tolerant : Bool)
  | stopPublish (i : Nat) (c : StopCall)
  | stopSetStopping (i : Nat) (c : StopCall)
  | stopSigterm (i : Nat) (c : StopCall) (sent alive : Bool)
  | stopPoll (i : Nat) (c : StopCall) (alive : Bool)
  | stopPollElapsed (i : Nat) (c : StopCall)
  | stopPollWake (i : Nat) (c : StopCall)
  | stopSigkill (i : Nat) (c : StopCall)
  | stopConfirm (i : Nat) (c : StopCall) (alive : Bool)
  | stopConfirmElapsed (i : Nat) (c : StopCall)
  | stopConfirmPs (i : Nat) (c : StopCall) (survivors : Bool)
  | stopConfirmWake (i : Nat) (c : StopCall)
  | stopTimeout (i : Nat) (c : StopCall) (phase : StopPhase)
  | stopSetStopped (i : Nat) (c : StopCall)
  | stopRemove (i : Nat) (c : StopCall)
  | stopRelease (i : Nat) (c : StopCall) (k : ProcessKey)
  | stopReturn (i : Nat) (c : StopCall)
  | removalSeen (i : Nat) (name project : String)
  | removalTimeout (i : Nat) (name project : String)
  | monitorReap (id : String) (group : Nat) (code : Option Int)
  | monitorError (id : String)
  | monitorExitCode (id : String) (code : Option Int)
  | monitorStatus (id : String) (code : Option Int)
  | monitorFailed (id : String)
  | monitorPublish (id : String) (e : ProcessEvent)
  | leaderExit (group : Nat)
  | fork (group : Nat)
  | memberExit (group : Nat)
  | memberReap (group : Nat)
  deriving DecidableEq

def State.pcIs (s : State) (i : Nat) (pc : Pc) : Prop := (s.calls i).pc = pc

instance (s : State) (i : Nat) (pc : Pc) : Decidable (s.pcIs i pc) := inferInstanceAs (Decidable (_ = _))

section
variable (isUuid : String → Bool) (compileRegex : String → Except String Unit)

def enabled (s : State) : Action → Prop
  | .begin i t => s.pcIs i .idle ∧ t.admitted
  | .task i t rest => s.calls i = ⟨.ready, t :: rest⟩
  | .finish i => s.calls i = ⟨.ready, []⟩
  | .drop i pc => s.pcIs i pc ∧ pc.droppable
  | .startLookup i r => s.pcIs i (.startLookup r)
  | .startStatus i r e => s.pcIs i (.startStatus r e)
  | .startRemove i r e => s.pcIs i (.startRemove r e)
  | .startRelease i r k => s.pcIs i (.startRelease r k)
  | .startReserve i r => s.pcIs i (.startReserve r)
  | .startReject i r => s.pcIs i (.startLaunch r)
  | .startSpawn i r pid =>
    s.pcIs i (.startLaunch r) ∧ (Launcher.checkLaunch compileRegex r).isOk ∧
      ∀ g ∈ s.groups, g.Present → g.pid ≠ pid
  | .startDrop i k => s.pcIs i (.startDrop k)
  | .startAdd i r pid group id => s.pcIs i (.startAdd r pid group) ∧ s.groupOf id = none
  | .startKeep i p => s.pcIs i (.startKeep p)
  | .startPublish i p => s.pcIs i (.startPublish p)
  | .startMonitor i p => s.pcIs i (.startMonitor p)
  | .startWake i p => s.pcIs i (.startWait p)
  | .startReport i p => s.pcIs i (.startReport p)
  | .startStarted i p => s.pcIs i (.startStarted p)
  | .startReturn i p => s.pcIs i (.startPorts p)
  | .syncExitCode i p f => s.pcIs i (.sync p f .exitCode)
  | .syncExitStatus i p f code => s.pcIs i (.sync p f (.exitStatus code))
  | .syncProbe i p f _ => s.pcIs i (.sync p f .probe)
  | .syncProbeError i p f => s.pcIs i (.sync p f .probe)
  | .syncProbeStatus i p f alive => s.pcIs i (.sync p f (.probeStatus alive))
  | .syncStore i p f status => s.pcIs i (.sync p f (.store status))
  | .stopLookup i n project force tolerant => s.pcIs i (.stopLookup n project force tolerant)
  | .stopPublish i c => s.pcIs i (.stop c .publish)
  | .stopSetStopping i c => s.pcIs i (.stop c .setStopping)
  | .stopSigterm i c _ _ => s.pcIs i (.stop c .sigterm)
  | .stopPoll i c _ => s.pcIs i (.stop c .poll)
  | .stopPollElapsed i c => s.pcIs i (.stop c .poll)
  | .stopPollWake i c => s.pcIs i (.stop c .pollSleep)
  | .stopSigkill i c => s.pcIs i (.stop c .sigkill)
  | .stopConfirm i c _ => s.pcIs i (.stop c .confirm)
  | .stopConfirmElapsed i c => s.pcIs i (.stop c .confirm)
  | .stopConfirmPs i c _ => s.pcIs i (.stop c .confirmPs)
  | .stopConfirmWake i c => s.pcIs i (.stop c .confirmSleep)
  | .stopTimeout i c phase => s.pcIs i (.stop c phase) ∧ phase.suspended
  | .stopSetStopped i c => s.pcIs i (.stop c .setStopped)
  | .stopRemove i c => s.pcIs i (.stop c .remove)
  | .stopRelease i c k => s.pcIs i (.stop c (.release k))
  | .stopReturn i c => s.pcIs i (.stop c .linger)
  | .removalSeen i name project =>
    s.pcIs i (.awaitRemoval name project) ∧
      s.registry.getProcessByNameOrIdWithProject isUuid name (some project) = none
  | .removalTimeout i name project => s.pcIs i (.awaitRemoval name project)
  | .monitorReap id g _ =>
    s.monitor id = .waiting ∧ s.groupOf id = some g ∧ (s.groups[g]?.map (·.leader)) = some .zombie
  | .monitorError id => s.monitor id = .waiting
  | .monitorExitCode id code => s.monitor id = .reaped code
  | .monitorStatus id code => s.monitor id = .exitStored code
  | .monitorFailed id => s.monitor id = .waitError
  | .monitorPublish id e => s.monitor id = .publishing e
  | .leaderExit g => (s.groups[g]?.map (·.leader)) = some .running
  | .fork g => (s.groups[g]?.map fun g => decide g.Live) = some true
  | .memberExit g => (s.groups[g]?.map fun g => decide (0 < g.others)) = some true
  | .memberReap g => (s.groups[g]?.map fun g => decide (0 < g.zombies)) = some true

def next (s : State) : Action → State
  | .begin i t => { s with calls := Function.update s.calls i ⟨.ready, [t]⟩ }
  | .task i t rest => { s with calls := Function.update s.calls i (t.run isUuid s rest) }
  | .finish i => s.goto i .idle
  | .drop i _ => s.goto i .idle
  | .startLookup i r =>
    s.goto i (afterLookup r (s.registry.getProcessByNameWithProject r.name r.project))
  | .startStatus i r e => s.goto i (afterStatus r e (s.status e.id))
  | .startRemove i r e =>
    (s.setRegistry (s.registry.dropProcess e.id)).goto i
      (afterRemove r (s.registry.getProcessById e.id))
  | .startRelease i r k => (s.setRegistry (s.registry.releaseName k)).goto i (.startReserve r)
  | .startReserve i r =>
    (s.setRegistry (s.registry.tryReserveName r.key).2).goto i
      (if (s.registry.tryReserveName r.key).1 then .startLaunch r else .idle)
  | .startReject i r => s.goto i (.startDrop r.key)
  | .startSpawn i r pid => (s.launch pid).goto i (.startAdd r pid s.groups.length)
  | .startDrop i k => (s.setRegistry (s.registry.releaseName k)).goto i .idle
  | .startAdd i r pid group id =>
    (s.add (ProxyInfo.new r id pid) group).goto i (.startKeep (ProxyInfo.new r id pid))
  | .startKeep i p => s.goto i (.startPublish p)
  | .startPublish i p => (s.publish (.starting p.id)).goto i (.startMonitor p)
  | .startMonitor i p => (s.setMonitor p.id .waiting).goto i (.startWait p)
  | .startWake i p => s.goto i (.sync p true .exitCode)
  | .startReport i p => s.goto i (afterReport p (s.status p.id))
  | .startStarted i p => (s.publish (.started p.id)).goto i (.startPorts p)
  | .startReturn i _ => s.goto i .ready
  | .syncExitCode i p f => s.goto i (afterExitCode p f (s.exitCode p.id))
  | .syncExitStatus i p f code => s.goto i (afterExitStatus p f code (s.status p.id))
  | .syncProbe i p f alive => s.goto i (.sync p f (.probeStatus alive))
  | .syncProbeError i p f => s.goto i (afterSync p f)
  | .syncProbeStatus i p f alive => s.goto i (afterProbeStatus p f alive (s.status p.id))
  | .syncStore i p f status => (s.setStatus p.id status).goto i (afterSync p f)
  | .stopLookup i n project force tolerant =>
    s.goto i (afterStopLookup force tolerant
      (s.registry.getProcessByNameOrIdWithProject isUuid n (some project)))
  | .stopPublish i c => (s.publish (.stopping c.proxy.id)).goto i (.stop c .setStopping)
  | .stopSetStopping i c =>
    (s.setStatus c.proxy.id .stopping).goto i (.stop c (if c.forced then .sigkill else .sigterm))
  | .stopSigterm i c sent alive =>
    (s.signal c.proxy .sigterm).goto i (.stop c (if sent || alive then .poll else .setStopped))
  | .stopPoll i c alive => s.goto i (.stop c (if alive then .pollSleep else .setStopped))
  | .stopPollElapsed i c => s.goto i (.stop c .sigkill)
  | .stopPollWake i c => s.goto i (.stop c .poll)
  | .stopSigkill i c => (s.signal c.proxy .sigkill).goto i (.stop c .confirm)
  | .stopConfirm i c alive => s.goto i (.stop c (if alive then .confirmPs else .setStopped))
  | .stopConfirmElapsed i c => s.goto i (afterStopError c.tolerant)
  | .stopConfirmPs i c survivors =>
    s.goto i (.stop c (if survivors then .confirmSleep else .setStopped))
  | .stopConfirmWake i c => s.goto i (.stop c .confirm)
  | .stopTimeout i c _ => s.goto i (afterStopTimeout c)
  | .stopSetStopped i c => (s.setStatus c.proxy.id .stopped).goto i (.stop c .remove)
  | .stopRemove i c =>
    (s.setRegistry (s.registry.dropProcess c.proxy.id)).goto i
      (afterStopRemove c (s.registry.getProcessById c.proxy.id))
  | .stopRelease i c k => (s.setRegistry (s.registry.releaseName k)).goto i (.stop c .linger)
  | .stopReturn i _ => s.goto i .ready
  | .removalSeen i _ _ => s.goto i .ready
  | .removalTimeout i _ _ => s.goto i .ready
  | .monitorReap id g code => (s.modifyGroup g Group.leaderReap).setMonitor id (.reaped code)
  | .monitorError id => s.setMonitor id .waitError
  | .monitorExitCode id code =>
    { s with exitCode := Function.update s.exitCode id code }.setMonitor id (.exitStored code)
  | .monitorStatus id code =>
    (s.setStatus id (if code = some 0 then .stopped else .failed)).setMonitor id
      (.publishing (.stopped id code))
  | .monitorFailed id => (s.setStatus id .failed).setMonitor id (.publishing (.failed id))
  | .monitorPublish id e => (s.publish e).setMonitor id .done
  | .leaderExit g => s.modifyGroup g Group.leaderExit
  | .fork g => s.modifyGroup g Group.fork
  | .memberExit g => s.modifyGroup g Group.memberExit
  | .memberReap g => s.modifyGroup g Group.memberReap

def machine : Machine State Action where
  init := .initial
  enabled := enabled isUuid compileRegex
  next := next isUuid

instance (s : State) (a : Action) : Decidable ((machine isUuid compileRegex).enabled s a) := by
  cases a <;> dsimp only [machine, enabled] <;> infer_instance

end

def webRequest : StartRequest where
  name := "web"
  project := "app"
  cmd := some "serve"
  args := []
  cwd := none
  env := some []
  waitForLog := none
  waitTimeout := none
  toolchain := none

def startRun (i : Nat) (r : StartRequest) (pid : Nat) (id : String) : List Action :=
  let p := ProxyInfo.new r id pid
  [.begin i (.start r), .task i (.start r) [], .startLookup i r, .startReserve i r,
   .startSpawn i r pid, .startAdd i r pid 0 id, .startKeep i p, .startPublish i p,
   .startMonitor i p]

example : (machine (fun _ => false) (fun _ => .ok ())).Legal .initial
    (startRun 0 webRequest 7 "a") := by
  decide

end Manager
