import Mathlib.Logic.Function.Basic
import Mcproc.Lib.Machine

namespace PidLock

inductive DaemonPhase where
  | absent
  | spawned
  | opened (inode : Nat)
  | locked (inode : Nat)
  | truncated (inode : Nat)
  | running (inode : Nat)
  | stopping (inode : Nat)
  | unlinked (inode : Nat)
  | exited
  deriving DecidableEq, Repr

inductive GrpcPhase where
  | off
  | removeOld
  | bind
  | serving
  | failed
  deriving DecidableEq, Repr

structure Daemon where
  phase : DaemonPhase
  grpc : GrpcPhase
  term : Bool
  deriving DecidableEq, Repr

def DaemonPhase.alive : DaemonPhase → Bool
  | .absent | .exited => false
  | _ => true

def DaemonPhase.locks : DaemonPhase → Option Nat
  | .locked i | .truncated i | .running i | .stopping i | .unlinked i => some i
  | _ => none

inductive SocketFile where
  | absent
  | stale
  | bound (pid : Nat)
  deriving DecidableEq, Repr

inductive Subcommand where
  | start
  | stop
  | restart
  | status
  deriving DecidableEq, Repr

inductive Check where
  | first
  | stopped (pid left : Nat)
  deriving DecidableEq, Repr

inductive CliPhase where
  | idle
  | checkSocket (cmd : Subcommand) (k : Check)
  | checkPid (cmd : Subcommand) (k : Check) (connected : Bool)
  | probe (cmd : Subcommand) (k : Check) (pid : Nat)
  | unlinkStale (cmd : Subcommand)
  | removeSocket (cmd : Subcommand)
  | readTarget (cmd : Subcommand)
  | identify (cmd : Subcommand) (pid : Nat)
  | sigterm (cmd : Subcommand) (pid : Nat)
  | sleep (cmd : Subcommand) (pid left : Nat)
  | sigkill (cmd : Subcommand) (pid : Nat)
  | unlinkKilled (cmd : Subcommand)
  | spawn
  | awaitStart (child left : Nat)
  | clientRead
  | clientProbe (pid : Nat)
  | clientSpawn
  deriving DecidableEq, Repr

structure State where
  path : Option Nat
  content : Nat → Option Nat
  nextInode : Nat
  owner : Nat → Option Nat
  socket : SocketFile
  daemon : Nat → Daemon
  cli : Nat → CliPhase

def State.initial : State where
  path := none
  content := fun _ => none
  nextInode := 0
  owner := fun _ => none
  socket := .absent
  daemon := fun _ => ⟨.absent, .off, false⟩
  cli := fun _ => .idle

namespace State

def pidFile (s : State) : Option Nat := s.path.bind s.content

def connectable (s : State) : Bool := s.socket ≠ .absent && s.socket ≠ .stale

def setDaemon (s : State) (d : Nat) (x : Daemon) : State :=
  { s with daemon := Function.update s.daemon d x }

def setPhase (s : State) (d : Nat) (phase : DaemonPhase) : State :=
  s.setDaemon d { s.daemon d with phase := phase }

def setGrpc (s : State) (d : Nat) (grpc : GrpcPhase) : State :=
  s.setDaemon d { s.daemon d with grpc := grpc }

def goto (s : State) (c : Nat) (phase : CliPhase) : State :=
  { s with cli := Function.update s.cli c phase }

def openPidFile (s : State) (d : Nat) : State :=
  match s.path with
  | some i => s.setPhase d (.opened i)
  | none =>
    { s with
      path := some s.nextInode
      content := Function.update s.content s.nextInode none
      nextInode := s.nextInode + 1 }.setPhase d (.opened s.nextInode)

def acquire (s : State) (d i : Nat) : State := { s with owner := Function.update s.owner i (some d) }

def write (s : State) (i : Nat) (pid : Option Nat) : State :=
  { s with content := Function.update s.content i pid }

def unlinkPidFile (s : State) : State := { s with path := none }

def removeSocketFile (s : State) : State := { s with socket := .absent }

-- Whatever ends the process, the kernel drops its locks and closes its socket.
def exit (s : State) (d : Nat) : State :=
  { s with
    owner := fun i => if s.owner i = some d then none else s.owner i
    socket := if s.socket = SocketFile.bound d then .stale else s.socket }.setDaemon d ⟨.exited, .off, false⟩

def spawnDaemon (s : State) (d : Nat) : State := s.setDaemon d ⟨.spawned, .off, false⟩

-- SIGTERM ends a daemon that has no handler yet, and one that is stopping no longer listens.
def terminate (s : State) (d : Nat) : State :=
  match (s.daemon d).phase with
  | .running _ => s.setDaemon d { s.daemon d with term := true }
  | .spawned | .opened _ | .locked _ | .truncated _ => s.exit d
  | .absent | .exited | .stopping _ | .unlinked _ => s

def kill (s : State) (d : Nat) : State := if (s.daemon d).phase.alive then s.exit d else s

end State

def afterFirstCheck (running : Bool) (pid : Option Nat) : Subcommand → CliPhase
  | .start =>
    if running then .idle else if pid.isSome then .unlinkStale .start else .removeSocket .start
  | .stop =>
    if running then .readTarget .stop
    else if pid.isSome then .unlinkStale .stop else .removeSocket .stop
  | .restart => if running then .readTarget .restart else .spawn
  | .status =>
    if running then .clientRead else if pid.isSome then .unlinkStale .status else .idle

def afterStop : Subcommand → CliPhase
  | .restart => .removeSocket .restart
  | _ => .idle

def afterCheck (cmd : Subcommand) (running : Bool) (pid : Option Nat) : Check → CliPhase
  | .first => afterFirstCheck running pid cmd
  | .stopped target left => if running then .sleep cmd target left else afterStop cmd

def afterPid (cmd : Subcommand) (k : Check) (connected : Bool) (pid : Option Nat) : CliPhase :=
  if connected then afterCheck cmd true pid k
  else
    match pid with
    | some pid => .probe cmd k pid
    | none => afterCheck cmd false none k

def afterSocket : Subcommand → CliPhase
  | .start | .restart => .spawn
  | .stop | .status => .idle

inductive Action where
  | launch (d : Nat)
  | open (d : Nat)
  | lock (d i : Nat)
  | lockFail (d i : Nat)
  | truncate (d i : Nat)
  | writePid (d i : Nat)
  | grpcRemove (d : Nat)
  | grpcBind (d : Nat)
  | grpcFail (d : Nat)
  | interrupt (d i : Nat)
  | shutdown (d i : Nat)
  | unlink (d i : Nat)
  | exit (d i : Nat)
  | die (d : Nat)
  | begin (c : Nat) (cmd : Subcommand)
  | checkSocket (c : Nat) (cmd : Subcommand) (k : Check)
  | checkPid (c : Nat) (cmd : Subcommand) (k : Check) (connected : Bool)
  | probe (c : Nat) (cmd : Subcommand) (k : Check) (pid : Nat) (answer : Bool)
  | unlinkStale (c : Nat) (cmd : Subcommand)
  | removeSocket (c : Nat) (cmd : Subcommand)
  | readTarget (c : Nat) (cmd : Subcommand)
  | identify (c : Nat) (cmd : Subcommand) (pid : Nat) (answer : Bool)
  | sigterm (c : Nat) (cmd : Subcommand) (pid : Nat)
  | sleep (c : Nat) (cmd : Subcommand) (pid left : Nat)
  | giveUp (c : Nat) (cmd : Subcommand) (pid : Nat) (answer : Bool)
  | sigkill (c : Nat) (cmd : Subcommand) (pid : Nat)
  | unlinkKilled (c : Nat) (cmd : Subcommand)
  | spawn (c d : Nat)
  | pollStart (c child left : Nat)
  | killChild (c child : Nat)
  | clientRead (c : Nat)
  | clientProbe (c pid : Nat) (answer : Bool)
  | clientSpawn (c d : Nat)
  deriving DecidableEq

def State.phaseIs (s : State) (d : Nat) (phase : DaemonPhase) : Prop := (s.daemon d).phase = phase

def State.cliIs (s : State) (c : Nat) (phase : CliPhase) : Prop := s.cli c = phase

def State.unused (s : State) (d : Nat) : Prop := (s.daemon d).phase.alive = false

-- A living daemon is always recognised; any other pid may be a stranger's.
def State.answers (s : State) (pid : Nat) (answer : Bool) : Prop :=
  (s.daemon pid).phase.alive = true → answer = true

instance (s : State) (d : Nat) (phase : DaemonPhase) : Decidable (s.phaseIs d phase) :=
  inferInstanceAs (Decidable (_ = _))

instance (s : State) (c : Nat) (phase : CliPhase) : Decidable (s.cliIs c phase) :=
  inferInstanceAs (Decidable (_ = _))

instance (s : State) (d : Nat) : Decidable (s.unused d) := inferInstanceAs (Decidable (_ = _))

instance (s : State) (pid : Nat) (answer : Bool) : Decidable (s.answers pid answer) :=
  inferInstanceAs (Decidable (_ → _))

def enabled (s : State) : Action → Prop
  | .launch d => s.unused d
  | .open d => s.phaseIs d .spawned
  | .lock d i => s.phaseIs d (.opened i) ∧ s.owner i = none
  | .lockFail d i => s.phaseIs d (.opened i) ∧ s.owner i ≠ none
  | .truncate d i => s.phaseIs d (.locked i)
  | .writePid d i => s.phaseIs d (.truncated i)
  | .grpcRemove d => (s.daemon d).grpc = .removeOld
  | .grpcBind d => (s.daemon d).grpc = .bind
  | .grpcFail d => (s.daemon d).grpc = .serving
  | .interrupt d i => s.phaseIs d (.running i)
  | .shutdown d i => s.phaseIs d (.running i) ∧ ((s.daemon d).term ∨ (s.daemon d).grpc = .failed)
  | .unlink d i => s.phaseIs d (.stopping i)
  | .exit d i => s.phaseIs d (.unlinked i)
  | .die d => (s.daemon d).phase.alive = true
  | .begin c _ => s.cliIs c .idle
  | .checkSocket c cmd k => s.cliIs c (.checkSocket cmd k)
  | .checkPid c cmd k connected => s.cliIs c (.checkPid cmd k connected)
  | .probe c cmd k pid answer => s.cliIs c (.probe cmd k pid) ∧ s.answers pid answer
  | .unlinkStale c cmd => s.cliIs c (.unlinkStale cmd)
  | .removeSocket c cmd => s.cliIs c (.removeSocket cmd)
  | .readTarget c cmd => s.cliIs c (.readTarget cmd)
  | .identify c cmd pid answer => s.cliIs c (.identify cmd pid) ∧ s.answers pid answer
  | .sigterm c cmd pid => s.cliIs c (.sigterm cmd pid)
  | .sleep c cmd pid left => s.cliIs c (.sleep cmd pid (left + 1))
  | .giveUp c cmd pid answer => s.cliIs c (.sleep cmd pid 0) ∧ s.answers pid answer
  | .sigkill c cmd pid => s.cliIs c (.sigkill cmd pid)
  | .unlinkKilled c cmd => s.cliIs c (.unlinkKilled cmd)
  | .spawn c d => s.cliIs c .spawn ∧ s.unused d
  | .pollStart c child left => s.cliIs c (.awaitStart child (left + 1))
  | .killChild c child => s.cliIs c (.awaitStart child 0)
  | .clientRead c => s.cliIs c .clientRead
  | .clientProbe c pid answer => s.cliIs c (.clientProbe pid) ∧ s.answers pid answer
  | .clientSpawn c d => s.cliIs c .clientSpawn ∧ s.unused d

variable (maxStopChecks maxStartChecks : Nat)

def next (s : State) : Action → State
  | .launch d => s.spawnDaemon d
  | .open d => s.openPidFile d
  | .lock d i => (s.acquire d i).setPhase d (.locked i)
  | .lockFail d _ => s.exit d
  | .truncate d i => (s.write i none).setPhase d (.truncated i)
  | .writePid d i => (s.write i (some d)).setDaemon d ⟨.running i, .removeOld, false⟩
  | .grpcRemove d => s.removeSocketFile.setGrpc d .bind
  | .grpcBind d =>
    if s.socket = .absent then { s with socket := SocketFile.bound d }.setGrpc d .serving
    else s.setGrpc d .failed
  | .grpcFail d =>
    { s with socket := if s.socket = SocketFile.bound d then .stale else s.socket }.setGrpc d .failed
  | .interrupt d _ => s.setDaemon d { s.daemon d with term := true }
  | .shutdown d i => s.setPhase d (.stopping i)
  | .unlink d i => s.unlinkPidFile.setPhase d (.unlinked i)
  | .exit d _ => s.exit d
  | .die d => s.exit d
  | .begin c cmd => s.goto c (.checkSocket cmd .first)
  | .checkSocket c cmd k => s.goto c (.checkPid cmd k s.connectable)
  | .checkPid c cmd k connected => s.goto c (afterPid cmd k connected s.pidFile)
  | .probe c cmd k pid answer => s.goto c (afterCheck cmd answer (some pid) k)
  | .unlinkStale c cmd => s.unlinkPidFile.goto c (.removeSocket cmd)
  | .removeSocket c cmd => s.removeSocketFile.goto c (afterSocket cmd)
  | .readTarget c cmd =>
    s.goto c (match s.pidFile with
      | some pid => .identify cmd pid
      | none => .idle)
  | .identify c cmd pid answer => s.goto c (if answer then .sigterm cmd pid else .idle)
  | .sigterm c cmd pid => (s.terminate pid).goto c (.sleep cmd pid maxStopChecks)
  | .sleep c cmd pid left => s.goto c (.checkSocket cmd (.stopped pid left))
  | .giveUp c cmd pid answer => s.goto c (if answer then .sigkill cmd pid else .idle)
  | .sigkill c cmd pid => (s.kill pid).goto c (.unlinkKilled cmd)
  | .unlinkKilled c cmd => s.unlinkPidFile.goto c (afterStop cmd)
  | .spawn c d => (s.spawnDaemon d).goto c (.awaitStart d maxStartChecks)
  | .pollStart c child left =>
    s.goto c (if s.path.isSome && s.connectable then .idle else .awaitStart child left)
  | .killChild c child => (s.kill child).goto c .idle
  | .clientRead c =>
    s.goto c (match s.pidFile with
      | some pid => .clientProbe pid
      | none => .clientSpawn)
  | .clientProbe c _ answer => s.goto c (if answer then .idle else .clientSpawn)
  | .clientSpawn c d => (s.spawnDaemon d).goto c .idle

def machine : Machine State Action where
  init := .initial
  enabled := enabled
  next := next maxStopChecks maxStartChecks

instance (s : State) (a : Action) :
    Decidable ((machine maxStopChecks maxStartChecks).enabled s a) := by
  cases a <;> dsimp only [machine, enabled] <;> infer_instance

end PidLock
