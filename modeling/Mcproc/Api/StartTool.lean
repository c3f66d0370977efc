import Mcproc.Api.ProcessHandlers
import Mcproc.Rpc.Decode

namespace StartTool

open Launcher (Toolchain checkLaunch)
open Manager (validWaitTimeout)
open ProcessHandlers
open Rpc (Error Value deserializeInt deserializeOption)
open Validation

structure StartParams where
  name : String
  cmd : Option String
  args : Option (List String)
  cwd : Option String
  project : Option String
  env : Option (List (String × String))
  waitForLog : Option String
  waitTimeout : Option Nat
  forceRestart : Option Bool
  toolchain : Option String
  deriving DecidableEq, Repr

-- A map keeps the last of the members that share a name.
def lastMembers : List (String × Value) → List (String × Value)
  | [] => []
  | m :: ms => if ms.any (·.1 = m.1) then lastMembers ms else m :: lastMembers ms

def deserializeStrings : Value → Option (List String)
  | .array elements => elements.mapM Value.asStr
  | _ => none

def deserializeStringMap : Value → Option (List (String × String))
  | .object members => (lastMembers members).mapM fun m => m.2.asStr.map fun s => (m.1, s)
  | _ => none

def deserializeBool : Value → Option Bool
  | .bool b => some b
  | _ => none

def deserializeU32 (v : Value) : Option Nat :=
  (deserializeInt 0 4294967295 v).map Int.toNat

def optional {A : Type} (deserialize : Value → Option A) : Option Value → Option (Option A)
  | none => some none
  | some v => deserializeOption deserialize v

namespace StartParams

def columns : List String :=
  ["name", "cmd", "args", "cwd", "project", "env", "wait_for_log", "wait_timeout",
    "force_restart", "toolchain"]

-- The members may also come as an array; only the last two, which have defaults, may be left out.
def isStruct : Value → Bool
  | .object _ => true
  | .array elements => 8 ≤ elements.length ∧ elements.length ≤ columns.length
  | _ => false

def member : Value → String → Option Value
  | .array elements, column => elements[columns.idxOf column]?
  | v, column => v.get column

def ofMembers (member : String → Option Value) : Option StartParams := do
  return {
    name := ← (member "name").bind Value.asStr
    cmd := ← optional Value.asStr (member "cmd")
    args := ← optional deserializeStrings (member "args")
    cwd := ← optional Value.asStr (member "cwd")
    project := ← optional Value.asStr (member "project")
    env := ← optional deserializeStringMap (member "env")
    waitForLog := ← optional Value.asStr (member "wait_for_log")
    waitTimeout := ← optional deserializeU32 (member "wait_timeout")
    forceRestart := ← optional deserializeBool (member "force_restart")
    toolchain := ← optional Value.asStr (member "toolchain") }

def deserialize (v : Value) : Option StartParams :=
  if isStruct v then ofMembers (member v) else none

end StartParams

-- `refusal` is the text of the error serde_json gives for a value it does not accept.
def readParams (refusal : Value → String) : Option Value → Except Error StartParams
  | none => .error (.invalidParams "Missing parameters")
  | some v =>
    match StartParams.deserialize v with
    | none => .error (.invalidParams (refusal v))
    | some params => .ok params

-- What the tool reads of its own process: MCPROC_DEFAULT_PROJECT and the directory it runs in.
structure Surroundings where
  projectFromEnv : Option String
  projectFromCwd : Option String
  deriving DecidableEq, Repr

def checkedProject (source project : String) : Except Error String :=
  match validateProjectName project with
  | .error e => .error (.invalidParams (source ++ ": " ++ e))
  | .ok () => .ok project

def resolveMcpProjectName (w : Surroundings) (paramsProject : Option String) :
    Except Error String :=
  match paramsProject, w.projectFromEnv, w.projectFromCwd with
  | some project, _, _ => checkedProject "Invalid project name" project
  | none, some project, _ =>
    checkedProject "Invalid project name from MCPROC_DEFAULT_PROJECT" project
  | none, none, some project =>
    checkedProject ("Invalid project name from current directory '" ++ project ++ "'") project
  | none, none, none => .error (.invalidParams
      ("Unable to determine project name. Please specify --project, " ++
        "set MCPROC_DEFAULT_PROJECT, or run from a valid project directory"))

def checkCommand (cmd : Option String) (args : Option (List String)) : Except Error Unit :=
  match cmd, args with
  | some _, some (_ :: _) => .error (.invalidParams "Cannot specify both 'cmd' and 'args'")
  | none, none => .error (.invalidParams "Must specify either 'cmd' or 'args'")
  | none, some [] => .error (.invalidParams "Must specify either 'cmd' or 'args'")
  | _, _ => .ok ()

def grpcRequest (params : StartParams) (project : String) : StartRequest where
  name := params.name
  project := project
  cmd := params.cmd
  args := params.args.getD []
  cwd := params.cwd
  env := some (params.env.getD [])
  waitForLog := params.waitForLog
  waitTimeout := params.waitTimeout
  toolchain := params.toolchain

def prepare (w : Surroundings) (params : StartParams) : Except Error StartRequest :=
  match validateProcessName params.name with
  | .error e => .error (.invalidParams ("Invalid process name: " ++ e))
  | .ok () =>
    match checkCommand params.cmd params.args with
    | .error e => .error e
    | .ok () =>
      match resolveMcpProjectName w params.project with
      | .error e => .error e
      | .ok project => .ok (grpcRequest params project)

-- A call is refused before its response stream opens, or fails inside the stream, which reaches
-- the client as the error of reading a message.
inductive CallEnd where
  | refused (status : Status)
  | failed (status : Status)
  | started (p : ProxyInfo)
  deriving DecidableEq, Repr

def CallEnd.result : CallEnd → Except Status ProxyInfo
  | .refused status | .failed status => .error status
  | .started p => .ok p

variable (env : Env)

def streamEnd : Except Status ProxyInfo → CallEnd
  | .error status => .failed status
  | .ok p => .started p

def startCall (d : Daemon) (r : StartRequest) (forceRestart : Bool) : CallEnd × Daemon :=
  match validateStart r with
  | .error e => (.refused e, d)
  | .ok () =>
    match if forceRestart then d.lookup env r.name r.project else none with
    | none => (startStream env d r).map streamEnd id
    | some existing =>
      match stopProcess env d existing.id r.project true with
      | (.error e, d') => (.refused (forceRestartStopResult e), d')
      | (.ok (), d') => (startStream env d' r).map streamEnd id

variable (refusal : Value → String) (statusText : Status → String) (w : Surroundings)

def startProcess (d : Daemon) (params : StartParams) : Except Error ProxyInfo × Daemon :=
  match prepare w params with
  | .error e => (.error e, d)
  | .ok r =>
    match startCall env d r (params.forceRestart.getD false) with
    | (.refused status, d') =>
      if status.code = .alreadyExists then
        (.error (.invalidParams ("Process '" ++ params.name ++ "' is already running")), d')
      else (.error (.internal status.message), d')
    | (.failed status, d') => (.error (.internal (statusText status)), d')
    | (.started p, d') => (.ok p, d')

def handleStart (d : Daemon) (params : Option Value) : Except Error ProxyInfo × Daemon :=
  match readParams refusal params with
  | .error e => (.error e, d)
  | .ok params => startProcess env statusText w d params

theorem validateStart_error {r : StartRequest} {e : Status} (h : validateStart r = .error e)
    (hn : ValidProcess r.name) (hp : ValidProject r.project) :
    e.code = .invalidArgument ∧ validWaitTimeout r.waitTimeout = false := by
  simp only [validateStart, validateWaitTimeout] at h
  rw [hn, hp] at h
  cases hw : validWaitTimeout r.waitTimeout with
  | true => simp [hw] at h
  | false =>
    simp only [hw, Bool.false_eq_true, if_false] at h
    cases h
    exact ⟨rfl, rfl⟩

theorem validateStart_ok {r : StartRequest} (h : validateStart r = .ok ()) :
    validWaitTimeout r.waitTimeout = true := by
  simp only [validateStart, validateWaitTimeout] at h
  by_contra hw
  simp [hw] at h

theorem startCall_cases (d : Daemon) (r : StartRequest) (forceRestart : Bool) :
    (∃ e, validateStart r = .error e ∧ startCall env d r forceRestart = (.refused e, d)) ∨
      validateStart r = .ok () ∧
        ((∃ e d', startCall env d r forceRestart = (.refused (forceRestartStopResult e), d')) ∨
          ∃ d', startCall env d r forceRestart = (startStream env d' r).map streamEnd id) := by
  simp only [startCall]
  cases validateStart r with
  | error e => exact Or.inl ⟨e, rfl, rfl⟩
  | ok u =>
    refine Or.inr ⟨rfl, ?_⟩
    cases if forceRestart then d.lookup env r.name r.project else none with
    | none => exact Or.inr ⟨d, rfl⟩
    | some existing =>
      dsimp only
      rcases stopProcess env d existing.id r.project true with ⟨e | u, d'⟩
      · exact Or.inl ⟨e, d', rfl⟩
      · exact Or.inr ⟨d', rfl⟩

theorem streamEnd_result (x : Except Status ProxyInfo × Daemon) :
    (x.map streamEnd id).map CallEnd.result id = x := by
  rcases x with ⟨e | p, d⟩ <;> rfl

theorem startCall_result (d : Daemon) (r : StartRequest) (forceRestart : Bool) :
    (startCall env d r forceRestart).map CallEnd.result id =
      startProcessImpl env d r forceRestart := by
  simp only [startProcessImpl, startCall]
  cases validateStart r with
  | error e => rfl
  | ok u =>
    cases if forceRestart then d.lookup env r.name r.project else none with
    | none => exact streamEnd_result (startStream env d r)
    | some existing =>
      dsimp only
      rcases stopProcess env d existing.id r.project true with ⟨e | u, d'⟩
      · rfl
      · exact streamEnd_result (startStream env d' r)

-- The reasons the daemon may have to refuse a request whose names and command are in order.
inductive Unlaunchable (r : StartRequest) : Prop where
  | waitTimeout (h : validWaitTimeout r.waitTimeout = false)
  | pattern {pattern e : String} (hw : r.waitForLog = some pattern)
    (he : env.compileRegex pattern = .error e)
  | toolchain {tool : String} (ht : r.toolchain = some tool) (hp : Toolchain.parse tool = none)

theorem checkLaunch_isOk {r : StartRequest} (hr : r.args ≠ [] ∨ r.cmd ≠ none)
    (hw : validWaitTimeout r.waitTimeout = true) :
    (checkLaunch env.compileRegex r).isOk ↔ ¬ Unlaunchable env r := by
  obtain ⟨command, hs⟩ : ∃ command, Launcher.shellCommand r.args r.cmd = .ok command := by
    by_cases ha : r.args = []
    · obtain ⟨c, hc⟩ := Option.ne_none_iff_exists'.mp (hr.resolve_left (not_not.mpr ha))
      exact ⟨c, by simp [Launcher.shellCommand, ha, hc]⟩
    · exact ⟨_, if_pos ha⟩
  simp only [checkLaunch, Launcher.launchCommand, hs]
  constructor
  · rintro hok (h | ⟨hw', he⟩ | ⟨ht, hp⟩)
    · cases hw.symm.trans h
    · simp [Launcher.parseWaitPattern, hw', he, Except.isOk, Except.toBool] at hok
    · simp only [Launcher.finalCommand, ht, hp] at hok
      split at hok <;> cases hok
  · intro hl
    have hwait : Launcher.parseWaitPattern env.compileRegex r.waitForLog = .ok r.waitForLog := by
      cases hp : r.waitForLog with
      | none => rfl
      | some pattern =>
        cases he : env.compileRegex pattern with
        | error e => exact absurd (.pattern hp he) hl
        | ok u => simp [Launcher.parseWaitPattern, he]
    simp only [hwait, Launcher.finalCommand]
    cases ht : r.toolchain with
    | none => rfl
    | some tool =>
      cases hp : Toolchain.parse tool with
      | none => exact absurd (.toolchain ht hp) hl
      | some t => simp [hp, Except.isOk, Except.toBool]

-- What a launch reports of the request: an invalid argument is one its checks found, and a
-- process that starts is the one asked for.
structure Outcome (r : StartRequest) (x : Except McprocdError ProxyInfo × Daemon) : Prop where
  rejected : ∀ e, x.1 = .error e → e.code = .invalidArgument →
    (checkLaunch env.compileRegex r).isOk = false
  started : ∀ p, x.1 = .ok p → (checkLaunch env.compileRegex r).isOk ∧
    p = ProxyInfo.new r p.id p.pid ∧ p ∈ x.2.registry.processes

theorem Outcome.refuse {r : StartRequest} {d : Daemon} {e : McprocdError}
    (h : e.code ≠ .invalidArgument) : Outcome env r (.error e, d) where
  rejected e' he hc := by
    cases he
    exact absurd hc h
  started p hp := by cases hp

theorem launch_outcome (d : Daemon) (r : StartRequest) : Outcome env r (launch env d r) := by
  simp only [launch]
  cases hc : checkLaunch env.compileRegex r with
  | error e =>
    refine ⟨fun _ _ _ => ?_, fun p hp => ?_⟩
    · rw [hc]
      rfl
    · cases hp
  | ok command =>
    dsimp only
    cases env.spawn r command with
    | error e =>
      refine Outcome.refuse env fun h => ?_
      cases h
    | ok spawned =>
      refine ⟨fun e he => ?_, fun p hp => ?_⟩
      · cases he
      · cases hp
        exact ⟨by rw [hc]; rfl, rfl, Registry.mem_addProcess.mpr (Or.inl rfl)⟩

theorem reserveAndLaunch_outcome (d : Daemon) (r : StartRequest) :
    Outcome env r (reserveAndLaunch env d r) := by
  simp only [reserveAndLaunch]
  rcases d.registry.tryReserveName r.key with ⟨_ | _, reserved⟩
  · refine Outcome.refuse env fun h => ?_
    cases h
  · have h := launch_outcome env { d with registry := reserved } r
    dsimp only
    generalize launch env { d with registry := reserved } r = x at h ⊢
    rcases x with ⟨e | p, d'⟩
    · refine ⟨fun e' he hc => h.rejected e' he hc, fun p hp => ?_⟩
      cases hp
    · exact h

theorem startWithLogStream_outcome (d : Daemon) (r : StartRequest) :
    Outcome env r (startWithLogStream env d r) := by
  have hlaunch := reserveAndLaunch_outcome env
  simp only [startWithLogStream]
  cases d.registry.getProcessByNameWithProject r.name r.project with
  | none => exact hlaunch d r
  | some existing =>
    dsimp only
    split
    · exact hlaunch _ r
    · exact hlaunch _ r
    · refine Outcome.refuse env fun h => ?_
      cases h

structure Accounted (r : StartRequest) (x : CallEnd × Daemon) : Prop where
  refused : ∀ status, x.1 = .refused status → status.code ≠ .alreadyExists
  rejected : ∀ status, x.1.result = .error status → status.code = .invalidArgument →
    Unlaunchable env r
  started : ∀ p, x.1 = .started p → ¬ Unlaunchable env r ∧
    p = ProxyInfo.new r p.id p.pid ∧ p ∈ x.2.registry.processes

theorem stream_accounted {r : StartRequest}
    (hr : (checkLaunch env.compileRegex r).isOk ↔ ¬ Unlaunchable env r) (d : Daemon) :
    Accounted env r ((startStream env d r).map streamEnd id) := by
  have h := startWithLogStream_outcome env d r
  simp only [startStream]
  generalize startWithLogStream env d r = x at h ⊢
  rcases x with ⟨e | p, d'⟩
  · refine ⟨fun status hs => ?_, fun status hs hc => ?_, fun p hp => ?_⟩
    · cases hs
    · cases hs
      have hcode : e.code = .invalidArgument := by
        cases e <;> exact hc
      have hno := h.rejected e rfl hcode
      by_contra hl
      rw [hr.mpr hl] at hno
      cases hno
    · cases hp
  · refine ⟨fun status hs => ?_, fun status hs => ?_, fun q hq => ?_⟩
    · cases hs
    · cases hs
    · cases hq
      obtain ⟨hok, hp, hmem⟩ := h.started p rfl
      exact ⟨hr.mp hok, hp, hmem⟩

theorem startCall_accounted {r : StartRequest} (hn : ValidProcess r.name)
    (hp : ValidProject r.project) (hr : r.args ≠ [] ∨ r.cmd ≠ none) (d : Daemon)
    (forceRestart : Bool) : Accounted env r (startCall env d r forceRestart) := by
  rcases startCall_cases env d r forceRestart with ⟨e, he, hc⟩ | ⟨hv, ⟨e, d', hc⟩ | ⟨d', hc⟩⟩
  · obtain ⟨hcode, hw⟩ := validateStart_error he hn hp
    rw [hc]
    refine ⟨fun status hs => ?_, fun _ _ _ => .waitTimeout hw, fun p hs => ?_⟩
    · cases hs
      rw [hcode]
      exact fun h => by cases h
    · cases hs
  · rw [hc]
    refine ⟨fun status hs => ?_, fun status hs hcode => ?_, fun p hs => ?_⟩
    · cases hs
      exact fun h => by cases h
    · cases hs
      cases hcode
    · cases hs
  · rw [hc]
    exact stream_accounted env (checkLaunch_isOk env hr (validateStart_ok hv)) d'

theorem checkCommand_ok {cmd : Option String} {args : Option (List String)}
    (h : checkCommand cmd args = .ok ()) : args.getD [] ≠ [] ∨ cmd ≠ none := by
  simp only [checkCommand] at h
  split at h
  · cases h
  · cases h
  · cases h
  · next hboth hneither hempty =>
    cases cmd with
    | some c => exact Or.inr (by simp)
    | none =>
      match args with
      | none => exact absurd rfl (hneither rfl)
      | some [] => exact absurd rfl (hempty rfl)
      | some (a :: as) => exact Or.inl (by simp)

theorem checkedProject_ok {source project p : String} (h : checkedProject source project = .ok p) :
    ValidProject p := by
  simp only [checkedProject] at h
  split at h
  · cases h
  · next hv =>
    cases h
    exact hv

variable {w}

theorem resolveMcpProjectName_ok {paramsProject : Option String} {project : String}
    (h : resolveMcpProjectName w paramsProject = .ok project) : ValidProject project := by
  simp only [resolveMcpProjectName] at h
  split at h
  · exact checkedProject_ok h
  · exact checkedProject_ok h
  · exact checkedProject_ok h
  · cases h

theorem prepare_ok {params : StartParams} {r : StartRequest} (h : prepare w params = .ok r) :
    ValidProcess r.name ∧ (r.args ≠ [] ∨ r.cmd ≠ none) ∧
      resolveMcpProjectName w params.project = .ok r.project ∧ r = grpcRequest params r.project := by
  simp only [prepare] at h
  split at h
  · cases h
  · next hn =>
    split at h
    · cases h
    · next hc =>
      split at h
      · cases h
      · next project hp =>
        cases h
        exact ⟨hn, checkCommand_ok hc, hp, rfl⟩

theorem prepare_accounted {params : StartParams} {r : StartRequest} (h : prepare w params = .ok r)
    (d : Daemon) (forceRestart : Bool) : Accounted env r (startCall env d r forceRestart) := by
  obtain ⟨hn, hc, hp, -⟩ := prepare_ok h
  exact startCall_accounted env hn (resolveMcpProjectName_ok hp) hc d forceRestart

variable (w)

theorem startProcess_refusals (d : Daemon) (params : StartParams) (message : String) :
    ((startProcess env statusText w d params).1 = .error (.invalidParams message) ↔
      prepare w params = .error (.invalidParams message)) ∧
    (prepare w params = .error (.invalidParams message) →
      (startProcess env statusText w d params).2 = d) := by
  simp only [startProcess]
  cases hr : prepare w params with
  | error e => exact ⟨by simp, fun _ => rfl⟩
  | ok r =>
    have h := prepare_accounted env hr d (params.forceRestart.getD false)
    refine ⟨?_, fun he => by cases he⟩
    dsimp only
    generalize startCall env d r (params.forceRestart.getD false) = x at h ⊢
    rcases x with ⟨status | status | p, d'⟩
    · simp [h.refused status rfl]
    · simp
    · simp

-- The tool's own reasons to refuse a call, each with its message.
inductive Refused : Option Value → String → Prop where
  | missing : Refused none "Missing parameters"
  | undecodable {v : Value} : StartParams.deserialize v = none → Refused (some v) (refusal v)
  | check {v : Value} {params : StartParams} {message : String} :
      StartParams.deserialize v = some params →
      prepare w params = .error (.invalidParams message) → Refused (some v) message

theorem start_tool_local_refusals (d : Daemon) (params : Option Value) (message : String) :
    ((handleStart env refusal statusText w d params).1 = .error (.invalidParams message) ↔
      Refused refusal w params message) ∧
    (Refused refusal w params message →
      (handleStart env refusal statusText w d params).2 = d) := by
  cases params with
  | none =>
    refine ⟨⟨fun h => ?_, fun h => ?_⟩, fun _ => rfl⟩
    · cases h
      exact .missing
    · cases h
      rfl
  | some v =>
    simp only [handleStart, readParams]
    cases hv : StartParams.deserialize v with
    | none =>
      refine ⟨⟨fun h => ?_, fun h => ?_⟩, fun _ => rfl⟩
      · cases h
        exact .undecodable hv
      · cases h with
        | undecodable _ => rfl
        | check hv' _ => cases hv.symm.trans hv'
    | some params =>
      obtain ⟨hiff, hsame⟩ := startProcess_refusals env statusText w d params message
      have hcheck : Refused refusal w (some v) message →
          prepare w params = .error (.invalidParams message) := by
        intro h
        cases h with
        | undecodable hv' => cases hv.symm.trans hv'
        | check hv' hp =>
          cases hv.symm.trans hv'
          exact hp
      exact ⟨hiff.trans ⟨fun hp => .check hv hp, hcheck⟩, fun h => hsame (hcheck h)⟩

def webValue : Value :=
  .object [("name", .string "web"), ("cmd", .string "npm start"), ("args", .array []),
    ("cwd", .string "/srv/app"), ("env", .object [("PORT", .string "3000")]),
    ("wait_timeout", .number (.posInt 10)), ("force_restart", .bool true)]

def webParams : StartParams where
  name := "web"
  cmd := some "npm start"
  args := some []
  cwd := some "/srv/app"
  project := none
  env := some [("PORT", "3000")]
  waitForLog := none
  waitTimeout := some 10
  forceRestart := some true
  toolchain := none

example : StartParams.deserialize webValue = some webParams := by decide

def appDirectory : Surroundings := ⟨none, some "app"⟩

-- 4294967296 seconds do not fit the type of wait_timeout.
def longWait : Value :=
  .object [("name", .string "web"), ("cmd", .string "npm start"),
    ("wait_timeout", .number (.posInt 4294967296))]

theorem start_tool_local_refusals_web :
    (handleStart quietEnv (fun _ => "invalid value") Status.message appDirectory webDaemon
        (some longWait)).1 = .error (.invalidParams "invalid value") ∧
      (handleStart quietEnv (fun _ => "invalid value") Status.message appDirectory webDaemon
        (some longWait)).2 = webDaemon := by
  have h := start_tool_local_refusals quietEnv (fun _ => "invalid value") Status.message
    appDirectory webDaemon (some longWait) "invalid value"
  have hlong : Refused (fun _ => "invalid value") appDirectory (some longWait) "invalid value" :=
    .undecodable (by decide)
  exact ⟨h.1.mpr hlong, h.2 hlong⟩

end StartTool
