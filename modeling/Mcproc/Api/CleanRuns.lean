import Mcproc.Api.CleanProject

namespace CleanRuns

open Cleaner (FileSystem candidates removeEmptyDir)
open CleanProject (getLogFilePathForKey resolve sanitizedName)
open OsString (Plain)
open Utf8 (encode)
open Validation (ValidProject)

inductive Phase where
  | stopping (project : String) (rest : List Manager.Task)
  | listing (project : String) (exclude : List UnixPath)
  | deleting (project : String) (paths : List UnixPath)
  deriving DecidableEq

def Phase.project : Phase → String
  | .stopping project _ | .listing project _ | .deleting project _ => project

structure State (F : Type) where
  manager : Manager.State
  files : F
  phase : Nat → Option Phase

namespace State

variable {F : Type}

def initial (files : F) : State F := ⟨.initial, files, fun _ => none⟩

def setPhase (s : State F) (i : Nat) (phase : Option Phase) : State F :=
  { s with phase := Function.update s.phase i phase }

-- The stops of this clean are over, and what follows it has not begun.
def due (s : State F) (i : Nat) : Bool :=
  match s.phase i with
  | none => false
  | some (.stopping _ rest) => s.manager.calls i = ⟨.ready, rest⟩
  | some _ => true

end State

inductive Action (F : Type) where
  | manager (a : Manager.Action)
  | disk (files : F)
  | exclude (i : Nat) (project : String) (rest : List Manager.Task)
  | list (i : Nat) (project : String) (exclude : List UnixPath)
  | removeFile (i : Nat) (project : String) (path : UnixPath) (paths : List UnixPath)
  | removeDir (i : Nat) (project : String)
  deriving DecidableEq

def excluded (logDir : UnixPath) (r : Registry) (project : String) : List UnixPath :=
  (r.getProcessesByProject project).map fun p => getLogFilePathForKey logDir p.key

def afterManager (phase : Nat → Option Phase) : Manager.Action → Nat → Option Phase
  | .task i (.clean project _) rest => Function.update phase i (some (.stopping project rest))
  | .drop i _ => Function.update phase i none
  | _ => phase

section
variable {F : Type} (isUuid : String → Bool) (compileRegex : String → Except String Unit)
  (fs : FileSystem F) (logDir : UnixPath)

def projectLogDir (project : String) : UnixPath := logDir.join (encode project)

def afterListing (s : State F) (project : String) (exclude : List UnixPath) : Option Phase :=
  (fs.readDir s.files (projectLogDir logDir project)).map fun entries =>
    .deleting project (candidates (projectLogDir logDir project) exclude entries)

def enabled (s : State F) : Action F → Prop
  | .manager a => (Manager.machine isUuid compileRegex).enabled s.manager a ∧ ¬ a.actor.any s.due
  | .disk _ => True
  | .exclude i project rest =>
    s.phase i = some (.stopping project rest) ∧ s.manager.calls i = ⟨.ready, rest⟩
  | .list i project exclude => s.phase i = some (.listing project exclude)
  | .removeFile i project path paths => s.phase i = some (.deleting project (path :: paths))
  | .removeDir i project => s.phase i = some (.deleting project [])

def next (s : State F) : Action F → State F
  | .manager a => ⟨Manager.next isUuid s.manager a, s.files, afterManager s.phase a⟩
  | .disk files => { s with files := files }
  | .exclude i project _ =>
    s.setPhase i (some (.listing project (excluded logDir s.manager.registry project)))
  | .list i project exclude => s.setPhase i (afterListing fs logDir s project exclude)
  | .removeFile i project path paths =>
    { s with files := (fs.removeFile s.files path).getD s.files }.setPhase i
      (some (.deleting project paths))
  | .removeDir i project =>
    { s with files := (removeEmptyDir fs s.files (projectLogDir logDir project)).2 }.setPhase i none

def machine (files : F) : Machine (State F) (Action F) where
  init := .initial files
  enabled := enabled isUuid compileRegex
  next := next isUuid fs logDir

instance (files : F) (s : State F) (a : Action F) :
    Decidable ((machine isUuid compileRegex fs logDir files).enabled s a) := by
  cases a <;> dsimp only [machine, enabled] <;> infer_instance

def KeepsLogs (s : State F) : Action F → Prop
  | .removeFile _ _ path _ =>
    (fs.removeFile s.files path).isSome → ∀ p ∈ s.manager.registry.processes,
      resolve (getLogFilePathForKey logDir p.key) ≠ resolve path
  | _ => True

instance (s : State F) : ∀ a : Action F, Decidable (KeepsLogs fs logDir s a)
  | .removeFile _ _ _ _ => inferInstanceAs (Decidable (_ → _))
  | .manager _ | .disk _ | .exclude _ _ _ | .list _ _ _ | .removeDir _ _ => isTrue trivial

-- What a clean in this phase may still delete, were the process in the registry.
def Phase.Threatens (k : ProcessKey) : Phase → Prop
  | .stopping _ _ => False
  | .listing project exclude => ∃ name, Plain name ∧
    (projectLogDir logDir project).child name ∉ exclude ∧
      resolve (getLogFilePathForKey logDir k) = resolve ((projectLogDir logDir project).child name)
  | .deleting _ paths => ∃ path ∈ paths, resolve (getLogFilePathForKey logDir k) = resolve path

def Undisturbed (s : State F) : Action F → Prop
  | .manager (.startAdd _ r _ _ _) =>
    ∀ i phase, s.phase i = some phase → ¬ phase.Threatens logDir r.key
  | .exclude _ project _ => ∀ p ∈ s.manager.registry.processes,
    resolve (projectLogDir logDir p.project) = resolve (projectLogDir logDir project) →
      p.project = project
  | _ => True

end

theorem resolve_child {p : UnixPath} {name : OsString} (h : Plain name) :
    resolve (p.child name) = resolve p ++ [name] := by
  simp only [resolve, UnixPath.child, List.foldl_append, List.foldl_cons, List.foldl_nil,
    if_neg h.2.2.1]

theorem resolve_child_inj {p q : UnixPath} {a b : OsString} (ha : Plain a) (hb : Plain b)
    (h : resolve (p.child a) = resolve (q.child b)) : resolve p = resolve q ∧ a = b := by
  rw [resolve_child ha, resolve_child hb] at h
  obtain ⟨hp, hab⟩ := List.append_inj' h rfl
  exact ⟨hp, List.singleton_inj.mp hab⟩

theorem logName_plain (k : ProcessKey) : Plain (encode (sanitizedName k ++ ".log")) := by
  have hext : ".log".toList.length = 4 := by decide
  refine OsString.plain_encode_long ?_ fun hs => ?_
  · rw [String.toList_append, List.length_append]
    omega
  · rw [String.toList_append, List.mem_append, sanitizedName, String.toList_ofList] at hs
    rcases hs with hs | hs
    · obtain ⟨c, -, hc⟩ := List.mem_map.mp hs
      split at hc
      · exact absurd hc (by decide)
      · next hne => exact hne hc
    · exact absurd hs (by decide)

theorem logFilePath_child (logDir : UnixPath) (k : ProcessKey) :
    getLogFilePathForKey logDir k =
      (projectLogDir logDir k.project).child (encode (sanitizedName k ++ ".log")) := by
  rw [getLogFilePathForKey, UnixPath.join_plain (logName_plain k), projectLogDir]

theorem project_of_dir {logDir : UnixPath} {p q : String} (hp : ValidProject p)
    (hq : ValidProject q)
    (h : resolve (projectLogDir logDir p) = resolve (projectLogDir logDir q)) : p = q := by
  have hplain := CleanProject.plain_of_valid hp
  have hplain' := CleanProject.plain_of_valid hq
  rw [projectLogDir, projectLogDir, UnixPath.join_plain hplain, UnixPath.join_plain hplain'] at h
  exact Utf8.encode_injective (resolve_child_inj hplain hplain' h).2

def Phase.Spares (logDir : UnixPath) (r : Registry) (phase : Phase) : Prop :=
  ∀ p ∈ r.processes, ¬ phase.Threatens logDir p.key

theorem spares_excluded {logDir : UnixPath} {r : Registry} {project : String}
    (h : ∀ p ∈ r.processes,
      resolve (projectLogDir logDir p.project) = resolve (projectLogDir logDir project) →
        p.project = project) :
    (Phase.listing project (excluded logDir r project)).Spares logDir r := by
  rintro p hp ⟨name, hname, hnot, hsame⟩
  rw [logFilePath_child] at hsame
  obtain ⟨hdir, rfl⟩ := resolve_child_inj (logName_plain p.key) hname hsame
  have hproject : p.project = project := h p hp hdir
  refine hnot (List.mem_map.mpr ⟨p, List.mem_filter.mpr ⟨hp, decide_eq_true hproject⟩, ?_⟩)
  rw [logFilePath_child, show p.key.project = project from hproject]

theorem spares_listed {logDir : UnixPath} {r : Registry} {project : String}
    {exclude : List UnixPath} (h : (Phase.listing project exclude).Spares logDir r)
    (entries : List (Option Cleaner.DirEntry)) :
    (Phase.deleting project (candidates (projectLogDir logDir project) exclude entries)).Spares
      logDir r := by
  rintro p hp ⟨path, hpath, hsame⟩
  obtain ⟨e, -, -, rfl, hnot⟩ := Cleaner.mem_candidates.mp hpath
  exact h p hp ⟨e.name, e.plain, hnot, hsame⟩

theorem spares_tail {logDir : UnixPath} {r : Registry} {project : String} {path : UnixPath}
    {paths : List UnixPath} (h : (Phase.deleting project (path :: paths)).Spares logDir r) :
    (Phase.deleting project paths).Spares logDir r :=
  fun p hp ⟨q, hq, hsame⟩ => h p hp ⟨q, List.mem_cons_of_mem _ hq, hsame⟩

def Inv {F : Type} (logDir : UnixPath) (s : State F) : Prop :=
  ∀ i phase, s.phase i = some phase → phase.Spares logDir s.manager.registry

variable {F : Type} {logDir : UnixPath}

theorem inv_setPhase {s : State F} {i : Nat} {o : Option Phase} (hs : Inv logDir s)
    (h : ∀ phase, o = some phase → phase.Spares logDir s.manager.registry) :
    Inv logDir (s.setPhase i o) := by
  intro j phase hphase
  simp only [State.setPhase, Function.update_apply] at hphase
  split at hphase
  · exact h phase hphase
  · exact hs j phase hphase

theorem inv_files {s : State F} (hs : Inv logDir s) (files : F) :
    Inv logDir { s with files := files } := hs

theorem afterManager_some {phase : Nat → Option Phase} {a : Manager.Action} {j : Nat} {ph : Phase}
    (h : afterManager phase a j = some ph) :
    phase j = some ph ∨ ∃ i project force rest,
      a = .task i (.clean project force) rest ∧ ph = .stopping project rest := by
  simp only [afterManager] at h
  split at h
  · next i project force rest =>
    rw [Function.update_apply] at h
    split at h
    · exact Or.inr ⟨i, project, force, rest, rfl, (Option.some.inj h).symm⟩
    · exact Or.inl h
  · rw [Function.update_apply] at h
    split at h
    · cases h
    · exact Or.inl h
  · exact Or.inl h

variable (isUuid : String → Bool) (compileRegex : String → Except String Unit) (fs : FileSystem F)

theorem inv_manager {s : State F} {a : Manager.Action} (hs : Inv logDir s)
    (hc : Undisturbed logDir s (.manager a)) :
    Inv logDir (next isUuid fs logDir s (.manager a)) := by
  intro j ph hph p hp
  rcases afterManager_some hph with hph | ⟨i, project, force, rest, rfl, rfl⟩
  · rcases Manager.entry_step isUuid hp with hp | ⟨i, r, pid, g, id, rfl, rfl⟩
    · exact hs j ph hph p hp
    · exact hc j ph hph
  · exact id

theorem inv_step {files : F} {s : State F} {a : Action F} (hs : Inv logDir s)
    (h : (machine isUuid compileRegex fs logDir files).enabled s a)
    (hc : Undisturbed logDir s a) : Inv logDir (next isUuid fs logDir s a) := by
  cases a with
  | manager a => exact inv_manager isUuid fs hs hc
  | disk f => exact inv_files hs f
  | exclude i project rest =>
    refine inv_setPhase hs fun phase hphase => ?_
    cases hphase
    exact spares_excluded hc
  | list i project exclude =>
    refine inv_setPhase hs fun phase hphase => ?_
    obtain ⟨entries, -, rfl⟩ := Option.map_eq_some_iff.mp hphase
    exact spares_listed (hs i _ h) entries
  | removeFile i project path paths =>
    refine inv_setPhase (inv_files hs _) fun phase hphase => ?_
    cases hphase
    exact spares_tail (hs i _ h)
  | removeDir i project =>
    refine inv_setPhase (inv_files hs _) fun phase hphase => ?_
    cases hphase

theorem keepsLogs_of_inv {files : F} {s : State F} {a : Action F} (hs : Inv logDir s)
    (h : (machine isUuid compileRegex fs logDir files).enabled s a) : KeepsLogs fs logDir s a := by
  cases a with
  | removeFile i project path paths =>
    intro _ p hp hsame
    exact hs i _ h p hp ⟨path, List.mem_cons_self, hsame⟩
  | _ => trivial

theorem clean_keeps_registered_logs {files : F} {as : List (Action F)}
    (hl : (machine isUuid compileRegex fs logDir files).Legal (State.initial files) as)
    (hc : (machine isUuid compileRegex fs logDir files).Throughout (Undisturbed logDir)
      (State.initial files) as) :
    (machine isUuid compileRegex fs logDir files).Throughout (KeepsLogs fs logDir)
      (State.initial files) as := by
  refine Machine.throughout_of_step (J := Inv logDir) _ (fun s a hs he hu => ?_)
    (fun _ _ h => by cases h) hl hc
  exact ⟨keepsLogs_of_inv isUuid compileRegex fs hs he, inv_step isUuid compileRegex fs hs he hu⟩

def webLog : List OsString := [encode "state", encode "log", encode "app", encode "web.log"]

def webLogPath : UnixPath :=
  (CleanProject.stateLog.child (encode "app")).child (encode "web.log")

def webMachine : Machine (State (List (List OsString))) (Action (List (List OsString))) :=
  machine (fun _ => false) (fun _ => .ok ()) CleanProject.plainFiles CleanProject.stateLog [webLog]

instance (s : State (List (List OsString))) (a : Action (List (List OsString))) :
    Decidable (webMachine.enabled s a) :=
  inferInstanceAs (Decidable ((machine _ _ _ _ _).enabled s a))

def excludeWeb : List (Action (List (List OsString))) :=
  [.manager (.begin 0 (.clean "app" false)), .manager (.task 0 (.clean "app" false) []),
   .exclude 0 "app" []]

def startWeb : List (Action (List (List OsString))) :=
  (Manager.startRun 1 Manager.webRequest 7 "a").map .manager

def listedWeb : State (List (List OsString)) :=
  (webMachine.exec webMachine.init excludeWeb).setPhase 0 (some (.deleting "app" [webLogPath]))

theorem next_list :
    webMachine.next (webMachine.exec webMachine.init excludeWeb) (.list 0 "app" []) =
      listedWeb := by
  have hcandidates : afterListing CleanProject.plainFiles CleanProject.stateLog
      (webMachine.exec webMachine.init excludeWeb) "app" [] =
        some (.deleting "app" [webLogPath]) := by
    have hread : CleanProject.plainFiles.readDir
        (webMachine.exec webMachine.init excludeWeb).files
          (projectLogDir CleanProject.stateLog "app") =
        some [some CleanProject.webEntry] := by decide
    have hpath : (projectLogDir CleanProject.stateLog "app").child CleanProject.webEntry.name =
        webLogPath := by
      decide
    rw [afterListing, hread]
    simp [candidates, CleanProject.webEntry_isLogFile, hpath]
  exact congrArg ((webMachine.exec webMachine.init excludeWeb).setPhase 0) hcandidates

theorem legal_listed {as : List (Action (List (List OsString)))}
    (h : webMachine.Legal listedWeb as) :
    webMachine.Legal webMachine.init (excludeWeb ++ .list 0 "app" [] :: as) := by
  refine (Machine.throughout_append _).mpr ⟨by decide, rfl, ?_⟩
  rw [next_list]
  exact h

def removeWeb : List (Action (List (List OsString))) :=
  [.removeFile 0 "app" webLogPath [], .removeDir 0 "app"]

theorem clean_keeps_registered_logs_web :
    webMachine.Throughout (KeepsLogs CleanProject.plainFiles CleanProject.stateLog) webMachine.init
      (excludeWeb ++ .list 0 "app" [] :: (removeWeb ++ startWeb)) := by
  refine clean_keeps_registered_logs (fun _ => false) (fun _ => .ok ()) CleanProject.plainFiles
    (legal_listed (by decide)) ?_
  refine (Machine.throughout_append _).mpr ⟨?_, trivial, ?_⟩
  · exact ⟨trivial, trivial, (fun _ h => by cases h), trivial⟩
  · change webMachine.Throughout _
      (webMachine.next (webMachine.exec webMachine.init excludeWeb) _) _
    rw [next_list]
    refine ⟨trivial, trivial, trivial, trivial, trivial, trivial, trivial, fun i phase h => ?_,
      trivial, trivial, trivial, trivial⟩
    simp [webMachine, machine, next, afterManager, State.setPhase, State.initial, listedWeb,
      excludeWeb] at h

theorem clean_deletes_log_of_started :
    ¬ ∀ as, webMachine.Legal webMachine.init as →
      webMachine.Throughout (KeepsLogs CleanProject.plainFiles CleanProject.stateLog)
        webMachine.init as := by
  intro hall
  have hlegal : webMachine.Legal listedWeb (startWeb ++ removeWeb) := by decide
  have hrun := hall _ (legal_listed hlegal)
  have hlast := ((Machine.throughout_append _).mp hrun).2.2
  rw [next_list] at hlast
  exact absurd hlast (by decide)

end CleanRuns
