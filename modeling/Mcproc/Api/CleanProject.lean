import Mcproc.Api.ProcessHandlers
import Mcproc.Log.Cleaner
import Mcproc.Process.ProjectNames

namespace CleanProject

open Cleaner (FileSystem Removed deleteProjectLogs NothingToDelete logExtension)
open OsString (Plain)
open ProcessHandlers (Daemon Env stopProcess)
open Utf8 (encode)
open Validation (ValidProject)

structure CleanProjectRequest where
  project : Option String
  allProjects : Bool
  force : Bool
  deriving DecidableEq, Repr

def CleanProjectRequest.target (q : CleanProjectRequest) : String := q.project.getD "default"

structure ProjectCleanResult where
  project : String
  processesStopped : Nat
  logsDeleted : Nat
  stoppedProcessNames : List String
  deletedLogFiles : List UnixPath
  deriving DecidableEq, Repr

structure CleanProjectResponse where
  processesStopped : Nat
  logsDeleted : Nat
  stoppedProcessNames : List String
  deletedLogFiles : List UnixPath
  projectResults : List ProjectCleanResult
  deriving DecidableEq, Repr

structure World (F : Type) where
  daemon : Daemon
  files : F

structure Cleaned (F : Type) where
  stopped : List String
  removed : Removed
  world : World F

structure Outcome (F : Type) where
  response : CleanProjectResponse
  removed : Removed
  world : World F

def sanitizedName (k : ProcessKey) : String :=
  String.ofList (k.name.toList.map fun c => if c = '/' then '_' else c)

def getLogFilePathForKey (logDir : UnixPath) (k : ProcessKey) : UnixPath :=
  (logDir.join (encode k.project)).join (encode (sanitizedName k ++ ".log"))

def asU32 (n : Nat) : Nat := n % 2 ^ 32

variable {F : Type} (env : Env) (fs : FileSystem F) (logDir : UnixPath)

def stopProcesses (project : String) (force : Bool) : Daemon → List ProxyInfo → List String × Daemon
  | d, [] => ([], d)
  | d, p :: ps =>
    match stopProcess env d p.id project force with
    | (.ok (), d') =>
      (p.name :: (stopProcesses project force d' ps).1, (stopProcesses project force d' ps).2)
    | (.error _, d') => stopProcesses project force d' ps

def cleanProject (w : World F) (project : String) (force : Bool) : Cleaned F :=
  let stopped := stopProcesses env project force w.daemon
    (w.daemon.registry.getProcessesByProject project)
  let exclude := (stopped.2.registry.getProcessesByProject project).map fun p =>
    getLogFilePathForKey logDir p.key
  let deleted := deleteProjectLogs fs w.files (logDir.join (encode project)) exclude
  ⟨stopped.1, deleted.1, ⟨stopped.2, deleted.2⟩⟩

def loggedProjects (f : F) : List String :=
  ((fs.readDir f logDir).getD []).filterMap fun entry => entry.bind fun e =>
    if e.fileType = some .dir then some (String.ofList (Utf8.fromUtf8Lossy e.name)) else none

def cleanProjects (force : Bool) : World F → List String → List (String × Cleaned F) × World F
  | w, [] => ([], w)
  | w, project :: projects =>
    let cleaned := cleanProject env fs logDir w project force
    let rest := cleanProjects force cleaned.world projects
    ((project, cleaned) :: rest.1, rest.2)

def cleanAllProjects (w : World F) (force : Bool) : List (String × Cleaned F) × World F :=
  cleanProjects env fs logDir force w
    (w.daemon.registry.getAllProjects ++ loggedProjects fs logDir w.files).dedup.mergeSort

def projectCleanResult (project : String) (c : Cleaned F) : ProjectCleanResult where
  project := project
  processesStopped := asU32 c.stopped.length
  logsDeleted := asU32 c.removed.files.length
  stoppedProcessNames := c.stopped
  deletedLogFiles := c.removed.files

def cleanProjectImpl (w : World F) (q : CleanProjectRequest) : Outcome F :=
  if q.allProjects then
    let results := cleanAllProjects env fs logDir w q.force
    ⟨⟨0, 0, [], [], results.1.map fun r => projectCleanResult r.1 r.2⟩,
      ⟨results.1.flatMap (·.2.removed.files), results.1.flatMap (·.2.removed.dirs)⟩, results.2⟩
  else
    let c := cleanProject env fs logDir w q.target q.force
    ⟨⟨asU32 c.stopped.length, asU32 c.removed.files.length, c.stopped, c.removed.files, []⟩,
      c.removed, c.world⟩

structure Contained (q : CleanProjectRequest) (r : Removed) : Prop where
  files : ∀ f ∈ r.files, ∃ c stem, Plain c ∧ stem ≠ [] ∧
    f = (logDir.child c).child (stem ++ OsString.dot :: logExtension)
  dirs : ∀ d ∈ r.dirs, ∃ c, Plain c ∧ d = logDir.child c
  invalid : q.allProjects = false → ¬ ValidProject q.target → r = ⟨[], []⟩

theorem plain_of_valid {project : String} (h : ValidProject project) : Plain (encode project) := by
  obtain ⟨hne, hd, hdd, hs⟩ := h.shape
  exact OsString.plain_encode hne hd hdd hs

theorem plain_of_logged {f : F} {project : String} (h : project ∈ loggedProjects fs logDir f) :
    Plain (encode project) := by
  obtain ⟨entry, -, he⟩ := List.mem_filterMap.mp h
  obtain ⟨e, -, he⟩ := Option.bind_eq_some_iff.mp he
  split at he
  · cases he
    obtain ⟨hne, hd, hdd, hs⟩ := OsString.lossy_ne e.plain
    exact OsString.plain_encode hne hd hdd hs
  · cases he

theorem cleanProject_files {w : World F} {project : String} {force : Bool}
    (h : Plain (encode project)) :
    ∀ f ∈ (cleanProject env fs logDir w project force).removed.files, ∃ c stem, Plain c ∧
      stem ≠ [] ∧ f = (logDir.child c).child (stem ++ OsString.dot :: logExtension) := by
  intro f hf
  obtain ⟨stem, hne, rfl⟩ := Cleaner.deleted_file fs hf
  exact ⟨encode project, stem, h, hne, by rw [UnixPath.join_plain h]⟩

theorem cleanProject_dirs {w : World F} {project : String} {force : Bool}
    (h : Plain (encode project)) :
    ∀ d ∈ (cleanProject env fs logDir w project force).removed.dirs,
      ∃ c, Plain c ∧ d = logDir.child c := by
  intro d hd
  refine ⟨encode project, h, ?_⟩
  rw [← UnixPath.join_plain h]
  exact Cleaner.removed_dir fs hd

theorem cleanProjects_mem {force : Bool} {projects : List String} {w : World F}
    {r : String × Cleaned F} (h : r ∈ (cleanProjects env fs logDir force w projects).1) :
    r.1 ∈ projects ∧ ∃ w', r.2 = cleanProject env fs logDir w' r.1 force := by
  induction projects generalizing w with
  | nil => cases h
  | cons project projects ih =>
    rcases List.mem_cons.mp h with rfl | h
    · exact ⟨List.mem_cons_self, w, rfl⟩
    · obtain ⟨hmem, w', e⟩ := ih h
      exact ⟨List.mem_cons_of_mem _ hmem, w', e⟩

theorem cleanAllProjects_plain {w : World F} {force : Bool}
    (hw : ∀ p ∈ w.daemon.registry.processes, ValidProject p.project)
    {r : String × Cleaned F} (h : r ∈ (cleanAllProjects env fs logDir w force).1) :
    Plain (encode r.1) ∧ ∃ w', r.2 = cleanProject env fs logDir w' r.1 force := by
  obtain ⟨hmem, hr⟩ := cleanProjects_mem env fs logDir h
  refine ⟨?_, hr⟩
  rw [List.mem_mergeSort, List.mem_dedup, List.mem_append] at hmem
  rcases hmem with hmem | hmem
  · rw [Registry.getAllProjects, List.mem_mergeSort, List.mem_dedup, List.mem_map] at hmem
    obtain ⟨p, hp, e⟩ := hmem
    exact e ▸ plain_of_valid (hw p hp)
  · exact plain_of_logged fs logDir hmem

theorem contained_all {w : World F} {q : CleanProjectRequest} (hq : q.allProjects = true)
    (hw : ∀ p ∈ w.daemon.registry.processes, ValidProject p.project) :
    Contained logDir q (cleanProjectImpl env fs logDir w q).removed := by
  rw [cleanProjectImpl, if_pos hq]
  refine ⟨?_, ?_, fun hf => by cases hq.symm.trans hf⟩
  · intro f hf
    obtain ⟨r, hr, hf⟩ := List.mem_flatMap.mp hf
    obtain ⟨hplain, w', e⟩ := cleanAllProjects_plain env fs logDir hw hr
    exact cleanProject_files env fs logDir hplain f (e ▸ hf)
  · intro d hd
    obtain ⟨r, hr, hd⟩ := List.mem_flatMap.mp hd
    obtain ⟨hplain, w', e⟩ := cleanAllProjects_plain env fs logDir hw hr
    exact cleanProject_dirs env fs logDir hplain d (e ▸ hd)

theorem contained_valid {w : World F} {q : CleanProjectRequest} (hq : q.allProjects = false)
    (hv : ValidProject q.target) :
    Contained logDir q (cleanProjectImpl env fs logDir w q).removed := by
  rw [cleanProjectImpl, hq]
  exact ⟨cleanProject_files env fs logDir (plain_of_valid hv),
    cleanProject_dirs env fs logDir (plain_of_valid hv), fun _ h => absurd hv h⟩

theorem cleanProject_invalid {w : World F} {project : String} (force : Bool)
    (hv : ¬ ValidProject project)
    (hw : ∀ p ∈ w.daemon.registry.processes, ValidProject p.project) :
    (cleanProject env fs logDir w project force).removed =
      (deleteProjectLogs fs w.files (logDir.join (encode project)) []).1 := by
  have hnone : w.daemon.registry.getProcessesByProject project = [] := by
    rw [Registry.getProcessesByProject, List.filter_eq_nil_iff]
    intro p hp e
    exact hv (of_decide_eq_true e ▸ hw p hp)
  simp [cleanProject, hnone, stopProcesses]

theorem contained_invalid {w : World F} {q : CleanProjectRequest} (hq : q.allProjects = false)
    (hv : ¬ ValidProject q.target)
    (hw : ∀ p ∈ w.daemon.registry.processes, ValidProject p.project) :
    Contained logDir q (cleanProjectImpl env fs logDir w q).removed ↔
      NothingToDelete fs w.files (logDir.join (encode q.target)) := by
  rw [← Cleaner.deleteProjectLogs_nothing, ← cleanProject_invalid env fs logDir q.force hv hw,
    cleanProjectImpl, hq]
  constructor
  · exact fun h => h.invalid hq hv
  · intro h
    refine ⟨?_, ?_, fun _ _ => h⟩
    all_goals
      intro p hp
      simp [h] at hp

theorem clean_contained_iff (isUuid : String → Bool) (compileRegex : String → Except String Unit)
    {s : Manager.State} (hs : (Manager.machine isUuid compileRegex).Reachable s) {w : World F}
    (hw : w.daemon.registry = s.registry) {q : CleanProjectRequest} :
    Contained logDir q (cleanProjectImpl env fs logDir w q).removed ↔
      q.allProjects = true ∨ ValidProject q.target ∨
        NothingToDelete fs w.files (logDir.join (encode q.target)) := by
  have hvalid : ∀ p ∈ w.daemon.registry.processes, ValidProject p.project := by
    rw [hw]
    exact (Manager.reachable_validProjects isUuid compileRegex hs).entries
  cases hq : q.allProjects with
  | true => simp [contained_all env fs logDir hq hvalid]
  | false =>
    by_cases hv : ValidProject q.target
    · simp [contained_valid env fs logDir hq hv, hv]
    · simp [contained_invalid env fs logDir hq hv hvalid, hv]

def resolve (p : UnixPath) : List OsString :=
  p.parts.foldl (fun acc c => if c = [OsString.dot, OsString.dot] then acc.dropLast else acc ++ [c]) []

-- A file system of regular files only, each given by where it lies below the root.
def plainFiles : FileSystem (List (List OsString)) where
  readDir files dir := some (files.filterMap fun file =>
    if file.dropLast = resolve dir then
      file.getLast?.map fun name => if h : Plain name then some ⟨name, some .file, h⟩ else none
    else none)
  removeFile files path := if resolve path ∈ files then some (files.erase (resolve path)) else none
  removeDir files dir := if files.any fun file => resolve dir <+: file then none else some files

def stateLog : UnixPath := ⟨true, [encode "state", encode "log"]⟩

def webState : Manager.State :=
  (Manager.machine (fun _ => false) fun _ => .ok ()).exec .initial
    (Manager.startRun 0 Manager.webRequest 7 "a")

def webWorld : World (List (List OsString)) where
  daemon := ⟨webState.registry, webState.status, []⟩
  files := [[encode "state", encode "other", encode "notes.log"],
    [encode "state", encode "log", encode "app", encode "web.log"]]

def webEntry : Cleaner.DirEntry := ⟨encode "web.log", some .file, by decide⟩

theorem webEntry_isLogFile : webEntry.isLogFile = true := by decide

theorem webWorld_candidates :
    Cleaner.candidates (stateLog.join (encode "app")) [] [some webEntry] =
      [(stateLog.child (encode "app")).child (encode "web.log")] := by
  have hpath : (stateLog.join (encode "app")).child webEntry.name =
      (stateLog.child (encode "app")).child (encode "web.log") := by decide
  simp [Cleaner.candidates, webEntry_isLogFile, hpath]

theorem clean_contained_iff_web :
    let c := cleanProjectImpl ProcessHandlers.quietEnv plainFiles stateLog webWorld
      ⟨some "app", false, false⟩
    c.removed = ⟨[(stateLog.child (encode "app")).child (encode "web.log")],
        [stateLog.child (encode "app")]⟩ ∧
      Contained stateLog ⟨some "app", false, false⟩ c.removed := by
  refine ⟨?_, (clean_contained_iff ProcessHandlers.quietEnv plainFiles stateLog (fun _ => false)
    (fun _ => .ok ()) (s := webState)
    ⟨Manager.startRun 0 Manager.webRequest 7 "a", by decide, rfl⟩ rfl).mpr
    (Or.inr (Or.inl (by decide : ValidProject "app")))⟩
  have hread : plainFiles.readDir webWorld.files (stateLog.join (encode "app")) =
      some [some webEntry] := by decide
  have hexclude : (stopProcesses ProcessHandlers.quietEnv "app" false webWorld.daemon
      (webWorld.daemon.registry.getProcessesByProject "app")).2.registry.getProcessesByProject
        "app" = [] := by decide
  change (cleanProject ProcessHandlers.quietEnv plainFiles stateLog webWorld "app" false).removed = _
  simp only [cleanProject, hexclude, List.map_nil, deleteProjectLogs, hread, webWorld_candidates]
  decide

theorem clean_deletes_outside_log_dir :
    ¬ ∀ (env : Env) (fs : FileSystem (List (List OsString))) (logDir : UnixPath)
      (s : Manager.State) (w : World (List (List OsString))) (q : CleanProjectRequest),
      (Manager.machine (fun _ => false) fun _ => .ok ()).Reachable s →
      w.daemon.registry = s.registry →
      Contained logDir q (cleanProjectImpl env fs logDir w q).removed := by
  intro hall
  have hreach : (Manager.machine (fun _ => false) fun _ => .ok ()).Reachable webState :=
    ⟨Manager.startRun 0 Manager.webRequest 7 "a", by decide, rfl⟩
  have hnone := (contained_invalid ProcessHandlers.quietEnv plainFiles stateLog
    (q := ⟨some "../other", false, false⟩) rfl
    (by decide : ¬ ValidProject "../other") (w := webWorld)
    (Manager.reachable_validProjects _ _ hreach).entries).mp (hall _ _ _ _ _ _ hreach rfl)
  obtain ⟨hfiles, -⟩ := hnone _ rfl
  have hkept := hfiles ⟨encode "notes.log", some .file, by decide⟩ (by decide) (by decide)
  revert hkept
  decide

end CleanProject
