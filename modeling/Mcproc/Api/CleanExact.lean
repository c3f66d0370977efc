import Mcproc.Api.CleanRuns

namespace Cleaner

variable {F : Type} (fs : FileSystem F)

def spared (dir : UnixPath) (doomed : List UnixPath) (entry : Option DirEntry) : Bool :=
  entry.all fun e => dir.child e.name ∉ doomed

-- A directory whose contents the daemon may change, and no one else does meanwhile.
structure Writable (dir : UnixPath) : Prop where
  removeFile : ∀ f entries e, fs.readDir f dir = some entries → some e ∈ entries →
    e.fileType = some .file → ∃ f', fs.removeFile f (dir.child e.name) = some f' ∧
      fs.readDir f' dir = some (entries.filter (spared dir [dir.child e.name]))
  removeDir : ∀ f, fs.readDir f dir = some [] →
    ∃ f', fs.removeDir f dir = some f' ∧ fs.readDir f' dir = none

def names (entries : List (Option DirEntry)) : List OsString := (entries.filterMap id).map (·.name)

theorem child_inj {dir : UnixPath} {a b : OsString} : dir.child a = dir.child b ↔ a = b := by
  simp [UnixPath.child]

theorem spared_cons (dir path : UnixPath) (paths : List UnixPath) (entry : Option DirEntry) :
    spared dir (path :: paths) entry = (spared dir [path] entry && spared dir paths entry) := by
  cases entry with
  | none => rfl
  | some e => simp [spared, not_or]

variable {fs}

theorem removeFiles_exact {dir : UnixPath} (hw : Writable fs dir) {f : F}
    {entries : List (Option DirEntry)} {paths : List UnixPath} (hnodup : paths.Nodup)
    (hr : fs.readDir f dir = some entries)
    (hp : ∀ path ∈ paths, ∃ e, some e ∈ entries ∧ e.fileType = some .file ∧ path = dir.child e.name) :
    (removeFiles fs f paths).1 = paths ∧
      fs.readDir (removeFiles fs f paths).2 dir = some (entries.filter (spared dir paths)) := by
  induction paths generalizing f entries with
  | nil =>
    refine ⟨rfl, hr.trans (congrArg some (List.filter_eq_self.mpr fun x _ => ?_).symm)⟩
    cases x <;> simp [spared]
  | cons path paths ih =>
    obtain ⟨hnew, hpaths⟩ := List.nodup_cons.mp hnodup
    obtain ⟨e, he, htype, rfl⟩ := hp path List.mem_cons_self
    obtain ⟨f', hf', hr'⟩ := hw.removeFile f entries e hr he htype
    have hrest : ∀ path ∈ paths, ∃ e', some e' ∈ entries.filter (spared dir [dir.child e.name]) ∧
        e'.fileType = some .file ∧ path = dir.child e'.name := by
      intro path hpath
      obtain ⟨e', he', htype', rfl⟩ := hp path (List.mem_cons_of_mem _ hpath)
      refine ⟨e', List.mem_filter.mpr ⟨he', ?_⟩, htype', rfl⟩
      have hne : dir.child e'.name ≠ dir.child e.name := fun h => hnew (h ▸ hpath)
      simpa [spared] using hne
    obtain ⟨hfiles, hlist⟩ := ih hpaths hr' hrest
    simp only [removeFiles, hf']
    refine ⟨congrArg _ hfiles, hlist.trans (congrArg some ?_)⟩
    rw [List.filter_filter]
    refine List.filter_congr fun x _ => ?_
    rw [Bool.and_comm, ← spared_cons]

theorem candidates_nodup {dir : UnixPath} (exclude : List UnixPath)
    {entries : List (Option DirEntry)} (h : (names entries).Nodup) :
    (candidates dir exclude entries).Nodup := by
  have hnames : ((entries.filterMap id).map fun e => dir.child e.name).Nodup := by
    have hmap : ((entries.filterMap id).map fun e => dir.child e.name) =
        (names entries).map dir.child := by
      simp [names]
    rw [hmap]
    exact h.map fun _ _ => child_inj.mp
  refine (List.mergeSort_perm _ _).nodup_iff.mpr (List.Nodup.filter _ ?_)
  exact hnames.sublist ((List.filter_sublist).map _)

theorem candidates_listed {dir : UnixPath} {exclude : List UnixPath}
    {entries : List (Option DirEntry)} :
    ∀ path ∈ candidates dir exclude entries,
      ∃ e, some e ∈ entries ∧ e.fileType = some .file ∧ path = dir.child e.name := by
  intro path hpath
  obtain ⟨e, he, hlog, rfl, -⟩ := mem_candidates.mp hpath
  simp only [DirEntry.isLogFile, Bool.and_eq_true, decide_eq_true_eq] at hlog
  exact ⟨e, he, hlog.1, rfl⟩

theorem removeEmptyDir_exact {dir : UnixPath} (hw : Writable fs dir) {f : F}
    {entries : List (Option DirEntry)} (hr : fs.readDir f dir = some entries) :
    (removeEmptyDir fs f dir).1 = (if entries = [] then [dir] else []) ∧
      fs.readDir (removeEmptyDir fs f dir).2 dir = if entries = [] then none else some entries := by
  cases entries with
  | nil =>
    obtain ⟨f', hf', hr'⟩ := hw.removeDir f hr
    simp [removeEmptyDir, hr, hf', hr']
  | cons x entries => simp [removeEmptyDir, hr]

def remaining (dir : UnixPath) (exclude : List UnixPath) (entries : List (Option DirEntry)) :
    List (Option DirEntry) :=
  entries.filter (spared dir (candidates dir exclude entries))

theorem deleteProjectLogs_exact {dir : UnixPath} (hw : Writable fs dir) {f : F}
    {entries : List (Option DirEntry)} (exclude : List UnixPath) (hn : (names entries).Nodup)
    (hr : fs.readDir f dir = some entries) :
    (deleteProjectLogs fs f dir exclude).1 =
        ⟨candidates dir exclude entries,
          if remaining dir exclude entries = [] then [dir] else []⟩ ∧
      fs.readDir (deleteProjectLogs fs f dir exclude).2 dir =
        if remaining dir exclude entries = [] then none
        else some (remaining dir exclude entries) := by
  obtain ⟨hfiles, hlist⟩ :=
    removeFiles_exact hw (candidates_nodup exclude hn) hr candidates_listed
  obtain ⟨hdirs, hleft⟩ := removeEmptyDir_exact hw hlist
  rw [remaining]
  simp only [deleteProjectLogs, hr, hfiles, hdirs, hleft, and_self]

theorem candidates_remaining (dir : UnixPath) (exclude : List UnixPath)
    (entries : List (Option DirEntry)) :
    candidates dir exclude (remaining dir exclude entries) = [] := by
  refine List.eq_nil_iff_forall_not_mem.mpr fun path hpath => ?_
  obtain ⟨e, he, hlog, rfl, hx⟩ := mem_candidates.mp hpath
  obtain ⟨he, hspared⟩ := List.mem_filter.mp he
  simp only [spared, Option.all_some, decide_eq_true_eq] at hspared
  exact hspared (mem_candidates.mpr ⟨e, he, hlog, rfl, hx⟩)

theorem deleteProjectLogs_again {dir : UnixPath} (hw : Writable fs dir) {f : F}
    {entries : List (Option DirEntry)} (exclude : List UnixPath) (hn : (names entries).Nodup)
    (hr : fs.readDir f dir = some entries) :
    (deleteProjectLogs fs (deleteProjectLogs fs f dir exclude).2 dir exclude).1 = ⟨[], []⟩ := by
  obtain ⟨-, hleft⟩ := deleteProjectLogs_exact hw exclude hn hr
  rw [deleteProjectLogs, hleft]
  split
  · rfl
  · next entries' h =>
    split at h
    · cases h
    · next hne =>
      obtain rfl := Option.some.inj h
      rw [if_neg hne] at hleft
      simp [candidates_remaining, removeFiles, removeEmptyDir, hleft, hne]

end Cleaner

namespace CleanProject

open Cleaner (Writable DirEntry FileSystem names remaining spared deleteProjectLogs
  deleteProjectLogs_exact deleteProjectLogs_again mem_candidates)
open CleanRuns (excluded project_of_dir spares_excluded)
open ProcessHandlers (Daemon Env stopProcess mem_remove)
open Utf8 (encode)
open Validation (ValidProject)

variable {F : Type} (env : Env) (fs : FileSystem F) (logDir : UnixPath)

-- A log file that no process left in the registry, of whatever project, writes to.
structure Abandoned (project : String) (r : Registry) (entries : List (Option DirEntry))
    (path : UnixPath) : Prop where
  listed : ∃ e, some e ∈ entries ∧ e.isLogFile = true ∧
    path = (logDir.join (encode project)).child e.name
  unused : ∀ p ∈ r.processes, resolve (getLogFilePathForKey logDir p.key) ≠ resolve path

theorem stopProcess_subset {d : Daemon} {nameOrId project : String} {force : Bool}
    {p : ProxyInfo} (h : p ∈ (stopProcess env d nameOrId project force).2.registry.processes) :
    p ∈ d.registry.processes := by
  simp only [stopProcess] at h
  split at h
  · exact h
  · split at h
    · exact (mem_remove h).1
    · exact h

theorem stopProcesses_subset {project : String} {force : Bool} {ps : List ProxyInfo} {d : Daemon}
    {p : ProxyInfo} (h : p ∈ (stopProcesses env project force d ps).2.registry.processes) :
    p ∈ d.registry.processes := by
  induction ps generalizing d with
  | nil => exact h
  | cons q ps ih =>
    have hsub : p ∈ (stopProcess env d q.id project force).2.registry.processes →
        p ∈ d.registry.processes := stopProcess_subset env
    refine hsub ?_
    simp only [stopProcesses] at h
    split at h
    · next d' hd =>
      rw [hd]
      exact ih h
    · next e d' hd =>
      rw [hd]
      exact ih h

-- Only a process of the project itself can have its log file in the project's directory.
theorem not_excluded {project : String} {r : Registry} (hv : ValidProject project)
    (hr : ∀ p ∈ r.processes, ValidProject p.project) {e : DirEntry} :
    (logDir.join (encode project)).child e.name ∉ excluded logDir r project ↔
      ∀ p ∈ r.processes, resolve (getLogFilePathForKey logDir p.key) ≠
        resolve ((logDir.join (encode project)).child e.name) := by
  constructor
  · intro hx p hp hsame
    exact spares_excluded (fun q hq => project_of_dir (hr q hq) hv) p hp ⟨e.name, e.plain, hx, hsame⟩
  · intro hx hmem
    obtain ⟨p, hp, heq⟩ := List.mem_map.mp hmem
    exact hx p (List.mem_filter.mp hp).1 (congrArg resolve heq)

-- A file system with this one directory in it.
def oneDir (dir : UnixPath) : FileSystem (Option (List DirEntry)) where
  readDir f d := if d = dir then f.map (·.map some) else none
  removeFile f path :=
    f.bind fun entries =>
      if entries.any fun e => dir.child e.name = path then
        some (some (entries.filter fun e => dir.child e.name ≠ path))
      else none
  removeDir f d := if d = dir ∧ f = some [] then some none else none

theorem oneDir_writable (dir : UnixPath) : Writable (oneDir dir) dir where
  removeFile f entries e hr he _ := by
    simp only [oneDir, if_true, Option.map_eq_some_iff] at hr
    obtain ⟨listed, rfl, rfl⟩ := hr
    have hmem : e ∈ listed := by simpa using he
    refine ⟨some (listed.filter fun x => dir.child x.name ≠ dir.child e.name), ?_, ?_⟩
    · have hany : listed.any (fun x => dir.child x.name = dir.child e.name) = true :=
        List.any_eq_true.mpr ⟨e, hmem, decide_eq_true rfl⟩
      simp only [oneDir, Option.bind_some, hany, if_true]
    · simp [oneDir, List.filter_map, Function.comp_def, spared]
  removeDir f hr := by
    simp only [oneDir, if_true, Option.map_eq_some_iff, List.map_eq_nil_iff, exists_eq_right] at hr
    exact ⟨none, by simp [oneDir, hr], by simp [oneDir]⟩

def appDir : UnixPath := stateLog.join (encode "app")

def oldEntry : DirEntry := ⟨encode "old.log", some .file, by decide⟩

def appFiles : List DirEntry :=
  [webEntry, oldEntry, ⟨encode "notes.txt", some .file, by decide⟩]

def appWorld : World (Option (List DirEntry)) :=
  ⟨⟨webState.registry, webState.status, []⟩, some appFiles⟩

-- The group of web outlives its SIGKILL, so web stays registered.
def stubbornEnv : Env := { ProcessHandlers.quietEnv with stopEnd := fun _ => .survived }

end CleanProject
