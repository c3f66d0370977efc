import Mcproc.Lib.UnixPath

namespace Cleaner

open OsString (Plain extension)

inductive FileType where
  | file
  | dir
  | other
  deriving DecidableEq, Repr

structure DirEntry where
  name : OsString
  fileType : Option FileType
  plain : Plain name
  deriving DecidableEq

-- What the operating system answers; a call that changes nothing returns none.
structure FileSystem (F : Type) where
  readDir : F → UnixPath → Option (List (Option DirEntry))
  removeFile : F → UnixPath → Option F
  removeDir : F → UnixPath → Option F

structure Removed where
  files : List UnixPath
  dirs : List UnixPath
  deriving DecidableEq, Repr

def logExtension : OsString := Utf8.encode "log"

def DirEntry.isLogFile (e : DirEntry) : Bool :=
  e.fileType = some .file && extension e.name = some logExtension

def candidates (dir : UnixPath) (exclude : List UnixPath) (entries : List (Option DirEntry)) :
    List UnixPath :=
  ((((entries.filterMap id).filter (·.isLogFile)).map fun e => dir.child e.name).filter
    (· ∉ exclude)).mergeSort UnixPath.le

variable {F : Type} (fs : FileSystem F)

def removeFiles : F → List UnixPath → List UnixPath × F
  | f, [] => ([], f)
  | f, path :: paths =>
    match fs.removeFile f path with
    | some f' => (path :: (removeFiles f' paths).1, (removeFiles f' paths).2)
    | none => removeFiles f paths

def removeEmptyDir (f : F) (dir : UnixPath) : List UnixPath × F :=
  if (fs.readDir f dir).any (·.isEmpty) then
    match fs.removeDir f dir with
    | some f' => ([dir], f')
    | none => ([], f)
  else ([], f)

def deleteProjectLogs (f : F) (dir : UnixPath) (exclude : List UnixPath) : Removed × F :=
  match fs.readDir f dir with
  | none => (⟨[], []⟩, f)
  | some entries =>
    let deleted := removeFiles fs f (candidates dir exclude entries)
    let emptied := removeEmptyDir fs deleted.2 dir
    (⟨deleted.1, emptied.1⟩, emptied.2)

def NothingToDelete (f : F) (dir : UnixPath) : Prop :=
  ∀ entries, fs.readDir f dir = some entries →
    (∀ e, some e ∈ entries → e.isLogFile → fs.removeFile f (dir.child e.name) = none) ∧
      (entries = [] → fs.removeDir f dir = none)

theorem mem_candidates {dir : UnixPath} {exclude : List UnixPath}
    {entries : List (Option DirEntry)} {path : UnixPath} :
    path ∈ candidates dir exclude entries ↔
      ∃ e, some e ∈ entries ∧ e.isLogFile ∧ path = dir.child e.name ∧ path ∉ exclude := by
  simp only [candidates, List.mem_mergeSort, List.mem_filter, List.mem_map, List.mem_filterMap, id,
    decide_eq_true_eq]
  constructor
  · rintro ⟨⟨e, ⟨⟨_, he, rfl⟩, hlog⟩, rfl⟩, hx⟩
    exact ⟨e, he, hlog, rfl, hx⟩
  · rintro ⟨e, he, hlog, rfl, hx⟩
    exact ⟨⟨e, ⟨⟨_, he, rfl⟩, hlog⟩, rfl⟩, hx⟩

theorem removeFiles_subset {f : F} {paths : List UnixPath} :
    ∀ path ∈ (removeFiles fs f paths).1, path ∈ paths := by
  induction paths generalizing f with
  | nil =>
    intro path hp
    cases hp
  | cons p paths ih =>
    simp only [removeFiles]
    split
    · intro path hp
      rcases List.mem_cons.mp hp with rfl | hp
      · exact List.mem_cons_self
      · exact List.mem_cons_of_mem _ (ih path hp)
    · exact fun path hp => List.mem_cons_of_mem _ (ih path hp)

theorem removeFiles_nil {f : F} {paths : List UnixPath} :
    (removeFiles fs f paths).1 = [] ↔ ∀ path ∈ paths, fs.removeFile f path = none := by
  induction paths with
  | nil => simp [removeFiles]
  | cons p paths ih =>
    simp only [removeFiles]
    split
    · next f' h => simp [h]
    · next h => simp [h, ih]

theorem removeFiles_kept {f : F} {paths : List UnixPath}
    (h : ∀ path ∈ paths, fs.removeFile f path = none) : (removeFiles fs f paths).2 = f := by
  induction paths with
  | nil => rfl
  | cons p paths ih =>
    rw [removeFiles, h p List.mem_cons_self]
    exact ih fun path hp => h path (List.mem_cons_of_mem _ hp)

theorem removeEmptyDir_nil {f : F} {dir : UnixPath} :
    (removeEmptyDir fs f dir).1 = [] ↔
      (fs.readDir f dir = some [] → fs.removeDir f dir = none) := by
  simp only [removeEmptyDir]
  split
  · next h =>
    have hd : fs.readDir f dir = some [] := by simpa [Option.any_eq_true] using h
    split
    · next f' hr => simp [hd, hr]
    · next hr => simp [hr]
  · next h =>
    refine iff_of_true rfl fun hd => absurd ?_ h
    rw [hd]
    rfl

theorem removeEmptyDir_subset {f : F} {dir : UnixPath} :
    ∀ path ∈ (removeEmptyDir fs f dir).1, path = dir := by
  simp only [removeEmptyDir]
  repeat' split
  all_goals simp

theorem deleted_file {f : F} {dir : UnixPath} {exclude : List UnixPath} {path : UnixPath}
    (h : path ∈ (deleteProjectLogs fs f dir exclude).1.files) :
    ∃ stem, stem ≠ [] ∧ path = dir.child (stem ++ OsString.dot :: logExtension) := by
  simp only [deleteProjectLogs] at h
  split at h
  · cases h
  · obtain ⟨e, -, hlog, rfl, -⟩ := mem_candidates.mp (removeFiles_subset fs path h)
    simp only [DirEntry.isLogFile, Bool.and_eq_true, decide_eq_true_eq] at hlog
    obtain ⟨stem, hne, hname⟩ := OsString.extension_some hlog.2
    exact ⟨stem, hne, by rw [hname]⟩

theorem removed_dir {f : F} {dir : UnixPath} {exclude : List UnixPath} {path : UnixPath}
    (h : path ∈ (deleteProjectLogs fs f dir exclude).1.dirs) : path = dir := by
  simp only [deleteProjectLogs] at h
  split at h
  · cases h
  · exact removeEmptyDir_subset fs path h

theorem deleteProjectLogs_nothing {f : F} {dir : UnixPath} :
    (deleteProjectLogs fs f dir []).1 = ⟨[], []⟩ ↔ NothingToDelete fs f dir := by
  simp only [deleteProjectLogs, NothingToDelete]
  split
  · next h => simp [h]
  · next entries h =>
    simp only [Removed.mk.injEq, removeFiles_nil, removeEmptyDir_nil, h, Option.some.injEq,
      forall_eq', mem_candidates, List.not_mem_nil, not_false_eq_true, and_true]
    have hkept (hf : ∀ path, (∃ e, some e ∈ entries ∧ e.isLogFile ∧ path = dir.child e.name) →
        fs.removeFile f path = none) :
        (removeFiles fs f (candidates dir [] entries)).2 = f :=
      removeFiles_kept fs fun path hp => by
        obtain ⟨e, he, hlog, rfl, -⟩ := mem_candidates.mp hp
        exact hf _ ⟨e, he, hlog, rfl⟩
    constructor
    · rintro ⟨hf, hd⟩
      rw [hkept hf, h, Option.some.injEq] at hd
      exact ⟨fun e he hlog => hf _ ⟨e, he, hlog, rfl⟩, hd⟩
    · rintro ⟨hf, hd⟩
      have hf' : ∀ path, (∃ e, some e ∈ entries ∧ e.isLogFile ∧ path = dir.child e.name) →
          fs.removeFile f path = none := by
        rintro path ⟨e, he, hlog, rfl⟩
        exact hf e he hlog
      refine ⟨hf', ?_⟩
      rw [hkept hf', h, Option.some.injEq]
      exact hd

end Cleaner
