import Mathlib.Data.Finset.Basic
import Mathlib.Data.List.Dedup
import Mcproc.Process.Launcher

structure ProcessKey where
  project : String
  name : String
  deriving DecidableEq, Repr

structure ProxyInfo where
  id : String
  name : String
  project : String
  cmd : Option String
  args : List String
  cwd : Option String
  env : Option (List (String × String))
  waitForLog : Option String
  waitTimeout : Option Nat
  toolchain : Option String
  pid : Nat
  deriving DecidableEq, Repr

namespace ProxyInfo

def key (p : ProxyInfo) : ProcessKey := ⟨p.project, p.name⟩

def new (r : StartRequest) (id : String) (pid : Nat) : ProxyInfo where
  id := id
  name := r.name
  project := r.project
  cmd := r.cmd
  args := r.args
  cwd := r.cwd
  env := r.env
  waitForLog := r.waitForLog
  waitTimeout := r.waitTimeout
  toolchain := r.toolchain
  pid := pid

end ProxyInfo

def StartRequest.key (r : StartRequest) : ProcessKey := ⟨r.project, r.name⟩

@[simp] theorem ProxyInfo.new_id (r : StartRequest) (id : String) (pid : Nat) :
    (ProxyInfo.new r id pid).id = id := rfl

structure Registry where
  processes : List ProxyInfo
  reservedNames : Finset ProcessKey
  deriving DecidableEq

namespace Registry

def new : Registry := ⟨[], ∅⟩

def dropProcess (r : Registry) (id : String) : Registry :=
  { r with processes := r.processes.filter (·.id ≠ id) }

def addProcess (r : Registry) (p : ProxyInfo) : Registry :=
  { r with processes := p :: (r.dropProcess p.id).processes }

def reserveName (r : Registry) (k : ProcessKey) : Registry :=
  { r with reservedNames := insert k r.reservedNames }

def releaseName (r : Registry) (k : ProcessKey) : Registry :=
  { r with reservedNames := r.reservedNames.erase k }

def tryReserveName (r : Registry) (k : ProcessKey) : Bool × Registry :=
  if k ∈ r.reservedNames then (false, r) else (true, r.reserveName k)

def getProcessById (r : Registry) (id : String) : Option ProxyInfo :=
  r.processes.find? (·.id = id)

def removeProcess (r : Registry) (id : String) : Option ProxyInfo × Registry :=
  match r.getProcessById id with
  | some p => (some p, (r.dropProcess id).releaseName p.key)
  | none => (none, r)

def getProcessByNameWithProject (r : Registry) (name project : String) : Option ProxyInfo :=
  r.processes.find? fun p => p.name = name && p.project = project

def getProcessByName (r : Registry) (name : String) : Option ProxyInfo :=
  r.processes.find? (·.name = name)

variable (isUuid : String → Bool)

def getProcessByNameOrId (r : Registry) (nameOrId : String) : Option ProxyInfo :=
  if isUuid nameOrId then (r.getProcessById nameOrId).or (r.getProcessByName nameOrId)
  else (r.getProcessByName nameOrId).or (r.getProcessById nameOrId)

def getProcessByNameOrIdWithProject (r : Registry) (nameOrId : String) (project : Option String) :
    Option ProxyInfo :=
  match project with
  | some projectName =>
    let idLookup := (r.getProcessById nameOrId).filter (·.project = projectName)
    let nameLookup := r.getProcessByNameWithProject nameOrId projectName
    if isUuid nameOrId then idLookup.or nameLookup else nameLookup.or idLookup
  | none => r.getProcessByNameOrId isUuid nameOrId

def getProcessesByProject (r : Registry) (project : String) : List ProxyInfo :=
  r.processes.filter (·.project = project)

def getAllProjects (r : Registry) : List String :=
  ((r.processes.map (·.project)).dedup).mergeSort

@[simp] theorem mem_dropProcess {r : Registry} {id : String} {p : ProxyInfo} :
    p ∈ (r.dropProcess id).processes ↔ p ∈ r.processes ∧ p.id ≠ id := by
  simp [dropProcess]

@[simp] theorem mem_addProcess {r : Registry} {p q : ProxyInfo} :
    q ∈ (r.addProcess p).processes ↔ q = p ∨ q ∈ r.processes ∧ q.id ≠ p.id := by
  simp [addProcess]

@[simp] theorem mem_reserveName {r : Registry} {k k' : ProcessKey} :
    k' ∈ (r.reserveName k).reservedNames ↔ k' = k ∨ k' ∈ r.reservedNames := by
  simp [reserveName]

@[simp] theorem mem_releaseName {r : Registry} {k k' : ProcessKey} :
    k' ∈ (r.releaseName k).reservedNames ↔ k' ≠ k ∧ k' ∈ r.reservedNames := by
  simp [releaseName]

theorem getProcessById_some {r : Registry} {id : String} {p : ProxyInfo}
    (h : r.getProcessById id = some p) : p ∈ r.processes ∧ p.id = id :=
  ⟨List.mem_of_find?_eq_some h, by simpa using List.find?_some h⟩

theorem getProcessById_none {r : Registry} {id : String} (h : r.getProcessById id = none) :
    ∀ p ∈ r.processes, p.id ≠ id := by
  simpa [getProcessById] using h

theorem getProcessById_dropProcess {r : Registry} {id id' : String} (h : id' ≠ id) :
    (r.dropProcess id).getProcessById id' = r.getProcessById id' := by
  simp only [getProcessById, dropProcess, List.find?_filter]
  congr 1
  funext p
  by_cases hp : p.id = id'
  · simp [hp, h]
  · simp [hp]

theorem getProcessById_addProcess {r : Registry} {p : ProxyInfo} {id : String} (h : id ≠ p.id) :
    (r.addProcess p).getProcessById id = r.getProcessById id := by
  rw [← getProcessById_dropProcess (r := r) h]
  simp [getProcessById, addProcess, h.symm]

theorem nodup_dropProcess {r : Registry} (id : String)
    (h : (r.processes.map ProxyInfo.id).Nodup) :
    ((r.dropProcess id).processes.map ProxyInfo.id).Nodup :=
  h.sublist (List.filter_sublist.map _)

theorem nodup_addProcess {r : Registry} (p : ProxyInfo)
    (h : (r.processes.map ProxyInfo.id).Nodup) :
    ((r.addProcess p).processes.map ProxyInfo.id).Nodup := by
  rw [addProcess, List.map_cons, List.nodup_cons]
  exact ⟨by simp, nodup_dropProcess p.id h⟩

theorem getProcessById_of_mem {r : Registry} {p : ProxyInfo} (hp : p ∈ r.processes)
    (hu : ∀ q ∈ r.processes, q.id = p.id → q = p) : r.getProcessById p.id = some p := by
  cases h : r.getProcessById p.id with
  | none => exact absurd rfl (getProcessById_none h p hp)
  | some q =>
    obtain ⟨hq, hid⟩ := getProcessById_some h
    rw [hu q hq hid]

theorem getProcessByNameWithProject_some {r : Registry} {name project : String} {p : ProxyInfo}
    (h : r.getProcessByNameWithProject name project = some p) :
    p ∈ r.processes ∧ p.name = name ∧ p.project = project :=
  ⟨List.mem_of_find?_eq_some h, by simpa using List.find?_some h⟩

theorem getProcessByName_some {r : Registry} {name : String} {p : ProxyInfo}
    (h : r.getProcessByName name = some p) : p ∈ r.processes ∧ p.name = name :=
  ⟨List.mem_of_find?_eq_some h, by simpa using List.find?_some h⟩

theorem lookup_mem {r : Registry} {nameOrId : String} {project : Option String} {p : ProxyInfo}
    (h : r.getProcessByNameOrIdWithProject isUuid nameOrId project = some p) :
    p ∈ r.processes := by
  cases project with
  | none =>
    simp only [getProcessByNameOrIdWithProject, getProcessByNameOrId] at h
    split at h <;> rcases Option.or_eq_some_iff.mp h with h | ⟨-, h⟩
    · exact (getProcessById_some h).1
    · exact (getProcessByName_some h).1
    · exact (getProcessByName_some h).1
    · exact (getProcessById_some h).1
  | some project =>
    simp only [getProcessByNameOrIdWithProject] at h
    split at h <;> rcases Option.or_eq_some_iff.mp h with h | ⟨-, h⟩
    · exact (getProcessById_some (Option.filter_eq_some_iff.mp h).1).1
    · exact (getProcessByNameWithProject_some h).1
    · exact (getProcessByNameWithProject_some h).1
    · exact (getProcessById_some (Option.filter_eq_some_iff.mp h).1).1

theorem lookup_project {r : Registry} {nameOrId project : String} {p : ProxyInfo}
    (h : r.getProcessByNameOrIdWithProject isUuid nameOrId (some project) = some p) :
    p.project = project ∧ (p.name = nameOrId ∨ p.id = nameOrId) := by
  have hid {q : ProxyInfo}
      (hq : (r.getProcessById nameOrId).filter (·.project = project) = some q) :
      q.project = project ∧ (q.name = nameOrId ∨ q.id = nameOrId) := by
    obtain ⟨hq, hp⟩ := Option.filter_eq_some_iff.mp hq
    exact ⟨of_decide_eq_true hp, Or.inr (getProcessById_some hq).2⟩
  have hname {q : ProxyInfo} (hq : r.getProcessByNameWithProject nameOrId project = some q) :
      q.project = project ∧ (q.name = nameOrId ∨ q.id = nameOrId) := by
    obtain ⟨-, hn, hp⟩ := getProcessByNameWithProject_some hq
    exact ⟨hp, Or.inl hn⟩
  simp only [getProcessByNameOrIdWithProject] at h
  split at h <;> rcases Option.or_eq_some_iff.mp h with h | ⟨-, h⟩
  · exact hid h
  · exact hname h
  · exact hname h
  · exact hid h

theorem lookup_uuid {r : Registry} {p : ProxyInfo} (hp : p ∈ r.processes)
    (hu : ∀ q ∈ r.processes, q.id = p.id → q = p) (hid : isUuid p.id = true) :
    r.getProcessByNameOrIdWithProject isUuid p.id (some p.project) = some p := by
  simp [getProcessByNameOrIdWithProject, hid, getProcessById_of_mem hp hu]

end Registry
