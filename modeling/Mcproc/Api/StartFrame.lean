import Mcproc.Api.ProcessHandlers

namespace StartFrame

open Manager (Signal)
open ProcessHandlers

structure OthersUntouched (k : ProcessKey) (d d' : Daemon) : Prop where
  entries : ∀ q, q.key ≠ k → (q ∈ d'.registry.processes ↔ q ∈ d.registry.processes)
  status : ∀ q ∈ d.registry.processes, q.key ≠ k → d'.status q.id = d.status q.id
  reserved : ∀ k', k' ≠ k → (k' ∈ d'.registry.reservedNames ↔ k' ∈ d.registry.reservedNames)
  signals : ∀ q ∈ d.registry.processes, q.key ≠ k →
    d'.signals.filter (·.1 = q.id) = d.signals.filter (·.1 = q.id)

-- The registry is keyed by id, and every id is a new UUID.
structure Identified (env : Env) (d : Daemon) : Prop where
  unique : ∀ p ∈ d.registry.processes, ∀ q ∈ d.registry.processes, q.id = p.id → q = p
  uuid : ∀ p ∈ d.registry.processes, env.isUuid p.id = true
  fresh : ∀ r command spawned, env.spawn r command = .ok spawned →
    ∀ p ∈ d.registry.processes, p.id ≠ spawned.id

def NamesNoOther (d : Daemon) (r : StartRequest) : Prop :=
  ∀ p ∈ d.registry.processes, p.project = r.project → p.id = r.name → p.name = r.name

variable {env : Env} {k : ProcessKey}

theorem others_refl (d : Daemon) : OthersUntouched k d d :=
  ⟨fun _ _ => Iff.rfl, fun _ _ _ => rfl, fun _ _ => Iff.rfl, fun _ _ _ => rfl⟩

theorem others_trans {d d' d'' : Daemon} (h : OthersUntouched k d d')
    (h' : OthersUntouched k d' d'') : OthersUntouched k d d'' where
  entries q hq := (h'.entries q hq).trans (h.entries q hq)
  status q hm hq := (h'.status q ((h.entries q hq).mpr hm) hq).trans (h.status q hm hq)
  reserved k' hk := (h'.reserved k' hk).trans (h.reserved k' hk)
  signals q hm hq := (h'.signals q ((h.entries q hq).mpr hm) hq).trans (h.signals q hm hq)

def Apart (k : ProcessKey) (r : Registry) (id : String) : Prop :=
  ∀ q ∈ r.processes, q.key ≠ k → q.id ≠ id

theorem apart_of_mem {d : Daemon} (hd : Identified env d) {p : ProxyInfo}
    (hp : p ∈ d.registry.processes) (hk : p.key = k) : Apart k d.registry p.id := by
  intro q hq hne hid
  rw [hd.unique p hp q hq hid] at hne
  exact hne hk

theorem others_setStatus {d : Daemon} {id : String} (h : Apart k d.registry id) (st : ProcessStatus) :
    OthersUntouched k d (d.setStatus id st) where
  entries _ _ := Iff.rfl
  status q hm hq := Function.update_of_ne (h q hm hq) _ _
  reserved _ _ := Iff.rfl
  signals _ _ _ := rfl

theorem others_signalAll {d : Daemon} {p : ProxyInfo} (h : Apart k d.registry p.id)
    (sigs : List Signal) :
    OthersUntouched k d (d.signalAll p sigs) where
  entries _ _ := Iff.rfl
  status _ _ _ := rfl
  reserved _ _ := Iff.rfl
  signals q hm hq := by
    have hne : ¬ p.id = q.id := fun e => h q hm hq e.symm
    simp [Daemon.signalAll, List.filter_append, List.filter_map, Function.comp_def, hne]

theorem others_remove {d : Daemon} (hd : Identified env d) {p : ProxyInfo}
    (hp : p ∈ d.registry.processes) (hk : p.key = k) : OthersUntouched k d (d.remove p.id) := by
  have hremove : d.remove p.id =
      { d with registry := (d.registry.dropProcess p.id).releaseName p.key } := by
    simp [Daemon.remove, Registry.removeProcess, Registry.getProcessById_of_mem hp (hd.unique p hp)]
  rw [hremove]
  refine ⟨fun q hq => ?_, fun _ _ _ => rfl, fun k' hk' => ?_, fun _ _ _ => rfl⟩
  · exact Registry.mem_dropProcess.trans
      ⟨fun h => h.1, fun h => ⟨h, apart_of_mem hd hp hk q h hq⟩⟩
  · exact Registry.mem_releaseName.trans ⟨fun h => h.2, fun h => ⟨fun e => hk' (e.trans hk), h⟩⟩

theorem identified_remove {d : Daemon} (hd : Identified env d) (id : String) :
    Identified env (d.remove id) where
  unique p hp q hq := hd.unique p (mem_remove hp).1 q (mem_remove hq).1
  uuid p hp := hd.uuid p (mem_remove hp).1
  fresh r command spawned hs p hp := hd.fresh r command spawned hs p (mem_remove hp).1

theorem others_launch {d : Daemon} (hd : Identified env d) (r : StartRequest) :
    OthersUntouched r.key d (launch env d r).2 := by
  simp only [launch]
  split
  · exact others_refl d
  · split
    · exact others_refl d
    · next command _ spawned hs =>
      have hfresh : Apart r.key d.registry spawned.id := fun q hq _ => hd.fresh _ _ _ hs q hq
      refine ⟨fun q hq => ?_, (others_setStatus hfresh spawned.status).status,
        fun _ _ => Iff.rfl, fun _ _ _ => rfl⟩
      refine Registry.mem_addProcess.trans ⟨fun h => ?_, fun h => Or.inr ⟨h, hfresh q h hq⟩⟩
      rcases h with rfl | h
      · exact absurd rfl hq
      · exact h.1

theorem others_releaseName (d : Daemon) (k : ProcessKey) :
    OthersUntouched k d { d with registry := d.registry.releaseName k } :=
  ⟨fun _ _ => Iff.rfl, fun _ _ _ => rfl,
    fun _ hk => Registry.mem_releaseName.trans (and_iff_right hk), fun _ _ _ => rfl⟩

theorem others_reserveName (d : Daemon) (k : ProcessKey) :
    OthersUntouched k d { d with registry := d.registry.reserveName k } :=
  ⟨fun _ _ => Iff.rfl, fun _ _ _ => rfl,
    fun _ hk => Registry.mem_reserveName.trans (or_iff_right hk), fun _ _ _ => rfl⟩

theorem others_reserveAndLaunch {d : Daemon} (hd : Identified env d) (r : StartRequest) :
    OthersUntouched r.key d (reserveAndLaunch env d r).2 := by
  simp only [reserveAndLaunch, Registry.tryReserveName]
  split
  · exact others_refl d
  · next reserved hr =>
    split at hr
    · cases hr
    · cases hr
      have hreserved : Identified env { d with registry := d.registry.reserveName r.key } :=
        ⟨hd.unique, hd.uuid, hd.fresh⟩
      have hlaunch := others_trans (others_reserveName d r.key) (others_launch hreserved r)
      split
      · next h =>
        rw [h] at hlaunch
        exact others_trans hlaunch (others_releaseName _ r.key)
      · next h =>
        rw [h] at hlaunch
        exact hlaunch

theorem others_startWithLogStream {d : Daemon} (hd : Identified env d) (r : StartRequest) :
    OthersUntouched r.key d (startWithLogStream env d r).2 := by
  simp only [startWithLogStream]
  split
  · exact others_reserveAndLaunch hd r
  · next existing hexisting =>
    obtain ⟨hmem, hname, hproject⟩ := Registry.getProcessByNameWithProject_some hexisting
    have hkey : existing.key = r.key := by rw [ProxyInfo.key, hname, hproject]; rfl
    have hremove := others_trans (others_remove hd hmem hkey)
      (others_reserveAndLaunch (identified_remove hd existing.id) r)
    split
    · exact hremove
    · exact hremove
    · exact others_refl d

theorem others_startStream {d : Daemon} (hd : Identified env d) (r : StartRequest) :
    OthersUntouched r.key d (startStream env d r).2 := by
  have h := others_startWithLogStream hd r
  simp only [startStream]
  split
  · next hs =>
    rw [hs] at h
    exact h
  · next hs =>
    rw [hs] at h
    exact h

theorem stopProcess_uuid {d : Daemon} (hd : Identified env d) {p : ProxyInfo}
    (hp : p ∈ d.registry.processes) (force : Bool) :
    (∃ sent, stopResult env p force = (.ok (), sent) ∧
      stopProcess env d p.id p.project force = (.ok (),
        (((d.setStatus p.id .stopping).signalAll p sent).setStatus p.id .stopped).remove p.id)) ∨
      ∃ e sent, stopResult env p force = (.error e, sent) ∧
        stopProcess env d p.id p.project force =
          (.error e, (d.setStatus p.id .stopping).signalAll p sent) := by
  have hlookup : d.lookup env p.id p.project = some p :=
    Registry.lookup_uuid env.isUuid hp (hd.unique p hp) (hd.uuid p hp)
  simp only [stopProcess, hlookup]
  cases hs : stopResult env p force with
  | mk result sent =>
    cases result with
    | ok => exact Or.inl ⟨sent, rfl, rfl⟩
    | error e => exact Or.inr ⟨e, sent, rfl, rfl⟩

theorem others_stopProcess {d : Daemon} (hd : Identified env d) {p : ProxyInfo}
    (hp : p ∈ d.registry.processes) (hk : p.key = k) (force : Bool) :
    OthersUntouched k d (stopProcess env d p.id p.project force).2 ∧
      Identified env (stopProcess env d p.id p.project force).2 := by
  have hapart := apart_of_mem hd hp hk
  have hsignalled (sent : List Signal) : OthersUntouched k d
      ((d.setStatus p.id .stopping).signalAll p sent) :=
    others_trans (others_setStatus hapart .stopping)
      (others_signalAll (d := d.setStatus p.id .stopping) hapart sent)
  rcases stopProcess_uuid hd hp force with ⟨sent, -, hs⟩ | ⟨e, sent, -, hs⟩
  · have hstopped : Identified env
        (((d.setStatus p.id .stopping).signalAll p sent).setStatus p.id .stopped) :=
      ⟨hd.unique, hd.uuid, hd.fresh⟩
    have hstored := others_trans (hsignalled sent)
      (others_setStatus (d := (d.setStatus p.id .stopping).signalAll p sent) hapart .stopped)
    rw [hs]
    exact ⟨others_trans hstored (others_remove hstopped hp hk), identified_remove hstopped p.id⟩
  · rw [hs]
    exact ⟨hsignalled sent, hd.unique, hd.uuid, hd.fresh⟩

theorem stopResult_kills (p : ProxyInfo) : .sigkill ∈ (stopResult env p true).2 := by
  simp only [stopResult]
  split <;> simp [StopEnd.signals]

theorem stopProcess_touches {d : Daemon} (hd : Identified env d) {p : ProxyInfo}
    (hp : p ∈ d.registry.processes) (hk : p.key ≠ k) :
    (∃ d', stopProcess env d p.id p.project true = (.ok (), d') ∧ p ∉ d'.registry.processes) ∨
      ∃ e d', stopProcess env d p.id p.project true = (.error e, d') ∧ ¬ OthersUntouched k d d' := by
  have hkill : .sigkill ∈ (stopResult env p true).2 := stopResult_kills p
  rcases stopProcess_uuid hd hp true with ⟨sent, -, hs⟩ | ⟨e, sent, hsent, hs⟩
  · exact Or.inl ⟨_, hs, fun hmem => (mem_remove hmem).2 rfl⟩
  · refine Or.inr ⟨e, _, hs, fun h => ?_⟩
    rw [hsent] at hkill
    have hsignals := h.signals p hp hk
    simp only [Daemon.signalAll, Daemon.setStatus, List.filter_append, List.append_right_eq_self,
      List.filter_eq_nil_iff] at hsignals
    exact hsignals (p.id, .sigkill) (List.mem_map.mpr ⟨.sigkill, hkill, rfl⟩) (by simp)

theorem lookup_key {d : Daemon} {r : StartRequest} (hn : NamesNoOther d r) {p : ProxyInfo}
    (h : d.lookup env r.name r.project = some p) : p ∈ d.registry.processes ∧ p.key = r.key := by
  have hmem := Registry.lookup_mem env.isUuid h
  obtain ⟨hproject, hname⟩ := Registry.lookup_project env.isUuid h
  refine ⟨hmem, ?_⟩
  have hown : p.name = r.name := hname.elim id (hn p hmem hproject)
  rw [ProxyInfo.key, hproject, hown]
  rfl

theorem lookup_other {d : Daemon} (hd : Identified env d) {r : StartRequest} {p : ProxyInfo}
    (hp : p ∈ d.registry.processes) (hproject : p.project = r.project) (hid : p.id = r.name) :
    d.lookup env r.name r.project = some p := by
  rw [← hid, ← hproject]
  exact Registry.lookup_uuid env.isUuid hp (hd.unique p hp) (hd.uuid p hp)

theorem others_forceRestart {d : Daemon} (hd : Identified env d) {r : StartRequest}
    (hv : validateStart r = .ok ()) :
    OthersUntouched r.key d (startProcessImpl env d r true).2 ↔ NamesNoOther d r := by
  simp only [startProcessImpl, hv, if_true]
  constructor
  · intro h p hp hproject hid
    by_contra hname
    have hkey : p.key ≠ r.key := fun e => hname (congrArg ProcessKey.name e)
    have hd' := (others_stopProcess hd hp rfl true).2
    rw [lookup_other hd hp hproject hid] at h
    rw [← hproject] at h
    rcases stopProcess_touches hd hp hkey with ⟨d', hs, hgone⟩ | ⟨e, d', hs, htouched⟩
    · simp only [hs] at h hd'
      exact hgone (((others_startStream hd' r).entries p hkey).mp ((h.entries p hkey).mpr hp))
    · simp only [hs] at h
      exact htouched h
  · intro hn
    split
    · exact others_startStream hd r
    · next existing hl =>
      obtain ⟨hmem, hkey⟩ := lookup_key hn hl
      have hproject : existing.project = r.project := congrArg ProcessKey.project hkey
      obtain ⟨hstop, hd'⟩ := others_stopProcess hd hmem hkey true
      rw [hproject] at hstop hd'
      split
      · next hs =>
        rw [hs] at hstop
        exact hstop
      · next hs =>
        rw [hs] at hstop hd'
        exact others_trans hstop (others_startStream hd' r)

theorem start_touches_own_name_iff {d : Daemon} (hd : Identified env d) (r : StartRequest)
    (forceRestart : Bool) :
    OthersUntouched r.key d (startProcessImpl env d r forceRestart).2 ↔
      validateStart r ≠ .ok () ∨ forceRestart = false ∨ NamesNoOther d r := by
  cases hv : validateStart r with
  | error e =>
    simp only [startProcessImpl, hv]
    exact iff_of_true (others_refl d) (Or.inl (by simp))
  | ok u =>
    cases forceRestart with
    | true => simp [others_forceRestart hd hv]
    | false =>
      simp only [startProcessImpl, hv]
      exact iff_of_true (others_startStream hd r) (by simp)

def webId : String := "0f8fad5b-d9cb-469f-a165-70867728950e"

def newId : String := "7c9e6679-7425-40de-944b-e07fc1f90ae7"

def uuidEnv : Env where
  isUuid s := s = webId || s = newId
  compileRegex _ := .ok ()
  stopEnd _ := .killed
  retryEnd _ := .killed
  spawn _ _ := .ok ⟨8, newId, .running⟩

def webProxy : ProxyInfo := ProxyInfo.new Manager.webRequest webId 7

def uuidDaemon : Daemon where
  registry := (Registry.new.addProcess webProxy).reserveName Manager.webRequest.key
  status _ := .running
  signals := []

-- A request whose name is the id of the process "web".
def idRequest : StartRequest := { Manager.webRequest with name := webId }

theorem uuidDaemon_identified : Identified uuidEnv uuidDaemon := by
  refine ⟨by decide, by decide, fun r command spawned hs => ?_⟩
  cases hs
  decide

theorem start_touches_own_name_iff_web :
    OthersUntouched Manager.webRequest.key uuidDaemon
      (startProcessImpl uuidEnv uuidDaemon Manager.webRequest true).2 :=
  (start_touches_own_name_iff uuidDaemon_identified Manager.webRequest true).mpr
    (Or.inr (Or.inr (by unfold NamesNoOther; decide)))

theorem start_stops_other_process :
    ¬ ∀ (env : Env) (d : Daemon) (r : StartRequest) (forceRestart : Bool), Identified env d →
      validateStart r = .ok () →
      OthersUntouched r.key d (startProcessImpl env d r forceRestart).2 := by
  intro hall
  have h := hall uuidEnv uuidDaemon idRequest true uuidDaemon_identified (by decide)
  have hweb := (h.entries webProxy (by decide)).mpr (by decide)
  revert hweb
  decide

end StartFrame
