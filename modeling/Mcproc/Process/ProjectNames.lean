import Mcproc.Process.ManagerFrame

namespace Manager

open Validation (ValidProject)

def Pc.request : Pc → Option StartRequest
  | .startLookup r | .startStatus r _ | .startRemove r _ | .startRelease r _ | .startReserve r
  | .startLaunch r | .startAdd r _ _ => some r
  | _ => none

def Task.request : Task → Option StartRequest
  | .start r | .forceRestart r => some r
  | _ => none

def Call.Asks (c : Call) (r : StartRequest) : Prop :=
  c.pc.request = some r ∨ ∃ t ∈ c.rest, t.request = some r

variable (isUuid : String → Bool) (compileRegex : String → Except String Unit)

theorem asks_goto {s : State} {i j : Nat} {pc : Pc} {r : StartRequest}
    (h : ((s.goto i pc).calls j).Asks r) : (s.calls j).Asks r ∨ j = i ∧ pc.request = some r :=
  State.goto_or (·.request = some r) (fun rest => ∃ t ∈ rest, t.request = some r) h

theorem asks_keep {s : State} {i : Nat} {pc c : Pc} {r : StartRequest}
    (hpc : (s.calls i).pc = pc) (hk : ∀ q, c.request = some q → pc.request = some q)
    (h : ((s.goto i c).calls i).Asks r) : (s.calls i).Asks r := by
  rcases asks_goto h with h | ⟨-, h⟩
  · exact h
  · exact Or.inl (hpc ▸ hk r h)

theorem asks_quiet {s : State} {i : Nat} {pc' : Pc} {r : StartRequest} (hn : pc'.request = none)
    (h : ((s.goto i pc').calls i).Asks r) : (s.calls i).Asks r := by
  rcases asks_goto h with h | ⟨-, h⟩
  · exact h
  · rw [hn] at h
    cases h

@[simp] theorem afterSync_request (p : ProxyInfo) (f : Bool) : (afterSync p f).request = none := by
  cases f <;> rfl

@[simp] theorem afterExitCode_request (p : ProxyInfo) (f : Bool) (o : Option Int) :
    (afterExitCode p f o).request = none := by
  cases o <;> rfl

@[simp] theorem afterExitStatus_request (p : ProxyInfo) (f : Bool) (code : Int)
    (st : ProcessStatus) : (afterExitStatus p f code st).request = none := by
  simp only [afterExitStatus]
  split
  · rfl
  · exact afterSync_request p f

@[simp] theorem afterProbeStatus_request (p : ProxyInfo) (f alive : Bool) (st : ProcessStatus) :
    (afterProbeStatus p f alive st).request = none := by
  simp only [afterProbeStatus]
  repeat' split
  all_goals first
    | rfl
    | exact afterSync_request p f

@[simp] theorem afterReport_request (p : ProxyInfo) (st : ProcessStatus) :
    (afterReport p st).request = none := by
  simp only [afterReport]
  split <;> rfl

@[simp] theorem afterStopError_request (tolerant : Bool) :
    (afterStopError tolerant).request = none := by
  cases tolerant <;> rfl

@[simp] theorem afterStopLookup_request (force tolerant : Bool) (o : Option ProxyInfo) :
    (afterStopLookup force tolerant o).request = none := by
  cases o
  · exact afterStopError_request tolerant
  · rfl

@[simp] theorem afterStopTimeout_request (c : StopCall) : (afterStopTimeout c).request = none := by
  simp only [afterStopTimeout]
  split
  · exact afterStopError_request _
  · rfl

@[simp] theorem afterStopRemove_request (c : StopCall) (o : Option ProxyInfo) :
    (afterStopRemove c o).request = none := by
  cases o <;> rfl

theorem request_of_mapped {α : Type} {f : α → Task} (hf : ∀ x, (f x).request = none) {xs : List α}
    {t : Task} {rest : List Task} {r : StartRequest} (ht : t ∈ xs.map f ++ rest)
    (hr : t.request = some r) : t ∈ rest := by
  rcases List.mem_append.mp ht with ht | ht
  · obtain ⟨x, -, rfl⟩ := List.mem_map.mp ht
    cases (hf x).symm.trans hr
  · exact ht

theorem run_asks {s : State} {t : Task} {rest : List Task} {r : StartRequest}
    (h : (t.run isUuid s rest).Asks r) :
    (∃ t' ∈ t :: rest, t'.request = some r) ∨
      ∃ p ∈ s.registry.processes, r.project = p.project := by
  cases t with
  | start q =>
    rcases h with h | ⟨t', ht, hr⟩
    · exact Or.inl ⟨.start q, List.mem_cons_self, h⟩
    · exact Or.inl ⟨t', List.mem_cons_of_mem _ ht, hr⟩
  | forceRestart q =>
    left
    simp only [Task.run] at h
    split at h <;> simpa [Call.Asks, Pc.request, Task.request] using h
  | restart n project w t =>
    simp only [Task.run] at h
    split at h
    · next p hp =>
      simp only [Call.Asks, Pc.request, List.mem_cons, exists_eq_or_imp, Task.request,
        reduceCtorEq, false_or, Option.some.injEq] at h
      rcases h with rfl | ⟨t', ht, hr⟩
      · exact Or.inr ⟨p, Registry.lookup_mem isUuid hp, rfl⟩
      · exact Or.inl ⟨t', List.mem_cons_of_mem _ ht, hr⟩
    · rcases h with h | ⟨t', ht, hr⟩
      · cases h
      · exact Or.inl ⟨t', List.mem_cons_of_mem _ ht, hr⟩
  | clean | cleanAll | syncAll =>
    left
    rcases h with h | ⟨t', ht, hr⟩
    · cases h
    · exact ⟨t', List.mem_cons_of_mem _ (request_of_mapped (fun _ => rfl) ht hr), hr⟩
  | stop | awaitRemoval | sync =>
    left
    rcases h with h | ⟨t', ht, hr⟩
    · cases h
    · exact ⟨t', List.mem_cons_of_mem _ ht, hr⟩

theorem asks_step {s : State} {a : Action} (h : enabled isUuid compileRegex s a) {j : Nat}
    {r : StartRequest} (hm : ((next isUuid s a).calls j).Asks r) :
    (s.calls j).Asks r ∨ ValidProject r.project ∨
      ∃ p ∈ s.registry.processes, r.project = p.project := by
  by_cases hj : a.actor = some j
  swap
  · rw [calls_frame isUuid s a hj] at hm
    exact Or.inl hm
  cases a with
  | begin i t =>
    cases hj
    simp only [next, Function.update_self, Call.Asks, Pc.request, List.mem_singleton,
      exists_eq_left, reduceCtorEq, false_or] at hm
    cases t with
    | start q | forceRestart q => cases hm; exact Or.inr (Or.inl h.2.2.2)
    | _ => cases hm
  | task i t rest =>
    cases hj
    simp only [next, Function.update_self] at hm
    rcases run_asks isUuid hm with ⟨t', ht, hr⟩ | hp
    · exact Or.inl (Or.inr ⟨t', by rw [show s.calls j = _ from h]; exact ht, hr⟩)
    · exact Or.inr (Or.inr hp)
  | startLookup i q =>
    cases hj
    exact Or.inl (asks_keep h (fun _ hq => by unfold afterLookup at hq; split at hq <;> exact hq) hm)
  | startStatus i q e =>
    cases hj
    exact Or.inl (asks_keep h (fun _ hq => by
      simp only [afterStatus] at hq
      split at hq <;> first | exact hq | cases hq) hm)
  | startRemove i q e =>
    cases hj
    exact Or.inl (asks_keep h (fun _ hq => by unfold afterRemove at hq; split at hq <;> exact hq) hm)
  | startReserve i q =>
    cases hj
    exact Or.inl (asks_keep h (fun _ hq => by split at hq <;> first | exact hq | cases hq) hm)
  | startRelease i q k =>
    cases hj
    exact Or.inl (asks_keep (s := s.setRegistry (s.registry.releaseName k)) (c := .startReserve q)
      h (fun _ hq => hq) hm)
  | startSpawn i q pid =>
    cases hj
    exact Or.inl (asks_keep (s := s.launch pid) (c := .startAdd q pid s.groups.length)
      h.1 (fun _ hq => hq) hm)
  | monitorReap | monitorError | monitorExitCode | monitorStatus | monitorFailed | monitorPublish
  | leaderExit | fork | memberExit | memberReap => cases hj
  | _ =>
    cases hj
    refine Or.inl (asks_quiet ?_ hm)
    first
    | rfl
    | simp

structure ValidProjects (s : State) : Prop where
  entries : ∀ p ∈ s.registry.processes, ValidProject p.project
  calls : ∀ i r, (s.calls i).Asks r → ValidProject r.project

theorem validProjects_step {s : State} {a : Action} (hs : ValidProjects s)
    (h : enabled isUuid compileRegex s a) : ValidProjects (next isUuid s a) where
  entries p hp := by
    rcases entry_step isUuid hp with hp | ⟨i, r, pid, g, id, rfl, rfl⟩
    · exact hs.entries p hp
    · exact hs.calls i r (Or.inl (by rw [show (s.calls i).pc = _ from h.1]; rfl))
  calls i r hr := by
    rcases asks_step isUuid compileRegex h hr with hr | hr | ⟨p, hp, e⟩
    · exact hs.calls i r hr
    · exact hr
    · exact e ▸ hs.entries p hp

theorem reachable_validProjects {s : State} (h : (machine isUuid compileRegex).Reachable s) :
    ValidProjects s := by
  refine (machine isUuid compileRegex).reachable_induction (J := ValidProjects) ?_
    (fun _ _ hs he => validProjects_step isUuid compileRegex hs he) h
  refine ⟨(by intro p hp; cases hp), fun i r hr => ?_⟩
  rcases hr with hr | ⟨t, ht, -⟩
  · cases hr
  · cases ht

end Manager
