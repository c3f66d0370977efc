import Mathlib.Data.List.Infix
import Mcproc.Process.ManagerFrame

namespace Manager

def MonitorPc.stored : MonitorPc → Bool
  | .publishing _ | .done => true
  | _ => false

def ProcessEvent.exitOf (id : String) : ProcessEvent → Bool
  | .stopped i _ | .failed i => i = id
  | _ => false

def State.Exited (s : State) (id : String) : Prop := ∃ e ∈ s.events, e.exitOf id = true

instance (s : State) (id : String) : Decidable (s.Exited id) :=
  inferInstanceAs (Decidable (∃ e ∈ s.events, _))

structure ExitFinal (s : State) : Prop where
  status : ∀ id, (s.monitor id).stored = true → (s.status id).active = false
  events : ∀ id pre, pre ++ [.started id] <+: s.events → ∀ e ∈ pre, e.exitOf id = false

-- The two late steps: a status chosen before the monitor's own is stored after it, and a start that
-- saw Running reports it after the exit was published.
def Timely (s : State) : Action → Prop
  | .syncStore _ p _ status => status.active = true → (s.monitor p.id).stored = false
  | .startStarted _ p => ¬ s.Exited p.id
  | _ => True

-- The entry a start call has made and not yet given a monitor.
def Pc.opening : Pc → Option ProxyInfo
  | .startKeep p | .startPublish p | .startMonitor p => some p
  | _ => none

def Action.opens : Action → Bool
  | .startAdd _ _ _ _ _ | .startKeep _ _ | .startPublish _ _ => true
  | _ => false

variable (isUuid : String → Bool) (compileRegex : String → Except String Unit)

theorem State.setMonitor_self (s : State) (id : String) (pc : MonitorPc) :
    (s.setMonitor id pc).monitor id = pc :=
  Function.update_self ..

theorem opening_none (s : State) {a : Action} {i : Nat} (hi : a.actor = some i)
    (ha : a.opens = false) : ((next isUuid s a).calls i).pc.opening = none := by
  cases a with
  | startAdd | startKeep | startPublish => cases ha
  | monitorReap | monitorError | monitorExitCode | monitorStatus | monitorFailed | monitorPublish
  | leaderExit | fork | memberExit | memberReap => cases hi
  | begin j t => cases hi; simp [next, Pc.opening]
  | task j t rest =>
    cases hi
    simp only [next, Function.update_self]
    cases t <;> simp only [Task.run] <;> (try split) <;> rfl
  | _ =>
    cases hi
    simp only [next, State.goto_pc_self, afterLookup, afterStatus, afterRemove, afterExitCode,
      afterExitStatus, afterProbeStatus, afterSync, afterReport, afterStopError, afterStopLookup,
      afterStopRemove, afterStopTimeout]
    repeat' split
    all_goals rfl

theorem opening_step {s : State} {a : Action} (h : enabled isUuid compileRegex s a) {i : Nat}
    {p : ProxyInfo} (hp : ((next isUuid s a).calls i).pc.opening = some p) :
    (s.calls i).pc.opening = some p ∧ (∀ q, a ≠ .startMonitor i q) ∨
      ∃ r pid g id, a = .startAdd i r pid g id ∧ p = ProxyInfo.new r id pid := by
  by_cases hi : a.actor = some i
  swap
  · rw [calls_frame isUuid s a hi] at hp
    exact Or.inl ⟨hp, fun q e => hi (by rw [e]; rfl)⟩
  cases ho : a.opens with
  | false =>
    rw [opening_none isUuid s hi ho] at hp
    cases hp
  | true =>
    cases a with
    | startAdd j r pid g id =>
      cases hi
      rw [next, State.goto_pc_self] at hp
      exact Or.inr ⟨r, pid, g, id, rfl, (Option.some.inj hp).symm⟩
    | startKeep j q | startPublish j q =>
      cases hi
      rw [next, State.goto_pc_self] at hp
      refine Or.inl ⟨?_, fun _ e => by cases e⟩
      rw [show (s.calls i).pc = _ from h]
      exact hp
    | _ => cases ho

theorem monitor_step {s : State} {a : Action} {id : String}
    (hm : (next isUuid s a).monitor id ≠ .absent) (h : enabled isUuid compileRegex s a) :
    s.monitor id ≠ .absent ∨ ∃ i p, a = .startMonitor i p ∧ p.id = id := by
  have kept {id' : String} {pc : MonitorPc} (hold : s.monitor id' ≠ .absent)
      (hu : Function.update s.monitor id' pc id ≠ .absent) : s.monitor id ≠ .absent := by
    by_cases hid : id = id'
    · rwa [hid]
    · rwa [Function.update_of_ne hid] at hu
  cases a with
  | startMonitor i p =>
    by_cases hid : id = p.id
    · exact Or.inr ⟨i, p, rfl, hid.symm⟩
    · exact Or.inl ((Function.update_of_ne hid _ _).symm.trans_ne hm)
  | monitorReap id' g code => exact Or.inl (kept (by rw [h.1]; nofun) hm)
  | monitorError id' => exact Or.inl (kept (by rw [show s.monitor id' = _ from h]; nofun) hm)
  | monitorExitCode id' code =>
    exact Or.inl (kept (by rw [show s.monitor id' = _ from h]; nofun) hm)
  | monitorStatus id' code =>
    exact Or.inl (kept (by rw [show s.monitor id' = _ from h]; nofun) hm)
  | monitorFailed id' => exact Or.inl (kept (by rw [show s.monitor id' = _ from h]; nofun) hm)
  | monitorPublish id' e => exact Or.inl (kept (by rw [show s.monitor id' = _ from h]; nofun) hm)
  | _ => exact Or.inl hm

structure MonitorFrame (s : State) : Prop where
  resolved : Resolved s
  monitored : ∀ id, s.monitor id ≠ .absent → s.groupOf id ≠ none
  opening : ∀ i p, (s.calls i).pc.opening = some p → s.monitor p.id = .absent
  single : ∀ i j p q, (s.calls i).pc.opening = some p → (s.calls j).pc.opening = some q →
    p.id = q.id → i = j
  publishing : ∀ id e, s.monitor id = .publishing e → e.exitOf id = true

theorem proxy_of_opening {pc : Pc} {p : ProxyInfo} (h : pc.opening = some p) :
    pc.proxy = some p := by
  cases pc <;> first
    | exact h
    | cases h

theorem MonitorFrame.grouped {s : State} (hs : MonitorFrame s) {i : Nat} {p : ProxyInfo}
    (h : (s.calls i).pc.opening = some p) : s.groupOf p.id ≠ none := by
  obtain ⟨g, G, hg, -⟩ := (hs.resolved.calls i p (Or.inl (proxy_of_opening h))).group
  rw [hg]
  nofun

theorem monitorFrame_initial : MonitorFrame State.initial where
  resolved := resolved_initial
  monitored id h := absurd rfl h
  opening _ _ h := by cases h
  single _ _ _ _ h := by cases h
  publishing _ _ h := by cases h

theorem publishing_step {s : State} {a : Action} {id : String} {e : ProcessEvent}
    (hm : (next isUuid s a).monitor id = .publishing e) :
    s.monitor id = .publishing e ∨ e.exitOf id = true := by
  have set {id' : String} {pc : MonitorPc}
      (hu : Function.update s.monitor id' pc id = .publishing e)
      (hpc : ∀ e, pc = .publishing e → e.exitOf id' = true) :
      s.monitor id = .publishing e ∨ e.exitOf id = true := by
    by_cases hid : id = id'
    · subst hid
      rw [Function.update_self] at hu
      exact Or.inr (hpc e hu)
    · rw [Function.update_of_ne hid] at hu
      exact Or.inl hu
  cases a with
  | startMonitor i p => exact set hm fun _ => nofun
  | monitorReap id' g code => exact set hm fun _ => nofun
  | monitorError id' => exact set hm fun _ => nofun
  | monitorExitCode id' code => exact set hm fun _ => nofun
  | monitorStatus id' code => exact set hm fun e he => by cases he; simp [ProcessEvent.exitOf]
  | monitorFailed id' => exact set hm fun e he => by cases he; simp [ProcessEvent.exitOf]
  | monitorPublish id' e' => exact set hm fun _ => nofun
  | _ => exact Or.inl hm

theorem monitorFrame_step {s : State} {a : Action} (hs : MonitorFrame s)
    (h : enabled isUuid compileRegex s a) : MonitorFrame (next isUuid s a) where
  resolved := resolved_step isUuid compileRegex hs.resolved h
  monitored id hm := by
    have hold : s.groupOf id ≠ none := by
      rcases monitor_step isUuid compileRegex hm h with hm | ⟨i, p, rfl, rfl⟩
      · exact hs.monitored id hm
      · exact hs.grouped (i := i) (by rw [show (s.calls i).pc = _ from h]; rfl)
    obtain ⟨g, hg⟩ := Option.ne_none_iff_exists'.mp hold
    rw [(extends_step isUuid compileRegex h).groupOf id g hg]
    nofun
  opening i p hp := by
    by_contra hm
    rcases opening_step isUuid compileRegex h hp with ⟨hold, hother⟩ | ⟨r, pid, g, id, rfl, rfl⟩
    · rcases monitor_step isUuid compileRegex hm h with hm | ⟨j, q, rfl, hid⟩
      · exact hm (hs.opening i p hold)
      · have hj : (s.calls j).pc.opening = some q := by rw [show (s.calls j).pc = _ from h]; rfl
        obtain rfl := hs.single i j p q hold hj hid.symm
        exact hother q rfl
    · exact hs.monitored id hm h.2
  single i j p q hp hq hid := by
    rcases opening_step isUuid compileRegex h hp with ⟨hp', -⟩ | ⟨r, pid, g, id, ha, rfl⟩ <;>
      rcases opening_step isUuid compileRegex h hq with ⟨hq', -⟩ | ⟨r', pid', g', id', ha', rfl⟩
    · exact hs.single i j p q hp' hq' hid
    · subst ha'
      exact absurd h.2 (by rw [← ProxyInfo.new_id r' id' pid', ← hid]; exact hs.grouped hp')
    · subst ha
      exact absurd h.2 (by rw [← ProxyInfo.new_id r id pid, hid]; exact hs.grouped hq')
    · cases ha.symm.trans ha'
      rfl
  publishing id e hm := (publishing_step isUuid hm).elim (hs.publishing id e) fun he => he

theorem stored_by {s : State} {a : Action} {id : String}
    (hm : ((next isUuid s a).monitor id).stored = true) (h : enabled isUuid compileRegex s a) :
    (s.monitor id).stored = true ∨ (∃ code, a = .monitorStatus id code) ∨ a = .monitorFailed id := by
  have fresh {id' : String} {pc : MonitorPc} (hpc : pc.stored = false)
      (hu : (Function.update s.monitor id' pc id).stored = true) : (s.monitor id).stored = true := by
    by_cases hid : id = id'
    · rw [hid, Function.update_self, hpc] at hu
      cases hu
    · rwa [Function.update_of_ne hid] at hu
  have other {id' : String} {pc : MonitorPc} (hid : id ≠ id')
      (hu : (Function.update s.monitor id' pc id).stored = true) : (s.monitor id).stored = true := by
    rwa [Function.update_of_ne hid] at hu
  cases a with
  | startMonitor i p => exact Or.inl (fresh rfl hm)
  | monitorReap id' g code => exact Or.inl (fresh rfl hm)
  | monitorError id' => exact Or.inl (fresh rfl hm)
  | monitorExitCode id' code => exact Or.inl (fresh rfl hm)
  | monitorStatus id' code =>
    by_cases hid : id = id'
    · exact Or.inr (Or.inl ⟨code, by rw [hid]⟩)
    · exact Or.inl (other hid hm)
  | monitorFailed id' =>
    by_cases hid : id = id'
    · exact Or.inr (Or.inr (by rw [hid]))
    · exact Or.inl (other hid hm)
  | monitorPublish id' e =>
    by_cases hid : id = id'
    · left
      rw [hid, show s.monitor id' = _ from h]
      rfl
    · exact Or.inl (other hid hm)
  | _ => exact Or.inl hm

theorem stored_step {s : State} {a : Action} {id : String}
    (hm : ((next isUuid s a).monitor id).stored = true) (h : enabled isUuid compileRegex s a) :
    (s.monitor id).stored = true ∨ ((next isUuid s a).status id).active = false := by
  rcases stored_by isUuid compileRegex hm h with hold | ⟨code, rfl⟩ | rfl
  · exact Or.inl hold
  · right
    simp only [next, State.setMonitor, State.setStatus, Function.update_self]
    split <;> rfl
  · right
    simp [next, State.setMonitor, State.setStatus, ProcessStatus.active]

theorem stored_stays {s : State} {a : Action} (hs : MonitorFrame s)
    (h : enabled isUuid compileRegex s a) {id : String} (hm : (s.monitor id).stored = true) :
    ((next isUuid s a).monitor id).stored = true := by
  have other {id' : String} {pc : MonitorPc} (hid : (s.monitor id').stored = false) :
      (Function.update s.monitor id' pc id).stored = true := by
    rw [Function.update_of_ne, hm]
    rintro rfl
    cases hm.symm.trans hid
  cases a with
  | startMonitor i p =>
    refine other (by rw [hs.opening i p (by rw [show (s.calls i).pc = _ from h]; rfl)]; rfl)
  | monitorReap id' g code => exact other (by rw [h.1]; rfl)
  | monitorError id' => exact other (by rw [show s.monitor id' = _ from h]; rfl)
  | monitorExitCode id' code => exact other (by rw [show s.monitor id' = _ from h]; rfl)
  | monitorStatus id' code => exact other (by rw [show s.monitor id' = _ from h]; rfl)
  | monitorFailed id' => exact other (by rw [show s.monitor id' = _ from h]; rfl)
  | monitorPublish id' e =>
    by_cases hid : id = id'
    · subst hid
      rw [next, State.setMonitor_self]
      rfl
    · exact (congrArg MonitorPc.stored (Function.update_of_ne hid _ _)).trans hm
  | _ => exact hm

theorem active_step (s : State) {a : Action} {id : String}
    (hst : ((next isUuid s a).status id).active = true) :
    (s.status id).active = true ∨ (∃ i r pid g, a = .startAdd i r pid g id) ∨
      ∃ i p f st, a = .syncStore i p f st ∧ p.id = id ∧ st.active = true := by
  have idle {id' : String} {st : ProcessStatus} (hidle : st.active = false)
      (hu : (Function.update s.status id' st id).active = true) : (s.status id).active = true := by
    by_cases hid : id = id'
    · rw [hid, Function.update_self, hidle] at hu
      cases hu
    · rwa [Function.update_of_ne hid] at hu
  cases a with
  | startAdd i r pid g id' =>
    by_cases hid : id = id'
    · subst hid
      exact Or.inr (Or.inl ⟨i, r, pid, g, rfl⟩)
    · exact Or.inl ((congrArg ProcessStatus.active (Function.update_of_ne hid _ _)).symm.trans hst)
  | syncStore i p f st =>
    by_cases hid : id = p.id
    · subst hid
      refine Or.inr (Or.inr ⟨i, p, f, st, rfl, rfl, ?_⟩)
      simpa [next, State.setStatus] using hst
    · exact Or.inl ((congrArg ProcessStatus.active (Function.update_of_ne hid _ _)).symm.trans hst)
  | stopSetStopping i c => exact Or.inl (idle rfl hst)
  | stopSetStopped i c => exact Or.inl (idle rfl hst)
  | monitorStatus id' code => exact Or.inl (idle (by split <;> rfl) hst)
  | monitorFailed id' => exact Or.inl (idle rfl hst)
  | _ => exact Or.inl hst

theorem exitOf_unique {e : ProcessEvent} {id id' : String} (h : e.exitOf id = true)
    (h' : e.exitOf id' = true) : id = id' := by
  cases e <;> simp_all [ProcessEvent.exitOf]

theorem events_step {s : State} {a : Action} (hs : MonitorFrame s)
    (h : enabled isUuid compileRegex s a) :
    (next isUuid s a).events = s.events ∨
      ∃ e, (next isUuid s a).events = s.events ++ [e] ∧
        (∀ id, e = .started id → ∃ i p, a = .startStarted i p ∧ p.id = id) ∧
        ∀ id, e.exitOf id = true → a = .monitorPublish id e := by
  cases a with
  | startPublish i p => exact Or.inr ⟨_, rfl, fun _ => nofun, fun _ => nofun⟩
  | startStarted i p =>
    exact Or.inr ⟨_, rfl, fun id e => ⟨i, p, rfl, by cases e; rfl⟩, fun _ => nofun⟩
  | stopPublish i c => exact Or.inr ⟨_, rfl, fun _ => nofun, fun _ => nofun⟩
  | monitorPublish id' e =>
    have hexit := hs.publishing id' e h
    refine Or.inr ⟨e, rfl, fun id he => ?_, fun id he => ?_⟩
    · rw [he] at hexit
      cases hexit
    · rw [exitOf_unique he hexit]
  | _ => exact Or.inl rfl

theorem exitFinal_initial : ExitFinal State.initial where
  status _ h := by cases h
  events _ _ h := by simp [State.initial] at h

theorem exitFinal_step {s : State} {a : Action} (hs : MonitorFrame s) (hp : ExitFinal s)
    (h : enabled isUuid compileRegex s a) (ht : Timely s a) : ExitFinal (next isUuid s a) where
  status id hm := by
    rcases stored_step isUuid compileRegex hm h with hold | hidle
    · by_contra hact
      rw [Bool.not_eq_false] at hact
      rcases active_step isUuid s hact with hact | ⟨i, r, pid, g, rfl⟩ | ⟨i, p, f, st, rfl, rfl, hst⟩
      · cases hact.symm.trans (hp.status id hold)
      · refine hs.monitored id (fun e => ?_) h.2
        rw [e] at hold
        cases hold
      · cases hold.symm.trans (ht hst)
    · exact hidle
  events id pre hpre e he := by
    rcases events_step isUuid compileRegex hs h with heq | ⟨new, heq, hnew, -⟩
    · rw [heq] at hpre
      exact hp.events id pre hpre e he
    · rw [heq] at hpre
      rcases List.prefix_concat_iff.mp hpre with hlast | hpre
      · obtain ⟨rfl, hev⟩ := List.append_inj' hlast rfl
        obtain ⟨i, p, rfl, rfl⟩ := hnew id (List.singleton_inj.mp hev).symm
        exact Bool.eq_false_iff.mpr fun hexit => ht ⟨e, he, hexit⟩
      · exact hp.events id pre hpre e he

theorem exitFinal_break {s : State} {a : Action} (ht : ¬ Timely s a) :
    ¬ ExitFinal (next isUuid s a) := by
  intro hp
  cases a with
  | syncStore i p f st =>
    simp only [Timely, Classical.not_imp, Bool.not_eq_false] at ht
    have hst := hp.status p.id ht.2
    rw [show (next isUuid s (.syncStore i p f st)).status p.id = st from Function.update_self ..,
      ht.1] at hst
    cases hst
  | startStarted i p =>
    simp only [Timely, not_not] at ht
    obtain ⟨e, he, hexit⟩ := ht
    have hfalse := hp.events p.id s.events (List.prefix_refl _) e he
    cases hexit.symm.trans hfalse
  | _ => exact ht trivial

-- The two windows between a read of the status and what is done with it.
def Pc.late : Pc → Option ProxyInfo
  | .sync p _ (.store status) => if status.active then some p else none
  | .startStarted p => some p
  | _ => none

-- The monitor stays out of both windows.
def Apart (s : State) : Action → Prop
  | .monitorStatus id _ | .monitorFailed id =>
    ∀ i p f st, (s.calls i).pc = .sync p f (.store st) → st.active = true → p.id ≠ id
  | .monitorPublish id _ => ∀ i p, (s.calls i).pc = .startStarted p → p.id ≠ id
  | _ => True

def Action.readsStatus : Action → Bool
  | .syncProbeStatus _ _ _ _ | .startReport _ _ => true
  | _ => false

theorem late_none (s : State) {a : Action} {i : Nat} (hi : a.actor = some i)
    (ha : a.readsStatus = false) : ((next isUuid s a).calls i).pc.late = none := by
  cases a with
  | syncProbeStatus | startReport => cases ha
  | monitorReap | monitorError | monitorExitCode | monitorStatus | monitorFailed | monitorPublish
  | leaderExit | fork | memberExit | memberReap => cases hi
  | begin j t => cases hi; simp [next, Pc.late]
  | task j t rest =>
    cases hi
    simp only [next, Function.update_self]
    cases t <;> simp only [Task.run] <;> (try split) <;> rfl
  | _ =>
    cases hi
    simp only [next, State.goto_pc_self, afterLookup, afterStatus, afterRemove, afterExitCode,
      afterExitStatus, afterSync, afterStopError, afterStopLookup, afterStopRemove,
      afterStopTimeout]
    repeat' split
    all_goals rfl

-- A call gets into a window by reading Starting or Running.
theorem late_step {s : State} {a : Action} {i : Nat} {p : ProxyInfo}
    (hp : ((next isUuid s a).calls i).pc.late = some p) :
    ((next isUuid s a).calls i).pc = (s.calls i).pc ∨
      a.readsStatus = true ∧ (s.status p.id).active = true := by
  by_cases hi : a.actor = some i
  swap
  · rw [calls_frame isUuid s a hi]
    exact Or.inl rfl
  cases hr : a.readsStatus with
  | false =>
    rw [late_none isUuid s hi hr] at hp
    cases hp
  | true =>
    refine Or.inr ⟨rfl, ?_⟩
    cases a with
    | syncProbeStatus j q f alive =>
      cases hi
      rw [next, State.goto_pc_self, afterProbeStatus] at hp
      split at hp
      · split at hp
        · next hst =>
          cases hp
          rw [hst]
          rfl
        · cases f <;> cases hp
      · split at hp
        · cases hp
        · cases f <;> cases hp
    | startReport j q =>
      cases hi
      rw [next, State.goto_pc_self, afterReport] at hp
      split at hp
      · next hst =>
        cases hp
        rw [hst]
        rfl
      · cases hp
    | _ => cases hr

structure Windows (s : State) : Prop where
  exited : ∀ id, s.Exited id → (s.monitor id).stored = true
  store : ∀ i p f st, (s.calls i).pc = .sync p f (.store st) → st.active = true →
    (s.monitor p.id).stored = false
  started : ∀ i p, (s.calls i).pc = .startStarted p → ¬ s.Exited p.id

theorem windows_initial : Windows State.initial where
  exited _ h := by obtain ⟨e, he, -⟩ := h; cases he
  store _ _ _ _ h := by cases h
  started _ _ h := by cases h

theorem exited_step {s : State} {a : Action} (hs : MonitorFrame s)
    (h : enabled isUuid compileRegex s a) {id : String} (he : (next isUuid s a).Exited id) :
    s.Exited id ∨ ∃ e, a = .monitorPublish id e := by
  obtain ⟨e, he, hexit⟩ := he
  rcases events_step isUuid compileRegex hs h with heq | ⟨new, heq, -, hnew⟩
  · exact Or.inl ⟨e, heq ▸ he, hexit⟩
  · rw [heq] at he
    rcases List.mem_append.mp he with he | he
    · exact Or.inl ⟨e, he, hexit⟩
    · obtain rfl := List.mem_singleton.mp he
      exact Or.inr ⟨e, hnew id hexit⟩

theorem windows_step {s : State} {a : Action} (hs : MonitorFrame s) (hp : ExitFinal s)
    (hw : Windows s) (h : enabled isUuid compileRegex s a) (ha : Apart s a) :
    Windows (next isUuid s a) where
  exited id he := by
    rcases exited_step isUuid compileRegex hs h he with he | ⟨e, rfl⟩
    · exact stored_stays isUuid compileRegex hs h (hw.exited id he)
    · rw [next, State.setMonitor_self]
      rfl
  store i p f st hpc hact := by
    by_contra hm
    rw [Bool.not_eq_false] at hm
    rcases late_step isUuid (p := p) (by rw [hpc, Pc.late, if_pos hact]) with hsame | ⟨hr, hst⟩
    · rw [hpc] at hsame
      rcases stored_by isUuid compileRegex hm h with hold | ⟨code, rfl⟩ | rfl
      · cases hold.symm.trans (hw.store i p f st hsame.symm hact)
      · exact ha i p f st hsame.symm hact rfl
      · exact ha i p f st hsame.symm hact rfl
    · rcases stored_by isUuid compileRegex hm h with hold | ⟨code, rfl⟩ | rfl
      · cases hst.symm.trans (hp.status p.id hold)
      · cases hr
      · cases hr
  started i p hpc he := by
    rcases late_step isUuid (p := p) (by rw [hpc]; rfl) with hsame | ⟨hr, hst⟩
    · rw [hpc] at hsame
      rcases exited_step isUuid compileRegex hs h he with hold | ⟨e, rfl⟩
      · exact hw.started i p hsame.symm hold
      · exact ha i p hsame.symm rfl
    · rcases exited_step isUuid compileRegex hs h he with hold | ⟨e, rfl⟩
      · cases hst.symm.trans (hp.status p.id (hw.exited p.id hold))
      · cases hr

theorem timely_of_windows {s : State} {a : Action} (hw : Windows s)
    (h : enabled isUuid compileRegex s a) : Timely s a := by
  cases a with
  | syncStore i p f st => exact hw.store i p f st h
  | startStarted i p => exact hw.started i p h
  | _ => trivial

-- The exit is final here and whatever step comes next.
structure Lasting (s : State) : Prop where
  here : ExitFinal s
  onward : ∀ b, enabled isUuid compileRegex s b → ExitFinal (next isUuid s b)

theorem lasting_of_windows {s : State} (hs : MonitorFrame s) (hp : ExitFinal s) (hw : Windows s) :
    Lasting isUuid compileRegex s where
  here := hp
  onward _ hb := exitFinal_step isUuid compileRegex hs hp hb
    (timely_of_windows isUuid compileRegex hw hb)

theorem lasting_initial : Lasting isUuid compileRegex State.initial :=
  lasting_of_windows isUuid compileRegex monitorFrame_initial exitFinal_initial windows_initial

-- The call in the window is free to take its step.
theorem lasting_break {s : State} {a : Action} (hs : MonitorFrame s)
    (h : enabled isUuid compileRegex s a) (ha : ¬ Apart s a) :
    ¬ Lasting isUuid compileRegex (next isUuid s a) := by
  intro hl
  have late {i : Nat} {p : ProxyInfo} {f : Bool} {st : ProcessStatus}
      (hpc : ((next isUuid s a).calls i).pc = .sync p f (.store st)) (hact : st.active = true)
      (hm : ((next isUuid s a).monitor p.id).stored = true) : False := by
    refine exitFinal_break isUuid (a := .syncStore i p f st) (fun ht => ?_) (hl.onward _ hpc)
    cases hm.symm.trans (ht hact)
  cases a with
  | monitorStatus id code =>
    simp only [Apart, not_forall, ne_eq, not_not] at ha
    obtain ⟨i, p, f, st, hpc, hact, rfl⟩ := ha
    exact late hpc hact (by rw [next, State.setMonitor_self]; rfl)
  | monitorFailed id =>
    simp only [Apart, not_forall, ne_eq, not_not] at ha
    obtain ⟨i, p, f, st, hpc, hact, rfl⟩ := ha
    exact late hpc hact (by rw [next, State.setMonitor_self]; rfl)
  | monitorPublish id e =>
    simp only [Apart, not_forall, ne_eq, not_not] at ha
    obtain ⟨i, p, hpc, rfl⟩ := ha
    refine exitFinal_break isUuid (a := .startStarted i p) (fun ht => ?_) (hl.onward _ hpc)
    exact ht ⟨e, by simp [next, State.publish, State.setMonitor], hs.publishing p.id e h⟩
  | _ => exact ha trivial

theorem exit_final_iff {as : List Action} (h : (machine isUuid compileRegex).Legal .initial as) :
    (machine isUuid compileRegex).Throughout Apart .initial as ↔
      (machine isUuid compileRegex).Always (Lasting isUuid compileRegex) .initial as :=
  (machine isUuid compileRegex).throughout_iff_always (J := fun s => MonitorFrame s ∧ Windows s)
    (fun _ _ hs hp he ha => by
      have hf := monitorFrame_step isUuid compileRegex hs.1 he
      have hw := windows_step isUuid compileRegex hs.1 hp.here hs.2 he ha
      exact ⟨⟨hf, hw⟩, lasting_of_windows isUuid compileRegex hf (hp.onward _ he) hw⟩)
    (fun _ _ hs _ he ha => lasting_break isUuid compileRegex hs.1 he ha)
    ⟨monitorFrame_initial, windows_initial⟩ (lasting_initial isUuid compileRegex) h

def webProcess : ProxyInfo := ProxyInfo.new webRequest "a" 7

-- The process exits when its start has published Started and not returned, and a periodic
-- synchronisation has just begun.
def exitingRun : List Action :=
  startRun 0 webRequest 7 "a" ++
    [.startWake 0 webProcess, .syncExitCode 0 webProcess true, .syncProbe 0 webProcess true true,
     .syncProbeStatus 0 webProcess true true, .syncStore 0 webProcess true .running,
     .startReport 0 webProcess, .startStarted 0 webProcess, .begin 1 .syncAll, .task 1 .syncAll [],
     .task 1 (.sync webProcess) [], .leaderExit 0, .monitorReap "a" 0 (some 1),
     .monitorExitCode "a" (some 1), .syncExitCode 1 webProcess false,
     .syncExitStatus 1 webProcess false 1]

def exitedRun : List Action :=
  exitingRun ++
    [.monitorStatus "a" (some 1), .syncStore 1 webProcess false .failed,
     .monitorPublish "a" (.stopped "a" (some 1)), .startReturn 0 webProcess, .finish 1]

theorem exit_final_iff_web :
    let m := machine (fun _ => false) (fun _ => .ok ())
    m.Throughout Apart .initial exitedRun ∧
      m.Always (Lasting (fun _ => false) (fun _ => .ok ())) .initial exitedRun ∧
      (m.exec .initial exitingRun).status "a" = .running ∧
      (m.exec .initial exitedRun).status "a" = .failed ∧
      (m.exec .initial exitedRun).events =
        [.starting "a", .started "a", .stopped "a" (some 1)] := by
  have later {n : Nat} (hn : ∀ a ∈ exitedRun.take n, a.actor.all (· < 2) = true) (i : Nat) :
      (((machine (fun _ => false) (fun _ => .ok ())).exec .initial
        (exitedRun.take n)).calls (i + 2)).pc = .idle := by
    rw [exec_calls_ge _ _ _ (n := 2) hn (Nat.le_add_left 2 i)]
    rfl
  have hapart : (machine (fun _ => false) (fun _ => .ok ())).Throughout Apart .initial
      exitedRun := by
    refine ⟨trivial, trivial, trivial, trivial, trivial, trivial, trivial, trivial, trivial,
      trivial, trivial, trivial, trivial, trivial, trivial, trivial, trivial, trivial, trivial,
      trivial, trivial, trivial, trivial, trivial, fun i p f st hpc hact => ?_, trivial,
      fun i p hpc => ?_, trivial, trivial, trivial⟩
    · match i with
      | 0 => cases hpc
      | 1 =>
        cases hpc
        cases hact
      | i + 2 => cases (later (n := 24) (by decide) i).symm.trans hpc
    · match i with
      | 0 => cases hpc
      | 1 => cases hpc
      | i + 2 => cases (later (n := 26) (by decide) i).symm.trans hpc
  exact ⟨hapart, (exit_final_iff _ _ (by decide)).mp hapart, by decide⟩

-- The synchronisation of the start reads Starting and sees the process alive; the process then exits
-- and its monitor stores Failed before Running is stored. Nobody stops the entry.
def lateSync : List Action :=
  let p := ProxyInfo.new webRequest "a" 7
  startRun 0 webRequest 7 "a" ++
    [.startWake 0 p, .syncExitCode 0 p true, .syncProbe 0 p true true,
     .syncProbeStatus 0 p true true, .leaderExit 0, .monitorReap "a" 0 (some 1),
     .monitorExitCode "a" (some 1), .monitorStatus "a" (some 1), .syncStore 0 p true .running,
     .startReport 0 p, .monitorPublish "a" (.stopped "a" (some 1)), .startStarted 0 p]

theorem running_after_exit :
    (machine (fun _ => false) (fun _ => .ok ())).Legal .initial lateSync ∧
      ¬ (machine (fun _ => false) (fun _ => .ok ())).Always ExitFinal .initial lateSync := by
  refine ⟨by decide, fun h => ?_⟩
  have hlast := (machine (fun _ => false) (fun _ => .ok ())).always_last h
  exact absurd (hlast.status "a" (by decide)) (by decide)

end Manager
