import Mcproc.Lib.Runs
import Mcproc.Process.ExitFinal

namespace Manager

def ProcessEvent.id : ProcessEvent → String
  | .starting id | .started id | .stopping id | .stopped id _ | .failed id => id

-- A stop can find the entry before its start has published anything; the rest comes later.
def ProcessEvent.late : ProcessEvent → Bool
  | .started _ | .stopped _ _ | .failed _ => true
  | .starting _ | .stopping _ => false

structure Orderly (events : List ProcessEvent) : Prop where
  starting : ∀ id, events.count (.starting id) ≤ 1
  started : ∀ id, events.count (.started id) ≤ 1
  exited : ∀ id, events.countP (·.exitOf id) ≤ 1
  announced : ∀ pre e, pre ++ [e] <+: events → e.late = true → .starting e.id ∈ pre

theorem exitOf_id {e : ProcessEvent} {id : String} (h : e.exitOf id = true) : e.id = id := by
  cases e with
  | stopped | failed => exact of_decide_eq_true h
  | _ => cases h

theorem countP_concat_le_one {α : Type} {p : α → Bool} {as : List α} {a : α}
    (h : as.countP p ≤ 1) (ha : p a = true → ∀ b ∈ as, p b = false) :
    (as ++ [a]).countP p ≤ 1 := by
  rw [List.countP_append, List.countP_singleton]
  split
  · next hp =>
    have hnone : as.countP p = 0 :=
      List.countP_eq_zero.mpr fun b hb => Bool.eq_false_iff.mp (ha hp b hb)
    omega
  · exact h

theorem count_concat_le_one {α : Type} [DecidableEq α] {as : List α} {a b : α}
    (h : as.count b ≤ 1) (ha : a = b → b ∉ as) : (as ++ [a]).count b ≤ 1 :=
  countP_concat_le_one h fun hab _ hc => beq_eq_false_iff_ne.mpr fun hcb =>
    ha (beq_iff_eq.mp hab) (hcb ▸ hc)

theorem orderly_nil : Orderly [] where
  starting _ := Nat.zero_le 1
  started _ := Nat.zero_le 1
  exited _ := Nat.zero_le 1
  announced pre e h := by simp at h

theorem Orderly.concat {events : List ProcessEvent} {e : ProcessEvent} (h : Orderly events)
    (hstarting : ∀ id, e = .starting id → .starting id ∉ events)
    (hstarted : ∀ id, e = .started id → .started id ∉ events)
    (hexit : ∀ id, e.exitOf id = true → ∀ b ∈ events, b.exitOf id = false)
    (hlate : e.late = true → .starting e.id ∈ events) : Orderly (events ++ [e]) where
  starting id := count_concat_le_one (h.starting id) (hstarting id)
  started id := count_concat_le_one (h.started id) (hstarted id)
  exited id := countP_concat_le_one (h.exited id) (hexit id)
  announced pre b hpre hb := by
    rcases List.prefix_concat_iff.mp hpre with hlast | hpre
    · obtain ⟨rfl, hbe⟩ := List.append_inj' hlast rfl
      obtain rfl := List.singleton_inj.mp hbe
      exact hlate hb
    · exact h.announced pre b hpre hb

def Action.event : Action → Option ProcessEvent
  | .startPublish _ p => some (.starting p.id)
  | .startStarted _ p => some (.started p.id)
  | .stopPublish _ c => some (.stopping c.proxy.id)
  | .monitorPublish _ e => some e
  | _ => none

-- The start call that made the entry, up to the report of its success.
def Pc.launching : Pc → Option ProxyInfo
  | .startKeep p | .startPublish p | .startMonitor p | .startWait p | .startReport p
  | .startStarted p => some p
  | .sync p true _ => some p
  | _ => none

def Pc.announced : Pc → Bool
  | .startKeep _ | .startPublish _ => false
  | _ => true

structure Lifecycle (s : State) : Prop where
  frame : MonitorFrame s
  orderly : Orderly s.events
  added : ∀ e ∈ s.events, s.groupOf e.id ≠ none
  single : ∀ i j p q, (s.calls i).pc.launching = some p → (s.calls j).pc.launching = some q →
    p.id = q.id → i = j
  starting : ∀ i p, (s.calls i).pc.launching = some p →
    (.starting p.id ∈ s.events ↔ (s.calls i).pc.announced = true)
  started : ∀ i p, (s.calls i).pc.launching = some p → .started p.id ∉ s.events
  monitored : ∀ id, s.monitor id ≠ .absent → .starting id ∈ s.events
  exited : ∀ id, s.Exited id → s.monitor id = .done

variable (isUuid : String → Bool) (compileRegex : String → Except String Unit)

theorem events_eq (s : State) (a : Action) :
    (next isUuid s a).events = s.events ++ a.event.toList := by
  cases a <;> first
    | rfl
    | exact (List.append_nil _).symm

theorem mem_events {s : State} {a : Action} {e : ProcessEvent} :
    e ∈ (next isUuid s a).events ↔ e ∈ s.events ∨ a.event = some e := by
  rw [events_eq, List.mem_append, Option.mem_toList]

theorem proxy_of_launching {pc : Pc} {p : ProxyInfo} (h : pc.launching = some p) :
    pc.proxy = some p := by
  cases pc with
  | sync q ofStart phase =>
    cases ofStart
    · cases h
    · exact h
  | _ => first
    | exact h
    | cases h

theorem afterSync_launching (p : ProxyInfo) (f : Bool) (phase : SyncPhase) :
    (afterSync p f).launching = (Pc.sync p f phase).launching := by
  cases f <;> rfl

theorem sync_launching (p : ProxyInfo) (f : Bool) (phase phase' : SyncPhase) :
    (Pc.sync p f phase).launching = (Pc.sync p f phase').launching := by
  cases f <;> rfl

theorem afterExitCode_launching (p : ProxyInfo) (f : Bool) (o : Option Int) (phase : SyncPhase) :
    (afterExitCode p f o).launching = (Pc.sync p f phase).launching := by
  cases o <;> exact sync_launching ..

theorem afterExitStatus_launching (p : ProxyInfo) (f : Bool) (code : Int) (st : ProcessStatus)
    (phase : SyncPhase) :
    (afterExitStatus p f code st).launching = (Pc.sync p f phase).launching := by
  rw [afterExitStatus]
  split
  · exact sync_launching ..
  · exact afterSync_launching ..

theorem afterProbeStatus_launching (p : ProxyInfo) (f alive : Bool) (st : ProcessStatus)
    (phase : SyncPhase) :
    (afterProbeStatus p f alive st).launching = (Pc.sync p f phase).launching := by
  rw [afterProbeStatus]
  repeat' split
  all_goals first
    | exact sync_launching ..
    | exact afterSync_launching ..

def Action.launches : Action → Bool
  | .startAdd _ _ _ _ _ | .startKeep _ _ | .startPublish _ _ | .startMonitor _ _
  | .startWake _ _ | .startReport _ _ | .syncExitCode _ _ _ | .syncExitStatus _ _ _ _
  | .syncProbe _ _ _ _ | .syncProbeError _ _ _ | .syncProbeStatus _ _ _ _
  | .syncStore _ _ _ _ => true
  | _ => false

theorem launching_none (s : State) {a : Action} {i : Nat} (hi : a.actor = some i)
    (ha : a.launches = false) : ((next isUuid s a).calls i).pc.launching = none := by
  cases a with
  | startAdd | startKeep | startPublish | startMonitor | startWake | startReport | syncExitCode
  | syncExitStatus | syncProbe | syncProbeError | syncProbeStatus | syncStore => cases ha
  | monitorReap | monitorError | monitorExitCode | monitorStatus | monitorFailed | monitorPublish
  | leaderExit | fork | memberExit | memberReap => cases hi
  | begin j t => cases hi; simp [next, Pc.launching]
  | task j t rest =>
    cases hi
    simp only [next, Function.update_self]
    cases t <;> simp only [Task.run] <;> (try split) <;> rfl
  | _ =>
    cases hi
    simp only [next, State.goto_pc_self, afterLookup, afterStatus, afterRemove, afterStopError,
      afterStopLookup, afterStopRemove, afterStopTimeout]
    repeat' split
    all_goals rfl

theorem launching_source (s : State) {a : Action} {i : Nat} (hi : a.actor = some i)
    (ha : a.launches = true) {p : ProxyInfo}
    (hp : ((next isUuid s a).calls i).pc.launching = some p) :
    a.source.bind Pc.launching = some p ∨
      ∃ r pid g id, a = .startAdd i r pid g id ∧ p = ProxyInfo.new r id pid := by
  cases a with
  | startAdd j r pid g id =>
    cases hi
    rw [next, State.goto_pc_self] at hp
    exact Or.inr ⟨r, pid, g, id, rfl, (Option.some.inj hp).symm⟩
  | startKeep | startPublish | startMonitor | startWake =>
    cases hi
    rw [next, State.goto_pc_self] at hp
    exact Or.inl hp
  | startReport j q =>
    cases hi
    rw [next, State.goto_pc_self, afterReport] at hp
    split at hp
    · exact Or.inl hp
    · cases hp
  | syncExitCode j q f =>
    cases hi
    rw [next, State.goto_pc_self, afterExitCode_launching q f _ .exitCode] at hp
    exact Or.inl hp
  | syncExitStatus j q f code =>
    cases hi
    rw [next, State.goto_pc_self, afterExitStatus_launching q f _ _ (.exitStatus code)] at hp
    exact Or.inl hp
  | syncProbe j q f alive =>
    cases hi
    rw [next, State.goto_pc_self, sync_launching q f _ .probe] at hp
    exact Or.inl hp
  | syncProbeError j q f =>
    cases hi
    rw [next, State.goto_pc_self, afterSync_launching q f .probe] at hp
    exact Or.inl hp
  | syncProbeStatus j q f alive =>
    cases hi
    rw [next, State.goto_pc_self, afterProbeStatus_launching q f _ _ (.probeStatus alive)] at hp
    exact Or.inl hp
  | syncStore j q f st =>
    cases hi
    rw [next, State.goto_pc_self, afterSync_launching q f (.store st)] at hp
    exact Or.inl hp
  | _ => cases ha

theorem launching_step {s : State} {a : Action} (h : enabled isUuid compileRegex s a) {i : Nat}
    {p : ProxyInfo} (hp : ((next isUuid s a).calls i).pc.launching = some p) :
    (s.calls i).pc.launching = some p ∧ (∀ q, a ≠ .startStarted i q) ∨
      ∃ r pid g id, a = .startAdd i r pid g id ∧ p = ProxyInfo.new r id pid := by
  by_cases hi : a.actor = some i
  · cases hl : a.launches with
    | false =>
      rw [launching_none isUuid s hi hl] at hp
      cases hp
    | true =>
      refine (launching_source isUuid s hi hl hp).imp_left fun hsource => ⟨?_, fun q e => ?_⟩
      · rwa [source_eq isUuid compileRegex h hi] at hsource
      · rw [e] at hl
        cases hl
  · rw [calls_frame isUuid s a hi] at hp
    exact Or.inl ⟨hp, fun q e => hi (by rw [e]; rfl)⟩

theorem announced_step {s : State} {a : Action} (h : enabled isUuid compileRegex s a) {i : Nat}
    (hi : a.actor = some i) {p : ProxyInfo} (hp : (s.calls i).pc.launching = some p)
    (hp' : ((next isUuid s a).calls i).pc.launching = some p) :
    ((next isUuid s a).calls i).pc.announced = true ↔
      (s.calls i).pc.announced = true ∨ a = .startPublish i p := by
  have hl : a.launches = true := by
    by_contra hl
    rw [launching_none isUuid s hi (Bool.not_eq_true _ ▸ hl)] at hp'
    cases hp'
  have hpc := source_eq isUuid compileRegex h hi
  cases a with
  | startAdd j r pid g id =>
    rw [← Option.some.inj hpc] at hp
    cases hp
  | startPublish j q =>
    cases hi
    rw [← Option.some.inj hpc] at hp ⊢
    obtain rfl := Option.some.inj hp
    simp [next, Pc.announced]
  | startKeep | startMonitor | startWake | syncProbe =>
    cases hi
    rw [← Option.some.inj hpc]
    simp [next, Pc.announced]
  | startReport j q =>
    cases hi
    rw [← Option.some.inj hpc]
    simp only [next, State.goto_pc_self, afterReport]
    split <;> simp [Pc.announced]
  | syncExitCode j q f =>
    cases hi
    rw [← Option.some.inj hpc]
    simp only [next, State.goto_pc_self]
    cases s.exitCode q.id <;> simp [afterExitCode, Pc.announced]
  | syncExitStatus | syncProbeStatus | syncProbeError | syncStore =>
    cases hi
    rw [← Option.some.inj hpc]
    simp only [next, State.goto_pc_self, afterExitStatus, afterProbeStatus, afterSync]
    repeat' split
    all_goals simp [Pc.announced]
  | _ => cases hl

theorem lifecycle_initial : Lifecycle State.initial where
  frame := monitorFrame_initial
  orderly := orderly_nil
  added _ h := by cases h
  single _ _ _ _ h := by cases h
  starting _ _ h := by cases h
  started _ _ h := by cases h
  monitored _ h := absurd rfl h
  exited _ h := by obtain ⟨e, he, -⟩ := h; cases he

namespace Lifecycle

variable {s : State} {a : Action}

theorem grouped (hs : Lifecycle s) {i : Nat} {p : ProxyInfo}
    (h : (s.calls i).pc.launching = some p) : s.groupOf p.id ≠ none := by
  obtain ⟨g, G, hg, -⟩ := (hs.frame.resolved.calls i p (Or.inl (proxy_of_launching h))).group
  rw [hg]
  nofun

theorem fresh (hs : Lifecycle s) {id : String} (h : s.groupOf id = none) {e : ProcessEvent}
    (hid : e.id = id) : e ∉ s.events :=
  fun he => hs.added e he (hid ▸ h)

theorem event_added (hs : Lifecycle s) (h : enabled isUuid compileRegex s a) {e : ProcessEvent}
    (he : a.event = some e) : s.groupOf e.id ≠ none := by
  cases a with
  | startPublish i p =>
    cases he
    exact hs.grouped (i := i) (by rw [show (s.calls i).pc = _ from h]; rfl)
  | startStarted i p =>
    cases he
    exact hs.grouped (i := i) (by rw [show (s.calls i).pc = _ from h]; rfl)
  | stopPublish i c =>
    cases he
    obtain ⟨g, G, hg, -⟩ :=
      (hs.frame.resolved.calls i c.proxy (Or.inl (by rw [show (s.calls i).pc = _ from h]; rfl))).group
    exact fun hn => by cases hg.symm.trans hn
  | monitorPublish id e' =>
    cases he
    have hexit := hs.frame.publishing id e h
    rw [exitOf_id hexit]
    exact hs.frame.monitored id (by rw [show s.monitor id = _ from h]; nofun)
  | _ => cases he

theorem done_stays (hs : Lifecycle s) (h : enabled isUuid compileRegex s a) {id : String}
    (hm : s.monitor id = .done) : (next isUuid s a).monitor id = .done := by
  have other {id' : String} {pc pc' : MonitorPc} (hid : s.monitor id' = pc) (hne : pc ≠ .done) :
      Function.update s.monitor id' pc' id = .done := by
    rw [Function.update_of_ne, hm]
    rintro rfl
    exact hne (hid.symm.trans hm)
  cases a with
  | startMonitor i p =>
    exact other (hs.frame.opening i p (by rw [show (s.calls i).pc = _ from h]; rfl)) nofun
  | monitorReap id' g code => exact other h.1 nofun
  | monitorError id' => exact other h nofun
  | monitorExitCode id' code => exact other h nofun
  | monitorStatus id' code => exact other h nofun
  | monitorFailed id' => exact other h nofun
  | monitorPublish id' e => exact other h nofun
  | _ => exact hm

theorem exit_done (hs : Lifecycle s) (h : enabled isUuid compileRegex s a) {id : String}
    (he : (next isUuid s a).Exited id) : (next isUuid s a).monitor id = .done := by
  rcases exited_step isUuid compileRegex hs.frame h he with hold | ⟨e, rfl⟩
  · exact hs.done_stays isUuid compileRegex h (hs.exited id hold)
  · exact State.setMonitor_self ..

theorem orderly_step (hs : Lifecycle s) (h : enabled isUuid compileRegex s a) :
    Orderly (next isUuid s a).events := by
  rw [events_eq]
  cases a with
  | startPublish i p =>
    have hl : (s.calls i).pc.launching = some p := by rw [show (s.calls i).pc = _ from h]; rfl
    refine hs.orderly.concat (fun id he hmem => ?_) (fun _ => nofun) (fun _ => nofun) nofun
    cases he
    have hsaid := (hs.starting i p hl).mp hmem
    rw [show (s.calls i).pc = _ from h] at hsaid
    cases hsaid
  | startStarted i p =>
    have hl : (s.calls i).pc.launching = some p := by rw [show (s.calls i).pc = _ from h]; rfl
    refine hs.orderly.concat (fun _ => nofun) (fun id he => ?_) (fun _ => nofun) fun _ => ?_
    · cases he
      exact hs.started i p hl
    · exact (hs.starting i p hl).mpr (by rw [show (s.calls i).pc = _ from h]; rfl)
  | stopPublish i c =>
    exact hs.orderly.concat (fun _ => nofun) (fun _ => nofun) (fun _ => nofun) nofun
  | monitorPublish id e =>
    have hexit := hs.frame.publishing id e h
    have hm : s.monitor id = .publishing e := h
    refine hs.orderly.concat (fun id' he => ?_) (fun id' he => ?_) (fun id' he b hb => ?_)
      fun _ => ?_
    · rw [he] at hexit
      cases hexit
    · rw [he] at hexit
      cases hexit
    · obtain rfl := exitOf_unique hexit he
      refine Bool.eq_false_iff.mpr fun hbe => ?_
      cases hm.symm.trans (hs.exited id ⟨b, hb, hbe⟩)
    · rw [exitOf_id hexit]
      exact hs.monitored id (by rw [hm]; nofun)
  | _ => exact (List.append_nil s.events).symm ▸ hs.orderly

theorem startStarted_launching {i : Nat} {p : ProxyInfo}
    (h : enabled isUuid compileRegex s (.startStarted i p)) :
    (s.calls i).pc.launching = some p := by
  rw [show (s.calls i).pc = _ from h]
  rfl

theorem own_event (hs : Lifecycle s) (h : enabled isUuid compileRegex s a) {i : Nat}
    {p : ProxyInfo} (hp : (s.calls i).pc.launching = some p) :
    (a.event = some (.starting p.id) → a = .startPublish i p) ∧
      (a.event = some (.started p.id) → a = .startStarted i p) := by
  have mine {j : Nat} {q : ProxyInfo} (hq : (s.calls j).pc.launching = some q)
      (hid : q.id = p.id) : j = i ∧ q = p := by
    obtain rfl := hs.single j i q p hq hp hid
    exact ⟨rfl, Option.some.inj (hq.symm.trans hp)⟩
  cases a with
  | startPublish j q =>
    refine ⟨fun he => ?_, nofun⟩
    injection he with he
    injection he with hid
    obtain ⟨rfl, rfl⟩ := mine (by rw [show (s.calls j).pc = _ from h]; rfl) hid
    rfl
  | startStarted j q =>
    refine ⟨nofun, fun he => ?_⟩
    injection he with he
    injection he with hid
    obtain ⟨rfl, rfl⟩ := mine (startStarted_launching isUuid compileRegex h) hid
    rfl
  | monitorPublish id e =>
    have hexit := hs.frame.publishing id e h
    refine ⟨fun he => ?_, fun he => ?_⟩ <;>
    · cases he
      cases hexit
  | _ => exact ⟨nofun, nofun⟩

theorem starting_step (hs : Lifecycle s) (h : enabled isUuid compileRegex s a) {i : Nat}
    {p : ProxyInfo} (hp : ((next isUuid s a).calls i).pc.launching = some p) :
    .starting p.id ∈ (next isUuid s a).events ↔
      ((next isUuid s a).calls i).pc.announced = true := by
  rw [mem_events]
  rcases launching_step isUuid compileRegex h hp with ⟨hold, -⟩ | ⟨r, pid, g, id, rfl, rfl⟩
  · rw [hs.starting i p hold]
    by_cases hi : a.actor = some i
    · rw [announced_step isUuid compileRegex h hi hold hp]
      exact or_congr_right ⟨(hs.own_event isUuid compileRegex h hold).1, fun e => by rw [e]; rfl⟩
    · rw [calls_frame isUuid s a hi, or_iff_left_iff_imp]
      intro he
      rw [(hs.own_event isUuid compileRegex h hold).1 he] at hi
      exact absurd rfl hi
  · have hnew : ProcessEvent.starting id ∉ s.events := hs.fresh h.2 rfl
    simp [next, Pc.announced, Action.event, hnew]

theorem started_step (hs : Lifecycle s) (h : enabled isUuid compileRegex s a) {i : Nat}
    {p : ProxyInfo} (hp : ((next isUuid s a).calls i).pc.launching = some p) :
    .started p.id ∉ (next isUuid s a).events := by
  rw [mem_events, not_or]
  rcases launching_step isUuid compileRegex h hp with ⟨hold, hother⟩ | ⟨r, pid, g, id, rfl, rfl⟩
  · exact ⟨hs.started i p hold,
      fun he => hother p ((hs.own_event isUuid compileRegex h hold).2 he)⟩
  · exact ⟨hs.fresh h.2 rfl, nofun⟩

theorem single_step (hs : Lifecycle s) (h : enabled isUuid compileRegex s a) {i j : Nat}
    {p q : ProxyInfo} (hp : ((next isUuid s a).calls i).pc.launching = some p)
    (hq : ((next isUuid s a).calls j).pc.launching = some q) (hid : p.id = q.id) : i = j := by
  rcases launching_step isUuid compileRegex h hp with ⟨hp', -⟩ | ⟨r, pid, g, id, ha, rfl⟩ <;>
    rcases launching_step isUuid compileRegex h hq with ⟨hq', -⟩ | ⟨r', pid', g', id', ha', rfl⟩
  · exact hs.single i j p q hp' hq' hid
  · subst ha'
    exact absurd h.2 (by rw [← ProxyInfo.new_id r' id' pid', ← hid]; exact hs.grouped hp')
  · subst ha
    exact absurd h.2 (by rw [← ProxyInfo.new_id r id pid, hid]; exact hs.grouped hq')
  · cases ha.symm.trans ha'
    rfl

end Lifecycle

theorem lifecycle_step {s : State} {a : Action} (hs : Lifecycle s)
    (h : enabled isUuid compileRegex s a) : Lifecycle (next isUuid s a) where
  frame := monitorFrame_step isUuid compileRegex hs.frame h
  orderly := hs.orderly_step isUuid compileRegex h
  added e he := by
    have hold : s.groupOf e.id ≠ none := by
      rcases (mem_events isUuid).mp he with he | he
      · exact hs.added e he
      · exact hs.event_added isUuid compileRegex h he
    obtain ⟨g, hg⟩ := Option.ne_none_iff_exists'.mp hold
    rw [(extends_step isUuid compileRegex h).groupOf _ g hg]
    nofun
  single _ _ _ _ hp hq hid := hs.single_step isUuid compileRegex h hp hq hid
  starting _ _ hp := hs.starting_step isUuid compileRegex h hp
  started _ _ hp := hs.started_step isUuid compileRegex h hp
  monitored id hm := by
    refine (mem_events isUuid).mpr (Or.inl ?_)
    rcases monitor_step isUuid compileRegex hm h with hm | ⟨i, p, rfl, rfl⟩
    · exact hs.monitored id hm
    · have hpc : (s.calls i).pc = .startMonitor p := h
      exact (hs.starting i p (by rw [hpc]; rfl)).mpr (by rw [hpc]; rfl)
  exited _ he := hs.exit_done isUuid compileRegex h he

theorem reachable_lifecycle {s : State} (h : (machine isUuid compileRegex).Reachable s) :
    Lifecycle s :=
  (machine isUuid compileRegex).reachable_induction lifecycle_initial
    (fun _ _ hs he => lifecycle_step isUuid compileRegex hs he) h

theorem events_orderly {s : State} (h : (machine isUuid compileRegex).Reachable s) :
    Orderly s.events ∧ ∀ e ∈ s.events, s.groupOf e.id ≠ none :=
  ⟨(reachable_lifecycle isUuid compileRegex h).orderly,
    (reachable_lifecycle isUuid compileRegex h).added⟩

def webLife : List Action :=
  let p := ProxyInfo.new webRequest "a" 7
  startRun 0 webRequest 7 "a" ++
    [.startWake 0 p, .syncExitCode 0 p true, .syncProbe 0 p true true,
     .syncProbeStatus 0 p true true, .syncStore 0 p true .running, .startReport 0 p,
     .startStarted 0 p, .startReturn 0 p, .leaderExit 0, .monitorReap "a" 0 (some 0),
     .monitorExitCode "a" (some 0), .monitorStatus "a" (some 0),
     .monitorPublish "a" (.stopped "a" (some 0))]

def webEnd : State := (machine (fun _ => false) (fun _ => .ok ())).exec .initial webLife

example : webEnd.events = [.starting "a", .started "a", .stopped "a" (some 0)] := by decide

theorem events_orderly_web :
    Orderly webEnd.events ∧ ∀ e ∈ webEnd.events, webEnd.groupOf e.id ≠ none :=
  events_orderly (fun _ => false) (fun _ => .ok ()) ⟨webLife, by decide, rfl⟩

end Manager
