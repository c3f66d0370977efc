import Mcproc.Process.NameTokens

namespace Manager

def State.GroupLive (s : State) (id : String) : Prop :=
  ∃ g G, s.groupOf id = some g ∧ s.groups[g]? = some G ∧ G.Live

theorem groupLive_iff {s : State} {id : String} :
    s.GroupLive id ↔ ∃ g ∈ s.groupOf id, ∃ G ∈ s.groups[g]?, G.Live := by
  simp only [State.GroupLive, Option.mem_def, exists_and_left]

instance (s : State) (id : String) : Decidable (s.GroupLive id) :=
  decidable_of_iff _ groupLive_iff.symm

def Tracked (s : State) : Prop :=
  ∀ g G, s.groups[g]? = some G → G.Live →
    (∃ p ∈ s.registry.processes, s.groupOf p.id = some g) ∨
      ∃ i r pid, (s.calls i).pc = .startAdd r pid g

def NoOrphan (s : State) : Prop :=
  (∀ i r pid g, (s.calls i).pc ≠ .startAdd r pid g) →
    ∀ G ∈ s.groups, G.Live → ∃ p ∈ s.registry.processes, p.pid = G.pid

-- killpg with signal 0 still finds unreaped zombies; ps leaves them out.
def Truthful (s : State) : Action → Prop
  | .stopSigterm _ c sent alive =>
    sent = false → alive = false → ∀ G ∈ s.groups, G.pid = c.proxy.pid → ¬ G.Present
  | .stopPoll _ c alive | .stopConfirm _ c alive =>
    alive = false → ∀ G ∈ s.groups, G.pid = c.proxy.pid → ¬ G.Present
  | .stopConfirmPs _ c survivors =>
    survivors = false → ∀ G ∈ s.groups, G.pid = c.proxy.pid → ¬ G.Live
  | _ => True

instance (s : State) (a : Action) : Decidable (Truthful s a) := by
  apply Action.casesOn (motive := fun a => Decidable (Truthful s a)) a <;> intros <;>
    dsimp only [Truthful] <;> infer_instance

def Spared (s : State) : Action → Prop
  | .startRemove _ _ e => e ∈ s.registry.processes → ¬ s.GroupLive e.id
  | _ => True

instance (s : State) (a : Action) : Decidable (Spared s a) := by
  apply Action.casesOn (motive := fun a => Decidable (Spared s a)) a <;> intros <;>
    dsimp only [Spared] <;> infer_instance

variable (isUuid : String → Bool) (compileRegex : String → Except String Unit)

theorem live_modifyGroup {s : State} {j g : Nat} {f : Group → Group} {G : Group}
    (hf : ∀ G, s.groups[j]? = some G → (f G).Live → G.Live)
    (hG : (s.modifyGroup j f).groups[g]? = some G) (hl : G.Live) :
    ∃ G₀, s.groups[g]? = some G₀ ∧ G₀.Live := by
  simp only [State.modifyGroup, List.getElem?_modify] at hG
  split at hG
  · next e =>
    subst e
    obtain ⟨G₀, hG₀, rfl⟩ := Option.map_eq_some_iff.mp hG
    exact ⟨G₀, hG₀, hf G₀ hG₀ hl⟩
  · exact ⟨G, by simpa using hG, hl⟩

theorem live_step {s : State} {a : Action} (h : enabled isUuid compileRegex s a) {g : Nat}
    {G : Group} (hG : (next isUuid s a).groups[g]? = some G) (hl : G.Live) :
    (∃ G₀, s.groups[g]? = some G₀ ∧ G₀.Live) ∨
      ∃ i r pid, a = .startSpawn i r pid ∧ g = s.groups.length := by
  cases a with
  | startSpawn i r pid =>
    change (s.groups ++ [Group.spawn pid])[g]? = some G at hG
    rcases Nat.lt_trichotomy g s.groups.length with hlt | heq | hgt
    · rw [List.getElem?_append_left hlt] at hG
      exact Or.inl ⟨G, hG, hl⟩
    · exact Or.inr ⟨i, r, pid, rfl, heq⟩
    · rw [List.getElem?_eq_none (by simp; omega)] at hG
      cases hG
  | monitorReap id j code =>
    refine Or.inl (live_modifyGroup (fun G _ hL => ?_) hG hl)
    rcases hL with hL | hL
    · cases hL
    · exact Or.inr hL
  | leaderExit j =>
    refine Or.inl (live_modifyGroup (fun G hj _ => ?_) hG hl)
    have h' : s.groups[j]?.map (·.leader) = some .running := h
    rw [hj] at h'
    exact Or.inl (Option.some.inj h')
  | fork j =>
    refine Or.inl (live_modifyGroup (fun G hj _ => ?_) hG hl)
    have h' : s.groups[j]?.map (fun g => decide g.Live) = some true := h
    rw [hj] at h'
    exact of_decide_eq_true (Option.some.inj h')
  | memberExit j =>
    refine Or.inl (live_modifyGroup (fun G hj _ => ?_) hG hl)
    have h' : s.groups[j]?.map (fun g => decide (0 < g.others)) = some true := h
    rw [hj] at h'
    exact Or.inr (of_decide_eq_true (Option.some.inj h'))
  | memberReap j => exact Or.inl (live_modifyGroup (f := Group.memberReap) (fun _ _ hL => hL) hG hl)
  | _ => exact Or.inl ⟨G, hG, hl⟩

theorem confirmed_phase_step {s : State} {a : Action} (h : enabled isUuid compileRegex s a) {i : Nat}
    {c : StopCall} {phase : StopPhase} (hpc : ((next isUuid s a).calls i).pc = .stop c phase)
    (hc : phase.confirmed = true) :
    (∃ phase', (s.calls i).pc = .stop c phase' ∧ phase'.confirmed = true) ∨
      a.confirms = some (i, c) ∧ ∃ phase', (s.calls i).pc = .stop c phase' := by
  by_cases hi : a.actor = some i
  swap
  · rw [calls_frame isUuid s a hi] at hpc
    exact Or.inl ⟨phase, hpc, hc⟩
  have hl := landing isUuid compileRegex h hi
  rw [hpc] at hl
  cases hl with
  | calm hcalm =>
    rw [Pc.calm, hc] at hcalm
    cases hcalm
  | confirm ha hold => exact Or.inr ⟨ha, _, hold⟩
  | setStopped ha | stopRemove ha | stopMissing ha | stopRelease ha =>
    subst ha
    exact Or.inl ⟨_, h, rfl⟩

theorem confirms_dead {s : State} {a : Action} (ht : Truthful s a) {i : Nat} {c : StopCall}
    (hc : a.confirms = some (i, c)) {G : Group} (hG : G ∈ s.groups) (hp : G.pid = c.proxy.pid) :
    ¬ G.Live := by
  intro hl
  cases a with
  | stopSigterm j c' sent alive =>
    cases sent <;> cases alive <;> cases hc
    exact ht rfl rfl G hG hp hl.present
  | stopPoll j c' alive =>
    cases alive <;> cases hc
    exact ht rfl G hG hp hl.present
  | stopConfirm j c' alive =>
    cases alive <;> cases hc
    exact ht rfl G hG hp hl.present
  | stopConfirmPs j c' survivors =>
    cases survivors <;> cases hc
    exact ht rfl G hG hp hl
  | _ => cases hc

structure GroupFrame (s : State) : Prop where
  owned : Owned s
  bounded : ∀ id g, s.groupOf id = some g → g < s.groups.length
  apart : ∀ id id' g, s.groupOf id = some g → s.groupOf id' = some g → id = id'
  launched : ∀ i r pid g, (s.calls i).pc = .startAdd r pid g → ∀ id, s.groupOf id ≠ some g
  single : ∀ i j r r' pid pid' g, (s.calls i).pc = .startAdd r pid g →
    (s.calls j).pc = .startAdd r' pid' g → i = j
  gone : ∀ i c phase, (s.calls i).pc = .stop c phase → phase.confirmed = true →
    ¬ s.GroupLive c.proxy.id

theorem groupFrame_initial : GroupFrame State.initial where
  owned := owned_initial
  bounded _ _ h := by cases h
  apart _ _ _ h := by cases h
  launched _ _ _ _ h := by cases h
  single _ _ _ _ _ _ _ h := by cases h
  gone _ _ _ h := by cases h

theorem groupOf_step {s : State} {a : Action} {id : String} {g : Nat}
    (h : (next isUuid s a).groupOf id = some g) :
    s.groupOf id = some g ∨ ∃ i r pid, a = .startAdd i r pid g id := by
  cases a with
  | startAdd i r pid g' id' =>
    by_cases hid : id = id'
    · subst hid
      have hg : (next isUuid s (.startAdd i r pid g' id)).groupOf id = some g' := by
        simp [next, State.add]
      cases hg.symm.trans h
      exact Or.inr ⟨i, r, pid, rfl⟩
    · exact Or.inl ((Function.update_of_ne hid _ _).symm.trans h)
  | _ => exact Or.inl h

theorem groupLive_step {s : State} {a : Action} (h : enabled isUuid compileRegex s a)
    {p : ProxyInfo} (hk : s.Knows p) (hl : (next isUuid s a).GroupLive p.id) :
    s.GroupLive p.id := by
  obtain ⟨g, G, hg, hG, -⟩ := hk.group
  obtain ⟨g', G', hg', hG', hlive⟩ := hl
  have he := extends_step isUuid compileRegex h
  obtain rfl : g = g' := Option.some.inj ((he.groupOf _ _ hg).symm.trans hg')
  rcases live_step isUuid compileRegex h hG' hlive with ⟨G₀, hG₀, hl₀⟩ | ⟨i, r, pid, -, hlen⟩
  · exact ⟨g, G₀, hg, hG₀, hl₀⟩
  · exact absurd (List.getElem?_eq_some_iff.mp hG).1 (by omega)

theorem groupFrame_step {s : State} {a : Action} (hs : GroupFrame s)
    (h : enabled isUuid compileRegex s a) (ht : Truthful s a) :
    GroupFrame (next isUuid s a) where
  owned := owned_next isUuid compileRegex hs.owned h
  bounded id g hg := by
    have he := extends_step isUuid compileRegex h
    have hold : g < s.groups.length := by
      rcases groupOf_step isUuid hg with hg | ⟨i, r, pid, rfl⟩
      · exact hs.bounded id g hg
      · obtain ⟨G, hG, -⟩ := hs.owned.resolved.spawned i r pid g h.1
        exact (List.getElem?_eq_some_iff.mp hG).1
    obtain ⟨G', hG', -⟩ := he.pids g s.groups[g] (List.getElem?_eq_getElem hold)
    exact (List.getElem?_eq_some_iff.mp hG').1
  apart id id' g hg hg' := by
    rcases groupOf_step isUuid hg with hold | ⟨i, r, pid, ha⟩ <;>
      rcases groupOf_step isUuid hg' with hold' | ⟨i', r', pid', ha'⟩
    · exact hs.apart id id' g hold hold'
    · subst ha'
      exact absurd hold (hs.launched i' r' pid' g h.1 id)
    · subst ha
      exact absurd hold' (hs.launched i r pid g h.1 id')
    · cases ha.symm.trans ha'
      rfl
  launched i r pid g hpc id hg := by
    rcases startAdd_step isUuid compileRegex h hpc with hpc' | ⟨rfl, rfl⟩
    · rcases groupOf_step isUuid hg with hg | ⟨j, r', pid', rfl⟩
      · exact hs.launched i r pid g hpc' id hg
      · obtain rfl := hs.single i j r r' pid pid' g hpc' h.1
        rw [next, State.goto_pc_self] at hpc
        cases hpc
    · rcases groupOf_step isUuid hg with hg | ⟨j, r', pid', ha⟩
      · exact absurd (hs.bounded id _ hg) (Nat.lt_irrefl _)
      · cases ha
  single i j r r' pid pid' g hi hj := by
    have old : ∀ k q n, (s.calls k).pc = .startAdd q n g → g ≠ s.groups.length := by
      intro k q n hk
      obtain ⟨G, hG, -⟩ := hs.owned.resolved.spawned k q n g hk
      exact Nat.ne_of_lt (List.getElem?_eq_some_iff.mp hG).1
    rcases startAdd_step isUuid compileRegex h hi with hi' | ⟨hi', hg⟩ <;>
      rcases startAdd_step isUuid compileRegex h hj with hj' | ⟨hj', hg'⟩
    · exact hs.single i j r r' pid pid' g hi' hj'
    · exact absurd hg' (old i r pid hi')
    · exact absurd hg (old j r' pid' hj')
    · cases hi'.symm.trans hj'
      rfl
  gone i c phase hpc hc hl := by
    rcases confirmed_phase_step isUuid compileRegex h hpc hc with
      ⟨phase', hpc', hc'⟩ | ⟨ha, phase', hpc'⟩
    · have hk := hs.owned.resolved.calls i c.proxy (Or.inl (by rw [hpc']; rfl))
      exact hs.gone i c phase' hpc' hc' (groupLive_step isUuid compileRegex h hk hl)
    · have hk := hs.owned.resolved.calls i c.proxy (Or.inl (by rw [hpc']; rfl))
      obtain ⟨g, G, hg, hG, hlive⟩ := groupLive_step isUuid compileRegex h hk hl
      obtain ⟨g', G', hg', hG', hpid⟩ := hk.group
      obtain rfl : g = g' := Option.some.inj (hg.symm.trans hg')
      obtain rfl : G = G' := Option.some.inj (hG.symm.trans hG')
      exact confirms_dead ht ha (List.mem_of_getElem? hG) hpid hlive

theorem noOrphan_of_tracked {s : State} (hs : GroupFrame s) (ht : Tracked s) : NoOrphan s := by
  intro hidle G hG hl
  obtain ⟨g, hg⟩ := List.getElem?_of_mem hG
  rcases ht g G hg hl with ⟨p, hp, ho⟩ | ⟨i, r, pid, hpc⟩
  · obtain ⟨g', G', hg', hG', hpid⟩ := (hs.owned.resolved.entries p hp).group
    obtain rfl : g = g' := Option.some.inj (ho.symm.trans hg')
    obtain rfl : G = G' := Option.some.inj (hg.symm.trans hG')
    exact ⟨p, hp, hpid.symm⟩
  · exact absurd hpc (hidle i r pid g)

theorem startAdd_exit {s : State} {a : Action} (h : enabled isUuid compileRegex s a) {i : Nat}
    {r : StartRequest} {pid g : Nat} (hpc : (s.calls i).pc = .startAdd r pid g) :
    (∃ id, a = .startAdd i r pid g id) ∨
      ((next isUuid s a).calls i).pc = .startAdd r pid g := by
  by_cases hi : a.actor = some i
  swap
  · rw [calls_frame isUuid s a hi]
    exact Or.inr hpc
  have hsource := source_eq isUuid compileRegex h hi
  rw [hpc] at hsource
  left
  cases a with
  | startAdd j r' pid' g' id =>
    cases hi
    cases hsource
    exact ⟨id, rfl⟩
  | drop j pc =>
    cases hsource
    cases h.2
  | _ => cases hsource

theorem tracked_step {s : State} {a : Action} (hs : GroupFrame s) (ht : Tracked s)
    (h : enabled isUuid compileRegex s a) (ha : Spared s a) : Tracked (next isUuid s a) := by
  intro g G hG hl
  have he := extends_step isUuid compileRegex h
  rcases live_step isUuid compileRegex h hG hl with ⟨G₀, hG₀, hl₀⟩ | ⟨i, r, pid, rfl, rfl⟩
  swap
  · exact Or.inr ⟨i, r, pid, by rw [next, State.goto_pc_self]⟩
  rcases ht g G₀ hG₀ hl₀ with ⟨p, hp, ho⟩ | ⟨i, r, pid, hpc⟩
  · refine Or.inl ⟨p, ?_, he.groupOf _ _ ho⟩
    by_contra hgone
    have hlive : s.GroupLive p.id := ⟨g, G₀, ho, hG₀, hl₀⟩
    obtain ⟨i, hi, hpx, hrem⟩ := removed_step isUuid compileRegex hs.owned h hp hgone
    cases a with
    | startRemove j r e =>
      cases hi
      rw [show (s.calls i).pc = _ from h] at hpx
      cases hpx
      exact ha hp hlive
    | stopRemove j c =>
      cases hi
      rw [show (s.calls i).pc = _ from h] at hpx
      cases hpx
      exact hs.gone i c .remove h rfl hlive
    | startAdd j r pid g' id =>
      cases hi
      rw [next, State.goto_pc_self] at hrem
      cases hrem
    | startReserve j r =>
      cases hi
      rw [next, State.goto_pc_self] at hrem
      split at hrem <;> cases hrem
    | _ => exact hgone hp
  · rcases startAdd_exit isUuid compileRegex h hpc with ⟨id, rfl⟩ | hstill
    · refine Or.inl ⟨ProxyInfo.new r id pid, Registry.mem_addProcess.mpr (Or.inl rfl), ?_⟩
      simp [next, State.add]
    · exact Or.inr ⟨i, r, pid, hstill⟩

theorem tracked_break {s : State} {a : Action} (hs : GroupFrame s)
    (h : enabled isUuid compileRegex s a) (ha : ¬ Spared s a) : ¬ Tracked (next isUuid s a) := by
  intro ht
  cases a with
  | startRemove i r e =>
    simp only [Spared, Classical.not_imp, not_not] at ha
    obtain ⟨hmem, g, G, hg, hG, hl⟩ := ha
    rcases ht g G hG hl with ⟨p, hp, ho⟩ | ⟨j, r', pid, hpc⟩
    · exact (Registry.mem_dropProcess.mp hp).2 (hs.apart p.id e.id g ho hg)
    · rcases startAdd_step isUuid compileRegex h hpc with hpc | ⟨hne, -⟩
      · exact hs.launched j r' pid g hpc e.id hg
      · cases hne
  | _ => exact ha trivial

theorem no_orphan_of_spared {as : List Action}
    (h : (machine isUuid compileRegex).Legal .initial as)
    (ht : (machine isUuid compileRegex).Throughout Truthful .initial as) :
    ((machine isUuid compileRegex).Throughout Spared .initial as →
        (machine isUuid compileRegex).Always NoOrphan .initial as) ∧
      ((machine isUuid compileRegex).Throughout Spared .initial as ↔
        (machine isUuid compileRegex).Always Tracked .initial as) := by
  set m := (machine isUuid compileRegex).restrict Truthful
  have hl : m.Legal .initial as := Machine.legal_restrict _ h ht
  have hinit : Tracked State.initial := fun g G hG => by cases hG
  have hstep : ∀ s a, GroupFrame s → Tracked s → m.enabled s a → Spared s a →
      GroupFrame (m.next s a) ∧ Tracked (m.next s a) := fun s a hs hp he ha =>
    ⟨groupFrame_step isUuid compileRegex hs he.1 he.2, tracked_step isUuid compileRegex hs hp he.1 ha⟩
  have hiff := m.throughout_iff_always hstep
    (fun s a hs _ he ha => tracked_break isUuid compileRegex hs he.1 ha)
    groupFrame_initial hinit hl
  refine ⟨fun hsp => ?_, by rwa [Machine.throughout_restrict, Machine.always_restrict] at hiff⟩
  have hboth := m.always_of_step (J := fun s => GroupFrame s ∧ Tracked s)
    (fun s a hs he ha => hstep s a hs.1 hs.2 he ha) ⟨groupFrame_initial, hinit⟩ hl
    ((Machine.throughout_restrict _).mpr hsp)
  exact Machine.always_mono _ (fun s hs => noOrphan_of_tracked hs.1 hs.2)
    ((Machine.always_restrict _).mp hboth)

def webProxy : ProxyInfo := ProxyInfo.new webRequest "a" 7

def secondProxy : ProxyInfo := ProxyInfo.new webRequest "b" 8

def secondStop : StopCall := ⟨secondProxy, false, false, false⟩

-- The first web ends by itself and its name is started again; the second web is stopped.
def replacedRun : List Action :=
  startRun 0 webRequest 7 "a" ++
    [.leaderExit 0, .monitorReap "a" 0 (some 0), .monitorExitCode "a" (some 0),
     .monitorStatus "a" (some 0), .begin 1 (.start webRequest), .task 1 (.start webRequest) [],
     .startLookup 1 webRequest, .startStatus 1 webRequest webProxy,
     .startRemove 1 webRequest webProxy, .startRelease 1 webRequest webRequest.key,
     .startReserve 1 webRequest, .startSpawn 1 webRequest 8, .startAdd 1 webRequest 8 1 "b",
     .startKeep 1 secondProxy, .startPublish 1 secondProxy, .startMonitor 1 secondProxy]

def endedRun : List Action :=
  [.begin 2 (.stop "web" "app" false false), .task 2 (.stop "web" "app" false false) [],
   .stopLookup 2 "web" "app" false false, .stopPublish 2 secondStop, .stopSetStopping 2 secondStop,
   .stopSigterm 2 secondStop true true, .leaderExit 1, .monitorReap "b" 1 none,
   .stopPoll 2 secondStop false, .stopSetStopped 2 secondStop, .stopRemove 2 secondStop,
   .stopRelease 2 secondStop webRequest.key]

theorem no_orphan_of_spared_web :
    let m := machine (fun _ => false) (fun _ => .ok ())
    m.Always NoOrphan .initial (replacedRun ++ endedRun) ∧
      (m.exec .initial replacedRun).registry.processes = [secondProxy] ∧
      (m.exec .initial (replacedRun ++ endedRun)).registry.processes = [] := by
  refine ⟨(no_orphan_of_spared _ _ (by decide) (by decide)).1 (by decide), by decide, by decide⟩

-- The command leaves a child behind; a second start of the name drops the only record of it.
def reusedName : List Action :=
  startRun 0 webRequest 7 "a" ++
    [.fork 0, .leaderExit 0, .monitorReap "a" 0 (some 1), .monitorExitCode "a" (some 1),
     .monitorStatus "a" (some 1), .begin 1 (.start webRequest), .task 1 (.start webRequest) [],
     .startLookup 1 webRequest, .startStatus 1 webRequest webProxy,
     .startRemove 1 webRequest webProxy]

theorem orphan_after_reused_name :
    ¬ ∀ as, (machine (fun _ => false) (fun _ => .ok ())).Legal .initial as →
      (machine (fun _ => false) (fun _ => .ok ())).Throughout Truthful .initial as →
        (machine (fun _ => false) (fun _ => .ok ())).Always NoOrphan .initial as := by
  intro hall
  set m := machine (fun _ => false) (fun _ => .ok ())
  have hp := m.always_last (hall reusedName (by decide) (by decide))
  have hidle : ∀ i r pid g, ((m.exec .initial reusedName).calls i).pc ≠ .startAdd r pid g := by
    intro i r pid g hpc
    match i with
    | 0 =>
      have h0 : ((m.exec .initial reusedName).calls 0).pc = .startWait webProxy := by decide
      cases h0.symm.trans hpc
    | 1 =>
      have h1 : ((m.exec .initial reusedName).calls 1).pc = .startRelease webRequest webRequest.key := by
        decide
      cases h1.symm.trans hpc
    | i + 2 =>
      rw [exec_calls_ge _ _ _ (n := 2) (by decide) (Nat.le_add_left 2 i)] at hpc
      cases hpc
  obtain ⟨p, hmem, -⟩ := hp hidle ⟨7, .reaped, 1, 0⟩ (by decide) (by decide)
  have hempty : (m.exec .initial reusedName).registry.processes = [] := by decide
  rw [hempty] at hmem
  cases hmem

end Manager
