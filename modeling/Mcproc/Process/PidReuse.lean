import Mcproc.Lib.Runs
import Mcproc.Process.ManagerFrame

namespace PidReuse

open Manager (Group)

-- `foreign` are the groups of the manager's list that launch_process did not create.
structure State where
  manager : Manager.State
  foreign : List Nat

inductive Action where
  | manager (a : Manager.Action)
  | spawn (pid : Nat)
  | reap (group : Nat)
  deriving DecidableEq

section
variable (isUuid : String → Bool) (compileRegex : String → Except String Unit)

def enabled (s : State) : Action → Prop
  | .manager a => Manager.enabled isUuid compileRegex s.manager a
  | .spawn pid => ∀ g ∈ s.manager.groups, g.Present → g.pid ≠ pid
  | .reap g => g ∈ s.foreign ∧ (s.manager.groups[g]?.map (·.leader)) = some .zombie

def next (s : State) : Action → State
  | .manager a => { s with manager := Manager.next isUuid s.manager a }
  | .spawn pid =>
    { manager := s.manager.launch pid, foreign := s.foreign ++ [s.manager.groups.length] }
  | .reap g => { s with manager := s.manager.modifyGroup g Group.leaderReap }

def machine : Machine State Action where
  init := ⟨.initial, []⟩
  enabled := enabled isUuid compileRegex
  next := next isUuid

instance (s : State) (a : Action) : Decidable ((machine isUuid compileRegex).enabled s a) := by
  apply Action.casesOn (motive := fun a => Decidable ((machine isUuid compileRegex).enabled s a)) a
  · exact fun a =>
      inferInstanceAs (Decidable ((Manager.machine isUuid compileRegex).enabled s.manager a))
  all_goals
    intro
    dsimp only [machine, enabled]
    infer_instance

end

def Aimed (s : State) : Prop :=
  ∀ id sig g, (id, sig, some g) ∈ s.manager.signals → s.manager.groupOf id = some g

-- The group launched for the entry has its leader still to be reaped, or a member left.
def GroupLeft (s : State) (p : ProxyInfo) : Prop :=
  ∃ g G, s.manager.groupOf p.id = some g ∧ s.manager.groups[g]? = some G ∧ G.Present

def BeforeReap (s : State) : Action → Prop
  | .manager (.stopSigterm _ c _ _) | .manager (.stopSigkill _ c) => GroupLeft s c.proxy
  | _ => True

def Distinct (gs : List Group) : Prop :=
  ∀ (g g' : Nat) (G G' : Group), gs[g]? = some G → gs[g']? = some G' → G.Present → G'.Present →
    G.pid = G'.pid → g = g'

theorem distinct_append {gs : List Group} (h : Distinct gs) {pid : Nat}
    (hpid : ∀ g ∈ gs, g.Present → g.pid ≠ pid) : Distinct (gs ++ [Group.spawn pid]) := by
  have new {g : Nat} {G : Group} (hG : (gs ++ [Group.spawn pid])[g]? = some G) :
      gs[g]? = some G ∨ g = gs.length ∧ G.pid = pid := by
    rcases Nat.lt_trichotomy g gs.length with hlt | rfl | hgt
    · rw [List.getElem?_append_left hlt] at hG
      exact Or.inl hG
    · simp only [List.getElem?_concat_length, Option.some.injEq] at hG
      exact Or.inr ⟨rfl, by rw [← hG]; rfl⟩
    · rw [List.getElem?_eq_none (by simp; omega)] at hG
      cases hG
  intro g g' G G' hG hG' hp hp' heq
  rcases new hG with hold | ⟨rfl, hpid'⟩ <;> rcases new hG' with hold' | ⟨rfl, hpid''⟩
  · exact h g g' G G' hold hold' hp hp' heq
  · exact absurd (heq.trans hpid'') (hpid G (List.mem_of_getElem? hold) hp)
  · exact absurd (heq.symm.trans hpid') (hpid G' (List.mem_of_getElem? hold') hp')
  · rfl

theorem distinct_modify {gs : List Group} (h : Distinct gs) {j : Nat} {f : Group → Group}
    (hf : ∀ G, gs[j]? = some G → (f G).pid = G.pid ∧ ((f G).Present → G.Present)) :
    Distinct (gs.modify j f) := by
  have old {g : Nat} {G : Group} (hG : (gs.modify j f)[g]? = some G) (hp : G.Present) :
      ∃ G₀, gs[g]? = some G₀ ∧ G₀.Present ∧ G₀.pid = G.pid := by
    rw [List.getElem?_modify] at hG
    split at hG
    · next e =>
      subst e
      obtain ⟨G₀, hG₀, rfl⟩ := Option.map_eq_some_iff.mp hG
      obtain ⟨hpid, hpres⟩ := hf G₀ hG₀
      exact ⟨G₀, hG₀, hpres hp, hpid.symm⟩
    · exact ⟨G, by simpa using hG, hp, rfl⟩
  intro g g' G G' hG hG' hp hp' heq
  obtain ⟨G₀, hG₀, hp₀, hpid₀⟩ := old hG hp
  obtain ⟨G₁, hG₁, hp₁, hpid₁⟩ := old hG' hp'
  exact h g g' G₀ G₁ hG₀ hG₁ hp₀ hp₁ (by rw [hpid₀, hpid₁, heq])

theorem reap_present (G : Group) (h : G.leaderReap.Present) : G.Present := by
  rcases h with h | h
  · exact absurd rfl h
  · exact Or.inr h

variable (isUuid : String → Bool) (compileRegex : String → Except String Unit)

theorem distinct_step {s : Manager.State} {a : Manager.Action} (hs : Distinct s.groups)
    (h : Manager.enabled isUuid compileRegex s a) :
    Distinct (Manager.next isUuid s a).groups := by
  cases a with
  | startSpawn i r pid => exact distinct_append hs h.2.2
  | monitorReap id g code => exact distinct_modify hs fun G _ => ⟨rfl, reap_present G⟩
  | leaderExit g =>
    refine distinct_modify hs fun G hG => ⟨rfl, fun _ => Or.inl ?_⟩
    have hl : (s.groups[g]?.map (·.leader)) = some .running := h
    rw [hG] at hl
    rw [show G.leader = .running from Option.some.inj hl]
    decide
  | fork g =>
    refine distinct_modify hs fun G hG => ⟨rfl, fun _ => ?_⟩
    have hl : (s.groups[g]?.map fun g => decide g.Live) = some true := h
    rw [hG] at hl
    exact Group.Live.present (of_decide_eq_true (Option.some.inj hl))
  | memberExit g =>
    refine distinct_modify hs fun G hG => ⟨rfl, fun _ => Or.inr (Or.inl ?_)⟩
    have hl : (s.groups[g]?.map fun g => decide (0 < g.others)) = some true := h
    rw [hG] at hl
    exact of_decide_eq_true (Option.some.inj hl)
  | memberReap g =>
    refine distinct_modify hs fun G hG => ⟨rfl, fun _ => Or.inr (Or.inr ?_)⟩
    have hl : (s.groups[g]?.map fun g => decide (0 < g.zombies)) = some true := h
    rw [hG] at hl
    exact of_decide_eq_true (Option.some.inj hl)
  | _ => exact hs

theorem distinct_next {s : State} {a : Action} (hs : Distinct s.manager.groups)
    (h : enabled isUuid compileRegex s a) : Distinct (next isUuid s a).manager.groups := by
  cases a with
  | manager a => exact distinct_step isUuid compileRegex hs h
  | spawn pid => exact distinct_append hs h
  | reap g => exact distinct_modify hs fun G _ => ⟨rfl, reap_present G⟩

def signalled : Manager.Action → Option (ProxyInfo × Manager.Signal)
  | .stopSigterm _ c _ _ => some (c.proxy, .sigterm)
  | .stopSigkill _ c => some (c.proxy, .sigkill)
  | _ => none

theorem signals_step (s : Manager.State) (a : Manager.Action) :
    (Manager.next isUuid s a).signals =
      s.signals ++ ((signalled a).map fun x => (x.1.id, x.2, s.receiver x.1.pid)).toList := by
  cases a <;> simp [Manager.next, signalled, Manager.State.signal, Manager.State.goto,
    Manager.State.publish, Manager.State.setRegistry, Manager.State.setStatus,
    Manager.State.setMonitor, Manager.State.modifyGroup, Manager.State.launch, Manager.State.add]

theorem receiver_some {s : Manager.State} {pid g : Nat} (h : s.receiver pid = some g) :
    ∃ G, s.groups[g]? = some G ∧ G.Present ∧ G.pid = pid := by
  obtain ⟨hlt, hg, -⟩ := List.findIdx?_eq_some_iff_getElem.mp h
  obtain ⟨hpid, hpres⟩ := of_decide_eq_true hg
  exact ⟨s.groups[g], List.getElem?_eq_getElem hlt, hpres, hpid⟩

theorem receiver_of_present {s : Manager.State} (hs : Distinct s.groups) {g : Nat} {G : Group}
    (hG : s.groups[g]? = some G) (hp : G.Present) : s.receiver G.pid = some g := by
  cases hr : s.receiver G.pid with
  | none =>
    have hno := List.findIdx?_eq_none_iff.mp hr G (List.mem_of_getElem? hG)
    exact absurd ⟨rfl, hp⟩ (of_decide_eq_false hno)
  | some g' =>
    obtain ⟨G', hG', hp', hpid⟩ := receiver_some hr
    rw [hs g' g G' G hG' hG hp' hp hpid]

structure Inv (s : State) : Prop where
  distinct : Distinct s.manager.groups
  resolved : Manager.Resolved s.manager

theorem resolved_extends {s s' : Manager.State} (hs : Manager.Resolved s) (he : s.Extends s')
    (hr : s'.registry = s.registry) (hc : s'.calls = s.calls) : Manager.Resolved s' where
  entries p hp := (hs.entries p (hr ▸ hp)).mono he
  calls i p hm := (hs.calls i p (hc ▸ hm)).mono he
  spawned i r pid g hpc := by
    obtain ⟨G, hG, hp⟩ := hs.spawned i r pid g (hc ▸ hpc)
    obtain ⟨G', hG', hp'⟩ := he.pids g G hG
    exact ⟨G', hG', hp'.trans hp⟩

theorem inv_initial : Inv ⟨.initial, []⟩ where
  distinct _ _ _ _ hG := by cases hG
  resolved := Manager.resolved_initial

theorem inv_step {s : State} {a : Action} (hs : Inv s) (h : enabled isUuid compileRegex s a) :
    Inv (next isUuid s a) where
  distinct := distinct_next isUuid compileRegex hs.distinct h
  resolved := by
    cases a with
    | manager a => exact Manager.resolved_step isUuid compileRegex hs.resolved h
    | spawn pid => exact resolved_extends hs.resolved (Manager.extends_launch s.manager pid) rfl rfl
    | reap g =>
      exact resolved_extends hs.resolved
        (Manager.extends_modifyGroup s.manager g Group.leaderReap fun _ => rfl) rfl rfl

theorem signalled_knows {s : State} {a : Manager.Action} {p : ProxyInfo} {sig : Manager.Signal}
    (hs : Inv s) (h : Manager.enabled isUuid compileRegex s.manager a)
    (ha : signalled a = some (p, sig)) : s.manager.Knows p := by
  cases a with
  | stopSigterm i c sent alive =>
    cases ha
    exact hs.resolved.calls i c.proxy (Or.inl (by rw [show (s.manager.calls i).pc = _ from h]; rfl))
  | stopSigkill i c =>
    cases ha
    exact hs.resolved.calls i c.proxy (Or.inl (by rw [show (s.manager.calls i).pc = _ from h]; rfl))
  | _ => cases ha

theorem signalled_groupOf {s : Manager.State} {a : Manager.Action} {p : ProxyInfo}
    {sig : Manager.Signal} (ha : signalled a = some (p, sig)) :
    (Manager.next isUuid s a).groupOf = s.groupOf := by
  cases a <;> first
    | rfl
    | cases ha

theorem beforeReap_iff {s : State} {a : Manager.Action} :
    BeforeReap s (.manager a) ↔ ∀ p sig, signalled a = some (p, sig) → GroupLeft s p := by
  cases a with
  | stopSigterm i c sent alive =>
    exact ⟨fun h p sig e => (by cases e; exact h), fun h => h _ _ rfl⟩
  | stopSigkill i c => exact ⟨fun h p sig e => (by cases e; exact h), fun h => h _ _ rfl⟩
  | _ => exact ⟨fun _ p sig e => (by cases e), fun _ => trivial⟩

theorem receiver_own {s : State} (hs : Inv s) {p : ProxyInfo} (hk : s.manager.Knows p)
    (hl : GroupLeft s p) : s.manager.receiver p.pid = s.manager.groupOf p.id := by
  obtain ⟨g, G, hg, hG, hpid⟩ := hk.group
  obtain ⟨g', G', hg', hG', hpres⟩ := hl
  obtain rfl : g = g' := Option.some.inj (hg.symm.trans hg')
  obtain rfl : G = G' := Option.some.inj (hG.symm.trans hG')
  rw [hg, ← hpid]
  exact receiver_of_present hs.distinct hG hpres

theorem aimed_step {s : State} {a : Action} (hs : Inv s) (hp : Aimed s)
    (h : enabled isUuid compileRegex s a) (ha : BeforeReap s a) : Aimed (next isUuid s a) := by
  cases a with
  | spawn pid => exact hp
  | reap g => exact hp
  | manager a =>
    intro id sig g hmem
    rw [next, signals_step, List.mem_append] at hmem
    rcases hmem with hmem | hmem
    · exact (Manager.extends_step isUuid compileRegex h).groupOf id g (hp id sig g hmem)
    · simp only [Option.mem_toList, Option.map_eq_some_iff, Prod.mk.injEq] at hmem
      obtain ⟨⟨p, sig'⟩, hsig, rfl, rfl, hrec⟩ := hmem
      have hown := receiver_own hs (signalled_knows isUuid compileRegex hs h hsig)
        (beforeReap_iff.mp ha p sig' hsig)
      rw [next, signalled_groupOf isUuid hsig, ← hown]
      exact hrec

-- Once the group is gone its number is free: nothing keeps the system from giving it away just
-- before the signal.
theorem misdirected {s : State} {a : Action} (hs : Inv s) (h : enabled isUuid compileRegex s a)
    (ha : ¬ BeforeReap s a) :
    ∃ pids : List Nat, (machine isUuid compileRegex).Legal s (pids.map .spawn ++ [a]) ∧
      ¬ Aimed ((machine isUuid compileRegex).exec s (pids.map .spawn ++ [a])) := by
  cases a with
  | spawn pid => exact absurd trivial ha
  | reap g => exact absurd trivial ha
  | manager a =>
    simp only [beforeReap_iff, not_forall] at ha
    obtain ⟨p, sig, hsig, hgone⟩ := ha
    obtain ⟨g, G, hg, hG, hpid⟩ := (signalled_knows isUuid compileRegex hs h hsig).group
    have miss {t : State} {g' : Nat} (hrec : t.manager.receiver p.pid = some g')
        (ht : t.manager.groupOf = s.manager.groupOf) (hne : g ≠ g') :
        ¬ Aimed (next isUuid t (.manager a)) := by
      intro hp
      have hown := hp p.id sig g' (by simp [next, signals_step, hsig, hrec])
      rw [next, signalled_groupOf isUuid hsig, ht, hg] at hown
      exact hne (Option.some.inj hown)
    cases hrec : s.manager.receiver p.pid with
    | some g' =>
      refine ⟨[], ⟨h, trivial⟩, miss hrec rfl fun e => hgone ?_⟩
      obtain ⟨G', hG', hpres, -⟩ := receiver_some hrec
      exact ⟨g, G', hg, by rw [e, hG'], hpres⟩
    | none =>
      have hfree : ∀ G' ∈ s.manager.groups, G'.Present → G'.pid ≠ p.pid := fun G' hG' hpres e =>
        of_decide_eq_false (List.findIdx?_eq_none_iff.mp hrec G' hG') ⟨e, hpres⟩
      have hdistinct := distinct_append hs.distinct hfree
      have hnew := receiver_of_present (s := s.manager.launch p.pid) hdistinct
        (g := s.manager.groups.length) (G := Group.spawn p.pid) (by simp [Manager.State.launch])
        (Or.inl (by simp [Group.spawn]))
      refine ⟨[p.pid], ⟨hfree, ?_, trivial⟩, miss (t := next isUuid s (.spawn p.pid)) hnew rfl ?_⟩
      · cases a with
        | stopSigterm i c sent alive => exact h
        | stopSigkill i c => exact h
        | _ => cases hsig
      · exact Nat.ne_of_lt (List.getElem?_eq_some_iff.mp hG).1

theorem signals_aimed {as : List Action}
    (h : (machine isUuid compileRegex).Legal ⟨.initial, []⟩ as) :
    ((machine isUuid compileRegex).Throughout BeforeReap ⟨.initial, []⟩ as →
      (machine isUuid compileRegex).Always Aimed ⟨.initial, []⟩ as) ∧
    ∀ pre a post, as = pre ++ a :: post →
      ¬ BeforeReap ((machine isUuid compileRegex).exec ⟨.initial, []⟩ pre) a →
      ∃ pids : List Nat,
        (machine isUuid compileRegex).Legal ⟨.initial, []⟩ (pre ++ (pids.map .spawn ++ [a])) ∧
        ¬ Aimed ((machine isUuid compileRegex).exec ⟨.initial, []⟩
          (pre ++ (pids.map .spawn ++ [a]))) := by
  have hstep : ∀ s a, Inv s → (machine isUuid compileRegex).enabled s a → Inv (next isUuid s a) :=
    fun s a hs he => inv_step isUuid compileRegex hs he
  refine ⟨fun hc => ?_, fun pre a post has hgone => ?_⟩
  · have hboth := (machine isUuid compileRegex).always_of_step (J := fun s => Inv s ∧ Aimed s)
      (fun s a hs he ha => ⟨hstep s a hs.1 he, aimed_step isUuid compileRegex hs.1 hs.2 he ha⟩)
      ⟨inv_initial, fun _ _ _ hmem => by cases hmem⟩ h hc
    exact (machine isUuid compileRegex).always_mono (fun _ hs => hs.2) hboth
  · subst has
    obtain ⟨hpre, ha, -⟩ := (machine isUuid compileRegex).throughout_append.mp h
    have hinv := (machine isUuid compileRegex).always_last
      ((machine isUuid compileRegex).always_of_step (fun s a hs he _ => hstep s a hs he)
        inv_initial hpre hpre)
    obtain ⟨pids, hl, hmiss⟩ := misdirected isUuid compileRegex hinv ha hgone
    refine ⟨pids, (machine isUuid compileRegex).throughout_append.mpr ⟨hpre, hl⟩, ?_⟩
    rwa [(machine isUuid compileRegex).exec_append]

def webRun : List Action :=
  (Manager.startRun 0 Manager.webRequest 7 "a").map .manager

def webStop : Manager.StopCall :=
  ⟨ProxyInfo.new Manager.webRequest "a" 7, false, false, false⟩

-- Somebody else's process is about, and another one gets the number once web is gone.
def stoppedRun : List Action :=
  webRun ++
    [.spawn 8, .manager (.begin 1 (.stop "web" "app" false false)),
     .manager (.task 1 (.stop "web" "app" false false) []),
     .manager (.stopLookup 1 "web" "app" false false), .manager (.stopPublish 1 webStop),
     .manager (.stopSetStopping 1 webStop), .manager (.stopSigterm 1 webStop true true),
     .manager (.leaderExit 0), .manager (.monitorReap "a" 0 none),
     .manager (.stopPoll 1 webStop false), .spawn 7, .manager (.stopSetStopped 1 webStop)]

theorem signals_aimed_web :
    let m := machine (fun _ => false) (fun _ => .ok ())
    m.Always Aimed ⟨.initial, []⟩ stoppedRun ∧
      (m.exec ⟨.initial, []⟩ stoppedRun).manager.signals = [("a", .sigterm, some 0)] ∧
      (m.exec ⟨.initial, []⟩ stoppedRun).manager.receiver 7 = some 2 ∧
      (m.exec ⟨.initial, []⟩ stoppedRun).foreign = [1, 2] := by
  refine ⟨(signals_aimed _ _ (by decide)).1 ?_, by decide⟩
  exact ⟨trivial, trivial, trivial, trivial, trivial, trivial, trivial, trivial, trivial, trivial,
    trivial, trivial, trivial, trivial, trivial, ⟨0, ⟨7, .running, 0, 0⟩, by decide⟩, trivial,
    trivial, trivial, trivial, trivial, trivial⟩

-- web exits and is reaped, its number goes to a process the manager knows nothing of, and the entry
-- is stopped.
def reusedPid : List Action :=
  webRun ++
    [.manager (.leaderExit 0), .manager (.monitorReap "a" 0 (some 0)), .spawn 7,
     .manager (.begin 1 (.stop "web" "app" false false)),
     .manager (.task 1 (.stop "web" "app" false false) []),
     .manager (.stopLookup 1 "web" "app" false false), .manager (.stopPublish 1 webStop),
     .manager (.stopSetStopping 1 webStop), .manager (.stopSigterm 1 webStop true true)]

theorem foreign_group_signalled :
    (machine (fun _ => false) (fun _ => .ok ())).Legal ⟨.initial, []⟩ reusedPid ∧
      ¬ (machine (fun _ => false) (fun _ => .ok ())).Always Aimed ⟨.initial, []⟩ reusedPid := by
  refine ⟨by decide, fun h => ?_⟩
  have hlast := (machine (fun _ => false) (fun _ => .ok ())).always_last h
  exact absurd (hlast "a" .sigterm 1 (by decide)) (by decide)

end PidReuse
