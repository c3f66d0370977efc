import Mathlib.Algebra.Ring.Nat
import Mathlib.Data.Set.Finite.Basic
import Mathlib.Data.Finset.Option
import Mcproc.Lib.Runs
import Mcproc.Process.Orphans

namespace Manager

variable (isUuid : String → Bool) (compileRegex : String → Except String Unit)

structure Sparse (s : State) : Prop where
  calls : {i | (s.calls i).pc ≠ .idle}.Finite
  ids : {id | s.groupOf id ≠ none}.Finite

theorem sparse_initial : Sparse State.initial where
  calls := by simp [State.initial]
  ids := by simp [State.initial]

theorem sparse_step {s : State} (a : Action) (hs : Sparse s) : Sparse (next isUuid s a) where
  calls := by
    refine (hs.calls.union a.actor.toFinset.finite_toSet).subset fun i hi => ?_
    by_cases ha : a.actor = some i
    · exact Or.inr (by simp [ha])
    · refine Or.inl fun hidle => hi ?_
      rw [calls_frame isUuid s a ha]
      exact hidle
  ids := by
    have hnew : {id | ∃ i r pid g, a = .startAdd i r pid g id}.Finite := by
      refine Set.Subsingleton.finite ?_
      rintro id ⟨i, r, pid, g, rfl⟩ id' ⟨_, _, _, _, h⟩
      cases h
      rfl
    refine (hs.ids.union hnew).subset fun id hid => ?_
    obtain ⟨g, hg⟩ := Option.ne_none_iff_exists'.mp hid
    rcases groupOf_step isUuid hg with hold | ⟨i, r, pid, ha⟩
    · exact Or.inl (by simp [hold])
    · exact Or.inr ⟨i, r, pid, g, ha⟩

theorem reachable_sparse {s : State} (h : (machine isUuid compileRegex).Reachable s) : Sparse s :=
  (machine isUuid compileRegex).reachable_induction sparse_initial
    (fun _ a hs _ => sparse_step isUuid a hs) h

namespace Sparse

variable {s : State}

theorem idle (hs : Sparse s) : ∃ i, (s.calls i).pc = .idle := by
  obtain ⟨i, hi⟩ := hs.calls.exists_notMem
  exact ⟨i, not_not.mp hi⟩

theorem unused (hs : Sparse s) : ∃ id, s.groupOf id = none := by
  obtain ⟨id, hid⟩ := hs.ids.exists_notMem
  exact ⟨id, not_not.mp hid⟩

end Sparse

theorem unused_pid (s : State) : ∃ pid, ∀ g ∈ s.groups, g.pid ≠ pid := by
  obtain ⟨pid, hpid⟩ := Infinite.exists_notMem_finset (s.groups.map Group.pid).toFinset
  refine ⟨pid, fun g hg e => hpid ?_⟩
  rw [List.mem_toFinset, ← e]
  exact List.mem_map_of_mem hg

def State.Carries (s : State) (pid : Nat) (P : Group → Prop) : Prop :=
  ∃ G ∈ s.groups, G.pid = pid ∧ P G

-- What killpg and ps tell a stop agrees with the groups, in both directions.
def Accurate (s : State) : Action → Prop
  | .stopSigterm _ c sent alive =>
    (sent = true ↔ s.Carries c.proxy.pid Group.Present) ∧
      (alive = true ↔ s.Carries c.proxy.pid Group.Present)
  | .stopPoll _ c alive | .stopConfirm _ c alive =>
    alive = true ↔ s.Carries c.proxy.pid Group.Present
  | .stopConfirmPs _ c survivors => survivors = true ↔ s.Carries c.proxy.pid Group.Live
  | _ => True

def Group.members (g : Group) : Nat := (if g.leader = .running then 1 else 0) + g.others

def State.members (s : State) : Nat := (s.groups.map Group.members).sum

theorem members_modifyGroup {s : State} {g : Nat} {G : Group} (hG : s.groups[g]? = some G)
    {f : Group → Group} (hf : (f G).members < G.members) :
    (s.modifyGroup g f).members < s.members := by
  obtain ⟨hlt, rfl⟩ := List.getElem?_eq_some_iff.mp hG
  have hsplit : s.groups.take g ++ s.groups[g] :: s.groups.drop (g + 1) = s.groups := by
    rw [List.getElem_cons_drop, List.take_append_drop]
  have hsum : s.members = ((s.groups.take g).map Group.members).sum +
      (s.groups[g].members + ((s.groups.drop (g + 1)).map Group.members).sum) := by
    have hmapped := congrArg (fun l => (l.map Group.members).sum) hsplit
    simp only [List.map_append, List.map_cons, List.sum_append, List.sum_cons] at hmapped
    exact hmapped.symm
  rw [hsum, State.members, State.modifyGroup, List.modify_eq_take_cons_drop hlt]
  simp only [List.map_append, List.map_cons, List.sum_append, List.sum_cons]
  omega

-- The runs in which no stop is told anything false.
def accurate : Machine State Action := (machine isUuid compileRegex).restrict Accurate

variable {isUuid compileRegex} in
theorem reachable_accurate {s : State} (h : (machine isUuid compileRegex).Reachable s)
    {as : List Action} (hl : (accurate isUuid compileRegex).Legal s as) :
    (machine isUuid compileRegex).Reachable ((accurate isUuid compileRegex).exec s as) :=
  (machine isUuid compileRegex).reachable_exec h (Machine.legal_of_restrict _ hl)

-- What a call needs of the state to go on by itself.
structure At (i : Nat) (pc : Pc) (r : Registry) (groupOf : String → Option Nat) (s : State) :
    Prop where
  pc : (s.calls i).pc = pc
  registry : s.registry = r
  groupOf : s.groupOf = groupOf

theorem token_cases {pc : Pc} {k : ProcessKey} (h : pc.token = some k) :
    (∃ r, pc = .startLaunch r ∧ r.key = k) ∨ (∃ r pid g, pc = .startAdd r pid g ∧ r.key = k) ∨
      pc = .startDrop k ∨ (∃ r, pc = .startRelease r k) ∨ ∃ c, pc = .stop c (.release k) := by
  cases pc with
  | startLaunch r => exact Or.inl ⟨r, rfl, Option.some.inj h⟩
  | startAdd r pid g => exact Or.inr (Or.inl ⟨r, pid, g, rfl, Option.some.inj h⟩)
  | startDrop k' =>
    cases h
    exact Or.inr (Or.inr (Or.inl rfl))
  | startRelease r k' =>
    cases h
    exact Or.inr (Or.inr (Or.inr (Or.inl ⟨r, rfl⟩)))
  | stop c phase =>
    cases phase with
    | release k' =>
      cases h
      exact Or.inr (Or.inr (Or.inr (Or.inr ⟨c, rfl⟩)))
    | _ => cases h
  | _ => cases h

section

variable {isUuid compileRegex} {s : State} {i : Nat} {n : Pc} {r : Registry}
  {groupOf : String → Option Nat} {P : State → Prop}

theorem At.step {a : Action} (he : enabled isUuid compileRegex s a) (ht : Accurate s a)
    (hpc : ((next isUuid s a).calls i).pc = n) (hr : (next isUuid s a).registry = r)
    (hg : (next isUuid s a).groupOf = groupOf)
    (h : ∀ t, At i n r groupOf t → (accurate isUuid compileRegex).CanReach P t) :
    (accurate isUuid compileRegex).CanReach P s :=
  (accurate isUuid compileRegex).canReach_step ⟨he, ht⟩ (h _ ⟨hpc, hr, hg⟩)

theorem At.dying (hs : At i n r groupOf s) {g : Nat} {f : Group → Group} :
    At i n r groupOf (s.modifyGroup g f) :=
  ⟨hs.pc, hs.registry, hs.groupOf⟩

-- The processes of a killed group end one by one, each by a step of its own.
theorem can_die (pid : Nat) (hs : At i n r groupOf s)
    (h : ∀ t, At i n r groupOf t → ¬ t.Carries pid Group.Live →
      (accurate isUuid compileRegex).CanReach P t) :
    (accurate isUuid compileRegex).CanReach P s := by
  refine (accurate isUuid compileRegex).canReach_trans
    ((accurate isUuid compileRegex).canReach_of_size (J := At i n r groupOf)
      (P := fun t => ¬ t.Carries pid Group.Live) State.members (fun t ht hlive => ?_) hs)
    fun t ht => h t ht.1 ht.2
  obtain ⟨G, hG, -, hl⟩ := not_not.mp hlive
  obtain ⟨g, hg⟩ := List.getElem?_of_mem hG
  by_cases hleader : G.leader = .running
  · have he : enabled isUuid compileRegex t (.leaderExit g) := by
      simp only [enabled, hg, Option.map_some, hleader]
    refine ⟨.leaderExit g, ⟨he, trivial⟩, ht.dying, members_modifyGroup hg ?_⟩
    simp [Group.members, Group.leaderExit, hleader]
  · have hothers : 0 < G.others := hl.resolve_left hleader
    have he : enabled isUuid compileRegex t (.memberExit g) := by
      simp only [enabled, hg, Option.map_some, hothers, decide_true]
    refine ⟨.memberExit g, ⟨he, trivial⟩, ht.dying, members_modifyGroup hg ?_⟩
    exact Nat.add_lt_add_left (Nat.sub_lt hothers Nat.one_pos) _

-- A group of unreaped zombies still answers killpg; ps then tells that nobody is left.
theorem can_confirm {c : StopCall} (hs : At i (.stop c .confirm) r groupOf s)
    (hdead : ¬ s.Carries c.proxy.pid Group.Live)
    (h : ∀ t, At i (.stop c .setStopped) r groupOf t → (accurate isUuid compileRegex).CanReach P t) :
    (accurate isUuid compileRegex).CanReach P s := by
  by_cases hpresent : s.Carries c.proxy.pid Group.Present
  · refine (accurate isUuid compileRegex).canReach_step (a := .stopConfirm i c true)
      ⟨hs.pc, iff_of_true rfl hpresent⟩ ?_
    refine At.step (a := .stopConfirmPs i c false) (State.goto_pc_self ..) ?_
      (State.goto_pc_self ..) hs.registry hs.groupOf h
    exact iff_of_false Bool.false_ne_true hdead
  · exact At.step (a := .stopConfirm i c false) hs.pc (iff_of_false Bool.false_ne_true hpresent)
      (State.goto_pc_self ..) hs.registry hs.groupOf h

theorem can_run {t : Task} (hi : (s.calls i).pc = .idle) (ht : t.admitted)
    (hrun : t.run isUuid s [] = ⟨n, []⟩)
    (h : ∀ u, At i n s.registry s.groupOf u → (accurate isUuid compileRegex).CanReach P u) :
    (accurate isUuid compileRegex).CanReach P s := by
  refine (accurate isUuid compileRegex).canReach_step (a := .begin i t) ⟨⟨hi, ht⟩, trivial⟩ ?_
  refine At.step (a := .task i t []) (Function.update_self ..) trivial ?_ rfl rfl h
  have hsame : t.run isUuid (next isUuid s (.begin i t)) [] = t.run isUuid s [] := by
    cases t <;> rfl
  simp only [accurate, Machine.restrict, machine, next, Function.update_self]
  exact congrArg Call.pc (hsame.trans hrun)

theorem can_stop (hs : Owned s) (hi : (s.calls i).pc = .idle) {nameOrId project : String}
    {p : ProxyInfo}
    (hp : s.registry.getProcessByNameOrIdWithProject isUuid nameOrId (some project) = some p) :
    (accurate isUuid compileRegex).CanReach
      (fun t => t.registry = (s.registry.dropProcess p.id).releaseName p.key) s := by
  have hfound : s.registry.getProcessById p.id = some p :=
    hs.lookup (Registry.lookup_mem isUuid hp)
  let c : StopCall := ⟨p, true, false, false⟩
  refine can_run (t := .stop nameOrId project true false) hi rfl rfl fun u hu => ?_
  refine At.step (a := .stopLookup i nameOrId project true false) (n := .stop c .publish) hu.pc
    trivial (by rw [next, State.goto_pc_self, hu.registry, hp]; rfl) hu.registry hu.groupOf
    fun u hu => ?_
  refine At.step (a := .stopPublish i c) hu.pc trivial (State.goto_pc_self ..) hu.registry
    hu.groupOf fun u hu => ?_
  refine At.step (a := .stopSetStopping i c) (n := .stop c .sigkill) hu.pc trivial
    (State.goto_pc_self ..) hu.registry hu.groupOf fun u hu => ?_
  refine At.step (a := .stopSigkill i c) hu.pc trivial (State.goto_pc_self ..) hu.registry
    hu.groupOf fun u hu => ?_
  refine can_die p.pid hu fun u hu hdead => can_confirm hu hdead fun u hu => ?_
  refine At.step (a := .stopSetStopped i c) hu.pc trivial (State.goto_pc_self ..) hu.registry
    hu.groupOf fun u hu => ?_
  refine At.step (a := .stopRemove i c) (n := .stop c (.release p.key))
    (r := s.registry.dropProcess p.id) hu.pc trivial
    (by rw [next, State.goto_pc_self, hu.registry, hfound]; rfl) (by rw [← hu.registry]; rfl)
    hu.groupOf fun u hu => ?_
  refine At.step (a := .stopRelease i c p.key) (r := (s.registry.dropProcess p.id).releaseName p.key)
    hu.pc trivial (State.goto_pc_self ..) (by rw [← hu.registry]; rfl) hu.groupOf fun u hu => ?_
  exact (accurate isUuid compileRegex).canReach_here hu.registry

theorem can_start (hs : Sparse s) (hi : (s.calls i).pc = .idle) {q : StartRequest}
    (hq : (Task.start q).admitted) (hc : (Launcher.checkLaunch compileRegex q).isOk = true)
    (hname : s.registry.getProcessByNameWithProject q.name q.project = none)
    (hkey : q.key ∉ s.registry.reservedNames) :
    (accurate isUuid compileRegex).CanReach
      (fun t => ∃ id pid, s.groupOf id = none ∧ ProxyInfo.new q id pid ∈ t.registry.processes) s := by
  obtain ⟨id, hid⟩ := hs.unused
  have htry : s.registry.tryReserveName q.key = (true, s.registry.reserveName q.key) := if_neg hkey
  refine can_run (t := .start q) hi hq rfl fun u hu => ?_
  refine At.step (a := .startLookup i q) (n := .startReserve q) hu.pc trivial
    (by rw [next, State.goto_pc_self, hu.registry, hname]; rfl) hu.registry hu.groupOf fun u hu => ?_
  refine At.step (a := .startReserve i q) (n := .startLaunch q) (r := s.registry.reserveName q.key)
    hu.pc trivial (by rw [next, State.goto_pc_self, hu.registry, htry]; rfl)
    (by rw [next, hu.registry, htry]; rfl) hu.groupOf fun u hu => ?_
  obtain ⟨pid, hpid⟩ := unused_pid u
  refine At.step (a := .startSpawn i q pid) ⟨hu.pc, hc, fun g hg _ => hpid g hg⟩ trivial
    (State.goto_pc_self ..) hu.registry hu.groupOf fun t ht => ?_
  refine (accurate isUuid compileRegex).canReach_step (a := .startAdd i q pid u.groups.length id)
    ⟨⟨ht.pc, by rw [ht.groupOf, hid]⟩, trivial⟩ ?_
  refine (accurate isUuid compileRegex).canReach_here ⟨id, pid, hid, ?_⟩
  exact Registry.mem_addProcess.mpr (Or.inl rfl)

end

section

variable {isUuid compileRegex} {s : State}

theorem Owned.addressed (hs : Owned s) {p : ProxyInfo} (hp : p ∈ s.registry.processes) :
    ∃ q, s.registry.getProcessByNameOrIdWithProject isUuid p.id (some p.project) = some q := by
  have hid : (s.registry.getProcessById p.id).filter (·.project = p.project) = some p := by
    rw [hs.lookup hp]
    simp [Option.filter]
  simp only [Registry.getProcessByNameOrIdWithProject, hid]
  split
  · exact ⟨p, rfl⟩
  · cases s.registry.getProcessByNameWithProject p.id p.project with
    | none => exact ⟨p, rfl⟩
    | some q => exact ⟨q, rfl⟩

theorem can_clear (h : (machine isUuid compileRegex).Reachable s) {p : ProxyInfo}
    (hp : p ∈ s.registry.processes) :
    (accurate isUuid compileRegex).CanReach (fun t => p.key ∉ t.registry.reservedNames) s := by
  induction hn : s.registry.processes.length using Nat.strongRecOn generalizing s with
  | ind n ih =>
    have hs := reachable_owned isUuid compileRegex h
    obtain ⟨i, hi⟩ := (reachable_sparse isUuid compileRegex h).idle
    obtain ⟨q, hq⟩ : ∃ q, s.registry.getProcessByNameOrIdWithProject isUuid p.id
      (some p.project) = some q := hs.addressed hp
    obtain ⟨as, hl, ht⟩ : (accurate isUuid compileRegex).CanReach
      (fun t => t.registry = (s.registry.dropProcess q.id).releaseName q.key) s := can_stop hs hi hq
    have hmem := Registry.lookup_mem isUuid hq
    by_cases hpq : p = q
    · refine ⟨as, hl, fun hheld => ?_⟩
      rw [ht, hpq] at hheld
      exact (Registry.mem_releaseName.mp hheld).1 rfl
    · have hne : p.id ≠ q.id := fun e => hpq ((hs.resolved.entries q hmem).unique p hp e)
      have hlt : ((accurate isUuid compileRegex).exec s as).registry.processes.length < n := by
        rw [ht, ← hn]
        exact List.length_filter_lt_length_iff_exists.mpr ⟨q, hmem, by simp⟩
      have hp' : p ∈ ((accurate isUuid compileRegex).exec s as).registry.processes := by
        rw [ht]
        exact Registry.mem_dropProcess.mpr ⟨hp, hne⟩
      obtain ⟨bs, hl', hfree⟩ := ih _ hlt (reachable_accurate h hl) hp' rfl
      refine ⟨as ++ bs, (accurate isUuid compileRegex).throughout_append.mpr ⟨hl, hl'⟩, ?_⟩
      rwa [(accurate isUuid compileRegex).exec_append]

theorem can_add (h : (machine isUuid compileRegex).Reachable s) {i : Nat} {r : StartRequest}
    {pid g : Nat} (hpc : (s.calls i).pc = .startAdd r pid g) :
    (accurate isUuid compileRegex).CanReach (fun t => r.key ∉ t.registry.reservedNames) s := by
  obtain ⟨id, hid⟩ := (reachable_sparse isUuid compileRegex h).unused
  have he : (machine isUuid compileRegex).enabled s (.startAdd i r pid g id) := ⟨hpc, hid⟩
  refine (accurate isUuid compileRegex).canReach_step ⟨he, trivial⟩ ?_
  exact can_clear ((machine isUuid compileRegex).reachable_next h he)
    (p := ProxyInfo.new r id pid) (Registry.mem_addProcess.mpr (Or.inl rfl))

theorem can_free (h : (machine isUuid compileRegex).Reachable s) (k : ProcessKey) :
    (accurate isUuid compileRegex).CanReach (fun t => k ∉ t.registry.reservedNames) s := by
  have hs := reachable_owned isUuid compileRegex h
  have release {u : State} {a : Action} (he : (accurate isUuid compileRegex).enabled u a)
      (hr : (next isUuid u a).registry = u.registry.releaseName k) :
      (accurate isUuid compileRegex).CanReach (fun t => k ∉ t.registry.reservedNames) u := by
    refine (accurate isUuid compileRegex).canReach_step he ?_
    refine (accurate isUuid compileRegex).canReach_here ?_
    rw [show (accurate isUuid compileRegex).next u a = next isUuid u a from rfl, hr]
    simp
  by_cases hk : k ∈ s.registry.reservedNames
  · obtain ⟨id | i, ho⟩ := hs.mem_reserved.mp hk
    · obtain ⟨p, hp, rfl⟩ := Option.map_eq_some_iff.mp ho
      exact can_clear h (Registry.getProcessById_some hp).1
    · rcases token_cases ho with ⟨r, hpc, rfl⟩ | ⟨r, pid, g, hpc, rfl⟩ | hpc | ⟨r, hpc⟩ | ⟨c, hpc⟩
      · by_cases hc : (Launcher.checkLaunch compileRegex r).isOk = true
        · obtain ⟨pid, hpid⟩ := unused_pid s
          have he : (machine isUuid compileRegex).enabled s (.startSpawn i r pid) :=
            ⟨hpc, hc, fun g hg _ => hpid g hg⟩
          refine (accurate isUuid compileRegex).canReach_step ⟨he, trivial⟩ ?_
          exact can_add ((machine isUuid compileRegex).reachable_next h he)
            (State.goto_pc_self ..)
        · refine At.step (a := .startReject i r) hpc trivial (State.goto_pc_self ..) rfl rfl
            fun u hu => ?_
          exact release (a := .startDrop i r.key) ⟨hu.pc, trivial⟩ rfl
      · exact can_add h hpc
      · exact release (a := .startDrop i k) ⟨hpc, trivial⟩ rfl
      · exact release (a := .startRelease i r k) ⟨hpc, trivial⟩ rfl
      · exact release (a := .stopRelease i c k) ⟨hpc, trivial⟩ rfl
  · exact (accurate isUuid compileRegex).canReach_here hk

theorem exec_unassigned {as : List Action} (hl : (machine isUuid compileRegex).Legal s as)
    {id : String} (h : ((machine isUuid compileRegex).exec s as).groupOf id = none) :
    s.groupOf id = none := by
  induction as generalizing s with
  | nil => exact h
  | cons a as ih =>
    have hnext : (next isUuid s a).groupOf id = none := ih hl.2 h
    by_contra hne
    obtain ⟨g, hg⟩ := Option.ne_none_iff_exists'.mp hne
    rw [(extends_step isUuid compileRegex hl.1).groupOf id g hg] at hnext
    cases hnext

end

theorem name_recoverable {s : State} (h : (machine isUuid compileRegex).Reachable s)
    {r : StartRequest} (hr : (Task.start r).admitted)
    (hc : (Launcher.checkLaunch compileRegex r).isOk = true) :
    (accurate isUuid compileRegex).CanReach
      (fun t => ∃ id pid, s.groupOf id = none ∧ ProxyInfo.new r id pid ∈ t.registry.processes) s := by
  obtain ⟨as, hl, hfree⟩ := can_free h r.key
  have hreach := reachable_accurate h hl
  have hs := reachable_owned isUuid compileRegex hreach
  have hsparse := reachable_sparse isUuid compileRegex hreach
  obtain ⟨i, hi⟩ := hsparse.idle
  have hname : ((accurate isUuid compileRegex).exec s as).registry.getProcessByNameWithProject
      r.name r.project = none := by
    by_contra hne
    obtain ⟨p, hp⟩ := Option.ne_none_iff_exists'.mp hne
    obtain ⟨hmem, hn, hpr⟩ := Registry.getProcessByNameWithProject_some hp
    have hkey : p.key = r.key := by simp only [ProxyInfo.key, StartRequest.key, hn, hpr]
    exact hfree (hkey ▸ hs.entry_reserved hmem)
  obtain ⟨bs, hl', id, pid, hid, hp⟩ := can_start hsparse hi hr hc hname hfree
  refine ⟨as ++ bs, (accurate isUuid compileRegex).throughout_append.mpr ⟨hl, hl'⟩, id, pid,
    exec_unassigned (Machine.legal_of_restrict _ hl) hid, ?_⟩
  rwa [(accurate isUuid compileRegex).exec_append]

theorem name_recoverable_web :
    let s := (machine (fun _ => false) (fun _ => .ok ())).exec .initial (startRun 0 webRequest 7 "a")
    (accurate (fun _ => false) (fun _ => .ok ())).CanReach (fun t =>
      ∃ id pid, s.groupOf id = none ∧ ProxyInfo.new webRequest id pid ∈ t.registry.processes) s :=
  name_recoverable _ _ ⟨startRun 0 webRequest 7 "a", by decide, rfl⟩ (by decide) (by decide)

end Manager
