import Mathlib.Data.Finset.Dedup
import Mcproc.Lib.Ownership
import Mcproc.Process.ManagerFrame

namespace Manager

def Pc.reservation : Pc → Option ProcessKey
  | .startLaunch r | .startAdd r _ _ => some r.key
  | .startDrop k => some k
  | _ => none

def Pc.removal : Pc → Option ProcessKey
  | .startRelease _ k | .stop _ (.release k) => some k
  | _ => none

def Pc.token (pc : Pc) : Option ProcessKey := pc.reservation.or pc.removal

def State.holder (s : State) : String ⊕ Nat → Option ProcessKey
  | .inl id => (s.registry.getProcessById id).map ProxyInfo.key
  | .inr i => (s.calls i).pc.token

theorem token_of_plain {pc : Pc} (h : pc.plain = true) :
    pc.reservation = none ∧ pc.removal = none := by
  cases pc with
  | startLaunch | startDrop | startAdd | startRelease => cases h
  | stop c phase => cases phase <;> first | exact ⟨rfl, rfl⟩ | cases h
  | _ => exact ⟨rfl, rfl⟩

theorem token_of_removal {pc : Pc} {k : ProcessKey} (h : pc.removal = some k) :
    pc.token = some k := by
  cases pc <;> first | exact h | cases h

def Action.quiet : Action → Bool
  | .startRemove _ _ _ | .startRelease _ _ _ | .startReserve _ _ | .startReject _ _
  | .startSpawn _ _ _ | .startDrop _ _ | .startAdd _ _ _ _ _ | .stopRemove _ _
  | .stopRelease _ _ _ => false
  | _ => true

variable (isUuid : String → Bool) (compileRegex : String → Except String Unit)

theorem Landing.plain {s : State} {a : Action} {i : Nat} {pc : Pc} (hl : Landing s a i pc)
    (hq : a.quiet = true) : pc.plain = true := by
  cases hl with
  | calm hc => exact Pc.plain_of_calm hc
  | store | confirm | setStopped | stopMissing | stopRelease => rfl
  | launch ha | reject ha | spawn ha | startRemove ha | stopRemove ha =>
    subst ha
    cases hq

theorem droppable_plain {pc : Pc} (h : pc.droppable = true) : pc.plain = true := by
  cases pc with
  | stop c phase => cases phase <;> first | rfl | cases h
  | startLaunch | startDrop | startAdd | startRelease => cases h
  | _ => rfl

theorem suspended_plain {c : StopCall} {phase : StopPhase} (h : phase.suspended = true) :
    (Pc.stop c phase).plain = true := by
  cases phase <;> first | rfl | cases h

theorem quiet_plain {s : State} {a : Action} (h : enabled isUuid compileRegex s a)
    (hq : a.quiet = true) {i : Nat} (hi : a.actor = some i) : (s.calls i).pc.plain = true := by
  cases a with
  | begin j t => cases hi; exact (congrArg Pc.plain h.1).trans rfl
  | task j t rest => cases hi; exact congrArg (fun c : Call => c.pc.plain) h
  | finish j => cases hi; exact congrArg (fun c : Call => c.pc.plain) h
  | drop j pc => cases hi; exact (congrArg Pc.plain h.1).trans (droppable_plain h.2)
  | stopTimeout j c phase => cases hi; exact (congrArg Pc.plain h.1).trans (suspended_plain h.2)
  | removalSeen j name project => cases hi; exact (congrArg Pc.plain h.1).trans rfl
  | startRemove | startRelease | startReserve | startReject | startSpawn | startDrop | startAdd
  | stopRemove | stopRelease => cases hq
  | monitorReap | monitorError | monitorExitCode | monitorStatus | monitorFailed | monitorPublish
  | leaderExit | fork | memberExit | memberReap => cases hi
  | _ => cases hi; exact (congrArg Pc.plain h).trans rfl

theorem quiet_registry (s : State) {a : Action} (hq : a.quiet = true) :
    (next isUuid s a).registry = s.registry := by
  cases a <;> first | rfl | cases hq

theorem quiet_tokens {s : State} {a : Action} (h : enabled isUuid compileRegex s a)
    (hq : a.quiet = true) (i : Nat) :
    ((next isUuid s a).calls i).pc.reservation = (s.calls i).pc.reservation ∧
      ((next isUuid s a).calls i).pc.removal = (s.calls i).pc.removal := by
  by_cases hi : a.actor = some i
  · obtain ⟨h₁, h₂⟩ := token_of_plain (quiet_plain isUuid compileRegex h hq hi)
    obtain ⟨h₃, h₄⟩ := token_of_plain ((landing isUuid compileRegex h hi).plain hq)
    exact ⟨h₃.trans h₁.symm, h₄.trans h₂.symm⟩
  · rw [calls_frame isUuid s a hi]
    exact ⟨rfl, rfl⟩

section

variable (s : State)

theorem holder_goto (i : Nat) (pc : Pc) :
    (s.goto i pc).holder = Function.update s.holder (.inr i) pc.token := by
  funext o
  cases o with
  | inl id => rfl
  | inr j =>
    by_cases hj : j = i
    · subst hj
      simp [State.holder]
    · simp [State.holder, State.goto_calls, hj]

theorem holder_launch (pid : Nat) : (s.launch pid).holder = s.holder := by
  funext o
  cases o <;> rfl

theorem holder_releaseName (k : ProcessKey) :
    (s.setRegistry (s.registry.releaseName k)).holder = s.holder := by
  funext o
  cases o <;> rfl

theorem holder_reserveName (k : ProcessKey) :
    (s.setRegistry (s.registry.reserveName k)).holder = s.holder := by
  funext o
  cases o <;> rfl

theorem holder_dropProcess (id : String) :
    (s.setRegistry (s.registry.dropProcess id)).holder =
      Function.update s.holder (.inl id) none := by
  funext o
  cases o with
  | inr i => simp [State.holder, State.setRegistry]
  | inl id' =>
    by_cases hid : id' = id
    · subst hid
      simp [State.holder, State.setRegistry, Registry.getProcessById]
    · have hne : (Sum.inl id' : String ⊕ Nat) ≠ .inl id := fun e => hid (Sum.inl.inj e)
      simp only [State.holder, State.setRegistry, Function.update_of_ne hne]
      exact congrArg _ (Registry.getProcessById_dropProcess hid)

theorem holder_add (p : ProxyInfo) (g : Nat) :
    (s.add p g).holder = Function.update s.holder (.inl p.id) (some p.key) := by
  funext o
  cases o with
  | inr i => simp [State.holder, State.add]
  | inl id =>
    by_cases hid : id = p.id
    · subst hid
      simp [State.holder, State.add, Registry.getProcessById, Registry.addProcess]
    · have hne : (Sum.inl id : String ⊕ Nat) ≠ .inl p.id := fun e => hid (Sum.inl.inj e)
      simp only [State.holder, State.add, Function.update_of_ne hne]
      exact congrArg _ (Registry.getProcessById_addProcess hid)

end

structure Refines (s : State) (L : Ledger (String ⊕ Nat) ProcessKey) : Prop where
  holder : L.holder = s.holder
  taken : L.taken = ↑s.registry.reservedNames

theorem refines_initial : Refines State.initial Ledger.empty where
  holder := by
    funext o
    cases o <;> rfl
  taken := by simp [Ledger.empty, State.initial, Registry.new]

section

variable {s s' : State} {L : Ledger (String ⊕ Nat) ProcessKey}

theorem Refines.keep (hL : Refines s L) (hh : s'.holder = s.holder)
    (hr : s'.registry.reservedNames = s.registry.reservedNames) :
    ∃ L', Refines s' L' ∧ L.Move L' :=
  ⟨L, ⟨hL.holder.trans hh.symm, by rw [hL.taken, hr]⟩, .keep L⟩

theorem Refines.acquire (hL : Refines s L) {o : String ⊕ Nat} {k : ProcessKey}
    (ho : s.holder o = none) (hk : k ∉ s.registry.reservedNames)
    (hh : s'.holder = Function.update s.holder o (some k))
    (hr : s'.registry.reservedNames = insert k s.registry.reservedNames) :
    ∃ L', Refines s' L' ∧ L.Move L' := by
  have ho' : L.holder o = none := by rw [hL.holder, ho]
  have hk' : k ∉ L.taken := by simpa [hL.taken] using hk
  refine ⟨L.acquire o k ho' hk', ⟨?_, ?_⟩, .acquire L o k ho' hk'⟩
  · rw [hh, ← hL.holder]
    rfl
  · rw [hr, Finset.coe_insert, ← hL.taken]
    rfl

theorem Refines.pass (hL : Refines s L) (o o' : String ⊕ Nat) (hne : o ≠ o')
    (ho' : s.holder o' = none)
    (hh : s'.holder = Function.update (Function.update s.holder o' (s.holder o)) o none)
    (hr : s'.registry.reservedNames = s.registry.reservedNames) :
    ∃ L', Refines s' L' ∧ L.Move L' := by
  have hn : L.holder o' = none := by rw [hL.holder, ho']
  refine ⟨L.pass o o' hne hn, ⟨?_, ?_⟩, .pass L o o' hne hn⟩
  · rw [hh, ← hL.holder]
    rfl
  · rw [hr, ← hL.taken]
    rfl

theorem Refines.release (hL : Refines s L) {o : String ⊕ Nat} {k : ProcessKey}
    (ho : s.holder o = some k) (hh : s'.holder = Function.update s.holder o none)
    (hr : s'.registry.reservedNames = s.registry.reservedNames.erase k) :
    ∃ L', Refines s' L' ∧ L.Move L' := by
  have ho' : L.holder o = some k := by rw [hL.holder, ho]
  refine ⟨L.release o k ho', ⟨?_, ?_⟩, .release L o k ho'⟩
  · rw [hh, ← hL.holder]
    rfl
  · rw [hr, Finset.coe_erase, ← hL.taken]
    rfl

theorem holder_call {i : Nat} {pc : Pc} (h : (s.calls i).pc = pc) :
    s.holder (.inr i) = pc.token := by
  simp only [State.holder, h]

theorem goto_same_holder {i : Nat} {pc pc' : Pc} (h : (s.calls i).pc = pc)
    (ht : pc'.token = pc.token) : (s.goto i pc').holder = s.holder := by
  rw [holder_goto, ht, ← holder_call h, Function.update_eq_self]

theorem Refines.remove (hL : Refines s L) {i : Nat} {pc : Pc} {id : String}
    {after : Option ProxyInfo → Pc} (h : (s.calls i).pc = pc) (hpc : pc.token = none)
    (hsome : ∀ p, (after (some p)).token = some p.key) (hnone : (after none).token = none) :
    ∃ L', Refines ((s.setRegistry (s.registry.dropProcess id)).goto i
      (after (s.registry.getProcessById id))) L' ∧ L.Move L' := by
  cases hp : s.registry.getProcessById id with
  | none =>
    refine hL.keep ?_ rfl
    have hid : Function.update s.holder (.inl id) none = s.holder :=
      Function.update_eq_self_iff.mpr (by simp [State.holder, hp])
    rw [holder_goto, holder_dropProcess, hid, hnone, ← hpc, ← holder_call h,
      Function.update_eq_self]
  | some p =>
    have hid : s.holder (.inl id) = some p.key := by simp [State.holder, hp]
    refine hL.pass (.inl id) (.inr i) (by simp) ((holder_call h).trans hpc) ?_ rfl
    rw [holder_goto, holder_dropProcess, hsome, hid, Function.update_comm (by simp)]

end

theorem refines_step {s : State} {a : Action} {L : Ledger (String ⊕ Nat) ProcessKey}
    (hs : Resolved s) (hL : Refines s L) (h : enabled isUuid compileRegex s a) :
    ∃ L', Refines (next isUuid s a) L' ∧ L.Move L' := by
  cases hq : a.quiet with
  | true =>
    have hreg := quiet_registry isUuid s hq
    refine hL.keep ?_ (by rw [hreg])
    funext o
    cases o with
    | inl id => simp only [State.holder, hreg]
    | inr i =>
      obtain ⟨h₁, h₂⟩ := quiet_tokens isUuid compileRegex h hq i
      simp only [State.holder, Pc.token, h₁, h₂]
  | false =>
    cases a with
    | startRemove i r e => exact hL.remove h rfl (fun _ => rfl) rfl
    | stopRemove i c => exact hL.remove h rfl (fun _ => rfl) rfl
    | startReserve i r =>
      by_cases hk : r.key ∈ s.registry.reservedNames
      · simp only [next, Registry.tryReserveName, hk, if_true]
        exact hL.keep (goto_same_holder (s := s) h rfl) rfl
      · simp only [next, Registry.tryReserveName, hk, if_false, if_true]
        refine hL.acquire (holder_call h) hk ?_ rfl
        rw [holder_goto, holder_reserveName]
        rfl
    | startReject i r => exact hL.keep (goto_same_holder h rfl) rfl
    | startSpawn i r pid =>
      have hg : ((s.launch pid).goto i (.startAdd r pid s.groups.length)).holder = _ :=
        goto_same_holder h.1 rfl
      exact hL.keep (hg.trans (holder_launch s pid)) rfl
    | startAdd i r pid g id =>
      have hfresh : s.holder (.inl id) = none := by
        simp only [State.holder, Option.map_eq_none_iff]
        by_contra hne
        obtain ⟨p, hp⟩ := Option.ne_none_iff_exists'.mp hne
        obtain ⟨hmem, rfl⟩ := Registry.getProcessById_some hp
        obtain ⟨g', G, hg, -⟩ := (hs.entries p hmem).group
        rw [h.2] at hg
        cases hg
      refine hL.pass (.inr i) (.inl id) (by simp) hfresh ?_ rfl
      rw [next, holder_goto, holder_add, holder_call h.1]
      rfl
    | startRelease i r k =>
      refine hL.release (holder_call h) ?_ rfl
      rw [next, holder_goto, holder_releaseName]
      rfl
    | startDrop i k =>
      refine hL.release (holder_call h) ?_ rfl
      rw [next, holder_goto, holder_releaseName]
      rfl
    | stopRelease i c k =>
      refine hL.release (holder_call h) ?_ rfl
      rw [next, holder_goto, holder_releaseName]
      rfl
    | _ => cases hq

theorem ids_step {s : State} (a : Action) (h : (s.registry.processes.map ProxyInfo.id).Nodup) :
    ((next isUuid s a).registry.processes.map ProxyInfo.id).Nodup := by
  cases a with
  | startAdd i r pid g id => exact Registry.nodup_addProcess _ h
  | startRemove i r e => exact Registry.nodup_dropProcess e.id h
  | stopRemove i c => exact Registry.nodup_dropProcess c.proxy.id h
  | startReserve i r =>
    change ((s.registry.tryReserveName r.key).2.processes.map ProxyInfo.id).Nodup
    simp only [Registry.tryReserveName]
    split <;> exact h
  | _ => exact h

structure Owned (s : State) : Prop where
  resolved : Resolved s
  ids : (s.registry.processes.map ProxyInfo.id).Nodup
  ledger : ∃ L, Refines s L

theorem owned_initial : Owned State.initial :=
  ⟨resolved_initial, List.nodup_nil, _, refines_initial⟩

theorem owned_next {s : State} {a : Action} (hs : Owned s) (h : enabled isUuid compileRegex s a) :
    Owned (next isUuid s a) := by
  obtain ⟨hr, hid, L, hL⟩ := hs
  obtain ⟨L', hL', -⟩ := refines_step isUuid compileRegex hr hL h
  exact ⟨resolved_step isUuid compileRegex hr h, ids_step isUuid a hid, L', hL'⟩

theorem reachable_owned {s : State} (h : (machine isUuid compileRegex).Reachable s) : Owned s :=
  (machine isUuid compileRegex).reachable_induction (J := Owned) owned_initial
    (fun _ _ hs he => owned_next isUuid compileRegex hs he) h

namespace Owned

variable {s : State}

theorem lookup (h : Owned s) {p : ProxyInfo} (hp : p ∈ s.registry.processes) :
    s.registry.getProcessById p.id = some p :=
  Registry.getProcessById_of_mem hp (h.resolved.entries p hp).unique

theorem holder_entry (h : Owned s) {p : ProxyInfo} (hp : p ∈ s.registry.processes) :
    s.holder (.inl p.id) = some p.key := by
  simp [State.holder, h.lookup hp]

theorem sole (h : Owned s) {o o' : String ⊕ Nat} {k : ProcessKey} (ho : s.holder o = some k)
    (ho' : s.holder o' = some k) : o = o' := by
  obtain ⟨L, hL⟩ := h.ledger
  rw [← hL.holder] at ho ho'
  exact L.sole ho ho'

theorem mem_reserved (h : Owned s) {k : ProcessKey} :
    k ∈ s.registry.reservedNames ↔ ∃ o, s.holder o = some k := by
  obtain ⟨L, hL⟩ := h.ledger
  rw [← hL.holder, ← L.backed, hL.taken, Finset.mem_coe]

theorem keys_nodup (h : Owned s) : (s.registry.processes.map ProxyInfo.key).Nodup := by
  refine (List.Nodup.of_map _ h.ids).map_on fun p hp q hq hk => ?_
  have hid := h.sole (h.holder_entry hp) ((h.holder_entry hq).trans (congrArg some hk.symm))
  exact (h.resolved.entries q hq).unique p hp (Sum.inl.inj hid)

theorem entry_reserved (h : Owned s) {p : ProxyInfo} (hp : p ∈ s.registry.processes) :
    p.key ∈ s.registry.reservedNames :=
  h.mem_reserved.mpr ⟨_, h.holder_entry hp⟩

theorem reserved_of_idle (h : Owned s) (ht : ∀ i, (s.calls i).pc.token = none) :
    s.registry.reservedNames = (s.registry.processes.map ProxyInfo.key).toFinset := by
  ext k
  rw [h.mem_reserved, List.mem_toFinset, List.mem_map]
  constructor
  · rintro ⟨id | i, ho⟩
    · obtain ⟨p, hp, rfl⟩ := Option.map_eq_some_iff.mp ho
      exact ⟨p, (Registry.getProcessById_some hp).1, rfl⟩
    · rw [State.holder, ht i] at ho
      cases ho
  · rintro ⟨p, hp, rfl⟩
    exact ⟨_, h.holder_entry hp⟩

end Owned

structure OwnedStep (s : State) (a : Action) (s' : State) : Prop where
  released : ∀ k ∈ s.registry.reservedNames, k ∉ s'.registry.reservedNames →
    ∃ i, a.actor = some i ∧ ((s.calls i).pc = .startDrop k ∨ (s.calls i).pc.removal = some k) ∧
      (∀ j, (s.calls j).pc.token = some k → j = i) ∧ ∀ p ∈ s.registry.processes, p.key ≠ k
  removed : ∀ p ∈ s.registry.processes, p ∉ s'.registry.processes →
    ∃ i, a.actor = some i ∧ (s.calls i).pc.proxy = some p ∧
      (s'.calls i).pc.removal = some p.key
  reservation : ∀ i k, (s'.calls i).pc.reservation = some k →
    (s.calls i).pc.reservation = some k ∨
      a.actor = some i ∧ k ∉ s.registry.reservedNames ∧ k ∈ s'.registry.reservedNames
  removal : ∀ i k, (s'.calls i).pc.removal = some k →
    (s.calls i).pc.removal = some k ∨
      ∃ p ∈ s.registry.processes, a.actor = some i ∧ (s.calls i).pc.proxy = some p ∧ p.key = k ∧
        p ∉ s'.registry.processes

theorem freed_step {s : State} {a : Action} (h : enabled isUuid compileRegex s a) {k : ProcessKey}
    (hk : k ∈ s.registry.reservedNames) (hk' : k ∉ (next isUuid s a).registry.reservedNames) :
    ∃ i, a.actor = some i ∧ ((s.calls i).pc = .startDrop k ∨ (s.calls i).pc.removal = some k) := by
  have erased : ∀ k', k ∉ (s.registry.releaseName k').reservedNames → k = k' := by
    intro k' hn
    by_contra hne
    exact hn (Registry.mem_releaseName.mpr ⟨hne, hk⟩)
  cases a with
  | startDrop i k' => exact ⟨i, rfl, Or.inl (by rw [erased k' hk']; exact h)⟩
  | startRelease i r k' =>
    refine ⟨i, rfl, Or.inr ?_⟩
    rw [show (s.calls i).pc = _ from h, erased k' hk']
    rfl
  | stopRelease i c k' =>
    refine ⟨i, rfl, Or.inr ?_⟩
    rw [show (s.calls i).pc = _ from h, erased k' hk']
    rfl
  | startReserve i r =>
    refine absurd ?_ hk'
    change k ∈ (s.registry.tryReserveName r.key).2.reservedNames
    simp only [Registry.tryReserveName]
    split
    · exact hk
    · exact Registry.mem_reserveName.mpr (Or.inr hk)
  | _ => exact absurd hk hk'

theorem removed_step {s : State} {a : Action} (hs : Owned s)
    (h : enabled isUuid compileRegex s a) {p : ProxyInfo} (hp : p ∈ s.registry.processes)
    (hp' : p ∉ (next isUuid s a).registry.processes) :
    ∃ i, a.actor = some i ∧ (s.calls i).pc.proxy = some p ∧
      ((next isUuid s a).calls i).pc.removal = some p.key := by
  have dropped : ∀ i e, (s.calls i).Mentions e → p ∉ (s.registry.dropProcess e.id).processes →
      p = e := by
    intro i e he hn
    refine (hs.resolved.calls i e he).unique p hp ?_
    by_contra hne
    exact hn (Registry.mem_dropProcess.mpr ⟨hp, hne⟩)
  cases a with
  | startRemove i r e =>
    have he : (s.calls i).pc.proxy = some e := by rw [show (s.calls i).pc = _ from h]; rfl
    obtain rfl := dropped i e (Or.inl he) hp'
    exact ⟨i, rfl, he, by rw [next, State.goto_pc_self, hs.lookup hp]; rfl⟩
  | stopRemove i c =>
    have he : (s.calls i).pc.proxy = some c.proxy := by rw [show (s.calls i).pc = _ from h]; rfl
    obtain rfl := dropped i c.proxy (Or.inl he) hp'
    exact ⟨i, rfl, he, by rw [next, State.goto_pc_self, hs.lookup hp]; rfl⟩
  | startAdd i r pid g id =>
    refine absurd (Registry.mem_addProcess.mpr (Or.inr ⟨hp, fun hid => ?_⟩)) hp'
    obtain ⟨g', G, hg, -⟩ := (hs.resolved.entries p hp).group
    rw [hid, ProxyInfo.new_id, h.2] at hg
    cases hg
  | startReserve i r =>
    refine absurd ?_ hp'
    change p ∈ (s.registry.tryReserveName r.key).2.processes
    simp only [Registry.tryReserveName]
    split <;> exact hp
  | _ => exact absurd hp hp'

theorem reservation_step {s : State} {a : Action} (h : enabled isUuid compileRegex s a) {i : Nat}
    {k : ProcessKey} (hk : ((next isUuid s a).calls i).pc.reservation = some k) :
    (s.calls i).pc.reservation = some k ∨
      a.actor = some i ∧ k ∉ s.registry.reservedNames ∧
        k ∈ (next isUuid s a).registry.reservedNames := by
  by_cases hi : a.actor = some i
  swap
  · rw [calls_frame isUuid s a hi] at hk
    exact Or.inl hk
  have hl := landing isUuid compileRegex h hi
  generalize ((next isUuid s a).calls i).pc = pc at hk hl
  cases hl with
  | calm hc =>
    rw [(token_of_plain (Pc.plain_of_calm hc)).1] at hk
    cases hk
  | launch ha hr =>
    subst ha
    cases hk
    refine Or.inr ⟨rfl, hr, ?_⟩
    simp [next, Registry.tryReserveName, hr, State.setRegistry, Registry.mem_reserveName]
  | reject ha =>
    subst ha
    left
    rw [show (s.calls i).pc = _ from h]
    exact hk
  | spawn ha =>
    subst ha
    left
    rw [show (s.calls i).pc = _ from h.1]
    exact hk
  | _ => cases hk

theorem removal_step {s : State} {a : Action} (hs : Owned s)
    (h : enabled isUuid compileRegex s a) {i : Nat} {k : ProcessKey}
    (hk : ((next isUuid s a).calls i).pc.removal = some k) :
    (s.calls i).pc.removal = some k ∨
      ∃ p ∈ s.registry.processes, a.actor = some i ∧ (s.calls i).pc.proxy = some p ∧ p.key = k ∧
        p ∉ (next isUuid s a).registry.processes := by
  by_cases hi : a.actor = some i
  swap
  · rw [calls_frame isUuid s a hi] at hk
    exact Or.inl hk
  have found : ∀ e p, (s.calls i).pc.proxy = some e → s.registry.getProcessById e.id = some p →
      p ∈ s.registry.processes ∧ e = p ∧ p ∉ (s.registry.dropProcess e.id).processes := by
    intro e p he hp
    obtain ⟨hmem, hid⟩ := Registry.getProcessById_some hp
    have heq := (hs.resolved.calls i e (Or.inl he)).unique p hmem hid
    exact ⟨hmem, heq.symm, fun hn => (Registry.mem_dropProcess.mp hn).2 hid⟩
  have hl := landing isUuid compileRegex h hi
  generalize ((next isUuid s a).calls i).pc = pc at hk hl
  cases hl with
  | calm hc =>
    rw [(token_of_plain (Pc.plain_of_calm hc)).2] at hk
    cases hk
  | startRemove ha hp =>
    subst ha
    have he : (s.calls i).pc.proxy = some _ := congrArg Pc.proxy h
    obtain ⟨hmem, rfl, hgone⟩ := found _ _ he hp
    exact Or.inr ⟨_, hmem, rfl, he, Option.some.inj hk, hgone⟩
  | stopRemove ha hp =>
    subst ha
    have he : (s.calls i).pc.proxy = some _ := congrArg Pc.proxy h
    obtain ⟨hmem, heq, hgone⟩ := found _ _ he hp
    exact Or.inr ⟨_, hmem, rfl, heq ▸ he, Option.some.inj hk, heq ▸ hgone⟩
  | _ => cases hk

theorem owned_step {s : State} {a : Action} (hs : Owned s) (h : enabled isUuid compileRegex s a) :
    OwnedStep s a (next isUuid s a) where
  released k hk hk' := by
    obtain ⟨i, hi, ht⟩ := freed_step isUuid compileRegex h hk hk'
    have hold : s.holder (.inr i) = some k := by
      rcases ht with ht | ht
      · rw [holder_call ht]
        rfl
      · rw [State.holder, token_of_removal ht]
    refine ⟨i, hi, ht, fun j hj => ?_, fun p hp e => ?_⟩
    · have hj' : s.holder (.inr j) = some k := hj
      exact Sum.inr.inj (hs.sole hj' hold)
    · cases hs.sole (hs.holder_entry hp) (e ▸ hold)
  removed _ hp hp' := removed_step isUuid compileRegex hs h hp hp'
  reservation _ _ hk := reservation_step isUuid compileRegex h hk
  removal _ _ hk := removal_step isUuid compileRegex hs h hk

theorem registry_names_owned {s : State} (h : (machine isUuid compileRegex).Reachable s) :
    (s.registry.processes.map ProxyInfo.key).Nodup ∧
      (∀ p ∈ s.registry.processes, p.key ∈ s.registry.reservedNames) ∧
      (∀ a, enabled isUuid compileRegex s a → OwnedStep s a (next isUuid s a)) ∧
      ((∀ i, (s.calls i).pc.token = none) →
        s.registry.reservedNames = (s.registry.processes.map ProxyInfo.key).toFinset) := by
  have hs := reachable_owned isUuid compileRegex h
  exact ⟨hs.keys_nodup, fun _ hp => hs.entry_reserved hp,
    fun _ ha => owned_step isUuid compileRegex hs ha, hs.reserved_of_idle⟩

theorem registry_names_owned_web :
    let s := (machine (fun _ => false) (fun _ => .ok ())).exec .initial (startRun 0 webRequest 7 "a")
    s.registry.processes ≠ [] ∧ (s.registry.processes.map ProxyInfo.key).Nodup ∧
      s.registry.reservedNames = (s.registry.processes.map ProxyInfo.key).toFinset := by
  intro s
  have h : (machine (fun _ => false) (fun _ => .ok ())).Reachable s :=
    ⟨startRun 0 webRequest 7 "a", by decide, rfl⟩
  obtain ⟨hk, -, -, hr⟩ := registry_names_owned _ _ h
  refine ⟨by decide, hk, hr fun i => ?_⟩
  by_cases hi : i = 0
  · subst hi
    decide
  · have hc : s.calls i = State.initial.calls i :=
      exec_calls_ge _ _ _ (n := 1) (by decide) (Nat.pos_of_ne_zero hi)
    rw [hc]
    rfl

end Manager
