import Mcproc.Daemon.PidLock

namespace PidLock

def DaemonPhase.inode : DaemonPhase → Option Nat
  | .opened i | .locked i | .truncated i | .running i | .stopping i | .unlinked i => some i
  | _ => none

theorem inode_of_locks {phase : DaemonPhase} {i : Nat} (h : phase.locks = some i) :
    phase.inode = some i := by
  cases phase <;> first
    | exact h
    | cases h

-- Its own unlink is done, its exit is not.
def DaemonPhase.detached : DaemonPhase → Bool
  | .unlinked _ => true
  | _ => false

def State.locksOf (s : State) (d : Nat) : Option Nat := (s.daemon d).phase.locks

def AtMostOne (s : State) : Prop :=
  ∀ d e i j, s.locksOf d = some i → s.locksOf e = some j → d = e

-- The lock table of the kernel and the program counters of the daemons tell the same story.
def Locks (s : State) : Prop := ∀ d i, s.locksOf d = some i ↔ s.owner i = some d

inductive LockEffect (s s' : State) : Prop where
  | keep (locks : ∀ d, s'.locksOf d = s.locksOf d) (owner : s'.owner = s.owner)
  | drop (d : Nat) (gone : s'.locksOf d = none) (others : ∀ e, e ≠ d → s'.locksOf e = s.locksOf e)
    (owner : ∀ i, s'.owner i = if s.owner i = some d then none else s.owner i)

section
variable {s : State} {d e : Nat}

@[simp] theorem setDaemon_locksOf (x : Daemon) : (s.setDaemon d x).locksOf d = x.phase.locks := by
  simp [State.locksOf, State.setDaemon]

theorem setDaemon_locksOf_other (x : Daemon) (h : e ≠ d) :
    (s.setDaemon d x).locksOf e = s.locksOf e := by
  simp [State.locksOf, State.setDaemon, h]

theorem setDaemon_keep {t : State} {x : Daemon} (hd : t.daemon = s.daemon)
    (ho : t.owner = s.owner) (h : x.phase.locks = s.locksOf d) :
    LockEffect s (t.setDaemon d x) := by
  refine .keep (fun e => ?_) ho
  by_cases he : e = d
  · rw [he, setDaemon_locksOf, h]
  · rw [setDaemon_locksOf_other x he, State.locksOf, hd]
    rfl

theorem locksOf_of_phase {phase : DaemonPhase} (h : s.phaseIs d phase) :
    s.locksOf d = phase.locks :=
  congrArg DaemonPhase.locks h

theorem locksOf_of_unused (h : s.unused d) : s.locksOf d = none := by
  simp only [State.unused] at h
  simp only [State.locksOf]
  cases hp : (s.daemon d).phase <;> simp_all [DaemonPhase.alive, DaemonPhase.locks]

theorem exit_drop : LockEffect s (s.exit d) :=
  .drop d (setDaemon_locksOf _) (fun _ he => setDaemon_locksOf_other _ he) fun _ => rfl

theorem kill_effect : LockEffect s (s.kill d) := by
  simp only [State.kill]
  split
  · exact exit_drop
  · exact .keep (fun _ => rfl) rfl

theorem terminate_effect : LockEffect s (s.terminate d) := by
  simp only [State.terminate]
  split
  · exact setDaemon_keep rfl rfl rfl
  · exact exit_drop
  · exact exit_drop
  · exact exit_drop
  · exact exit_drop
  · exact .keep (fun _ => rfl) rfl
  · exact .keep (fun _ => rfl) rfl
  · exact .keep (fun _ => rfl) rfl
  · exact .keep (fun _ => rfl) rfl

theorem spawn_effect (h : s.unused d) : LockEffect s (s.spawnDaemon d) :=
  setDaemon_keep rfl rfl (locksOf_of_unused h).symm

theorem LockEffect.goto {s' : State} (h : LockEffect s s') (c : Nat) (phase : CliPhase) :
    LockEffect s (s'.goto c phase) := by
  cases h with
  | keep locks owner => exact .keep locks owner
  | drop d gone others owner => exact .drop d gone others owner

end

variable (maxStopChecks maxStartChecks : Nat)

theorem other_effect {s : State} {a : Action} (h : enabled s a) (ha : ∀ d i, a ≠ .lock d i) :
    LockEffect s (next maxStopChecks maxStartChecks s a) := by
  cases a with
  | lock d i => exact absurd rfl (ha d i)
  | launch d => exact spawn_effect h
  | «open» d =>
    have hnone : s.locksOf d = none := locksOf_of_phase h
    simp only [next, State.openPidFile]
    split <;> exact setDaemon_keep rfl rfl hnone.symm
  | lockFail d i => exact exit_drop
  | exit d i => exact exit_drop
  | die d => exact exit_drop
  | truncate d i => exact setDaemon_keep rfl rfl (locksOf_of_phase h).symm
  | writePid d i => exact setDaemon_keep rfl rfl (locksOf_of_phase h).symm
  | grpcRemove d => exact setDaemon_keep rfl rfl rfl
  | grpcBind d =>
    simp only [next]
    split <;> exact setDaemon_keep rfl rfl rfl
  | grpcFail d => exact setDaemon_keep rfl rfl rfl
  | interrupt d i => exact setDaemon_keep rfl rfl rfl
  | shutdown d i => exact setDaemon_keep rfl rfl (locksOf_of_phase h.1).symm
  | unlink d i => exact setDaemon_keep rfl rfl (locksOf_of_phase h).symm
  | sigterm c cmd pid => exact terminate_effect.goto c _
  | sigkill c cmd pid => exact kill_effect.goto c _
  | killChild c child => exact kill_effect.goto c _
  | spawn c d => exact (spawn_effect h.2).goto c _
  | clientSpawn c d => exact (spawn_effect h.2).goto c _
  | _ => exact .keep (fun _ => rfl) rfl

theorem effect_locks {s s' : State} (h : LockEffect s s') (hs : Locks s) : Locks s' := by
  intro e i
  cases h with
  | keep locks owner => rw [locks, owner, hs]
  | drop d gone others owner =>
    rw [owner]
    by_cases he : e = d
    · subst he
      rw [gone]
      split <;> simp_all
    · rw [others e he, hs]
      split
      · next hd => simp [hd, Ne.symm he]
      · exact Iff.rfl

theorem effect_atMostOne {s s' : State} (h : LockEffect s s') (hs : AtMostOne s) : AtMostOne s' := by
  have hold (e i : Nat) (he : s'.locksOf e = some i) : s.locksOf e = some i := by
    cases h with
    | keep locks owner => rwa [locks] at he
    | drop d gone others owner =>
      by_cases hd : e = d
      · cases (hd ▸ gone).symm.trans he
      · rwa [others e hd] at he
  exact fun d e i j hd he => hs d e i j (hold d i hd) (hold e j he)

theorem lock_locksOf (s : State) (d i : Nat) :
    (next maxStopChecks maxStartChecks s (.lock d i)).locksOf d = some i := setDaemon_locksOf _

theorem lock_locksOf_other (s : State) {d e : Nat} (i : Nat) (h : e ≠ d) :
    (next maxStopChecks maxStartChecks s (.lock d i)).locksOf e = s.locksOf e :=
  setDaemon_locksOf_other (s := s.acquire d i) _ h

theorem lock_locks {s : State} {d i : Nat} (hs : Locks s) (h : enabled s (.lock d i)) :
    Locks (next maxStopChecks maxStartChecks s (.lock d i)) := by
  intro e j
  have howner : (next maxStopChecks maxStartChecks s (.lock d i)).owner =
      Function.update s.owner i (some d) := rfl
  have hnone : s.locksOf d = none := locksOf_of_phase h.1
  rw [howner, Function.update_apply]
  by_cases he : e = d
  · subst he
    rw [lock_locksOf]
    split
    · next hj => simp [hj]
    · next hj =>
      rw [← hs, hnone]
      simp [Ne.symm hj]
  · rw [lock_locksOf_other _ _ s i he, hs]
    split
    · next hj => simp [hj, h.2, Ne.symm he]
    · exact Iff.rfl

theorem step_locks {s : State} {a : Action} (hs : Locks s) (h : enabled s a) :
    Locks (next maxStopChecks maxStartChecks s a) := by
  by_cases ha : ∃ d i, a = .lock d i
  · obtain ⟨d, i, rfl⟩ := ha
    exact lock_locks _ _ hs h
  · exact effect_locks (other_effect _ _ h fun d i e => ha ⟨d, i, e⟩) hs

theorem initial_locks : Locks .initial := fun _ _ => iff_of_false nofun nofun

-- Where a step leaves a daemon.
inductive Turn (s : State) (a : Action) (d : Nat) : DaemonPhase → Prop where
  | same : Turn s a d (s.daemon d).phase
  | fresh {phase : DaemonPhase} : phase.inode = none → Turn s a d phase
  | opened {i : Nat} : a = .open d → s.path = some i ∨ s.path = none ∧ i = s.nextInode →
      Turn s a d (.opened i)
  | locked {i : Nat} : a = .lock d i → s.phaseIs d (.opened i) → Turn s a d (.locked i)
  | truncated {i : Nat} : a = .truncate d i → Turn s a d (.truncated i)
  | running {i : Nat} : a = .writePid d i → Turn s a d (.running i)
  | stopping {i : Nat} : a = .shutdown d i → Turn s a d (.stopping i)
  | unlinked {i : Nat} : a = .unlink d i → Turn s a d (.unlinked i)

section
variable {s t : State} {a : Action} {d e : Nat} {x : Daemon}

theorem setDaemon_self : (s.setDaemon d x).daemon d = x := by
  simp [State.setDaemon]

theorem setDaemon_other (h : e ≠ d) : (s.setDaemon d x).daemon e = s.daemon e := by
  simp [State.setDaemon, h]

theorem setDaemon_turn (ht : t.daemon = s.daemon) (hx : Turn s a d x.phase) :
    Turn s a e ((t.setDaemon d x).daemon e).phase := by
  by_cases he : e = d
  · rw [he, setDaemon_self]
    exact hx
  · rw [setDaemon_other he, ht]
    exact .same

theorem exit_turn : Turn s a e ((s.exit d).daemon e).phase :=
  setDaemon_turn (x := ⟨.exited, .off, false⟩) rfl (.fresh rfl)

theorem spawn_turn : Turn s a e ((s.spawnDaemon d).daemon e).phase :=
  setDaemon_turn (x := ⟨.spawned, .off, false⟩) rfl (.fresh rfl)

theorem grpc_turn {grpc : GrpcPhase} (ht : t.daemon = s.daemon) :
    Turn s a e ((t.setGrpc d grpc).daemon e).phase :=
  setDaemon_turn (x := { t.daemon d with grpc := grpc }) ht (by rw [ht]; exact .same)

theorem kill_turn : Turn s a e ((s.kill d).daemon e).phase := by
  simp only [State.kill]
  split
  · exact exit_turn
  · exact .same

theorem terminate_turn : Turn s a e ((s.terminate d).daemon e).phase := by
  simp only [State.terminate]
  split
  · exact setDaemon_turn (x := { s.daemon d with term := true }) rfl .same
  · exact exit_turn
  · exact exit_turn
  · exact exit_turn
  · exact exit_turn
  all_goals exact .same

end

theorem turn {s : State} {a : Action} (h : enabled s a) (e : Nat) :
    Turn s a e ((next maxStopChecks maxStartChecks s a).daemon e).phase := by
  cases a with
  | launch d => exact spawn_turn
  | «open» d =>
    simp only [next, State.openPidFile]
    split
    · next i hi => exact setDaemon_turn rfl (.opened rfl (Or.inl hi))
    · next hp => exact setDaemon_turn rfl (.opened rfl (Or.inr ⟨hp, rfl⟩))
  | lock d i => exact setDaemon_turn rfl (.locked rfl h.1)
  | lockFail d i => exact exit_turn
  | truncate d i => exact setDaemon_turn rfl (.truncated rfl)
  | writePid d i => exact setDaemon_turn rfl (.running rfl)
  | grpcRemove d => exact grpc_turn rfl
  | grpcBind d =>
    simp only [next]
    split <;> exact grpc_turn rfl
  | grpcFail d => exact grpc_turn rfl
  | interrupt d i => exact setDaemon_turn rfl .same
  | shutdown d i => exact setDaemon_turn rfl (.stopping rfl)
  | unlink d i => exact setDaemon_turn rfl (.unlinked rfl)
  | exit d i => exact exit_turn
  | die d => exact exit_turn
  | sigterm c cmd pid => exact terminate_turn
  | sigkill c cmd pid => exact kill_turn
  | killChild c child => exact kill_turn
  | spawn c d => exact spawn_turn
  | clientSpawn c d => exact spawn_turn
  | _ => exact .same

theorem kill_keeps (s : State) (d : Nat) :
    (s.kill d).content = s.content ∧ (s.kill d).path = s.path ∧
      (s.kill d).nextInode = s.nextInode := by
  simp only [State.kill]
  split <;> exact ⟨rfl, rfl, rfl⟩

theorem terminate_keeps (s : State) (d : Nat) :
    (s.terminate d).content = s.content ∧ (s.terminate d).path = s.path ∧
      (s.terminate d).nextInode = s.nextInode := by
  simp only [State.terminate]
  split <;> exact ⟨rfl, rfl, rfl⟩

def Action.unlinks : Action → Bool
  | .unlink _ _ | .unlinkStale _ _ | .unlinkKilled _ _ => true
  | _ => false

inductive PathStep (s : State) (a : Action) (s' : State) : Prop where
  | keep (path : s'.path = s.path) (nextInode : s'.nextInode = s.nextInode)
  | unlinked (ha : a.unlinks = true) (path : s'.path = none) (nextInode : s'.nextInode = s.nextInode)
  | created {d : Nat} (ha : a = .open d) (before : s.path = none)
    (path : s'.path = some s.nextInode) (nextInode : s'.nextInode = s.nextInode + 1)

theorem path_step (s : State) (a : Action) :
    PathStep s a (next maxStopChecks maxStartChecks s a) := by
  cases a with
  | «open» d =>
    simp only [next, State.openPidFile]
    split
    · exact .keep rfl rfl
    · next hp => exact .created rfl hp rfl rfl
  | unlink d i => exact .unlinked rfl rfl rfl
  | unlinkStale c cmd => exact .unlinked rfl rfl rfl
  | unlinkKilled c cmd => exact .unlinked rfl rfl rfl
  | grpcBind d =>
    simp only [next]
    split <;> exact .keep rfl rfl
  | sigterm c cmd pid => exact .keep (terminate_keeps s pid).2.1 (terminate_keeps s pid).2.2
  | sigkill c cmd pid => exact .keep (kill_keeps s pid).2.1 (kill_keeps s pid).2.2
  | killChild c child => exact .keep (kill_keeps s child).2.1 (kill_keeps s child).2.2
  | _ => exact .keep rfl rfl

theorem inode_step {s : State} {a : Action} (h : enabled s a) (e : Nat) :
    ((next maxStopChecks maxStartChecks s a).daemon e).phase.inode = none ∨
      ((next maxStopChecks maxStartChecks s a).daemon e).phase.inode = (s.daemon e).phase.inode ∨
      a = .open e := by
  have ht := turn maxStopChecks maxStartChecks h e
  generalize ((next maxStopChecks maxStartChecks s a).daemon e).phase = phase at ht
  cases ht with
  | same => exact Or.inr (Or.inl rfl)
  | fresh hn => exact Or.inl hn
  | opened ha => exact Or.inr (Or.inr ha)
  | locked ha hi => exact Or.inr (Or.inl (by rw [show (s.daemon e).phase = _ from hi]; rfl))
  | truncated ha | running ha | unlinked ha =>
    subst ha
    exact Or.inr (Or.inl (by rw [show (s.daemon e).phase = _ from h]; rfl))
  | stopping ha =>
    subst ha
    exact Or.inr (Or.inl (by rw [show (s.daemon e).phase = _ from h.1]; rfl))

theorem detached_step {s : State} {a : Action} (h : enabled s a) (e : Nat) :
    ((next maxStopChecks maxStartChecks s a).daemon e).phase.detached = (s.daemon e).phase.detached ∨
      ((next maxStopChecks maxStartChecks s a).daemon e).phase.inode = none ∨
      ∃ i, a = .unlink e i ∧
        ((next maxStopChecks maxStartChecks s a).daemon e).phase = .unlinked i := by
  have ht := turn maxStopChecks maxStartChecks h e
  generalize ((next maxStopChecks maxStartChecks s a).daemon e).phase = phase at ht
  cases ht with
  | same => exact Or.inl rfl
  | fresh hn => exact Or.inr (Or.inl hn)
  | locked ha hi => exact Or.inl (by rw [show (s.daemon e).phase = _ from hi]; rfl)
  | opened ha | truncated ha | running ha =>
    subst ha
    exact Or.inl (by rw [show (s.daemon e).phase = _ from h]; rfl)
  | stopping ha =>
    subst ha
    exact Or.inl (by rw [show (s.daemon e).phase = _ from h.1]; rfl)
  | unlinked ha => exact Or.inr (Or.inr ⟨_, ha, rfl⟩)

-- Who unlinks the PID file takes it from nobody else who has it open, and nobody opens one
-- between a daemon's own unlink and its exit.
def HeldUntilExit (s : State) : Action → Prop
  | .unlink d _ => ∀ e i, e ≠ d → s.path = some i → (s.daemon e).phase.inode ≠ some i
  | .unlinkStale _ _ | .unlinkKilled _ _ =>
    ∀ e i, s.path = some i → (s.daemon e).phase.inode ≠ some i
  | .open _ => ∀ e i, ¬ s.phaseIs e (.unlinked i)
  | _ => True

structure Attached (s : State) : Prop where
  named : ∀ d i, (s.daemon d).phase.inode = some i →
    (s.daemon d).phase.detached = true ∨ s.path = some i
  alone : ∀ d e, (s.daemon d).phase.detached = true → e ≠ d → (s.daemon e).phase.inode = none

theorem detached_phase {phase : DaemonPhase} (h : phase.detached = true) :
    ∃ i, phase = .unlinked i := by
  cases phase with
  | unlinked i => exact ⟨i, rfl⟩
  | _ => cases h

theorem initial_attached : Attached .initial where
  named _ _ h := by cases h
  alone _ _ h := by cases h

theorem named_of_held {s : State} {a : Action} (hc : HeldUntilExit s a) {d i : Nat}
    (hd : (s.daemon d).phase.inode = some i) (hi : s.path = some i) :
    (next maxStopChecks maxStartChecks s a).path = some i ∨ ∃ j, a = .unlink d j := by
  cases path_step maxStopChecks maxStartChecks s a with
  | keep path => exact Or.inl (path.trans hi)
  | created ha before => cases before.symm.trans hi
  | unlinked ha =>
    cases a with
    | unlink e j =>
      by_cases he : d = e
      · exact Or.inr ⟨j, by rw [he]⟩
      · exact absurd hd (hc d i he hi)
    | unlinkStale c cmd => exact absurd hd (hc d i hi)
    | unlinkKilled c cmd => exact absurd hd (hc d i hi)
    | _ => cases ha

theorem open_path {s : State} {d : Nat} :
    (((next maxStopChecks maxStartChecks s (.open d)).daemon d).phase.inode) =
      (next maxStopChecks maxStartChecks s (.open d)).path := by
  simp only [next, State.openPidFile]
  split
  · next i hi =>
    simp only [State.setPhase, setDaemon_self]
    exact hi.symm
  · simp only [State.setPhase, setDaemon_self]
    rfl

theorem attached_step {s : State} {a : Action} (hs : Attached s) (h : enabled s a)
    (hc : HeldUntilExit s a) : Attached (next maxStopChecks maxStartChecks s a) where
  named d i hi := by
    rcases inode_step maxStopChecks maxStartChecks h d with hnone | hsame | rfl
    · cases hnone.symm.trans hi
    · rw [hsame] at hi
      rcases detached_step maxStopChecks maxStartChecks h d with hd | hnone | ⟨j, -, hj⟩
      · rcases hs.named d i hi with hdet | hpath
        · exact Or.inl (hd.trans hdet)
        · rcases named_of_held maxStopChecks maxStartChecks hc hi hpath with hpath' | ⟨j, rfl⟩
          · exact Or.inr hpath'
          · exact Or.inl (by rw [next, State.setPhase, setDaemon_self]; rfl)
      · cases hnone.symm.trans (hsame.trans hi)
      · exact Or.inl (by rw [hj]; rfl)
    · rw [open_path] at hi
      exact Or.inr hi
  alone d e hd he := by
    have before (h' : (s.daemon e).phase.inode = none) (hopen : ∀ c, a ≠ .open c) :
        ((next maxStopChecks maxStartChecks s a).daemon e).phase.inode = none := by
      rcases inode_step maxStopChecks maxStartChecks h e with hnone | hsame | ha
      · exact hnone
      · exact hsame.trans h'
      · exact absurd ha (hopen e)
    rcases detached_step maxStopChecks maxStartChecks h d with hsame | hnone | ⟨i, rfl, -⟩
    · have hd' := hsame.symm.trans hd
      obtain ⟨i, hi⟩ := detached_phase hd'
      refine before (hs.alone d e hd' he) fun c ha => ?_
      subst ha
      exact hc d i hi
    · obtain ⟨i, hi⟩ := detached_phase hd
      rw [hi] at hnone
      cases hnone
    · refine before ?_ fun c => by simp
      have hphase : (s.daemon d).phase = .stopping i := h
      cases hopen : (s.daemon e).phase.inode with
      | none => rfl
      | some j =>
        rcases hs.named e j hopen with hdet | hpath
        · have hnone := hs.alone e d hdet (Ne.symm he)
          rw [hphase] at hnone
          cases hnone
        · exact absurd hopen (hc e j he hpath)

theorem lock_alone {s : State} {d i : Nat} (hl : Locks s) (hs : Attached s)
    (h : enabled s (.lock d i)) {e : Nat} (he : e ≠ d) : s.locksOf e = none := by
  have hphase : (s.daemon d).phase = .opened i := h.1
  have hd : (s.daemon d).phase.inode = some i := by rw [hphase]; rfl
  have hpath : s.path = some i := by
    refine (hs.named d i hd).resolve_left fun hdet => ?_
    rw [hphase] at hdet
    cases hdet
  cases hlock : s.locksOf e with
  | none => rfl
  | some j =>
    rcases hs.named e j (inode_of_locks hlock) with hdet | hj
    · cases (hs.alone e d hdet (Ne.symm he)).symm.trans hd
    · obtain rfl : i = j := Option.some.inj (hpath.symm.trans hj)
      cases h.2.symm.trans ((hl e i).mp hlock)

theorem step_atMostOne {s : State} {a : Action} (hl : Locks s) (hs : Attached s)
    (hp : AtMostOne s) (h : enabled s a) : AtMostOne (next maxStopChecks maxStartChecks s a) := by
  by_cases ha : ∃ d i, a = .lock d i
  · obtain ⟨d, i, rfl⟩ := ha
    have honly (e j : Nat)
        (he : (next maxStopChecks maxStartChecks s (.lock d i)).locksOf e = some j) : e = d := by
      by_contra hne
      rw [lock_locksOf_other _ _ s i hne, lock_alone hl hs h hne] at he
      cases he
    intro e₁ e₂ j₁ j₂ h₁ h₂
    rw [honly e₁ j₁ h₁, honly e₂ j₂ h₂]
  · exact effect_atMostOne (other_effect _ _ h fun d i e => ha ⟨d, i, e⟩) hp

structure Single (s : State) : Prop where
  locks : Locks s
  attached : Attached s
  atMostOne : AtMostOne s

theorem initial_single : Single .initial where
  locks := initial_locks
  attached := initial_attached
  atMostOne _ _ _ _ h := by cases h

theorem at_most_one_daemon {as : List Action}
    (hl : (machine maxStopChecks maxStartChecks).Legal .initial as)
    (hc : (machine maxStopChecks maxStartChecks).Throughout HeldUntilExit .initial as) :
    (machine maxStopChecks maxStartChecks).Always AtMostOne .initial as := by
  have hall := (machine maxStopChecks maxStartChecks).always_of_step (J := Single)
    (fun _ _ hs h hc => ⟨step_locks _ _ hs.locks h, attached_step _ _ hs.attached h hc,
      step_atMostOne _ _ hs.locks hs.attached hs.atMostOne h⟩) initial_single hl hc
  exact (machine maxStopChecks maxStartChecks).always_mono (fun _ hs => hs.atMostOne) hall

theorem exec_inode {as : List Action} {s : State} {e : Nat}
    (hl : (machine maxStopChecks maxStartChecks).Legal s as) (hopen : .open e ∉ as)
    (he : (s.daemon e).phase.inode = none) :
    (((machine maxStopChecks maxStartChecks).exec s as).daemon e).phase.inode = none := by
  induction as generalizing s with
  | nil => exact he
  | cons a as ih =>
    obtain ⟨hne, hrest⟩ := not_or.mp (mt List.mem_cons.mpr hopen)
    refine ih hl.2 hrest ?_
    rcases inode_step maxStopChecks maxStartChecks hl.1 e with hnone | hsame | ha
    · exact hnone
    · exact hsame.trans he
    · exact absurd ha.symm hne

def bootRun : List Action :=
  [.begin 0 .start, .checkSocket 0 .start .first, .checkPid 0 .start .first false,
   .removeSocket 0 .start, .spawn 0 1, .open 1, .lock 1 0, .truncate 1 0, .writePid 1 0,
   .grpcRemove 1, .grpcBind 1, .pollStart 0 1 19]

def stopRun : List Action :=
  [.begin 1 .stop, .checkSocket 1 .stop .first, .checkPid 1 .stop .first true,
   .readTarget 1 .stop, .identify 1 .stop 1 true, .sigterm 1 .stop 1, .shutdown 1 0, .unlink 1 0]

def rebootRun : List Action :=
  [.exit 1 0, .begin 2 .start, .checkSocket 2 .start .first, .checkPid 2 .start .first false,
   .removeSocket 2 .start, .spawn 2 2, .open 2, .lock 2 1, .truncate 2 1, .writePid 2 1]

theorem at_most_one_daemon_reboot :
    let m := machine 300 20
    let last := m.exec .initial (bootRun ++ stopRun ++ rebootRun)
    m.Always AtMostOne .initial (bootRun ++ stopRun ++ rebootRun) ∧
      (m.exec .initial (bootRun ++ stopRun)).locksOf 1 = some 0 ∧
      (m.exec .initial (bootRun ++ stopRun)).path = none ∧
      last.locksOf 1 = none ∧ last.locksOf 2 = some 1 ∧ last.path = some 1 := by
  refine ⟨at_most_one_daemon 300 20 (by decide) ?_, by decide⟩
  set run := bootRun ++ stopRun ++ rebootRun with hrun
  have hopens : ∀ d, .open d ∈ run → d = 1 ∨ d = 2 := by
    simp [hrun, bootRun, stopRun, rebootRun]
  have without (n : Nat) {e : Nat} (h1 : e ≠ 1) (h2 : e ≠ 2) :
      (((machine 300 20).exec .initial (run.take n)).daemon e).phase.inode = none := by
    have hl : (machine 300 20).Legal .initial (run.take n ++ run.drop n) := by
      rw [List.take_append_drop]
      decide
    exact exec_inode 300 20 ((machine 300 20).throughout_append.mp hl).1
      (fun h => (hopens e (List.mem_of_mem_take h)).elim h1 h2) rfl
  have nobody (n : Nat)
      (h1 : (((machine 300 20).exec .initial (run.take n)).daemon 1).phase.detached = false)
      (h2 : (((machine 300 20).exec .initial (run.take n)).daemon 2).phase.detached = false)
      (e i : Nat) : ¬ ((machine 300 20).exec .initial (run.take n)).phaseIs e (.unlinked i) := by
    intro (he : _ = _)
    by_cases e1 : e = 1
    · rw [← e1, he] at h1
      cases h1
    · by_cases e2 : e = 2
      · rw [← e2, he] at h2
        cases h2
      · have hnone := without n e1 e2
        rw [he] at hnone
        cases hnone
  refine ⟨trivial, trivial, trivial, trivial, trivial, nobody 5 (by decide) (by decide),
    trivial, trivial, trivial, trivial, trivial, trivial, trivial, trivial, trivial, trivial,
    trivial, trivial, trivial, fun e i he _ hi => ?_, trivial, trivial, trivial, trivial, trivial,
    trivial, nobody 26 (by decide) (by decide), trivial, trivial, trivial, trivial⟩
  by_cases e2 : e = 2
  · rw [e2] at hi
    cases hi
  · cases (without 19 he e2).symm.trans hi

def statusRun : List Action :=
  [.begin 2 .status, .checkSocket 2 .status .first, .checkPid 2 .status .first true,
   .clientRead 2, .clientSpawn 2 2, .open 2, .lock 2 1]

theorem two_daemons_after_status :
    ¬ ∀ (maxStopChecks maxStartChecks : Nat) (as : List Action),
      (machine maxStopChecks maxStartChecks).Legal .initial as →
      (machine maxStopChecks maxStartChecks).Always AtMostOne .initial as := by
  intro hall
  have hlast := (machine 300 20).always_last
    (hall 300 20 (bootRun ++ stopRun ++ statusRun) (by decide))
  exact absurd (hlast 1 2 0 1 (by decide) (by decide)) (by decide)

end PidLock
