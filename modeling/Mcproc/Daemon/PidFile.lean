import Mcproc.Lib.Runs
import Mcproc.Daemon.SingleDaemon

namespace PidLock

-- The file a daemon has emptied or written, and what it has left there.
def DaemonPhase.file (d : Nat) : DaemonPhase → Option (Nat × Option Nat)
  | .truncated i => some (i, none)
  | .running i | .stopping i | .unlinked i => some (i, some d)
  | _ => none

structure Allocated (s : State) : Prop where
  path : ∀ i, s.path = some i → i < s.nextInode
  phases : ∀ d i, (s.daemon d).phase.inode = some i → i < s.nextInode

def Named (s : State) : Prop :=
  ∀ d i text, (s.daemon d).phase.file d = some (i, text) → s.content i = text

theorem locks_of_file {phase : DaemonPhase} {d i : Nat} {text : Option Nat}
    (h : phase.file d = some (i, text)) : phase.locks = some i := by
  cases phase <;> cases h <;> rfl

variable (maxStopChecks maxStartChecks : Nat)

theorem content_step (s : State) (a : Action) (i : Nat) :
    (next maxStopChecks maxStartChecks s a).content i = s.content i ∨
      (∃ d, a = .truncate d i ∧ (next maxStopChecks maxStartChecks s a).content i = none) ∨
      (∃ d, a = .writePid d i ∧ (next maxStopChecks maxStartChecks s a).content i = some d) ∨
      i = s.nextInode ∧ (next maxStopChecks maxStartChecks s a).content i = none := by
  cases a with
  | «open» d =>
    simp only [next, State.openPidFile]
    split
    · exact Or.inl rfl
    · by_cases hi : i = s.nextInode
      · exact Or.inr (Or.inr (Or.inr ⟨hi, by simp [hi, State.setPhase, State.setDaemon]⟩))
      · exact Or.inl (Function.update_of_ne hi _ _)
  | truncate d j =>
    by_cases hi : i = j
    · subst hi
      exact Or.inr (Or.inl ⟨d, rfl, Function.update_self ..⟩)
    · exact Or.inl (Function.update_of_ne hi _ _)
  | writePid d j =>
    by_cases hi : i = j
    · subst hi
      exact Or.inr (Or.inr (Or.inl ⟨d, rfl, Function.update_self ..⟩))
    · exact Or.inl (Function.update_of_ne hi _ _)
  | grpcBind d =>
    simp only [next]
    split <;> exact Or.inl rfl
  | sigterm c cmd pid => exact Or.inl (congrFun (terminate_keeps s pid).1 i)
  | sigkill c cmd pid => exact Or.inl (congrFun (kill_keeps s pid).1 i)
  | killChild c child => exact Or.inl (congrFun (kill_keeps s child).1 i)
  | _ => exact Or.inl rfl

theorem nextInode_step (s : State) (a : Action) :
    s.nextInode ≤ (next maxStopChecks maxStartChecks s a).nextInode ∧
      ∀ i, (next maxStopChecks maxStartChecks s a).path = some i →
        s.path = some i ∨ i < (next maxStopChecks maxStartChecks s a).nextInode := by
  cases path_step maxStopChecks maxStartChecks s a with
  | keep path nextInode => exact ⟨Nat.le_of_eq nextInode.symm, fun i hi => Or.inl (path ▸ hi)⟩
  | unlinked ha path nextInode =>
    exact ⟨Nat.le_of_eq nextInode.symm, fun i hi => by cases path.symm.trans hi⟩
  | created ha before path nextInode =>
    refine ⟨nextInode ▸ Nat.le_succ _, fun i hi => Or.inr ?_⟩
    obtain rfl := Option.some.inj (path.symm.trans hi)
    exact nextInode ▸ Nat.lt_succ_self _

theorem allocated_step {s : State} {a : Action} (hs : Allocated s) (h : enabled s a) :
    Allocated (next maxStopChecks maxStartChecks s a) := by
  obtain ⟨hle, hp⟩ := nextInode_step maxStopChecks maxStartChecks s a
  have path (i : Nat) (hi : (next maxStopChecks maxStartChecks s a).path = some i) :
      i < (next maxStopChecks maxStartChecks s a).nextInode := by
    rcases hp i hi with hold | hlt
    · exact Nat.lt_of_lt_of_le (hs.path i hold) hle
    · exact hlt
  refine ⟨path, fun d i hi => ?_⟩
  rcases inode_step maxStopChecks maxStartChecks h d with hnone | hsame | rfl
  · cases hnone.symm.trans hi
  · exact Nat.lt_of_lt_of_le (hs.phases d i (hsame ▸ hi)) hle
  · exact path i ((open_path maxStopChecks maxStartChecks).symm.trans hi)

-- Only the daemon that holds the lock empties or writes the file.
theorem named_step {s : State} {a : Action} (hl : Locks s) (ha : Allocated s) (hs : Named s)
    (h : enabled s a) : Named (next maxStopChecks maxStartChecks s a) := by
  intro d i text hfile
  have mine {e : Nat} (hd : (s.daemon d).phase.file d = some (i, text))
      (he : s.locksOf e = some i) : e = d := by
    have howner := (hl d i).mp (locks_of_file hd)
    exact Option.some.inj (((hl e i).mp he).symm.trans howner)
  have hold (hd : (s.daemon d).phase.file d = some (i, text)) :
      (next maxStopChecks maxStartChecks s a).content i = text := by
    rcases content_step maxStopChecks maxStartChecks s a i with
      hsame | ⟨e, rfl, -⟩ | ⟨e, rfl, -⟩ | ⟨rfl, -⟩
    · rw [hsame]
      exact hs d i text hd
    · obtain rfl := mine hd (locksOf_of_phase h)
      rw [show (s.daemon e).phase = _ from h] at hd
      cases hd
    · obtain rfl := mine hd (locksOf_of_phase h)
      rw [next, setDaemon_self] at hfile
      cases hfile
      exact Function.update_self ..
    · exact absurd (ha.phases d _ (inode_of_locks (locks_of_file hd))) (Nat.lt_irrefl _)
  have ht := turn maxStopChecks maxStartChecks h d
  generalize hphase : ((next maxStopChecks maxStartChecks s a).daemon d).phase = phase at ht hfile
  cases ht with
  | same => exact hold hfile
  | fresh hn => cases hn.symm.trans (inode_of_locks (locks_of_file hfile))
  | opened => cases hfile
  | locked => cases hfile
  | truncated ha =>
    cases hfile
    subst ha
    exact Function.update_self ..
  | running ha =>
    cases hfile
    subst ha
    exact Function.update_self ..
  | stopping ha =>
    cases hfile
    subst ha
    exact hold (by rw [show (s.daemon d).phase = _ from h.1]; rfl)
  | unlinked ha =>
    cases hfile
    subst ha
    exact hold (by rw [show (s.daemon d).phase = _ from h]; rfl)

theorem initial_allocated : Allocated .initial where
  path _ h := by cases h
  phases _ _ h := by cases h

theorem initial_named : Named .initial := fun _ _ _ h => by cases h

structure FileInv (s : State) : Prop where
  locks : Locks s
  allocated : Allocated s
  named : Named s

theorem reachable_fileInv {s : State}
    (h : (machine maxStopChecks maxStartChecks).Reachable s) : FileInv s :=
  (machine maxStopChecks maxStartChecks).reachable_induction
    ⟨initial_locks, initial_allocated, initial_named⟩
    (fun _ _ hs he => ⟨step_locks _ _ hs.locks he, allocated_step _ _ hs.allocated he,
      named_step _ _ hs.locks hs.allocated hs.named he⟩) h

theorem pid_file_names_owner {s : State}
    (h : (machine maxStopChecks maxStartChecks).Reachable s) {d i : Nat}
    (hd : s.owner i = some d) :
    s.phaseIs d (.locked i) ∨ s.phaseIs d (.truncated i) ∧ s.content i = none ∨
      s.content i = some d := by
  have hs := reachable_fileInv maxStopChecks maxStartChecks h
  have hl : (s.daemon d).phase.locks = some i := (hs.locks d i).mpr hd
  have hn := hs.named d i
  generalize hp : (s.daemon d).phase = phase at hl hn
  cases phase with
  | locked j =>
    cases hl
    exact Or.inl hp
  | truncated j =>
    cases hl
    exact Or.inr (Or.inl ⟨hp, hn none rfl⟩)
  | running j | stopping j | unlinked j =>
    cases hl
    exact Or.inr (Or.inr (hn _ rfl))
  | _ => cases hl

def booted : State := (machine 300 20).exec .initial bootRun

theorem pid_file_names_owner_boot :
    booted.phaseIs 1 (.locked 0) ∨ booted.phaseIs 1 (.truncated 0) ∧ booted.content 0 = none ∨
      booted.content 0 = some 1 :=
  pid_file_names_owner 300 20 ⟨bootRun, by decide, rfl⟩ (by decide)

def Check.names : Check → List Nat
  | .first => []
  | .stopped pid _ => [pid]

-- The pids a command has read from the PID file and still works with.
def CliPhase.names : CliPhase → List Nat
  | .checkSocket _ k | .checkPid _ k _ => k.names
  | .probe _ k pid => pid :: k.names
  | .identify _ pid | .sigterm _ pid | .sleep _ pid _ | .sigkill _ pid | .clientProbe pid => [pid]
  | _ => []

def CliPhase.child : CliPhase → Option Nat
  | .awaitStart child _ => some child
  | _ => none

theorem afterFirstCheck_names (running : Bool) (pid : Option Nat) (cmd : Subcommand) :
    (afterFirstCheck running pid cmd).names = [] ∧ (afterFirstCheck running pid cmd).child = none := by
  cases cmd <;> simp only [afterFirstCheck] <;> (repeat' split) <;> exact ⟨rfl, rfl⟩

theorem afterStop_names (cmd : Subcommand) :
    (afterStop cmd).names = [] ∧ (afterStop cmd).child = none := by
  cases cmd <;> exact ⟨rfl, rfl⟩

theorem afterCheck_names {cmd : Subcommand} {running : Bool} {pid : Option Nat} {k : Check} :
    (afterCheck cmd running pid k).names ⊆ k.names ∧
      (afterCheck cmd running pid k).child = none := by
  cases k with
  | first =>
    obtain ⟨hn, hc⟩ := afterFirstCheck_names running pid cmd
    exact ⟨by simp only [afterCheck, hn, List.nil_subset], hc⟩
  | stopped target left =>
    simp only [afterCheck]
    split
    · exact ⟨List.Subset.refl _, rfl⟩
    · obtain ⟨hn, hc⟩ := afterStop_names cmd
      exact ⟨by simp only [hn, List.nil_subset], hc⟩

theorem afterPid_names {cmd : Subcommand} {k : Check} {connected : Bool} {pid : Option Nat} :
    (afterPid cmd k connected pid).names ⊆ pid.toList ++ k.names ∧
      (afterPid cmd k connected pid).child = none := by
  have check {running : Bool} {found : Option Nat} :
      (afterCheck cmd running found k).names ⊆ pid.toList ++ k.names ∧
        (afterCheck cmd running found k).child = none :=
    ⟨List.Subset.trans afterCheck_names.1 (List.subset_append_right _ _), afterCheck_names.2⟩
  simp only [afterPid]
  repeat' split
  · exact check
  · exact ⟨List.Subset.refl _, rfl⟩
  · exact check

structure CliStep (s : State) (a : Action) (s' : State) : Prop where
  names : ∀ c, ∀ p ∈ (s'.cli c).names, p ∈ (s.cli c).names ∨ s.pidFile = some p
  child : ∀ c d, (s'.cli c).child = some d → (s.cli c).child = some d ∨ a = .spawn c d

section
variable {s t : State} {a : Action} {c : Nat} {phase phase' : CliPhase}

theorem cliStep_same (ht : t.cli = s.cli) : CliStep s a t where
  names _ _ hp := Or.inl (ht ▸ hp)
  child _ _ hd := Or.inl (ht ▸ hd)

theorem goto_cli (c' : Nat) : (t.goto c phase).cli c' = if c' = c then phase else t.cli c' :=
  Function.update_apply ..

theorem cliStep_goto (ht : t.cli = s.cli)
    (hn : ∀ p ∈ phase.names, p ∈ (s.cli c).names ∨ s.pidFile = some p)
    (hc : ∀ d, phase.child = some d → (s.cli c).child = some d ∨ a = .spawn c d) :
    CliStep s a (t.goto c phase) where
  names c' p hp := by
    rw [goto_cli, ht] at hp
    split at hp
    · next he =>
      rw [he]
      exact hn p hp
    · exact Or.inl hp
  child c' d hd := by
    rw [goto_cli, ht] at hd
    split at hd
    · next he =>
      rw [he]
      exact hc d hd
    · exact Or.inl hd

theorem cliStep_keep (ht : t.cli = s.cli) (hs : s.cliIs c phase)
    (hn : phase'.names ⊆ phase.names) (hc : phase'.child = none ∨ phase'.child = phase.child) :
    CliStep s a (t.goto c phase') := by
  refine cliStep_goto ht (fun p hp => ?_) fun d hd => ?_
  · rw [show s.cli c = _ from hs]
    exact Or.inl (hn hp)
  · rw [show s.cli c = _ from hs]
    rcases hc with hc | hc
    · cases hc.symm.trans hd
    · exact Or.inl (hc ▸ hd)

theorem kill_cli (s : State) (d : Nat) : (s.kill d).cli = s.cli := by
  simp only [State.kill]
  split <;> rfl

theorem terminate_cli (s : State) (d : Nat) : (s.terminate d).cli = s.cli := by
  simp only [State.terminate]
  split <;> rfl

theorem openPidFile_cli (s : State) (d : Nat) : (s.openPidFile d).cli = s.cli := by
  simp only [State.openPidFile]
  split <;> rfl

end

theorem cli_step {s : State} {a : Action} (h : enabled s a) :
    CliStep s a (next maxStopChecks maxStartChecks s a) := by
  cases a with
  | «open» d => exact cliStep_same (openPidFile_cli s d)
  | grpcBind d =>
    simp only [next]
    split <;> exact cliStep_same rfl
  | begin c cmd => exact cliStep_keep rfl h (List.nil_subset _) (Or.inl rfl)
  | checkSocket c cmd k => exact cliStep_keep rfl h (List.Subset.refl _) (Or.inl rfl)
  | checkPid c cmd k connected =>
    refine cliStep_goto rfl (fun p hp => ?_) fun d hd => ?_
    · rw [show s.cli c = _ from h]
      rcases List.mem_append.mp (afterPid_names.1 hp) with hp | hp
      · exact Or.inr (Option.mem_toList.mp hp)
      · exact Or.inl hp
    · cases afterPid_names.2.symm.trans hd
  | probe c cmd k pid answer =>
    exact cliStep_keep rfl h.1 (List.Subset.trans afterCheck_names.1 (List.subset_cons_self _ _))
      (Or.inl afterCheck_names.2)
  | unlinkStale c cmd => exact cliStep_keep rfl h (List.nil_subset _) (Or.inl rfl)
  | removeSocket c cmd =>
    refine cliStep_keep rfl h ?_ (Or.inl ?_) <;> cases cmd
    all_goals first
      | exact List.nil_subset _
      | rfl
  | readTarget c cmd =>
    refine cliStep_goto rfl (fun p hp => ?_) fun d hd => ?_
    · split at hp
      · next pid hpid =>
        obtain rfl := List.mem_singleton.mp hp
        exact Or.inr hpid
      · cases hp
    · split at hd <;> cases hd
  | identify c cmd pid answer =>
    refine cliStep_keep rfl h.1 ?_ (Or.inl ?_) <;> split
    · exact List.Subset.refl _
    · exact List.nil_subset _
    · rfl
    · rfl
  | sigterm c cmd pid =>
    exact cliStep_keep (terminate_cli s pid) h (List.Subset.refl _) (Or.inl rfl)
  | sleep c cmd pid left => exact cliStep_keep rfl h (List.Subset.refl _) (Or.inl rfl)
  | giveUp c cmd pid answer =>
    refine cliStep_keep rfl h.1 ?_ (Or.inl ?_) <;> split
    · exact List.Subset.refl _
    · exact List.nil_subset _
    · rfl
    · rfl
  | sigkill c cmd pid => exact cliStep_keep (kill_cli s pid) h (List.nil_subset _) (Or.inl rfl)
  | unlinkKilled c cmd =>
    exact cliStep_keep rfl h (by rw [(afterStop_names cmd).1]; exact List.nil_subset _)
      (Or.inl (afterStop_names cmd).2)
  | spawn c d =>
    refine cliStep_goto rfl (fun p hp => ?_) fun e he => ?_
    · cases hp
    · cases he
      exact Or.inr rfl
  | pollStart c child left =>
    refine cliStep_keep rfl h ?_ ?_ <;> split
    · exact List.nil_subset _
    · exact List.Subset.refl _
    · exact Or.inl rfl
    · exact Or.inr rfl
  | killChild c child => exact cliStep_keep (kill_cli s child) h (List.nil_subset _) (Or.inl rfl)
  | clientRead c =>
    refine cliStep_goto rfl (fun p hp => ?_) fun d hd => ?_
    · split at hp
      · next pid hpid =>
        obtain rfl := List.mem_singleton.mp hp
        exact Or.inr hpid
      · cases hp
    · split at hd <;> cases hd
  | clientProbe c pid answer =>
    refine cliStep_keep rfl h.1 ?_ (Or.inl ?_) <;> split
    · exact List.nil_subset _
    · exact List.nil_subset _
    · rfl
    · rfl
  | clientSpawn c d => exact cliStep_keep rfl h.1 (List.nil_subset _) (Or.inl rfl)
  | _ => exact cliStep_same rfl

-- Where the pids a command works with come from, in a run of these steps.
structure Traced (as : List Action) (s : State) : Prop where
  content : ∀ i p, s.content i = some p → ∃ j, .writePid p j ∈ as
  names : ∀ c, ∀ p ∈ (s.cli c).names, ∃ j, .writePid p j ∈ as
  child : ∀ c d, (s.cli c).child = some d → .spawn c d ∈ as

theorem initial_traced (as : List Action) : Traced as .initial where
  content _ _ h := by cases h
  names _ _ h := by cases h
  child _ _ h := by cases h

theorem traced_step {as : List Action} {s : State} {a : Action} (hs : Traced as s)
    (h : enabled s a) (ha : a ∈ as) : Traced as (next maxStopChecks maxStartChecks s a) where
  content i p hp := by
    rcases content_step maxStopChecks maxStartChecks s a i with
      hsame | ⟨d, -, hnone⟩ | ⟨d, rfl, hd⟩ | ⟨-, hnone⟩
    · exact hs.content i p (hsame ▸ hp)
    · cases hnone.symm.trans hp
    · obtain rfl := Option.some.inj (hd.symm.trans hp)
      exact ⟨i, ha⟩
    · cases hnone.symm.trans hp
  names c p hp := by
    rcases (cli_step maxStopChecks maxStartChecks h).names c p hp with hold | hfile
    · exact hs.names c p hold
    · obtain ⟨i, -, hi⟩ := Option.bind_eq_some_iff.mp hfile
      exact hs.content i p hi
  child c d hd := by
    rcases (cli_step maxStopChecks maxStartChecks h).child c d hd with hold | rfl
    · exact hs.child c d hold
    · exact ha

theorem traced_exec {as : List Action}
    (h : (machine maxStopChecks maxStartChecks).Legal .initial as) :
    Traced as ((machine maxStopChecks maxStartChecks).exec .initial as) :=
  (machine maxStopChecks maxStartChecks).always_last
    ((machine maxStopChecks maxStartChecks).always_of_step (C := fun _ a => a ∈ as)
      (fun _ _ hs he ha => traced_step maxStopChecks maxStartChecks hs he ha) (initial_traced as) h
      ((machine maxStopChecks maxStartChecks).throughout_of_forall fun _ ha _ => ha))

theorem commands_signal_daemons {as : List Action}
    (h : (machine maxStopChecks maxStartChecks).Legal .initial as) (c pid : Nat) :
    let s := (machine maxStopChecks maxStartChecks).exec .initial as
    (∀ cmd, enabled s (.sigterm c cmd pid) ∨ enabled s (.sigkill c cmd pid) →
      ∃ i, .writePid pid i ∈ as) ∧
    (enabled s (.killChild c pid) → .spawn c pid ∈ as) := by
  have hs := traced_exec maxStopChecks maxStartChecks h
  refine ⟨fun cmd he => ?_, fun he => hs.child c pid (congrArg CliPhase.child he)⟩
  rcases he with he | he
  · have hcli : _ = CliPhase.sigterm cmd pid := he
    exact hs.names c pid (hcli ▸ List.mem_singleton_self pid)
  · have hcli : _ = CliPhase.sigkill cmd pid := he
    exact hs.names c pid (hcli ▸ List.mem_singleton_self pid)

theorem commands_signal_daemons_boot : ∃ i, .writePid 1 i ∈ bootRun ++ stopRun.take 5 := by
  have hl : (machine 300 20).Legal .initial (bootRun ++ stopRun.take 5) := by decide
  exact (commands_signal_daemons 300 20 hl 1 1).1 .stop (Or.inl rfl)

end PidLock
