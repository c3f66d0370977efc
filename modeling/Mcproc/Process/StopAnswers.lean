import Mcproc.Api.ProcessHandlers
import Mcproc.Lib.Lines
import Mcproc.Lib.Utf8

namespace StopAnswers

open Manager (Signal)
open ProcessHandlers (survivedMessage)

inductive KillAnswer where
  | ok
  | esrch
  | error (e : String)
  deriving DecidableEq, Repr

inductive PsAnswer where
  | cannotRun
  | exited (success : Bool) (stdout : List UInt8)
  deriving DecidableEq, Repr

inductive SysCall where
  | signal (sig : Signal) (answer : KillAnswer)
  | null (answer : KillAnswer)
  | ps (answer : PsAnswer)
  deriving DecidableEq, Repr

-- Each loop has one answer for every turn that begins before its deadline.
structure Answers where
  sigterm : KillAnswer
  sigtermNull : KillAnswer
  polls : List KillAnswer
  sigkill : KillAnswer
  sigkillNull : KillAnswer
  confirms : List (KillAnswer × PsAnswer)
  deriving DecidableEq, Repr

structure Outcome where
  result : Except String Unit
  stored : List ProcessStatus
  calls : List SysCall
  deriving DecidableEq

def sendSignalToGroup : KillAnswer → Except String Unit
  | .ok | .esrch => .ok ()
  | .error e => .error ("Failed to send process group signal: " ++ e)

def isProcessGroupAlive : KillAnswer → Bool
  | .esrch => false
  | .ok | .error _ => true

def splitWhitespace (cs : List Char) : List (List Char) :=
  (cs.splitOnP Validation.isWhitespace).filter (· ≠ [])

def digitsValue (cs : List Char) : Nat := cs.foldl (fun n c => n * 10 + (c.toNat - '0'.toNat)) 0

def parseU32 (cs : List Char) : Option Nat :=
  let digits := if cs.head? = some '+' then cs.tail else cs
  if digits ≠ [] ∧ digits.all Char.isDigit ∧ digitsValue digits < 2 ^ 32 then
    some (digitsValue digits)
  else none

def listsLiveMember (pgid : Nat) (line : List Char) : Bool :=
  let fields := splitWhitespace line
  (fields[0]?.bind parseU32) = some pgid && (fields[1]?).any fun stat => stat.head? ≠ some 'Z'

def listed (pgid : Nat) (stdout : List UInt8) : Bool :=
  (Lines.lines '\n' (Utf8.fromUtf8Lossy stdout)).any (listsLiveMember pgid)

def groupHasLiveNonZombieMember (pgid : Nat) : PsAnswer → Bool
  | .cannotRun => true
  | .exited _ stdout => listed pgid stdout

-- Whether a failed signal turned out to have no group to reach.
def attempt (sig : Signal) (answer null : KillAnswer) : Bool × List SysCall :=
  match sendSignalToGroup answer with
  | .ok () => (false, [.signal sig answer])
  | .error _ => (!isProcessGroupAlive null, [.signal sig answer, .null null])

def waitForGracefulShutdown : List KillAnswer → Bool × List SysCall
  | [] => (false, [])
  | a :: rest =>
    if isProcessGroupAlive a then
      ((waitForGracefulShutdown rest).1, .null a :: (waitForGracefulShutdown rest).2)
    else (true, [.null a])

def confirmStoppedWithin (pgid : Nat) : List (KillAnswer × PsAnswer) → Bool × List SysCall
  | [] => (false, [])
  | (a, ps) :: rest =>
    if isProcessGroupAlive a then
      if groupHasLiveNonZombieMember pgid ps then
        ((confirmStoppedWithin pgid rest).1,
          .null a :: .ps ps :: (confirmStoppedWithin pgid rest).2)
      else (true, [.null a, .ps ps])
    else (true, [.null a])

def forceKill (p : ProxyInfo) (w : Answers) (calls : List SysCall) : Outcome :=
  let killed := attempt .sigkill w.sigkill w.sigkillNull
  let confirmed := confirmStoppedWithin p.pid w.confirms
  if confirmed.1 then ⟨.ok (), [.stopping, .stopped], calls ++ killed.2 ++ confirmed.2⟩
  else ⟨.error (survivedMessage p), [.stopping], calls ++ killed.2 ++ confirmed.2⟩

def stop (p : ProxyInfo) (force : Bool) (w : Answers) : Outcome :=
  if force then forceKill p w []
  else
    let terminated := attempt .sigterm w.sigterm w.sigtermNull
    if terminated.1 then ⟨.ok (), [.stopping, .stopped], terminated.2⟩
    else
      let waited := waitForGracefulShutdown w.polls
      if waited.1 then ⟨.ok (), [.stopping, .stopped], terminated.2 ++ waited.2⟩
      else forceKill p w (terminated.2 ++ waited.2)

def Seen (pgid : Nat) (calls : List SysCall) : Prop :=
  .null .esrch ∈ calls ∨ ∃ stdout, .ps (.exited true stdout) ∈ calls ∧ listed pgid stdout = false

def Observed (pgid : Nat) (o : Outcome) : Prop :=
  o.result = .ok () ∧ Seen pgid o.calls ∨ (∃ e, o.result = .error e) ∧ .stopped ∉ o.stored

def Refused (answer null : KillAnswer) : Prop := (∃ e, answer = .error e) ∧ null = .esrch

-- The turn that ends the confirmation is one whose ps failed and showed no live member.
def EndsUnchecked (pgid : Nat) (confirms : List (KillAnswer × PsAnswer)) : Prop :=
  ∃ before a stdout after, confirms = before ++ (a, .exited false stdout) :: after ∧
    a ≠ .esrch ∧ listed pgid stdout = false ∧
    ∀ b ∈ before, b.1 ≠ .esrch ∧ groupHasLiveNonZombieMember pgid b.2 = true

def Inspected (pgid : Nat) (force : Bool) (w : Answers) : Prop :=
  force = false ∧ (Refused w.sigterm w.sigtermNull ∨ .esrch ∈ w.polls) ∨
    Refused w.sigkill w.sigkillNull ∨ ¬ EndsUnchecked pgid w.confirms

theorem alive_iff {a : KillAnswer} : isProcessGroupAlive a = true ↔ a ≠ .esrch := by
  cases a <;> simp [isProcessGroupAlive]

theorem seen_append {pgid : Nat} {as bs : List SysCall} :
    Seen pgid (as ++ bs) ↔ Seen pgid as ∨ Seen pgid bs := by
  simp only [Seen, List.mem_append, or_and_right, exists_or]
  exact or_or_or_comm

theorem seen_signal {pgid : Nat} {sig : Signal} {a : KillAnswer} {cs : List SysCall} :
    Seen pgid (.signal sig a :: cs) ↔ Seen pgid cs := by
  simp [Seen]

theorem seen_null {pgid : Nat} {a : KillAnswer} {cs : List SysCall} :
    Seen pgid (.null a :: cs) ↔ a = .esrch ∨ Seen pgid cs := by
  simp only [Seen, List.mem_cons, SysCall.null.injEq, reduceCtorEq, false_or, eq_comm, or_assoc]

theorem seen_ps {pgid : Nat} {ps : PsAnswer} {cs : List SysCall} :
    Seen pgid (.ps ps :: cs) ↔
      (∃ stdout, ps = .exited true stdout ∧ listed pgid stdout = false) ∨ Seen pgid cs := by
  simp only [Seen, List.mem_cons, SysCall.ps.injEq, reduceCtorEq, false_or, or_and_right, exists_or,
    eq_comm (b := ps)]
  exact or_left_comm

theorem not_seen_nil {pgid : Nat} : ¬ Seen pgid [] := by
  simp [Seen]

theorem attempt_iff {sig : Signal} {answer null : KillAnswer} :
    (attempt sig answer null).1 = true ↔ Refused answer null := by
  cases answer <;> cases null <;> simp [attempt, sendSignalToGroup, isProcessGroupAlive, Refused]

theorem attempt_seen {pgid : Nat} {sig : Signal} {answer null : KillAnswer} :
    Seen pgid (attempt sig answer null).2 ↔ Refused answer null := by
  cases answer <;> simp [attempt, sendSignalToGroup, Refused, seen_signal, seen_null, not_seen_nil]

theorem wait_iff {polls : List KillAnswer} :
    (waitForGracefulShutdown polls).1 = true ↔ .esrch ∈ polls := by
  induction polls with
  | nil => simp [waitForGracefulShutdown]
  | cons a rest ih =>
    cases a <;> simp [waitForGracefulShutdown, isProcessGroupAlive, ih]

theorem wait_seen {pgid : Nat} {polls : List KillAnswer} :
    Seen pgid (waitForGracefulShutdown polls).2 ↔ .esrch ∈ polls := by
  induction polls with
  | nil => simp [waitForGracefulShutdown, not_seen_nil]
  | cons a rest ih =>
    cases a <;> simp [waitForGracefulShutdown, isProcessGroupAlive, seen_null, ih]

theorem endsUnchecked_cons {pgid : Nat} {a : KillAnswer} {ps : PsAnswer}
    {rest : List (KillAnswer × PsAnswer)} (ha : a ≠ .esrch) :
    EndsUnchecked pgid ((a, ps) :: rest) ↔
      (∃ stdout, ps = .exited false stdout ∧ listed pgid stdout = false) ∨
        groupHasLiveNonZombieMember pgid ps = true ∧ EndsUnchecked pgid rest := by
  constructor
  · rintro ⟨before, b, stdout, after, hsplit, hb, hl, hbefore⟩
    cases before with
    | nil =>
      cases hsplit
      exact Or.inl ⟨stdout, rfl, hl⟩
    | cons c before =>
      cases hsplit
      obtain ⟨hc, hrest⟩ := List.forall_mem_cons.mp hbefore
      exact Or.inr ⟨hc.2, before, b, stdout, after, rfl, hb, hl, hrest⟩
  · rintro (⟨stdout, rfl, hl⟩ | ⟨hlive, before, b, stdout, after, rfl, hb, hl, hbefore⟩)
    · exact ⟨[], a, stdout, rest, rfl, ha, hl, nofun⟩
    · exact ⟨(a, ps) :: before, b, stdout, after, rfl, hb, hl,
        List.forall_mem_cons.mpr ⟨⟨ha, hlive⟩, hbefore⟩⟩

theorem not_endsUnchecked_esrch {pgid : Nat} {ps : PsAnswer}
    {rest : List (KillAnswer × PsAnswer)} : ¬ EndsUnchecked pgid ((.esrch, ps) :: rest) := by
  rintro ⟨before, b, stdout, after, hsplit, hb, -, hbefore⟩
  cases before with
  | nil =>
    cases hsplit
    exact hb rfl
  | cons c before =>
    cases hsplit
    exact (hbefore _ List.mem_cons_self).1 rfl

theorem confirm_spec (pgid : Nat) (confirms : List (KillAnswer × PsAnswer)) :
    (EndsUnchecked pgid confirms → (confirmStoppedWithin pgid confirms).1 = true) ∧
      ((confirmStoppedWithin pgid confirms).1 = true →
        (Seen pgid (confirmStoppedWithin pgid confirms).2 ↔ ¬ EndsUnchecked pgid confirms)) := by
  induction confirms with
  | nil =>
    refine ⟨?_, fun h => by cases h⟩
    rintro ⟨before, b, stdout, after, hsplit, -⟩
    simp at hsplit
  | cons c rest ih =>
    obtain ⟨a, ps⟩ := c
    by_cases ha : a = .esrch
    · subst ha
      simp [confirmStoppedWithin, isProcessGroupAlive, not_endsUnchecked_esrch, seen_null]
    · rw [endsUnchecked_cons ha]
      simp only [confirmStoppedWithin, alive_iff.mpr ha, if_true]
      cases hlive : groupHasLiveNonZombieMember pgid ps with
      | true =>
        have hnone (success : Bool) :
            ¬ ∃ stdout, ps = .exited success stdout ∧ listed pgid stdout = false := by
          rintro ⟨stdout, rfl, hl⟩
          cases hlive.symm.trans hl
        simpa [seen_null, seen_ps, ha, hnone] using ih
      | false =>
        cases ps with
        | cannotRun => cases hlive
        | exited success stdout =>
          have hl : listed pgid stdout = false := hlive
          cases success <;> simp [seen_null, seen_ps, ha, hl, not_seen_nil]

theorem forceKill_observed (p : ProxyInfo) (w : Answers) (calls : List SysCall) :
    Observed p.pid (forceKill p w calls) ↔
      Seen p.pid calls ∨ Refused w.sigkill w.sigkillNull ∨ ¬ EndsUnchecked p.pid w.confirms := by
  obtain ⟨hends, hseen⟩ := confirm_spec p.pid w.confirms
  simp only [forceKill]
  split
  · next hok => simp [Observed, seen_append, attempt_seen, hseen hok]
  · next hfailed =>
    have hchecked : ¬ EndsUnchecked p.pid w.confirms := fun h => hfailed (hends h)
    simp [Observed, hchecked]

theorem stop_observed_iff (p : ProxyInfo) (force : Bool) (w : Answers) :
    Observed p.pid (stop p force w) ↔ Inspected p.pid force w := by
  cases force with
  | true => simp [stop, forceKill_observed, Inspected, not_seen_nil]
  | false =>
    simp only [stop, Bool.false_eq_true, if_false, Inspected, true_and]
    by_cases ht : Refused w.sigterm w.sigtermNull
    · simp [attempt_iff.mpr ht, Observed, attempt_seen, ht]
    · by_cases hw : .esrch ∈ w.polls
      · simp [attempt_iff, wait_iff, ht, hw, Observed, seen_append, wait_seen]
      · simp [attempt_iff, wait_iff, ht, hw, forceKill_observed, seen_append, attempt_seen,
          wait_seen]

def failedPs : Answers where
  sigterm := .ok
  sigtermNull := .ok
  polls := []
  sigkill := .ok
  sigkillNull := .ok
  confirms := [(.ok, .exited false [])]

theorem failed_ps_reported_stopped :
    ¬ ∀ (p : ProxyInfo) (force : Bool) (w : Answers), Observed p.pid (stop p force w) := by
  intro hall
  have hstop : stop ⟨"a", "web", "app", none, [], none, none, none, none, none, 7⟩ true failedPs =
      ⟨.ok (), [.stopping, .stopped], [.signal .sigkill .ok, .null .ok, .ps (.exited false [])]⟩ := by
    decide
  have hobserved := hall ⟨"a", "web", "app", none, [], none, none, none, none, none, 7⟩ true failedPs
  rw [hstop] at hobserved
  simp [Observed, Seen] at hobserved

end StopAnswers
