import Mathlib.Algebra.Ring.Nat
import Mcproc.Lib.Timed

namespace Deadlines

open Timed (Future poll timeout)

-- Times are in milliseconds.
structure Config where
  processStopTimeoutMs : UInt64
  delayMs : UInt64
  defaultWaitTimeoutSecs : UInt32

def saturatingAdd (a b : Nat) : Nat := min (a + b) (2 ^ 64 - 1)

-- The longest `Duration`, in whole milliseconds.
def durationMax : Nat := (2 ^ 64 - 1) * 1000 + 999

def durationAdd (a b : Nat) : Nat := min (a + b) durationMax

def startDeadline (waitTimeout : UInt32) : Nat := saturatingAdd waitTimeout.toNat 5 * 1000

def stopDeadline (processStopTimeoutMs : UInt64) : Nat :=
  saturatingAdd processStopTimeoutMs.toNat 15000

def restartDeadline (processStopTimeoutMs : UInt64) (waitTimeout : Option UInt32)
    (defaultWaitTimeoutSecs : UInt32) : Nat :=
  durationAdd
    (durationAdd processStopTimeoutMs.toNat
      ((waitTimeout.getD defaultWaitTimeoutSecs).toNat * 1000))
    20000

-- The limits of the two loops of `ProxyInfo::stop`; a forced stop has the second alone.
def stopStageLimits (processStopTimeoutMs : UInt64) (force : Bool) : List Nat :=
  if force then [10000] else [processStopTimeoutMs.toNat, 10000]

section
variable (c : Config)

def stopTimeout : Nat := c.processStopTimeoutMs.toNat + 5000

-- `first` and `second` are the two calls of `ProxyInfo::stop`.
def stopProcess (name : String) (force : Bool) (first second : Future (Except String Unit)) :
    Nat × Except String Unit :=
  match timeout (stopTimeout c) first with
  | (t, some (.ok ())) => (t + 200, .ok ())
  | (t, some (.error e)) => (t, .error e)
  | (t, none) =>
    if force then (t, .error ("Timed out stopping process " ++ name))
    else
      match timeout 5000 second with
      | (u, some (.ok ())) => (t + u + 200, .ok ())
      | (u, some (.error e)) => (t + u, .error e)
      | (u, none) => (t + u, .error ("Timed out force killing process " ++ name))

def stopLimits (force : Bool) : List Nat :=
  if force then [stopTimeout c, 200] else [stopTimeout c, 5000, 200]

-- `seen` is what the registry still shows at each turn.
def waitForProcessRemoval (seen : List Bool) : Nat :=
  match poll c.processStopTimeoutMs.toNat 100 0 seen with
  | (t, true) => t + 200 + c.delayMs.toNat
  | (t, false) => t + c.delayMs.toNat

def removalLimits : List Nat := [c.processStopTimeoutMs.toNat, 200, c.delayMs.toNat]

def waitDuration (waitTimeout : Option UInt32) : Nat :=
  ((waitTimeout.getD c.defaultWaitTimeoutSecs).toNat + 10) * 1000

def waitForStart (waitForLog : Bool) (waitTimeout : Option UInt32) (rx : Future Unit) : Nat :=
  if waitForLog then (timeout (waitDuration c waitTimeout) rx).1 else 500

def effectiveTimeout (override saved : Option UInt32) : Option UInt32 := override.or saved

def restartLimits (override saved : Option UInt32) : List Nat :=
  stopLimits c false ++ removalLimits c ++ [waitDuration c (effectiveTimeout override saved)]

structure Restart where
  first : Future (Except String Unit)
  second : Future (Except String Unit)
  seen : List Bool
  waitForLog : Bool
  rx : Future Unit

def restartProcess (name : String) (override saved : Option UInt32) (r : Restart) : Nat :=
  match stopProcess c name false r.first r.second with
  | (t, .error _) => t
  | (t, .ok ()) =>
    t + waitForProcessRemoval c r.seen +
      waitForStart c r.waitForLog (effectiveTimeout override saved) r.rx

theorem sum_stopLimits (force : Bool) :
    (stopLimits c force).sum = stopTimeout c + (if force then 0 else 5000) + 200 := by
  cases force <;> rfl

theorem stopProcess_le (name : String) (force : Bool)
    (first second : Future (Except String Unit)) :
    (stopProcess c name force first second).1 ≤ (stopLimits c force).sum := by
  rw [sum_stopLimits]
  have hfirst := Timed.timeout_le (stopTimeout c) first
  have hsecond := Timed.timeout_le 5000 second
  simp only [stopProcess]
  split
  · next t h =>
    rw [h] at hfirst
    dsimp only at hfirst ⊢
    omega
  · next t e h =>
    rw [h] at hfirst
    dsimp only at hfirst ⊢
    omega
  · next t h =>
    rw [h] at hfirst
    cases force with
    | true =>
      rw [if_pos rfl, if_pos rfl]
      dsimp only at hfirst ⊢
      omega
    | false =>
      rw [if_neg Bool.false_ne_true, if_neg Bool.false_ne_true]
      dsimp only at hfirst
      generalize timeout 5000 second = forced at hsecond
      obtain ⟨u, answer⟩ := forced
      dsimp only at hsecond
      cases answer with
      | none => dsimp only; omega
      | some result => cases result <;> dsimp only <;> omega

-- The last moment of every limit, and then an answer.
theorem stopProcess_latest (name : String) (force : Bool) :
    ∃ first second : Future (Except String Unit),
      (stopProcess c name force first second).1 = (stopLimits c force).sum := by
  rw [sum_stopLimits]
  cases force with
  | true =>
    refine ⟨some (stopTimeout c, .ok ()), none, ?_⟩
    simp only [stopProcess, Timed.timeout_of_le (Nat.le_refl _)]
    rfl
  | false =>
    refine ⟨none, some (5000, .ok ()), ?_⟩
    simp only [stopProcess, timeout]
    rfl

def stopTimes (name : String) (force : Bool) : Set Nat :=
  {t | ∃ first second, (stopProcess c name force first second).1 = t}

theorem stopTimes_greatest (name : String) (force : Bool) :
    IsGreatest (stopTimes c name force) (stopLimits c force).sum := by
  refine ⟨stopProcess_latest c name force, ?_⟩
  rintro t ⟨first, second, rfl⟩
  exact stopProcess_le c name force first second

theorem waitForProcessRemoval_le (seen : List Bool) :
    waitForProcessRemoval c seen ≤ (removalLimits c).sum + 100 := by
  have hpoll : (poll c.processStopTimeoutMs.toNat 100 0 seen).1 ≤
      c.processStopTimeoutMs.toNat + 100 := Timed.poll_le (Nat.zero_le _) seen
  simp only [waitForProcessRemoval, removalLimits, List.sum_cons, List.sum_nil]
  split
  · next t h =>
    rw [h] at hpoll
    dsimp only at hpoll
    omega
  · next t h =>
    rw [h] at hpoll
    dsimp only at hpoll
    omega

theorem waitForStart_le (waitForLog : Bool) (waitTimeout : Option UInt32) (rx : Future Unit) :
    waitForStart c waitForLog waitTimeout rx ≤ waitDuration c waitTimeout := by
  have hbuffer : 500 ≤ waitDuration c waitTimeout := by
    simp only [waitDuration]
    omega
  cases waitForLog with
  | true => exact Timed.timeout_le _ rx
  | false => exact hbuffer

theorem sum_restartLimits (override saved : Option UInt32) :
    (restartLimits c override saved).sum = (stopLimits c false).sum + (removalLimits c).sum +
      waitDuration c (effectiveTimeout override saved) := by
  rw [restartLimits, List.sum_append, List.sum_append, List.sum_singleton]

theorem restartProcess_le (name : String) (override saved : Option UInt32) (r : Restart) :
    restartProcess c name override saved r ≤ (restartLimits c override saved).sum + 100 := by
  have hstop := stopProcess_le c name false r.first r.second
  have hremoval := waitForProcessRemoval_le c r.seen
  have hwait := waitForStart_le c r.waitForLog (effectiveTimeout override saved) r.rx
  rw [sum_restartLimits]
  simp only [restartProcess]
  generalize stopProcess c name false r.first r.second = stopped at hstop
  obtain ⟨t, result⟩ := stopped
  dsimp only at hstop
  cases result <;> dsimp only <;> omega

-- What the three deadlines are to cover, for one stop and one restart.
structure Nest (name : String) (force : Bool) (saved override : Option UInt32) : Prop where
  stop : ∀ t ∈ stopTimes c name force, t ≤ stopDeadline c.processStopTimeoutMs
  stages : (stopStageLimits c.processStopTimeoutMs force).sum ≤ stopTimeout c
  restart : (restartLimits c override saved).sum ≤
    restartDeadline c.processStopTimeoutMs override c.defaultWaitTimeoutSecs

theorem stopDeadline_covers (name : String) (force : Bool)
    (h : c.processStopTimeoutMs.toNat + 15000 < 2 ^ 64) :
    ∀ t ∈ stopTimes c name force, t ≤ stopDeadline c.processStopTimeoutMs := by
  intro t ht
  have hlimit : t ≤ stopTimeout c + (if force then 0 else 5000) + 200 :=
    sum_stopLimits c force ▸ (stopTimes_greatest c name force).2 ht
  have hforce : (if force then 0 else 5000) ≤ 5000 := by split <;> omega
  simp only [stopDeadline, saturatingAdd, stopTimeout] at hlimit ⊢
  omega

theorem stages_iff (force : Bool) :
    (stopStageLimits c.processStopTimeoutMs force).sum ≤ stopTimeout c ↔
      force = true ∧ 5000 ≤ c.processStopTimeoutMs.toNat := by
  cases force with
  | true =>
    simp only [stopStageLimits, stopTimeout, if_pos, List.sum_singleton, true_and]
    omega
  | false =>
    simp only [stopStageLimits, stopTimeout, Bool.false_eq_true, if_false, false_and, iff_false,
      List.sum_cons, List.sum_nil]
    omega

theorem restartDeadline_eq (override : Option UInt32) :
    restartDeadline c.processStopTimeoutMs override c.defaultWaitTimeoutSecs =
      c.processStopTimeoutMs.toNat + (override.getD c.defaultWaitTimeoutSecs).toNat * 1000 +
        20000 := by
  have hstop : c.processStopTimeoutMs.toNat < 2 ^ 64 := c.processStopTimeoutMs.toNat_lt
  have hwait : (override.getD c.defaultWaitTimeoutSecs).toNat < 2 ^ 32 := UInt32.toNat_lt _
  simp only [restartDeadline, durationAdd, durationMax]
  omega

-- Only a saved timeout below the default leaves room for the second wait of a restart.
def SavedBelowDefault (saved override : Option UInt32) : Prop :=
  ∃ s, override = none ∧ saved = some s ∧
    c.processStopTimeoutMs.toNat + c.delayMs.toNat + 400 + s.toNat * 1000 ≤
      c.defaultWaitTimeoutSecs.toNat * 1000

theorem restart_iff (saved override : Option UInt32) :
    (restartLimits c override saved).sum ≤
        restartDeadline c.processStopTimeoutMs override c.defaultWaitTimeoutSecs ↔
      SavedBelowDefault c saved override := by
  have hsum : (restartLimits c override saved).sum =
      c.processStopTimeoutMs.toNat + 10200 + (c.processStopTimeoutMs.toNat + 200 + c.delayMs.toNat) +
        (((effectiveTimeout override saved).getD c.defaultWaitTimeoutSecs).toNat + 10) * 1000 := by
    rw [sum_restartLimits, sum_stopLimits, if_neg Bool.false_ne_true]
    simp only [stopTimeout, removalLimits, waitDuration, List.sum_cons, List.sum_nil]
    omega
  rw [hsum, restartDeadline_eq]
  simp only [SavedBelowDefault]
  cases override with
  | some w =>
    simp only [effectiveTimeout, Option.some_or, Option.getD_some, reduceCtorEq, false_and,
      exists_false, iff_false]
    omega
  | none =>
    cases saved with
    | none =>
      simp only [effectiveTimeout, Option.none_or, Option.getD_none, reduceCtorEq, false_and,
        and_false, exists_false, iff_false]
      omega
    | some s =>
      simp only [effectiveTimeout, Option.none_or, Option.getD_some, Option.getD_none, true_and,
        Option.some.injEq, exists_eq_left']
      omega

theorem deadlines_nest_iff (name : String) (force : Bool) (saved override : Option UInt32)
    (h : c.processStopTimeoutMs.toNat + 15000 < 2 ^ 64) :
    Nest c name force saved override ↔
      (force = true ∧ 5000 ≤ c.processStopTimeoutMs.toNat) ∧ SavedBelowDefault c saved override :=
  ⟨fun n => ⟨(stages_iff c force).mp n.stages, (restart_iff c saved override).mp n.restart⟩,
    fun hs => ⟨stopDeadline_covers c name force h, (stages_iff c force).mpr hs.1,
      (restart_iff c saved override).mpr hs.2⟩⟩

theorem startDeadline_lt_wait (waitTimeout : UInt32) :
    startDeadline waitTimeout < waitDuration c (some waitTimeout) := by
  have hwait : waitTimeout.toNat < 2 ^ 32 := waitTimeout.toNat_lt
  simp only [startDeadline, saturatingAdd, waitDuration, Option.getD_some]
  omega

end

theorem deadlines_nest_forced :
    let c : Config := ⟨5000, 0, 60⟩
    c.processStopTimeoutMs.toNat + 15000 < 2 ^ 64 ∧ Nest c "web" true (some 10) none :=
  ⟨by decide, (deadlines_nest_iff ⟨5000, 0, 60⟩ "web" true (some 10) none (by decide)).mpr
    ⟨⟨rfl, by decide⟩, 10, rfl, rfl, by decide⟩⟩

-- The defaults: 40 s of stages in 35 s, and a restart of 111.4 s in 80 s.
def defaults : Config := ⟨30000, 1000, 30⟩

theorem defaults_do_not_nest :
    stopTimeout defaults < (stopStageLimits defaults.processStopTimeoutMs false).sum ∧
      restartDeadline defaults.processStopTimeoutMs none defaults.defaultWaitTimeoutSecs <
        (restartLimits defaults none none).sum ∧
      ¬ Nest defaults "web" false none none :=
  ⟨by decide, by decide, fun n => absurd n.stages (by decide)⟩

end Deadlines
