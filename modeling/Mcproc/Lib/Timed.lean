import Mathlib.Order.Bounds.Basic

namespace Timed

variable {A : Type}

-- The time a computation takes and its value; none never ends.
abbrev Future (A : Type) := Option (Nat × A)

def timeout (limit : Nat) : Future A → Nat × Option A
  | none => (limit, none)
  | some (time, a) => if time ≤ limit then (time, some a) else (limit, none)

theorem timeout_le (limit : Nat) (future : Future A) : (timeout limit future).1 ≤ limit := by
  cases future with
  | none => exact Nat.le_refl limit
  | some ta =>
    obtain ⟨time, a⟩ := ta
    simp only [timeout]
    split
    · next h => exact h
    · exact Nat.le_refl limit

theorem timeout_of_le {limit time : Nat} (h : time ≤ limit) (a : A) :
    timeout limit (some (time, a)) = (time, some a) := if_pos h

-- A loop that looks, ends once its limit has passed, and else sleeps; nothing is there after the
-- turns listed.
def poll (limit pause : Nat) : Nat → List Bool → Nat × Bool
  | elapsed, [] => (elapsed, true)
  | elapsed, present :: rest =>
    if present then
      if limit < elapsed then (elapsed, false) else poll limit pause (elapsed + pause) rest
    else (elapsed, true)

theorem poll_le {limit pause elapsed : Nat} (h : elapsed ≤ limit + pause) (seen : List Bool) :
    (poll limit pause elapsed seen).1 ≤ limit + pause := by
  induction seen generalizing elapsed with
  | nil => exact h
  | cons present rest ih =>
    simp only [poll]
    split
    · split
      · exact h
      · next hle => exact ih (Nat.add_le_add_right (Nat.le_of_not_lt hle) pause)
    · exact h

end Timed
