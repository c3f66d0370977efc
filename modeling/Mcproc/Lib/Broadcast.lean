import Mathlib.Data.List.Basic

namespace Broadcast

variable {A : Type}

-- A message, or word of how many have been missed.
inductive Received (A : Type) where
  | item (a : A)
  | lagged (missed : Nat)
  deriving DecidableEq, Repr

-- The last `slots` messages are kept; a receiver that is further behind jumps to the oldest of them.
def recv (slots : Nat) (sent : List A) (next : Nat) : Option (Received A × Nat) :=
  if next + slots < sent.length then
    some (.lagged (sent.length - slots - next), sent.length - slots)
  else sent[next]?.map fun a => (.item a, next + 1)

def items : List (Received A) → List A
  | [] => []
  | .item a :: got => a :: items got
  | .lagged _ :: got => items got

def missed : List (Received A) → Nat
  | [] => 0
  | .item _ :: got => missed got
  | .lagged n :: got => n + missed got

theorem items_append (got got' : List (Received A)) :
    items (got ++ got') = items got ++ items got' := by
  induction got with
  | nil => rfl
  | cons r got ih => cases r <;> simp [items, ih]

theorem missed_append (got got' : List (Received A)) :
    missed (got ++ got') = missed got + missed got' := by
  induction got with
  | nil => simp [missed]
  | cons r got ih => cases r <;> simp [missed, ih, Nat.add_assoc]

-- The receiver that subscribed at `start`, now at `next`, has heard `got`.
structure Follows (slots : Nat) (sent : List A) (start next : Nat) (got : List (Received A)) :
    Prop where
  begun : start ≤ next
  known : next ≤ sent.length
  heard : (items got).Sublist ((sent.take next).drop start)
  counted : (items got).length + missed got = next - start
  overtaken : missed got ≤ sent.length - start - slots

variable {slots : Nat} {sent : List A} {start next : Nat} {got : List (Received A)}

theorem follows_subscribe (slots : Nat) (sent : List A) :
    Follows slots sent sent.length sent.length [] where
  begun := Nat.le_refl _
  known := Nat.le_refl _
  heard := List.nil_sublist _
  counted := (Nat.sub_self _).symm
  overtaken := Nat.zero_le _

theorem Follows.publish (h : Follows slots sent start next got) (a : A) :
    Follows slots (sent ++ [a]) start next got where
  begun := h.begun
  known := by
    rw [List.length_append]
    exact Nat.le_add_right_of_le h.known
  heard := by
    rw [List.take_append_of_le_length h.known]
    exact h.heard
  counted := h.counted
  overtaken := by
    have hbefore := h.overtaken
    rw [List.length_append]
    omega

theorem drop_take_mono {n m : Nat} (h : n ≤ m) :
    ((sent.take n).drop start).Sublist ((sent.take m).drop start) := by
  have htake : sent.take n = (sent.take m).take n := by rw [List.take_take, Nat.min_eq_left h]
  rw [htake]
  exact (List.take_sublist _ _).drop start

theorem Follows.recv (h : Follows slots sent start next got) {r : Received A} {next' : Nat}
    (hr : recv slots sent next = some (r, next')) :
    Follows slots sent start next' (got ++ [r]) := by
  have hbegun := h.begun
  have hcounted := h.counted
  simp only [Broadcast.recv] at hr
  split at hr
  · next hbehind =>
    cases hr
    refine ⟨by omega, by omega, ?_, ?_, ?_⟩
    · rw [items_append, items, items, List.append_nil]
      exact h.heard.trans (drop_take_mono (by omega))
    · simp only [items_append, missed_append, items, missed, List.append_nil]
      omega
    · simp only [missed_append, missed]
      omega
  · obtain ⟨a, ha, heq⟩ := Option.map_eq_some_iff.mp hr
    cases heq
    obtain ⟨hlt, hget⟩ := List.getElem?_eq_some_iff.mp ha
    refine ⟨by omega, hlt, ?_, ?_, ?_⟩
    · rw [items_append, List.take_add_one, ha, List.drop_append_of_le_length (by
        rw [List.length_take]
        omega)]
      exact h.heard.append (List.Sublist.refl _)
    · simp only [items_append, missed_append, items, missed, List.length_append,
        List.length_singleton]
      omega
    · have hbefore := h.overtaken
      simp only [missed_append, missed]
      omega

theorem Follows.complete (h : Follows slots sent start next got)
    (hfew : sent.length ≤ start + slots) :
    items got = (sent.take next).drop start := by
  have hnone := h.overtaken
  have hcounted := h.counted
  have hknown := h.known
  refine h.heard.eq_of_length ?_
  rw [List.length_drop, List.length_take]
  omega

theorem recv_none (hknown : next ≤ sent.length) :
    recv slots sent next = none ↔ next = sent.length := by
  simp only [recv]
  split
  · next hbehind =>
    constructor
    · exact fun hnone => by cases hnone
    · omega
  · rw [Option.map_eq_none_iff, List.getElem?_eq_none_iff]
    omega

end Broadcast
