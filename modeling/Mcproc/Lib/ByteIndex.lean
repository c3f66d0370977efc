import Mathlib.Algebra.Ring.Nat
import Mathlib.Data.List.Basic

namespace ByteIndex

def byteLength (cs : List Char) : Nat := (cs.map Char.utf8Size).sum

def rfind (p : Char → Bool) : List Char → Option Nat
  | [] => none
  | c :: cs =>
    match rfind p cs with
    | some pos => some (c.utf8Size + pos)
    | none => if p c then some 0 else none

-- No value at a position inside a character or past the end.
def splitAt : List Char → Nat → Option (List Char × List Char)
  | cs, 0 => some ([], cs)
  | [], _ + 1 => none
  | c :: cs, n + 1 =>
    if c.utf8Size ≤ n + 1 then
      (splitAt cs (n + 1 - c.utf8Size)).map fun q => (c :: q.1, q.2)
    else none

theorem byteLength_cons (c : Char) (cs : List Char) :
    byteLength (c :: cs) = c.utf8Size + byteLength cs := by
  rw [byteLength, List.map_cons, List.sum_cons, byteLength]

theorem splitAt_add (c : Char) (cs : List Char) (n : Nat) :
    splitAt (c :: cs) (c.utf8Size + n) = (splitAt cs n).map fun q => (c :: q.1, q.2) := by
  obtain ⟨k, hk⟩ := Nat.exists_eq_add_of_lt c.utf8Size_pos
  have hsucc : c.utf8Size + n = (k + n) + 1 := by omega
  rw [hsucc, splitAt, if_pos (by omega)]
  congr 2
  omega

theorem splitAt_byteLength (a b : List Char) : splitAt (a ++ b) (byteLength a) = some (a, b) := by
  induction a with
  | nil => cases b <;> rfl
  | cons c a ih => rw [byteLength_cons, List.cons_append, splitAt_add, ih, Option.map_some]

theorem rfind_eq_none {p : Char → Bool} {cs : List Char} (h : rfind p cs = none) :
    ∀ c ∈ cs, p c = false := by
  induction cs with
  | nil => exact fun c hc => absurd hc List.not_mem_nil
  | cons d cs ih =>
    simp only [rfind] at h
    split at h
    · cases h
    · next hnone =>
      split at h
      · cases h
      · next hd =>
        intro c hc
        rcases List.mem_cons.mp hc with rfl | hc
        · exact eq_false_of_ne_true hd
        · exact ih hnone c hc

theorem rfind_eq_some {p : Char → Bool} {cs : List Char} {pos : Nat} (h : rfind p cs = some pos) :
    ∃ a c b, cs = a ++ c :: b ∧ pos = byteLength a ∧ p c = true ∧ ∀ x ∈ b, p x = false := by
  induction cs generalizing pos with
  | nil => cases h
  | cons d cs ih =>
    simp only [rfind] at h
    split at h
    · next q hq =>
      obtain ⟨a, c, b, rfl, rfl, hc, hb⟩ := ih hq
      exact ⟨d :: a, c, b, rfl, by rw [← Option.some.inj h, byteLength_cons], hc, hb⟩
    · next hnone =>
      obtain ⟨hd, hpos⟩ := Option.ite_none_right_eq_some.mp h
      exact ⟨[], d, cs, rfl, (Option.some.inj hpos).symm, hd, rfind_eq_none hnone⟩

theorem splitAt_rfind {p : Char → Bool} {cs : List Char} {pos : Nat} (h : rfind p cs = some pos) :
    ∃ a c b, cs = a ++ c :: b ∧ splitAt cs pos = some (a, c :: b) ∧ p c = true := by
  obtain ⟨a, c, b, rfl, rfl, hc, -⟩ := rfind_eq_some h
  exact ⟨a, c, b, rfl, splitAt_byteLength a (c :: b), hc⟩

theorem rfind_append_last {p : Char → Bool} {c : Char} (hc : p c = true) (a : List Char) :
    rfind p (a ++ [c]) = some (byteLength a) := by
  induction a with
  | nil => simp [rfind, hc, byteLength]
  | cons d a ih => rw [List.cons_append, rfind, ih, byteLength_cons]

end ByteIndex
