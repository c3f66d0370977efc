import Mathlib.Data.List.Nodup

namespace Distinct

variable {A : Type} [DecidableEq A]

def push (xs : List A) (y : A) : List A := if y ∈ xs then xs else xs ++ [y]

def extend (xs ys : List A) : List A := ys.foldl push xs

theorem mem_push {xs : List A} {x y : A} : x ∈ push xs y ↔ x ∈ xs ∨ x = y := by
  simp only [push]
  split
  · next h => exact ⟨Or.inl, fun hx => hx.elim id fun e => e ▸ h⟩
  · rw [List.mem_append, List.mem_singleton]

theorem nodup_push {xs : List A} (h : xs.Nodup) (y : A) : (push xs y).Nodup := by
  simp only [push]
  split
  · exact h
  · next hy =>
    refine List.nodup_append.mpr ⟨h, List.nodup_singleton y, fun a ha b hb e => hy ?_⟩
    rw [← List.mem_singleton.mp hb, ← e]
    exact ha

theorem prefix_push (xs : List A) (y : A) : xs <+: push xs y := by
  simp only [push]
  split
  · exact List.prefix_rfl
  · exact List.prefix_append xs [y]

theorem mem_extend {xs ys : List A} {x : A} : x ∈ extend xs ys ↔ x ∈ xs ∨ x ∈ ys := by
  induction ys generalizing xs with
  | nil => simp [extend]
  | cons y ys ih =>
    have hpush : x ∈ extend xs (y :: ys) ↔ x ∈ push xs y ∨ x ∈ ys := ih
    rw [hpush, mem_push, List.mem_cons, or_assoc]

theorem nodup_extend {xs : List A} (h : xs.Nodup) (ys : List A) : (extend xs ys).Nodup := by
  induction ys generalizing xs with
  | nil => exact h
  | cons y ys ih => exact ih (nodup_push h y)

theorem prefix_extend (xs ys : List A) : xs <+: extend xs ys := by
  induction ys generalizing xs with
  | nil => exact List.prefix_rfl
  | cons y ys ih => exact (prefix_push xs y).trans (ih (push xs y))

theorem extend_filter_ne {xs : List A} {y : A} (h : y ∈ xs) (ys : List A) :
    extend xs (ys.filter (· ≠ y)) = extend xs ys := by
  induction ys generalizing xs with
  | nil => rfl
  | cons z ys ih =>
    by_cases hz : z = y
    · subst hz
      have hpush : push xs z = xs := if_pos h
      rw [List.filter_cons_of_neg (by simp), ih h]
      change extend xs ys = extend (push xs z) ys
      rw [hpush]
    · rw [List.filter_cons_of_pos (by simpa using hz)]
      exact ih (mem_push.mpr (Or.inl h))

theorem extend_eraseDups (p : A → Bool) {n : Nat} {xs ys : List A} (hn : ys.length ≤ n) :
    extend xs (ys.eraseDups.filter p) = extend xs (ys.filter p) := by
  induction n generalizing xs ys with
  | zero => rw [List.eq_nil_of_length_eq_zero (Nat.le_zero.mp hn)]; rfl
  | succ n ih =>
    cases ys with
    | nil => rfl
    | cons y ys =>
      have hlen : (ys.filter fun b => !b == y).length ≤ n :=
        Nat.le_trans (List.length_filter_le _ ys) (Nat.le_of_succ_le_succ hn)
      have hne : (ys.filter fun b => !b == y).filter p = (ys.filter p).filter (· ≠ y) := by
        rw [List.filter_filter, List.filter_filter]
        refine List.filter_congr fun b _ => ?_
        rw [Bool.and_comm, decide_not, Bool.beq_eq_decide_eq]
      rw [List.eraseDups_cons]
      by_cases hp : p y = true
      · rw [List.filter_cons_of_pos hp, List.filter_cons_of_pos hp]
        change extend (push xs y) _ = extend (push xs y) _
        rw [ih hlen, hne, extend_filter_ne (mem_push.mpr (Or.inr rfl))]
      · rw [List.filter_cons_of_neg hp, List.filter_cons_of_neg hp, ih hlen, hne]
        refine congrArg (extend xs) (List.filter_eq_self.mpr fun b hb => decide_eq_true ?_)
        rintro rfl
        exact hp (List.mem_filter.mp hb).2

end Distinct
