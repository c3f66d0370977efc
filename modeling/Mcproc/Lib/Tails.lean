import Mathlib.Data.List.DropRight

namespace Tails

variable {A : Type}

theorem length_rtake (xs : List A) (n : Nat) : (xs.rtake n).length = min n xs.length := by
  rw [List.rtake, List.length_drop]
  omega

theorem rtake_map {B : Type} (f : A → B) (xs : List A) (n : Nat) :
    (xs.map f).rtake n = (xs.rtake n).map f := by
  rw [List.rtake, List.rtake, List.length_map, List.map_drop]

theorem rtake_append_right {xs ys : List A} {n : Nat} (h : n ≤ ys.length) :
    (xs ++ ys).rtake n = ys.rtake n := by
  have hlen : (xs ++ ys).length - n = xs.length + (ys.length - n) := by
    rw [List.length_append]
    omega
  rw [List.rtake, List.rtake, hlen, List.drop_append, List.drop_eq_nil_of_le (by omega),
    List.nil_append, Nat.add_sub_cancel_left]

theorem rtake_of_length_le {xs : List A} {n : Nat} (h : xs.length ≤ n) : xs.rtake n = xs := by
  rw [List.rtake, Nat.sub_eq_zero_of_le h, List.drop_zero]

theorem rtake_filter {p : A → Bool} {xs : List A} {n : Nat} (h : ∀ x ∈ xs.rtake n, p x = true) :
    (xs.filter p).rtake n = xs.rtake n := by
  have hsplit : xs.filter p = (xs.take (xs.length - n)).filter p ++ xs.rtake n := by
    conv_lhs => rw [← List.take_append_drop (xs.length - n) xs, List.filter_append]
    rw [← List.rtake, List.filter_eq_self.mpr h]
  by_cases hn : n ≤ xs.length
  · have hlen : (xs.rtake n).length = n := by
      rw [length_rtake, Nat.min_eq_left hn]
    rw [hsplit, rtake_append_right (Nat.le_of_eq hlen.symm),
      rtake_of_length_le (Nat.le_of_eq hlen)]
  · have hle : xs.length ≤ n := Nat.le_of_not_le hn
    rw [rtake_of_length_le hle] at h ⊢
    rw [List.filter_eq_self.mpr h, rtake_of_length_le hle]

theorem drop_zipIdx {xs : List A} {k : Nat} (h : k ≤ xs.length) :
    xs.zipIdx.drop k = (xs.drop k).zipIdx k := by
  have hlen : (xs.take k).zipIdx.length = k := by
    rw [List.length_zipIdx, List.length_take, Nat.min_eq_left h]
  have happend : (xs.take k ++ xs.drop k).zipIdx =
      (xs.take k).zipIdx ++ (xs.drop k).zipIdx (0 + (xs.take k).length) := List.zipIdx_append
  rw [List.take_append_drop, Nat.zero_add, List.length_take, Nat.min_eq_left h] at happend
  rw [happend, List.drop_left' hlen]

end Tails
