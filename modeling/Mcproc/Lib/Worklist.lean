import Mcproc.Lib.Distinct
import Mathlib.Data.Fintype.Card
import Mathlib.SetTheory.Cardinal.Finite
import Mathlib.Logic.Relation

namespace Worklist

variable {V : Type}

structure Found (V : Type) where
  list : List V
  nodup : list.Nodup

def Found.root (v : V) : Found V := ⟨[v], List.nodup_singleton v⟩

def Found.extend [DecidableEq V] (f : Found V) (vs : List V) : Found V :=
  ⟨Distinct.extend f.list vs, Distinct.nodup_extend f.nodup vs⟩

theorem length_le_card [Finite V] {xs : List V} (h : xs.Nodup) : xs.length ≤ Nat.card V := by
  have : Fintype V := Fintype.ofFinite V
  rw [Nat.card_eq_fintype_card]
  exact h.length_le_card

-- The list grows while it is read; the vertices not yet read are the measure.
def scan [DecidableEq V] [Finite V] (children : V → List V) (found : Found V) (next : Nat) :
    Found V :=
  if h : next < found.list.length then
    scan children (found.extend (children found.list[next])) (next + 1)
  else found
termination_by Nat.card V - next
decreasing_by
  exact Nat.sub_lt_sub_left (Nat.lt_of_lt_of_le h (length_le_card found.nodup))
    (Nat.lt_succ_self next)

def Edge (children : V → List V) (a b : V) : Prop := b ∈ children a

def Reaches (children : V → List V) : V → V → Prop := Relation.ReflTransGen (Edge children)

def Sound (children : V → List V) (v : V) (xs : List V) : Prop := ∀ x ∈ xs, Reaches children v x

def Expanded (children : V → List V) (xs : List V) (next : Nat) : Prop :=
  ∀ x ∈ xs.take next, ∀ y ∈ children x, y ∈ xs

variable {children : V → List V}

theorem Sound.root (v : V) : Sound children v (Found.root v).list := by
  intro x hx
  rw [List.mem_singleton.mp hx]
  exact Relation.ReflTransGen.refl

theorem Expanded.root (v : V) : Expanded children (Found.root v).list 0 := by
  intro x hx
  exact absurd hx List.not_mem_nil

theorem Expanded.closed {v x : V} {xs : List V} (h : Expanded children xs xs.length) (hv : v ∈ xs)
    (hx : Reaches children v x) : x ∈ xs := by
  induction hx with
  | refl => exact hv
  | @tail a b _ hab ih =>
    have ha : a ∈ xs.take xs.length := by
      rw [List.take_length]
      exact ih
    exact h a ha b hab

variable [DecidableEq V]

theorem Sound.extend {v : V} {found : Found V} (h : Sound children v found.list) {x : V}
    (hx : x ∈ found.list) : Sound children v (found.extend (children x)).list := by
  intro y hy
  rcases Distinct.mem_extend.mp hy with hold | hchild
  · exact h y hold
  · exact (h x hx).tail hchild

theorem Expanded.extend {found : Found V} {next : Nat} (h : Expanded children found.list next)
    (hn : next < found.list.length) :
    Expanded children (found.extend (children found.list[next])).list (next + 1) := by
  obtain ⟨new, hnew⟩ : found.list <+: (found.extend (children found.list[next])).list :=
    Distinct.prefix_extend found.list _
  intro x hx y hy
  rw [← hnew, List.take_append_of_le_length (Nat.succ_le_of_lt hn),
    List.take_succ_eq_append_getElem hn, List.mem_append, List.mem_singleton] at hx
  rcases hx with hread | rfl
  · exact Distinct.mem_extend.mpr (Or.inl (h x hread y hy))
  · exact Distinct.mem_extend.mpr (Or.inr hy)

variable [Finite V]

theorem scan_grows (found : Found V) (next : Nat) :
    found.list <+: (scan children found next).list := by
  induction found, next using scan.induct children with
  | case1 found next h ih =>
    rw [scan, dif_pos h]
    exact (Distinct.prefix_extend found.list _).trans ih
  | case2 found next h =>
    rw [scan, dif_neg h]

theorem scan_sound {v : V} {found : Found V} (next : Nat) (h : Sound children v found.list) :
    Sound children v (scan children found next).list := by
  induction found, next using scan.induct children with
  | case1 found next hn ih =>
    rw [scan, dif_pos hn]
    exact ih (h.extend (List.getElem_mem hn))
  | case2 found next hn =>
    rw [scan, dif_neg hn]
    exact h

theorem scan_expanded {found : Found V} {next : Nat} (h : Expanded children found.list next)
    (hle : next ≤ found.list.length) :
    Expanded children (scan children found next).list (scan children found next).list.length := by
  induction found, next using scan.induct children with
  | case1 found next hn ih =>
    rw [scan, dif_pos hn]
    refine ih (h.extend hn) (Nat.le_trans (Nat.succ_le_of_lt hn) ?_)
    exact (Distinct.prefix_extend found.list _).length_le
  | case2 found next hn =>
    rw [scan, dif_neg hn]
    rwa [Nat.le_antisymm hle (Nat.le_of_not_lt hn)] at h

theorem mem_scan_root {v x : V} :
    x ∈ (scan children (Found.root v) 0).list ↔ Reaches children v x := by
  have hv : v ∈ (scan children (Found.root v) 0).list :=
    (scan_grows (Found.root v) 0).subset (List.mem_singleton.mpr rfl)
  constructor
  · exact scan_sound 0 (Sound.root v) x
  · exact (scan_expanded (Expanded.root v) (Nat.zero_le _)).closed hv

theorem head_scan_root (v : V) : (scan children (Found.root v) 0).list.head? = some v := by
  obtain ⟨rest, hrest⟩ : (Found.root v).list <+: (scan children (Found.root v) 0).list :=
    scan_grows (Found.root v) 0
  rw [← hrest]
  rfl

end Worklist
