import Mathlib.Data.Set.Insert
import Mathlib.Logic.Function.Basic

structure Ledger (O K : Type) where
  holder : O → Option K
  taken : Set K
  sole : ∀ {o o' : O} {k : K}, holder o = some k → holder o' = some k → o = o'
  backed : ∀ k, k ∈ taken ↔ ∃ o, holder o = some k

namespace Ledger

variable {O K : Type}

def empty : Ledger O K where
  holder _ := none
  taken := ∅
  sole h := by cases h
  backed k := by simp

variable [DecidableEq O] (L : Ledger O K)

def acquire (o : O) (k : K) (ho : L.holder o = none) (hk : k ∉ L.taken) : Ledger O K where
  holder := Function.update L.holder o (some k)
  taken := insert k L.taken
  sole := by
    intro a b k' ha hb
    have hfree : ∀ c, L.holder c ≠ some k := fun c hc => hk ((L.backed k).mpr ⟨c, hc⟩)
    simp only [Function.update_apply] at ha hb
    split at ha <;> split at hb
    · next ea eb => rw [ea, eb]
    · cases ha; exact absurd hb (hfree b)
    · cases hb; exact absurd ha (hfree a)
    · exact L.sole ha hb
  backed := by
    intro k'
    rw [Set.mem_insert_iff, L.backed]
    constructor
    · rintro (rfl | ⟨c, hc⟩)
      · exact ⟨o, Function.update_self ..⟩
      · have hne : c ≠ o := fun e => by rw [e, ho] at hc; cases hc
        exact ⟨c, (Function.update_of_ne hne ..).trans hc⟩
    · rintro ⟨c, hc⟩
      rw [Function.update_apply] at hc
      split at hc
      · exact Or.inl (Option.some.inj hc).symm
      · exact Or.inr ⟨c, hc⟩

def pass (o o' : O) (hne : o ≠ o') (ho' : L.holder o' = none) : Ledger O K where
  holder := Function.update (Function.update L.holder o' (L.holder o)) o none
  taken := L.taken
  sole := by
    intro a b k ha hb
    simp only [Function.update_apply] at ha hb
    split at ha
    · cases ha
    · next hao =>
      split at hb
      · cases hb
      · next hbo =>
        split at ha <;> split at hb
        · next ea eb => rw [ea, eb]
        · exact absurd (L.sole hb ha) hbo
        · exact absurd (L.sole ha hb) hao
        · exact L.sole ha hb
  backed := by
    intro k
    rw [L.backed]
    constructor
    · rintro ⟨c, hc⟩
      by_cases hco : c = o
      · exact ⟨o', by rw [Function.update_of_ne hne.symm, Function.update_self, ← hco, hc]⟩
      · have hco' : c ≠ o' := fun e => by rw [e, ho'] at hc; cases hc
        exact ⟨c, by rw [Function.update_of_ne hco, Function.update_of_ne hco', hc]⟩
    · rintro ⟨c, hc⟩
      simp only [Function.update_apply] at hc
      split at hc
      · cases hc
      · split at hc
        · exact ⟨o, hc⟩
        · exact ⟨c, hc⟩

def release (o : O) (k : K) (ho : L.holder o = some k) : Ledger O K where
  holder := Function.update L.holder o none
  taken := L.taken \ {k}
  sole := by
    intro a b k' ha hb
    simp only [Function.update_apply] at ha hb
    split at ha
    · cases ha
    · split at hb
      · cases hb
      · exact L.sole ha hb
  backed := by
    intro k'
    rw [Set.mem_sdiff, L.backed, Set.mem_singleton_iff]
    constructor
    · rintro ⟨⟨c, hc⟩, hk⟩
      have hne : c ≠ o := fun e => hk (by rw [e, ho] at hc; exact (Option.some.inj hc).symm)
      exact ⟨c, (Function.update_of_ne hne ..).trans hc⟩
    · rintro ⟨c, hc⟩
      rw [Function.update_apply] at hc
      split at hc
      · cases hc
      · next hne => exact ⟨⟨c, hc⟩, fun e => hne (L.sole hc (e ▸ ho))⟩

inductive Move : Ledger O K → Ledger O K → Prop
  | keep (L : Ledger O K) : Move L L
  | acquire (L : Ledger O K) (o : O) (k : K) (ho : L.holder o = none) (hk : k ∉ L.taken) :
      Move L (L.acquire o k ho hk)
  | pass (L : Ledger O K) (o o' : O) (hne : o ≠ o') (ho' : L.holder o' = none) :
      Move L (L.pass o o' hne ho')
  | release (L : Ledger O K) (o : O) (k : K) (ho : L.holder o = some k) : Move L (L.release o k ho)

end Ledger
