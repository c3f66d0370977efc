import Mathlib.Data.List.Basic

namespace Sequences

variable {A K : Type} (key : A → K) (index : A → Nat)

-- Several numbered sequences merged into one list, each still in its own order.
def InOrder (l : List A) : Prop := l.Pairwise fun a b => key a = key b → index a < index b

variable {key index}

theorem inOrder_of_each [DecidableEq K] {l : List A}
    (h : ∀ k, (l.filter (key · = k)).Pairwise (index · < index ·)) : InOrder key index l := by
  refine List.pairwise_iff_forall_sublist.mpr fun {a b} hab hk => ?_
  refine List.pairwise_iff_forall_sublist.mp (h (key b)) ?_
  have hfilter := hab.filter (key · = key b)
  simpa [hk] using hfilter

theorem InOrder.sublist {l m : List A} (h : InOrder key index m) (hl : l.Sublist m) :
    InOrder key index l :=
  List.Pairwise.sublist hl h

theorem InOrder.not_mem_right {l m : List A} (h : InOrder key index (l ++ m)) {a : A}
    (ha : a ∈ l) : a ∉ m :=
  fun hm => Nat.lt_irrefl _ ((List.pairwise_append.mp h).2.2 a ha a hm rfl)

theorem InOrder.idxOf_lt [DecidableEq A] {l : List A} (h : InOrder key index l) {a b : A}
    (ha : a ∈ l) (hk : key a = key b) (hi : index a < index b) : l.idxOf a < l.idxOf b := by
  have hla := List.idxOf_lt_length_of_mem ha
  by_cases hb : b ∈ l
  · have hlb := List.idxOf_lt_length_of_mem hb
    refine Nat.lt_of_not_le fun hle => ?_
    rcases Nat.lt_or_eq_of_le hle with hlt | heq
    · have hrel := List.pairwise_iff_getElem.mp h _ _ hlb hla hlt
      rw [List.getElem_idxOf, List.getElem_idxOf] at hrel
      exact Nat.lt_asymm hi (hrel hk.symm)
    · have hab : a = b := (List.idxOf_inj ha).mp heq.symm
      exact Nat.lt_irrefl _ (hab ▸ hi)
  · rwa [List.idxOf_eq_length hb]

theorem mem_of_prefix {p l : List A} (hl : l.Pairwise (index · < index ·)) (hp : p <+: l)
    {a b : A} (ha : a ∈ l) (hb : b ∈ p) (hi : index a < index b) : a ∈ p := by
  obtain ⟨rest, rfl⟩ := hp
  rcases List.mem_append.mp ha with ha | ha
  · exact ha
  · exact absurd ((List.pairwise_append.mp hl).2.2 b hb a ha) (Nat.lt_asymm hi)

theorem filter_flatMap_none {T : Type} [DecidableEq K] {f : T → List A} {tag : T → K}
    (hf : ∀ t, ∀ a ∈ f t, key a = tag t) {ts : List T} {k : K} (hk : k ∉ ts.map tag) :
    (ts.flatMap f).filter (key · = k) = [] := by
  refine List.filter_eq_nil_iff.mpr fun a ha hkey => hk ?_
  obtain ⟨t, ht, ha⟩ := List.mem_flatMap.mp ha
  rw [← of_decide_eq_true hkey, hf t a ha]
  exact List.mem_map_of_mem ht

theorem filter_flatMap {T : Type} [DecidableEq K] {f : T → List A} {tag : T → K}
    (hf : ∀ t, ∀ a ∈ f t, key a = tag t) {ts : List T} (hn : (ts.map tag).Nodup) {t : T}
    (ht : t ∈ ts) : (ts.flatMap f).filter (key · = tag t) = f t := by
  induction ts with
  | nil => cases ht
  | cons u ts ih =>
    obtain ⟨hu, hn⟩ := List.nodup_cons.mp hn
    rw [List.flatMap_cons, List.filter_append]
    rcases List.mem_cons.mp ht with rfl | ht
    · have hall : (f t).filter (key · = tag t) = f t :=
        List.filter_eq_self.mpr fun a ha => decide_eq_true (hf t a ha)
      rw [hall, filter_flatMap_none hf hu, List.append_nil]
    · have hnone : (f u).filter (key · = tag t) = [] := by
        refine List.filter_eq_nil_iff.mpr fun a ha hkey => hu ?_
        rw [← hf u a ha, of_decide_eq_true hkey]
        exact List.mem_map_of_mem ht
      rw [hnone, ih hn ht, List.nil_append]

end Sequences
