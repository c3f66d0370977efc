import Mathlib.Data.List.Basic

namespace Words

variable {A : Type} (p : A → Bool)

def words [DecidableEq A] (s : List A) : List (List A) := (s.splitOnP p).filter (· ≠ [])

-- Words with blanks between them, at least one before each but the first.
def spaced (blank : A) (first : List A) (rest : List (Nat × List A)) : List A :=
  first ++ rest.flatMap fun w => List.replicate (w.1 + 1) blank ++ w.2

def IsWord (w : List A) : Prop := w ≠ [] ∧ ∀ c ∈ w, p c = false

theorem not_mem_spaced {blank sep : A} (hs : sep ≠ blank) {first : List A} (hf : sep ∉ first)
    {rest : List (Nat × List A)} (hr : ∀ w ∈ rest, sep ∉ w.2) : sep ∉ spaced blank first rest := by
  intro hmem
  rcases List.mem_append.mp hmem with hmem | hmem
  · exact hf hmem
  · obtain ⟨w, hw, hmem⟩ := List.mem_flatMap.mp hmem
    rcases List.mem_append.mp hmem with hmem | hmem
    · exact hs (List.eq_of_mem_replicate hmem)
    · exact hr w hw hmem

variable [DecidableEq A] {p}

@[simp] theorem words_nil : words p [] = [] := by
  simp [words]

theorem words_blank {c : A} (hc : p c = true) (x y : List A) :
    words p (x ++ c :: y) = words p x ++ words p y := by
  rw [words, List.splitOnP_append_cons x y hc, List.filter_append]
  rfl

theorem words_cons_blank {c : A} (hc : p c = true) (s : List A) : words p (c :: s) = words p s := by
  simpa using words_blank hc [] s

theorem words_snoc_blank {c : A} (hc : p c = true) (s : List A) :
    words p (s ++ [c]) = words p s := by
  simpa using words_blank hc s []

theorem words_blanks {c : A} (hc : p c = true) (n : Nat) (s : List A) :
    words p (List.replicate n c ++ s) = words p s := by
  induction n with
  | zero => rfl
  | succ n ih => rw [List.replicate_succ, List.cons_append, words_cons_blank hc, ih]

theorem words_word {w : List A} (hw : IsWord p w) : words p w = [w] := by
  rw [words, List.splitOnP_eq_singleton hw.2]
  simp [hw.1]

theorem words_spaced {blank : A} (hb : p blank = true) {first : List A} (hf : IsWord p first)
    {rest : List (Nat × List A)} (hr : ∀ w ∈ rest, IsWord p w.2) :
    words p (spaced blank first rest) = first :: rest.map Prod.snd := by
  induction rest generalizing first with
  | nil => simpa [spaced] using words_word hf
  | cons w rest ih =>
    have hw := hr w List.mem_cons_self
    have hrest : spaced blank first (w :: rest) =
        first ++ blank :: (List.replicate w.1 blank ++ spaced blank w.2 rest) := by
      simp [spaced, List.replicate_succ]
    rw [hrest, words_blank hb, words_word hf, words_blanks hb,
      ih hw fun v hv => hr v (List.mem_cons_of_mem w hv)]
    rfl

end Words
