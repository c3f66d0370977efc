import Mathlib.Data.List.Basic

namespace Lines

variable {A : Type} (sep : A)

theorem not_mem_snoc {acc : List A} {c : A} (ha : sep ∉ acc) (hc : c ≠ sep) : sep ∉ acc ++ [c] := by
  simp [ha, hc.symm]

variable [DecidableEq A]

def feed : List A → List A → List (List A) × List A
  | acc, [] => ([], acc)
  | acc, c :: cs =>
    if c = sep then ((acc ++ [c]) :: (feed [] cs).1, (feed [] cs).2)
    else feed (acc ++ [c]) cs

def cut (buffer : List A) : Option (List A × List A) :=
  match buffer.findIdx? (· = sep) with
  | some pos => some (buffer.take (pos + 1), buffer.drop (pos + 1))
  | none => none

def split (s : List A) : List (List A) × List A :=
  ((s.splitOn sep).dropLast.map (· ++ [sep]), (s.splitOn sep).getLast (List.splitOn_ne_nil _ _))

-- The last line counts although no separator ends it.
def lines (s : List A) : List (List A) :=
  (split sep s).1 ++ if (split sep s).2 = [] then [] else [(split sep s).2 ++ [sep]]

theorem cut_none {buffer : List A} (h : cut sep buffer = none) : sep ∉ buffer := by
  simp only [cut] at h
  split at h
  · cases h
  · next hf =>
    rw [List.findIdx?_eq_none_iff] at hf
    exact fun hmem => by simpa using hf sep hmem

theorem cut_some {buffer line rest : List A} (h : cut sep buffer = some (line, rest)) :
    ∃ body, line = body ++ [sep] ∧ sep ∉ body ∧ buffer = line ++ rest := by
  simp only [cut] at h
  split at h
  · next pos hf =>
    cases h
    obtain ⟨hlt, hpos, hbefore⟩ := List.findIdx?_eq_some_iff_getElem.mp hf
    refine ⟨buffer.take pos, ?_, ?_, (List.take_append_drop _ _).symm⟩
    · rw [List.take_add_one, List.getElem?_eq_getElem hlt, of_decide_eq_true hpos]
      rfl
    · intro hmem
      obtain ⟨i, hi, heq⟩ := List.mem_iff_getElem.mp hmem
      rw [List.length_take] at hi
      have hne := hbefore i (by omega)
      rw [List.getElem_take] at heq
      exact hne (by simpa using heq)
  · cases h

theorem feed_append (acc s t : List A) :
    feed sep acc (s ++ t) =
      ((feed sep acc s).1 ++ (feed sep (feed sep acc s).2 t).1,
        (feed sep (feed sep acc s).2 t).2) := by
  induction s generalizing acc with
  | nil => rfl
  | cons c cs ih =>
    simp only [List.cons_append, feed]
    split
    · simp [ih]
    · exact ih _

theorem feed_flatten (acc s : List A) :
    (feed sep acc s).1.flatten ++ (feed sep acc s).2 = acc ++ s := by
  induction s generalizing acc with
  | nil => simp [feed]
  | cons c cs ih =>
    simp only [feed]
    split
    · simpa using ih []
    · simpa using ih (acc ++ [c])

theorem feed_rest {acc s : List A} (ha : sep ∉ acc) : sep ∉ (feed sep acc s).2 := by
  induction s generalizing acc with
  | nil => exact ha
  | cons c cs ih =>
    simp only [feed]
    split
    · exact ih List.not_mem_nil
    · next hc => exact ih (not_mem_snoc sep ha hc)

def IsLine (l : List A) : Prop := ∃ body, l = body ++ [sep] ∧ sep ∉ body

theorem feed_lines {acc s : List A} (ha : sep ∉ acc) : ∀ l ∈ (feed sep acc s).1, IsLine sep l := by
  induction s generalizing acc with
  | nil => intro l hl; cases hl
  | cons c cs ih =>
    simp only [feed]
    split
    · next hc =>
      intro l hl
      rcases List.mem_cons.mp hl with rfl | hl
      · exact ⟨acc, by rw [hc], ha⟩
      · exact ih List.not_mem_nil l hl
    · next hc => exact ih (not_mem_snoc sep ha hc)

theorem feed_of_not_mem {s : List A} (acc : List A) (hs : sep ∉ s) :
    feed sep acc s = ([], acc ++ s) := by
  induction s generalizing acc with
  | nil => simp [feed]
  | cons c cs ih =>
    obtain ⟨hc, hcs⟩ := List.ne_and_not_mem_of_not_mem_cons hs
    simp [feed, hc.symm, ih _ hcs]

theorem feed_nil_append {acc : List A} (s : List A) (ha : sep ∉ acc) :
    feed sep [] (acc ++ s) = feed sep acc s := by
  rw [feed_append, feed_of_not_mem sep [] ha]
  simp

theorem feed_line {body : List A} (rest : List A) (hb : sep ∉ body) :
    feed sep [] (body ++ [sep] ++ rest) =
      ((body ++ [sep]) :: (feed sep [] rest).1, (feed sep [] rest).2) := by
  rw [List.append_assoc, feed_nil_append sep _ hb]
  simp [feed]

theorem feed_suffix (acc s : List A) : (feed sep acc s).2 <:+ acc ++ s :=
  ⟨_, feed_flatten sep acc s⟩

theorem feed_eq_split {acc : List A} (s : List A) (ha : sep ∉ acc) :
    feed sep acc s = split sep (acc ++ s) := by
  induction s generalizing acc with
  | nil => simp [feed, split, List.splitOn_eq_singleton ha]
  | cons c cs ih =>
    simp only [feed]
    split
    · next hc =>
      subst hc
      have hsplit : (acc ++ c :: cs).splitOn c = acc :: cs.splitOn c := by
        rw [List.splitOn_append_cons_self, List.splitOn_eq_singleton ha]
        rfl
      simp [ih List.not_mem_nil, split, hsplit,
        List.dropLast_cons_of_ne_nil (List.splitOn_ne_nil c cs),
        List.getLast_cons (List.splitOn_ne_nil c cs)]
    · next hc => rw [ih (not_mem_snoc sep ha hc), List.append_assoc, List.singleton_append]

theorem lines_eq (s : List A) :
    lines sep s =
      (feed sep [] s).1 ++
        if (feed sep [] s).2 = [] then [] else [(feed sep [] s).2 ++ [sep]] := by
  rw [feed_eq_split sep s List.not_mem_nil]
  rfl

theorem lines_line {body : List A} (rest : List A) (hb : sep ∉ body) :
    lines sep (body ++ [sep] ++ rest) = (body ++ [sep]) :: lines sep rest := by
  rw [lines_eq, lines_eq, feed_line sep rest hb]
  rfl

theorem feed_ended (acc : List A) {s : List A} (h : s.getLast? = some sep) :
    (feed sep acc s).2 = [] := by
  obtain ⟨init, rfl⟩ := List.getLast?_eq_some_iff.mp h
  simp [feed_append, feed]

theorem lines_append {s : List A} (t : List A) (h : s = [] ∨ s.getLast? = some sep) :
    lines sep (s ++ t) = lines sep s ++ lines sep t := by
  have hrest : (feed sep [] s).2 = [] := by
    rcases h with rfl | h
    · rfl
    · exact feed_ended sep [] h
  rw [lines_eq, lines_eq, lines_eq, feed_append, hrest]
  simp

theorem lines_flatMap {bodies : List (List A)} (h : ∀ body ∈ bodies, sep ∉ body) :
    lines sep (bodies.flatMap (· ++ [sep])) = bodies.map (· ++ [sep]) := by
  induction bodies with
  | nil => rfl
  | cons body bodies ih =>
    rw [List.flatMap_cons, lines_line sep _ (h body List.mem_cons_self),
      ih fun l hl => h l (List.mem_cons_of_mem body hl)]
    rfl

example : lines 0 [1, 0, 0, 2, 3] = [[1, 0], [0], [2, 3, 0]] := by decide

end Lines
