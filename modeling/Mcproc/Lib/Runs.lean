import Mcproc.Lib.Machine

namespace Machine

section
variable {S A : Type} (m : Machine S A)

theorem exec_append (s : S) (as bs : List A) : m.exec s (as ++ bs) = m.exec (m.exec s as) bs :=
  List.foldl_append

theorem throughout_mem {C : S → A → Prop} {s : S} {as : List A} (h : m.Throughout C s as) {a : A}
    (ha : a ∈ as) : ∃ t, C t a := by
  induction as generalizing s with
  | nil => cases ha
  | cons b as ih =>
    rcases List.mem_cons.mp ha with rfl | ha
    · exact ⟨s, h.1⟩
    · exact ih h.2 ha

theorem reachable_init : m.Reachable m.init := ⟨[], trivial, rfl⟩

theorem reachable_exec {s : S} (h : m.Reachable s) {as : List A} (hl : m.Legal s as) :
    m.Reachable (m.exec s as) := by
  obtain ⟨before, hbefore, rfl⟩ := h
  exact ⟨before ++ as, m.throughout_append.mpr ⟨hbefore, hl⟩, m.exec_append ..⟩

theorem reachable_next {s : S} {a : A} (h : m.Reachable s) (he : m.enabled s a) :
    m.Reachable (m.next s a) :=
  m.reachable_exec h (show m.Legal s [a] from ⟨he, trivial⟩)

-- An invariant may lean on what has been shown of reachable states before.
theorem reachable_induction' {J : S → Prop} (hinit : J m.init)
    (hstep : ∀ s a, m.Reachable s → J s → m.enabled s a → J (m.next s a)) {s : S}
    (h : m.Reachable s) : J s := by
  have hboth : m.Reachable s ∧ J s :=
    m.reachable_induction (J := fun s => m.Reachable s ∧ J s) ⟨m.reachable_init, hinit⟩
      (fun s a hs he => ⟨m.reachable_next hs.1 he, hstep s a hs.1 hs.2 he⟩) h
  exact hboth.2

def CanReach (P : S → Prop) (s : S) : Prop := ∃ as, m.Legal s as ∧ P (m.exec s as)

theorem canReach_here {P : S → Prop} {s : S} (h : P s) : m.CanReach P s := ⟨[], trivial, h⟩

theorem canReach_step {P : S → Prop} {s : S} {a : A} (he : m.enabled s a)
    (h : m.CanReach P (m.next s a)) : m.CanReach P s := by
  obtain ⟨as, hl, hp⟩ := h
  exact ⟨a :: as, ⟨he, hl⟩, hp⟩

theorem canReach_trans {P Q : S → Prop} {s : S} (h : m.CanReach P s)
    (hpq : ∀ t, P t → m.CanReach Q t) : m.CanReach Q s := by
  obtain ⟨as, hl, hp⟩ := h
  obtain ⟨bs, hl', hq⟩ := hpq _ hp
  exact ⟨as ++ bs, m.throughout_append.mpr ⟨hl, hl'⟩, by rwa [m.exec_append]⟩

theorem canReach_mono {P Q : S → Prop} (hpq : ∀ t, P t → Q t) {s : S} (h : m.CanReach P s) :
    m.CanReach Q s :=
  m.canReach_trans h fun t ht => m.canReach_here (hpq t ht)

theorem canReach_of_size {J P : S → Prop} (size : S → Nat)
    (hstep : ∀ s, J s → ¬ P s →
      ∃ a, m.enabled s a ∧ J (m.next s a) ∧ size (m.next s a) < size s)
    {s : S} (hs : J s) : m.CanReach (fun t => J t ∧ P t) s := by
  induction hn : size s using Nat.strongRecOn generalizing s with
  | ind n ih =>
    by_cases hp : P s
    · exact m.canReach_here ⟨hs, hp⟩
    · obtain ⟨a, he, hj, hlt⟩ := hstep s hs hp
      exact m.canReach_step he (ih _ (hn ▸ hlt) hj rfl)

end

section
variable {S A T B : Type} {m : Machine S A} {n : Machine T B} {view : S → T}

-- Seen through `view`, every step of `m` is a run of `n`; none at all is a run too.
structure Refines (m : Machine S A) (n : Machine T B) (view : S → T) : Prop where
  init : view m.init = n.init
  step : ∀ s a, m.Reachable s → m.enabled s a →
    ∃ bs, n.Legal (view s) bs ∧ n.exec (view s) bs = view (m.next s a)

theorem Refines.reachable (h : Refines m n view) {s : S} (hs : m.Reachable s) :
    n.Reachable (view s) := by
  refine m.reachable_induction' (J := fun s => n.Reachable (view s)) ?_ ?_ hs
  · rw [h.init]
    exact n.reachable_init
  · intro s a hreach hn he
    obtain ⟨bs, hl, heq⟩ := h.step s a hreach he
    rw [← heq]
    exact n.reachable_exec hn hl

end

end Machine
