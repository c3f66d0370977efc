import Mathlib.Data.List.Basic

structure Machine (S A : Type) where
  init : S
  enabled : S → A → Prop
  next : S → A → S

namespace Machine

variable {S A : Type} (m : Machine S A)

def exec (s : S) (as : List A) : S := as.foldl m.next s

def Throughout (C : S → A → Prop) : S → List A → Prop
  | _, [] => True
  | s, a :: as => C s a ∧ Throughout C (m.next s a) as

def Legal : S → List A → Prop := m.Throughout m.enabled

def Always (P : S → Prop) : S → List A → Prop
  | s, [] => P s
  | s, a :: as => P s ∧ Always P (m.next s a) as

def Reachable (s : S) : Prop := ∃ as, m.Legal m.init as ∧ m.exec m.init as = s

instance decidableThroughout (C : S → A → Prop) [∀ s a, Decidable (C s a)] :
    ∀ s as, Decidable (m.Throughout C s as)
  | _, [] => isTrue trivial
  | s, a :: as =>
    have := decidableThroughout C (m.next s a) as
    inferInstanceAs (Decidable (C s a ∧ m.Throughout C (m.next s a) as))

instance decidableLegal [∀ s a, Decidable (m.enabled s a)] (s : S) (as : List A) :
    Decidable (m.Legal s as) :=
  inferInstanceAs (Decidable (m.Throughout m.enabled s as))

@[simp] theorem exec_nil (s : S) : m.exec s [] = s := rfl

@[simp] theorem exec_cons (s : S) (a : A) (as : List A) :
    m.exec s (a :: as) = m.exec (m.next s a) as := rfl

theorem throughout_of_forall {C : S → A → Prop} {as : List A} (h : ∀ a ∈ as, ∀ s, C s a) {s : S} :
    m.Throughout C s as := by
  induction as generalizing s with
  | nil => trivial
  | cons a as ih =>
    exact ⟨h a List.mem_cons_self s, ih fun b hb => h b (List.mem_cons_of_mem a hb)⟩

theorem throughout_append {C : S → A → Prop} {s : S} {as bs : List A} :
    m.Throughout C s (as ++ bs) ↔ m.Throughout C s as ∧ m.Throughout C (m.exec s as) bs := by
  induction as generalizing s with
  | nil => simp [Throughout]
  | cons a as ih => exact (and_congr_right fun _ => ih).trans and_assoc.symm

theorem always_head {P : S → Prop} {s : S} {as : List A} (h : m.Always P s as) : P s := by
  cases as with
  | nil => exact h
  | cons a as => exact h.1

theorem always_last {P : S → Prop} {s : S} {as : List A} (h : m.Always P s as) :
    P (m.exec s as) := by
  induction as generalizing s with
  | nil => exact h
  | cons a as ih => exact ih h.2

theorem always_iff_last {P : S → Prop} (hback : ∀ s a, m.enabled s a → P (m.next s a) → P s)
    {s : S} {as : List A} (hl : m.Legal s as) : m.Always P s as ↔ P (m.exec s as) := by
  refine ⟨m.always_last, fun h => ?_⟩
  induction as generalizing s with
  | nil => exact h
  | cons a as ih =>
    have hrest := ih hl.2 h
    exact ⟨hback s a hl.1 (m.always_head hrest), hrest⟩

theorem always_of_step {J : S → Prop} {C : S → A → Prop}
    (hstep : ∀ s a, J s → m.enabled s a → C s a → J (m.next s a))
    {s : S} {as : List A} (hs : J s) (hl : m.Legal s as) (hc : m.Throughout C s as) :
    m.Always J s as := by
  induction as generalizing s with
  | nil => exact hs
  | cons a as ih => exact ⟨hs, ih (hstep s a hs hl.1 hc.1) hl.2 hc.2⟩

theorem throughout_of_step {J : S → Prop} {C P : S → A → Prop}
    (hstep : ∀ s a, J s → m.enabled s a → C s a → P s a ∧ J (m.next s a))
    {s : S} {as : List A} (hs : J s) (hl : m.Legal s as) (hc : m.Throughout C s as) :
    m.Throughout P s as := by
  induction as generalizing s with
  | nil => trivial
  | cons a as ih =>
    obtain ⟨hp, hs'⟩ := hstep s a hs hl.1 hc.1
    exact ⟨hp, ih hs' hl.2 hc.2⟩

theorem reachable_induction {J : S → Prop} (hinit : J m.init)
    (hstep : ∀ s a, J s → m.enabled s a → J (m.next s a)) {s : S} (h : m.Reachable s) : J s := by
  obtain ⟨as, hl, rfl⟩ := h
  exact m.always_last (m.always_of_step (fun s a hj he _ => hstep s a hj he) hinit hl hl)

theorem throughout_iff_always {J P : S → Prop} {C : S → A → Prop}
    (hkeep : ∀ s a, J s → P s → m.enabled s a → C s a → J (m.next s a) ∧ P (m.next s a))
    (hbreak : ∀ s a, J s → P s → m.enabled s a → ¬ C s a → ¬ P (m.next s a))
    {s : S} {as : List A} (hj : J s) (hp : P s) (hl : m.Legal s as) :
    m.Throughout C s as ↔ m.Always P s as := by
  induction as generalizing s with
  | nil => exact ⟨fun _ => hp, fun _ => trivial⟩
  | cons a as ih =>
    obtain ⟨he, hl⟩ := hl
    constructor
    · rintro ⟨hc, ht⟩
      obtain ⟨hj', hp'⟩ := hkeep s a hj hp he hc
      exact ⟨hp, (ih hj' hp' hl).mp ht⟩
    · rintro ⟨-, ha⟩
      have hp' : P (m.next s a) := m.always_head ha
      have hc : C s a := by_contra fun hc => hbreak s a hj hp he hc hp'
      exact ⟨hc, (ih (hkeep s a hj hp he hc).1 hp' hl).mpr ha⟩

def restrict (E : S → A → Prop) : Machine S A where
  init := m.init
  enabled s a := m.enabled s a ∧ E s a
  next := m.next

theorem legal_restrict {E : S → A → Prop} {s : S} {as : List A} (hl : m.Legal s as)
    (he : m.Throughout E s as) : (m.restrict E).Legal s as := by
  induction as generalizing s with
  | nil => trivial
  | cons a as ih => exact ⟨⟨hl.1, he.1⟩, ih hl.2 he.2⟩

theorem legal_of_restrict {E : S → A → Prop} {s : S} {as : List A}
    (hl : (m.restrict E).Legal s as) : m.Legal s as := by
  induction as generalizing s with
  | nil => trivial
  | cons a as ih => exact ⟨hl.1.1, ih hl.2⟩

theorem throughout_restrict {E C : S → A → Prop} {s : S} {as : List A} :
    (m.restrict E).Throughout C s as ↔ m.Throughout C s as := by
  induction as generalizing s with
  | nil => exact Iff.rfl
  | cons a as ih => exact and_congr_right fun _ => ih

theorem always_restrict {E : S → A → Prop} {P : S → Prop} {s : S} {as : List A} :
    (m.restrict E).Always P s as ↔ m.Always P s as := by
  induction as generalizing s with
  | nil => exact Iff.rfl
  | cons a as ih => exact and_congr_right fun _ => ih

theorem always_mono {P Q : S → Prop} (hpq : ∀ s, P s → Q s) {s : S} {as : List A}
    (h : m.Always P s as) : m.Always Q s as := by
  induction as generalizing s with
  | nil => exact hpq s h
  | cons a as ih => exact ⟨hpq s h.1, ih h.2⟩

end Machine
