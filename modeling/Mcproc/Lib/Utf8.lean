import Mathlib.Algebra.Group.Nat.Defs
import Mathlib.Data.List.Basic

namespace Utf8

-- A character begun and not ended: the continuation bytes it still owes, the range of the next
-- one, and the bits read so far.
structure Partial where
  owed : Nat
  low : Nat
  high : Nat
  value : Nat
  deriving DecidableEq, Repr

inductive Lead where
  | char (c : Char)
  | begins (p : Partial)
  | invalid
  deriving DecidableEq

def lead (b : Nat) : Lead :=
  if b ≤ 0x7f then .char (Char.ofNat b)
  else if 0xc2 ≤ b ∧ b ≤ 0xdf then .begins ⟨1, 0x80, 0xbf, b - 0xc0⟩
  else if b = 0xe0 then .begins ⟨2, 0xa0, 0xbf, 0⟩
  else if b = 0xed then .begins ⟨2, 0x80, 0x9f, 0xd⟩
  else if 0xe1 ≤ b ∧ b ≤ 0xef then .begins ⟨2, 0x80, 0xbf, b - 0xe0⟩
  else if b = 0xf0 then .begins ⟨3, 0x90, 0xbf, 0⟩
  else if 0xf1 ≤ b ∧ b ≤ 0xf3 then .begins ⟨3, 0x80, 0xbf, b - 0xf0⟩
  else if b = 0xf4 then .begins ⟨3, 0x80, 0x8f, 4⟩
  else .invalid

def start (b : Nat) : List (Option Char) × Option Partial :=
  match lead b with
  | .char c => ([some c], none)
  | .begins p => ([], some p)
  | .invalid => ([none], none)

def continued (p : Partial) (b : Nat) : List (Option Char) × Option Partial :=
  let value := p.value * 64 + (b - 0x80)
  if p.owed = 1 then ([some (Char.ofNat value)], none)
  else ([], some ⟨p.owed - 1, 0x80, 0xbf, value⟩)

-- A byte that cannot continue the character ends it as invalid and starts a new one.
def step (state : Option Partial) (b : Nat) : List (Option Char) × Option Partial :=
  match state with
  | none => start b
  | some p =>
    if p.low ≤ b ∧ b ≤ p.high then continued p b
    else (none :: (start b).1, (start b).2)

def scan : Option Partial → List UInt8 → List (Option Char)
  | none, [] => []
  | some _, [] => [none]
  | state, b :: bs => (step state b.toNat).1 ++ scan (step state b.toNat).2 bs

def replacement : Char := Char.ofNat 0xfffd

def fromUtf8Lossy (bytes : List UInt8) : List Char :=
  (scan none bytes).map (·.getD replacement)

def fromUtf8 (bytes : List UInt8) : Option (List Char) :=
  (scan none bytes).mapM id

example : fromUtf8Lossy [0x61, 0xe3, 0x81, 0x82, 0xff, 0xe3, 0x62] =
    ['a', 'あ', replacement, replacement, 'b'] := by
  decide

def encode (s : String) : List UInt8 := s.toList.flatMap String.utf8EncodeChar

def Ascii (c : Char) : Prop := 0 < c.toNat ∧ c.toNat < 0x80

-- However it goes on, the character stays outside the ASCII range.
structure Partial.Wide (p : Partial) : Prop where
  owes : 0 < p.owed
  low : 0x80 ≤ p.low
  wide : 0x80 ≤ (p.value * 64 + (p.low - 0x80)) * 64 ^ (p.owed - 1)

theorem lead_wide {b : Nat} {p : Partial} (h : lead b = .begins p) : p.Wide := by
  simp only [lead] at h
  repeat' split at h
  all_goals first
    | cases h; constructor <;> simp <;> omega
    | cases h

theorem toNat_ofNat (n : Nat) : (Char.ofNat n).toNat = if n.isValidChar then n else 0 := by
  by_cases hv : n.isValidChar
  · rw [Char.ofNat, dif_pos hv, if_pos hv]
    rfl
  · rw [Char.ofNat, dif_neg hv, if_neg hv]
    rfl

theorem not_ascii_ofNat {n : Nat} (h : 0x80 ≤ n) : ¬ Ascii (Char.ofNat n) := by
  rintro ⟨h0, h1⟩
  by_cases hv : n.isValidChar
  · rw [toNat_ofNat, if_pos hv] at h1
    omega
  · rw [toNat_ofNat, if_neg hv] at h0
    omega

theorem start_cases (b : Nat) :
    b < 0x80 ∧ start b = ([some (Char.ofNat b)], none) ∨
      (∃ p, p.Wide ∧ start b = ([], some p)) ∨ start b = ([none], none) := by
  simp only [start]
  cases h : lead b with
  | char c =>
    left
    simp only [lead] at h
    repeat' split at h
    all_goals first
      | cases h; exact ⟨by omega, rfl⟩
      | cases h
  | begins p => exact Or.inr (Or.inl ⟨p, lead_wide h, rfl⟩)
  | invalid => exact Or.inr (Or.inr rfl)

theorem continued_cases {p : Partial} {b : Nat} (hp : p.Wide) (hb : p.low ≤ b) :
    (∃ c, ¬ Ascii c ∧ continued p b = ([some c], none)) ∨
      ∃ q, q.Wide ∧ continued p b = ([], some q) := by
  obtain ⟨howes, hlow, hwide⟩ := hp
  have hle : p.value * 64 + (p.low - 0x80) ≤ p.value * 64 + (b - 0x80) := by omega
  simp only [continued]
  split
  · next h1 =>
    rw [h1, Nat.sub_self, Nat.pow_zero, Nat.mul_one] at hwide
    exact Or.inl ⟨_, not_ascii_ofNat (Nat.le_trans hwide hle), rfl⟩
  · next h1 =>
    refine Or.inr ⟨_, ⟨by dsimp only; omega, by dsimp only; omega, ?_⟩, rfl⟩
    have hpow : 64 ^ (p.owed - 1) = 64 * 64 ^ (p.owed - 1 - 1) := by
      rw [← Nat.pow_succ', show (p.owed - 1 - 1).succ = p.owed - 1 by omega]
    rw [hpow, ← Nat.mul_assoc] at hwide
    exact Nat.le_trans hwide (Nat.mul_le_mul_right _ (by dsimp only; omega))

theorem scan_some_ne_ascii {p : Partial} (bs : List UInt8) (hp : p.Wide) :
    ∃ o os, scan (some p) bs = o :: os ∧ ∀ c, o = some c → ¬ Ascii c := by
  induction bs generalizing p with
  | nil => exact ⟨none, [], rfl, by simp⟩
  | cons b bs ih =>
    simp only [scan, step]
    split
    · next hb =>
      rcases continued_cases hp hb.1 with ⟨c, hc, e⟩ | ⟨q, hq, e⟩ <;> rw [e]
      · exact ⟨some c, _, rfl, by simpa using hc⟩
      · exact ih hq
    · exact ⟨none, _, rfl, by simp⟩

theorem scan_ne_nil (b : UInt8) (bs : List UInt8) : scan none (b :: bs) ≠ [] := by
  simp only [scan, step]
  rcases start_cases b.toNat with ⟨-, e⟩ | ⟨p, hp, e⟩ | e <;> rw [e]
  · simp
  · obtain ⟨o, os, h, -⟩ := scan_some_ne_ascii bs hp
    simp [h]
  · simp

theorem scan_ascii_head {bs : List UInt8} {c : Char} {os : List (Option Char)} (hc : Ascii c)
    (h : scan none bs = some c :: os) :
    ∃ rest, bs = UInt8.ofNat c.toNat :: rest ∧ os = scan none rest := by
  cases bs with
  | nil => cases h
  | cons b bs =>
    simp only [scan, step] at h
    rcases start_cases b.toNat with ⟨hb, e⟩ | ⟨p, hp, e⟩ | e <;> rw [e] at h
    · obtain ⟨rfl, rfl⟩ : Char.ofNat b.toNat = c ∧ scan none bs = os := by simpa using h
      have hv : b.toNat.isValidChar := Or.inl (by omega)
      exact ⟨bs, by rw [toNat_ofNat, if_pos hv, UInt8.ofNat_toNat], rfl⟩
    · obtain ⟨o, os', e', ho⟩ := scan_some_ne_ascii bs hp
      obtain ⟨rfl, -⟩ : o = some c ∧ os' = os := by simpa [e'] using h
      exact absurd hc (ho c rfl)
    · simp at h

theorem mem_of_mem_scan {state : Option Partial} {bs : List UInt8} {c : Char} (hc : Ascii c)
    (hs : ∀ p, state = some p → p.Wide) (h : some c ∈ scan state bs) :
    UInt8.ofNat c.toNat ∈ bs := by
  have hstart (b : UInt8) (hb : some c ∈ (start b.toNat).1) : UInt8.ofNat c.toNat = b := by
    rcases start_cases b.toNat with ⟨hlt, e⟩ | ⟨p, -, e⟩ | e <;> rw [e] at hb
    · obtain rfl : c = Char.ofNat b.toNat := by simpa using hb
      rw [toNat_ofNat, if_pos (Or.inl (by omega)), UInt8.ofNat_toNat]
    · cases hb
    · simp at hb
  have hwide (b : UInt8) (p : Partial) (hp : (start b.toNat).2 = some p) : p.Wide := by
    rcases start_cases b.toNat with ⟨-, e⟩ | ⟨q, hq, e⟩ | e <;> rw [e] at hp <;> cases hp
    exact hq
  induction bs generalizing state with
  | nil =>
    cases state with
    | none => cases h
    | some p => simp [scan] at h
  | cons b bs ih =>
    simp only [scan, List.mem_append] at h
    cases state with
    | none =>
      rcases h with h | h
      · rw [hstart b h]
        exact List.mem_cons_self
      · exact List.mem_cons_of_mem _ (ih (hwide b) h)
    | some p =>
      simp only [step] at h
      split at h
      · next hb =>
        rcases continued_cases (hs p rfl) hb.1 with ⟨d, hd, e⟩ | ⟨q, hq, e⟩ <;> rw [e] at h
        · rcases h with h | h
          · obtain rfl : c = d := by simpa using h
            exact absurd hc hd
          · exact List.mem_cons_of_mem _ (ih (by simp) h)
        · rcases h with h | h
          · cases h
          · exact List.mem_cons_of_mem _ (ih (by rintro _ ⟨⟩; exact hq) h)
      · rcases h with h | h
        · rw [hstart b (by simpa using h)]
          exact List.mem_cons_self
        · exact List.mem_cons_of_mem _ (ih (hwide b) h)

theorem getD_replacement {o : Option Char} {c : Char} (hc : Ascii c) (h : o.getD replacement = c) :
    o = some c := by
  cases o with
  | none =>
    obtain rfl : replacement = c := h
    exact absurd hc (not_ascii_ofNat (by decide))
  | some d => exact congrArg some h

theorem mem_of_mem_lossy {bs : List UInt8} {c : Char} (hc : Ascii c)
    (h : c ∈ fromUtf8Lossy bs) : UInt8.ofNat c.toNat ∈ bs := by
  obtain ⟨o, ho, e⟩ := List.mem_map.mp h
  exact mem_of_mem_scan hc (by simp) (getD_replacement hc e ▸ ho)

theorem lossy_cons {bs : List UInt8} {c : Char} {cs : List Char} (hc : Ascii c)
    (h : fromUtf8Lossy bs = c :: cs) :
    ∃ rest, bs = UInt8.ofNat c.toNat :: rest ∧ fromUtf8Lossy rest = cs := by
  obtain ⟨o, os, hs, ho, hos⟩ := List.map_eq_cons_iff.mp h
  rw [getD_replacement hc ho] at hs
  obtain ⟨rest, rfl, rfl⟩ := scan_ascii_head hc hs
  exact ⟨rest, rfl, hos⟩

theorem lossy_nil {bs : List UInt8} (h : fromUtf8Lossy bs = []) : bs = [] := by
  cases bs with
  | nil => rfl
  | cons b bs => exact absurd (List.map_eq_nil_iff.mp h) (scan_ne_nil b bs)

theorem encodeChar_ascii {b : UInt8} {c : Char} (hb : b ∈ String.utf8EncodeChar c)
    (h : b.toNat < 0x80) : c.toNat = b.toNat ∧ String.utf8EncodeChar c = [b] := by
  have hv : c.val.toNat = c.toNat := rfl
  simp only [String.utf8EncodeChar] at hb ⊢
  simp only [hv] at hb ⊢
  split at hb
  · next hle =>
    obtain rfl := List.mem_singleton.mp hb
    rw [if_pos hle]
    exact ⟨(UInt8.toNat_ofNat_of_lt' (Nat.lt_of_le_of_lt hle (by decide))).symm, rfl⟩
  · exfalso
    have hbig (x k : Nat) (hk : 0x80 ≤ k) (hx : x + k < 256) :
        0x80 ≤ (UInt8.ofNat (x + k)).toNat := by
      rw [UInt8.toNat_ofNat_of_lt' hx]
      omega
    repeat' split at hb
    all_goals
      simp only [List.mem_cons, List.not_mem_nil, or_false] at hb
      rcases hb with rfl | rfl | rfl | rfl <;>
        exact absurd h (Nat.not_lt.mpr (hbig _ _ (by decide) (by omega)))

theorem encode_ascii_cons {cs : List Char} {b : UInt8} {bs : List UInt8}
    (h : cs.flatMap String.utf8EncodeChar = b :: bs) (hb : b.toNat < 0x80) :
    ∃ cs', cs = Char.ofNat b.toNat :: cs' ∧ cs'.flatMap String.utf8EncodeChar = bs := by
  cases cs with
  | nil => cases h
  | cons c cs =>
    rw [List.flatMap_cons] at h
    have hmem : b ∈ String.utf8EncodeChar c := by
      cases he : String.utf8EncodeChar c with
      | nil => exact absurd he String.utf8EncodeChar_ne_nil
      | cons b' bs' =>
        rw [he] at h
        cases h
        exact List.mem_cons_self
    obtain ⟨hc, he⟩ := encodeChar_ascii hmem hb
    rw [he] at h
    exact ⟨cs, by rw [← hc, Char.ofNat_toNat], List.tail_eq_of_cons_eq h⟩

theorem encode_nil {cs : List Char} (h : cs.flatMap String.utf8EncodeChar = []) : cs = [] := by
  cases cs with
  | nil => rfl
  | cons c cs =>
    rw [List.flatMap_cons, List.append_eq_nil_iff] at h
    exact absurd h.1 String.utf8EncodeChar_ne_nil

theorem encodeChar_of_ascii {c : Char} (hc : Ascii c) :
    String.utf8EncodeChar c = [UInt8.ofNat c.toNat] := by
  have hle : c.val.toNat ≤ 0x7f := Nat.le_of_lt_succ hc.2
  simp only [String.utf8EncodeChar]
  rw [if_pos hle]
  rfl

theorem scan_ascii {b : UInt8} (bs : List UInt8) (hb : b.toNat < 0x80) :
    scan none (b :: bs) = some (Char.ofNat b.toNat) :: scan none bs := by
  have hlead : lead b.toNat = .char (Char.ofNat b.toNat) := by
    rw [lead, if_pos (Nat.le_of_lt_succ hb)]
  simp only [scan, step, start, hlead, List.singleton_append]

theorem lossy_ascii_append {cs : List Char} (bs : List UInt8) (h : ∀ c ∈ cs, Ascii c) :
    fromUtf8Lossy (cs.flatMap String.utf8EncodeChar ++ bs) = cs ++ fromUtf8Lossy bs := by
  induction cs with
  | nil => rfl
  | cons c cs ih =>
    have hc := h c List.mem_cons_self
    have hb : (UInt8.ofNat c.toNat).toNat = c.toNat :=
      UInt8.toNat_ofNat_of_lt' (Nat.lt_trans hc.2 (by decide))
    have hs := scan_ascii (cs.flatMap String.utf8EncodeChar ++ bs) (hb ▸ hc.2)
    rw [hb, Char.ofNat_toNat] at hs
    rw [List.flatMap_cons, encodeChar_of_ascii hc, List.append_assoc, List.singleton_append,
      fromUtf8Lossy, hs, List.map_cons, List.cons_append]
    exact congrArg (c :: ·) (ih fun d hd => h d (List.mem_cons_of_mem c hd))

theorem step_wide {state : Option Partial} {b : Nat} (hs : ∀ p, state = some p → p.Wide)
    {q : Partial} (hq : (step state b).2 = some q) : q.Wide := by
  have hstart (hq : (start b).2 = some q) : q.Wide := by
    rcases start_cases b with ⟨-, e⟩ | ⟨p, hp, e⟩ | e <;> rw [e] at hq <;> cases hq
    exact hp
  cases state with
  | none => exact hstart hq
  | some p =>
    simp only [step] at hq
    split at hq
    · next hb =>
      rcases continued_cases (hs p rfl) hb.1 with ⟨c, -, e⟩ | ⟨q', hq', e⟩ <;> rw [e] at hq <;>
        cases hq
      exact hq'
    · exact hstart hq

-- An ASCII byte ends whatever was begun before it.
theorem scan_append_ascii {state : Option Partial} (hs : ∀ p, state = some p → p.Wide)
    (as : List UInt8) {b : UInt8} (bs : List UInt8) (hb : b.toNat < 0x80) :
    scan state (as ++ b :: bs) = scan state as ++ some (Char.ofNat b.toNat) :: scan none bs := by
  induction as generalizing state with
  | nil =>
    cases state with
    | none => exact scan_ascii bs hb
    | some p =>
      have hlow : ¬ (p.low ≤ b.toNat ∧ b.toNat ≤ p.high) := by
        have := (hs p rfl).low
        omega
      have h := scan_ascii bs hb
      simp only [scan, step] at h
      simp only [List.nil_append, scan, step, if_neg hlow, List.cons_append, h]
  | cons a as ih =>
    simp only [List.cons_append, scan, List.append_assoc]
    rw [ih fun p hp => step_wide hs hp]

theorem scan_append {state : Option Partial} {as : List UInt8} (bs : List UInt8)
    (h : none ∉ scan state as) : scan state (as ++ bs) = scan state as ++ scan none bs := by
  induction as generalizing state with
  | nil =>
    cases state with
    | none => rfl
    | some p => simp [scan] at h
  | cons a as ih =>
    simp only [scan, List.mem_append, not_or] at h
    simp only [List.cons_append, scan, ih h.2, List.append_assoc]

def Valid (bytes : List UInt8) : Prop := none ∉ scan none bytes

instance (bytes : List UInt8) : Decidable (Valid bytes) :=
  inferInstanceAs (Decidable (none ∉ scan none bytes))

theorem mapM_id_eq {A : Type} {os : List (Option A)} (h : none ∉ os) (d : A) :
    os.mapM id = some (os.map (·.getD d)) := by
  induction os with
  | nil => rfl
  | cons o os ih =>
    rw [List.mem_cons, not_or] at h
    cases o with
    | none => exact absurd rfl h.1
    | some a => simp [List.mapM_cons, ih h.2]

theorem mapM_id_none {A : Type} {os : List (Option A)} (h : none ∈ os) : os.mapM id = none := by
  induction os with
  | nil => cases h
  | cons o os ih =>
    cases o with
    | none => rfl
    | some a =>
      rw [List.mem_cons] at h
      have hos := ih (h.resolve_left (by simp))
      simp [List.mapM_cons, hos]

theorem fromUtf8_valid {bytes : List UInt8} (h : Valid bytes) :
    fromUtf8 bytes = some (fromUtf8Lossy bytes) :=
  mapM_id_eq h replacement

theorem fromUtf8_invalid {bytes : List UInt8} (h : ¬ Valid bytes) : fromUtf8 bytes = none :=
  mapM_id_none (by_contra h)

theorem valid_nil : Valid [] := List.not_mem_nil

theorem valid_append {a : List UInt8} (b : List UInt8) (h : Valid a) :
    Valid (a ++ b) ↔ Valid b := by
  simp only [Valid, scan_append b h, List.mem_append, not_or, and_iff_right_iff_imp]
  exact fun _ => h

theorem lossy_snoc_ascii (bytes : List UInt8) {b : UInt8} (hb : b.toNat < 0x80) :
    fromUtf8Lossy (bytes ++ [b]) = fromUtf8Lossy bytes ++ [Char.ofNat b.toNat] := by
  have hnone : ∀ p, (none : Option Partial) = some p → p.Wide := by simp
  simp [fromUtf8Lossy, scan_append_ascii hnone bytes [] hb, scan]

theorem valid_append_ascii (a : List UInt8) {b : UInt8} (rest : List UInt8) (hb : b.toNat < 0x80) :
    Valid (a ++ b :: rest) ↔ Valid a ∧ Valid rest := by
  have hnone : ∀ p, (none : Option Partial) = some p → p.Wide := by simp
  simp [Valid, scan_append_ascii hnone a rest hb]

theorem byte_toNat {n : Nat} (h : n < 256) : (UInt8.ofNat n).toNat = n :=
  UInt8.toNat_ofNat_of_lt' h

theorem scan_begins {n : Nat} {p : Partial} (bs : List UInt8) (hn : n < 256)
    (h : lead n = .begins p) : scan none (UInt8.ofNat n :: bs) = scan (some p) bs := by
  simp only [scan, step, start, byte_toNat hn, h, List.nil_append]

theorem scan_continues {owed low high value k : Nat} (bs : List UInt8) (hk : k < 64)
    (hlow : low ≤ k + 0x80) (hhigh : k + 0x80 ≤ high) :
    scan (some ⟨owed + 2, low, high, value⟩) (UInt8.ofNat (k + 0x80) :: bs) =
      scan (some ⟨owed + 1, 0x80, 0xbf, value * 64 + k⟩) bs := by
  have hb := byte_toNat (n := k + 0x80) (by omega)
  have ho : owed + 2 ≠ 1 := by omega
  simp only [scan, step, hb, if_pos (And.intro hlow hhigh), continued, if_neg ho, List.nil_append,
    Nat.add_sub_cancel, Nat.add_succ_sub_one]

theorem scan_ends {low high value k : Nat} (bs : List UInt8) (hk : k < 64)
    (hlow : low ≤ k + 0x80) (hhigh : k + 0x80 ≤ high) :
    scan (some ⟨1, low, high, value⟩) (UInt8.ofNat (k + 0x80) :: bs) =
      some (Char.ofNat (value * 64 + k)) :: scan none bs := by
  have hb := byte_toNat (n := k + 0x80) (by omega)
  simp only [scan, step, hb, if_pos (And.intro hlow hhigh), continued, if_true,
    List.singleton_append, Nat.add_sub_cancel]

theorem lead_two {k : Nat} (hlow : 2 ≤ k) (hhigh : k < 0x20) :
    lead (k + 0xc0) = .begins ⟨1, 0x80, 0xbf, k⟩ := by
  rw [lead, if_neg (by omega), if_pos (by omega), Nat.add_sub_cancel]

-- The second byte of a long or surrogate-adjacent form has a narrower range.
theorem lead_three {n : Nat} (hlow : 0x800 ≤ n) (hhigh : n ≤ 0xffff)
    (hvalid : n < 0xd800 ∨ 0xdfff < n) :
    ∃ low high, lead (n / 4096 + 0xe0) = .begins ⟨2, low, high, n / 4096⟩ ∧
      low ≤ n / 64 % 64 + 0x80 ∧ n / 64 % 64 + 0x80 ≤ high := by
  rw [lead, if_neg (by omega), if_neg (by omega)]
  by_cases hzero : n / 4096 = 0
  · rw [if_pos (by omega), hzero]
    exact ⟨_, _, rfl, by omega, by omega⟩
  · rw [if_neg (by omega)]
    by_cases hsurrogate : n / 4096 = 0xd
    · rw [if_pos (by omega), hsurrogate]
      exact ⟨_, _, rfl, by omega, by omega⟩
    · rw [if_neg (by omega), if_pos (by omega), Nat.add_sub_cancel]
      exact ⟨_, _, rfl, by omega, by omega⟩

theorem lead_four {n : Nat} (hlow : 0xffff < n) (hhigh : n < 0x110000) :
    ∃ low high, lead (n / 262144 + 0xf0) = .begins ⟨3, low, high, n / 262144⟩ ∧
      low ≤ n / 4096 % 64 + 0x80 ∧ n / 4096 % 64 + 0x80 ≤ high := by
  rw [lead, if_neg (by omega), if_neg (by omega), if_neg (by omega), if_neg (by omega),
    if_neg (by omega)]
  by_cases hzero : n / 262144 = 0
  · rw [if_pos (by omega), hzero]
    exact ⟨_, _, rfl, by omega, by omega⟩
  · rw [if_neg (by omega)]
    by_cases hfour : n / 262144 = 4
    · rw [if_neg (by omega), if_pos (by omega), hfour]
      exact ⟨_, _, rfl, by omega, by omega⟩
    · rw [if_pos (by omega), Nat.add_sub_cancel]
      exact ⟨_, _, rfl, by omega, by omega⟩

theorem scan_encodeChar (c : Char) (bs : List UInt8) :
    scan none (String.utf8EncodeChar c ++ bs) = some c :: scan none bs := by
  have hv : c.val.toNat = c.toNat := rfl
  have hvalid : c.toNat < 0xd800 ∨ 0xdfff < c.toNat ∧ c.toNat < 0x110000 := c.valid
  have hend (k : Nat) (hk : k = c.toNat) : Char.ofNat k = c := by rw [hk, Char.ofNat_toNat]
  simp only [String.utf8EncodeChar, hv]
  split
  · next hone =>
    have hs := scan_ascii (b := UInt8.ofNat c.toNat) bs (by rw [byte_toNat] <;> omega)
    rw [byte_toNat (by omega), Char.ofNat_toNat] at hs
    exact hs
  · split
    · next hone htwo =>
      have hmod : c.toNat / 64 % 0x20 = c.toNat / 64 := Nat.mod_eq_of_lt (by omega)
      simp only [List.cons_append, List.nil_append, hmod]
      rw [scan_begins _ (by omega) (lead_two (by omega) (by omega)),
        scan_ends _ (by omega) (by omega) (by omega), hend _ (by omega)]
    · split
      · next htwo hthree =>
        have hmod : c.toNat / 4096 % 0x10 = c.toNat / 4096 := Nat.mod_eq_of_lt (by omega)
        obtain ⟨low, high, hlead, hlow, hhigh⟩ :=
          lead_three (n := c.toNat) (by omega) hthree (by omega)
        simp only [List.cons_append, List.nil_append, hmod]
        rw [scan_begins _ (by omega) hlead, scan_continues _ (by omega) hlow hhigh,
          scan_ends _ (by omega) (by omega) (by omega), hend _ (by omega)]
      · next hthree =>
        have hmod : c.toNat / 262144 % 0x08 = c.toNat / 262144 := Nat.mod_eq_of_lt (by omega)
        obtain ⟨low, high, hlead, hlow, hhigh⟩ := lead_four (n := c.toNat) (by omega) (by omega)
        simp only [List.cons_append, List.nil_append, hmod]
        rw [scan_begins _ (by omega) hlead, scan_continues _ (by omega) hlow hhigh,
          scan_continues _ (by omega) (by omega) (by omega),
          scan_ends _ (by omega) (by omega) (by omega), hend _ (by omega)]

theorem scan_encode (cs : List Char) (bs : List UInt8) :
    scan none (cs.flatMap String.utf8EncodeChar ++ bs) = cs.map some ++ scan none bs := by
  induction cs with
  | nil => rfl
  | cons c cs ih => rw [List.flatMap_cons, List.append_assoc, scan_encodeChar, ih]; rfl

theorem fromUtf8_encode (s : String) : fromUtf8 (encode s) = some s.toList := by
  have hscan := scan_encode s.toList []
  rw [List.append_nil] at hscan
  have hsome : none ∉ s.toList.map some := by simp
  rw [fromUtf8, encode, hscan, scan, List.append_nil, mapM_id_eq hsome replacement,
    List.map_map]
  exact congrArg some (List.map_id _)

theorem lossy_encode (s : String) : fromUtf8Lossy (encode s) = s.toList := by
  have hscan := scan_encode s.toList []
  rw [List.append_nil] at hscan
  rw [fromUtf8Lossy, encode, hscan, scan, List.append_nil, List.map_map]
  exact List.map_id _

theorem encode_append (s t : String) : encode (s ++ t) = encode s ++ encode t := by
  simp [encode]

theorem encode_injective {s t : String} (h : encode s = encode t) : s = t := by
  have hs := fromUtf8_encode s
  rw [h, fromUtf8_encode t] at hs
  exact String.toList_inj.mp (Option.some.inj hs).symm

theorem encodeChar_ofNat {v : Nat} (hv : v.isValidChar) :
    String.utf8EncodeChar (Char.ofNat v) =
      if v ≤ 0x7f then [UInt8.ofNat v]
      else if v ≤ 0x7ff then [UInt8.ofNat (v / 64 % 0x20 + 0xc0), UInt8.ofNat (v % 0x40 + 0x80)]
      else if v ≤ 0xffff then
        [UInt8.ofNat (v / 4096 % 0x10 + 0xe0), UInt8.ofNat (v / 64 % 0x40 + 0x80),
          UInt8.ofNat (v % 0x40 + 0x80)]
      else
        [UInt8.ofNat (v / 262144 % 0x08 + 0xf0), UInt8.ofNat (v / 4096 % 0x40 + 0x80),
          UInt8.ofNat (v / 64 % 0x40 + 0x80), UInt8.ofNat (v % 0x40 + 0x80)] := by
  have hval : (Char.ofNat v).val.toNat = v := by
    have h := toNat_ofNat v
    rwa [if_pos hv] at h
  simp only [String.utf8EncodeChar, hval]

theorem ofNat_toNat {b : UInt8} {n : Nat} (h : b.toNat = n) : UInt8.ofNat n = b := by
  rw [← h, UInt8.ofNat_toNat]

theorem scan_some_valid {p : Partial} {bs : List UInt8} (h : none ∉ scan (some p) bs) :
    ∃ b rest, bs = b :: rest ∧ p.low ≤ b.toNat ∧ b.toNat ≤ p.high ∧
      scan (some p) bs = (continued p b.toNat).1 ++ scan (continued p b.toNat).2 rest := by
  cases bs with
  | nil => exact absurd (List.mem_singleton_self none) h
  | cons b rest =>
    by_cases hb : p.low ≤ b.toNat ∧ b.toNat ≤ p.high
    · exact ⟨b, rest, rfl, hb.1, hb.2, by simp only [scan, step, if_pos hb]⟩
    · refine absurd ?_ h
      simp only [scan, step, if_neg hb]
      exact List.mem_cons_self

theorem scan_last {low high value : Nat} {bs : List UInt8}
    (h : none ∉ scan (some ⟨1, low, high, value⟩) bs) :
    ∃ b rest, bs = b :: rest ∧ low ≤ b.toNat ∧ b.toNat ≤ high ∧
      scan (some ⟨1, low, high, value⟩) bs =
        some (Char.ofNat (value * 64 + (b.toNat - 0x80))) :: scan none rest :=
  scan_some_valid h

theorem scan_inner {owed low high value : Nat} {bs : List UInt8}
    (h : none ∉ scan (some ⟨owed + 2, low, high, value⟩) bs) :
    ∃ b rest, bs = b :: rest ∧ low ≤ b.toNat ∧ b.toNat ≤ high ∧
      scan (some ⟨owed + 2, low, high, value⟩) bs =
        scan (some ⟨owed + 1, 0x80, 0xbf, value * 64 + (b.toNat - 0x80)⟩) rest := by
  obtain ⟨b, rest, hbs, hlow, hhigh, hscan⟩ := scan_some_valid h
  refine ⟨b, rest, hbs, hlow, hhigh, ?_⟩
  have ho : owed + 2 ≠ 1 := by omega
  rw [hscan, continued, if_neg ho]
  rfl

-- A character begun by `b` and ended in `bs` is spelled by the bytes between.
def Spelled (b : UInt8) (bs : List UInt8) (os : List (Option Char)) : Prop :=
  ∃ c rest, os = some c :: scan none rest ∧ b :: bs = String.utf8EncodeChar c ++ rest

theorem spelled_two {b : UInt8} {bs : List UInt8} (hlow : 0xc2 ≤ b.toNat) (hhigh : b.toNat ≤ 0xdf)
    (h : none ∉ scan (some ⟨1, 0x80, 0xbf, b.toNat - 0xc0⟩) bs) :
    Spelled b bs (scan (some ⟨1, 0x80, 0xbf, b.toNat - 0xc0⟩) bs) := by
  obtain ⟨b1, rest, rfl, h1, h1', hscan⟩ := scan_last h
  refine ⟨_, rest, hscan, ?_⟩
  rw [encodeChar_ofNat (Or.inl (by omega)), if_neg (by omega), if_pos (by omega),
    ofNat_toNat (b := b) (by omega), ofNat_toNat (b := b1) (by omega)]
  rfl

theorem spelled_three {b : UInt8} {bs : List UInt8} {low high value : Nat} (hlow : 0xe0 ≤ b.toNat)
    (hhigh : b.toNat ≤ 0xef) (hl : 0x80 ≤ low) (hh : high ≤ 0xbf)
    (hlong : b.toNat = 0xe0 → 0xa0 ≤ low) (hsurrogate : b.toNat = 0xed → high ≤ 0x9f)
    (hvalue : value = b.toNat - 0xe0) (h : none ∉ scan (some ⟨2, low, high, value⟩) bs) :
    Spelled b bs (scan (some ⟨2, low, high, value⟩) bs) := by
  rw [hvalue] at h ⊢
  obtain ⟨b1, rest, rfl, h1, h1', hscan⟩ := scan_inner h
  rw [hscan] at h ⊢
  obtain ⟨b2, rest, rfl, h2, h2', hscan⟩ := scan_last h
  refine ⟨_, rest, hscan, ?_⟩
  have hvalid : ((b.toNat - 0xe0) * 64 + (b1.toNat - 0x80)) * 64 + (b2.toNat - 0x80) < 0xd800 ∨
      0xdfff < ((b.toNat - 0xe0) * 64 + (b1.toNat - 0x80)) * 64 + (b2.toNat - 0x80) ∧
        ((b.toNat - 0xe0) * 64 + (b1.toNat - 0x80)) * 64 + (b2.toNat - 0x80) < 0x110000 := by
    omega
  rw [encodeChar_ofNat hvalid, if_neg (by omega), if_neg (by omega), if_pos (by omega),
    ofNat_toNat (b := b) (by omega), ofNat_toNat (b := b1) (by omega),
    ofNat_toNat (b := b2) (by omega)]
  rfl

theorem spelled_four {b : UInt8} {bs : List UInt8} {low high value : Nat} (hlow : 0xf0 ≤ b.toNat)
    (hhigh : b.toNat ≤ 0xf4) (hl : 0x80 ≤ low) (hh : high ≤ 0xbf)
    (hlong : b.toNat = 0xf0 → 0x90 ≤ low) (hlast : b.toNat = 0xf4 → high ≤ 0x8f)
    (hvalue : value = b.toNat - 0xf0) (h : none ∉ scan (some ⟨3, low, high, value⟩) bs) :
    Spelled b bs (scan (some ⟨3, low, high, value⟩) bs) := by
  rw [hvalue] at h ⊢
  obtain ⟨b1, rest, rfl, h1, h1', hscan⟩ := scan_inner h
  rw [hscan] at h ⊢
  obtain ⟨b2, rest, rfl, h2, h2', hscan⟩ := scan_inner h
  rw [hscan] at h ⊢
  obtain ⟨b3, rest, rfl, h3, h3', hscan⟩ := scan_last h
  refine ⟨_, rest, hscan, ?_⟩
  rw [encodeChar_ofNat (Or.inr ⟨by omega, by omega⟩), if_neg (by omega), if_neg (by omega),
    if_neg (by omega), ofNat_toNat (b := b) (by omega), ofNat_toNat (b := b1) (by omega),
    ofNat_toNat (b := b2) (by omega), ofNat_toNat (b := b3) (by omega)]
  rfl

theorem scan_spelled {b : UInt8} {bs : List UInt8} (h : none ∉ scan none (b :: bs)) :
    Spelled b bs (scan none (b :: bs)) := by
  by_cases hascii : b.toNat < 0x80
  · refine ⟨Char.ofNat b.toNat, bs, scan_ascii bs hascii, ?_⟩
    rw [encodeChar_ofNat (Or.inl (by omega)), if_pos (by omega), UInt8.ofNat_toNat]
    rfl
  cases hlead : lead b.toNat with
  | char c =>
    refine absurd hlead ?_
    rw [lead, if_neg (by omega)]
    repeat' split
    all_goals exact fun e => by cases e
  | invalid =>
    refine absurd ?_ h
    simp only [scan, step, start, hlead]
    exact List.mem_cons_self
  | begins p =>
    have hscan : scan none (b :: bs) = scan (some p) bs := by
      simp only [scan, step, start, hlead, List.nil_append]
    rw [hscan] at h ⊢
    rw [lead, if_neg (by omega)] at hlead
    repeat' split at hlead
    all_goals cases hlead
    · exact spelled_two (by omega) (by omega) h
    · exact spelled_three (by omega) (by omega) (by omega) (by omega) (by omega) (by omega)
        (by omega) h
    · exact spelled_three (by omega) (by omega) (by omega) (by omega) (by omega) (by omega)
        (by omega) h
    · exact spelled_three (by omega) (by omega) (by omega) (by omega) (by omega) (by omega)
        (by omega) h
    · exact spelled_four (by omega) (by omega) (by omega) (by omega) (by omega) (by omega)
        (by omega) h
    · exact spelled_four (by omega) (by omega) (by omega) (by omega) (by omega) (by omega)
        (by omega) h
    · exact spelled_four (by omega) (by omega) (by omega) (by omega) (by omega) (by omega)
        (by omega) h

theorem encode_scan {n : Nat} {bytes : List UInt8} (hn : bytes.length ≤ n) (h : Valid bytes) :
    (fromUtf8Lossy bytes).flatMap String.utf8EncodeChar = bytes := by
  induction n generalizing bytes with
  | zero => rw [List.eq_nil_of_length_eq_zero (Nat.le_zero.mp hn)]; rfl
  | succ n ih =>
    cases bytes with
    | nil => rfl
    | cons b bs =>
      obtain ⟨c, rest, hscan, hspell⟩ := scan_spelled h
      have hrest : Valid rest := by
        rw [Valid, hscan, List.mem_cons, not_or] at h
        exact h.2
      have hlen := congrArg List.length hspell
      have hpos := List.length_pos_of_ne_nil (String.utf8EncodeChar_ne_nil (c := c))
      rw [List.length_cons, List.length_append] at hlen
      rw [List.length_cons] at hn
      rw [fromUtf8Lossy, hscan, List.map_cons, List.flatMap_cons, hspell]
      exact congrArg (String.utf8EncodeChar c ++ ·) (ih (by omega) hrest)

theorem encode_of_fromUtf8 {bytes : List UInt8} {cs : List Char} (h : fromUtf8 bytes = some cs) :
    encode (String.ofList cs) = bytes := by
  by_cases hv : Valid bytes
  · rw [fromUtf8_valid hv] at h
    cases h
    rw [encode, String.toList_ofList]
    exact encode_scan (Nat.le_refl _) hv
  · rw [fromUtf8_invalid hv] at h
    cases h

end Utf8
