import Mcproc.Lib.PosixShell

namespace PosixShell

def reservedWords : List (List Char) :=
  ["!", "\x7b", "\x7d", "case", "do", "done", "elif", "else", "esac", "fi", "for", "if", "in",
    "then", "until", "while"].map String.toList

def Word.isReserved (w : Word) : Bool :=
  w.all (fun l => l.reading ≠ .quoted) && reservedWords.contains w.text

def nameStart (c : Char) : Bool := c.isAlpha || c = '_'

def nameChar (c : Char) : Bool := c.isAlphanum || c = '_'

-- NAME=value, with neither the name nor the sign quoted.
def Word.isAssignment (w : Word) : Bool :=
  (w.head?.any fun l => nameStart l.char) &&
    (w.dropWhile fun l => l.reading = .plain && nameChar l.char).head? = some ⟨'=', .plain⟩

structure Shell where
  builtins : List (List Char)
  exec_mem : "exec".toList ∈ builtins

def posixShell : Shell where
  builtins :=
    ["break", ":", "continue", ".", "eval", "exec", "exit", "export", "readonly", "return", "set",
      "shift", "times", "trap", "unset", "alias", "bg", "cd", "command", "false", "fc", "fg",
      "getopts", "hash", "jobs", "kill", "newgrp", "pwd", "read", "true", "type", "ulimit", "umask",
      "unalias", "wait"].map String.toList
  exec_mem := by decide

-- A program may be run in the place of the shell. Where a pipeline, a list, a compound command or a
-- redirection begins, its tokens are kept as they are.
inductive Effect where
  | builtin (assignments argv : List Word)
  | program (assignments argv : List Word)
  | other (ts : List Token)
  deriving DecidableEq, Repr

def Word.isOption (w : Word) : Bool := w.text.head? = some '-' && w.text.length ≠ 1

-- What an `exec` puts in the place of the shell. Its operands come after its options, which a `--`
-- ends; what another option does is left to the shell, and the words are kept as they are.
def replacement : List Word → Option Effect
  | [] => none
  | w :: us =>
    if w.text = "exec".toList then
      match us with
      | [] => none
      | u :: vs =>
        if u.isOption = false then some (.program [] us)
        else if u.text ≠ "--".toList then some (.other ((w :: us).map .word))
        else if vs = [] then none
        else some (.program [] vs)
    else none

def simpleEffect (sh : Shell) (assignments argv : List Word) : Effect :=
  if argv.head?.all (sh.builtins.contains ·.text) then .builtin assignments argv
  else .program assignments argv

def commandEffects (sh : Shell) (ws : List Word) : List Effect :=
  if ws = [] then []
  else match replacement ws with
    | some e => [e]
    | none => [simpleEffect sh (ws.takeWhile Word.isAssignment) (ws.dropWhile Word.isAssignment)]

-- The words of the command that is being read come first; nothing follows where the shell has been
-- replaced.
def effects (sh : Shell) : List Word → List Token → List Effect
  | ws, [] => commandEffects sh ws
  | ws, .newline :: ts =>
    if (replacement ws).isSome then commandEffects sh ws
    else commandEffects sh ws ++ effects sh [] ts
  | ws, .operator s :: ts => [.other (ws.map .word ++ .operator s :: ts)]
  | ws, .word w :: ts =>
    if ws = [] ∧ w.isReserved then [.other (.word w :: ts)] else effects sh (ws ++ [w]) ts

def meaning (sh : Shell) (cs : List Char) : Option (List Effect) := (tokens cs).map (effects sh [])

def leadingWords : List Token → List Word × List Token
  | .word w :: ts => (w :: (leadingWords ts).1, (leadingWords ts).2)
  | ts => ([], ts)

def SingleProgram (sh : Shell) (ts : List Token) : Prop :=
  ∃ w ∈ (leadingWords ts).1.head?, w.isReserved = false ∧ w.isAssignment = false ∧
    w.isOption = false ∧ w.text ∉ sh.builtins ∧ ∀ t ∈ (leadingWords ts).2, t = .newline

example : meaning posixShell "A=1 npm start\ncd src".toList =
    some [.program [plain "A=1".toList] [plain "npm".toList, plain "start".toList],
      .builtin [] [plain "cd".toList, plain "src".toList]] := by
  decide

example : meaning posixShell "exec -- npm start \\".toList =
    some [.program [] [plain "npm".toList, plain "start".toList, quoted ['\\']]] := by
  decide

def State.prepend (us : List Token) (s : State) : State := { s with tokens := us ++ s.tokens }

theorem unquoted_prepend (us ts : List Token) (w : Option Word) (c : Char) :
    unquoted (us ++ ts) w c = (unquoted ts w c).map (State.prepend us) := by
  simp only [unquoted]
  repeat' split
  all_goals simp [State.prepend, flush]

theorem step_prepend (us : List Token) (s : State) (c : Char) :
    step (s.prepend us) c = (step s c).map (State.prepend us) := by
  obtain ⟨ts, mode⟩ := s
  cases mode with
  | blank => exact unquoted_prepend us ts none c
  | bare w => exact unquoted_prepend us ts (some w) c
  | operator s =>
    simp only [State.prepend, step]
    repeat' split
    · rfl
    · rfl
    · rw [List.append_assoc]
      exact unquoted_prepend us _ none c
  | escape w =>
    cases w <;> simp only [State.prepend, step] <;> split <;> rfl
  | comment | single | double | doubleEscape =>
    simp only [State.prepend, step]
    repeat' split
    all_goals simp [State.prepend]

theorem run_prepend (us : List Token) (s : State) (cs : List Char) :
    run (s.prepend us) cs = (run s cs).map (State.prepend us) := by
  induction cs generalizing s with
  | nil => rfl
  | cons c cs ih =>
    simp only [run, List.foldlM_cons, step_prepend] at ih ⊢
    cases h : step s c with
    | none => rfl
    | some s' => exact ih s'

theorem finish_prepend (us : List Token) (s : State) :
    finish (s.prepend us) = (finish s).map (us ++ ·) := by
  obtain ⟨ts, mode⟩ := s
  cases mode <;> simp [State.prepend, finish]

theorem tokens_prefix {pre : List Char} {us : List Token}
    (hpre : run ⟨[], .blank⟩ pre = some ⟨us, .blank⟩) (cs : List Char) :
    tokens (pre ++ cs) = (tokens cs).map (us ++ ·) := by
  have hstate : (⟨us, .blank⟩ : State) = State.prepend us ⟨[], .blank⟩ := by simp [State.prepend]
  rw [tokens, run_append hpre, hstate, run_prepend, tokens]
  cases run ⟨[], .blank⟩ cs with
  | none => rfl
  | some s => exact finish_prepend us s

variable {sh : Shell}

theorem commandEffects_single {ws : List Word} (h : ws ≠ []) :
    ∃ e, commandEffects sh ws = [e] := by
  rw [commandEffects, if_neg h]
  split
  · exact ⟨_, rfl⟩
  · exact ⟨_, rfl⟩

theorem replacement_exec {ws : List Word} {e : Effect} (h : replacement ws = some e) :
    ∃ w us, ws = w :: us ∧ w.text = "exec".toList := by
  cases ws with
  | nil => cases h
  | cons w us =>
    refine ⟨w, us, rfl, ?_⟩
    by_contra hw
    simp only [replacement, if_neg hw, reduceCtorEq] at h

theorem replacement_program {w : Word} {us ws : List Word}
    (h : replacement (w :: us) = some (.program [] ws)) : ws.length ≤ us.length := by
  simp only [replacement] at h
  split at h
  · split at h
    · cases h
    · repeat' split at h
      all_goals
        cases h
        try simp
  · cases h

theorem commandEffects_program {v : Word} {vs : List Word} :
    commandEffects sh (v :: vs) = [.program [] (v :: vs)] ↔
      v.isAssignment = false ∧ v.text ∉ sh.builtins := by
  rw [commandEffects, if_neg (List.cons_ne_nil v vs)]
  split
  · next e hr =>
    obtain ⟨w, us, hw, hexec⟩ := replacement_exec hr
    obtain ⟨rfl, rfl⟩ := List.cons.inj hw
    refine iff_of_false (fun h => ?_) fun h => h.2 (hexec ▸ sh.exec_mem)
    rw [List.singleton_inj.mp h] at hr
    exact absurd (replacement_program hr) (Nat.not_succ_le_self _)
  · cases ha : v.isAssignment with
    | true =>
      simp only [simpleEffect, List.takeWhile_cons, ha, if_true]
      split <;> simp
    | false => simp [simpleEffect, ha]

theorem effects_ne {ws : List Word} (h : ws ≠ []) (ts : List Token) : effects sh ws ts ≠ [] := by
  obtain ⟨e, he⟩ : ∃ e, commandEffects sh ws = [e] := commandEffects_single h
  induction ts generalizing ws e with
  | nil => simp [effects, he]
  | cons t ts ih =>
    cases t with
    | operator s => simp [effects]
    | newline =>
      simp only [effects]
      split <;> simp [he]
    | word w =>
      simp only [effects, h, false_and, if_false]
      have hne : ws ++ [w] ≠ [] := by simp
      obtain ⟨e', he'⟩ := commandEffects_single hne
      exact ih hne e' he'

theorem effects_nil_iff {ts : List Token} : effects sh [] ts = [] ↔ ∀ t ∈ ts, t = .newline := by
  induction ts with
  | nil => simp [effects, commandEffects]
  | cons t ts ih =>
    cases t with
    | newline => simp [effects, replacement, commandEffects, ih]
    | operator s => simp [effects]
    | word w =>
      simp only [effects, List.nil_append, List.forall_mem_cons, reduceCtorEq, false_and, iff_false]
      split
      · simp
      · exact effects_ne (by simp) ts

theorem effects_leading {ws : List Word} (h : ws ≠ []) (ts : List Token) :
    effects sh ws ts = effects sh (ws ++ (leadingWords ts).1) (leadingWords ts).2 := by
  induction ts generalizing ws with
  | nil => simp [leadingWords]
  | cons t ts ih =>
    cases t with
    | word w =>
      simp only [effects, h, false_and, if_false, leadingWords]
      rw [ih (by simp), List.append_assoc, List.singleton_append]
    | operator | newline => simp [leadingWords]

theorem leadingWords_rest (ts : List Token) : ∀ w us, (leadingWords ts).2 ≠ .word w :: us := by
  induction ts with
  | nil => exact fun _ _ => nofun
  | cons t ts ih =>
    cases t with
    | word w => exact ih
    | operator | newline => exact fun _ _ => nofun

theorem leadingWords_append (ts : List Token) :
    (leadingWords ts).1.map .word ++ (leadingWords ts).2 = ts := by
  induction ts with
  | nil => rfl
  | cons t ts ih =>
    cases t with
    | word w => exact congrArg (.word w :: ·) ih
    | operator | newline => rfl

theorem singleProgram_word {v : Word} {ts : List Token} :
    SingleProgram sh (.word v :: ts) ↔ v.isReserved = false ∧ v.isAssignment = false ∧
      v.isOption = false ∧ v.text ∉ sh.builtins ∧ ∀ t ∈ (leadingWords ts).2, t = .newline := by
  simp [SingleProgram, leadingWords]

theorem effects_program {v : Word} {vs : List Word} {ts : List Token}
    (hts : ∀ u us, ts ≠ .word u :: us) :
    effects sh (v :: vs) ts = [.program [] (v :: vs)] ↔
      v.isAssignment = false ∧ v.text ∉ sh.builtins ∧ ∀ t ∈ ts, t = .newline := by
  obtain ⟨e, he⟩ : ∃ e, commandEffects sh (v :: vs) = [e] :=
    commandEffects_single (List.cons_ne_nil v vs)
  have hprogram : commandEffects sh (v :: vs) = [.program [] (v :: vs)] ↔
      v.isAssignment = false ∧ v.text ∉ sh.builtins := commandEffects_program
  cases ts with
  | nil => simpa [effects] using hprogram
  | cons t ts =>
    cases t with
    | word u => exact absurd rfl (hts u ts)
    | operator s => simp [effects]
    | newline =>
      simp only [effects]
      split
      · next hr =>
        obtain ⟨e', hr⟩ := Option.isSome_iff_exists.mp hr
        obtain ⟨w, us, hw, hexec⟩ := replacement_exec hr
        obtain ⟨rfl, rfl⟩ := List.cons.inj hw
        have hbuiltin : v.text ∈ sh.builtins := hexec ▸ sh.exec_mem
        simp [hprogram, hbuiltin]
      · rw [← and_assoc, ← hprogram, he]
        simp [effects_nil_iff]

theorem effects_exec_leading {w v : Word} {ts : List Token} :
    effects sh [w] (.word v :: ts) =
      effects sh (w :: v :: (leadingWords ts).1) (leadingWords ts).2 := by
  rw [effects_leading (List.cons_ne_nil w [])]
  rfl

theorem effects_exec_operator {w v : Word} {ts r : List Token} {s : List Char}
    (hop : (leadingWords ts).2 = .operator s :: r) :
    effects sh [w] (.word v :: ts) ≠ effects sh [] (.word v :: ts) := by
  have hright : effects sh [v] ts = effects sh (v :: (leadingWords ts).1) (leadingWords ts).2 :=
    effects_leading (List.cons_ne_nil v []) ts
  have happend := leadingWords_append ts
  rw [effects_exec_leading]
  rw [hop] at happend hright ⊢
  intro h
  simp only [effects, hright, List.nil_append, true_and] at h
  -- Both effects keep the whole text, and one text is longer.
  split at h
  · have hlen := congrArg List.length (Effect.other.inj (List.singleton_inj.mp h))
    have htotal := congrArg List.length happend
    simp only [List.map_cons, List.cons_append, List.length_cons, List.length_append,
      List.length_map] at hlen htotal
    omega
  · have hlen := congrArg List.length (Effect.other.inj (List.singleton_inj.mp h))
    simp at hlen

theorem isOption_not_reserved {v : Word} (h : v.isOption = true) : v.isReserved = false := by
  have hhead : v.text.head? = some '-' := (Bool.and_eq_true _ _ ▸ h).1 |> of_decide_eq_true
  have hno : ∀ cs ∈ reservedWords, cs.head? ≠ some '-' := by decide
  cases hr : v.isReserved with
  | false => rfl
  | true =>
    simp only [Word.isReserved, Bool.and_eq_true, List.contains_iff_mem] at hr
    exact absurd hhead (hno _ hr.2)

theorem head_effects {ws : List Word} (h : ws ≠ []) {ts : List Token}
    (hts : ∀ u us, ts ≠ .word u :: us) (hop : ∀ s us, ts ≠ .operator s :: us) :
    (effects sh ws ts).head? = (commandEffects sh ws).head? := by
  obtain ⟨e, he⟩ : ∃ e, commandEffects sh ws = [e] := commandEffects_single h
  cases ts with
  | nil => rfl
  | cons t ts =>
    cases t with
    | word u => exact absurd rfl (hts u ts)
    | operator s => exact absurd rfl (hop s ts)
    | newline =>
      simp only [effects, he]
      split <;> rfl

def Effect.size : Effect → Nat
  | .builtin as ws | .program as ws => as.length + ws.length
  | .other ts => ts.length

theorem size_simpleEffect (p : Word → Bool) (ws : List Word) :
    (simpleEffect sh (ws.takeWhile p) (ws.dropWhile p)).size = ws.length := by
  have hsplit := congrArg List.length (List.takeWhile_append_dropWhile (p := p) (l := ws))
  rw [List.length_append] at hsplit
  simp only [simpleEffect]
  split <;> exact hsplit

theorem isOption_not_exec {v : Word} (h : v.isOption = true) : v.text ≠ "exec".toList := by
  intro hexec
  rw [Word.isOption, hexec] at h
  cases h

-- In front of an option an `exec` leaves more words than there were, or fewer.
theorem commandEffects_option {w v : Word} (hexec : w.text = "exec".toList)
    (hv : v.isOption = true) (ws : List Word) :
    (commandEffects sh (w :: v :: ws)).head? ≠ (commandEffects sh (v :: ws)).head? := by
  intro h
  have hright : ∃ e, commandEffects sh (v :: ws) = [e] ∧ e.size = ws.length + 1 := by
    have hnone : replacement (v :: ws) = none := by
      simp only [replacement, if_neg (isOption_not_exec hv)]
    refine ⟨_, by rw [commandEffects, if_neg (List.cons_ne_nil v ws), hnone], ?_⟩
    exact size_simpleEffect Word.isAssignment (v :: ws)
  obtain ⟨e, he, hsize⟩ := hright
  have hleft : ∃ e', commandEffects sh (w :: v :: ws) = [e'] ∧ e'.size ≠ ws.length + 1 := by
    rw [commandEffects, if_neg (List.cons_ne_nil w _)]
    simp only [replacement, hexec, if_true, hv, Bool.true_eq_false, if_false]
    split
    · next hr =>
      split at hr
      · cases hr
        exact ⟨_, rfl, by simp [Effect.size]⟩
      · split at hr
        · cases hr
        · cases hr
          exact ⟨_, rfl, by simp [Effect.size]⟩
    · exact ⟨_, rfl, by rw [size_simpleEffect]; simp⟩
  obtain ⟨e', he', hsize'⟩ := hleft
  rw [he, he'] at h
  exact hsize' (Option.some.inj h ▸ hsize)

theorem effects_exec_word {w v : Word} (hexec : w.text = "exec".toList) {ts : List Token} :
    effects sh [w] (.word v :: ts) = effects sh [] (.word v :: ts) ↔
      SingleProgram sh (.word v :: ts) := by
  have hright : effects sh [v] ts = effects sh (v :: (leadingWords ts).1) (leadingWords ts).2 :=
    effects_leading (List.cons_ne_nil v []) ts
  have hrest := leadingWords_rest ts
  rw [singleProgram_word]
  by_cases hop : ∃ s r, (leadingWords ts).2 = .operator s :: r
  · obtain ⟨s, r, hop⟩ := hop
    refine iff_of_false (effects_exec_operator hop) ?_
    rw [hop]
    simp
  have hno : ∀ s r, (leadingWords ts).2 ≠ .operator s :: r := fun s r h => hop ⟨s, r, h⟩
  rw [effects_exec_leading]
  simp only [effects, List.nil_append, true_and]
  cases hv : v.isOption with
  | true =>
    rw [if_neg (by simp [isOption_not_reserved hv]), hright]
    refine iff_of_false (fun h => ?_) (by simp)
    have hdiffer : (commandEffects sh (w :: v :: (leadingWords ts).1)).head? ≠
        (commandEffects sh (v :: (leadingWords ts).1)).head? := commandEffects_option hexec hv _
    refine hdiffer ?_
    rw [← head_effects (List.cons_ne_nil w _) hrest hno, h,
      head_effects (List.cons_ne_nil v _) hrest hno]
  | false =>
    have hreplaced : replacement (w :: v :: (leadingWords ts).1) =
        some (.program [] (v :: (leadingWords ts).1)) := by
      simp [replacement, hexec, hv]
    have hprogram : effects sh (w :: v :: (leadingWords ts).1) (leadingWords ts).2 =
        [.program [] (v :: (leadingWords ts).1)] := by
      rcases hts : (leadingWords ts).2 with _ | ⟨t, r⟩
      · simp [effects, commandEffects, hreplaced]
      · cases t with
        | word u => exact absurd hts (hrest u r)
        | operator s => exact absurd hts (hno s r)
        | newline => simp [effects, commandEffects, hreplaced]
    rw [hprogram]
    cases hres : v.isReserved with
    | true => simp
    | false =>
      rw [if_neg (by simp), hright, eq_comm, effects_program hrest]
      simp

theorem effects_exec {w : Word} (hexec : w.text = "exec".toList) (hres : w.isReserved = false)
    {ts : List Token} :
    effects sh [] (.word w :: ts) = effects sh [] ts ↔ SingleProgram sh ts := by
  have hword : effects sh [] (.word w :: ts) = effects sh [w] ts := by simp [effects, hres]
  rw [hword]
  cases ts with
  | nil => exact iff_of_false (effects_ne (by simp) []) (by simp [SingleProgram, leadingWords])
  | cons t ts =>
    cases t with
    | operator s => simp [effects, SingleProgram, leadingWords]
    | newline =>
      refine iff_of_false (fun h => ?_) (by simp [SingleProgram, leadingWords])
      simp [effects, replacement, commandEffects, hexec] at h
    | word v => exact effects_exec_word hexec

end PosixShell
