import Mathlib.Data.List.Basic

namespace PosixShell

-- A character of a word stands for itself, bare or quoted, or takes part in an expansion or a
-- pattern.
inductive Reading where
  | plain
  | quoted
  | active
  deriving DecidableEq, Repr

structure Letter where
  char : Char
  reading : Reading
  deriving DecidableEq, Repr

abbrev Word := List Letter

inductive Token where
  | word (w : Word)
  | operator (s : List Char)
  | newline
  deriving DecidableEq, Repr

inductive Mode where
  | blank
  | comment
  | operator (s : List Char)
  | bare (w : Word)
  | escape (w : Option Word)
  | single (w : Word)
  | double (w : Word)
  | doubleEscape (w : Word)
  deriving DecidableEq, Repr

structure State where
  tokens : List Token
  mode : Mode
  deriving DecidableEq, Repr

def quoteChars : List Char := ['\\', '\'', '"', '`', '#', ' ', '\t', '\n']

def operatorChars : List Char := ['|', '&', ';', '<', '>', '(', ')']

def activeChars : List Char := ['$', '*', '?', '[', '~', '{', '}']

def longOperators : List (List Char) :=
  [['&', '&'], ['|', '|'], [';', ';'], [';', '&'], ['<', '&'], ['>', '&'], ['<', '>'], ['>', '>'],
   ['>', '|']]

-- Substitutions, `$'...'` and here-documents are not read: where one begins, reading fails.
def substitutes (w : Word) (openers : List Char) (c : Char) : Bool :=
  c = '`' || w.getLast? = some ⟨'$', .active⟩ && openers.contains c

def flush (ts : List Token) (w : Option Word) : List Token := ts ++ (w.map Token.word).toList

def bareReading (c : Char) : Reading := if c ∈ activeChars then .active else .plain

def unquoted (ts : List Token) (w : Option Word) (c : Char) : Option State :=
  if substitutes (w.getD []) ['(', '{', '\'', '"'] c then none
  else if c = '\\' then some ⟨ts, .escape w⟩
  else if c = '\'' then some ⟨ts, .single (w.getD [])⟩
  else if c = '"' then some ⟨ts, .double (w.getD [])⟩
  else if c = ' ' ∨ c = '\t' then some ⟨flush ts w, .blank⟩
  else if c = '\n' then some ⟨flush ts w ++ [.newline], .blank⟩
  else if c ∈ operatorChars then some ⟨flush ts w, .operator [c]⟩
  else if c = '#' ∧ w = none then some ⟨ts, .comment⟩
  else some ⟨ts, .bare (w.getD [] ++ [⟨c, bareReading c⟩])⟩

def step : State → Char → Option State
  | ⟨ts, .blank⟩, c => unquoted ts none c
  | ⟨ts, .comment⟩, c =>
    if c = '\n' then some ⟨ts ++ [.newline], .blank⟩ else some ⟨ts, .comment⟩
  | ⟨ts, .operator s⟩, c =>
    if s = ['<'] ∧ c = '<' then none
    else if s ++ [c] ∈ longOperators then some ⟨ts, .operator (s ++ [c])⟩
    else unquoted (ts ++ [.operator s]) none c
  | ⟨ts, .bare w⟩, c => unquoted ts (some w) c
  | ⟨ts, .escape none⟩, c =>
    if c = '\n' then some ⟨ts, .blank⟩ else some ⟨ts, .bare [⟨c, .quoted⟩]⟩
  | ⟨ts, .escape (some w)⟩, c =>
    if c = '\n' then some ⟨ts, .bare w⟩ else some ⟨ts, .bare (w ++ [⟨c, .quoted⟩])⟩
  | ⟨ts, .single w⟩, c =>
    if c = '\'' then some ⟨ts, .bare w⟩ else some ⟨ts, .single (w ++ [⟨c, .quoted⟩])⟩
  | ⟨ts, .double w⟩, c =>
    if substitutes w ['(', '{'] c then none
    else if c = '"' then some ⟨ts, .bare w⟩
    else if c = '\\' then some ⟨ts, .doubleEscape w⟩
    else some ⟨ts, .double (w ++ [⟨c, if c = '$' then .active else .quoted⟩])⟩
  | ⟨ts, .doubleEscape w⟩, c =>
    if c = '\n' then some ⟨ts, .double w⟩
    else if c ∈ ['$', '`', '"', '\\'] then some ⟨ts, .double (w ++ [⟨c, .quoted⟩])⟩
    else some ⟨ts, .double (w ++ [⟨'\\', .quoted⟩, ⟨c, .quoted⟩])⟩

def run (s : State) (cs : List Char) : Option State := cs.foldlM step s

-- A backslash that nothing follows stands for itself.
def finish : State → Option (List Token)
  | ⟨ts, .blank⟩ | ⟨ts, .comment⟩ => some ts
  | ⟨ts, .operator s⟩ => some (ts ++ [.operator s])
  | ⟨ts, .bare w⟩ => some (ts ++ [.word w])
  | ⟨ts, .escape w⟩ => some (ts ++ [.word (w.getD [] ++ [⟨'\\', .quoted⟩])])
  | _ => none

def tokens (cs : List Char) : Option (List Token) := (run ⟨[], .blank⟩ cs).bind finish

def Word.text (w : Word) : List Char := w.map Letter.char

def Word.Literal (w : Word) : Prop := ∀ l ∈ w, l.reading ≠ .active

def plain (cs : List Char) : Word := cs.map (⟨·, .plain⟩)

def quoted (cs : List Char) : Word := cs.map (⟨·, .quoted⟩)

def Ordinary (c : Char) : Prop := c ∉ quoteChars ++ operatorChars ++ activeChars

def escapeQuotes (cs : List Char) : List Char :=
  cs.flatMap fun c => if c = '\'' then ['\'', '\\', '\'', '\''] else [c]

def singleQuote (cs : List Char) : List Char := '\'' :: (escapeQuotes cs ++ ['\''])

theorem run_append {s s' : State} {cs : List Char} (h : run s cs = some s') (ds : List Char) :
    run s (cs ++ ds) = run s' ds := by
  simp only [run] at h ⊢
  rw [List.foldlM_append, h]
  rfl

theorem run_cons {s s' : State} {c : Char} (h : step s c = some s') (cs : List Char) :
    run s (c :: cs) = run s' cs := by
  simp only [run, List.foldlM_cons, h]
  rfl

theorem unquoted_ordinary {c : Char} (hc : Ordinary c) (ts : List Token) (w : Option Word) :
    unquoted ts w c = some ⟨ts, .bare (w.getD [] ++ [⟨c, .plain⟩])⟩ := by
  simp only [Ordinary, quoteChars, operatorChars, activeChars, List.cons_append, List.nil_append,
    List.mem_cons, not_or] at hc
  simp [unquoted, substitutes, bareReading, operatorChars, activeChars, hc]

theorem run_plain {cs : List Char} (hc : ∀ c ∈ cs, Ordinary c) (ts : List Token) (w : Word) :
    run ⟨ts, .bare w⟩ cs = some ⟨ts, .bare (w ++ plain cs)⟩ := by
  induction cs generalizing w with
  | nil => simp [run, plain]
  | cons c cs ih =>
    have hstep : step ⟨ts, .bare w⟩ c = some ⟨ts, .bare (w ++ [⟨c, .plain⟩])⟩ :=
      unquoted_ordinary (hc c List.mem_cons_self) ts (some w)
    rw [run_cons hstep, ih fun d hd => hc d (List.mem_cons_of_mem c hd)]
    simp [plain]

theorem run_escapeQuotes (cs : List Char) (ts : List Token) (w : Word) :
    run ⟨ts, .single w⟩ (escapeQuotes cs) = some ⟨ts, .single (w ++ quoted cs)⟩ := by
  induction cs generalizing w with
  | nil => simp [run, escapeQuotes, quoted]
  | cons c cs ih =>
    have hletter : run ⟨ts, .single w⟩ (escapeQuotes [c]) =
        some ⟨ts, .single (w ++ [⟨c, .quoted⟩])⟩ := by
      by_cases hc : c = '\''
      · subst hc
        simp [run, escapeQuotes, step, unquoted, substitutes]
      · simp [run, escapeQuotes, step, hc]
    have hsplit : escapeQuotes (c :: cs) = escapeQuotes [c] ++ escapeQuotes cs := by
      simp [escapeQuotes]
    rw [hsplit, run_append hletter, ih]
    simp [quoted]

-- Where a word may begin, the text is read as this one word.
def Spells (text : List Char) (w : Word) : Prop :=
  ∀ ts, run ⟨ts, .blank⟩ text = some ⟨ts, .bare w⟩

theorem spells_ordinary {cs : List Char} (hne : cs ≠ []) (hc : ∀ c ∈ cs, Ordinary c) :
    Spells cs (plain cs) := by
  intro ts
  cases cs with
  | nil => exact absurd rfl hne
  | cons c cs =>
    have hstep : step ⟨ts, .blank⟩ c = some ⟨ts, .bare [⟨c, .plain⟩]⟩ :=
      unquoted_ordinary (hc c List.mem_cons_self) ts none
    rw [run_cons hstep, run_plain fun d hd => hc d (List.mem_cons_of_mem c hd)]
    rfl

theorem spells_singleQuote (cs : List Char) : Spells (singleQuote cs) (quoted cs) := by
  intro ts
  have hopen : step ⟨ts, .blank⟩ '\'' = some ⟨ts, .single []⟩ := rfl
  rw [singleQuote, run_cons hopen, run_append (run_escapeQuotes cs ts [])]
  rfl

theorem run_words {texts : List (List Char)} {ws : List Word}
    (h : List.Forall₂ Spells texts ws) (ts : List Token) :
    (run ⟨ts, .blank⟩ ([' '].intercalate texts)).bind finish = some (ts ++ ws.map .word) := by
  induction h generalizing ts with
  | nil => simp [run, finish, List.intercalate]
  | @cons text w texts ws hw hrest ih =>
    cases hrest with
    | nil =>
      simp only [List.intercalate, List.intersperse_singleton, List.flatten_singleton]
      rw [hw ts]
      rfl
    | @cons text' w' texts ws hw' hrest =>
      have hblank : step ⟨ts, .bare w⟩ ' ' = some ⟨ts ++ [.word w], .blank⟩ := by
        simp [step, unquoted, substitutes, flush]
      have hjoin : [' '].intercalate (text :: text' :: texts) =
          text ++ ' ' :: [' '].intercalate (text' :: texts) := by
        simp [List.intercalate, List.intersperse]
      rw [hjoin, run_append (hw ts), run_cons hblank, ih]
      simp

example : tokens "a 'b #'\\''$' && c".toList =
    some [.word (plain ['a']), .word (quoted "b #'$".toList), .operator ['&', '&'],
      .word (plain ['c'])] := by
  decide

theorem plain_text (cs : List Char) : Word.text (plain cs) = cs := by
  simp [Word.text, plain, Function.comp_def]

theorem quoted_text (cs : List Char) : Word.text (quoted cs) = cs := by
  simp [Word.text, quoted, Function.comp_def]

theorem plain_literal (cs : List Char) : Word.Literal (plain cs) := by
  simp [Word.Literal, plain]

theorem quoted_literal (cs : List Char) : Word.Literal (quoted cs) := by
  simp [Word.Literal, quoted]

theorem escapeQuotes_append (cs ds : List Char) :
    escapeQuotes (cs ++ ds) = escapeQuotes cs ++ escapeQuotes ds := List.flatMap_append

theorem escapeQuotes_of_not_mem {cs : List Char} (h : '\'' ∉ cs) : escapeQuotes cs = cs := by
  induction cs with
  | nil => rfl
  | cons c cs ih =>
    obtain ⟨hc, hcs⟩ := not_or.mp (mt List.mem_cons.mpr h)
    simp only [escapeQuotes, List.flatMap_cons, if_neg (Ne.symm hc)]
    exact congrArg (c :: ·) (ih hcs)

end PosixShell
