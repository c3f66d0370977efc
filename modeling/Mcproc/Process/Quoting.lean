import Mcproc.Lib.PosixShell
import Mcproc.Process.Launcher

namespace Quoting

open Launcher (replace replaceAll safeByte shellQuoteArg shellQuoteArgs shellCommand needsShell
  finalCommand launchCommand Toolchain)
open PosixShell

def execWord : Token := .word (plain "exec".toList)

-- After the shell's own tokens every word is one argument, and stands for itself.
def Delivers (own : List Token) (args : List String) (line : List Char) : Prop :=
  ∃ ws : List Word, tokens line = some (own ++ ws.map .word) ∧
    ws.map Word.text = args.map String.toList ∧ ∀ w ∈ ws, w.Literal

-- The template's own words are those it has around an empty command.
def HandsOn (t : Toolchain) (args : List String) (line : List Char) : Prop :=
  ∃ outer script₀ inner script,
    tokens ("exec " ++ (t.wrapCommand "").1).toList = some (outer ++ [.word script₀]) ∧
    tokens script₀.text = some inner ∧
    tokens line = some (outer ++ [.word script]) ∧ script.Literal ∧
    Delivers inner args script.text

def argWord (arg : String) : Word :=
  if arg ≠ "" ∧ arg.toList.all safeByte then plain arg.toList else quoted arg.toList

theorem argWord_text (arg : String) : (argWord arg).text = arg.toList := by
  simp only [argWord]
  split
  · exact plain_text _
  · exact quoted_text _

theorem argWord_literal (arg : String) : (argWord arg).Literal := by
  simp only [argWord]
  split
  · exact plain_literal _
  · exact quoted_literal _

theorem ordinary_of_safeByte {c : Char} (h : safeByte c = true) : Ordinary c := by
  intro hmem
  have hnone : (quoteChars ++ operatorChars ++ activeChars).all (!safeByte ·) = true := by decide
  have hunsafe := List.all_eq_true.mp hnone c hmem
  rw [h] at hunsafe
  cases hunsafe

theorem replaceAll_quote (cs : List Char) :
    replaceAll ['\''] ['\'', '\\', '\'', '\''] 0 cs = escapeQuotes cs := by
  induction cs with
  | nil => rfl
  | cons c cs ih =>
    by_cases hc : c = '\''
    · subst hc
      simp [replaceAll, escapeQuotes, ih]
    · simp [replaceAll, escapeQuotes, ih, hc, Ne.symm hc]

theorem replace_quote (s : String) :
    (replace s "'" "'\\''").toList = escapeQuotes s.toList := by
  rw [replace, String.toList_ofList]
  exact replaceAll_quote s.toList

theorem shellQuoteArg_spells (arg : String) : Spells (shellQuoteArg arg).toList (argWord arg) := by
  simp only [shellQuoteArg, argWord]
  split
  · next hsafe =>
    refine spells_ordinary (fun hn => hsafe.1 (String.toList_eq_nil_iff.mp hn)) fun c hc => ?_
    exact ordinary_of_safeByte (List.all_eq_true.mp hsafe.2 c hc)
  · have hquote : ("'" ++ replace arg "'" "'\\''" ++ "'").toList = singleQuote arg.toList := by
      rw [String.toList_append, String.toList_append, replace_quote]
      rfl
    rw [hquote]
    exact spells_singleQuote _

theorem spells_args (args : List String) :
    List.Forall₂ Spells (args.map fun a => (shellQuoteArg a).toList) (args.map argWord) := by
  induction args with
  | nil => exact .nil
  | cons a args ih => exact .cons (shellQuoteArg_spells a) ih

theorem delivers_args {pre : List Char} {own : List Token}
    (hpre : run ⟨[], .blank⟩ pre = some ⟨own, .blank⟩) (args : List String) :
    Delivers own args (pre ++ (shellQuoteArgs args).toList) := by
  refine ⟨args.map argWord, ?_, ?_, ?_⟩
  · have hjoin : (shellQuoteArgs args).toList =
        [' '].intercalate (args.map fun a => (shellQuoteArg a).toList) := by
      rw [shellQuoteArgs, String.toList_intercalate, List.map_map]
      rfl
    rw [tokens, run_append hpre, hjoin, run_words (spells_args args)]
  · simp [Function.comp_def, argWord_text]
  · intro w hw
    obtain ⟨a, -, rfl⟩ := List.mem_map.mp hw
    exact argWord_literal a

theorem replaceAll_first {c : Char} {pat pre : List Char} (h : c ∉ pre) (rep post : List Char) :
    replaceAll (c :: pat) rep 0 (pre ++ (c :: pat ++ post)) =
      pre ++ (rep ++ replaceAll (c :: pat) rep 0 post) := by
  have hskip : ∀ cs : List Char, replaceAll (c :: pat) rep cs.length (cs ++ post) =
      replaceAll (c :: pat) rep 0 post := by
    intro cs
    induction cs with
    | nil => rfl
    | cons d cs ih => exact ih
  induction pre with
  | nil =>
    have hp : (c :: pat).isPrefixOf (c :: (pat ++ post)) = true := by simp
    simp only [List.nil_append, List.cons_append, replaceAll, hp, if_true]
    exact congrArg (rep ++ ·) (hskip pat)
  | cons d pre ih =>
    obtain ⟨hd, hpre⟩ := not_or.mp (mt List.mem_cons.mpr h)
    simp only [List.cons_append, replaceAll]
    rw [if_neg (by simp [hd])]
    exact congrArg (d :: ·) (ih hpre)

-- A template is a front of its own words and one single-quoted script that the marker ends.
structure Shape (t : Toolchain) (front script : String) : Prop where
  template : t.commandTemplate = front ++ "'" ++ script ++ "\x7bcmd\x7d'"
  marker : '\x7b' ∉ (front ++ "'" ++ script).toList
  quotes : '\'' ∉ script.toList
  front : (run ⟨[], .blank⟩ ("exec " ++ front).toList).map State.mode = some .blank
  script : (run ⟨[], .blank⟩ script.toList).map State.mode = some .blank

theorem run_blank {cs : List Char} (h : (run ⟨[], .blank⟩ cs).map State.mode = some .blank) :
    ∃ ts, run ⟨[], .blank⟩ cs = some ⟨ts, .blank⟩ := by
  obtain ⟨⟨ts, mode⟩, hrun, rfl⟩ := Option.map_eq_some_iff.mp h
  exact ⟨ts, hrun⟩

theorem Shape.wrapCommand {t : Toolchain} {front script : String} (h : Shape t front script)
    (command : String) :
    (t.wrapCommand command).1.toList =
      front.toList ++ singleQuote (script.toList ++ command.toList) := by
  simp only [Toolchain.wrapCommand]
  have hsplit : t.commandTemplate.toList =
      (front ++ "'" ++ script).toList ++ ('\x7b' :: "cmd\x7d".toList ++ ['\'']) := by
    rw [h.template, String.toList_append]
    rfl
  rw [replace, String.toList_ofList, hsplit]
  refine (replaceAll_first h.marker (replace command "'" "'\\''").toList ['\'']).trans ?_
  rw [replace_quote, singleQuote, escapeQuotes_append, escapeQuotes_of_not_mem h.quotes]
  simp [String.toList_append, replaceAll]

theorem Shape.handsOn {t : Toolchain} {front script : String} (h : Shape t front script)
    (args : List String) :
    HandsOn t args ("exec " ++ (t.wrapCommand (shellQuoteArgs args)).1).toList := by
  obtain ⟨outer, houter⟩ := run_blank h.front
  obtain ⟨inner, hinner⟩ := run_blank h.script
  have hline : ∀ command : String,
      tokens ("exec " ++ (t.wrapCommand command).1).toList =
        some (outer ++ [.word (quoted (script.toList ++ command.toList))]) := by
    intro command
    rw [String.toList_append, h.wrapCommand, ← List.append_assoc, ← String.toList_append, tokens,
      run_append houter, spells_singleQuote _ outer]
    rfl
  refine ⟨outer, _, inner, _, hline "", ?_, hline _, quoted_literal _, ?_⟩
  · rw [quoted_text, tokens, run_append hinner]
    rfl
  · rw [quoted_text]
    exact delivers_args hinner args

example : tokens ("exec " ++ (Toolchain.mise.wrapCommand "").1).toList =
    some (["exec", "mise", "exec", "--", "sh", "-c", ""].map fun s => .word (plain s.toList)) := by
  decide

theorem shape_shTemplate (name : String) {command : String}
    (hm : '\x7b' ∉ (command ++ " sh -c ").toList)
    (hf : (run ⟨[], .blank⟩ ("exec " ++ (command ++ " sh -c ")).toList).map State.mode =
      some .blank) :
    Shape (Toolchain.shTemplate name command) (command ++ " sh -c ") "" where
  template := by
    rw [Toolchain.shTemplate, String.append_empty, String.append_assoc, String.append_assoc]
    rfl
  marker := by
    rw [String.append_empty, String.toList_append, List.mem_append]
    exact fun hb => hb.elim hm (by decide)
  quotes := by decide
  front := hf
  script := rfl

theorem shape_nvm :
    Shape Toolchain.nvm "bash -c " "source \"$NVM_DIR/nvm.sh\" && " := by
  refine ⟨?_, ?_, ?_, ?_, ?_⟩ <;> decide

theorem supported_shape {t : Toolchain} (h : t ∈ Toolchain.all) :
    ∃ front script, Shape t front script := by
  simp only [Toolchain.all, List.mem_cons, List.not_mem_nil, or_false] at h
  rcases h with rfl | rfl | rfl | rfl | rfl | rfl | rfl | rfl | rfl | rfl
  · exact ⟨_, _, shape_shTemplate "mise" (by decide) (by decide)⟩
  · exact ⟨_, _, shape_shTemplate "asdf" (by decide) (by decide)⟩
  · exact ⟨_, _, shape_nvm⟩
  · exact ⟨_, _, shape_shTemplate "rbenv" (by decide) (by decide)⟩
  · exact ⟨_, _, shape_shTemplate "pyenv" (by decide) (by decide)⟩
  · exact ⟨_, _, shape_shTemplate "nodenv" (by decide) (by decide)⟩
  · exact ⟨_, _, shape_shTemplate "jenv" (by decide) (by decide)⟩
  · exact ⟨_, _, shape_shTemplate "tfenv" (by decide) (by decide)⟩
  · exact ⟨_, _, shape_shTemplate "goenv" (by decide) (by decide)⟩
  · exact ⟨_, _, shape_shTemplate "rustup" (by decide) (by decide)⟩

theorem direct_arguments_delivered (r : StartRequest) (hargs : r.args ≠ [])
    (hsup : ∀ name ∈ r.toolchain, (Toolchain.parse name).isSome) :
    ∃ line, launchCommand r = .ok line ∧
      match r.toolchain.bind Toolchain.parse with
      | none =>
        Delivers (if needsShell (shellQuoteArgs r.args) then [] else [execWord]) r.args line.toList
      | some t => HandsOn t r.args line.toList := by
  have hcommand : launchCommand r = finalCommand r.toolchain (shellQuoteArgs r.args) := by
    simp only [launchCommand, shellCommand, if_pos hargs]
  rw [hcommand]
  cases htool : r.toolchain with
  | none =>
    refine ⟨_, rfl, ?_⟩
    simp only [Option.bind_none]
    split
    · have hnone : run ⟨[], .blank⟩ [] = some ⟨[], .blank⟩ := rfl
      exact delivers_args hnone r.args
    · rw [String.toList_append]
      exact delivers_args (by decide) r.args
  | some name =>
    obtain ⟨t, ht⟩ := Option.isSome_iff_exists.mp (hsup name (by rw [htool]; rfl))
    obtain ⟨front, script, hshape⟩ := supported_shape (List.mem_of_find?_eq_some ht)
    refine ⟨"exec " ++ (t.wrapCommand (shellQuoteArgs r.args)).1, ?_, ?_⟩
    · simp only [finalCommand, ht]
    · simp only [Option.bind_some, ht]
      exact hshape.handsOn r.args

def echoRequest : StartRequest where
  name := "web"
  project := "shop"
  cmd := none
  args := ["echo", "don't \x7bcmd\x7d", ""]
  cwd := none
  env := some []
  waitForLog := none
  waitTimeout := none
  toolchain := some "nvm"

theorem direct_arguments_delivered_echo :
    ∃ line, launchCommand echoRequest = .ok line ∧ HandsOn Toolchain.nvm echoRequest.args line.toList :=
  direct_arguments_delivered echoRequest (by decide) (by decide)

end Quoting
