import Mcproc.Lib.ShellCommands
import Mcproc.Process.Launcher

namespace ExecPrefix

open Launcher (finalCommand launchCommand needsShell)
open PosixShell

def commandRequest (r : StartRequest) (cmd : String) : StartRequest :=
  { r with cmd := some cmd, args := [], toolchain := none }

-- A line that is handed on as it is need not be readable.
def SameMeaning (sh : Shell) (cmd line : String) : Prop :=
  meaning sh line.toList = meaning sh cmd.toList ∧
    (line = cmd ∨ (meaning sh cmd.toList).isSome = true)

instance (sh : Shell) (cmd line : String) : Decidable (SameMeaning sh cmd line) :=
  inferInstanceAs (Decidable (_ ∧ _))

def KeepsMeaning (sh : Shell) (cmd : String) : Except McprocdError String → Prop
  | .ok line => SameMeaning sh cmd line
  | .error _ => False

theorem launchCommand_cmd (r : StartRequest) (cmd : String) :
    launchCommand (commandRequest r cmd) =
      .ok (if needsShell cmd then cmd else "exec " ++ cmd) := rfl

def execName : Word := plain "exec".toList

theorem meaning_exec (sh : Shell) (cmd : String) :
    meaning sh ("exec " ++ cmd).toList =
      (tokens cmd.toList).map fun ts => effects sh [] (.word execName :: ts) := by
  have hexec : run ⟨[], .blank⟩ "exec ".toList =
      some ⟨[.word execName], .blank⟩ := by decide
  rw [String.toList_append, meaning, tokens_prefix hexec, Option.map_map]
  rfl

theorem exec_keeps_meaning_iff (sh : Shell) (r : StartRequest) (cmd : String) :
    KeepsMeaning sh cmd (launchCommand (commandRequest r cmd)) ↔
      needsShell cmd = true ∨ ∃ ts, tokens cmd.toList = some ts ∧ SingleProgram sh ts := by
  rw [launchCommand_cmd]
  cases hn : needsShell cmd with
  | true => simp [KeepsMeaning, SameMeaning]
  | false =>
    have hsome (ts : List Token) : effects sh [] (.word execName :: ts) =
        effects sh [] ts ↔ SingleProgram sh ts :=
      effects_exec (plain_text _) (by decide)
    rw [if_neg Bool.false_ne_true, KeepsMeaning, SameMeaning, meaning_exec, meaning]
    cases tokens cmd.toList with
    | none => simp
    | some ts => simp [hsome]

theorem exec_loses_assignment :
    ¬ ∀ (sh : Shell) (r : StartRequest) (cmd : String),
      KeepsMeaning sh cmd (launchCommand (commandRequest r cmd)) := by
  intro hall
  have hsame := hall posixShell ⟨"web", "app", none, [], none, none, none, none, none⟩
    "NODE_ENV=development npm start"
  have hline : needsShell "NODE_ENV=development npm start" = false := by decide
  rw [launchCommand_cmd, hline] at hsame
  revert hsame
  unfold KeepsMeaning
  decide

end ExecPrefix
