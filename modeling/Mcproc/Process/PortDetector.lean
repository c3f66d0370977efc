import Mcproc.Lib.Worklist
import Mcproc.Process.StopAnswers

namespace PortDetector

open StopAnswers (parseU32 splitWhitespace)

abbrev Pid := Fin (2 ^ 32)

structure Output where
  success : Bool
  stdout : List UInt8
  deriving DecidableEq, Repr

-- A command that could not be run has no output.
abbrev Command := Pid → Option Output

def stdoutLines (out : Output) : List (List Char) :=
  if out.success then Lines.lines '\n' (Utf8.fromUtf8Lossy out.stdout) else []

def parsePid (cs : List Char) : Option Pid :=
  (parseU32 cs).bind fun n => if h : n < 2 ^ 32 then some ⟨n, h⟩ else none

def childPids : Option Output → List Pid
  | none => []
  | some out => (stdoutLines out).filterMap fun line => parsePid (Validation.trim line)

def getProcessTree (pgrep : Command) (pid : Pid) : List Pid :=
  (Worklist.scan (fun parent => childPids (pgrep parent)) (Worklist.Found.root pid) 0).list

-- The text before the first occurrence of a pattern, and the text after it.
def cut (pat : List Char) : List Char → List Char × Option (List Char)
  | [] => ([], none)
  | c :: cs =>
    if pat.isPrefixOf (c :: cs) then ([], some ((c :: cs).drop pat.length))
    else (c :: (cut pat cs).1, (cut pat cs).2)

def secondPart (pat name : List Char) : Option (List Char) :=
  (cut pat name).2.map fun rest => (cut pat rest).1

def extractPort (name : List Char) : Option (List Char) :=
  if (cut [']', ':'] name).2.isSome then secondPart [']', ':'] name else secondPart [':'] name

def linePort (line : List Char) : Option Nat :=
  let parts := splitWhitespace line
  if parts.length < 9 then none else ((parts[8]?).bind extractPort).bind parseU32

def listedPorts : Option Output → List Nat
  | none => []
  | some out => ((stdoutLines out).drop 1).filterMap linePort

def detectPorts (pgrep lsof : Command) (pid : Pid) : List Nat :=
  Distinct.extend [] ((getProcessTree pgrep pid).flatMap fun p => listedPorts (lsof p))

example : extractPort "*:3000".toList = some "3000".toList := by decide

example : extractPort "[::]:3000".toList = some "3000".toList := by decide

theorem parseU32_lt {cs : List Char} {n : Nat} (h : parseU32 cs = some n) : n < 2 ^ 32 := by
  unfold parseU32 at h
  dsimp only at h
  generalize (if cs.head? = some '+' then cs.tail else cs) = digits at h
  obtain ⟨hd, hn⟩ := Option.ite_none_right_eq_some.mp h
  exact Option.some.inj hn ▸ hd.2.2

theorem parsePid_val (cs : List Char) : (parsePid cs).map Fin.val = parseU32 cs := by
  simp only [parsePid]
  cases h : parseU32 cs with
  | none => rfl
  | some n => rw [Option.bind_some, dif_pos (parseU32_lt h), Option.map_some]

-- One line of a successful answer names the child.
def Child (pgrep : Command) (parent child : Pid) : Prop :=
  ∃ out, pgrep parent = some out ∧ out.success = true ∧
    ∃ line ∈ Lines.lines '\n' (Utf8.fromUtf8Lossy out.stdout),
      parseU32 (Validation.trim line) = some child.val

theorem parsePid_eq_some {cs : List Char} {p : Pid} : parsePid cs = some p ↔
    parseU32 cs = some p.val := by
  rw [← parsePid_val]
  cases parsePid cs with
  | none => simp
  | some q => simp [Fin.ext_iff]

theorem mem_stdoutLines {out : Output} {line : List Char} : line ∈ stdoutLines out ↔
    out.success = true ∧ line ∈ Lines.lines '\n' (Utf8.fromUtf8Lossy out.stdout) := by
  simp only [stdoutLines]
  split
  · next h => exact ⟨fun hl => ⟨h, hl⟩, And.right⟩
  · next h => exact ⟨fun hl => absurd hl List.not_mem_nil, fun hl => absurd hl.1 h⟩

theorem mem_childPids {pgrep : Command} {parent child : Pid} :
    child ∈ childPids (pgrep parent) ↔ Child pgrep parent child := by
  cases h : pgrep parent with
  | none => simp [childPids, Child, h]
  | some out => simp [childPids, Child, h, mem_stdoutLines, parsePid_eq_some, and_assoc]

theorem reaches_iff {pgrep : Command} {pid p : Pid} :
    Worklist.Reaches (fun parent => childPids (pgrep parent)) pid p ↔
      Relation.ReflTransGen (Child pgrep) pid p := by
  have hedge : Worklist.Edge (fun parent => childPids (pgrep parent)) = Child pgrep :=
    funext fun _ => funext fun _ => propext mem_childPids
  rw [Worklist.Reaches, hedge]

theorem mem_getProcessTree {pgrep : Command} {pid p : Pid} :
    p ∈ getProcessTree pgrep pid ↔ Relation.ReflTransGen (Child pgrep) pid p :=
  Worklist.mem_scan_root.trans reaches_iff

theorem nodup_getProcessTree (pgrep : Command) (pid : Pid) : (getProcessTree pgrep pid).Nodup :=
  (Worklist.scan _ (Worklist.Found.root pid) 0).nodup

theorem process_tree_exact (pgrep : Command) (pid : Pid) :
    (getProcessTree pgrep pid).Nodup ∧ (getProcessTree pgrep pid).head? = some pid ∧
      ∀ p, p ∈ getProcessTree pgrep pid ↔ Relation.ReflTransGen (Child pgrep) pid p :=
  ⟨nodup_getProcessTree pgrep pid, Worklist.head_scan_root pid, fun _ => mem_getProcessTree⟩

theorem mem_detectPorts {pgrep lsof : Command} {pid : Pid} {port : Nat} :
    port ∈ detectPorts pgrep lsof pid ↔
      ∃ p, Relation.ReflTransGen (Child pgrep) pid p ∧ port ∈ listedPorts (lsof p) := by
  simp only [detectPorts, Distinct.mem_extend, List.not_mem_nil, false_or, List.mem_flatMap,
    mem_getProcessTree]

theorem nodup_detectPorts (pgrep lsof : Command) (pid : Pid) :
    (detectPorts pgrep lsof pid).Nodup :=
  Distinct.nodup_extend List.nodup_nil _

end PortDetector
