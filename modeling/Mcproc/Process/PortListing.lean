import Mcproc.Lib.Words
import Mcproc.Process.PortDetector

namespace PortDetector

open StopAnswers (parseU32 splitWhitespace digitsValue)

def decimal (n : Nat) : List Char := Nat.toDigits 10 n

structure Cell where
  text : List Char
  nonempty : text ≠ []
  solid : ∀ c ∈ text, Validation.isWhitespace c = false

structure Host where
  bracketed : Bool
  text : List Char
  solid : ∀ c ∈ text, Validation.isWhitespace c = false
  closed : ']' ∉ text
  plain : bracketed = false → ':' ∉ text

def Host.print (h : Host) : List Char :=
  if h.bracketed then '[' :: h.text ++ [']'] else h.text

-- A row of lsof: COMMAND, then PID USER FD TYPE DEVICE SIZE/OFF NODE, then NAME and the state.
structure Row where
  command : Cell
  columns : List Cell
  seven : columns.length = 7
  host : Host
  port : Nat
  inRange : port < 2 ^ 16
  pad : Nat → Nat

namespace Row

def name (r : Row) : List Char := r.host.print ++ ':' :: decimal r.port

def after (r : Row) : List (List Char) :=
  r.columns.map Cell.text ++ [r.name, "(LISTEN)".toList]

def print (r : Row) : List Char :=
  Words.spaced ' ' r.command.text (r.after.zipIdx.map fun w => (r.pad w.2, w.1))

end Row

def listing (header : List Char) (rows : List Row) : List UInt8 :=
  Utf8.encode (String.ofList ((header :: rows.map Row.print).flatMap (· ++ ['\n'])))

-- lsof fails where it has nothing to list, and may fail besides.
def Lists (lsof : Command) (sockets : Pid → List Row) : Prop :=
  ∀ p out, lsof p = some out → out.success = true →
    ∃ header, '\n' ∉ header ∧ out.stdout = listing header (sockets p)

def Answers (lsof : Command) (p : Pid) : Prop := ∃ out, lsof p = some out ∧ out.success = true

def updateDetectedPort (ports : List Nat) : Option Nat := ports.head?.map (· % 2 ^ 16)

theorem decimal_digit {n : Nat} {c : Char} (h : c ∈ decimal n) : c.isDigit = true :=
  Nat.isDigit_of_mem_toDigits (by decide) (by decide) h

theorem digitsValue_decimal (n : Nat) : digitsValue (decimal n) = n := by
  have hfold : digitsValue (decimal n) = Nat.ofDigitChars 10 (decimal n) 0 := by
    simp only [digitsValue, Nat.ofDigitChars_eq_foldl, Nat.mul_comm]
  rw [hfold]
  exact Nat.ofDigitChars_ten_toDigits

theorem parseU32_decimal {n : Nat} (h : n < 2 ^ 32) : parseU32 (decimal n) = some n := by
  have hne : decimal n ≠ [] := Nat.toDigits_ne_nil
  have hplus : (decimal n).head? ≠ some '+' := fun hp =>
    absurd (decimal_digit (List.mem_of_head? hp)) (by decide)
  have hall : (decimal n).all Char.isDigit = true :=
    List.all_eq_true.mpr fun c hc => decimal_digit hc
  simp only [parseU32, if_neg hplus, digitsValue_decimal]
  exact if_pos ⟨hne, hall, h⟩

theorem not_mem_decimal {n : Nat} {c : Char} (hc : c.isDigit = false) : c ∉ decimal n := fun h => by
  rw [decimal_digit h] at hc
  cases hc

section

variable {c : Char} {pat : List Char}

theorem cut_of_not_mem {s : List Char} (h : c ∉ s) : cut (c :: pat) s = (s, none) := by
  induction s with
  | nil => rfl
  | cons d s ih =>
    have hne : (c == d) = false := beq_eq_false_iff_ne.mpr fun e => h (e ▸ List.mem_cons_self)
    simp only [cut, List.isPrefixOf, hne, Bool.false_and, Bool.false_eq_true, if_false,
      ih fun hs => h (List.mem_cons_of_mem d hs)]

theorem cut_append {s : List Char} (rest : List Char) (h : c ∉ s) :
    cut (c :: pat) (s ++ c :: pat ++ rest) = (s, some rest) := by
  induction s with
  | nil =>
    have hpat : (c :: pat).isPrefixOf (c :: pat ++ rest) = true :=
      List.isPrefixOf_iff_prefix.mpr (List.prefix_append ..)
    rw [List.nil_append, List.cons_append] at *
    simp [cut, hpat]
  | cons d s ih =>
    have hne : (c == d) = false := beq_eq_false_iff_ne.mpr fun e => h (e ▸ List.mem_cons_self)
    simp only [List.cons_append] at *
    simp only [cut, List.isPrefixOf, hne, Bool.false_and, Bool.false_eq_true, if_false,
      ih fun hs => h (List.mem_cons_of_mem d hs)]

end

theorem extractPort_name (r : Row) : extractPort r.name = some (decimal r.port) := by
  have hcolon : ':' ∉ decimal r.port := not_mem_decimal (by decide)
  have hclose : ']' ∉ decimal r.port := not_mem_decimal (by decide)
  cases hb : r.host.bracketed with
  | true =>
    have hname : r.name = '[' :: r.host.text ++ [']', ':'] ++ decimal r.port := by
      simp [Row.name, Host.print, hb]
    have hopen : ']' ∉ '[' :: r.host.text := by
      simpa using r.host.closed
    simp only [extractPort, secondPart, hname, cut_append _ hopen]
    simp [cut_of_not_mem hclose]
  | false =>
    have hname : r.name = r.host.text ++ [':'] ++ decimal r.port := by
      simp [Row.name, Host.print, hb]
    have hplain : ']' ∉ r.name := by
      simp [hname, r.host.closed, hclose]
    simp only [extractPort, secondPart, cut_of_not_mem hplain]
    simp only [hname, cut_append _ (r.host.plain hb)]
    simp [cut_of_not_mem hcolon]

theorem solid_of_all {text : List Char}
    (h : text.all (fun c => !Validation.isWhitespace c) = true) :
    ∀ c ∈ text, Validation.isWhitespace c = false := by
  simpa using h

theorem blank_space : Validation.isWhitespace ' ' = true := by decide

theorem solid_decimal (n : Nat) : ∀ c ∈ decimal n, Validation.isWhitespace c = false := by
  intro c hc
  have hd := decimal_digit hc
  have hrange : 48 ≤ c.toNat ∧ c.toNat ≤ 57 := by
    simpa [Char.isDigit, UInt32.le_iff_toNat_le] using hd
  simp [Validation.isWhitespace]
  omega

namespace Row

variable (r : Row)

theorem solid_name : Words.IsWord Validation.isWhitespace r.name := by
  refine ⟨by simp [name], fun c hc => ?_⟩
  rcases List.mem_append.mp hc with hc | hc
  · simp only [Host.print] at hc
    split at hc
    · rcases List.mem_append.mp hc with hc | hc
      · rcases List.mem_cons.mp hc with rfl | hc
        · decide
        · exact r.host.solid c hc
      · rw [List.mem_singleton.mp hc]
        decide
    · exact r.host.solid c hc
  · rcases List.mem_cons.mp hc with rfl | hc
    · decide
    · exact solid_decimal r.port c hc

theorem solid_after : ∀ w ∈ r.after, Words.IsWord Validation.isWhitespace w := by
  intro w hw
  rcases List.mem_append.mp hw with hw | hw
  · obtain ⟨cell, -, rfl⟩ := List.mem_map.mp hw
    exact ⟨cell.nonempty, cell.solid⟩
  · rcases List.mem_pair.mp hw with rfl | rfl
    · exact r.solid_name
    · exact ⟨by decide, solid_of_all (by decide)⟩

theorem words_print : splitWhitespace (r.print ++ ['\n']) = r.command.text :: r.after := by
  have hrest : ∀ w ∈ r.after.zipIdx.map fun w => (r.pad w.2, w.1),
      Words.IsWord Validation.isWhitespace w.2 := by
    intro w hw
    obtain ⟨v, hv, rfl⟩ := List.mem_map.mp hw
    exact r.solid_after v.1 (List.fst_mem_of_mem_zipIdx hv)
  calc splitWhitespace (r.print ++ ['\n'])
      = Words.words Validation.isWhitespace (r.print ++ ['\n']) := rfl
    _ = Words.words Validation.isWhitespace r.print := Words.words_snoc_blank (by decide) _
    _ = r.command.text :: (r.after.zipIdx.map fun w => (r.pad w.2, w.1)).map Prod.snd :=
        Words.words_spaced blank_space ⟨r.command.nonempty, r.command.solid⟩ hrest
    _ = r.command.text :: r.after := by simp [Function.comp_def]

theorem linePort_print : linePort (r.print ++ ['\n']) = some r.port := by
  have hlength : ¬ (r.command.text :: r.after).length < 9 := by
    simp [after, r.seven]
  have hname : (r.command.text :: r.after)[8]? = some r.name := by
    simp [after, r.seven]
  simp only [linePort, words_print, if_neg hlength, hname, Option.bind_some, extractPort_name]
  exact parseU32_decimal (Nat.lt_trans r.inRange (by decide))

theorem newline_not_mem_print : '\n' ∉ r.print := by
  have word {w : List Char} (hw : ∀ c ∈ w, Validation.isWhitespace c = false) : '\n' ∉ w :=
    fun h => absurd (hw _ h) (by decide)
  refine Words.not_mem_spaced (by decide) (word r.command.solid) fun w hw => ?_
  obtain ⟨v, hv, rfl⟩ := List.mem_map.mp hw
  exact word (r.solid_after v.1 (List.fst_mem_of_mem_zipIdx hv)).2

end Row

theorem listedPorts_listing {header : List Char} (hh : '\n' ∉ header) (rows : List Row) :
    listedPorts (some ⟨true, listing header rows⟩) = rows.map Row.port := by
  have hlines : ∀ line ∈ header :: rows.map Row.print, '\n' ∉ line := by
    intro line hline
    rcases List.mem_cons.mp hline with rfl | hline
    · exact hh
    · obtain ⟨r, -, rfl⟩ := List.mem_map.mp hline
      exact r.newline_not_mem_print
  have hstdout : stdoutLines ⟨true, listing header rows⟩ =
      (header :: rows.map Row.print).map (· ++ ['\n']) := by
    simp only [stdoutLines, if_true, listing, Utf8.lossy_encode, String.toList_ofList]
    exact Lines.lines_flatMap '\n' hlines
  rw [listedPorts, hstdout, List.map_cons, List.drop_one, List.tail_cons, List.map_map,
    List.filterMap_map]
  calc rows.filterMap (linePort ∘ ((· ++ ['\n']) ∘ Row.print))
      = rows.filterMap (some ∘ Row.port) := List.filterMap_congr fun r _ => r.linePort_print
    _ = rows.map Row.port := by rw [List.filterMap_eq_map]

theorem mem_listedPorts {lsof : Command} {sockets : Pid → List Row} (h : Lists lsof sockets)
    (p : Pid) (port : Nat) :
    port ∈ listedPorts (lsof p) ↔ Answers lsof p ∧ ∃ r ∈ sockets p, r.port = port := by
  cases hout : lsof p with
  | none => simp [listedPorts, Answers, hout]
  | some out =>
    cases hs : out.success with
    | false =>
      have hno : ¬ Answers lsof p := by
        rintro ⟨out', hout', hs'⟩
        rw [hout] at hout'
        cases hout'
        rw [hs] at hs'
        cases hs'
      simp [listedPorts, stdoutLines, hs, hno]
    | true =>
      obtain ⟨header, hh, hstdout⟩ := h p out hout hs
      have hlisted : listedPorts (some out) = (sockets p).map Row.port := by
        rw [← listedPorts_listing hh, ← hstdout, ← hs]
      have hyes : Answers lsof p := ⟨out, hout, hs⟩
      simp [hlisted, hyes]

theorem ports_exact (pgrep : Command) {lsof : Command} {sockets : Pid → List Row}
    (h : Lists lsof sockets) (pid : Pid) :
    (detectPorts pgrep lsof pid).Nodup ∧
      (∀ port, port ∈ detectPorts pgrep lsof pid ↔
        ∃ p, Relation.ReflTransGen (Child pgrep) pid p ∧ Answers lsof p ∧
          ∃ r ∈ sockets p, r.port = port) ∧
      updateDetectedPort (detectPorts pgrep lsof pid) = (detectPorts pgrep lsof pid).head? := by
  have hmem : ∀ port, port ∈ detectPorts pgrep lsof pid ↔
      ∃ p, Relation.ReflTransGen (Child pgrep) pid p ∧ Answers lsof p ∧
        ∃ r ∈ sockets p, r.port = port := fun port => by
    simp only [mem_detectPorts, mem_listedPorts h]
  refine ⟨nodup_detectPorts pgrep lsof pid, hmem, ?_⟩
  cases hhead : (detectPorts pgrep lsof pid).head? with
  | none => rw [updateDetectedPort, hhead, Option.map_none]
  | some port =>
    obtain ⟨p, -, -, r, -, rfl⟩ := (hmem port).mp (List.mem_of_head? hhead)
    rw [updateDetectedPort, hhead, Option.map_some, Nat.mod_eq_of_lt r.inRange]

def nodeRow : Row where
  command := ⟨"node".toList, by decide, solid_of_all (by decide)⟩
  columns := [⟨"7".toList, by decide, solid_of_all (by decide)⟩,
    ⟨"alice".toList, by decide, solid_of_all (by decide)⟩,
    ⟨"20u".toList, by decide, solid_of_all (by decide)⟩,
    ⟨"IPv6".toList, by decide, solid_of_all (by decide)⟩,
    ⟨"0x1".toList, by decide, solid_of_all (by decide)⟩,
    ⟨"0t0".toList, by decide, solid_of_all (by decide)⟩,
    ⟨"TCP".toList, by decide, solid_of_all (by decide)⟩]
  seven := rfl
  host := ⟨true, "::1".toList, solid_of_all (by decide), by decide, by decide⟩
  port := 3000
  inRange := by decide
  pad := fun k => k % 3

example : String.ofList nodeRow.print =
    "node 7  alice   20u IPv6  0x1   0t0 TCP  [::1]:3000   (LISTEN)" := by
  decide

def nodeSockets (p : Pid) : List Row := if p = 7 then [nodeRow] else []

def nodeLsof (p : Pid) : Option Output :=
  if p = 7 then some ⟨true, listing "COMMAND".toList [nodeRow]⟩ else some ⟨false, []⟩

theorem nodeLsof_lists : Lists nodeLsof nodeSockets := by
  intro p out hout hs
  by_cases hp : p = 7
  · subst hp
    rw [nodeLsof, if_pos rfl] at hout
    cases hout
    exact ⟨"COMMAND".toList, by decide, rfl⟩
  · rw [nodeLsof, if_neg hp] at hout
    cases hout
    cases hs

theorem ports_exact_node :
    (detectPorts (fun _ => none) nodeLsof 7).Nodup ∧
      (∀ port, port ∈ detectPorts (fun _ => none) nodeLsof 7 ↔
        ∃ p, Relation.ReflTransGen (Child fun _ => none) 7 p ∧ Answers nodeLsof p ∧
          ∃ r ∈ nodeSockets p, r.port = port) ∧
      updateDetectedPort (detectPorts (fun _ => none) nodeLsof 7) =
        (detectPorts (fun _ => none) nodeLsof 7).head? :=
  ports_exact _ nodeLsof_lists 7

end PortDetector
