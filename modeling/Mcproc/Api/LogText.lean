import Mcproc.Api.GetLogs
import Mcproc.Log.BatchWriter

namespace LogText

open Grep (GrepMatch GrepState LogEntry ParsedLogLine PendingMatch Query Timestamp parseLogLine
  parsed span_first)

def levels : List (List Char) := ["[ERROR] ".toList, "[INFO] ".toList]

section
variable (chrono : Chrono)

def IsTimestamp (s : List Char) : Prop := (chrono.parseFromRfc3339 (String.ofList s)).isSome

-- What a reader may cut off the front of a line.
inductive Header : List Char → Prop
  | none : Header []
  | stamp {ts : List Char} : IsTimestamp chrono ts → Header (ts ++ [' '])
  | level {ts lvl : List Char} : IsTimestamp chrono ts → lvl ∈ levels → Header (ts ++ ' ' :: lvl)

structure Kept (line : String) (timestamp : Option Timestamp) (content : String) : Prop where
  header : ∃ pre, Header chrono pre ∧ line.toList = pre ++ content.toList
  whole : (¬ ∃ ts rest, IsTimestamp chrono ts ∧ line.toList = ts ++ ' ' :: rest) →
    content = line ∧ timestamp = none

def Stamped (line : String) : Prop :=
  ' ' ∉ line.toList ∨ IsTimestamp chrono (line.toList.takeWhile (· ≠ ' '))

theorem stripPrefix_some {pre cs content : List Char} (h : Grep.stripPrefix pre cs = some content) :
    cs = pre ++ content := by
  simp only [Grep.stripPrefix] at h
  split at h
  · next hp =>
    obtain ⟨rest, rfl⟩ := List.isPrefixOf_iff_prefix.mp hp
    rw [List.drop_left, Option.some.injEq] at h
    rw [h]
  · cases h

theorem parseLogLine_word {line : String} (h : ' ' ∉ line.toList) :
    parseLogLine chrono line = (none, .stdout, line) := by
  have hspan : line.toList.span (· ≠ ' ') = (line.toList, []) := by
    have hall : ∀ c ∈ line.toList, decide (c ≠ ' ') = true :=
      fun c hc => decide_eq_true fun e => h (e ▸ hc)
    rw [List.span_eq_takeWhile_dropWhile, List.takeWhile_eq_self_iff.mpr hall,
      List.dropWhile_eq_nil_iff.mpr hall]
  rw [parseLogLine, hspan]

theorem parseLogLine_first {line : String} {first rest : List Char} (h : ' ' ∉ first)
    (hline : line.toList = first ++ ' ' :: rest) :
    ∃ lvl, (lvl = [] ∨ lvl ∈ levels) ∧ rest = lvl ++ (parseLogLine chrono line).2.2.toList := by
  simp only [parseLogLine, hline, span_first h]
  split
  · next content hc => exact ⟨_, Or.inr List.mem_cons_self, by simpa using stripPrefix_some hc⟩
  · split
    · next content hc =>
      refine ⟨_, Or.inr (List.mem_cons_of_mem _ List.mem_cons_self), ?_⟩
      simpa using stripPrefix_some hc
    · exact ⟨[], Or.inl rfl, by simp⟩

variable {chrono}

theorem levels_split {lvl : List Char} (h : lvl ∈ levels) :
    ∃ body, lvl = body ++ [' '] ∧ '[' ∈ body := by
  rcases List.mem_cons.mp h with rfl | h
  · exact ⟨"[ERROR]".toList, by decide, by decide⟩
  · rw [List.mem_singleton.mp h]
    exact ⟨"[INFO]".toList, by decide, by decide⟩

theorem levels_suffix {xs ys lvl lvl' : List Char} (h : lvl ∈ levels) (h' : lvl' ∈ levels)
    (e : xs ++ lvl = ys ++ lvl') : xs = ys := by
  have herror : "[ERROR] ".toList = ['[', 'E', 'R', 'R', 'O', 'R', ']', ' '] := by decide
  have hinfo : "[INFO] ".toList = ['[', 'I', 'N', 'F', 'O', ']', ' '] := by decide
  have hends := congrArg List.reverse e
  simp only [levels, List.mem_cons, List.not_mem_nil, or_false, herror, hinfo] at h h'
  rcases h with rfl | rfl <;> rcases h' with rfl | rfl <;> simp at hends <;> exact hends

-- No RFC 3339 timestamp holds a bracket, so what stands before a first space is told apart.
theorem header_first
    (hbracket : ∀ s t, chrono.parseFromRfc3339 s = some t → '[' ∉ s.toList)
    {first lvl : List Char} (hfirst : ' ' ∉ first) (hlvl : lvl = [] ∨ lvl ∈ levels)
    (h : Header chrono (first ++ ' ' :: lvl)) : IsTimestamp chrono first := by
  generalize hpre : first ++ ' ' :: lvl = pre at h
  cases h with
  | none => exact absurd hpre (by simp)
  | @stamp ts hts =>
    rcases hlvl with rfl | hlvl
    · rwa [List.append_cancel_right hpre]
    · obtain ⟨body, rfl, hbody⟩ := levels_split hlvl
      obtain rfl : first ++ ' ' :: body = ts :=
        List.append_cancel_right (by rw [← hpre]; simp : first ++ ' ' :: body ++ [' '] = ts ++ [' '])
      obtain ⟨t, ht⟩ := Option.isSome_iff_exists.mp hts
      refine absurd ?_ (hbracket _ _ ht)
      rw [String.toList_ofList]
      exact List.mem_append_right _ (List.mem_cons_of_mem _ hbody)
  | @level ts lvl' hts hlvl' =>
    rcases hlvl with rfl | hlvl
    · obtain ⟨body, rfl, -⟩ := levels_split hlvl'
      refine absurd ?_ hfirst
      rw [List.append_cancel_right (by rw [hpre]; simp : first ++ [' '] = ts ++ ' ' :: body ++ [' '])]
      exact List.mem_append_right _ List.mem_cons_self
    · have hsame : first ++ [' '] = ts ++ [' '] :=
        levels_suffix hlvl hlvl' (by rw [List.append_assoc, List.append_assoc]; exact hpre)
      rwa [List.append_cancel_right hsame]

theorem kept_iff (hbracket : ∀ s t, chrono.parseFromRfc3339 s = some t → '[' ∉ s.toList)
    (line : String) :
    Kept chrono line (parseLogLine chrono line).1 (parseLogLine chrono line).2.2 ↔
      Stamped chrono line := by
  by_cases hspace : ' ' ∈ line.toList
  · obtain ⟨first, rest, hline, hfirst⟩ := List.eq_append_cons_of_mem hspace
    obtain ⟨lvl, hlvl, hrest⟩ := parseLogLine_first chrono hfirst hline
    have htake : line.toList.takeWhile (· ≠ ' ') = first := by
      have hspan : (first ++ ' ' :: rest).span (· ≠ ' ') = (first, ' ' :: rest) :=
        span_first hfirst
      rw [List.span_eq_takeWhile_dropWhile, ← hline] at hspan
      exact (Prod.mk.inj hspan).1
    have hsplit : line.toList =
        (first ++ ' ' :: lvl) ++ (parseLogLine chrono line).2.2.toList := by
      rw [hline, List.append_assoc, List.cons_append, ← hrest]
    have hstamped : Stamped chrono line ↔ IsTimestamp chrono first := by
      rw [Stamped, htake]
      exact or_iff_right (not_not.mpr hspace)
    rw [hstamped]
    constructor
    · intro h
      obtain ⟨pre, hpre, hcut⟩ := h.header
      rw [← List.append_cancel_right (hsplit.symm.trans hcut)] at hpre
      exact header_first hbracket hfirst hlvl hpre
    · intro h
      refine ⟨⟨_, ?_, hsplit⟩, fun hnot => absurd ⟨first, rest, h, hline⟩ hnot⟩
      rcases hlvl with rfl | hlvl
      · exact .stamp h
      · exact .level h hlvl
  · rw [parseLogLine_word chrono hspace]
    exact iff_of_true ⟨⟨[], .none, rfl⟩, fun _ => ⟨rfl, rfl⟩⟩ (Or.inl hspace)

end

section
variable (chrono : Chrono)

-- The lines of a file as the readers number them, in 32 bits.
def fileLogLines (file : List UInt8) : List ParsedLogLine :=
  (LineReader.fileLines file).zipIdx.map fun p => parsed chrono ((p.2 + 1) % 2 ^ 32) p.1

def matchEntries (m : GrepMatch) : List LogEntry :=
  m.matchedLine.toList ++ m.contextBefore ++ m.contextAfter

theorem tailEntries_mem {tail : Nat} {name : String} {file : List UInt8} {e : LogEntry}
    (h : e ∈ GetLogs.tailEntries chrono tail name file) :
    ∃ l ∈ fileLogLines chrono file, e = { l.toLogEntry with processName := some name } := by
  rw [GetLogs.tailEntries_eq] at h
  obtain ⟨p, hp, rfl⟩ := List.mem_map.mp h
  refine ⟨_, List.mem_map.mpr ⟨p, List.mem_of_mem_drop hp, rfl⟩, ?_⟩
  simp only [GetLogs.logEntry, parsed, ParsedLogLine.toLogEntry, Nat.zero_add]

end

-- Every entry that the scan holds or has put out belongs to `S`.
structure Drawn (S : LogEntry → Prop) (st : GrepState) : Prop where
  buffer : ∀ l ∈ st.beforeBuffer, S l.toLogEntry
  pending : ∀ p ∈ st.pending, ∀ e ∈ matchEntries p.complete, S e
  results : ∀ m ∈ st.results, ∀ e ∈ matchEntries m, S e

section
variable {S : LogEntry → Prop}

theorem drawn_collect {st : GrepState} (h : Drawn S st) {l : ParsedLogLine} (hl : S l.toLogEntry) :
    Drawn S (Grep.collect st l) := by
  have hpushed : ∀ p ∈ st.pending.map (PendingMatch.push l.toLogEntry),
      ∀ e ∈ matchEntries p.complete, S e := by
    intro pushed hpushed e he
    obtain ⟨p, hp, rfl⟩ := List.mem_map.mp hpushed
    have hold := h.pending p hp
    simp only [PendingMatch.push] at he
    split at he
    · simp only [matchEntries, PendingMatch.complete, Option.toList_some, List.mem_append,
        List.mem_singleton] at he hold
      grind
    · exact hold e he
  simp only [Grep.collect, Grep.sweep_eq]
  refine ⟨h.buffer, fun p hp => hpushed p (List.mem_of_mem_filter hp), fun m hm => ?_⟩
  rcases List.mem_append.mp hm with hm | hm
  · exact h.results m hm
  · obtain ⟨p, hp, rfl⟩ := List.mem_map.mp hm
    exact hpushed p (List.mem_of_mem_filter hp)

theorem drawn_tryMatch {isMatch : String → Bool} {before after : Nat} {st : GrepState}
    (h : Drawn S st) {l : ParsedLogLine} (hl : S l.toLogEntry) :
    Drawn S (Grep.tryMatch isMatch before after st l) := by
  refine ⟨fun k hk => ?_, fun p hp => ?_, h.results⟩
  · simp only [Grep.tryMatch, Grep.pushBefore] at hk
    have hmem : k ∈ st.beforeBuffer ++ [l] := by
      split at hk
      · split at hk
        · exact List.mem_of_mem_tail hk
        · exact hk
      · exact List.mem_append_left _ hk
    rcases List.mem_append.mp hmem with hk | hk
    · exact h.buffer k hk
    · rwa [List.mem_singleton.mp hk]
  · simp only [Grep.tryMatch] at hp
    split at hp
    · rcases List.mem_append.mp hp with hp | hp
      · exact h.pending p hp
      · rw [List.mem_singleton.mp hp]
        intro e he
        simp only [matchEntries, PendingMatch.complete, Option.toList_some, List.append_nil,
          List.mem_append, List.mem_singleton, List.mem_map] at he
        rcases he with rfl | ⟨k, hk, rfl⟩
        · exact hl
        · exact h.buffer k hk
    · exact h.pending p hp

theorem drawn_finalize {results : List GrepMatch} {ps : List PendingMatch}
    (hr : ∀ m ∈ results, ∀ e ∈ matchEntries m, S e)
    (hp : ∀ p ∈ ps, ∀ e ∈ matchEntries p.complete, S e) :
    ∀ m ∈ Grep.finalize results ps, ∀ e ∈ matchEntries m, S e := by
  induction ps generalizing results with
  | nil => exact hr
  | cons p ps ih =>
    simp only [Grep.finalize]
    split
    · exact hr
    · refine ih (fun m hm => ?_) fun q hq => hp q (List.mem_cons_of_mem _ hq)
      rcases List.mem_append.mp hm with hm | hm
      · exact hr m hm
      · rw [List.mem_singleton.mp hm]
        exact hp p List.mem_cons_self

theorem drawn_scanLines {chrono : Chrono} (now : chrono.DateTime) (q : Query chrono)
    {lines : List String} {n : Nat} {st : GrepState} (h : Drawn S st)
    (hl : ∀ p ∈ lines.zipIdx n, S (parsed chrono ((p.2 + 1) % 2 ^ 32) p.1).toLogEntry) :
    ∀ m ∈ Grep.scanLines chrono now q (n % 2 ^ 32) st lines, ∀ e ∈ matchEntries m, S e := by
  induction lines generalizing n st with
  | nil => exact drawn_finalize h.results h.pending
  | cons line lines ih =>
    have hnum : (n % 2 ^ 32 + 1) % 2 ^ 32 = (n + 1) % 2 ^ 32 := Nat.mod_add_mod n _ 1
    have hline : S (parsed chrono ((n + 1) % 2 ^ 32) line).toLogEntry := hl _ List.mem_cons_self
    have hrest : ∀ p ∈ lines.zipIdx (n + 1),
        S (parsed chrono ((p.2 + 1) % 2 ^ 32) p.1).toLogEntry :=
      fun p hp => hl p (List.mem_cons_of_mem _ hp)
    have hcollected := drawn_collect h hline
    simp only [Grep.scanLines, hnum]
    split
    · split
      · exact hcollected.results
      · exact ih (drawn_tryMatch hcollected hline) hrest
    · exact ih h hrest

end

theorem grepLogFile_mem (chrono : Chrono) (now : chrono.DateTime) {q : Query chrono}
    {file : List UInt8} {m : GrepMatch} (hm : m ∈ Grep.grepLogFile chrono now q file) {e : LogEntry}
    (he : e ∈ matchEntries m) : ∃ l ∈ fileLogLines chrono file, e = l.toLogEntry := by
  have hempty : Drawn (fun e => ∃ l ∈ fileLogLines chrono file, e = l.toLogEntry) .empty :=
    ⟨(fun _ h => by cases h), (fun _ h => by cases h), fun _ h => by cases h⟩
  refine drawn_scanLines now q (n := 0) hempty (fun p hp => ?_) m hm e he
  exact ⟨_, List.mem_map.mpr ⟨p, hp, rfl⟩, rfl⟩

theorem readers_keep_iff {chrono : Chrono}
    (hbracket : ∀ s t, chrono.parseFromRfc3339 s = some t → '[' ∉ s.toList)
    (now : chrono.DateTime) (file : List UInt8) :
    (∀ tail name, ∀ e ∈ GetLogs.tailEntries chrono tail name file,
        ∃ l ∈ fileLogLines chrono file, e = { l.toLogEntry with processName := some name }) ∧
      (∀ q, ∀ m ∈ Grep.grepLogFile chrono now q file, ∀ e ∈ matchEntries m,
        ∃ l ∈ fileLogLines chrono file, e = l.toLogEntry) ∧
      ∀ l ∈ fileLogLines chrono file,
        Kept chrono l.original l.timestamp l.content ↔ Stamped chrono l.original := by
  refine ⟨fun _ _ _ he => tailEntries_mem chrono he,
    fun _ _ hm _ he => grepLogFile_mem chrono now hm he, fun l hl => ?_⟩
  obtain ⟨p, -, rfl⟩ := List.mem_map.mp hl
  exact kept_iff hbracket p.1

def plainFile : List UInt8 := Utf8.encode "hello world"

theorem july_no_bracket :
    ∀ s t, BatchWriter.julyChrono.parseFromRfc3339 s = some t → '[' ∉ s.toList := by
  intro s t h
  have hs : s = "2025-07-15T03:13:12.375Z" := by
    by_contra hne
    have hnone : BatchWriter.julyChrono.parseFromRfc3339 s = none := if_neg hne
    cases hnone.symm.trans h
  rw [hs]
  decide

theorem readers_keep_iff_plain :
    (∃ l ∈ fileLogLines BatchWriter.julyChrono plainFile,
        l.toLogEntry = ⟨1, "world", none, .stdout, none⟩) ∧
      ∀ l ∈ fileLogLines BatchWriter.julyChrono plainFile,
        Kept BatchWriter.julyChrono l.original l.timestamp l.content ↔
          Stamped BatchWriter.julyChrono l.original :=
  ⟨⟨_, List.mem_cons_self, by decide⟩, (readers_keep_iff july_no_bracket true plainFile).2.2⟩

theorem first_word_dropped :
    ¬ ∀ chrono : Chrono, (∀ s t, chrono.parseFromRfc3339 s = some t → '[' ∉ s.toList) →
      ∀ tail name file, ∀ l ∈ fileLogLines chrono file,
        { l.toLogEntry with processName := some name } ∈
          GetLogs.tailEntries chrono tail name file →
        Kept chrono l.original l.timestamp l.content := by
  intro hall
  have hline : parsed Grep.undated 1 "hello world" ∈ fileLogLines Grep.undated plainFile :=
    List.mem_singleton_self _
  have hkept := hall Grep.undated (fun _ _ h => by cases h) 1 "web" plainFile _ hline (by decide)
  have hwhole : "world" = "hello world" := by
    refine (hkept.whole ?_).1
    rintro ⟨ts, rest, hts, -⟩
    cases hts
  exact absurd hwhole (by decide)

end LogText
