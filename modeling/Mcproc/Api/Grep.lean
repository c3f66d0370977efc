import Mathlib.Data.List.Sort
import Mathlib.Data.List.TakeDrop
import Mcproc.Log.LineReader

-- What the daemon uses of the chrono crate, with the one law it relies on.
structure Chrono where
  DateTime : Type
  le : DateTime → DateTime → Bool
  timestamp : DateTime → Int
  timestampSubsecNanos : DateTime → Nat
  fromTimestamp : Int → Nat → Option DateTime
  parseFromRfc3339 : String → Option DateTime
  fromTimestamp_timestamp : ∀ t, fromTimestamp (timestamp t) (timestampSubsecNanos t) = some t

namespace Grep

inductive LogLevel where
  | unknown
  | stdout
  | stderr
  deriving DecidableEq, Repr

structure Timestamp where
  seconds : Int
  nanos : Int
  deriving DecidableEq, Repr

structure LogEntry where
  lineNumber : Nat
  content : String
  timestamp : Option Timestamp
  level : LogLevel
  processName : Option String
  deriving DecidableEq, Repr

structure GrepMatch where
  matchedLine : Option LogEntry
  contextBefore : List LogEntry
  contextAfter : List LogEntry
  deriving DecidableEq, Repr

def maxGrepMatches : Nat := 1000

structure ParsedLogLine where
  lineNumber : Nat
  original : String
  timestamp : Option Timestamp
  level : LogLevel
  content : String
  deriving DecidableEq, Repr

def ParsedLogLine.toLogEntry (l : ParsedLogLine) : LogEntry where
  lineNumber := l.lineNumber
  content := l.content
  timestamp := l.timestamp
  level := l.level
  processName := none

structure PendingMatch where
  matchedLine : LogEntry
  contextBefore : List LogEntry
  contextAfter : List LogEntry
  afterRemaining : Nat
  deriving DecidableEq, Repr

def PendingMatch.complete (p : PendingMatch) : GrepMatch where
  matchedLine := some p.matchedLine
  contextBefore := p.contextBefore
  contextAfter := p.contextAfter

def stripPrefix (pre cs : List Char) : Option (List Char) :=
  if pre.isPrefixOf cs then some (cs.drop pre.length) else none

theorem span_first {first rest : List Char} (h : ' ' ∉ first) :
    (first ++ ' ' :: rest).span (· ≠ ' ') = (first, ' ' :: rest) := by
  have hall : ∀ c ∈ first, decide (c ≠ ' ') = true := fun c hc => decide_eq_true fun e => h (e ▸ hc)
  rw [List.span_eq_takeWhile_dropWhile, List.takeWhile_append_of_pos hall,
    List.dropWhile_append_of_pos hall]
  simp

section
variable (chrono : Chrono)

def toTimestamp (t : chrono.DateTime) : Timestamp :=
  ⟨chrono.timestamp t, chrono.timestampSubsecNanos t⟩

def parseLogLine (line : String) : Option Timestamp × LogLevel × String :=
  match line.toList.span (· ≠ ' ') with
  | (_, []) => (none, .stdout, line)
  | (timestampStr, _ :: rest) =>
    let timestamp := (chrono.parseFromRfc3339 (String.ofList timestampStr)).map (toTimestamp chrono)
    match stripPrefix "[ERROR] ".toList rest with
    | some content => (timestamp, .stderr, String.ofList content)
    | none =>
      match stripPrefix "[INFO] ".toList rest with
      | some content => (timestamp, .stdout, String.ofList content)
      | none => (timestamp, .stdout, String.ofList rest)

-- `now` is what the clock answers where the timestamp does not convert back.
def passesTimeFilter (now : chrono.DateTime) (sinceTime untilTime : Option chrono.DateTime)
    (timestamp : Option Timestamp) : Bool :=
  match timestamp with
  | none => true
  | some ts =>
    let logTime := (chrono.fromTimestamp ts.seconds ts.nanos.toNat).getD now
    sinceTime.all (fun t => chrono.le t logTime) && untilTime.all (fun t => chrono.le logTime t)

end

structure Query (chrono : Chrono) where
  isMatch : String → Bool
  before : Nat
  after : Nat
  sinceTime : Option chrono.DateTime
  untilTime : Option chrono.DateTime

structure GrepState where
  beforeBuffer : List ParsedLogLine
  pending : List PendingMatch
  results : List GrepMatch
  deriving DecidableEq, Repr

def GrepState.empty : GrepState := ⟨[], [], []⟩

def PendingMatch.push (entry : LogEntry) (p : PendingMatch) : PendingMatch :=
  if 0 < p.afterRemaining then
    { p with
      contextAfter := p.contextAfter ++ [entry]
      afterRemaining := p.afterRemaining - 1 }
  else p

def sweep : List PendingMatch → List PendingMatch × List GrepMatch
  | [] => ([], [])
  | p :: ps =>
    if p.afterRemaining = 0 then ((sweep ps).1, p.complete :: (sweep ps).2)
    else (p :: (sweep ps).1, (sweep ps).2)

def pushBefore (before : Nat) (buffer : List ParsedLogLine) (l : ParsedLogLine) :
    List ParsedLogLine :=
  if 0 < before then
    if before < (buffer ++ [l]).length then (buffer ++ [l]).tail else buffer ++ [l]
  else buffer

section
variable (isMatch : String → Bool) (before after : Nat)

def collect (st : GrepState) (l : ParsedLogLine) : GrepState :=
  let swept := sweep (st.pending.map (PendingMatch.push l.toLogEntry))
  { st with pending := swept.1, results := st.results ++ swept.2 }

def tryMatch (st : GrepState) (l : ParsedLogLine) : GrepState :=
  { st with
    beforeBuffer := pushBefore before st.beforeBuffer l
    pending :=
      if isMatch l.original then
        st.pending ++ [⟨l.toLogEntry, st.beforeBuffer.map ParsedLogLine.toLogEntry, [], after⟩]
      else st.pending }

def finalize : List GrepMatch → List PendingMatch → List GrepMatch
  | results, [] => results
  | results, p :: ps =>
    if maxGrepMatches ≤ results.length then results else finalize (results ++ [p.complete]) ps

end

section
variable (chrono : Chrono) (now : chrono.DateTime) (q : Query chrono)

def parsed (lineNum : Nat) (line : String) : ParsedLogLine :=
  let (timestamp, level, content) := parseLogLine chrono line
  ⟨lineNum, line, timestamp, level, content⟩

def passes (l : ParsedLogLine) : Bool := passesTimeFilter chrono now q.sinceTime q.untilTime l.timestamp

-- The line counter is a u32.
def scanLines : Nat → GrepState → List String → List GrepMatch
  | _, st, [] => finalize st.results st.pending
  | lineNum, st, line :: lines =>
    let lineNum := (lineNum + 1) % 2 ^ 32
    let l := parsed chrono lineNum line
    if passes chrono now q l then
      let st := collect st l
      if maxGrepMatches ≤ st.results.length then st.results
      else scanLines lineNum (tryMatch q.isMatch q.before q.after st l) lines
    else scanLines lineNum st lines

def grepLogFile (file : List UInt8) : List GrepMatch :=
  scanLines chrono now q 0 .empty (LineReader.fileLines file)

def lineTime (line : String) : Option chrono.DateTime :=
  match line.toList.span (· ≠ ' ') with
  | (_, []) => none
  | (timestampStr, _ :: _) => chrono.parseFromRfc3339 (String.ofList timestampStr)

def inTimeRange (line : String) : Bool :=
  (lineTime chrono line).all fun t =>
    q.sinceTime.all (chrono.le · t) && q.untilTime.all (chrono.le t ·)

def filteredLines (file : List UInt8) : List ParsedLogLine :=
  (((Lines.lines LineReader.newline file).map LineReader.lineText).zipIdx 1).map
    (fun p => parsed chrono p.2 p.1) |>.filter (fun l => inTimeRange chrono q l.original)

def naiveMatch (lines : List ParsedLogLine) (i : Nat) : Option GrepMatch :=
  match lines[i]? with
  | some l =>
    if q.isMatch l.original then
      some {
        matchedLine := some l.toLogEntry
        contextBefore := ((lines.take i).drop (i - q.before)).map ParsedLogLine.toLogEntry
        contextAfter := ((lines.drop (i + 1)).take q.after).map ParsedLogLine.toLogEntry }
    else none
  | none => none

def naiveGrep (lines : List ParsedLogLine) : List GrepMatch :=
  (List.range lines.length).filterMap (naiveMatch chrono q lines)

end

def PendingMatch.finish (rest : List ParsedLogLine) (p : PendingMatch) : GrepMatch where
  matchedLine := some p.matchedLine
  contextBefore := p.contextBefore
  contextAfter := p.contextAfter ++ (rest.take p.afterRemaining).map ParsedLogLine.toLogEntry

theorem finish_of_done {p : PendingMatch} (rest : List ParsedLogLine) (h : p.afterRemaining = 0) :
    p.finish rest = p.complete := by
  simp [PendingMatch.finish, PendingMatch.complete, h]

theorem finish_nil (p : PendingMatch) : p.finish [] = p.complete := by
  simp [PendingMatch.finish, PendingMatch.complete]

theorem finish_push (l : ParsedLogLine) (rest : List ParsedLogLine) (p : PendingMatch) :
    (p.push l.toLogEntry).finish rest = p.finish (l :: rest) := by
  simp only [PendingMatch.push]
  split
  · next h =>
    obtain ⟨n, hn⟩ := Nat.exists_eq_succ_of_ne_zero (Nat.ne_of_gt h)
    simp [PendingMatch.finish, hn]
  · next h =>
    have hz : p.afterRemaining = 0 := by omega
    simp [PendingMatch.finish, hz]

@[simp] theorem push_remaining (e : LogEntry) (p : PendingMatch) :
    (p.push e).afterRemaining = p.afterRemaining - 1 := by
  simp only [PendingMatch.push]
  split
  · rfl
  · omega

theorem sweep_eq (ps : List PendingMatch) :
    sweep ps = (ps.filter (0 < ·.afterRemaining),
      (ps.filter (·.afterRemaining = 0)).map PendingMatch.complete) := by
  induction ps with
  | nil => rfl
  | cons p ps ih =>
    simp only [sweep, ih]
    split
    · next h => simp [h]
    · next h => simp [h, Nat.pos_of_ne_zero h]

theorem sweep_finish {ps : List PendingMatch} (rest : List ParsedLogLine)
    (hs : ps.Pairwise (·.afterRemaining ≤ ·.afterRemaining)) :
    (sweep ps).2 ++ (sweep ps).1.map (PendingMatch.finish rest) =
      ps.map (PendingMatch.finish rest) := by
  induction ps with
  | nil => rfl
  | cons p ps ih =>
    obtain ⟨hp, hs⟩ := List.pairwise_cons.mp hs
    simp only [sweep]
    split
    · next h => simp [ih hs, finish_of_done rest h]
    · next h =>
      have hnone : (sweep ps).2 = [] := by
        rw [sweep_eq]
        simp only [List.map_eq_nil_iff, List.filter_eq_nil_iff, decide_eq_true_eq]
        intro q hq hz
        have := hp q hq
        omega
      have ih := ih hs
      rw [hnone, List.nil_append] at ih
      rw [hnone, List.nil_append, List.map_cons, List.map_cons, ih]

-- Every pending match started after the ones before it, so it is owed more lines.
structure Ordered (after : Nat) (ps : List PendingMatch) : Prop where
  sorted : ps.Pairwise (·.afterRemaining < ·.afterRemaining)
  bound : ∀ p ∈ ps, p.afterRemaining ≤ after
  live : ∀ p ∈ ps, 0 < p.afterRemaining ∨ after = 0

theorem ordered_push {after : Nat} {ps : List PendingMatch} (h : Ordered after ps) (e : LogEntry) :
    (ps.map (PendingMatch.push e)).Pairwise (·.afterRemaining ≤ ·.afterRemaining) := by
  refine List.pairwise_map.mpr (h.sorted.imp fun hlt => ?_)
  rw [push_remaining, push_remaining]
  omega

theorem length_le_one {A : Type} {l : List A} (h : l.Pairwise fun _ _ => False) : l.length ≤ 1 := by
  match l with
  | [] => exact Nat.zero_le 1
  | [_] => exact Nat.le_refl 1
  | a :: b :: _ => exact ((List.pairwise_cons.mp h).1 b List.mem_cons_self).elim

theorem sweep_push_length {after : Nat} {ps : List PendingMatch} (h : Ordered after ps)
    (e : LogEntry) : (sweep (ps.map (PendingMatch.push e))).2.length ≤ 1 := by
  have hpair : (ps.filter (fun p => (p.push e).afterRemaining = 0)).Pairwise fun _ _ => False := by
    refine (h.sorted.filter _).imp_of_mem fun {p q} hp hq hlt => ?_
    simp only [List.mem_filter, push_remaining, decide_eq_true_eq] at hp hq
    have := h.live p hp.1
    have := h.bound q hq.1
    omega
  rw [sweep_eq, List.length_map, List.filter_map, List.length_map]
  exact length_le_one hpair

theorem ordered_sweep {after : Nat} {ps : List PendingMatch} (h : Ordered after ps) (e : LogEntry) :
    Ordered after (sweep (ps.map (PendingMatch.push e))).1 ∧
      ∀ p ∈ (sweep (ps.map (PendingMatch.push e))).1, p.afterRemaining < after := by
  rw [sweep_eq]
  have hmem : ∀ p ∈ (ps.map (PendingMatch.push e)).filter (0 < ·.afterRemaining),
      0 < p.afterRemaining ∧ p.afterRemaining < after := by
    intro p hp
    simp only [List.mem_filter, List.mem_map, decide_eq_true_eq] at hp
    obtain ⟨⟨p, hp, rfl⟩, hpos⟩ := hp
    have := h.bound p hp
    rw [push_remaining] at hpos ⊢
    omega
  refine ⟨⟨?_, fun p hp => Nat.le_of_lt (hmem p hp).2, fun p hp => Or.inl (hmem p hp).1⟩,
    fun p hp => (hmem p hp).2⟩
  rw [List.filter_map]
  refine List.pairwise_map.mpr ((h.sorted.filter _).imp_of_mem fun {p q} hp hq hlt => ?_)
  simp only [List.mem_filter, Function.comp_apply, push_remaining, decide_eq_true_eq] at hp hq
  rw [push_remaining, push_remaining]
  omega

section
variable (isMatch : String → Bool) (before after : Nat)

def future : List ParsedLogLine → List ParsedLogLine → List GrepMatch
  | _, [] => []
  | buffer, l :: ls =>
    (if isMatch l.original then
      [{ matchedLine := some l.toLogEntry
         contextBefore := buffer.map ParsedLogLine.toLogEntry
         contextAfter := (ls.take after).map ParsedLogLine.toLogEntry }]
    else []) ++ future (pushBefore before buffer l) ls

def denote (st : GrepState) (rest : List ParsedLogLine) : List GrepMatch :=
  st.results ++ st.pending.map (PendingMatch.finish rest) ++
    future isMatch before after st.beforeBuffer rest

theorem denote_step {st : GrepState} (l : ParsedLogLine) (ls : List ParsedLogLine)
    (h : Ordered after st.pending) :
    denote isMatch before after (tryMatch isMatch before after (collect st l) l) ls =
      denote isMatch before after st (l :: ls) := by
  have hold := sweep_finish ls (ordered_push h l.toLogEntry)
  have hpush : (st.pending.map (PendingMatch.push l.toLogEntry)).map (PendingMatch.finish ls) =
      st.pending.map (PendingMatch.finish (l :: ls)) := by
    rw [List.map_map]
    exact List.map_congr_left fun p _ => finish_push l ls p
  rw [hpush] at hold
  simp only [denote, tryMatch, collect, future, ← hold]
  cases isMatch l.original <;> simp [PendingMatch.finish]

theorem ordered_step {st : GrepState} (l : ParsedLogLine) (h : Ordered after st.pending) :
    Ordered after (tryMatch isMatch before after (collect st l) l).pending := by
  obtain ⟨hs, hlt⟩ := ordered_sweep h l.toLogEntry
  simp only [tryMatch, collect]
  split
  · refine ⟨?_, fun p hp => ?_, fun p hp => ?_⟩
    · refine List.pairwise_append.mpr ⟨hs.sorted, List.pairwise_singleton _ _, fun p hp q hq => ?_⟩
      rw [List.mem_singleton.mp hq]
      exact hlt p hp
    · rcases List.mem_append.mp hp with hp | hp
      · exact hs.bound p hp
      · rw [List.mem_singleton.mp hp]
    · rcases List.mem_append.mp hp with hp | hp
      · exact hs.live p hp
      · rw [List.mem_singleton.mp hp]
        exact (Nat.eq_zero_or_pos after).symm
  · exact hs

def scanParsed : GrepState → List ParsedLogLine → List GrepMatch
  | st, [] => finalize st.results st.pending
  | st, l :: ls =>
    let st := collect st l
    if maxGrepMatches ≤ st.results.length then st.results
    else scanParsed (tryMatch isMatch before after st l) ls

theorem finalize_eq {results : List GrepMatch} (ps : List PendingMatch)
    (h : results.length ≤ maxGrepMatches) :
    finalize results ps = (results ++ ps.map PendingMatch.complete).take maxGrepMatches := by
  induction ps generalizing results with
  | nil => simp [finalize, List.take_of_length_le h]
  | cons p ps ih =>
    simp only [finalize]
    split
    · next hfull => rw [List.take_left' (Nat.le_antisymm h hfull)]
    · next hroom => rw [ih (by simp; omega)]; simp

theorem scanParsed_eq {st : GrepState} (ls : List ParsedLogLine) (hord : Ordered after st.pending)
    (hroom : st.results.length < maxGrepMatches) :
    scanParsed isMatch before after st ls =
      (denote isMatch before after st ls).take maxGrepMatches := by
  induction ls generalizing st with
  | nil =>
    have hfin : st.pending.map (PendingMatch.finish []) = st.pending.map PendingMatch.complete :=
      List.map_congr_left fun p _ => finish_nil p
    rw [scanParsed, finalize_eq _ (Nat.le_of_lt hroom), denote, hfin]
    simp [future]
  | cons l ls ih =>
    have hlen : (collect st l).results.length ≤ st.results.length + 1 := by
      have := sweep_push_length hord l.toLogEntry
      simp only [collect, List.length_append]
      omega
    rw [← denote_step isMatch before after l ls hord, scanParsed]
    split
    · next hfull =>
      rw [denote, List.append_assoc]
      exact (List.take_left' (Nat.le_antisymm (by omega) hfull)).symm
    · next hnot => exact ih (ordered_step isMatch before after l hord) (Nat.not_le.mp hnot)

theorem pushBefore_window (P : List ParsedLogLine) (l : ParsedLogLine) :
    pushBefore before (P.drop (P.length - before)) l =
      (P ++ [l]).drop ((P ++ [l]).length - before) := by
  simp only [pushBefore]
  split
  · next hb =>
    have hlen : (P.drop (P.length - before) ++ [l]).length = min P.length before + 1 := by
      simp only [List.length_append, List.length_drop, List.length_singleton]
      omega
    rw [hlen]
    simp only [List.length_append, List.length_singleton]
    split
    · next hover =>
      have hle : before ≤ P.length := by omega
      rw [← List.drop_append_of_le_length (Nat.sub_le P.length before), List.tail_drop]
      congr 1
      omega
    · next hroom =>
      have h₁ : P.length - before = 0 := by omega
      have h₂ : P.length + 1 - before = 0 := by omega
      rw [h₁, h₂]
      rfl
  · next hb =>
    have hz : before = 0 := by omega
    simp [hz]

end

section
variable (chrono : Chrono) (now : chrono.DateTime) (q : Query chrono)

theorem naiveMatch_mid (P S : List ParsedLogLine) (l : ParsedLogLine) :
    naiveMatch chrono q (P ++ l :: S) P.length =
      if q.isMatch l.original then
        some {
          matchedLine := some l.toLogEntry
          contextBefore := (P.drop (P.length - q.before)).map ParsedLogLine.toLogEntry
          contextAfter := (S.take q.after).map ParsedLogLine.toLogEntry }
      else none := by
  simp [naiveMatch]

theorem future_eq (P S : List ParsedLogLine) :
    future q.isMatch q.before q.after (P.drop (P.length - q.before)) S =
      (List.range' P.length S.length).filterMap (naiveMatch chrono q (P ++ S)) := by
  induction S generalizing P with
  | nil => rfl
  | cons l S ih =>
    have hnext := ih (P ++ [l])
    rw [List.append_assoc, List.singleton_append, List.length_append, List.length_singleton] at hnext
    rw [future, pushBefore_window, List.length_append, List.length_singleton, hnext, List.length_cons,
      List.range'_succ, List.filterMap_cons, naiveMatch_mid]
    cases q.isMatch l.original <;> rfl

theorem parseLogLine_time (line : String) :
    (parseLogLine chrono line).1 = (lineTime chrono line).map (toTimestamp chrono) := by
  unfold parseLogLine lineTime
  split
  · rfl
  · dsimp only
    split
    · rfl
    · split <;> rfl

theorem passes_parsed (lineNum : Nat) (line : String) :
    passes chrono now q (parsed chrono lineNum line) =
      inTimeRange chrono q (parsed chrono lineNum line).original := by
  have ht : (parsed chrono lineNum line).timestamp = (parseLogLine chrono line).1 := rfl
  have ho : (parsed chrono lineNum line).original = line := rfl
  rw [passes, ht, ho, parseLogLine_time, inTimeRange]
  cases lineTime chrono line with
  | none => rfl
  | some t => simp [passesTimeFilter, toTimestamp, chrono.fromTimestamp_timestamp]

theorem scanLines_eq {lines : List String} {lineNum : Nat} (st : GrepState)
    (h : lineNum + lines.length < 2 ^ 32) :
    scanLines chrono now q lineNum st lines =
      scanParsed q.isMatch q.before q.after st
        (((lines.zipIdx (lineNum + 1)).map fun p => parsed chrono p.2 p.1).filter
          fun l => inTimeRange chrono q l.original) := by
  induction lines generalizing lineNum st with
  | nil => rfl
  | cons line lines ih =>
    rw [List.length_cons] at h
    have hmod : (lineNum + 1) % 2 ^ 32 = lineNum + 1 := Nat.mod_eq_of_lt (by omega)
    simp only [scanLines, hmod, List.zipIdx_cons, List.map_cons, List.filter_cons, passes_parsed]
    split
    · simp only [scanParsed, ih _ (show lineNum + 1 + lines.length < 2 ^ 32 by omega)]
    · exact ih st (by omega)

theorem future_nil (S : List ParsedLogLine) :
    future q.isMatch q.before q.after [] S = naiveGrep chrono q S := by
  have hfuture := future_eq chrono q [] S
  rwa [List.length_nil, List.drop_nil, List.nil_append, ← List.range_eq_range'] at hfuture

theorem grepLogFile_future {file : List UInt8}
    (h : (Lines.lines LineReader.newline file).length < 2 ^ 32) :
    grepLogFile chrono now q file =
      (future q.isMatch q.before q.after [] (filteredLines chrono q file)).take maxGrepMatches := by
  have hord : Ordered q.after GrepState.empty.pending :=
    ⟨List.Pairwise.nil, (by intro p hp; cases hp), (by intro p hp; cases hp)⟩
  rw [grepLogFile, LineReader.fileLines_eq,
    scanLines_eq chrono now q .empty (by simpa using h), scanParsed_eq _ _ _ _ hord (by decide)]
  simp only [denote, GrepState.empty, List.nil_append, List.map_nil]
  rfl

theorem grep_eq_naive {file : List UInt8}
    (h : (Lines.lines LineReader.newline file).length < 2 ^ 32) :
    grepLogFile chrono now q file =
      (naiveGrep chrono q (filteredLines chrono q file)).take maxGrepMatches := by
  rw [grepLogFile_future chrono now q h, future_nil]

end

def undated : Chrono where
  DateTime := Int × Nat
  le a b := a.1 < b.1 || a.1 = b.1 && a.2 ≤ b.2
  timestamp := Prod.fst
  timestampSubsecNanos := Prod.snd
  fromTimestamp s n := some (s, n)
  parseFromRfc3339 _ := none
  fromTimestamp_timestamp _ := rfl

def anyB : Query undated where
  isMatch line := line.toList.contains 'b'
  before := 1
  after := 1
  sinceTime := none
  untilTime := none

theorem grep_eq_naive_overlap :
    let file := [0x61, 10, 0x62, 10, 0x62]
    grepLogFile undated (0, 0) anyB file =
        (naiveGrep undated anyB (filteredLines undated anyB file)).take maxGrepMatches ∧
      (grepLogFile undated (0, 0) anyB file).map (·.contextAfter.map (·.lineNumber)) =
        [[3], []] :=
  ⟨grep_eq_naive undated (0, 0) anyB (by decide), by decide⟩

end Grep
