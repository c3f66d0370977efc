import Mathlib.Data.List.Forall2
import Mathlib.Data.List.TakeDrop
import Mcproc.Api.Grep

-- The years 0 to 9999, outside leap seconds.
def Chrono.Covered (chrono : Chrono) (t : chrono.DateTime) : Prop :=
  -62167219200 ≤ chrono.timestamp t ∧ chrono.timestamp t ≤ 253402300799 ∧
    chrono.timestampSubsecNanos t < 1000000000

def Chrono.toMillis (chrono : Chrono) (t : chrono.DateTime) : Grep.Timestamp :=
  ⟨chrono.timestamp t, chrono.timestampSubsecNanos t / 1000000 * 1000000⟩

-- The `Utc` formatter of chrono and what the daemon relies on in it.
structure Rfc3339 (chrono : Chrono) where
  toRfc3339Millis : chrono.DateTime → String
  chars : ∀ t, ∀ c ∈ (toRfc3339Millis t).toList, c.isAlphanum ∨ c ∈ ['+', '-', ':', '.']
  parse_format : ∀ t, chrono.Covered t →
    ∃ t', chrono.parseFromRfc3339 (toRfc3339Millis t) = some t' ∧
      Grep.toTimestamp chrono t' = chrono.toMillis t

namespace BatchWriter

open LineReader

structure LogEntry (chrono : Chrono) where
  timestamp : chrono.DateTime
  content : List UInt8
  isStderr : Bool

section
variable {chrono : Chrono} (rfc : Rfc3339 chrono)

def levelName (isStderr : Bool) : String := if isStderr then "ERROR" else "INFO"

def record (entry : LogEntry chrono) : List UInt8 :=
  Utf8.encode (rfc.toRfc3339Millis entry.timestamp) ++ Utf8.encode " [" ++
    Utf8.encode (levelName entry.isStderr) ++ Utf8.encode "] " ++ entry.content ++
    if entry.content.getLast? = some newline then [] else [newline]

def flushBatch (batch : List (LogEntry chrono)) : List UInt8 := batch.flatMap (record rfc)

def header (entry : LogEntry chrono) : List Char :=
  (rfc.toRfc3339Millis entry.timestamp).toList ++
    ' ' :: ("[".toList ++ (levelName entry.isStderr).toList ++ "] ".toList)

theorem encode_eq (s : String) : Utf8.encode s = s.toList.flatMap String.utf8EncodeChar := rfl

theorem record_eq (entry : LogEntry chrono) :
    record rfc entry =
      (header rfc entry).flatMap String.utf8EncodeChar ++ popIf newline entry.content ++
        [newline] := by
  have hcontent : (entry.content ++ if entry.content.getLast? = some newline then [] else [newline]) =
      popIf newline entry.content ++ [newline] := by
    simp only [popIf]
    split
    · next hl =>
      obtain ⟨body, hbody⟩ := List.getLast?_eq_some_iff.mp hl
      simp [hbody]
    · rfl
  have hspace : Utf8.encode " [" = (' ' :: "[".toList).flatMap String.utf8EncodeChar := rfl
  simp only [record, header, List.append_assoc, hcontent, hspace, encode_eq, List.flatMap_append,
    List.flatMap_cons]

-- What can stand in the front part of a record.
def Plain (c : Char) : Prop := Utf8.Ascii c ∧ c.toNat ≠ 10

instance (c : Char) : Decidable (Plain c) :=
  inferInstanceAs (Decidable ((0 < c.toNat ∧ c.toNat < 0x80) ∧ c.toNat ≠ 10))

theorem plain_of_isAlphanum {c : Char} (h : c.isAlphanum) : Plain c ∧ c ≠ ' ' := by
  have hv : c.toNat = c.val.toNat := rfl
  have hrange : 48 ≤ c.toNat ∧ c.toNat ≤ 122 := by
    delta Char.isAlphanum Char.isAlpha Char.isUpper Char.isLower Char.isDigit at h
    simp only [UInt32.le_iff_toNat_le, Bool.or_eq_true, Bool.and_eq_true, decide_eq_true_eq,
      ge_iff_le] at h
    rw [hv]
    rcases h with (⟨h1, h2⟩ | ⟨h1, h2⟩) | ⟨h1, h2⟩ <;> simp at h1 h2 <;> omega
  have hspace : c ≠ ' ' := by
    rintro rfl
    exact absurd hrange.1 (by decide)
  exact ⟨⟨⟨by omega, by omega⟩, by omega⟩, hspace⟩

theorem stamp_plain (t : chrono.DateTime) :
    ∀ c ∈ (rfc.toRfc3339Millis t).toList, Plain c ∧ c ≠ ' ' := by
  intro c hc
  rcases rfc.chars t c hc with h | h
  · exact plain_of_isAlphanum h
  · simp only [List.mem_cons, List.not_mem_nil, or_false] at h
    rcases h with rfl | rfl | rfl | rfl <;> decide

theorem plain_of_all {cs : List Char} (h : cs.all (fun c => decide (Plain c)) = true) :
    ∀ c ∈ cs, Plain c :=
  fun c hc => of_decide_eq_true (List.all_eq_true.mp h c hc)

theorem header_plain (entry : LogEntry chrono) : ∀ c ∈ header rfc entry, Plain c := by
  have hlevel : ∀ c ∈ ' ' :: ("[".toList ++ (levelName entry.isStderr).toList ++ "] ".toList),
      Plain c := by
    refine plain_of_all ?_
    cases entry.isStderr <;> rfl
  intro c hc
  rcases List.mem_append.mp hc with h | h
  · exact (stamp_plain rfc _ c h).1
  · exact hlevel c h

theorem newline_not_mem_encode {cs : List Char} (h : ∀ c ∈ cs, Plain c) :
    newline ∉ cs.flatMap String.utf8EncodeChar := by
  intro hmem
  obtain ⟨c, hc, hb⟩ := List.mem_flatMap.mp hmem
  obtain ⟨hnat, -⟩ := Utf8.encodeChar_ascii hb (by decide)
  exact (h c hc).2 hnat

theorem header_last (entry : LogEntry chrono) :
    ((header rfc entry).flatMap String.utf8EncodeChar).getLast? ≠ some carriageReturn := by
  have hend : "] ".toList.flatMap String.utf8EncodeChar = [93, 32] := by decide
  simp only [header, List.flatMap_append, List.flatMap_cons, hend]
  simp [carriageReturn, List.getLast?_append]

theorem record_lineText (entry : LogEntry chrono) :
    lineText (record rfc entry) =
      String.ofList (header rfc entry ++
        Utf8.fromUtf8Lossy (popIf carriageReturn (popIf newline entry.content))) := by
  rw [record_eq, lineText, popIf_snoc, popIf_append _ (header_last rfc entry),
    Utf8.lossy_ascii_append _ fun c hc => (header_plain rfc entry c hc).1]

theorem flushBatch_lines {batch : List (LogEntry chrono)}
    (h : ∀ e ∈ batch, newline ∉ popIf newline e.content) :
    Lines.lines newline (flushBatch rfc batch) = batch.map (record rfc) := by
  induction batch with
  | nil => rfl
  | cons e es ih =>
    have hbody : newline ∉ (header rfc e).flatMap String.utf8EncodeChar ++ popIf newline e.content := by
      rw [List.mem_append, not_or]
      exact ⟨newline_not_mem_encode (header_plain rfc e), h e List.mem_cons_self⟩
    rw [flushBatch, List.flatMap_cons, record_eq, Lines.lines_line newline _ hbody, List.map_cons,
      record_eq]
    exact congrArg _ (ih fun e he => h e (List.mem_cons_of_mem _ he))

theorem parseLogLine_header (entry : LogEntry chrono) (body : List Char) :
    Grep.parseLogLine chrono (String.ofList (header rfc entry ++ body)) =
      ((chrono.parseFromRfc3339 (rfc.toRfc3339Millis entry.timestamp)).map
          (Grep.toTimestamp chrono),
        if entry.isStderr then .stderr else .stdout, String.ofList body) := by
  have hspan : (header rfc entry ++ body).span (· ≠ ' ') =
      ((rfc.toRfc3339Millis entry.timestamp).toList,
        ' ' :: ("[".toList ++ (levelName entry.isStderr).toList ++ "] ".toList ++ body)) := by
    have hstamp : ' ' ∉ (rfc.toRfc3339Millis entry.timestamp).toList :=
      fun h => (stamp_plain rfc _ ' ' h).2 rfl
    rw [header, List.append_assoc, List.cons_append, Grep.span_first hstamp]
  simp only [Grep.parseLogLine, String.toList_ofList, hspan, String.ofList_toList]
  cases entry.isStderr <;> rfl

structure ReadBack (entry : LogEntry chrono)
    (line : Option Grep.Timestamp × Grep.LogLevel × String) : Prop where
  timestamp : chrono.Covered entry.timestamp → line.1 = some (chrono.toMillis entry.timestamp)
  level : line.2.1 = if entry.isStderr then .stderr else .stdout
  content : line.2.2 =
    String.ofList (Utf8.fromUtf8Lossy (popIf carriageReturn (popIf newline entry.content)))

theorem record_readBack (entry : LogEntry chrono) :
    ReadBack entry (Grep.parseLogLine chrono (lineText (record rfc entry))) := by
  rw [record_lineText, parseLogLine_header]
  constructor
  · intro ht
    obtain ⟨t', hparse, heq⟩ := rfc.parse_format _ ht
    simp [hparse, heq]
  · rfl
  · rfl

theorem flushed_batch_reads_back {batch : List (LogEntry chrono)}
    (h : ∀ e ∈ batch, newline ∉ popIf newline e.content) :
    List.Forall₂ ReadBack batch
      ((fileLines (flushBatch rfc batch)).map (Grep.parseLogLine chrono)) := by
  rw [fileLines_eq, flushBatch_lines rfc h, List.forall₂_map_right_iff, List.forall₂_map_right_iff,
    List.forall₂_map_right_iff]
  exact List.forall₂_same.mpr fun e _ => record_readBack rfc e

end

-- One instant of July 2025 and the same instant cut to the millisecond.
def julyChrono : Chrono where
  DateTime := Bool
  le s t := t || !s
  timestamp _ := 1752549192
  timestampSubsecNanos t := if t then 375999999 else 375000000
  fromTimestamp _ nanos := some (nanos = 375999999)
  parseFromRfc3339 text := if text = "2025-07-15T03:13:12.375Z" then some false else none
  fromTimestamp_timestamp t := by cases t <;> rfl

def julyRfc3339 : Rfc3339 julyChrono where
  toRfc3339Millis _ := "2025-07-15T03:13:12.375Z"
  chars _ c hc := by
    have hall : "2025-07-15T03:13:12.375Z".toList.all
        (fun c => c.isAlphanum || ['+', '-', ':', '.'].elem c) = true := by
      decide
    simpa using List.all_eq_true.mp hall c hc
  parse_format t _ := ⟨false, rfl, by cases t <;> rfl⟩

def julyBatch : List (LogEntry julyChrono) :=
  [⟨true, [], false⟩, ⟨true, Utf8.encode "[ERROR] 2025" ++ [0xff, 13, 10], true⟩]

theorem july_batch_reads_back :
    List.Forall₂ ReadBack julyBatch
      ((fileLines (flushBatch julyRfc3339 julyBatch)).map (Grep.parseLogLine julyChrono)) :=
  flushed_batch_reads_back julyRfc3339 (by decide)

end BatchWriter
