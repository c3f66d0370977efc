import Mcproc.Api.GetLogs
import Mcproc.Log.Legible
import Mcproc.Log.Pipeline

namespace Pipeline

open HyperLog (Record ShortRuns newline finalFlush)
open LiveStream (linesToPublish publishLogEvent)
open ReadyChannel (After)
open BatchWriter (LogEntry)

section
variable {W : Type} {chrono : Chrono} [DecidableEq W] (rfc : Rfc3339 chrono) {isStderr : W → Bool}
  {stderr : Bool} {st : Stream} {x : BatchAppend.Writer chrono} {chunks : List (List UInt8)}

-- A newline may be added where a line is cut or the stream ends; everything else is kept.
def visible (bytes : List UInt8) : List UInt8 := bytes.filter (· ≠ newline)

theorem visible_append (a b : List UInt8) : visible (a ++ b) = visible a ++ visible b :=
  List.filter_append ..

theorem visible_payload {r : Record} (h : Lines.IsLine newline r.content) :
    visible r.payload = visible r.content := by
  obtain ⟨body, hbody, -⟩ := h
  simp only [Record.payload]
  split
  · rw [hbody, List.dropLast_concat, visible_append]
    exact (List.append_nil _).symm
  · rfl

theorem visible_payloads {records : List Record}
    (h : ∀ r ∈ records, Lines.IsLine newline r.content) :
    visible (records.map Record.payload).flatten =
      visible (records.map Record.content).flatten := by
  induction records with
  | nil => rfl
  | cons r records ih =>
    simp only [List.map_cons, List.flatten_cons, visible_append]
    rw [visible_payload (h r List.mem_cons_self), ih fun r' hr => h r' (List.mem_cons_of_mem r hr)]

theorem recordsOf_lines (final : Bool) (chunks : List (List UInt8)) :
    ∀ r ∈ recordsOf final chunks, Lines.IsLine newline r.content := by
  have hempty : newline ∉ ([] : List UInt8) := List.not_mem_nil
  have hkept : HyperLog.Kept (HyperLog.processBatch [] chunks).2 :=
    HyperLog.processBatch_kept _ ⟨hempty, Nat.zero_le _⟩
  intro r hr
  cases final with
  | false => exact HyperLog.processBatch_lines chunks hempty r hr
  | true =>
    rcases List.mem_append.mp hr with hr | hr
    · exact HyperLog.processBatch_lines chunks hempty r hr
    · rw [HyperLog.finalFlush_eq hkept.1] at hr
      split at hr
      · cases hr
      · rw [List.mem_singleton.mp hr]
        exact ⟨_, rfl, hkept.1⟩

theorem visible_recordsOf (chunks : List (List UInt8)) :
    visible ((recordsOf false chunks).map Record.content).flatten ++
        visible (HyperLog.processBatch [] chunks).2 = visible chunks.flatten := by
  have hpayload := HyperLog.processBatch_payload chunks (b := []) List.not_mem_nil
  rw [← visible_payloads (recordsOf_lines false chunks), ← visible_append]
  exact congrArg visible hpayload

theorem visible_recordsOf_final (chunks : List (List UInt8)) :
    visible ((recordsOf true chunks).map Record.content).flatten = visible chunks.flatten := by
  have hkept : HyperLog.Kept (HyperLog.processBatch [] chunks).2 :=
    HyperLog.processBatch_kept _ ⟨List.not_mem_nil, Nat.zero_le _⟩
  have hflush : visible ((finalFlush (HyperLog.processBatch [] chunks).2).map Record.content).flatten =
      visible (HyperLog.processBatch [] chunks).2 := by
    rw [HyperLog.finalFlush_eq hkept.1]
    split
    · next hempty => rw [hempty]; rfl
    · simp [visible]
  rw [← visible_recordsOf chunks, ← hflush, ← visible_append, ← List.flatten_append,
    ← List.map_append]
  rfl

theorem shortRuns_left {a b : List UInt8} (h : ShortRuns (a ++ b)) : ShortRuns a :=
  fun run hrun => h run (hrun.trans (List.prefix_append a b).isInfix)

theorem recordsOf_final_short {chunks : List (List UInt8)} (h : ShortRuns chunks.flatten) :
    (recordsOf true chunks).map Record.content = Lines.lines newline chunks.flatten := by
  have hkept : HyperLog.Kept (HyperLog.processBatch [] chunks).2 :=
    HyperLog.processBatch_kept _ ⟨List.not_mem_nil, Nat.zero_le _⟩
  obtain ⟨hlines, hrest⟩ := HyperLog.processBatch_short chunks (b := []) List.not_mem_nil h
  have hrecords : recordsOf true chunks =
      (HyperLog.processBatch [] chunks).1 ++ finalFlush (HyperLog.processBatch [] chunks).2 := rfl
  rw [hrecords, HyperLog.finalFlush_eq hkept.1, List.map_append, hlines, hrest, Lines.lines_eq]
  split <;> rfl

theorem recordsOf_initial {chunks : List (List UInt8)} {rest : List UInt8}
    (h : ShortRuns (chunks.flatten ++ rest)) :
    (recordsOf false chunks).map Record.content <+:
      Lines.lines newline (chunks.flatten ++ rest) := by
  obtain ⟨hlines, -⟩ :=
    HyperLog.processBatch_short chunks (b := []) List.not_mem_nil (shortRuns_left h)
  have hrecords : (recordsOf false chunks).map Record.content =
      (Lines.feed newline [] chunks.flatten).1 := hlines
  rw [hrecords, Lines.lines_eq, Lines.feed_append, List.append_assoc]
  exact List.prefix_append _ _

theorem final_over {processor : Processor} (h : processor.final = true) :
    processor.outside = true := by
  cases processor with
  | processing toWrite toPublish after =>
    cases after with
    | loop | flush => cases h
    | close => rfl
  | creating | select => cases h
  | closing | joining | done => rfl

theorem Carried.nothing_left (h : Carried stderr st x chunks)
    (houtside : st.processor.outside = true) :
    (st.batch ++ st.channel ++ st.reader.pending).flatten = [] := by
  obtain ⟨hended, hchannel, hbatch⟩ := h.outside houtside
  rw [hended, hchannel, hbatch]
  rfl

theorem Carried.sent_initial (h : Carried stderr st x chunks) :
    visible (x.sent.map LogEntry.content).flatten <+: visible st.emitted ∧
      (ShortRuns st.emitted →
        x.sent.map LogEntry.content <+: Lines.lines newline st.emitted) := by
  have hsent : x.sent.map LogEntry.content <+:
      (recordsOf st.processor.final chunks).map Record.content := ⟨_, h.written⟩
  have hvisible : visible (x.sent.map LogEntry.content).flatten <+:
      visible ((recordsOf st.processor.final chunks).map Record.content).flatten := by
    obtain ⟨more, hmore⟩ := hsent
    rw [← hmore, List.flatten_append, visible_append]
    exact List.prefix_append _ _
  have hemitted : chunks.flatten ++ (st.batch ++ st.channel ++ st.reader.pending).flatten =
      st.emitted := by
    rw [← h.emitted]
    simp
  rw [← hemitted]
  cases hfinal : st.processor.final with
  | false =>
    rw [hfinal] at hsent hvisible
    refine ⟨?_, fun hshort => hsent.trans (recordsOf_initial hshort)⟩
    rw [visible_append, ← visible_recordsOf chunks, List.append_assoc]
    exact hvisible.trans (List.prefix_append _ _)
  | true =>
    rw [hfinal] at hsent hvisible
    rw [h.nothing_left (final_over hfinal), List.append_nil]
    refine ⟨?_, fun hshort => ?_⟩
    · rw [← visible_recordsOf_final chunks]
      exact hvisible
    · rw [← recordsOf_final_short hshort]
      exact hsent

-- Subscribers get the lines of the log that are UTF-8 text.
def publishedLines (contents : List (List UInt8)) : List (List Char) :=
  (contents.filterMap fun content => (Utf8.fromUtf8 content).map Validation.trimEnd).map
    publishLogEvent

theorem publishedLines_eq (records : List Record) :
    (linesToPublish records).map publishLogEvent = publishedLines (records.map Record.content) := by
  rw [publishedLines, List.filterMap_map]
  rfl

theorem Carried.finished (h : Carried stderr st x chunks) (hp : st.processor = .done) :
    visible (x.sent.map LogEntry.content).flatten = visible st.emitted ∧
      (ShortRuns st.emitted → x.sent.map LogEntry.content = Lines.lines newline st.emitted) ∧
      st.published = publishedLines (x.sent.map LogEntry.content) := by
  have houtside : st.processor.outside = true := by rw [hp]; rfl
  have hemitted : chunks.flatten = st.emitted := by
    have hall := h.emitted
    rwa [List.append_assoc, List.append_assoc, List.flatten_append, ← List.append_assoc st.batch,
      h.nothing_left houtside, List.append_nil] at hall
  have hwritten := h.written
  have hpublished := h.published
  simp only [hp, Processor.final, Processor.toWrite, Processor.toPublish, List.map_nil,
    List.append_nil] at hwritten hpublished
  rw [← hemitted, hpublished, publishedLines_eq, hwritten]
  exact ⟨visible_recordsOf_final chunks, recordsOf_final_short, rfl⟩

theorem oneLine_of_isLine {entry : LogEntry chrono} (h : Lines.IsLine newline entry.content) :
    BatchAppend.OneLine entry := by
  obtain ⟨body, hbody, hnone⟩ := h
  have hpop : LineReader.popIf LineReader.newline (body ++ [newline]) = body :=
    LineReader.popIf_snoc body LineReader.newline
  rw [BatchAppend.OneLine, hbody, hpop]
  exact hnone

theorem Carried.record_line {r : Record} {todo : List Record} {lines : List (List Char)}
    {after : After} (h : Carried stderr st x chunks)
    (hp : st.processor = .processing (r :: todo) lines after) :
    Lines.IsLine newline r.content := by
  have hmem : r.content ∈ (recordsOf st.processor.final chunks).map Record.content := by
    rw [← h.written, hp]
    simp [Processor.toWrite]
  obtain ⟨r', hr', heq⟩ := List.mem_map.mp hmem
  rw [← heq]
  exact recordsOf_lines _ _ r' hr'

theorem legible_reachable (hinj : Function.Injective isStderr) {old : List UInt8}
    (hold : BatchAppend.LineStart old) {s : State W chrono}
    (hs : (machine rfc isStderr old).Reachable s) : BatchAppend.Legible isStderr old s.log := by
  refine (machine rfc isStderr old).reachable_induction'
    (J := fun s => BatchAppend.Legible isStderr old s.log) ?_ (fun s a hreach h he => ?_) hs
  · exact ⟨hold, nofun, nofun, nofun, fun _ => rfl⟩
  · cases a with
    | write k now =>
      obtain ⟨chunks, hk⟩ := reachable_carried rfc hreach k
      obtain ⟨⟨r, todo, lines, after, hp⟩, hroom⟩ := he
      have hopen : (s.log.writers k).closed = false := by
        rw [hk.closed, hp]
        rfl
      have hstep := BatchAppend.legible_next rfc hinj
        (a := .send k ⟨now, r.content, isStderr k⟩) h ⟨hopen, hroom⟩
        ⟨rfl, oneLine_of_isLine (hk.record_line hp)⟩
      simpa only [machine, next, State.write, hp] using hstep
    | close k =>
      obtain ⟨chunks, hk⟩ := reachable_carried rfc hreach k
      have hp : (s.streams k).processor = .closing := he
      have hopen : (s.log.writers k).closed = false := by
        rw [hk.closed, hp]
        rfl
      exact BatchAppend.legible_next rfc hinj (a := .close k) h hopen trivial
    | log a =>
      refine BatchAppend.legible_next rfc hinj h he.1 ?_
      cases a with
      | send => exact absurd he.2 id
      | _ => trivial
    | _ => exact h

theorem texts_eq (entries : List (LogEntry chrono)) :
    entries.map BatchAppend.text = (entries.map LogEntry.content).map LineReader.lineText := by
  rw [List.map_map]
  rfl

theorem fileLines_emitted (bytes : List UInt8) :
    LineReader.fileLines bytes = (Lines.lines newline bytes).map LineReader.lineText :=
  LineReader.fileLines_eq bytes

theorem tailEntries_contents {tail : Nat} {name : String} {file : List UInt8}
    (h : (LineReader.fileLines file).length ≤ tail) (level : Grep.LogLevel) :
    ((GetLogs.tailEntries chrono tail name file).filter (·.level = level)).map (·.content) =
      BatchAppend.readContents chrono level file := by
  have hall : (LineReader.fileLines file).zipIdx.rtake tail = (LineReader.fileLines file).zipIdx := by
    rw [List.rtake, List.length_zipIdx, Nat.sub_eq_zero_of_le h, List.drop_zero]
  rw [GetLogs.tailEntries_eq, hall, BatchAppend.readContents, List.filter_map, List.map_map,
    List.filter_map, List.map_map]
  generalize LineReader.fileLines file = lines
  have hmap : lines = lines.zipIdx.map Prod.fst := (List.zipIdx_map_fst 0 lines).symm
  conv => rhs; rw [hmap]
  rw [List.filter_map, List.map_map]
  rfl

theorem contents_read (hinj : Function.Injective isStderr) {old : List UInt8}
    (hold : BatchAppend.LineStart old) {s : State W chrono}
    (hs : (machine rfc isStderr old).Reachable s) {k : W}
    (hshort : ShortRuns (s.streams k).emitted) :
    BatchAppend.readContents chrono (BatchAppend.levelOf (isStderr k)) s.log.file <+:
        BatchAppend.readContents chrono (BatchAppend.levelOf (isStderr k)) old ++
          LineReader.fileLines (s.streams k).emitted ∧
      ((s.streams k).processor = .done →
        BatchAppend.readContents chrono (BatchAppend.levelOf (isStderr k)) s.log.file =
          BatchAppend.readContents chrono (BatchAppend.levelOf (isStderr k)) old ++
            LineReader.fileLines (s.streams k).emitted) := by
  have hread := (legible_reachable rfc hinj hold hs).readBack k
  obtain ⟨chunks, hk⟩ := reachable_carried rfc hs k
  rw [fileLines_emitted]
  constructor
  · have hinit : BatchAppend.readContents chrono (BatchAppend.levelOf (isStderr k)) s.log.file <+:
        BatchAppend.readContents chrono (BatchAppend.levelOf (isStderr k)) old ++
          (s.log.writers k).sent.map BatchAppend.text := ⟨_, hread⟩
    refine hinit.trans ((List.prefix_append_right_inj _).mpr ?_)
    rw [texts_eq]
    exact (hk.sent_initial.2 hshort).map _
  · intro hp
    obtain ⟨-, hqueue, hbatch⟩ :=
      BatchAppend.done_drained rfc ((refines_log rfc old).reachable hs) (hk.joined hp)
    rw [hqueue, hbatch, texts_eq (s.log.writers k).sent, (hk.finished hp).2.1 hshort] at hread
    exact (List.append_nil _).symm.trans hread

end

theorem short_july : ShortRuns [0x61, 10, 0x62] :=
  fun _ hrun _ => hrun.length_le.trans (by decide)

end Pipeline
