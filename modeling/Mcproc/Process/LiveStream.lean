import Mcproc.Common.Validation
import Mcproc.Lib.Utf8
import Mcproc.Process.HyperLog

namespace LiveStream

open HyperLog

-- The records of each call of `process_batch`, the last one for what the stream leaves behind.
def calls : List UInt8 → List (List (List UInt8)) → List (List Record)
  | lineBuffer, [] => [finalFlush lineBuffer]
  | lineBuffer, batch :: batches =>
    (processBatch lineBuffer batch).1 :: calls (processBatch lineBuffer batch).2 batches

def written (batches : List (List (List UInt8))) : List (List UInt8) :=
  (calls [] batches).flatMap fun records => records.map Record.content

def linesToPublish (records : List Record) : List (List Char) :=
  records.filterMap fun r => (Utf8.fromUtf8 r.content).map Validation.trimEnd

def publishLogEvent (content : List Char) : List Char := Validation.trimEnd content

def published (batches : List (List (List UInt8))) : List (List Char) :=
  (calls [] batches).flatMap fun records => (linesToPublish records).map publishLogEvent

def lossyContent (bytes : List UInt8) : List Char :=
  Validation.trimEnd (Utf8.fromUtf8Lossy bytes)

-- How many bytes without a newline are held after `chunk`.
def heldAfter (held : Nat) (chunk : List UInt8) : Nat :=
  chunk.foldl (fun n b => if b = newline then 0 else n + 1) held

-- The places of the stream, after `read` bytes of which `held` wait for their newline, where a line
-- is force-flushed.
def forcedCuts (read held : Nat) : List (List UInt8) → List Nat
  | [] => []
  | chunk :: chunks =>
    if maxLineBufferSize < heldAfter held chunk then
      (read + chunk.length) :: forcedCuts (read + chunk.length) 0 chunks
    else forcedCuts (read + chunk.length) (heldAfter held chunk) chunks

theorem heldAfter_eq (b chunk : List UInt8) :
    heldAfter b.length chunk = (Lines.feed newline b chunk).2.length := by
  induction chunk generalizing b with
  | nil => rfl
  | cons x xs ih =>
    simp only [heldAfter, List.foldl_cons, Lines.feed]
    split
    · exact ih []
    · rw [← ih (b ++ [x]), List.length_append]
      rfl

theorem valid_line {l : List UInt8} (rest : List UInt8) (hl : Lines.IsLine newline l) :
    Utf8.Valid (l ++ rest) ↔ Utf8.Valid l ∧ Utf8.Valid rest := by
  obtain ⟨body, rfl, -⟩ := hl
  have hascii : newline.toNat < 0x80 := by decide
  rw [List.append_assoc, List.singleton_append, Utf8.valid_append_ascii body rest hascii,
    Utf8.valid_append_ascii body [] hascii]
  simp [Utf8.valid_nil]

theorem valid_lines {ls : List (List UInt8)} (rest : List UInt8)
    (h : ∀ l ∈ ls, Lines.IsLine newline l) :
    Utf8.Valid (ls.flatten ++ rest) ↔ (∀ l ∈ ls, Utf8.Valid l) ∧ Utf8.Valid rest := by
  induction ls with
  | nil => simp
  | cons l ls ih =>
    rw [List.flatten_cons, List.append_assoc, valid_line _ (h l List.mem_cons_self),
      ih fun l hl => h l (List.mem_cons_of_mem _ hl), List.forall_mem_cons, and_assoc]

theorem valid_ended (rest : List UInt8) : Utf8.Valid (rest ++ [newline]) ↔ Utf8.Valid rest := by
  rw [Utf8.valid_append_ascii rest [] (by decide)]
  simp [Utf8.valid_nil]

theorem finalFlush_valid {b : List UInt8} (hb : newline ∉ b) :
    (∀ r ∈ finalFlush b, Utf8.Valid r.content) ↔ Utf8.Valid b := by
  rw [finalFlush_eq hb]
  split
  · next he => simp [he, Utf8.valid_nil]
  · simp [valid_ended]

theorem processChunk_valid {b : List UInt8} (c : List UInt8) (hb : newline ∉ b) :
    (∀ r ∈ (processChunk b c).1, Utf8.Valid r.content) ↔
      (∀ l ∈ (Lines.feed newline b c).1, Utf8.Valid l) ∧
        (maxLineBufferSize < heldAfter b.length c → Utf8.Valid (Lines.feed newline b c).2) := by
  rw [processChunk_eq c hb, heldAfter_eq]
  split
  · next hlong =>
    rw [List.forall_mem_append, List.forall_mem_map, List.forall_mem_singleton, valid_ended]
    simp [hlong]
  · next hshort => simp [hshort]

theorem processChunk_rest {b : List UInt8} (c : List UInt8) (hb : newline ∉ b) :
    (processChunk b c).2 =
      if maxLineBufferSize < heldAfter b.length c then [] else (Lines.feed newline b c).2 := by
  rw [processChunk_eq c hb, heldAfter_eq]
  split <;> rfl

-- `pre` is what has left the line buffer already.
theorem records_valid_iff (cs : List (List UInt8)) {pre b : List UInt8} (hpre : Utf8.Valid pre)
    (hb : newline ∉ b) :
    (∀ r ∈ (processBatch b cs).1 ++ finalFlush (processBatch b cs).2, Utf8.Valid r.content) ↔
      Utf8.Valid (pre ++ b ++ cs.flatten) ∧
        ∀ n ∈ forcedCuts (pre ++ b).length b.length cs,
          Utf8.Valid ((pre ++ b ++ cs.flatten).take n) := by
  induction cs generalizing pre b with
  | nil =>
    simp only [processBatch, List.nil_append, finalFlush_valid hb, forcedCuts, List.flatten_nil,
      List.append_nil, Utf8.valid_append b hpre]
    simp
  | cons c cs ih =>
    have hsplit := Lines.feed_flatten newline b c
    have hlines (rest : List UInt8) :=
      valid_lines rest (Lines.feed_lines newline hb (s := c))
    have hread (rest : List UInt8) : Utf8.Valid (pre ++ b ++ (c ++ rest)) ↔
        (∀ l ∈ (Lines.feed newline b c).1, Utf8.Valid l) ∧
          Utf8.Valid ((Lines.feed newline b c).2 ++ rest) := by
      rw [← hlines, ← List.append_assoc (Lines.feed newline b c).1.flatten, hsplit, List.append_assoc,
        Utf8.valid_append _ hpre, List.append_assoc]
    have hlen : (pre ++ b).length + c.length = (pre ++ b ++ c).length := by
      exact (List.length_append).symm
    rw [processBatch, List.append_assoc, List.forall_mem_append, processChunk_valid c hb,
      processChunk_rest c hb, List.flatten_cons, forcedCuts, hlen]
    by_cases hL : ∀ l ∈ (Lines.feed newline b c).1, Utf8.Valid l
    · split
      · next hlong =>
        by_cases hrest : Utf8.Valid (Lines.feed newline b c).2
        · have hall : Utf8.Valid (pre ++ b ++ c) := by
            have h := (hread []).mpr ⟨hL, by rwa [List.append_nil]⟩
            rwa [List.append_nil] at h
          have hih := ih (b := []) hall List.not_mem_nil
          rw [List.append_nil, List.length_nil] at hih
          rw [hih, List.forall_mem_cons, ← List.append_assoc, List.take_left]
          tauto
        · constructor
          · exact fun h => absurd (h.1.2 hlong) hrest
          · rintro ⟨-, h⟩
            have hcut := h _ List.mem_cons_self
            rw [← List.append_assoc, List.take_left] at hcut
            have h := (hread []).mp (by rwa [List.append_nil])
            exact absurd (by simpa using h.2) hrest
      · next hshort =>
        have hpre' : Utf8.Valid (pre ++ (Lines.feed newline b c).1.flatten) := by
          rw [Utf8.valid_append _ hpre, ← List.append_nil (List.flatten _), hlines]
          exact ⟨hL, Utf8.valid_nil⟩
        have hbuffer : pre ++ (Lines.feed newline b c).1.flatten ++ (Lines.feed newline b c).2 =
            pre ++ b ++ c := by
          rw [List.append_assoc, hsplit, List.append_assoc]
        have hih := ih hpre' (Lines.feed_rest newline hb (s := c))
        rw [hbuffer, ← heldAfter_eq] at hih
        rw [hih, ← List.append_assoc]
        tauto
    · constructor
      · exact fun h => absurd h.1.1 hL
      · exact fun h => absurd ((hread _).mp h.1).1 hL

theorem calls_records (b : List UInt8) (batches : List (List (List UInt8))) :
    (calls b batches).flatten =
      (processBatch b batches.flatten).1 ++ finalFlush (processBatch b batches.flatten).2 := by
  induction batches generalizing b with
  | nil => simp [calls, processBatch]
  | cons batch batches ih =>
    rw [calls, List.flatten_cons, ih, List.flatten_cons, processBatch_append, List.append_assoc]

theorem written_eq (batches : List (List (List UInt8))) :
    written batches = (calls [] batches).flatten.map Record.content := by
  rw [written, List.map_flatten, List.flatMap_def]

theorem published_eq (batches : List (List (List UInt8))) :
    published batches =
      ((calls [] batches).flatten.filterMap fun r =>
        (Utf8.fromUtf8 r.content).map Validation.trimEnd).map publishLogEvent := by
  rw [published, ← List.map_flatMap]
  congr 1
  induction calls [] batches with
  | nil => rfl
  | cons records rest ih => rw [List.flatMap_cons, ih, List.flatten_cons, List.filterMap_append]; rfl

theorem strict_eq_lossy_iff (records : List Record) :
    ((records.filterMap fun r => (Utf8.fromUtf8 r.content).map Validation.trimEnd).map
        publishLogEvent = (records.map Record.content).map lossyContent) ↔
      ∀ r ∈ records, Utf8.Valid r.content := by
  induction records with
  | nil => simp
  | cons r records ih =>
    rw [List.forall_mem_cons, ← ih]
    by_cases hr : Utf8.Valid r.content
    · have hhead : publishLogEvent (Validation.trimEnd (Utf8.fromUtf8Lossy r.content)) =
          lossyContent r.content := Validation.trimEnd_trimEnd _
      simp [Utf8.fromUtf8_valid hr, hr, hhead]
    · have hlen := List.length_filterMap_le
        (fun r : Record => (Utf8.fromUtf8 r.content).map Validation.trimEnd) records
      simp only [List.filterMap_cons, Utf8.fromUtf8_invalid hr, Option.map_none, hr, false_and,
        iff_false]
      intro heq
      have h := congrArg List.length heq
      simp only [List.length_map, List.length_cons] at h
      omega

theorem live_stream_agrees_iff (batches : List (List (List UInt8))) :
    published batches = (written batches).map lossyContent ↔
      Utf8.Valid batches.flatten.flatten ∧
        ∀ n ∈ forcedCuts 0 0 batches.flatten, Utf8.Valid (batches.flatten.flatten.take n) := by
  rw [published_eq, written_eq, strict_eq_lossy_iff, calls_records]
  exact records_valid_iff batches.flatten Utf8.valid_nil List.not_mem_nil

theorem invalid_line_not_published :
    ¬ published [[[0xff, 10]]] = (written [[[0xff, 10]]]).map lossyContent := by
  decide

end LiveStream
