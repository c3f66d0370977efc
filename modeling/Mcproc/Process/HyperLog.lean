import Mathlib.Data.List.Infix
import Mcproc.Lib.Lines

namespace HyperLog

def chunkSize : Nat := 8192
def batchSize : Nat := 4
def maxLineBufferSize : Nat := 1024 * 1024

def newline : UInt8 := 10

structure Record where
  content : List UInt8
  forced : Bool
  deriving DecidableEq, Repr

-- Every pass of the loop removes at least the newline it found.
def drainLines : Nat → List UInt8 → List Record × List UInt8
  | 0, buffer => ([], buffer)
  | fuel + 1, buffer =>
    match Lines.cut newline buffer with
    | none => ([], buffer)
    | some (line, rest) => (⟨line, false⟩ :: (drainLines fuel rest).1, (drainLines fuel rest).2)

def processChunk (lineBuffer chunk : List UInt8) : List Record × List UInt8 :=
  let buffer := lineBuffer ++ chunk
  let (records, rest) := drainLines buffer.length buffer
  if maxLineBufferSize < rest.length then (records ++ [⟨rest ++ [newline], true⟩], [])
  else (records, rest)

def processBatch : List UInt8 → List (List UInt8) → List Record × List UInt8
  | lineBuffer, [] => ([], lineBuffer)
  | lineBuffer, chunk :: batch =>
    let r := processChunk lineBuffer chunk
    let t := processBatch r.2 batch
    (r.1 ++ t.1, t.2)

def processBatches : List UInt8 → List (List (List UInt8)) → List Record × List UInt8
  | lineBuffer, [] => ([], lineBuffer)
  | lineBuffer, batch :: batches =>
    let r := processBatch lineBuffer batch
    let t := processBatches r.2 batches
    (r.1 ++ t.1, t.2)

def finalFlush (lineBuffer : List UInt8) : List Record :=
  if lineBuffer = [] then [] else (processBatch (lineBuffer ++ [newline]) [[]]).1

def Record.payload (r : Record) : List UInt8 :=
  if r.forced then r.content.dropLast else r.content

theorem drainLines_eq {fuel : Nat} {buffer : List UInt8} (h : buffer.length ≤ fuel) :
    drainLines fuel buffer =
      ((Lines.feed newline [] buffer).1.map (⟨·, false⟩), (Lines.feed newline [] buffer).2) := by
  induction fuel generalizing buffer with
  | zero =>
    obtain rfl := List.eq_nil_of_length_eq_zero (Nat.le_zero.mp h)
    rfl
  | succ fuel ih =>
    simp only [drainLines]
    split
    · next hn =>
      rw [Lines.feed_of_not_mem newline [] (Lines.cut_none newline hn)]
      rfl
    · next line rest hs =>
      obtain ⟨body, rfl, hbody, rfl⟩ := Lines.cut_some newline hs
      have hlen : rest.length ≤ fuel := by
        simp only [List.length_append, List.length_singleton] at h
        omega
      rw [ih hlen, Lines.feed_line newline rest hbody]
      rfl

theorem processChunk_eq {b : List UInt8} (c : List UInt8) (hb : newline ∉ b) :
    processChunk b c =
      if maxLineBufferSize < (Lines.feed newline b c).2.length then
        ((Lines.feed newline b c).1.map (⟨·, false⟩) ++
          [⟨(Lines.feed newline b c).2 ++ [newline], true⟩], [])
      else ((Lines.feed newline b c).1.map (⟨·, false⟩), (Lines.feed newline b c).2) := by
  simp only [processChunk, drainLines_eq (Nat.le_refl _), Lines.feed_nil_append newline c hb]

def Kept (b : List UInt8) : Prop := newline ∉ b ∧ b.length ≤ maxLineBufferSize

theorem processChunk_kept {b : List UInt8} (c : List UInt8) (hb : newline ∉ b) :
    Kept (processChunk b c).2 := by
  rw [processChunk_eq c hb]
  split
  · exact ⟨List.not_mem_nil, Nat.zero_le _⟩
  · next hle => exact ⟨Lines.feed_rest newline hb, Nat.le_of_not_lt hle⟩

theorem processChunk_lines {b : List UInt8} (c : List UInt8) (hb : newline ∉ b) :
    ∀ r ∈ (processChunk b c).1, Lines.IsLine newline r.content := by
  have hlines : ∀ r ∈ (Lines.feed newline b c).1.map (⟨·, false⟩ : List UInt8 → Record),
      Lines.IsLine newline r.content := by
    intro r hr
    obtain ⟨l, hl, rfl⟩ := List.mem_map.mp hr
    exact Lines.feed_lines newline hb l hl
  rw [processChunk_eq c hb]
  split
  · intro r hr
    rcases List.mem_append.mp hr with hr | hr
    · exact hlines r hr
    · obtain rfl := List.mem_singleton.mp hr
      exact ⟨_, rfl, Lines.feed_rest newline hb⟩
  · exact hlines

theorem payload_complete (ls : List (List UInt8)) :
    (ls.map (⟨·, false⟩ : List UInt8 → Record)).map Record.payload = ls := by
  simp [Function.comp_def, Record.payload]

theorem processChunk_payload {b : List UInt8} (c : List UInt8) (hb : newline ∉ b) :
    ((processChunk b c).1.map Record.payload).flatten ++ (processChunk b c).2 = b ++ c := by
  rw [processChunk_eq c hb, ← Lines.feed_flatten newline b c]
  split
  · rw [List.map_append, payload_complete]
    simp [Record.payload]
  · rw [payload_complete]

theorem processBatch_append (b : List UInt8) (cs ds : List (List UInt8)) :
    processBatch b (cs ++ ds) =
      ((processBatch b cs).1 ++ (processBatch (processBatch b cs).2 ds).1,
        (processBatch (processBatch b cs).2 ds).2) := by
  induction cs generalizing b with
  | nil => rfl
  | cons c cs ih => simp [processBatch, ih]

theorem processBatches_eq (b : List UInt8) (batches : List (List (List UInt8))) :
    processBatches b batches = processBatch b batches.flatten := by
  induction batches generalizing b with
  | nil => rfl
  | cons batch batches ih => rw [processBatches, List.flatten_cons, processBatch_append, ih]

theorem processBatch_kept {b : List UInt8} (cs : List (List UInt8)) (hb : Kept b) :
    Kept (processBatch b cs).2 := by
  induction cs generalizing b with
  | nil => exact hb
  | cons c cs ih => exact ih (processChunk_kept c hb.1)

theorem processBatch_lines {b : List UInt8} (cs : List (List UInt8)) (hb : newline ∉ b) :
    ∀ r ∈ (processBatch b cs).1, Lines.IsLine newline r.content := by
  induction cs generalizing b with
  | nil => intro r hr; cases hr
  | cons c cs ih =>
    intro r hr
    rcases List.mem_append.mp hr with hr | hr
    · exact processChunk_lines c hb r hr
    · exact ih (processChunk_kept c hb).1 r hr

theorem processBatch_payload {b : List UInt8} (cs : List (List UInt8)) (hb : newline ∉ b) :
    ((processBatch b cs).1.map Record.payload).flatten ++ (processBatch b cs).2 =
      b ++ cs.flatten := by
  induction cs generalizing b with
  | nil => simp [processBatch]
  | cons c cs ih =>
    have hc := processChunk_payload c hb
    have hcs := ih (processChunk_kept c hb).1
    simp only [processBatch, List.map_append, List.flatten_append, List.flatten_cons,
      List.append_assoc]
    rw [hcs, ← List.append_assoc, hc, List.append_assoc]

def ShortRuns (s : List UInt8) : Prop :=
  ∀ run, run <:+: s → newline ∉ run → run.length ≤ maxLineBufferSize

theorem processBatch_short {b : List UInt8} (cs : List (List UInt8)) (hb : newline ∉ b)
    (hs : ShortRuns (b ++ cs.flatten)) :
    (processBatch b cs).1.map Record.content = (Lines.feed newline b cs.flatten).1 ∧
      (processBatch b cs).2 = (Lines.feed newline b cs.flatten).2 := by
  induction cs generalizing b with
  | nil => exact ⟨rfl, rfl⟩
  | cons c cs ih =>
    have hrest := Lines.feed_rest newline (s := c) hb
    have hsuf := Lines.feed_suffix newline b c
    have hshort : ¬ maxLineBufferSize < (Lines.feed newline b c).2.length := by
      refine Nat.not_lt.mpr (hs _ ?_ hrest)
      rw [List.flatten_cons, ← List.append_assoc]
      exact hsuf.isInfix.trans (List.prefix_append _ _).isInfix
    have hchunk : processChunk b c =
        ((Lines.feed newline b c).1.map (⟨·, false⟩), (Lines.feed newline b c).2) := by
      rw [processChunk_eq c hb, if_neg hshort]
    have hs' : ShortRuns ((Lines.feed newline b c).2 ++ cs.flatten) := by
      intro run hrun
      refine hs run (hrun.trans ?_)
      rw [List.flatten_cons, ← List.append_assoc]
      obtain ⟨pre, hpre⟩ := hsuf
      exact ⟨pre, [], by rw [← hpre]; simp⟩
    obtain ⟨h₁, h₂⟩ := ih hrest hs'
    rw [List.flatten_cons, Lines.feed_append]
    simp only [processBatch, hchunk, List.map_append, h₁, h₂, and_true]
    simp [Function.comp_def]

theorem finalFlush_eq {b : List UInt8} (hb : newline ∉ b) :
    finalFlush b = if b = [] then [] else [⟨b ++ [newline], false⟩] := by
  simp only [finalFlush]
  split
  · rfl
  · simp only [processBatch, processChunk, drainLines_eq (Nat.le_refl _),
      Lines.feed_line newline [] hb]
    rfl

structure Output where
  records : List Record
  lineBuffer : List UInt8
  final : List Record
  deriving DecidableEq, Repr

def logStream (batches : List (List (List UInt8))) : Output where
  records := (processBatches [] batches).1
  lineBuffer := (processBatches [] batches).2
  final := finalFlush (processBatches [] batches).2

theorem splitting_faithful (batches : List (List (List UInt8))) :
    (∀ r ∈ (logStream batches).records ++ (logStream batches).final,
        Lines.IsLine newline r.content) ∧
      ((logStream batches).records.map Record.payload).flatten ++
          ((logStream batches).final.map fun r => r.content.dropLast).flatten =
        batches.flatten.flatten ∧
      newline ∉ (logStream batches).lineBuffer ∧
      (logStream batches).lineBuffer.length ≤ maxLineBufferSize ∧
      (ShortRuns batches.flatten.flatten →
        ((logStream batches).records ++ (logStream batches).final).map Record.content =
          Lines.lines newline batches.flatten.flatten) := by
  have hempty : newline ∉ ([] : List UInt8) := List.not_mem_nil
  have hkept : Kept (processBatch [] batches.flatten).2 :=
    processBatch_kept _ ⟨hempty, Nat.zero_le _⟩
  simp only [logStream, processBatches_eq, finalFlush_eq hkept.1]
  refine ⟨?_, ?_, hkept.1, hkept.2, ?_⟩
  · intro r hr
    rcases List.mem_append.mp hr with hr | hr
    · exact processBatch_lines _ hempty r hr
    · split at hr
      · cases hr
      · obtain rfl := List.mem_singleton.mp hr
        exact ⟨_, rfl, hkept.1⟩
  · have hpay := processBatch_payload batches.flatten hempty
    rw [List.nil_append] at hpay
    rw [← hpay]
    split
    · next he => simp [he]
    · simp
  · intro hs
    obtain ⟨h₁, h₂⟩ := processBatch_short batches.flatten hempty hs
    rw [List.map_append, h₁, h₂, Lines.lines_eq]
    split <;> rfl

theorem splitting_faithful_two_lines :
    ((logStream [[[97], [10, 98]]]).records ++ (logStream [[[97], [10, 98]]]).final).map
      Record.content = [[97, 10], [98, 10]] := by
  refine (splitting_faithful [[[97], [10, 98]]]).2.2.2.2 fun run hrun _ => ?_
  exact hrun.length_le.trans (by decide)

end HyperLog
