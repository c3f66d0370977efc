import Mcproc.Api.GetLogs
import Mcproc.Log.BatchWriter
import Mcproc.Rpc.Stdio

namespace StderrTail

open BatchWriter (LogEntry flushBatch header record record_eq)
open GetLogs (LogFile)
open LineReader (carriageReturn lineText newline popIf popIf_snoc)
open Stdio (chomp nextLine rawLines)
open Tails (length_rtake rtake_append_right rtake_filter rtake_map rtake_of_length_le)

def maxTailLines : Nat := 200

def marked (line : String) : Bool := decide ("[ERROR]".toList <:+: line.toList)

def mapWhile {A B : Type} (f : A → Option B) : List A → List B
  | [] => []
  | x :: xs =>
    match f x with
    | none => []
    | some y => y :: mapWhile f xs

-- The reader ends at the first line that is not UTF-8.
def extractStderrTail : LogFile → String
  | .absent | .unreadable => ""
  | .bytes file =>
    "\n".intercalate (((mapWhile nextLine (rawLines file)).filter marked).rtake maxTailLines)

-- What a stream hands to the writer: one line, with its newline or without.
structure StreamEntry (chrono : Chrono) extends LogEntry chrono where
  oneLine : newline ∉ popIf newline content

section
variable {chrono : Chrono} (rfc : Rfc3339 chrono)

def StreamEntry.ofRecord (t : chrono.DateTime) (isStderr : Bool) (r : HyperLog.Record)
    (h : Lines.IsLine newline r.content) : StreamEntry chrono where
  timestamp := t
  content := r.content
  isStderr := isStderr
  oneLine := by
    obtain ⟨body, hbody, hnot⟩ := h
    rwa [hbody, popIf_snoc]

def raw (e : StreamEntry chrono) : List UInt8 := record rfc e.toLogEntry

def text (e : StreamEntry chrono) : String := lineText (raw rfc e)

def logFile (es : List (StreamEntry chrono)) : List UInt8 :=
  flushBatch rfc (es.map StreamEntry.toLogEntry)

def stderrTail (es : List (StreamEntry chrono)) : String :=
  "\n".intercalate (((es.filter (·.isStderr)).map (text rfc)).rtake maxTailLines)

def decodable (es : List (StreamEntry chrono)) : List (StreamEntry chrono) :=
  es.takeWhile fun e => Utf8.Valid (raw rfc e)

def undecoded (es : List (StreamEntry chrono)) : List (StreamEntry chrono) :=
  es.dropWhile fun e => Utf8.Valid (raw rfc e)

def stderrTexts (es : List (StreamEntry chrono)) : List String :=
  (es.filter (·.isStderr)).map (text rfc)

-- The records from the first undecodable line on are not read: either none of them is of stderr
-- or the last lines before it repeat them.
structure Extractable (es : List (StreamEntry chrono)) : Prop where
  stderrOnly : ∀ e ∈ ((decodable rfc es).filter fun e => marked (text rfc e)).rtake maxTailLines,
    e.isStderr = true
  nothingLost : stderrTexts rfc (undecoded rfc es) = [] ∨
    maxTailLines ≤ (stderrTexts rfc (decodable rfc es)).length ∧
      (stderrTexts rfc (decodable rfc es)).rtake maxTailLines =
        (stderrTexts rfc (decodable rfc es) ++ stderrTexts rfc (undecoded rfc es)).rtake maxTailLines

theorem mapWhile_map {A B C : Type} {f : B → Option C} {g : A → B} {t : A → C} {valid : A → Bool}
    (h : ∀ x, f (g x) = if valid x then some (t x) else none) (xs : List A) :
    mapWhile f (xs.map g) = (xs.takeWhile valid).map t := by
  induction xs with
  | nil => rfl
  | cons x xs ih =>
    rw [List.map_cons, mapWhile, h, List.takeWhile_cons]
    cases valid x with
    | true => exact congrArg (t x :: ·) ih
    | false => rfl

theorem raw_eq (e : StreamEntry chrono) :
    raw rfc e =
      (header rfc e.toLogEntry).flatMap String.utf8EncodeChar ++ popIf newline e.content ++
        [newline] :=
  record_eq rfc e.toLogEntry

theorem rawLines_logFile (es : List (StreamEntry chrono)) :
    rawLines (logFile rfc es) = es.map (raw rfc) := by
  have hfeed : Lines.feed newline [] (logFile rfc es) = (es.map (raw rfc), []) := by
    induction es with
    | nil => rfl
    | cons e es ih =>
      have hbody : newline ∉
          (header rfc e.toLogEntry).flatMap String.utf8EncodeChar ++ popIf newline e.content := by
        rw [List.mem_append, not_or]
        exact ⟨BatchWriter.newline_not_mem_encode (BatchWriter.header_plain rfc _), e.oneLine⟩
      have hcons : logFile rfc (e :: es) = raw rfc e ++ logFile rfc es := rfl
      rw [hcons, raw_eq, Lines.feed_line newline _ hbody, ih, List.map_cons, raw_eq]
  rw [Stdio.rawLines_eq, hfeed]
  simp

theorem chomp_lossy {bytes : List UInt8} (h : Utf8.Valid bytes) :
    chomp (Utf8.fromUtf8Lossy bytes ++ ['\n']) = Utf8.fromUtf8Lossy (popIf carriageReturn bytes) := by
  simp only [chomp, List.getLast?_concat, if_true, List.dropLast_concat]
  by_cases hlast : bytes.getLast? = some carriageReturn
  · obtain ⟨front, rfl⟩ := List.getLast?_eq_some_iff.mp hlast
    rw [popIf_snoc, Utf8.lossy_snoc_ascii front (by decide)]
    simp [carriageReturn]
  · have hno : (Utf8.fromUtf8Lossy bytes).getLast? ≠ some '\r' := by
      intro hchar
      obtain ⟨cs, hcs⟩ := List.getLast?_eq_some_iff.mp hchar
      have hback := Utf8.encode_of_fromUtf8 (Utf8.fromUtf8_valid h)
      rw [hcs, Utf8.encode, String.toList_ofList, List.flatMap_append] at hback
      exact hlast (List.getLast?_eq_some_iff.mpr ⟨_, hback.symm⟩)
    rw [if_neg hno, popIf, if_neg hlast]

theorem nextLine_raw (e : StreamEntry chrono) :
    nextLine (raw rfc e) = if Utf8.Valid (raw rfc e) then some (text rfc e) else none := by
  split
  · next h =>
    rw [raw_eq] at h
    have hbody := (Utf8.valid_append_ascii _ [] (by decide)).mp h
    rw [nextLine, Utf8.fromUtf8_valid (raw_eq rfc e ▸ h), text, lineText, raw_eq, popIf_snoc,
      Utf8.lossy_snoc_ascii _ (by decide)]
    exact congrArg (fun cs => some (String.ofList cs)) (chomp_lossy hbody.1)
  · next h => rw [nextLine, Utf8.fromUtf8_invalid h]; rfl

theorem text_eq (e : StreamEntry chrono) :
    (text rfc e).toList = header rfc e.toLogEntry ++
      Utf8.fromUtf8Lossy (popIf carriageReturn (popIf newline e.content)) := by
  rw [text, raw, BatchWriter.record_lineText, String.toList_ofList]

theorem marked_stderr {e : StreamEntry chrono} (h : e.isStderr = true) :
    marked (text rfc e) = true := by
  refine decide_eq_true ?_
  rw [text_eq, header, h]
  refine ⟨(rfc.toRfc3339Millis e.timestamp).toList ++ [' '],
    ' ' :: Utf8.fromUtf8Lossy (popIf carriageReturn (popIf newline e.content)), ?_⟩
  simp [BatchWriter.levelName]

theorem text_stream {e e' : StreamEntry chrono} (h : text rfc e = text rfc e') :
    e.isStderr = e'.isStderr := by
  have hlevel := (BatchWriter.record_readBack rfc e.toLogEntry).level
  have hlevel' := (BatchWriter.record_readBack rfc e'.toLogEntry).level
  have hsame : lineText (record rfc e.toLogEntry) = lineText (record rfc e'.toLogEntry) := h
  rw [hsame, hlevel'] at hlevel
  cases hs : e.isStderr <;> cases hs' : e'.isStderr <;> simp [hs, hs'] at hlevel ⊢

theorem newline_not_mem_text (e : StreamEntry chrono) : '\n' ∉ (text rfc e).toList := by
  rw [text_eq, List.mem_append, not_or]
  refine ⟨fun h => (BatchWriter.header_plain rfc _ _ h).2 rfl, fun h => e.oneLine ?_⟩
  have hbyte := Utf8.mem_of_mem_lossy ⟨by decide, by decide⟩ h
  rw [popIf] at hbyte
  split at hbyte
  · exact List.mem_of_mem_dropLast hbyte
  · exact hbyte

theorem text_ne_nil (e : StreamEntry chrono) : (text rfc e).toList ≠ [] := by
  rw [text_eq, header]
  simp

end

def TextLine (s : String) : Prop := '\n' ∉ s.toList ∧ s.toList ≠ []

theorem splitOn_join {xs : List String} (hx : ∀ x ∈ xs, TextLine x) (hne : xs ≠ []) :
    ("\n".intercalate xs).toList.splitOn '\n' = xs.map String.toList := by
  have hsep : "\n".toList = ['\n'] := by decide
  rw [String.toList_intercalate, hsep, List.splitOn_intercalate]
  · intro l hl
    obtain ⟨x, hmem, rfl⟩ := List.mem_map.mp hl
    exact (hx x hmem).1
  · exact fun e => hne (List.map_eq_nil_iff.mp e)

theorem join_ne_empty {xs : List String} (hx : ∀ x ∈ xs, TextLine x) (hne : xs ≠ []) :
    "\n".intercalate xs ≠ "" := by
  intro h
  have hsplit := splitOn_join hx hne
  rw [h] at hsplit
  obtain ⟨x, xs, rfl⟩ := List.exists_cons_of_ne_nil hne
  exact (hx x List.mem_cons_self).2 (List.cons.inj hsplit.symm).1

theorem join_injective {xs ys : List String} (hx : ∀ x ∈ xs, TextLine x)
    (hy : ∀ y ∈ ys, TextLine y) (h : "\n".intercalate xs = "\n".intercalate ys) : xs = ys := by
  by_cases hxn : xs = [] <;> by_cases hyn : ys = []
  · rw [hxn, hyn]
  · rw [hxn] at h
    exact absurd h.symm (join_ne_empty hy hyn)
  · rw [hyn] at h
    exact absurd h (join_ne_empty hx hxn)
  · have hsplit := splitOn_join hx hxn
    rw [h, splitOn_join hy hyn] at hsplit
    exact List.map_injective_iff.mpr (fun _ _ => String.toList_injective) hsplit.symm

section
variable {chrono : Chrono} (rfc : Rfc3339 chrono)

theorem textLine_text (e : StreamEntry chrono) : TextLine (text rfc e) :=
  ⟨newline_not_mem_text rfc e, text_ne_nil rfc e⟩

theorem extractStderrTail_eq (es : List (StreamEntry chrono)) :
    extractStderrTail (.bytes (logFile rfc es)) =
      "\n".intercalate ((((decodable rfc es).filter fun e => marked (text rfc e)).rtake
        maxTailLines).map (text rfc)) := by
  have hnext : ∀ e, nextLine (raw rfc e) =
      if decide (Utf8.Valid (raw rfc e)) = true then some (text rfc e) else none := by
    intro e
    simpa using nextLine_raw rfc e
  have hread : mapWhile nextLine (es.map (raw rfc)) = (decodable rfc es).map (text rfc) :=
    mapWhile_map hnext es
  have hfilter : ((decodable rfc es).map (text rfc)).filter marked =
      ((decodable rfc es).filter fun e => marked (text rfc e)).map (text rfc) := by
    simp only [List.filter_map, Function.comp_def]
  simp only [extractStderrTail, rawLines_logFile, hread, hfilter, rtake_map]

theorem stderrTexts_append (es : List (StreamEntry chrono)) :
    stderrTexts rfc es = stderrTexts rfc (decodable rfc es) ++ stderrTexts rfc (undecoded rfc es) := by
  rw [stderrTexts, stderrTexts, stderrTexts, ← List.map_append, ← List.filter_append, decodable,
    undecoded, List.takeWhile_append_dropWhile]

theorem marked_rtake {es : List (StreamEntry chrono)} {n : Nat}
    (h : ∀ e ∈ (es.filter fun e => marked (text rfc e)).rtake n, e.isStderr = true) :
    ((es.filter fun e => marked (text rfc e)).rtake n).map (text rfc) =
      (stderrTexts rfc es).rtake n := by
  have hfilter : (es.filter fun e => marked (text rfc e)).filter (·.isStderr) =
      es.filter (·.isStderr) := by
    rw [List.filter_filter]
    refine List.filter_congr fun e _ => ?_
    cases hs : e.isStderr with
    | true => rw [marked_stderr rfc hs]; rfl
    | false => rfl
  rw [stderrTexts, rtake_map, ← hfilter, rtake_filter h]

theorem nothingLost_iff {S Q : List String} {n : Nat} :
    S.rtake n = (S ++ Q).rtake n ↔ Q = [] ∨ n ≤ S.length ∧ S.rtake n = (S ++ Q).rtake n := by
  constructor
  · intro h
    by_cases hQ : Q = []
    · exact Or.inl hQ
    · have hlen := congrArg List.length h
      have hpos := List.length_pos_of_ne_nil hQ
      rw [length_rtake, length_rtake, List.length_append] at hlen
      exact Or.inr ⟨by omega, h⟩
  · rintro (rfl | ⟨-, h⟩)
    · rw [List.append_nil]
    · exact h

theorem stderr_tail_iff (es : List (StreamEntry chrono)) :
    extractStderrTail (.bytes (logFile rfc es)) = stderrTail rfc es ↔ Extractable rfc es := by
  have hlost := nothingLost_iff (S := stderrTexts rfc (decodable rfc es))
    (Q := stderrTexts rfc (undecoded rfc es)) (n := maxTailLines)
  have htail : stderrTail rfc es = "\n".intercalate
      ((stderrTexts rfc (decodable rfc es) ++ stderrTexts rfc (undecoded rfc es)).rtake
        maxTailLines) := by
    rw [← stderrTexts_append]
    rfl
  rw [extractStderrTail_eq, htail]
  constructor
  · intro h
    have hlists := join_injective (fun x hx => ?_) (fun x hx => ?_) h
    have honly : ∀ e ∈ ((decodable rfc es).filter fun e => marked (text rfc e)).rtake maxTailLines,
        e.isStderr = true := by
      intro e he
      have hmem := List.mem_map_of_mem (f := text rfc) he
      rw [hlists, ← stderrTexts_append] at hmem
      obtain ⟨e', he', htext⟩ := List.mem_map.mp (List.mem_of_mem_drop hmem)
      rw [← text_stream rfc htext]
      exact (List.mem_filter.mp he').2
    · refine ⟨honly, hlost.mp ?_⟩
      rw [← marked_rtake rfc honly, hlists]
    · obtain ⟨e, -, rfl⟩ := List.mem_map.mp hx
      exact textLine_text rfc e
    · rw [← stderrTexts_append] at hx
      obtain ⟨e, -, rfl⟩ := List.mem_map.mp (List.mem_of_mem_drop hx)
      exact textLine_text rfc e
  · rintro ⟨honly, hkept⟩
    rw [marked_rtake rfc honly, hlost.mpr hkept]

end

def julyStream (content : List UInt8) (isStderr : Bool) (h : newline ∉ popIf newline content) :
    StreamEntry BatchWriter.julyChrono :=
  ⟨⟨true, content, isStderr⟩, h⟩

theorem stdout_line_in_stderr_tail :
    ¬ ∀ (chrono : Chrono) (rfc : Rfc3339 chrono) (es : List (StreamEntry chrono)),
      extractStderrTail (.bytes (logFile rfc es)) = stderrTail rfc es := by
  intro hall
  have htail := hall _ BatchWriter.julyRfc3339
    [julyStream (Utf8.encode "[ERROR] disk full") false (by decide)]
  exact absurd htail (by decide)

end StderrTail
