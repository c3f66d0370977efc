import Mcproc.Log.Capture

namespace Grep

section
variable {chrono : Chrono} {q : Query chrono}

theorem stripPrefix_some {pre cs rest : List Char} (h : stripPrefix pre cs = some rest) :
    cs = pre ++ rest := by
  simp only [stripPrefix] at h
  split at h
  · next hp =>
    obtain ⟨more, rfl⟩ := List.isPrefixOf_iff_prefix.mp hp
    rw [← Option.some.inj h, List.drop_left]
  · cases h

theorem parseLogLine_suffix (line : String) :
    (parseLogLine chrono line).2.2.toList <:+ line.toList := by
  simp only [parseLogLine]
  split
  · exact List.suffix_refl _
  · next timestamp space rest hspan =>
    rw [List.span_eq_takeWhile_dropWhile] at hspan
    obtain ⟨-, hrest⟩ := Prod.mk.inj hspan
    have hline : space :: rest <:+ line.toList := hrest ▸ List.dropWhile_suffix _
    have hcontent : rest <:+ line.toList := (List.suffix_cons space rest).trans hline
    split
    · next content hcut =>
      rw [String.toList_ofList]
      exact (stripPrefix_some hcut ▸ List.suffix_append _ _ : content <:+ rest).trans hcontent
    · split
      · next content hcut =>
        rw [String.toList_ofList]
        exact (stripPrefix_some hcut ▸ List.suffix_append _ _ : content <:+ rest).trans hcontent
      · rw [String.toList_ofList]
        exact hcontent

theorem future_lines (isMatch : String → Bool) (before after : Nat)
    (buffer lines : List ParsedLogLine) :
    (future isMatch before after buffer lines).filterMap GrepMatch.matchedLine =
      (lines.filter fun l => isMatch l.original).map ParsedLogLine.toLogEntry := by
  induction lines generalizing buffer with
  | nil => rfl
  | cons l lines ih =>
    rw [future, List.filterMap_append, ih, List.filter_cons]
    split <;> rfl

-- What a search shows of the lines of one level.
def foundContents (level : LogLevel) (found : List GrepMatch) : List String :=
  ((found.filterMap GrepMatch.matchedLine).filter (·.level = level)).map (·.content)

theorem foundContents_eq (now : chrono.DateTime) (hsince : q.sinceTime = none)
    (huntil : q.untilTime = none) {file : List UInt8}
    (hlen : (LineReader.fileLines file).length < 2 ^ 32)
    (hfew : (grepLogFile chrono now q file).length < maxGrepMatches) (level : LogLevel) :
    foundContents level (grepLogFile chrono now q file) =
      ((((LineReader.fileLines file).filter q.isMatch).map (parseLogLine chrono)).filter
        (·.2.1 = level)).map (·.2.2) := by
  have hlines : (Lines.lines LineReader.newline file).length < 2 ^ 32 := by
    rwa [LineReader.fileLines_eq, List.length_map] at hlen
  have hall := grepLogFile_future chrono now q hlines
  rw [hall, List.length_take] at hfew
  rw [hall, List.take_of_length_le (by omega), foundContents, future_lines,
    GetLogs.filteredLines_all chrono hsince huntil]
  generalize LineReader.fileLines file = lines
  have hmap : lines = (lines.zipIdx 1).map Prod.fst := (List.zipIdx_map_fst 1 lines).symm
  conv => rhs; rw [hmap]
  simp only [List.filter_map, List.map_map]
  rfl

-- A pattern without anchors finds in a line what it finds in the end of it.
def Unanchored (isMatch : String → Bool) : Prop :=
  ∀ line text : String, text.toList <:+ line.toList → isMatch text = true → isMatch line = true

variable (chrono) in
theorem contents_found {isMatch : String → Bool} (h : Unanchored isMatch) (level : LogLevel)
    (lines : List String) :
    ((((lines.map (parseLogLine chrono)).filter (·.2.1 = level)).map (·.2.2)).filter
        isMatch).Sublist
      ((((lines.filter isMatch).map (parseLogLine chrono)).filter (·.2.1 = level)).map
        (·.2.2)) := by
  induction lines with
  | nil => exact List.Sublist.refl _
  | cons line lines ih =>
    by_cases hline : isMatch line = true
    · rw [List.filter_cons_of_pos hline, List.map_cons, List.map_cons, List.filter_cons,
        List.filter_cons]
      split
      · rw [List.map_cons, List.map_cons, List.filter_cons]
        split
        · exact ih.cons_cons _
        · exact ih.cons _
      · exact ih
    · have hcontent : ¬ isMatch (parseLogLine chrono line).2.2 = true :=
        fun hc => hline (h line _ (parseLogLine_suffix line) hc)
      rw [List.filter_cons_of_neg hline, List.map_cons, List.filter_cons]
      split
      · rw [List.map_cons, List.filter_cons_of_neg hcontent]
        exact ih
      · exact ih

end

end Grep

namespace Pipeline

open HyperLog (ShortRuns)

variable {W : Type} {chrono : Chrono} [DecidableEq W] (rfc : Rfc3339 chrono) {isStderr : W → Bool}

def anyB : Grep.Query BatchWriter.julyChrono :=
  ⟨fun line => line.toList.contains 'b', 1, 1, none, none⟩

theorem anyB_unanchored : Grep.Unanchored anyB.isMatch := by
  intro line text hsuffix hmatch
  simp only [anyB, List.contains_iff_mem] at hmatch ⊢
  exact hsuffix.subset hmatch

end Pipeline
