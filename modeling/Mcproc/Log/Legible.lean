import Mcproc.Log.BatchAppend

namespace BatchAppend

open LineReader (newline fileLines lineText popIf)
open BatchWriter (LogEntry record flushBatch)

def levelOf (isStderr : Bool) : Grep.LogLevel := if isStderr then .stderr else .stdout

section
variable {W : Type} {chrono : Chrono}

variable (chrono) in
-- What a reader of the log file finds under a level, from the first line to the last.
def readContents (level : Grep.LogLevel) (file : List UInt8) : List String :=
  (((fileLines file).map (Grep.parseLogLine chrono)).filter (·.2.1 = level)).map (·.2.2)

def text (entry : LogEntry chrono) : String := lineText entry.content

def OneLine (entry : LogEntry chrono) : Prop := newline ∉ popIf newline entry.content

theorem readContents_append (level : Grep.LogLevel) {a : List UInt8} (b : List UInt8)
    (h : LineStart a) :
    readContents chrono level (a ++ b) =
      readContents chrono level a ++ readContents chrono level b := by
  simp only [readContents, LineReader.fileLines_eq, Lines.lines_append newline b h, List.map_append,
    List.filter_append]

variable (rfc : Rfc3339 chrono)

theorem readContents_flush (level : Grep.LogLevel) {stderr : Bool} {batch : List (LogEntry chrono)}
    (hlines : ∀ entry ∈ batch, OneLine entry)
    (hlevel : ∀ entry ∈ batch, entry.isStderr = stderr) :
    readContents chrono level (flushBatch rfc batch) =
      if level = levelOf stderr then batch.map text else [] := by
  simp only [readContents, LineReader.fileLines_eq, BatchWriter.flushBatch_lines rfc hlines,
    List.map_map, Function.comp_def]
  clear hlines
  induction batch with
  | nil => split <;> rfl
  | cons entry batch ih =>
    obtain ⟨-, hread, hcontent⟩ := BatchWriter.record_readBack rfc entry
    have hentry : (Grep.parseLogLine chrono (lineText (record rfc entry))).2.1 = levelOf stderr := by
      rw [hread, hlevel entry List.mem_cons_self]
      rfl
    have hrest := ih fun e he => hlevel e (List.mem_cons_of_mem _ he)
    rw [List.map_cons]
    by_cases hl : level = levelOf stderr
    · rw [if_pos hl] at hrest ⊢
      rw [List.filter_cons_of_pos (by simpa [hl] using hentry), List.map_cons, hrest, List.map_cons]
      rw [hcontent]
      rfl
    · rw [if_neg hl] at hrest ⊢
      rw [List.filter_cons_of_neg (by simpa only [hentry, decide_eq_true_eq] using Ne.symm hl), hrest]

variable [DecidableEq W] (isStderr : W → Bool)

-- A file that no writer finds in the middle of a line, seen by its reader.
structure Legible (old : List UInt8) (s : State W chrono) : Prop where
  lineStart : LineStart s.file
  unrepaired : ∀ k, (s.writers k).phase ≠ .repair
  reading : ∀ k pos, (s.writers k).phase = .readExact pos → s.file[pos]? = some newline
  entries : ∀ k, ∀ entry ∈ (s.writers k).batch ++ (s.writers k).queue,
    entry.isStderr = isStderr k ∧ OneLine entry
  readBack : ∀ k,
    readContents chrono (levelOf (isStderr k)) s.file ++
        ((s.writers k).batch ++ (s.writers k).queue).map text =
      readContents chrono (levelOf (isStderr k)) old ++ (s.writers k).sent.map text

-- What a writer may be sent.
def WellFormed (isStderr : W → Bool) : Action W chrono → Prop
  | .send k entry => entry.isStderr = isStderr k ∧ OneLine entry
  | _ => True

variable {isStderr} {old : List UInt8} {s : State W chrono}

theorem Legible.quiet (h : Legible isStderr old s) {k : W} {x : Writer chrono}
    (hrepair : x.phase ≠ .repair)
    (hreading : ∀ pos, x.phase = .readExact pos → s.file[pos]? = some newline)
    (hentries : ∀ entry ∈ x.batch ++ x.queue, entry.isStderr = isStderr k ∧ OneLine entry)
    (hsent : ∀ before : List String,
      before ++ ((s.writers k).batch ++ (s.writers k).queue).map text =
          readContents chrono (levelOf (isStderr k)) old ++ (s.writers k).sent.map text →
        before ++ (x.batch ++ x.queue).map text =
          readContents chrono (levelOf (isStderr k)) old ++ x.sent.map text) :
    Legible isStderr old (s.set k x) := by
  have hcase : ∀ {P : W → Writer chrono → Prop}, P k x → (∀ v, v ≠ k → P v (s.writers v)) →
      ∀ v, P v ((s.set k x).writers v) := fun {P} hk hv v => by
    by_cases hvk : v = k
    · subst hvk
      simpa [State.set] using hk
    · simpa [State.set, hvk] using hv v hvk
  exact ⟨h.lineStart, hcase (P := fun _ y => y.phase ≠ .repair) hrepair fun v _ => h.unrepaired v,
    hcase (P := fun _ y => ∀ pos, y.phase = .readExact pos → s.file[pos]? = some newline) hreading
      fun v _ => h.reading v,
    hcase (P := fun v y => ∀ entry ∈ y.batch ++ y.queue, entry.isStderr = isStderr v ∧ OneLine entry)
      hentries fun v _ => h.entries v,
    hcase (P := fun v y => readContents chrono (levelOf (isStderr v)) s.file ++
        (y.batch ++ y.queue).map text =
      readContents chrono (levelOf (isStderr v)) old ++ y.sent.map text)
      (hsent _ (h.readBack k)) fun v _ => h.readBack v⟩

theorem Legible.goto (h : Legible isStderr old s) {k : W} {phase : Phase}
    (hrepair : phase ≠ .repair)
    (hreading : ∀ pos, phase = .readExact pos → s.file[pos]? = some newline) :
    Legible isStderr old (s.set k ((s.writers k).goto phase)) :=
  h.quiet hrepair hreading (h.entries k) fun _ => id

theorem Legible.flushOr (h : Legible isStderr old s) {k : W} {last : Bool} {phase : Phase}
    (hphase : phase = .select ∨ phase = .done) :
    Legible isStderr old (s.set k ((s.writers k).flushOr last phase)) := by
  simp only [Writer.flushOr]
  split
  · rcases hphase with rfl | rfl <;> exact h.goto (by simp) (by simp)
  · exact h.goto (by simp) (by simp)

theorem Legible.recv (h : Legible isStderr old s) {k : W} :
    Legible isStderr old (s.set k (s.writers k).recv) := by
  simp only [Writer.recv]
  split
  · next entry queue hq =>
    refine h.quiet ?_ ?_ ?_ ?_
    · dsimp only
      split <;> simp
    · dsimp only
      split <;> simp
    · have hentries := h.entries k
      rw [hq] at hentries
      simpa using hentries
    · intro before hbefore
      rw [hq] at hbefore
      simpa using hbefore
  · exact h.flushOr (Or.inr rfl)

theorem Legible.flush (hinj : Function.Injective isStderr) (h : Legible isStderr old s) {k : W}
    {last : Bool} :
    Legible isStderr old ((s.append (flushBatch rfc (s.writers k).batch)).set k
      ((s.writers k).flushed last)) := by
  have hnew : LineStart (flushBatch rfc (s.writers k).batch) := by
    have hpieces := lineStart_pieces rfc ((s.writers k).batch.map (Piece.record k))
    simpa [flushBatch, List.flatMap_map, Piece.bytes] using hpieces
  have hbatch : ∀ entry ∈ (s.writers k).batch, entry.isStderr = isStderr k ∧ OneLine entry :=
    fun entry he => h.entries k entry (List.mem_append_left _ he)
  have hread : ∀ v, readContents chrono (levelOf (isStderr v))
      (s.file ++ flushBatch rfc (s.writers k).batch) =
        readContents chrono (levelOf (isStderr v)) s.file ++
          if v = k then (s.writers k).batch.map text else [] := fun v => by
    rw [readContents_append _ _ h.lineStart,
      readContents_flush rfc _ (fun e he => (hbatch e he).2) fun e he => (hbatch e he).1]
    have hsame : levelOf (isStderr v) = levelOf (isStderr k) ↔ v = k := by
      constructor
      · intro hl
        apply hinj
        cases hv : isStderr v <;> cases hk : isStderr k <;> simp_all [levelOf]
      · rintro rfl
        rfl
    simp only [hsame]
  refine ⟨lineStart_append h.lineStart hnew, fun v => ?_, fun v pos hp => ?_, fun v entry he => ?_,
    fun v => ?_⟩
  · by_cases hv : v = k
    · subst hv
      cases last <;> simp [State.set, Writer.flushed]
    · simpa [State.set, State.append, hv] using h.unrepaired v
  · by_cases hv : v = k
    · subst hv
      cases last <;> simp [State.set, Writer.flushed] at hp
    · have hbefore := h.reading v pos (by simpa [State.set, State.append, hv] using hp)
      obtain ⟨hlt, -⟩ := List.getElem?_eq_some_iff.mp hbefore
      rw [← hbefore]
      exact List.getElem?_append_left hlt
  · by_cases hv : v = k
    · subst hv
      refine h.entries v entry (List.mem_append_right _ ?_)
      simpa [State.set, Writer.flushed] using he
    · exact h.entries v entry (by simpa [State.set, State.append, hv] using he)
  · have hbefore := h.readBack v
    by_cases hv : v = k
    · subst hv
      simpa [State.set, State.append, Writer.flushed, hread] using hbefore
    · simpa [State.set, State.append, hv, hread] using hbefore

theorem legible_next (hinj : Function.Injective isStderr) {a : Action W chrono}
    (h : Legible isStderr old s) (he : enabled s a) (hw : WellFormed isStderr a) :
    Legible isStderr old (next rfc s a) := by
  cases a with
  | send k entry =>
    refine h.quiet (h.unrepaired k) (h.reading k) ?_ ?_
    · intro e hmem
      rcases List.mem_append.mp hmem with hmem | hmem
      · exact h.entries k e (List.mem_append_left _ hmem)
      · rcases List.mem_append.mp hmem with hmem | hmem
        · exact h.entries k e (List.mem_append_right _ hmem)
        · rw [List.mem_singleton.mp hmem]
          exact hw
    · intro before hbefore
      have hlonger := congrArg (· ++ [text entry]) hbefore
      simpa [Writer.send] using hlonger
  | close k => exact h.quiet (h.unrepaired k) (h.reading k) (h.entries k) fun _ => id
  | openFile k => exact h.goto (by simp) (by simp)
  | metadata k =>
    refine h.goto ?_ ?_
    · split <;> simp
    · split <;> simp
  | seekEnd k =>
    refine h.goto (by simp) fun pos hpos => ?_
    cases hpos
    rcases h.lineStart with hempty | hlast
    · have hlen := he.2
      rw [hempty] at hlen
      exact absurd hlen (by decide)
    · rw [← List.getLast?_eq_getElem?]
      exact hlast
  | readExact k =>
    simp only [next]
    split
    · next pos hp =>
      rw [if_pos (h.reading k pos hp)]
      exact h.goto (by simp) (by simp)
    · exact h
  | repair k => exact absurd he (h.unrepaired k)
  | recv k => exact h.recv
  | tick k => exact h.flushOr (Or.inl rfl)
  | flush k =>
    simp only [next]
    split
    · exact h.flush rfc hinj
    · exact h

end

end BatchAppend
