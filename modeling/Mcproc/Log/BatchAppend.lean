import Mathlib.Logic.Function.Basic
import Mcproc.Lib.Machine
import Mcproc.Log.BatchWriter

namespace BatchAppend

open LineReader (newline)
open BatchWriter (LogEntry record flushBatch)

def writeBatchSize : Nat := 100
def channelBufferSize : Nat := 10000

-- Where the writer task stands: what it does next.
inductive Phase where
  | openFile
  | metadata
  | seekEnd
  | readExact (pos : Nat)
  | repair
  | select
  | flush (last : Bool)
  | done
  deriving DecidableEq, Repr

-- `sent` is the history of the channel.
structure Writer (chrono : Chrono) where
  phase : Phase
  closed : Bool
  sent : List (LogEntry chrono)
  queue : List (LogEntry chrono)
  batch : List (LogEntry chrono)

structure State (W : Type) (chrono : Chrono) where
  file : List UInt8
  writers : W → Writer chrono

inductive Action (W : Type) (chrono : Chrono) where
  | send (w : W) (entry : LogEntry chrono)
  | close (w : W)
  | openFile (w : W)
  | metadata (w : W)
  | seekEnd (w : W)
  | readExact (w : W)
  | repair (w : W)
  | recv (w : W)
  | tick (w : W)
  | flush (w : W)

namespace Writer

variable {chrono : Chrono}

def new : Writer chrono := ⟨.openFile, false, [], [], []⟩

def goto (x : Writer chrono) (phase : Phase) : Writer chrono := { x with phase := phase }

def send (x : Writer chrono) (entry : LogEntry chrono) : Writer chrono :=
  { x with sent := x.sent ++ [entry], queue := x.queue ++ [entry] }

def flushOr (x : Writer chrono) (last : Bool) (phase : Phase) : Writer chrono :=
  if x.batch = [] then x.goto phase else x.goto (.flush last)

def recv (x : Writer chrono) : Writer chrono :=
  match x.queue with
  | entry :: queue =>
    { x with
      queue := queue
      batch := x.batch ++ [entry]
      phase := if writeBatchSize ≤ (x.batch ++ [entry]).length then .flush false else .select }
  | [] => x.flushOr true .done

def flushed (x : Writer chrono) (last : Bool) : Writer chrono :=
  { x with batch := [], phase := if last then .done else .select }

end Writer

section
variable {W : Type} {chrono : Chrono}

def enabled (s : State W chrono) : Action W chrono → Prop
  | .send w _ => (s.writers w).closed = false ∧ (s.writers w).queue.length < channelBufferSize
  | .close w => (s.writers w).closed = false
  | .openFile w => (s.writers w).phase = .openFile
  | .metadata w => (s.writers w).phase = .metadata
  | .seekEnd w => (s.writers w).phase = .seekEnd ∧ 0 < s.file.length
  | .readExact w =>
    match (s.writers w).phase with
    | .readExact pos => pos < s.file.length
    | _ => False
  | .repair w => (s.writers w).phase = .repair
  | .recv w =>
    (s.writers w).phase = .select ∧ ((s.writers w).queue = [] → (s.writers w).closed = true)
  | .tick w => (s.writers w).phase = .select
  | .flush w =>
    match (s.writers w).phase with
    | .flush _ => True
    | _ => False

variable [DecidableEq W] (rfc : Rfc3339 chrono)

def State.set (s : State W chrono) (w : W) (x : Writer chrono) : State W chrono :=
  { s with writers := Function.update s.writers w x }

def State.append (s : State W chrono) (bytes : List UInt8) : State W chrono :=
  { s with file := s.file ++ bytes }

def next (s : State W chrono) : Action W chrono → State W chrono
  | .send w entry => s.set w ((s.writers w).send entry)
  | .close w => s.set w { s.writers w with closed := true }
  | .openFile w => s.set w ((s.writers w).goto .metadata)
  | .metadata w => s.set w ((s.writers w).goto (if 0 < s.file.length then .seekEnd else .select))
  | .seekEnd w => s.set w ((s.writers w).goto (.readExact (s.file.length - 1)))
  | .readExact w =>
    match (s.writers w).phase with
    | .readExact pos =>
      s.set w ((s.writers w).goto (if s.file[pos]? = some newline then .select else .repair))
    | _ => s
  | .repair w => (s.append [newline]).set w ((s.writers w).goto .select)
  | .recv w => s.set w (s.writers w).recv
  | .tick w => s.set w ((s.writers w).flushOr false .select)
  | .flush w =>
    match (s.writers w).phase with
    | .flush last =>
      (s.append (flushBatch rfc (s.writers w).batch)).set w ((s.writers w).flushed last)
    | _ => s

def machine (old : List UInt8) : Machine (State W chrono) (Action W chrono) where
  init := ⟨old, fun _ => .new⟩
  enabled := enabled
  next := next rfc

end

inductive Piece (W : Type) (chrono : Chrono) where
  | repair (w : W)
  | record (w : W) (entry : LogEntry chrono)

section
variable {W : Type} {chrono : Chrono} (rfc : Rfc3339 chrono)

def Piece.bytes : Piece W chrono → List UInt8
  | .repair _ => [newline]
  | .record _ entry => BatchWriter.record rfc entry

def content (old : List UInt8) (pieces : List (Piece W chrono)) : List UInt8 :=
  old ++ pieces.flatMap (Piece.bytes rfc)

def LineStart (bytes : List UInt8) : Prop := bytes = [] ∨ bytes.getLast? = some newline

def RecordsStartLines (old : List UInt8) (pieces : List (Piece W chrono)) : Prop :=
  ∀ pre w entry, pre ++ [.record w entry] <+: pieces → LineStart (content rfc old pre)

def Piece.owner : Piece W chrono → W
  | .repair w => w
  | .record w _ => w

def Phase.repaired : Phase → Bool
  | .select | .flush _ | .done => true
  | _ => false

def PhaseOk (file : List UInt8) : Phase → Prop
  | .seekEnd => 0 < file.length
  | .readExact pos => pos < file.length ∧ (pos + 1 = file.length ∨ LineStart file)
  | .select | .flush _ | .done => LineStart file
  | _ => True

theorem lineStart_append {a b : List UInt8} (ha : LineStart a) (hb : LineStart b) :
    LineStart (a ++ b) := by
  rcases hb with rfl | hb
  · rwa [List.append_nil]
  · exact Or.inr (by rw [List.getLast?_append, hb]; rfl)

theorem lineStart_piece (a : List UInt8) (p : Piece W chrono) :
    LineStart (a ++ p.bytes rfc) := by
  right
  cases p with
  | repair w => simp [Piece.bytes]
  | record w entry => simp [Piece.bytes, BatchWriter.record_eq]

theorem content_append (old : List UInt8) (pieces new : List (Piece W chrono)) :
    content rfc old (pieces ++ new) = content rfc old pieces ++ new.flatMap (Piece.bytes rfc) := by
  simp [content]

theorem lineStart_pieces (new : List (Piece W chrono)) :
    LineStart (new.flatMap (Piece.bytes rfc)) := by
  rcases List.eq_nil_or_concat new with rfl | ⟨init, p, rfl⟩
  · exact Or.inl rfl
  · rw [List.concat_eq_append, List.flatMap_append, List.flatMap_singleton]
    exact lineStart_piece rfc _ p

theorem phaseOk_append {file bytes : List UInt8} {phase : Phase} (hb : LineStart bytes)
    (h : PhaseOk file phase) : PhaseOk (file ++ bytes) phase := by
  have hlen : file.length ≤ (file ++ bytes).length := by
    rw [List.length_append]
    omega
  cases phase with
  | seekEnd => exact Nat.lt_of_lt_of_le h hlen
  | readExact pos =>
    obtain ⟨hlt, hend⟩ := h
    refine ⟨Nat.lt_of_lt_of_le hlt hlen, ?_⟩
    rcases hb with rfl | hb
    · rwa [List.append_nil]
    · exact Or.inr (Or.inr (by rw [List.getLast?_append, hb]; rfl))
  | select => exact lineStart_append h hb
  | flush last => exact lineStart_append h hb
  | done => exact lineStart_append h hb
  | openFile => trivial
  | metadata => trivial
  | repair => trivial

theorem starts_snoc {old : List UInt8} {pieces : List (Piece W chrono)}
    (h : RecordsStartLines rfc old pieces) {p : Piece W chrono}
    (hp : ∀ w entry, p = .record w entry → LineStart (content rfc old pieces)) :
    RecordsStartLines rfc old (pieces ++ [p]) := by
  intro pre w entry hpre
  rcases List.prefix_concat_iff.mp hpre with heq | hpre
  · obtain ⟨rfl, he⟩ := List.append_inj' heq rfl
    exact hp w entry (List.singleton_inj.mp he).symm
  · exact h pre w entry hpre

theorem starts_batch (w : W) (batch : List (LogEntry chrono)) {old : List UInt8}
    {pieces : List (Piece W chrono)} (h : RecordsStartLines rfc old pieces)
    (hl : LineStart (content rfc old pieces)) :
    RecordsStartLines rfc old (pieces ++ batch.map (Piece.record w)) := by
  induction batch generalizing pieces with
  | nil => simpa using h
  | cons entry batch ih =>
    have hrest := ih (starts_snoc rfc h (p := .record w entry) fun _ _ _ => hl)
      (by rw [content_append, List.flatMap_singleton]; exact lineStart_piece rfc _ _)
    simpa using hrest

variable [DecidableEq W]

def Piece.entryOf (w : W) : Piece W chrono → Option (LogEntry chrono)
  | .repair _ => none
  | .record v entry => if v = w then some entry else none

def Piece.repairOf (w : W) : Piece W chrono → Bool
  | .repair v => v = w
  | .record _ _ => false

structure Written (old : List UInt8) (s : State W chrono) (pieces : List (Piece W chrono)) :
    Prop where
  file : s.file = content rfc old pieces
  entries : ∀ w, pieces.filterMap (Piece.entryOf w) ++ (s.writers w).batch ++ (s.writers w).queue =
    (s.writers w).sent
  repairs : ∀ w, pieces.countP (Piece.repairOf w) ≤ if (s.writers w).phase.repaired then 1 else 0
  starts : RecordsStartLines rfc old pieces
  phase : ∀ w, PhaseOk s.file (s.writers w).phase

theorem filterMap_entryOf_other {w v : W} {new : List (Piece W chrono)}
    (hown : ∀ p ∈ new, p.owner = w) (hv : v ≠ w) : new.filterMap (Piece.entryOf v) = [] := by
  rw [List.filterMap_eq_nil_iff]
  intro p hp
  cases p with
  | repair u => rfl
  | record u entry =>
    obtain rfl : u = w := hown _ hp
    exact if_neg hv.symm

theorem countP_repairOf_other {w v : W} {new : List (Piece W chrono)}
    (hown : ∀ p ∈ new, p.owner = w) (hv : v ≠ w) : new.countP (Piece.repairOf v) = 0 := by
  rw [List.countP_eq_zero]
  intro p hp
  cases p with
  | repair u =>
    obtain rfl : u = w := hown _ hp
    simp [Piece.repairOf, hv.symm]
  | record u entry => simp [Piece.repairOf]

theorem Written.step {old : List UInt8} {s : State W chrono} {pieces : List (Piece W chrono)}
    (h : Written rfc old s pieces) {w : W} {x : Writer chrono} (new : List (Piece W chrono))
    (hown : ∀ p ∈ new, p.owner = w) (hstarts : RecordsStartLines rfc old (pieces ++ new))
    (hentries : ∀ ys, ys ++ (s.writers w).batch ++ (s.writers w).queue = (s.writers w).sent →
      ys ++ new.filterMap (Piece.entryOf w) ++ x.batch ++ x.queue = x.sent)
    (hrepairs : ∀ n, n ≤ (if (s.writers w).phase.repaired then 1 else 0) →
      n + new.countP (Piece.repairOf w) ≤ if x.phase.repaired then 1 else 0)
    (hphase : PhaseOk (s.file ++ new.flatMap (Piece.bytes rfc)) x.phase) :
    Written rfc old ((s.append (new.flatMap (Piece.bytes rfc))).set w x) (pieces ++ new) := by
  constructor
  · rw [content_append, ← h.file]
    rfl
  · intro v
    rw [List.filterMap_append]
    by_cases hv : v = w
    · subst hv
      simpa [State.set, State.append] using hentries _ (h.entries v)
    · simpa [State.set, State.append, hv, filterMap_entryOf_other hown hv] using h.entries v
  · intro v
    rw [List.countP_append]
    by_cases hv : v = w
    · subst hv
      simpa [State.set, State.append] using hrepairs _ (h.repairs v)
    · simpa [State.set, State.append, hv, countP_repairOf_other hown hv] using h.repairs v
  · exact hstarts
  · intro v
    by_cases hv : v = w
    · subst hv
      simpa [State.set, State.append] using hphase
    · simpa [State.set, State.append, hv] using
        phaseOk_append (lineStart_pieces rfc new) (h.phase v)

theorem Written.quiet {old : List UInt8} {s : State W chrono} {pieces : List (Piece W chrono)}
    (h : Written rfc old s pieces) {w : W} {x : Writer chrono}
    (hentries : ∀ ys, ys ++ (s.writers w).batch ++ (s.writers w).queue = (s.writers w).sent →
      ys ++ x.batch ++ x.queue = x.sent)
    (hrepaired : (s.writers w).phase.repaired = true → x.phase.repaired = true)
    (hphase : PhaseOk s.file x.phase) : Written rfc old (s.set w x) pieces := by
  have hstep := h.step rfc (w := w) (x := x) [] (by simp)
    (by simpa using h.starts) (by simpa using hentries)
    (fun n hn => by
      cases hp : (s.writers w).phase.repaired with
      | true => simpa [hp, hrepaired hp] using hn
      | false =>
        obtain rfl : n = 0 := by simpa [hp] using hn
        simp)
    (by simpa using hphase)
  simpa [State.append] using hstep

theorem read_newline {file : List UInt8} {pos : Nat} (hr : file[pos]? = some newline)
    (h : pos < file.length ∧ (pos + 1 = file.length ∨ LineStart file)) : LineStart file := by
  rcases h.2 with hlast | hl
  · right
    rw [List.getLast?_eq_getElem?, ← hlast, Nat.add_sub_cancel, hr]
  · exact hl

theorem written_flushOr {old : List UInt8} {s : State W chrono} {pieces : List (Piece W chrono)}
    (h : Written rfc old s pieces) {w : W} {last : Bool} {phase : Phase}
    (hselect : (s.writers w).phase = .select) (hphase : phase = .select ∨ phase = .done) :
    Written rfc old (s.set w ((s.writers w).flushOr last phase)) pieces := by
  have hl : LineStart s.file := by simpa [hselect, PhaseOk] using h.phase w
  simp only [Writer.flushOr]
  split
  · rcases hphase with rfl | rfl <;> exact h.quiet rfc (fun _ => id) (fun _ => rfl) hl
  · exact h.quiet rfc (fun _ => id) (fun _ => rfl) hl

theorem written_recv {old : List UInt8} {s : State W chrono} {pieces : List (Piece W chrono)}
    (h : Written rfc old s pieces) {w : W} (hselect : (s.writers w).phase = .select) :
    Written rfc old (s.set w (s.writers w).recv) pieces := by
  have hl : LineStart s.file := by simpa [hselect, PhaseOk] using h.phase w
  simp only [Writer.recv]
  split
  · next entry queue hq =>
    refine h.quiet rfc (fun ys hys => ?_) ?_ ?_
    · simpa [hq] using hys
    · intro _
      dsimp only
      split <;> rfl
    · dsimp only
      split <;> exact hl
  · exact written_flushOr rfc h hselect (Or.inr rfl)

theorem written_repair {old : List UInt8} {s : State W chrono} {pieces : List (Piece W chrono)}
    (h : Written rfc old s pieces) {w : W} (hphase : (s.writers w).phase = .repair) :
    Written rfc old ((s.append [newline]).set w ((s.writers w).goto .select))
      (pieces ++ [.repair w]) := by
  refine h.step rfc [.repair w] ?_ ?_ ?_ ?_ ?_
  · simp [Piece.owner]
  · exact starts_snoc rfc h.starts fun _ _ he => by cases he
  · intro ys hys
    simpa [Piece.entryOf, Writer.goto, List.filterMap_cons] using hys
  · intro n hn
    obtain rfl : n = 0 := by simpa [hphase, Phase.repaired] using hn
    simp [Piece.repairOf, Writer.goto, Phase.repaired]
  · exact lineStart_piece rfc s.file (.repair w)

theorem written_flush {old : List UInt8} {s : State W chrono} {pieces : List (Piece W chrono)}
    (h : Written rfc old s pieces) {w : W} {last : Bool}
    (hphase : (s.writers w).phase = .flush last) :
    Written rfc old ((s.append (flushBatch rfc (s.writers w).batch)).set w
        ((s.writers w).flushed last))
      (pieces ++ (s.writers w).batch.map (Piece.record w)) := by
  have hl : LineStart s.file := by simpa [hphase, PhaseOk] using h.phase w
  have hbytes : flushBatch rfc (s.writers w).batch =
      ((s.writers w).batch.map (Piece.record w)).flatMap (Piece.bytes rfc) := by
    simp [flushBatch, List.flatMap_map, Piece.bytes]
  have hentries : ((s.writers w).batch.map (Piece.record w)).filterMap (Piece.entryOf w) =
      (s.writers w).batch := by
    simp [List.filterMap_map, Function.comp_def, Piece.entryOf]
  have hrepairs : ((s.writers w).batch.map (Piece.record w)).countP (Piece.repairOf w) = 0 := by
    simp [List.countP_map, Function.comp_def, Piece.repairOf]
  rw [hbytes]
  refine h.step rfc _ ?_ (starts_batch rfc w _ h.starts (h.file ▸ hl)) ?_ ?_ ?_
  · simp [Piece.owner]
  · intro ys hys
    rw [hentries]
    simpa [Writer.flushed] using hys
  · intro n hn
    rw [hrepairs]
    cases last <;> simpa [hphase, Phase.repaired, Writer.flushed] using hn
  · have hnew := lineStart_append hl
      (lineStart_pieces rfc ((s.writers w).batch.map (Piece.record w)))
    cases last <;> exact hnew

theorem written_next {old : List UInt8} {s : State W chrono} {pieces : List (Piece W chrono)}
    {a : Action W chrono} (h : Written rfc old s pieces) (he : enabled s a) :
    ∃ pieces', Written rfc old (next rfc s a) pieces' := by
  cases a with
  | send w entry =>
    exact ⟨pieces, h.quiet rfc (fun ys hys => by simp [Writer.send, ← hys]) id (h.phase w)⟩
  | close w => exact ⟨pieces, h.quiet rfc (fun _ => id) id (h.phase w)⟩
  | openFile w =>
    obtain he : (s.writers w).phase = .openFile := he
    exact ⟨pieces, h.quiet rfc (fun _ => id) (by simp [he, Phase.repaired]) trivial⟩
  | metadata w =>
    obtain he : (s.writers w).phase = .metadata := he
    refine ⟨pieces, h.quiet rfc (fun _ => id) (by simp [he, Phase.repaired]) ?_⟩
    simp only [Writer.goto]
    split
    · next hlen => exact hlen
    · next hlen => exact Or.inl (List.eq_nil_of_length_eq_zero (by omega))
  | seekEnd w =>
    obtain ⟨he, hlen⟩ : (s.writers w).phase = .seekEnd ∧ 0 < s.file.length := he
    refine ⟨pieces, h.quiet rfc (fun _ => id) (by simp [he, Phase.repaired]) ?_⟩
    exact ⟨by omega, Or.inl (by omega)⟩
  | readExact w =>
    simp only [next]
    split
    · next pos hp =>
      refine ⟨pieces, h.quiet rfc (fun _ => id) (by simp [hp, Phase.repaired]) ?_⟩
      simp only [Writer.goto]
      split
      · next hr => exact read_newline hr (by simpa [hp, PhaseOk] using h.phase w)
      · trivial
    · exact ⟨pieces, h⟩
  | repair w => exact ⟨_, written_repair rfc h he⟩
  | recv w => exact ⟨pieces, written_recv rfc h he.1⟩
  | tick w => exact ⟨pieces, written_flushOr rfc h he (Or.inl rfl)⟩
  | flush w =>
    simp only [next]
    split
    · next last hp => exact ⟨_, written_flush rfc h hp⟩
    · exact ⟨pieces, h⟩

theorem reachable_written {old : List UInt8} {s : State W chrono}
    (h : (machine rfc old).Reachable s) : ∃ pieces, Written rfc old s pieces := by
  refine (machine rfc old).reachable_induction (J := fun s => ∃ pieces, Written rfc old s pieces)
    ⟨[], ?_⟩ (fun s a hs he => ?_) h
  · refine ⟨by simp [machine, content], fun w => rfl, fun w => Nat.zero_le _, ?_, fun w => trivial⟩
    intro pre w entry hpre
    simp at hpre
  · obtain ⟨pieces, hw⟩ := hs
    exact written_next rfc hw he

def Drained (x : Writer chrono) : Prop := x.closed = true ∧ x.queue = [] ∧ x.batch = []

theorem drained_file {old : List UInt8} {run : List (Action W chrono)}
    (hl : (machine rfc old).Legal (machine rfc old).init run)
    (hd : ∀ w, Drained (((machine rfc old).exec (machine rfc old).init run).writers w)) :
    ∃ pieces : List (Piece W chrono),
      ((machine rfc old).exec (machine rfc old).init run).file =
          old ++ pieces.flatMap (Piece.bytes rfc) ∧
        (∀ w, pieces.filterMap (Piece.entryOf w) =
          (((machine rfc old).exec (machine rfc old).init run).writers w).sent) ∧
        (∀ w, pieces.countP (Piece.repairOf w) ≤ 1) ∧
        ∀ pre w entry post, pieces = pre ++ .record w entry :: post →
          LineStart (old ++ pre.flatMap (Piece.bytes rfc)) := by
  obtain ⟨pieces, hw⟩ := reachable_written rfc ⟨run, hl, rfl⟩
  refine ⟨pieces, hw.file, fun w => ?_, fun w => ?_, fun pre w entry post he => ?_⟩
  · obtain ⟨-, hqueue, hbatch⟩ := hd w
    simpa [hqueue, hbatch] using hw.entries w
  · exact Nat.le_trans (hw.repairs w) (by split <;> decide)
  · exact hw.starts pre w entry ⟨post, by rw [he, List.append_assoc]; rfl⟩

-- The task ends only on a closed channel with nothing left to write.
def EndOk (x : Writer chrono) : Prop :=
  match x.phase with
  | .flush true => x.closed = true ∧ x.queue = []
  | .done => Drained x
  | _ => True

theorem endOk_set {s : State W chrono} {w : W} {x : Writer chrono}
    (h : ∀ v, EndOk (s.writers v)) (hx : EndOk x) (v : W) : EndOk ((s.set w x).writers v) := by
  by_cases hv : v = w
  · subst hv
    simpa [State.set] using hx
  · simpa [State.set, hv] using h v

theorem endOk_flushOr {x : Writer chrono} {last : Bool} {phase : Phase}
    (hlast : last = true ∨ phase = .done → x.closed = true ∧ x.queue = [])
    (hphase : phase = .select ∨ phase = .done) : EndOk (x.flushOr last phase) := by
  simp only [Writer.flushOr]
  split
  · next hb =>
    rcases hphase with rfl | rfl
    · trivial
    · obtain ⟨hclosed, hqueue⟩ := hlast (Or.inr rfl)
      exact ⟨hclosed, hqueue, hb⟩
  · cases last with
    | false => trivial
    | true => exact hlast (Or.inl rfl)

theorem endOk_recv {x : Writer chrono} (hclosed : x.queue = [] → x.closed = true) :
    EndOk x.recv := by
  simp only [Writer.recv]
  split
  · next entry queue hq =>
    by_cases hfull : writeBatchSize ≤ (x.batch ++ [entry]).length
    · simp only [EndOk, if_pos hfull]
    · simp only [EndOk, if_neg hfull]
  · next hq => exact endOk_flushOr (fun _ => ⟨hclosed hq, hq⟩) (Or.inr rfl)

theorem endOk_next {s : State W chrono} {a : Action W chrono} (h : ∀ v, EndOk (s.writers v))
    (he : enabled s a) : ∀ v, EndOk ((next rfc s a).writers v) := by
  cases a with
  | send w entry =>
    refine endOk_set h ?_
    have hw := h w
    simp only [EndOk, Writer.send] at hw ⊢
    have hopen : (s.writers w).closed ≠ true := by simp [he.1]
    split at hw
    · exact absurd hw.1 hopen
    · exact absurd hw.1 hopen
    · trivial
  | close w =>
    refine endOk_set h ?_
    have hw := h w
    simp only [EndOk] at hw ⊢
    split at hw
    · exact ⟨trivial, hw.2⟩
    · exact ⟨rfl, hw.2⟩
    · trivial
  | openFile w => exact endOk_set h trivial
  | metadata w => exact endOk_set h (by simp only [Writer.goto]; split <;> trivial)
  | seekEnd w => exact endOk_set h trivial
  | readExact w =>
    simp only [next]
    split
    · exact endOk_set h (by simp only [Writer.goto]; split <;> trivial)
    · exact h
  | repair w => exact endOk_set h trivial
  | recv w => exact endOk_set h (endOk_recv he.2)
  | tick w => exact endOk_set h (endOk_flushOr (by simp) (Or.inl rfl))
  | flush w =>
    simp only [next]
    split
    · next last hp =>
      refine endOk_set h ?_
      have hw := h w
      cases last with
      | false => trivial
      | true =>
        simp only [EndOk, hp] at hw
        exact ⟨hw.1, hw.2, rfl⟩
    · exact h

theorem done_drained {old : List UInt8} {s : State W chrono} (h : (machine rfc old).Reachable s)
    {w : W} (hdone : (s.writers w).phase = .done) : Drained (s.writers w) := by
  have hall := (machine rfc old).reachable_induction (J := fun s => ∀ v, EndOk (s.writers v))
    (fun _ => trivial) (fun _ _ hs he => endOk_next rfc hs he) h
  have hw := hall w
  simpa only [EndOk, hdone] using hw

instance (s : State W chrono) (a : Action W chrono) : Decidable (enabled s a) := by
  apply Action.casesOn (motive := fun a => Decidable (enabled s a)) a <;> intros <;>
    dsimp only [enabled] <;> (try split) <;> infer_instance

instance (old : List UInt8) (s : State W chrono) (a : Action W chrono) :
    Decidable ((machine rfc old).enabled s a) :=
  inferInstanceAs (Decidable (enabled s a))

instance (x : Writer chrono) : Decidable (Drained x) :=
  inferInstanceAs (Decidable (x.closed = true ∧ x.queue = [] ∧ x.batch = []))

end

def julyEntry (content : List UInt8) (isStderr : Bool) : LogEntry BatchWriter.julyChrono :=
  ⟨true, content, isStderr⟩

-- Both writers find the partial line before either repairs it.
def julyRun : List (Action Bool BatchWriter.julyChrono) :=
  [.openFile false, .openFile true, .metadata false, .metadata true, .seekEnd false,
   .readExact false, .seekEnd true, .readExact true, .repair false, .send false (julyEntry [0x61] false),
   .recv false, .tick false, .flush false, .repair true, .send true (julyEntry [] true), .close true,
   .recv true, .close false, .recv true, .flush true, .recv false]

theorem july_run_file :
    ∃ pieces : List (Piece Bool BatchWriter.julyChrono),
      ((machine BatchWriter.julyRfc3339 [0x78]).exec
          (machine BatchWriter.julyRfc3339 [0x78]).init julyRun).file =
          [0x78] ++ pieces.flatMap (Piece.bytes BatchWriter.julyRfc3339) ∧
        (∀ w, pieces.filterMap (Piece.entryOf w) =
          (((machine BatchWriter.julyRfc3339 [0x78]).exec
            (machine BatchWriter.julyRfc3339 [0x78]).init julyRun).writers w).sent) ∧
        (∀ w, pieces.countP (Piece.repairOf w) ≤ 1) ∧
        ∀ pre w entry post, pieces = pre ++ .record w entry :: post →
          LineStart ([0x78] ++ pre.flatMap (Piece.bytes BatchWriter.julyRfc3339)) :=
  drained_file BatchWriter.julyRfc3339 (by decide) (by decide)

end BatchAppend
