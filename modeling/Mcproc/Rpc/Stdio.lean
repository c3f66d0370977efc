import Mcproc.Lib.Machine
import Mcproc.Log.LineReader
import Mcproc.Rpc.Decode

namespace Stdio

open Rpc LineReader

def channelCapacity : Nat := 100

-- A carriage return goes only together with the newline after it.
def chomp (cs : List Char) : List Char :=
  if cs.getLast? = some '\n' then
    if cs.dropLast.getLast? = some '\r' then cs.dropLast.dropLast else cs.dropLast
  else cs

-- `none` is the InvalidData error of the line reader.
def nextLine (raw : List UInt8) : Option String :=
  (Utf8.fromUtf8 raw).map fun cs => String.ofList (chomp cs)

inductive Stop where
  | endOfInput
  | shutdown
  | inputFails
  | outputFails (response : JsonRpcMessage)
  | receiverGone (message : JsonRpcMessage)
  | invalidData

inductive Phase where
  | reading
  | delivering (message : JsonRpcMessage)
  | responding (response : JsonRpcMessage)
  | stopped (why : Stop)

inductive Writer where
  | reader
  | server
  deriving DecidableEq, Repr

-- The lock on stdout makes a message one write.
structure State where
  input : List UInt8
  consumed : List (List UInt8)
  phase : Phase
  channel : List JsonRpcMessage
  received : List JsonRpcMessage
  stdout : List (Writer × JsonRpcMessage)

inductive Action where
  | readLine
  | endOfInput
  | inputFails
  | shutdown
  | deliver
  | receiverGone
  | respond
  | outputFails
  | receive
  | send (message : JsonRpcMessage)

-- Shutdown is looked at only while the reader waits for a line.
def enabled (s : State) : Action → Prop
  | .readLine => s.phase = .reading ∧ s.input ≠ []
  | .endOfInput => s.phase = .reading ∧ s.input = []
  | .inputFails | .shutdown => s.phase = .reading
  | .deliver => (∃ m, s.phase = .delivering m) ∧ s.channel.length < channelCapacity
  | .receiverGone => ∃ m, s.phase = .delivering m
  | .respond | .outputFails => ∃ r, s.phase = .responding r
  | .receive => s.channel ≠ []
  | .send _ => True

section
variable (read : String → Option Value)

def afterLine (raw : List UInt8) : Phase :=
  match nextLine raw with
  | none => .stopped .invalidData
  | some line =>
    match parseInputLine read line with
    | .ok message => .delivering message
    | .error response => .responding response

def next (s : State) : Action → State
  | .readLine =>
    { s with
      input := (readUntil s.input).2
      consumed := s.consumed ++ [(readUntil s.input).1]
      phase := afterLine read (readUntil s.input).1 }
  | .endOfInput => { s with phase := .stopped .endOfInput }
  | .inputFails => { s with phase := .stopped .inputFails }
  | .shutdown => { s with phase := .stopped .shutdown }
  | .deliver =>
    match s.phase with
    | .delivering m => { s with channel := s.channel ++ [m], phase := .reading }
    | _ => s
  | .receiverGone =>
    match s.phase with
    | .delivering m => { s with phase := .stopped (.receiverGone m) }
    | _ => s
  | .respond =>
    match s.phase with
    | .responding r => { s with stdout := s.stdout ++ [(.reader, r)], phase := .reading }
    | _ => s
  | .outputFails =>
    match s.phase with
    | .responding r => { s with phase := .stopped (.outputFails r) }
    | _ => s
  | .receive =>
    { s with channel := s.channel.tail, received := s.received ++ s.channel.head?.toList }
  | .send m => { s with stdout := s.stdout ++ [(.server, m)] }

def initial (input : List UInt8) : State := ⟨input, [], .reading, [], [], []⟩

def machine (input : List UInt8) : Machine State Action where
  init := initial input
  enabled := enabled
  next := next read

-- The message of a valid line.
def lineMessage (raw : List UInt8) : Option JsonRpcMessage :=
  (nextLine raw).bind fun line => (parseInputLine read line).toOption

def messages (raws : List (List UInt8)) : List JsonRpcMessage := raws.filterMap (lineMessage read)

def parseErrors (raws : List (List UInt8)) : List JsonRpcMessage :=
  (raws.filter fun raw => (lineMessage read raw).isNone).map fun _ => .response parseErrorResponse

end

def rawLines (bytes : List UInt8) : List (List UInt8) :=
  (Lines.split newline bytes).1 ++
    if (Lines.split newline bytes).2 = [] then [] else [(Lines.split newline bytes).2]

namespace Phase

def message : Phase → List JsonRpcMessage
  | .delivering m | .stopped (.receiverGone m) => [m]
  | _ => []

def response : Phase → List JsonRpcMessage
  | .responding r | .stopped (.outputFails r) => [r]
  | _ => []

end Phase

def writtenByReader (s : State) : List JsonRpcMessage :=
  (s.stdout.filter (·.1 = .reader)).map Prod.snd

-- The lines read so far, and only they, were answered or delivered, one after the other, and the
-- reader stops for no line.
structure Faithful (read : String → Option Value) (input : List UInt8) (s : State) : Prop where
  lines : s.consumed ++ rawLines s.input = rawLines input
  delivered : s.received ++ s.channel ++ s.phase.message = messages read s.consumed
  answered : writtenByReader s ++ s.phase.response = parseErrors read s.consumed
  stops : s.phase ≠ .stopped .invalidData ∧ (s.phase = .stopped .endOfInput → s.input = [])

def Decodable (s : State) (a : Action) : Prop :=
  match a with
  | .readLine => Utf8.Valid (readUntil s.input).1
  | _ => True

instance (s : State) : ∀ a : Action, Decidable (Decodable s a)
  | .readLine => inferInstanceAs (Decidable (Utf8.Valid _))
  | .endOfInput | .inputFails | .shutdown | .deliver | .receiverGone | .respond | .outputFails
  | .receive | .send _ => isTrue trivial

theorem rawLines_eq (bytes : List UInt8) :
    rawLines bytes =
      (Lines.feed newline [] bytes).1 ++
        if (Lines.feed newline [] bytes).2 = [] then [] else [(Lines.feed newline [] bytes).2] := by
  rw [Lines.feed_eq_split newline bytes List.not_mem_nil]
  rfl

theorem rawLines_read {bytes : List UInt8} (hne : bytes ≠ []) :
    rawLines bytes = (readUntil bytes).1 :: rawLines (readUntil bytes).2 := by
  cases hcut : Lines.cut newline bytes with
  | none =>
    have hfeed := Lines.feed_of_not_mem newline [] (Lines.cut_none newline hcut)
    have hread : readUntil bytes = (bytes, []) := by rw [readUntil, hcut]; rfl
    rw [hread, rawLines_eq, hfeed, List.nil_append, List.nil_append, if_neg hne]
    rfl
  | some p =>
    obtain ⟨line, rest⟩ := p
    obtain ⟨body, hline, hbody, hbytes⟩ := Lines.cut_some newline hcut
    have hread : readUntil bytes = (line, rest) := by rw [readUntil, hcut]; rfl
    have hfeed := Lines.feed_line newline rest hbody
    rw [← hline, ← hbytes] at hfeed
    rw [hread, rawLines_eq, rawLines_eq, hfeed]
    rfl

section
variable {read : String → Option Value}

theorem parseInputLine_error {line : String} {response : JsonRpcMessage}
    (h : parseInputLine read line = .error response) : response = .response parseErrorResponse := by
  simp only [parseInputLine, parseLine] at h
  split at h <;> cases h
  rfl

theorem afterLine_invalid {raw : List UInt8} (h : ¬ Utf8.Valid raw) :
    afterLine read raw = .stopped .invalidData := by
  have hnone : nextLine raw = none := by rw [nextLine, Utf8.fromUtf8_invalid h]; rfl
  simp only [afterLine, hnone]

variable (read) in
theorem afterLine_valid {raw : List UInt8} (h : Utf8.Valid raw) :
    (∃ m, afterLine read raw = .delivering m ∧ lineMessage read raw = some m) ∨
      afterLine read raw = .responding (.response parseErrorResponse) ∧
        lineMessage read raw = none := by
  obtain ⟨line, hline⟩ : ∃ line, nextLine raw = some line := by
    rw [nextLine, Utf8.fromUtf8_valid h]
    exact ⟨_, rfl⟩
  simp only [afterLine, lineMessage, hline, Option.bind_some]
  cases hparse : parseInputLine read line with
  | ok m => exact Or.inl ⟨m, rfl, rfl⟩
  | error r =>
    obtain rfl := parseInputLine_error hparse
    exact Or.inr ⟨rfl, rfl⟩

theorem messages_append (raws : List (List UInt8)) (raw : List UInt8) :
    messages read (raws ++ [raw]) = messages read raws ++ (lineMessage read raw).toList := by
  cases h : lineMessage read raw <;> simp [messages, h]

theorem parseErrors_append (raws : List (List UInt8)) (raw : List UInt8) :
    parseErrors read (raws ++ [raw]) =
      parseErrors read raws ++
        if lineMessage read raw = none then [.response parseErrorResponse] else [] := by
  cases h : lineMessage read raw <;> simp [parseErrors, h]

variable {input : List UInt8} {s : State}

theorem faithful_initial : Faithful read input (initial input) :=
  ⟨rfl, rfl, rfl, (fun e => by cases e), (fun e => by cases e)⟩

theorem Faithful.readLine (h : Faithful read input s) (hphase : s.phase = .reading)
    (hne : s.input ≠ []) (hv : Utf8.Valid (readUntil s.input).1) :
    Faithful read input (next read s .readLine) := by
  obtain ⟨hlines, hdelivered, hanswered, -⟩ := h
  rw [hphase] at hdelivered hanswered
  simp only [Phase.message, Phase.response, List.append_nil] at hdelivered hanswered
  rw [rawLines_read hne, List.append_cons] at hlines
  rcases afterLine_valid read hv with ⟨m, hafter, hmessage⟩ | ⟨hafter, hmessage⟩
  · simp only [next, hafter]
    refine ⟨hlines, ?_, ?_, (fun e => by cases e), (fun e => by cases e)⟩
    · rw [messages_append, hmessage, hdelivered]
      rfl
    · rw [parseErrors_append, hmessage, if_neg (by simp), List.append_nil]
      exact (List.append_nil _).trans hanswered
  · simp only [next, hafter]
    refine ⟨hlines, ?_, ?_, (fun e => by cases e), (fun e => by cases e)⟩
    · rw [messages_append, hmessage, Option.toList_none, List.append_nil]
      exact (List.append_nil _).trans hdelivered
    · rw [parseErrors_append, if_pos hmessage, ← hanswered]
      rfl

theorem faithful_step {a : Action} (h : Faithful read input s) (he : enabled s a)
    (hd : Decodable s a) : Faithful read input (next read s a) := by
  obtain ⟨hlines, hdelivered, hanswered, hstops⟩ := id h
  cases a with
  | readLine => exact h.readLine he.1 he.2 hd
  | endOfInput =>
    rw [he.1] at hdelivered hanswered
    exact ⟨hlines, hdelivered, hanswered, (fun e => by cases e), fun _ => he.2⟩
  | inputFails | shutdown =>
    have hphase : s.phase = .reading := he
    rw [hphase] at hdelivered hanswered
    exact ⟨hlines, hdelivered, hanswered, (fun e => by cases e), (fun e => by cases e)⟩
  | deliver =>
    obtain ⟨⟨m, hphase⟩, -⟩ := he
    rw [hphase] at hdelivered hanswered
    simp only [next, hphase]
    refine ⟨hlines, ?_, hanswered, (fun e => by cases e), (fun e => by cases e)⟩
    rw [← hdelivered]
    simp [Phase.message]
  | receiverGone =>
    obtain ⟨m, hphase⟩ := he
    rw [hphase] at hdelivered hanswered
    simp only [next, hphase]
    exact ⟨hlines, hdelivered, hanswered, (fun e => by cases e), (fun e => by cases e)⟩
  | respond =>
    obtain ⟨r, hphase⟩ := he
    rw [hphase] at hdelivered hanswered
    simp only [next, hphase]
    refine ⟨hlines, hdelivered, ?_, (fun e => by cases e), (fun e => by cases e)⟩
    rw [← hanswered]
    simp [writtenByReader, Phase.response]
  | outputFails =>
    obtain ⟨r, hphase⟩ := he
    rw [hphase] at hdelivered hanswered
    simp only [next, hphase]
    exact ⟨hlines, hdelivered, hanswered, (fun e => by cases e), (fun e => by cases e)⟩
  | receive =>
    obtain ⟨m, ms, hchannel⟩ := List.exists_cons_of_ne_nil he
    rw [hchannel] at hdelivered
    simp only [next, hchannel]
    refine ⟨hlines, ?_, hanswered, hstops⟩
    rw [← hdelivered]
    simp
  | send m =>
    refine ⟨hlines, hdelivered, Eq.trans ?_ hanswered, hstops⟩
    simp [next, writtenByReader]

theorem undecodable_breaks {a : Action} (hd : ¬ Decodable s a) :
    ¬ Faithful read input (next read s a) := by
  cases a with
  | readLine =>
    intro h
    exact h.stops.1 (afterLine_invalid hd)
  | _ => exact absurd trivial hd

theorem reader_faithful_iff {as : List Action} (hl : (machine read input).Legal (initial input) as) :
    (machine read input).Throughout Decodable (initial input) as ↔
      (machine read input).Always (Faithful read input) (initial input) as :=
  (machine read input).throughout_iff_always (J := fun _ => True)
    (fun _ _ _ h he hd => ⟨trivial, faithful_step h he hd⟩)
    (fun _ _ _ _ _ hd => undecodable_breaks hd) trivial faithful_initial hl

theorem Faithful.all_lines (h : Faithful read input s)
    (hstop : s.phase = .stopped .endOfInput) :
    s.received ++ s.channel = messages read (rawLines input) ∧
      writtenByReader s = parseErrors read (rawLines input) := by
  have hlines := h.lines
  have hdelivered := h.delivered
  have hanswered := h.answered
  rw [h.stops.2 hstop] at hlines
  rw [hstop] at hdelivered hanswered
  have hall : s.consumed = rawLines input := by
    rw [← hlines]
    exact (List.append_nil _).symm
  rw [hall] at hdelivered hanswered
  exact ⟨(List.append_nil _).symm.trans hdelivered, (List.append_nil _).symm.trans hanswered⟩

end

def readList (line : String) : Option Value := if line = "[]" then some (.array []) else none

-- An empty line is no JSON text; the line after it is the empty batch.
def emptyLine : List UInt8 := [10, 91, 93, 10]

def emptyLineRun : List Action :=
  [.readLine, .respond, .readLine, .deliver, .receive, .endOfInput]

theorem reader_faithful_iff_emptyLine :
    let m := machine readList emptyLine
    m.Throughout Decodable (initial emptyLine) emptyLineRun ∧
      m.Always (Faithful readList emptyLine) (initial emptyLine) emptyLineRun ∧
      (m.exec (initial emptyLine) emptyLineRun).received = [.batch []] ∧
      (m.exec (initial emptyLine) emptyLineRun).stdout =
        [(.reader, .response parseErrorResponse)] := by
  intro m
  have hne : ∀ {A : Type} {x : A} {xs : List A}, x :: xs ≠ [] := List.cons_ne_nil _ _
  have hlegal : m.Legal (initial emptyLine) emptyLineRun :=
    ⟨⟨rfl, hne⟩, ⟨_, rfl⟩, ⟨rfl, hne⟩, ⟨⟨.batch [], rfl⟩, by decide⟩, hne, ⟨rfl, rfl⟩, trivial⟩
  have hdecodable : m.Throughout Decodable (initial emptyLine) emptyLineRun := by decide
  exact ⟨hdecodable, (reader_faithful_iff hlegal).mp hdecodable, rfl, rfl⟩

-- The byte 0xff stands in no UTF-8 text; the line after it is never read.
theorem invalid_utf8_ends_session :
    ¬ ∀ (read : String → Option Value) (input : List UInt8) (as : List Action),
      (machine read input).Legal (initial input) as →
        (machine read input).Always (Faithful read input) (initial input) as := by
  intro hall
  have hrun := hall readList [255, 10, 91, 93, 10] [.readLine]
    ⟨⟨rfl, List.cons_ne_nil _ _⟩, trivial⟩
  have hinvalid : ¬ Utf8.Valid (readUntil [255, 10, 91, 93, 10]).1 := by decide
  have hbad : ¬ Decodable (initial [255, 10, 91, 93, 10]) .readLine := hinvalid
  exact undecodable_breaks hbad hrun.2

end Stdio
