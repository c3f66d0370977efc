import Mcproc.Api.Grep
import Mcproc.Api.SourceSelection
import Mcproc.Lib.Tails
import Mcproc.Log.Follow
import Mcproc.Process.NameTokens

namespace GetLogs

open CleanProject (getLogFilePathForKey)
open Follow (clampTail)
open Grep (GrepMatch LogEntry ParsedLogLine Query parseLogLine)
open LogSources (Listing discoverLogNames invalidProject resolveLogSources)
open ProcessHandlers (Status)
open Tails (drop_zipIdx length_rtake)
open Validation (validateProjectName)

-- The lines kept so far and how many have been read.
structure TailBuffer where
  totalLines : Nat
  lines : List String
  deriving DecidableEq, Repr

def TailBuffer.push (tail : Nat) (b : TailBuffer) (line : String) : TailBuffer where
  totalLines := b.totalLines + 1
  lines :=
    if tail = 0 then b.lines
    else (if b.lines.length = tail then b.lines.tail else b.lines) ++ [line]

def readTail (tail : Nat) (lines : List String) : TailBuffer :=
  lines.foldl (TailBuffer.push tail) ⟨0, []⟩

def tailLogLines (tail : Nat) (file : List UInt8) : Nat × List String :=
  let b := readTail tail (LineReader.fileLines file)
  (b.totalLines - b.lines.length, b.lines)

inductive LogFile where
  | absent
  | unreadable
  | bytes (content : List UInt8)
  deriving DecidableEq, Repr

structure GetLogsRequest where
  project : String
  processNames : List String
  tail : Option Nat
  deriving DecidableEq, Repr

def GetLogsRequest.tailLines (r : GetLogsRequest) : Nat := clampTail (r.tail.getD 100)

def registryMatches (processes : List ProxyInfo) (r : GetLogsRequest) : List ProcessKey :=
  (processes.filter fun p =>
    p.project = r.project && (r.processNames.isEmpty || r.processNames.contains p.name)).map
      ProxyInfo.key

section
variable (chrono : Chrono)

def logEntry (name : String) (startIdx lineNum : Nat) (line : String) : LogEntry :=
  let (timestamp, level, content) := parseLogLine chrono line
  { lineNumber := (startIdx + lineNum + 1) % 2 ^ 32
    content := content
    timestamp := timestamp
    level := level
    processName := some name }

def tailEntries (tail : Nat) (name : String) (file : List UInt8) : List LogEntry :=
  let (startIdx, lines) := tailLogLines tail file
  lines.zipIdx.map fun p => logEntry chrono name startIdx p.2 p.1

def sourceEntries (logDir : UnixPath) (files : UnixPath → LogFile) (tail : Nat) (key : ProcessKey) :
    List LogEntry :=
  match files (getLogFilePathForKey logDir key) with
  | .absent | .unreadable => []
  | .bytes file => tailEntries chrono tail key.name file

-- What `get_logs_impl` sends before it follows; `listError` is the text of a failed listing.
def getLogs (processes : List ProxyInfo) (listing : Listing) (listError : String)
    (logDir : UnixPath) (files : UnixPath → LogFile) (r : GetLogsRequest) :
    Except Status (List LogEntry) :=
  match validateProjectName r.project with
  | .error e => .error (invalidProject e)
  | .ok () =>
    match discoverLogNames listing with
    | none => .error ⟨.internal, "Failed to list log files: " ++ listError⟩
    | some discovered =>
      match resolveLogSources r.project (registryMatches processes r) r.processNames discovered with
      | .error e => .error e
      | .ok sources =>
        .ok (if 0 < r.tailLines then
          sources.flatMap (sourceEntries chrono logDir files r.tailLines) else [])

end

theorem readTail_append (tail : Nat) (xs ys : List String) :
    readTail tail (xs ++ ys) = ys.foldl (TailBuffer.push tail) (readTail tail xs) :=
  List.foldl_append ..

theorem readTail_eq (tail : Nat) (lines : List String) :
    readTail tail lines = ⟨lines.length, lines.rtake tail⟩ := by
  induction lines using List.reverseRecOn with
  | nil => simp [readTail]
  | append_singleton lines line ih =>
    rw [readTail_append, ih, List.foldl_cons, List.foldl_nil, TailBuffer.push, List.length_append,
      List.length_singleton]
    cases tail with
    | zero => simp
    | succ tail =>
      rw [if_neg (Nat.succ_ne_zero tail), List.rtake_concat_succ]
      simp only [List.rtake, List.length_drop]
      split
      · next hfull =>
        rw [List.tail_drop]
        congr 3
        omega
      · next hroom =>
        have h₁ : lines.length - (tail + 1) = 0 := by omega
        have h₂ : lines.length - tail = 0 := by omega
        rw [h₁, h₂]

theorem tailLogLines_eq (tail : Nat) (file : List UInt8) :
    tailLogLines tail file =
      ((LineReader.fileLines file).length - tail, (LineReader.fileLines file).rtake tail) := by
  simp only [tailLogLines, readTail_eq, length_rtake]
  congr 1
  omega

section
variable (chrono : Chrono)

theorem tailEntries_eq (tail : Nat) (name : String) (file : List UInt8) :
    tailEntries chrono tail name file =
      ((LineReader.fileLines file).zipIdx.rtake tail).map
        fun p => logEntry chrono name 0 p.2 p.1 := by
  have hdrop : (LineReader.fileLines file).length - tail ≤ (LineReader.fileLines file).length :=
    Nat.sub_le _ _
  simp only [tailEntries, tailLogLines_eq, List.rtake, List.length_zipIdx, drop_zipIdx hdrop]
  rw [List.zipIdx_eq_map_add (i := _ - _), List.map_map]
  refine List.map_congr_left fun p _ => ?_
  simp [logEntry]

theorem future_matched {isMatch : String → Bool} (hall : ∀ line, isMatch line = true)
    (before after : Nat) (buffer lines : List ParsedLogLine) :
    (Grep.future isMatch before after buffer lines).map GrepMatch.matchedLine =
      lines.map fun l => some l.toLogEntry := by
  induction lines generalizing buffer with
  | nil => rfl
  | cons l lines ih => simp [Grep.future, hall, ih]

theorem filteredLines_all {q : Query chrono} (hs : q.sinceTime = none) (hu : q.untilTime = none)
    (file : List UInt8) :
    Grep.filteredLines chrono q file =
      ((LineReader.fileLines file).zipIdx 1).map fun p => Grep.parsed chrono p.2 p.1 := by
  have hall : ∀ line, Grep.inTimeRange chrono q line = true := by
    intro line
    rw [Grep.inTimeRange, hs, hu]
    cases Grep.lineTime chrono line <;> rfl
  rw [Grep.filteredLines, LineReader.fileLines_eq]
  exact List.filter_eq_self.mpr fun l _ => hall l.original

theorem naiveGrep_matched {q : Query chrono} (hall : ∀ line, q.isMatch line = true)
    (hs : q.sinceTime = none) (hu : q.untilTime = none) {file : List UInt8}
    (hlen : (LineReader.fileLines file).length < 2 ^ 32) :
    (Grep.naiveGrep chrono q (Grep.filteredLines chrono q file)).map GrepMatch.matchedLine =
      (LineReader.fileLines file).zipIdx.map
        fun p => some { logEntry chrono "" 0 p.2 p.1 with processName := none } := by
  rw [← Grep.future_nil, future_matched hall, filteredLines_all chrono hs hu, List.map_map,
    List.zipIdx_eq_map_add, List.map_map]
  refine List.map_congr_left fun p hp => ?_
  have hlt : 0 + p.2 + 1 < 2 ^ 32 := by
    have := List.snd_lt_of_mem_zipIdx hp
    omega
  simp only [Function.comp_apply, logEntry, Grep.parsed, Grep.ParsedLogLine.toLogEntry,
    Nat.mod_eq_of_lt hlt]
  congr 2
  omega

theorem tail_agrees_with_grep {file : List UInt8}
    (hlen : (LineReader.fileLines file).length < 2 ^ 32) (now : chrono.DateTime) {q : Query chrono}
    (hall : ∀ line, q.isMatch line = true) (hs : q.sinceTime = none) (hu : q.untilTime = none)
    {logDir : UnixPath} {files : UnixPath → LogFile} {key : ProcessKey}
    (hfile : files (getLogFilePathForKey logDir key) = .bytes file) (r : GetLogsRequest) :
    let sent := sourceEntries chrono logDir files r.tailLines key
    let all := Grep.naiveGrep chrono q (Grep.filteredLines chrono q file)
    sent = ((LineReader.fileLines file).zipIdx.rtake r.tailLines).map
        (fun p => logEntry chrono key.name 0 p.2 p.1) ∧
      sent.length = min r.tailLines (LineReader.fileLines file).length ∧
      Grep.grepLogFile chrono now q file = all.take Grep.maxGrepMatches ∧
      sent.map (fun e => some { e with processName := none }) =
        (all.map GrepMatch.matchedLine).rtake r.tailLines := by
  have hsent : sourceEntries chrono logDir files r.tailLines key =
      ((LineReader.fileLines file).zipIdx.rtake r.tailLines).map
        (fun p => logEntry chrono key.name 0 p.2 p.1) := by
    rw [sourceEntries, hfile]
    exact tailEntries_eq chrono r.tailLines key.name file
  refine ⟨hsent, ?_, ?_, ?_⟩
  · rw [hsent, List.length_map, length_rtake, List.length_zipIdx]
  · rw [LineReader.fileLines_eq, List.length_map] at hlen
    rw [Grep.grepLogFile_future chrono now q hlen, Grep.future_nil]
  · rw [naiveGrep_matched chrono hall hs hu hlen, hsent, List.map_map]
    simp only [List.rtake, List.length_map, List.map_drop]
    rfl

end

def everyLine : Query Grep.undated := ⟨fun _ => true, 0, 1, none, none⟩

-- A CRLF line, an empty line and a last line that is not UTF-8 and not ended.
def mixedFile : List UInt8 := [0x61, 13, 10, 10, 0xff, 0x62]

def mixedFiles (_ : UnixPath) : LogFile := .bytes mixedFile

theorem tail_agrees_with_grep_mixed :
    let sent := sourceEntries Grep.undated LogSources.runtimeLogDir.path mixedFiles 2 ⟨"app", "web"⟩
    let all := Grep.naiveGrep Grep.undated everyLine
      (Grep.filteredLines Grep.undated everyLine mixedFile)
    sent.map (·.lineNumber) = [2, 3] ∧
      sent.map (fun e => some { e with processName := none }) =
        (all.map GrepMatch.matchedLine).rtake 2 := by
  have hlen : (LineReader.fileLines mixedFile).length < 2 ^ 32 := by decide
  have hall : ∀ line, everyLine.isMatch line = true := fun _ => rfl
  have hfile : mixedFiles (getLogFilePathForKey LogSources.runtimeLogDir.path ⟨"app", "web"⟩) =
      .bytes mixedFile := rfl
  have agrees := tail_agrees_with_grep Grep.undated hlen (0, 0) hall rfl rfl hfile
    ⟨"app", [], some 2⟩
  exact ⟨by decide, agrees.2.2.2⟩

theorem getLogs_ok {chrono : Chrono} {processes : List ProxyInfo} {listing : Listing}
    {listError : String} {logDir : UnixPath} {files : UnixPath → LogFile} {r : GetLogsRequest}
    {entries : List LogEntry}
    (h : getLogs chrono processes listing listError logDir files r = .ok entries) :
    Validation.ValidProject r.project ∧
      ∃ discovered sources, discoverLogNames listing = some discovered ∧
        resolveLogSources r.project (registryMatches processes r) r.processNames discovered =
          .ok sources ∧
        entries = sources.flatMap (sourceEntries chrono logDir files r.tailLines) := by
  simp only [getLogs] at h
  split at h
  · cases h
  · next hp =>
    split at h
    · cases h
    · next discovered hd =>
      split at h
      · cases h
      · next sources hs =>
        refine ⟨hp, discovered, sources, hd, hs, ?_⟩
        rw [← Except.ok.inj h]
        split
        · rfl
        · next hz =>
          have hnone : ∀ key, sourceEntries chrono logDir files r.tailLines key = [] := by
            intro key
            rw [Nat.eq_zero_of_not_pos hz, sourceEntries]
            split
            · rfl
            · rfl
            · rw [tailEntries_eq, List.rtake_zero, List.map_nil]
          rw [List.flatMap_eq_nil_iff.mpr fun key _ => hnone key]

theorem registryMatches_project {processes : List ProxyInfo} {r : GetLogsRequest} :
    ∀ k ∈ registryMatches processes r, k.project = r.project := by
  intro k hk
  obtain ⟨p, hp, rfl⟩ := List.mem_map.mp hk
  have hkeep := (List.mem_filter.mp hp).2
  rw [Bool.and_eq_true] at hkeep
  exact of_decide_eq_true hkeep.1

theorem registryMatches_nodup {processes : List ProxyInfo}
    (h : (processes.map ProxyInfo.key).Nodup) (r : GetLogsRequest) :
    ((registryMatches processes r).map ProcessKey.name).Nodup := by
  have hkeys : (registryMatches processes r).Nodup :=
    h.sublist (List.filter_sublist.map ProxyInfo.key)
  refine hkeys.map_on fun k hk k' hk' e => ?_
  cases k
  cases k'
  rw [ProcessKey.mk.injEq]
  exact ⟨(registryMatches_project _ hk).trans (registryMatches_project _ hk').symm, e⟩

theorem getLogs_exact (isUuid : String → Bool) (compileRegex : String → Except String Unit)
    {s : Manager.State} (hs : (Manager.machine isUuid compileRegex).Reachable s) {chrono : Chrono}
    {listing : Listing} {listError : String} {logDir : UnixPath} {files : UnixPath → LogFile}
    {r : GetLogsRequest} {entries : List LogEntry}
    (h : getLogs chrono s.registry.processes listing listError logDir files r = .ok entries) :
    ∃ discovered sources, discoverLogNames listing = some discovered ∧
      LogSources.Exact r.project (registryMatches s.registry.processes r) r.processNames discovered
        sources ∧
      entries = sources.flatMap (sourceEntries chrono logDir files r.tailLines) := by
  obtain ⟨hp, discovered, sources, hd, hsources, he⟩ := getLogs_ok h
  have hkeys := (Manager.reachable_owned isUuid compileRegex hs).keys_nodup
  exact ⟨discovered, sources, hd, LogSources.resolveLogSources_exact hp registryMatches_project
    (registryMatches_nodup hkeys r) hsources, he⟩

end GetLogs
