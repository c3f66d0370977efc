import Mcproc.Api.GetLogs
import Mcproc.Lib.Sequences

namespace GetLogs

open Cleaner (DirEntry)
open CleanProject (getLogFilePathForKey)
open Grep (LogEntry)
open LogSources (Listing discoverLogNames listedName logFileName)
open Validation (ValidProcess)

-- The project's directory has a log file of this name.
def Stored (listing : Listing) (name : String) : Prop :=
  ∃ l e, listing = .entries l ∧ some e ∈ l ∧ e.name = logFileName name ∧ e.fileType = some .file

structure Selected (processes : List ProxyInfo) (listing : Listing) (r : GetLogsRequest)
    (name : String) : Prop where
  requested : r.processNames = [] ∨ name ∈ r.processNames
  known : (∃ p ∈ processes, p.key = ⟨r.project, name⟩) ∨ ValidProcess name ∧ Stored listing name

theorem mem_discovered {listing : Listing} {names : List String}
    (h : discoverLogNames listing = some names) {name : String} (hv : ValidProcess name) :
    name ∈ names ↔ Stored listing name := by
  cases listing with
  | notFound =>
    cases h
    exact ⟨fun hn => (List.not_mem_nil hn).elim, fun ⟨l, e, hl, _⟩ => by cases hl⟩
  | failed => cases h
  | entries l =>
    obtain ⟨collected, hcollected, rfl⟩ := Option.map_eq_some_iff.mp h
    rw [List.mem_mergeSort, LogSources.collectNames_eq hcollected, List.mem_filterMap]
    constructor
    · rintro ⟨e, he, hlisted⟩
      obtain ⟨o, ho, rfl⟩ := List.mem_filterMap.mp he
      have htype : e.fileType = some .file := by
        rw [listedName] at hlisted
        split at hlisted
        · next hn => exact hn.2
        · cases hlisted
      exact ⟨l, e, rfl, ho, LogSources.listedName_some hlisted, htype⟩
    · rintro ⟨l', e, hl, he, hname, htype⟩
      cases hl
      exact ⟨e, List.mem_filterMap.mpr ⟨some e, he, rfl⟩,
        LogSources.listedName_logFile hv hname htype⟩

theorem mem_registryMatches {processes : List ProxyInfo} {r : GetLogsRequest} {name : String} :
    name ∈ (registryMatches processes r).map ProcessKey.name ↔
      (r.processNames = [] ∨ name ∈ r.processNames) ∧
        ∃ p ∈ processes, p.key = ⟨r.project, name⟩ := by
  simp only [registryMatches, List.map_map, List.mem_map, List.mem_filter, Bool.and_eq_true,
    Bool.or_eq_true, decide_eq_true_iff, List.isEmpty_iff, List.contains_iff_mem]
  constructor
  · rintro ⟨p, ⟨hp, hproject, hname⟩, rfl⟩
    exact ⟨hname, p, hp, by rw [← hproject]; rfl⟩
  · rintro ⟨hname, p, hp, hkey⟩
    obtain ⟨hproject, rfl⟩ := ProcessKey.mk.inj hkey
    exact ⟨p, ⟨hp, hproject, hname⟩, rfl⟩

theorem mem_sources {processes : List ProxyInfo} {listing : Listing} {r : GetLogsRequest}
    {discovered : List String} (hd : discoverLogNames listing = some discovered)
    {sources : List ProcessKey}
    (h : LogSources.Exact r.project (registryMatches processes r) r.processNames discovered sources)
    (name : String) :
    name ∈ sources.map ProcessKey.name ↔ Selected processes listing r name := by
  rw [h.names, mem_registryMatches]
  constructor
  · rintro (⟨hasked, hp⟩ | ⟨hv, hn, hasked⟩)
    · exact ⟨hasked, Or.inl hp⟩
    · exact ⟨hasked, Or.inr ⟨hv, (mem_discovered hd hv).mp hn⟩⟩
  · rintro ⟨hasked, hp | ⟨hv, hs⟩⟩
    · exact Or.inl ⟨hasked, hp⟩
    · exact Or.inr ⟨hv, (mem_discovered hd hv).mpr hs, hasked⟩

section

variable (chrono : Chrono) (logDir : UnixPath) (files : UnixPath → LogFile) (tail : Nat)

theorem sourceEntries_name (key : ProcessKey) :
    ∀ e ∈ sourceEntries chrono logDir files tail key, e.processName = some key.name := by
  intro e he
  simp only [sourceEntries] at he
  split at he
  · cases he
  · cases he
  · obtain ⟨p, -, rfl⟩ := List.mem_map.mp he
    rfl

end

theorem answer_by_name (isUuid : String → Bool) (compileRegex : String → Except String Unit)
    {s : Manager.State} (hs : (Manager.machine isUuid compileRegex).Reachable s) {chrono : Chrono}
    {listing : Listing} {listError : String} {logDir : UnixPath} {files : UnixPath → LogFile}
    {r : GetLogsRequest} {entries : List LogEntry}
    (h : getLogs chrono s.registry.processes listing listError logDir files r = .ok entries) :
    (∀ e ∈ entries, ∃ name, e.processName = some name ∧
      Selected s.registry.processes listing r name) ∧
      ∀ name, Selected s.registry.processes listing r name →
        ∀ file, files (getLogFilePathForKey logDir ⟨r.project, name⟩) = .bytes file →
          entries.filter (·.processName = some name) =
            ((LineReader.fileLines file).zipIdx.rtake r.tailLines).map
              fun p => logEntry chrono name 0 p.2 p.1 := by
  obtain ⟨discovered, sources, hd, hexact, rfl⟩ := getLogs_exact isUuid compileRegex hs h
  have hname := sourceEntries_name chrono logDir files r.tailLines
  refine ⟨fun e he => ?_, fun name hsel file hfile => ?_⟩
  · obtain ⟨key, hkey, he⟩ := List.mem_flatMap.mp he
    exact ⟨key.name, hname key e he, (mem_sources hd hexact key.name).mp (List.mem_map_of_mem hkey)⟩
  · obtain ⟨key, hkey, rfl⟩ := List.mem_map.mp ((mem_sources hd hexact name).mpr hsel)
    have hown : (⟨r.project, key.name⟩ : ProcessKey) = key := by
      rw [← hexact.inProject key hkey]
    have htags : (sources.map fun k => some k.name).Nodup := by
      refine hexact.distinct.map_on fun k hk k' hk' e => ?_
      have hproject := (hexact.inProject k hk).trans (hexact.inProject k' hk').symm
      cases k
      cases k'
      cases hproject
      cases e
      rfl
    refine (Sequences.filter_flatMap hname htags hkey).trans ?_
    rw [sourceEntries, ← hown, hfile]
    exact tailEntries_eq chrono r.tailLines key.name file

theorem answer_by_name_web :
    let s := (Manager.machine (fun _ => false) (fun _ => .ok ())).exec .initial
      (Manager.startRun 0 Manager.webRequest 7 "a")
    ∃ entries, getLogs Grep.undated s.registry.processes .notFound ""
        LogSources.runtimeLogDir.path mixedFiles ⟨"app", [], some 2⟩ = .ok entries ∧
      entries.filter (·.processName = some "web") =
        ((LineReader.fileLines mixedFile).zipIdx.rtake 2).map
          fun p => logEntry Grep.undated "web" 0 p.2 p.1 := by
  intro s
  have hs : (Manager.machine (fun _ => false) (fun _ => .ok ())).Reachable s :=
    ⟨Manager.startRun 0 Manager.webRequest 7 "a", by decide, rfl⟩
  have h : getLogs Grep.undated s.registry.processes .notFound ""
      LogSources.runtimeLogDir.path mixedFiles ⟨"app", [], some 2⟩ = .ok (([⟨"app", "web"⟩] :
        List ProcessKey).flatMap
          (sourceEntries Grep.undated LogSources.runtimeLogDir.path mixedFiles 2)) := rfl
  refine ⟨_, h, (answer_by_name _ _ hs h).2 "web" ⟨Or.inl rfl, Or.inl ?_⟩ mixedFile rfl⟩
  exact ⟨ProxyInfo.new Manager.webRequest "a" 7, by decide, rfl⟩

end GetLogs
