import Mcproc.Api.GetLogs
import Mcproc.Lib.Broadcast
import Mcproc.Lib.Runs

namespace LogStream

open Broadcast (Received Follows items missed recv)
open Grep (LogEntry LogLevel Timestamp)

inductive ProcessEvent where
  | starting (processId name project : String)
  | started (processId name project : String) (pid : Nat)
  | stopping (processId name project : String)
  | stopped (processId name project : String) (exitCode : Option Int)
  | failed (processId name project error : String)
  deriving DecidableEq, Repr

namespace ProcessEvent

def name : ProcessEvent → String
  | .starting _ name _ | .started _ name _ _ | .stopping _ name _ | .stopped _ name _ _
  | .failed _ name _ _ => name

def project : ProcessEvent → String
  | .starting _ _ project | .started _ _ project _ | .stopping _ _ project | .stopped _ _ project _
  | .failed _ _ project _ => project

end ProcessEvent

inductive StreamEvent where
  | process (event : ProcessEvent)
  | log (processName project : String) (entry : LogEntry)
  deriving DecidableEq, Repr

structure StreamFilter where
  project : Option String
  processNames : List String
  includeEvents : Bool
  deriving DecidableEq, Repr

namespace StreamFilter

def matchesProcess (f : StreamFilter) (project name : String) : Bool :=
  if f.project.any (· ≠ project) then false
  else if !f.processNames.isEmpty && !f.processNames.contains name then false
  else true

def matchesEvent (f : StreamFilter) : StreamEvent → Bool
  | .process event =>
    if !f.includeEvents then false else f.matchesProcess event.project event.name
  | .log processName project _ => f.matchesProcess project processName

end StreamFilter

inductive EventType where
  | starting
  | started
  | stopping
  | stopped
  | failed
  deriving DecidableEq, Repr

structure ProcessLifecycleEvent where
  eventType : EventType
  processId : String
  name : String
  project : String
  pid : Option Nat
  exitCode : Option Int
  error : Option String
  timestamp : Option Timestamp
  deriving DecidableEq, Repr

inductive GetLogsResponse where
  | logEntry (entry : LogEntry)
  | event (event : ProcessLifecycleEvent)
  deriving DecidableEq, Repr

def lifecycleEvent (now : Timestamp) : ProcessEvent → ProcessLifecycleEvent
  | .starting processId name project =>
    ⟨.starting, processId, name, project, none, none, none, some now⟩
  | .started processId name project pid =>
    ⟨.started, processId, name, project, some pid, none, none, some now⟩
  | .stopping processId name project =>
    ⟨.stopping, processId, name, project, none, none, none, some now⟩
  | .stopped processId name project exitCode =>
    ⟨.stopped, processId, name, project, none, exitCode, none, some now⟩
  | .failed processId name project error =>
    ⟨.failed, processId, name, project, none, none, some error, some now⟩

-- One pass of the loop that follows the hub; a lagging receiver is only logged.
def respond (filter : StreamFilter) (now : Timestamp) : Received StreamEvent → Option GetLogsResponse
  | .lagged _ => none
  | .item event =>
    if !filter.matchesEvent event then none
    else
      match event with
      | .log processName _ entry => some (.logEntry { entry with processName := some processName })
      | .process event =>
        if filter.includeEvents then some (.event (lifecycleEvent now event)) else none

-- The channel may round this up.
def eventCapacity : Nat := 10000

inductive Phase where
  | tailing (todo : List LogEntry)
  | following
  | ended
  deriving DecidableEq, Repr

-- `hub` is everything the hub has been sent, `got` what this request has been told of it.
structure State where
  hub : List StreamEvent
  hubOpen : Bool
  phase : Phase
  next : Nat
  got : List (Received StreamEvent)
  out : List GetLogsResponse

inductive Action where
  | publish (event : StreamEvent)
  | dropHub
  | yieldTail
  | endTail
  | recv (now : Timestamp)
  | closed

-- A request whose sources are resolved, with the entries of its tail.
structure Request where
  logs : GetLogs.GetLogsRequest
  follow : Option Bool
  includeEvents : Option Bool
  tail : List LogEntry

def Request.filter (r : Request) : StreamFilter :=
  ⟨some r.logs.project, r.logs.processNames, r.includeEvents.getD false⟩

section
variable (slots : Nat) (r : Request)

def enabled (s : State) : Action → Prop
  | .publish _ | .dropHub => s.hubOpen = true
  | .yieldTail => ∃ entry todo, s.phase = .tailing (entry :: todo)
  | .endTail => s.phase = .tailing []
  | .recv _ => s.phase = .following ∧ recv slots s.hub s.next ≠ none
  | .closed => s.phase = .following ∧ recv slots s.hub s.next = none ∧ s.hubOpen = false

def next (s : State) : Action → State
  | .publish event => { s with hub := s.hub ++ [event] }
  | .dropHub => { s with hubOpen := false }
  | .yieldTail =>
    match s.phase with
    | .tailing (entry :: todo) =>
      { s with phase := .tailing todo, out := s.out ++ [.logEntry entry] }
    | _ => s
  | .endTail => { s with phase := if r.follow.getD false then .following else .ended }
  | .recv now =>
    match recv slots s.hub s.next with
    | some (received, next) =>
      { s with
        next := next
        got := s.got ++ [received]
        out := s.out ++ (respond r.filter now received).toList }
    | none => s
  | .closed => { s with phase := .ended }

-- The request subscribes before it reads the tail.
def machine (before : List StreamEvent) : Machine State Action where
  init := ⟨before, true, .tailing r.tail, before.length, [], []⟩
  enabled := enabled slots
  next := next slots r

end

def Phase.todo : Phase → List LogEntry
  | .tailing todo => todo
  | _ => []

-- A response to an event, at some moment.
def Answers (filter : StreamFilter) (event : StreamEvent) (response : GetLogsResponse) : Prop :=
  ∃ now, respond filter now (.item event) = some response

structure Streamed (slots : Nat) (r : Request) (before : List StreamEvent) (s : State)
    (yielded : List LogEntry) (rs : List GetLogsResponse) : Prop where
  follows : Follows slots s.hub before.length s.next s.got
  tail : yielded ++ s.phase.todo = r.tail
  out : s.out = yielded.map .logEntry ++ rs
  answers : List.Forall₂ (Answers r.filter) ((items s.got).filter r.filter.matchesEvent) rs
  waiting : ∀ todo, s.phase = .tailing todo → rs = []

theorem respond_matching {filter : StreamFilter} {event : StreamEvent}
    (h : filter.matchesEvent event = true) (now : Timestamp) :
    ∃ response, respond filter now (.item event) = some response := by
  simp only [respond, h]
  cases event with
  | log processName project entry => exact ⟨_, rfl⟩
  | process event =>
    have hinclude : filter.includeEvents = true := by
      cases hi : filter.includeEvents with
      | true => rfl
      | false => simp [StreamFilter.matchesEvent, hi] at h
    simp only [hinclude]
    exact ⟨_, rfl⟩

theorem respond_other {filter : StreamFilter} {event : StreamEvent}
    (h : filter.matchesEvent event = false) (now : Timestamp) :
    respond filter now (.item event) = none := by
  simp [respond, h]

variable {slots : Nat} {r : Request} {before : List StreamEvent} {s : State}

theorem Streamed.recv {yielded : List LogEntry} {rs : List GetLogsResponse}
    (h : Streamed slots r before s yielded rs) (hphase : s.phase = .following)
    {received : Received StreamEvent} {place : Nat}
    (hr : recv slots s.hub s.next = some (received, place)) (now : Timestamp) :
    ∃ rs', Streamed slots r before
      { s with
        next := place
        got := s.got ++ [received]
        out := s.out ++ (respond r.filter now received).toList } yielded rs' := by
  refine ⟨rs ++ (respond r.filter now received).toList, h.follows.recv hr, h.tail, ?_, ?_, ?_⟩
  · simp only [h.out, List.append_assoc]
  · rw [Broadcast.items_append, List.filter_append]
    refine List.rel_append h.answers ?_
    cases received with
    | lagged n => exact .nil
    | item event =>
      cases hm : r.filter.matchesEvent event with
      | true =>
        obtain ⟨response, hresponse⟩ := respond_matching hm now
        rw [hresponse, items, items, List.filter_cons_of_pos hm]
        exact .cons ⟨now, hresponse⟩ .nil
      | false =>
        rw [respond_other hm, items, items, List.filter_cons_of_neg (by simp [hm])]
        exact .nil
  · intro todo htailing
    cases hphase.symm.trans htailing

theorem streamed_next {a : Action} (h : ∃ yielded rs, Streamed slots r before s yielded rs)
    (he : enabled slots s a) :
    ∃ yielded rs, Streamed slots r before (next slots r s a) yielded rs := by
  obtain ⟨yielded, rs, h⟩ := h
  cases a with
  | publish event =>
    exact ⟨yielded, rs, h.follows.publish event, h.tail, h.out, h.answers, h.waiting⟩
  | dropHub => exact ⟨yielded, rs, h.follows, h.tail, h.out, h.answers, h.waiting⟩
  | yieldTail =>
    obtain ⟨entry, todo, hp⟩ := he
    have htail := h.tail
    have hnone := h.waiting _ hp
    rw [hp] at htail
    simp only [next, hp]
    refine ⟨yielded ++ [entry], rs, h.follows, ?_, ?_, h.answers, fun _ _ => hnone⟩
    · simpa [Phase.todo] using htail
    · simp [h.out, hnone]
  | endTail =>
    have hp : s.phase = .tailing [] := he
    have htail := h.tail
    rw [hp] at htail
    refine ⟨yielded, rs, h.follows, ?_, h.out, h.answers, ?_⟩
    · simp only [next]
      split <;> exact htail
    · intro todo htodo
      exact h.waiting _ hp
  | recv now =>
    obtain ⟨hp, hsome⟩ := he
    obtain ⟨⟨received, place⟩, hr⟩ := Option.ne_none_iff_exists'.mp hsome
    obtain ⟨rs', hrs⟩ := h.recv hp hr now
    simp only [next, hr]
    exact ⟨yielded, rs', hrs⟩
  | closed =>
    have htail := h.tail
    rw [he.1] at htail
    exact ⟨yielded, rs, h.follows, htail, h.out, h.answers, nofun⟩

theorem reachable_streamed (hs : (machine slots r before).Reachable s) :
    ∃ yielded rs, Streamed slots r before s yielded rs := by
  refine (machine slots r before).reachable_induction ?_ (fun _ _ => streamed_next) hs
  exact ⟨[], [], Broadcast.follows_subscribe slots before, rfl, rfl, .nil, fun _ _ => rfl⟩

def StreamEvent.project : StreamEvent → String
  | .process event => event.project
  | .log _ project _ => project

def StreamEvent.name : StreamEvent → String
  | .process event => event.name
  | .log processName _ _ => processName

def StreamEvent.isProcess : StreamEvent → Bool
  | .process _ => true
  | .log _ _ _ => false

-- What a subscriber asked for.
structure Wanted (f : StreamFilter) (event : StreamEvent) : Prop where
  project : ∀ project, f.project = some project → event.project = project
  name : f.processNames ≠ [] → event.name ∈ f.processNames
  kind : event.isProcess = true → f.includeEvents = true

theorem matchesProcess_iff {f : StreamFilter} {project name : String} :
    f.matchesProcess project name = true ↔
      (∀ p, f.project = some p → project = p) ∧ (f.processNames ≠ [] → name ∈ f.processNames) := by
  have hproject : f.project.any (· ≠ project) = true ↔ ¬ ∀ p, f.project = some p → project = p := by
    cases f.project with
    | none => simp
    | some p =>
      rw [Option.any_some, decide_eq_true_iff, not_iff_not]
      exact ⟨fun h q hq => by rw [← Option.some.inj hq, h], fun h => (h p rfl).symm⟩
  have hnames : (!f.processNames.isEmpty && !f.processNames.contains name) = true ↔
      ¬ (f.processNames ≠ [] → name ∈ f.processNames) := by
    simp
  simp only [StreamFilter.matchesProcess, hproject, hnames]
  split
  · next hp => exact ⟨nofun, fun h => absurd h.1 hp⟩
  · next hp =>
    split
    · next hn => exact ⟨nofun, fun h => absurd h.2 hn⟩
    · next hn => exact ⟨fun _ => ⟨not_not.mp hp, not_not.mp hn⟩, fun _ => rfl⟩

theorem matchesEvent_iff {f : StreamFilter} {event : StreamEvent} :
    f.matchesEvent event = true ↔ Wanted f event := by
  cases event with
  | log processName project entry =>
    rw [StreamFilter.matchesEvent, matchesProcess_iff]
    exact ⟨fun h => ⟨h.1, h.2, nofun⟩, fun h => ⟨h.project, h.name⟩⟩
  | process event =>
    cases hi : f.includeEvents with
    | true =>
      have hmatches : f.matchesEvent (.process event) = f.matchesProcess event.project event.name := by
        rw [StreamFilter.matchesEvent, hi]
        rfl
      rw [hmatches, matchesProcess_iff]
      exact ⟨fun h => ⟨h.1, h.2, fun _ => hi⟩, fun h => ⟨h.project, h.name⟩⟩
    | false =>
      have hmatches : f.matchesEvent (.process event) = false := by
        rw [StreamFilter.matchesEvent, hi]
        rfl
      rw [hmatches]
      refine ⟨nofun, fun h => ?_⟩
      have hkind := h.kind rfl
      rw [hi] at hkind
      cases hkind

theorem follower_hears (hslots : eventCapacity ≤ slots)
    (hs : (machine slots r before).Reachable s) :
    ∃ (yielded : List LogEntry) (events : List StreamEvent) (rs : List GetLogsResponse),
      yielded <+: r.tail ∧ s.out = yielded.map .logEntry ++ rs ∧
        (rs ≠ [] → yielded = r.tail) ∧
        events.Sublist ((s.hub.take s.next).drop before.length) ∧
        s.next - before.length ≤
          events.length + (s.hub.length - before.length - eventCapacity) ∧
        List.Forall₂ (Answers r.filter) (events.filter r.filter.matchesEvent) rs ∧
        (∀ event ∈ events.filter r.filter.matchesEvent, Wanted r.filter event) ∧
        (recv slots s.hub s.next = none → s.hub.length ≤ before.length + eventCapacity →
          events = s.hub.drop before.length) := by
  obtain ⟨yielded, rs, h⟩ := reachable_streamed hs
  have hcounted := h.follows.counted
  have hovertaken := h.follows.overtaken
  refine ⟨yielded, items s.got, rs, ⟨_, h.tail⟩, h.out, fun hne => ?_, h.follows.heard, by omega,
    h.answers, fun event hevent => matchesEvent_iff.mp (List.mem_filter.mp hevent).2,
    fun hnone hfew => ?_⟩
  · have htail := h.tail
    cases hp : s.phase with
    | tailing todo => exact absurd (h.waiting todo hp) hne
    | following | ended =>
      rw [hp] at htail
      exact (List.append_nil _).symm.trans htail
  · rw [h.follows.complete (by omega), (Broadcast.recv_none h.follows.known).mp hnone,
      List.take_length]

def aliceEntry : LogEntry := ⟨0, "up", some ⟨0, 0⟩, .stdout, none⟩

-- A log line of another project stands between a start and its first line.
def aliceRun : List Action :=
  [.publish (.process (.starting "1" "web" "alice")), .yieldTail,
    .publish (.log "web" "bob" aliceEntry), .publish (.log "web" "alice" aliceEntry), .endTail,
    .recv ⟨1, 0⟩, .recv ⟨2, 0⟩, .recv ⟨3, 0⟩]

def aliceRequest : Request where
  logs := ⟨"alice", [], none⟩
  follow := some true
  includeEvents := some true
  tail := [{ aliceEntry with processName := some "web" }]

def aliceEnd : State :=
  (machine 16384 aliceRequest []).exec (machine 16384 aliceRequest []).init aliceRun

theorem aliceEnd_reachable : (machine 16384 aliceRequest []).Reachable aliceEnd :=
  ⟨aliceRun, ⟨rfl, ⟨_, _, rfl⟩, rfl, rfl, rfl, ⟨rfl, by decide⟩, ⟨rfl, by decide⟩,
    ⟨rfl, by decide⟩, trivial⟩, rfl⟩

theorem follower_hears_alice :
    ∃ (yielded : List LogEntry) (rs : List GetLogsResponse),
      aliceEnd.out = yielded.map .logEntry ++ rs ∧
        List.Forall₂ (Answers aliceRequest.filter)
          (aliceEnd.hub.filter aliceRequest.filter.matchesEvent) rs := by
  obtain ⟨yielded, events, rs, -, hout, -, -, -, hanswers, -, hcomplete⟩ :=
    follower_hears (by decide) aliceEnd_reachable
  have hevents : events = aliceEnd.hub := hcomplete (by decide) (by decide)
  rw [hevents] at hanswers
  exact ⟨yielded, rs, hout, hanswers⟩

end LogStream
