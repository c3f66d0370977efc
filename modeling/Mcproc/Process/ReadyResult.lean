import Mcproc.Process.ReadyRelease

namespace ReadyResult

open HyperLog (Record)
open ReadyChannel (After Phase StreamName Streamer WaitOutcome matchedText)

structure State where
  channel : ReadyChannel.State
  collectedMatchedLine : Option (Option String)
  timeoutOccurred : Option Bool
  patternMatched : Option Bool

def State.initial : State := ⟨.initial, none, none, none⟩

structure Returned where
  timeoutOccurred : Bool
  patternMatched : Bool
  matchedLine : Option String
  deriving DecidableEq, Repr

def State.returned (s : State) : Option Returned := do
  return ⟨← s.timeoutOccurred, ← s.patternMatched, ← s.collectedMatchedLine⟩

-- The line is read before the ports are detected, the two flags after that, one lock each.
inductive Action where
  | channel (a : ReadyChannel.Action)
  | readLine (outcome : WaitOutcome)
  | readTimeout
  | readMatched
  deriving DecidableEq

def enabled (s : State) : Action → Prop
  | .channel a => ReadyChannel.enabled s.channel a
  | .readLine outcome => s.channel.call = .ended outcome ∧ s.collectedMatchedLine = none
  | .readTimeout => s.collectedMatchedLine.isSome ∧ s.timeoutOccurred = none
  | .readMatched => s.timeoutOccurred.isSome ∧ s.patternMatched = none

section
variable (isMatch : String → Bool) (waitTimeout : Nat)

def next (s : State) : Action → State
  | .channel a => { s with channel := ReadyChannel.next isMatch waitTimeout s.channel a }
  | .readLine _ => { s with collectedMatchedLine := some s.channel.matchedLine }
  | .readTimeout => { s with timeoutOccurred := some s.channel.timeoutOccurred }
  | .readMatched => { s with patternMatched := some s.channel.patternMatched }

def machine : Machine State Action where
  init := .initial
  enabled := enabled
  next := next isMatch waitTimeout

instance (s : State) (a : Action) : Decidable ((machine isMatch waitTimeout).enabled s a) := by
  cases a with
  | channel a =>
    exact inferInstanceAs
      (Decidable ((ReadyChannel.machine isMatch waitTimeout).enabled s.channel a))
  | readLine outcome => exact inferInstanceAs (Decidable (_ ∧ _))
  | readTimeout => exact inferInstanceAs (Decidable (_ ∧ _))
  | readMatched => exact inferInstanceAs (Decidable (_ ∧ _))

def OutputLine (c : ReadyChannel.State) (text : String) : Prop :=
  ∃ k, ∃ l ∈ (c.stream k).completeLines, matchedText isMatch l = some text

structure Consistent (c : ReadyChannel.State) (r : Returned) : Prop where
  exclusive : ¬ (r.timeoutOccurred = true ∧ r.patternMatched = true)
  agree : r.patternMatched = true ↔ r.matchedLine.isSome
  line : ∀ text, r.matchedLine = some text → OutputLine isMatch c text

-- What has to hold where the code goes wrong: neither flag is set once the other one is, none of
-- the three is read while a match is half stored, and the rest of a torn line does not match.
def Steady (s : State) : Action → Prop
  | .channel (.setMatched _ _ _ _) =>
    s.channel.patternMatched = true ∨ s.patternMatched.isSome ∨
      s.collectedMatchedLine = none ∧ s.channel.timeoutOccurred = false
  | .channel (.setTimeout _) =>
    s.channel.patternMatched = false ∨ s.timeoutOccurred.isSome ∨ s.channel.timeoutOccurred = true
  | .channel (.record k r _ _) =>
    s.collectedMatchedLine = none → r.forced = false → s.channel.patternMatched = false →
      (matchedText isMatch r.content).isSome → (s.channel.stream k).wholeLine r = r.content
  | .readLine _ => s.channel.patternMatched = true → s.channel.matchedLine.isSome
  | _ => True

instance (s : State) (a : Action) : Decidable (Steady isMatch s a) := by
  cases a with
  | channel a =>
    apply ReadyChannel.Action.casesOn
      (motive := fun a => Decidable (Steady isMatch s (.channel a))) a <;> intros <;>
      dsimp only [Steady] <;> infer_instance
  | readLine outcome => exact inferInstanceAs (Decidable (_ → _))
  | readTimeout => exact isTrue trivial
  | readMatched => exact isTrue trivial

end

def pendingText : Phase → Option String
  | .setMatched text _ _ | .setLine text _ _ => some text
  | _ => none

def storing : Phase → Bool
  | .setLine _ _ _ => true
  | _ => false

def Quiet (phase : Phase) : Prop := pendingText phase = none ∧ storing phase = false

-- What start would return if it read everything it has not read yet at once.
def State.answer (s : State) : Returned where
  timeoutOccurred := s.timeoutOccurred.getD s.channel.timeoutOccurred
  patternMatched := s.patternMatched.getD s.channel.patternMatched
  matchedLine := s.collectedMatchedLine.getD s.channel.matchedLine

variable (isMatch : String → Bool) (waitTimeout : Nat)

structure Inv (s : State) : Prop where
  ordered : ∀ k, (s.channel.stream k).Ordered waitTimeout
  pending : ∀ k text, pendingText (s.channel.stream k).phase = some text →
    s.collectedMatchedLine = none → OutputLine isMatch s.channel text
  storing : ∀ k, storing (s.channel.stream k).phase = true → s.channel.patternMatched = true
  stored : s.channel.matchedLine.isSome → s.channel.patternMatched = true
  lineFirst : s.collectedMatchedLine = none → s.timeoutOccurred = none
  timeoutFirst : s.timeoutOccurred = none → s.patternMatched = none
  exclusive : ¬ (s.answer.timeoutOccurred = true ∧ s.answer.patternMatched = true)
  agree : s.collectedMatchedLine.isSome →
    (s.answer.patternMatched = true ↔ s.answer.matchedLine.isSome)
  line : ∀ text, s.answer.matchedLine = some text → OutputLine isMatch s.channel text

variable {isMatch waitTimeout} {s : State}

theorem returned_answer {r : Returned} (h : s.returned = some r) :
    r = s.answer ∧ s.collectedMatchedLine.isSome := by
  obtain ⟨c, l, t, m⟩ := s
  cases l <;> cases t <;> cases m <;> simp_all [State.returned, State.answer]

theorem Inv.consistent (h : Inv isMatch waitTimeout s) {r : Returned} (hr : s.returned = some r) :
    Consistent isMatch s.channel r := by
  obtain ⟨rfl, hl⟩ := returned_answer hr
  exact ⟨h.exclusive, h.agree hl, h.line⟩

theorem outputLine_put {c : ReadyChannel.State} {k : StreamName} {st : Streamer}
    (hg : (c.stream k).Grows st) {text : String} (h : OutputLine isMatch c text) :
    OutputLine isMatch (c.put k st) text := by
  obtain ⟨j, l, hl, hm⟩ := h
  refine ⟨j, l, ?_, hm⟩
  by_cases hj : j = k
  · subst hj
    rw [ReadyChannel.State.put_self]
    exact hg.lines l hl
  · rwa [ReadyChannel.State.put_other c st hj]

theorem Inv.put (h : Inv isMatch waitTimeout s) {k : StreamName} {st : Streamer}
    (ha : (s.channel.stream k).Advances waitTimeout st)
    (hp : ∀ text, pendingText st.phase = some text → s.collectedMatchedLine = none →
      OutputLine isMatch s.channel text)
    (hs : ReadyResult.storing st.phase = true → s.channel.patternMatched = true) :
    Inv isMatch waitTimeout { s with channel := s.channel.put k st } where
  ordered := ReadyChannel.put_cases (P := fun _ st => st.Ordered waitTimeout)
    (ha.ordered (h.ordered k)) fun j _ => h.ordered j
  pending j := ReadyChannel.put_cases
    (P := fun _ st' => ∀ text, pendingText st'.phase = some text → s.collectedMatchedLine = none →
      OutputLine isMatch (s.channel.put k st) text)
    (fun text ht hl => outputLine_put ha.grows (hp text ht hl))
    (fun j _ text ht hl => outputLine_put ha.grows (h.pending j text ht hl)) j
  storing := ReadyChannel.put_cases
    (P := fun _ st => ReadyResult.storing st.phase = true → s.channel.patternMatched = true) hs
    fun j _ => h.storing j
  stored := h.stored
  lineFirst := h.lineFirst
  timeoutFirst := h.timeoutFirst
  exclusive := h.exclusive
  agree := h.agree
  line text ht := outputLine_put ha.grows (h.line text ht)

theorem Inv.putQuiet (h : Inv isMatch waitTimeout s) {k : StreamName} {st : Streamer}
    (ha : (s.channel.stream k).Advances waitTimeout st) (hq : Quiet st.phase) :
    Inv isMatch waitTimeout { s with channel := s.channel.put k st } :=
  h.put ha (fun _ ht => by cases hq.1.symm.trans ht) fun hs => by cases hq.2.symm.trans hs

theorem Inv.goto (h : Inv isMatch waitTimeout s) {k : StreamName} {old phase : Phase}
    (hp : (s.channel.stream k).phase = old) (ht : phase.todo = old.todo)
    (ha : phase.after = old.after) (hq : Quiet phase) :
    Inv isMatch waitTimeout { s with channel := s.channel.goto k phase } :=
  h.putQuiet (Streamer.advances_goto hp ht ha) hq

theorem quiet_of_unclaimed {phase : Phase} (h : phase.claims = false) : Quiet phase := by
  cases phase with
  | setMatched | setLine => cases h
  | _ => exact ⟨rfl, rfl⟩

-- Time, the call's own progress and the sender's fate are none of what the call returns.
theorem Inv.same (h : Inv isMatch waitTimeout s) {c : ReadyChannel.State}
    (hs : c.stream = s.channel.stream) (hp : c.patternMatched = s.channel.patternMatched)
    (ht : c.timeoutOccurred = s.channel.timeoutOccurred)
    (hl : c.matchedLine = s.channel.matchedLine) :
    Inv isMatch waitTimeout { s with channel := c } := by
  obtain ⟨now, stream, matched, line, timeout, sender, sent, call⟩ := c
  subst hs hp ht hl
  exact ⟨h.ordered, h.pending, h.storing, h.stored, h.lineFirst, h.timeoutFirst, h.exclusive,
    h.agree, h.line⟩

theorem Inv.setMatched (h : Inv isMatch waitTimeout s)
    (hc : s.channel.patternMatched = true ∨ s.patternMatched.isSome ∨
      s.collectedMatchedLine = none ∧ s.channel.timeoutOccurred = false) :
    Inv isMatch waitTimeout { s with channel := { s.channel with patternMatched := true } } := by
  refine ⟨h.ordered, h.pending, fun _ _ => rfl, fun _ => rfl, h.lineFirst, h.timeoutFirst, ?_, ?_,
    h.line⟩
  · have hapart := h.exclusive
    simp only [State.answer] at hapart ⊢
    rcases hc with hc | hc | ⟨hl, ht⟩
    · rwa [hc] at hapart
    · obtain ⟨m, hm⟩ := Option.isSome_iff_exists.mp hc
      simpa only [hm, Option.getD_some] using hapart
    · rw [h.lineFirst hl, Option.getD_none, ht]
      exact fun hb => by cases hb.1
  · intro hl
    have hagree := h.agree hl
    simp only [State.answer] at hagree ⊢
    rcases hc with hc | hc | ⟨hn, -⟩
    · rwa [hc] at hagree
    · obtain ⟨m, hm⟩ := Option.isSome_iff_exists.mp hc
      simpa only [hm, Option.getD_some] using hagree
    · rw [hn] at hl
      cases hl

theorem Inv.setTimeout (h : Inv isMatch waitTimeout s)
    (hc : s.channel.patternMatched = false ∨ s.timeoutOccurred.isSome ∨
      s.channel.timeoutOccurred = true) :
    Inv isMatch waitTimeout { s with channel := { s.channel with timeoutOccurred := true } } := by
  refine ⟨h.ordered, h.pending, h.storing, h.stored, h.lineFirst, h.timeoutFirst, ?_, h.agree,
    h.line⟩
  have hapart := h.exclusive
  simp only [State.answer] at hapart ⊢
  cases hr : s.timeoutOccurred with
  | some t => simpa only [hr, Option.getD_some] using hapart
  | none =>
    rcases hc with hc | hc | hc
    · rw [h.timeoutFirst hr, Option.getD_none, hc]
      exact fun hb => by cases hb.2
    · rw [hr] at hc
      cases hc
    · rwa [hr, Option.getD_none, hc] at hapart

theorem Inv.setLine (h : Inv isMatch waitTimeout s) {text : String}
    (hm : s.channel.patternMatched = true)
    (ht : s.collectedMatchedLine = none → OutputLine isMatch s.channel text) :
    Inv isMatch waitTimeout
      { s with channel := { s.channel with matchedLine := some text } } := by
  refine ⟨h.ordered, h.pending, h.storing, fun _ => hm, h.lineFirst, h.timeoutFirst, h.exclusive,
    fun hl => ?_, fun text' ht' => ?_⟩
  · have hagree := h.agree hl
    obtain ⟨l, hl⟩ : ∃ l, s.collectedMatchedLine = some l := Option.isSome_iff_exists.mp hl
    simpa only [State.answer, hl, Option.getD_some] using hagree
  · have hline := h.line text'
    simp only [State.answer] at hline ht'
    cases hl : s.collectedMatchedLine with
    | none =>
      rw [hl, Option.getD_none] at ht'
      cases ht'
      exact ht hl
    | some l =>
      rw [hl] at ht' hline
      exact hline ht'

theorem Inv.readLine (h : Inv isMatch waitTimeout s) (hn : s.collectedMatchedLine = none)
    (hc : s.channel.patternMatched = true → s.channel.matchedLine.isSome) :
    Inv isMatch waitTimeout { s with collectedMatchedLine := some s.channel.matchedLine } := by
  have hline := h.line
  simp only [State.answer, hn, Option.getD_none] at hline
  refine ⟨h.ordered, (fun _ _ _ hl => by cases hl), h.storing, h.stored, (fun hl => by cases hl),
    h.timeoutFirst, h.exclusive, fun _ => ?_, hline⟩
  simp only [State.answer, h.timeoutFirst (h.lineFirst hn), Option.getD_none, Option.getD_some]
  exact ⟨hc, h.stored⟩

theorem Inv.readTimeout (h : Inv isMatch waitTimeout s) (hl : s.collectedMatchedLine.isSome)
    (hn : s.timeoutOccurred = none) :
    Inv isMatch waitTimeout { s with timeoutOccurred := some s.channel.timeoutOccurred } := by
  have hapart := h.exclusive
  simp only [State.answer, hn, Option.getD_none] at hapart
  refine ⟨h.ordered, h.pending, h.storing, h.stored, fun hn => ?_, (fun ht => by cases ht), hapart,
    h.agree, h.line⟩
  rw [show s.collectedMatchedLine = none from hn] at hl
  cases hl

theorem Inv.readMatched (h : Inv isMatch waitTimeout s) (ht : s.timeoutOccurred.isSome)
    (hn : s.patternMatched = none) :
    Inv isMatch waitTimeout { s with patternMatched := some s.channel.patternMatched } := by
  have hapart := h.exclusive
  have hagree := h.agree
  simp only [State.answer, hn, Option.getD_none] at hapart hagree
  refine ⟨h.ordered, h.pending, h.storing, h.stored, h.lineFirst, fun hn => ?_, hapart, hagree,
    h.line⟩
  rw [show s.timeoutOccurred = none from hn] at ht
  cases ht

theorem pendingText_afterRecord {matched : Bool} {r : Record} {todo : List Record} {after : After}
    {text : String}
    (h : pendingText (ReadyChannel.afterRecord isMatch matched r todo after) = some text) :
    r.forced = false ∧ matched = false ∧ matchedText isMatch r.content = some text := by
  simp only [ReadyChannel.afterRecord] at h
  split at h
  · cases h
  · next hf =>
    simp only [Bool.or_eq_true, not_or, Bool.not_eq_true] at hf
    split at h
    · next t ht =>
      cases h
      exact ⟨hf.1, hf.2, ht⟩
    · cases h

theorem storing_afterRecord (isMatch : String → Bool) (matched : Bool) (r : Record)
    (todo : List Record) (after : After) :
    storing (ReadyChannel.afterRecord isMatch matched r todo after) = false := by
  simp only [ReadyChannel.afterRecord]
  repeat' split
  all_goals rfl

theorem Inv.record (h : Inv isMatch waitTimeout s) {k : StreamName} {r : Record}
    {todo : List Record} {after : After} (hp : (s.channel.stream k).phase = .records (r :: todo) after)
    (hc : Steady isMatch s (.channel (.record k r todo after))) :
    Inv isMatch waitTimeout
      { s with
        channel := s.channel.put k ((s.channel.stream k).consume after r
          (ReadyChannel.afterRecord isMatch s.channel.patternMatched r todo after)) } := by
  obtain ⟨ht, ha, -⟩ := ReadyChannel.afterRecord_todo isMatch s.channel.patternMatched r todo after
  refine h.put (Streamer.advances_consume hp ht ha) (fun text hph hl => ?_) fun hph => ?_
  · obtain ⟨hforced, hflag, hm⟩ := pendingText_afterRecord hph
    have hwhole := hc hl hforced hflag (by rw [hm]; rfl)
    have hcomplete := (h.ordered k).wholeLine_complete hp hforced
    rw [hwhole] at hcomplete
    exact ⟨k, _, hcomplete, hm⟩
  · have hno := storing_afterRecord isMatch s.channel.patternMatched r todo after
    cases hno.symm.trans hph

theorem channel_step {a : ReadyChannel.Action} (h : Inv isMatch waitTimeout s)
    (he : ReadyChannel.enabled s.channel a) (hc : Steady isMatch s (.channel a)) :
    Inv isMatch waitTimeout
      { s with channel := ReadyChannel.next isMatch waitTimeout s.channel a } := by
  have heffect : ReadyChannel.Effect waitTimeout s.channel
      (ReadyChannel.next isMatch waitTimeout s.channel a) a := ReadyChannel.effect_next he
  cases heffect with
  | still hs hr => exact h.same hs hr.matched hr.timeout hr.line
  | move k st ha hp hs hr =>
    have hput : Inv isMatch waitTimeout { s with channel := s.channel.put k st } := by
      rcases hp with hquiet | hsame
      · exact h.putQuiet ha (quiet_of_unclaimed hquiet)
      · exact h.put ha (fun text ht => h.pending k text (hsame ▸ ht)) fun hst =>
          h.storing k (hsame ▸ hst)
    exact hput.same hs hr.matched hr.timeout hr.line
  | record k r todo after => exact h.record he hc
  | setTimeout k => exact (h.setTimeout hc).goto he rfl rfl ⟨rfl, rfl⟩
  | setMatched k text todo after =>
    have hphase : (s.channel.stream k).phase = .setMatched text todo after := he
    refine (h.setMatched hc).put (Streamer.advances_goto he rfl rfl) (fun _ ht => ?_) fun _ => rfl
    exact h.pending k _ (by rw [hphase]; exact ht)
  | setLine k text todo after =>
    have hphase : (s.channel.stream k).phase = .setLine text todo after := he
    have hstored := h.setLine (h.storing k (by rw [hphase]; rfl))
      (h.pending k text (by rw [hphase]; rfl))
    exact hstored.goto he rfl rfl ⟨rfl, rfl⟩

theorem inv_step {a : Action} (h : Inv isMatch waitTimeout s) (he : enabled s a)
    (hc : Steady isMatch s a) : Inv isMatch waitTimeout (next isMatch waitTimeout s a) := by
  cases a with
  | channel a => exact channel_step h he hc
  | readLine outcome => exact h.readLine he.2 hc
  | readTimeout => exact h.readTimeout he.1 he.2
  | readMatched => exact h.readMatched he.1 he.2

theorem Inv.initial : Inv isMatch waitTimeout .initial := by
  have hchannel : ReadyChannel.Inv isMatch waitTimeout .initial := ReadyChannel.Inv.initial
  refine ⟨hchannel.ordered, fun k _ ht => ?_, fun k hs => ?_,
    fun hm => ?_, fun _ => rfl, fun _ => rfl, fun hb => ?_, fun hl => ?_, fun _ ht => ?_⟩
  · cases k <;> cases ht
  · cases k <;> cases hs
  · cases hm
  · cases hb.1
  · cases hl
  · cases ht

theorem result_consistent {as : List Action}
    (hl : (machine isMatch waitTimeout).Legal .initial as)
    (hc : (machine isMatch waitTimeout).Throughout (Steady isMatch) .initial as) :
    (machine isMatch waitTimeout).Always
      (fun s => ∀ r, s.returned = some r → Consistent isMatch s.channel r) .initial as :=
  (machine isMatch waitTimeout).always_mono (fun _ (h : Inv isMatch waitTimeout _) _ hr => h.consistent hr)
    ((machine isMatch waitTimeout).always_of_step (J := Inv isMatch waitTimeout)
      (fun _ _ h he hc => inv_step h he hc) Inv.initial hl hc)

def readRun (outcome : WaitOutcome) : List Action := [.readLine outcome, .readTimeout, .readMatched]

def answeredRun : List Action := ReadyChannel.matchRun.map .channel ++ readRun .matched

-- The timer closes the channel; the line arrives before the call has read the flags.
def lateMatch : List ReadyChannel.Action :=
  ReadyChannel.spawnRun ++
    [.guardMatched .stdout, .guardTimeout .stdout, .tick, .fire .stdout, .setTimeout .stdout,
     .closeOnTimeout .stdout, .wake .closed 11, .guardMatched .stdout, .guardTimeout .stdout,
     .read .stdout ReadyChannel.readyLine, .recv .stdout false ReadyChannel.readyLine [],
     .guardMatched .stdout, .guardTimeout .stdout, .batchTimeout .stdout false,
     .record .stdout ⟨ReadyChannel.readyLine, false⟩ [] .loop,
     .setMatched .stdout "ready" [] .loop, .setLine .stdout "ready" [] .loop,
     .notify .stdout [] .loop]

def lateMatchRun : List Action := lateMatch.map .channel ++ readRun .closed

theorem result_consistent_ready :
    (machine ReadyChannel.saysReady 60).Always
      (fun s => ∀ r, s.returned = some r → Consistent ReadyChannel.saysReady s.channel r)
      .initial answeredRun :=
  result_consistent (by decide) (by decide)

theorem timed_out_and_matched :
    ¬ ∀ (isMatch : String → Bool) (waitTimeout : Nat) (as : List Action),
      (machine isMatch waitTimeout).Legal .initial as →
      (machine isMatch waitTimeout).Always
        (fun s => ∀ r, s.returned = some r → Consistent isMatch s.channel r) .initial as := by
  intro hall
  have hlast := (machine ReadyChannel.saysReady 1).always_last
    (hall ReadyChannel.saysReady 1 lateMatchRun (by decide))
  exact (hlast ⟨true, true, some "ready"⟩ (by decide)).exclusive ⟨rfl, rfl⟩

end ReadyResult
