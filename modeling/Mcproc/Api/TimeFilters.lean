import Mathlib.Algebra.Ring.Int.Defs
import Mcproc.Api.GetLogs
import Mcproc.Lib.ByteIndex
import Mcproc.Process.StopAnswers

-- What the grep request's time filters use of the chrono crate. A subtraction leaves the crate's
-- year range or has a value; `fromLocalDateTime` is the single instant of a local time.
structure Dates extends Chrono where
  NaiveDate : Type
  NaiveTime : Type
  NaiveDateTime : Type
  firstTimestamp : Int
  lastTimestamp : Int
  sub : DateTime → Int → Option DateTime
  parseNaiveDateTime : String → String → Option NaiveDateTime
  parseNaiveTime : String → String → Option NaiveTime
  andTime : NaiveDate → NaiveTime → NaiveDateTime
  fromLocalDateTime : NaiveDateTime → Option DateTime
  sub_isSome : ∀ t secs, (sub t secs).isSome ↔
    firstTimestamp ≤ timestamp t - secs ∧ timestamp t - secs ≤ lastTimestamp

namespace TimeFilters

open GetLogs (LogFile)
open Grep (GrepMatch grepLogFile)
open LogSources (grepLogPath)
open ProcessHandlers (Status)
open StopAnswers (digitsValue)
open Validation (trim)

-- What `char::is_alphabetic` answers.
structure Alphabet where
  isAlphabetic : Char → Bool
  ascii : ∀ c, c.toNat < 0x80 → isAlphabetic c = c.isAlpha

inductive Outcome (E A : Type) where
  | ok (value : A)
  | error (e : E)
  | panicked
  deriving DecidableEq, Repr

def Outcome.bind {E A B : Type} : Outcome E A → (A → Outcome E B) → Outcome E B
  | .ok a, f => f a
  | .error e, _ => .error e
  | .panicked, _ => .panicked

def Outcome.mapError {E F A : Type} (f : E → F) : Outcome E A → Outcome F A
  | .ok a => .ok a
  | .error e => .error (f e)
  | .panicked => .panicked

def Outcome.of {E A : Type} : Except E A → Outcome E A
  | .ok a => .ok a
  | .error e => .error e

def expect {E A : Type} : Option A → Outcome E A
  | some a => .ok a
  | none => .panicked

def i64 (n : Int) : Option Int := if -2 ^ 63 ≤ n ∧ n < 2 ^ 63 then some n else none

def parseI64 (cs : List Char) : Option Int :=
  let negative := cs.head? = some '-'
  let digits := if negative ∨ cs.head? = some '+' then cs.tail else cs
  if digits ≠ [] ∧ digits.all Char.isDigit then
    i64 (if negative then -digitsValue digits else digitsValue digits)
  else none

def unitSeconds : List Char → Option Int
  | ['s'] => some 1
  | ['m'] => some 60
  | ['h'] => some 3600
  | ['d'] => some 86400
  | _ => none

-- A duration is kept as its seconds; it exists when its milliseconds are an i64.
def duration (secs : Int) : Option Int := (i64 (secs * 1000)).map fun _ => secs

def parseDuration (alphabet : Alphabet) (durationStr : List Char) : Outcome String Int :=
  let durationStr := trim durationStr
  if durationStr = [] then .error "Empty duration"
  else
    match ByteIndex.rfind alphabet.isAlphabetic durationStr with
    | none => .error "No time unit specified"
    | some pos =>
      (expect (ByteIndex.splitAt durationStr pos)).bind fun split =>
        match parseI64 split.1 with
        | none => .error ("Invalid number: " ++ String.ofList split.1)
        | some number =>
          match unitSeconds split.2 with
          | some unit => expect (duration (number * unit))
          | none => .error ("Unknown time unit: " ++ String.ofList split.2)

structure Filters where
  sinceStr : Option String
  untilStr : Option String
  lastStr : Option String
  deriving DecidableEq, Repr

section
variable (dates : Dates)

-- The clock is read once for the filters and once more for each time without a date.
structure Clock where
  now : dates.DateTime
  sinceToday : dates.NaiveDate
  untilToday : dates.NaiveDate

def fromLocal (timeStr : String) (naive : dates.NaiveDateTime) : Except String dates.DateTime :=
  match dates.fromLocalDateTime naive with
  | some t => .ok t
  | none => .error ("Local time is ambiguous or does not exist: " ++ timeStr)

def formats : List String := ["%Y-%m-%d %H:%M:%S", "%Y-%m-%d %H:%M", "%H:%M:%S", "%H:%M"]

def tryFormats (today : dates.NaiveDate) (timeStr : String) :
    List String → Except String dates.DateTime
  | [] => .error ("Could not parse time: " ++ timeStr)
  | format :: rest =>
    match dates.parseNaiveDateTime timeStr format with
    | some naive => fromLocal dates timeStr naive
    | none =>
      if "%H".toList.isPrefixOf format.toList then
        match dates.parseNaiveTime timeStr format with
        | some time => fromLocal dates timeStr (dates.andTime today time)
        | none => tryFormats today timeStr rest
      else tryFormats today timeStr rest

def parseTimeString (today : dates.NaiveDate) (timeStr : String) : Except String dates.DateTime :=
  tryFormats dates today (String.ofList (trim timeStr.toList)) formats

def invalid (what text e : String) : Status :=
  ⟨.invalidArgument, "Invalid " ++ what ++ " '" ++ text ++ "': " ++ e⟩

def timeFilter (today : dates.NaiveDate) (what : String) :
    Option String → Outcome Status (Option dates.DateTime)
  | none => .ok none
  | some text =>
    (Outcome.of (parseTimeString dates today text)).mapError (invalid what text) |>.bind
      fun t => .ok (some t)

variable (alphabet : Alphabet) (clock : Clock dates)

def subtract (secs : Int) : Outcome Status (Option dates.DateTime) :=
  (expect (dates.sub clock.now secs)).bind fun t => .ok (some t)

def sinceFilter (f : Filters) : Outcome Status (Option dates.DateTime) :=
  match f.lastStr with
  | some lastStr =>
    ((parseDuration alphabet lastStr.toList).mapError (invalid "duration" lastStr)).bind
      (subtract dates clock)
  | none => timeFilter dates clock.sinceToday "since time" f.sinceStr

def parseTimeFilters (f : Filters) :
    Outcome Status (Option dates.DateTime × Option dates.DateTime) :=
  (sinceFilter dates alphabet clock f).bind fun since =>
    (timeFilter dates clock.untilToday "until time" f.untilStr).bind fun upTo => .ok (since, upTo)

structure GrepLogsRequest where
  name : String
  pattern : String
  project : String
  context : Option Nat
  before : Option Nat
  after : Option Nat
  filters : Filters
  deriving DecidableEq, Repr

def clampGrepContext (value : Nat) : Nat := min value 1000

def searchFile (compile : String → Except String (String → Bool)) (now : dates.DateTime)
    (file : LogFile) (readError : String) (r : GrepLogsRequest)
    (range : Option dates.DateTime × Option dates.DateTime) : Outcome Status (List GrepMatch) :=
  match compile r.pattern with
  | .error e => .error ⟨.invalidArgument, "Invalid regex pattern: " ++ e⟩
  | .ok isMatch =>
    let context := clampGrepContext (r.context.getD 3)
    let before := (r.before.map clampGrepContext).getD context
    let after := (r.after.map clampGrepContext).getD context
    match file with
    | .bytes content =>
      .ok (grepLogFile dates.toChrono now ⟨isMatch, before, after, range.1, range.2⟩ content)
    | .absent | .unreadable => .error ⟨.internal, "Failed to grep log file: " ++ readError⟩

-- `readNow` is the clock once the file is read.
def grepLogs (compile : String → Except String (String → Bool)) (readNow : dates.DateTime)
    (logDir : UnixPath) (files : UnixPath → LogFile) (readError : String) (r : GrepLogsRequest) :
    Outcome Status (List GrepMatch) :=
  match grepLogPath logDir r.project r.name with
  | .error e => .error e
  | .ok path =>
    if files path = .absent then
      .error ⟨.notFound,
        "Log file not found for process '" ++ r.name ++ "' in project '" ++ r.project ++ "'"⟩
    else
      (parseTimeFilters dates alphabet clock r.filters).bind
        (searchFile dates compile readNow (files path) readError r)

end

def Handled {A : Type} (o : Outcome Status A) : Prop :=
  (∃ a, o = .ok a) ∨ ∃ message, o = .error ⟨.invalidArgument, message⟩

def Amount (last : String) (secs : Int) : Prop :=
  ∃ numStr unit n u, trim last.toList = numStr ++ unit ∧ parseI64 numStr = some n ∧
    unitSeconds unit = some u ∧ secs = n * u

structure InRange (dates : Dates) (now : dates.DateTime) (secs : Int) : Prop where
  millis : -2 ^ 63 ≤ secs * 1000 ∧ secs * 1000 < 2 ^ 63
  years : dates.firstTimestamp ≤ dates.timestamp now - secs ∧
    dates.timestamp now - secs ≤ dates.lastTimestamp

theorem unitSeconds_letter {unit : List Char} {u : Int} (h : unitSeconds unit = some u) :
    ∃ c, unit = [c] ∧ c.toNat < 0x80 ∧ c.isAlpha = true := by
  unfold unitSeconds at h
  split at h
  · exact ⟨'s', rfl, by decide, by decide⟩
  · exact ⟨'m', rfl, by decide, by decide⟩
  · exact ⟨'h', rfl, by decide, by decide⟩
  · exact ⟨'d', rfl, by decide, by decide⟩
  · cases h

theorem duration_eq_some {secs d : Int} : duration secs = some d ↔
    (-2 ^ 63 ≤ secs * 1000 ∧ secs * 1000 < 2 ^ 63) ∧ d = secs := by
  simp only [duration, i64]
  split
  · next h => exact ⟨fun hd => ⟨h, (Option.some.inj hd).symm⟩, fun hd => by rw [hd.2]; rfl⟩
  · next h => exact ⟨fun hd => (by cases hd), fun hd => absurd hd.1 h⟩

theorem parseDuration_amount (alphabet : Alphabet) {last : String} {secs : Int}
    (h : Amount last secs) :
    parseDuration alphabet last.toList = expect (duration secs) := by
  obtain ⟨numStr, unit, n, u, htrim, hn, hu, rfl⟩ := h
  obtain ⟨c, rfl, hascii, halpha⟩ := unitSeconds_letter hu
  have hletter : alphabet.isAlphabetic c = true := by rw [alphabet.ascii c hascii, halpha]
  simp only [parseDuration, htrim]
  rw [if_neg (List.append_ne_nil_of_right_ne_nil numStr (List.cons_ne_nil c [])),
    ByteIndex.rfind_append_last hletter numStr]
  simp only [ByteIndex.splitAt_byteLength, expect, Outcome.bind, hn, hu]

-- The text is cut at a character, so only an amount out of range can panic.
theorem parseDuration_cases (alphabet : Alphabet) (last : String) :
    (∃ secs, Amount last secs ∧ parseDuration alphabet last.toList = expect (duration secs)) ∨
      ∃ e, parseDuration alphabet last.toList = .error e := by
  simp only [parseDuration]
  split
  · exact Or.inr ⟨_, rfl⟩
  · next hne =>
    cases hpos : ByteIndex.rfind alphabet.isAlphabetic (trim last.toList) with
    | none => exact Or.inr ⟨_, rfl⟩
    | some pos =>
      obtain ⟨a, c, b, htrim, hsplit, -⟩ := ByteIndex.splitAt_rfind hpos
      simp only [hsplit, expect, Outcome.bind]
      cases hn : parseI64 a with
      | none => exact Or.inr ⟨_, rfl⟩
      | some n =>
        cases hu : unitSeconds (c :: b) with
        | none => exact Or.inr ⟨_, rfl⟩
        | some u => exact Or.inl ⟨n * u, ⟨a, c :: b, n, u, htrim, hn, hu, rfl⟩, rfl⟩

theorem handled_ok {A : Type} (a : A) : Handled (.ok a) := Or.inl ⟨a, rfl⟩

theorem not_handled_panicked {A : Type} : ¬ Handled (.panicked : Outcome Status A) := by
  rintro (⟨a, h⟩ | ⟨message, h⟩) <;> cases h

theorem handled_bind {A B : Type} {o : Outcome Status A} {f : A → Outcome Status B}
    (hf : ∀ a, Handled (f a)) : Handled (o.bind f) ↔ Handled o := by
  cases o with
  | ok a => exact ⟨fun _ => handled_ok a, fun _ => hf a⟩
  | error e =>
    constructor
    · rintro (⟨b, h⟩ | ⟨message, h⟩)
      · cases h
      · exact Or.inr ⟨message, by cases h; rfl⟩
    · rintro (⟨a, h⟩ | ⟨message, h⟩)
      · cases h
      · exact Or.inr ⟨message, by cases h; rfl⟩
  | panicked => exact ⟨fun h => (not_handled_panicked h).elim, fun h => (not_handled_panicked h).elim⟩

-- Only the invalid-argument errors and the panic are left to a filter.
def Tame {A : Type} (o : Outcome Status A) : Prop := Handled o ∨ o = .panicked

theorem tame_bind {A B : Type} {o : Outcome Status A} {f : A → Outcome Status B} (ho : Tame o)
    (hf : ∀ a, Tame (f a)) : Tame (o.bind f) := by
  cases o with
  | ok a => exact hf a
  | error e =>
    rcases ho with (⟨a, h⟩ | ⟨message, h⟩) | h
    · cases h
    · exact Or.inl (Or.inr ⟨message, by cases h; rfl⟩)
    · cases h
  | panicked => exact Or.inr rfl

theorem tame_expect {A : Type} (o : Option A) : Tame (expect o) := by
  cases o with
  | none => exact Or.inr rfl
  | some a => exact Or.inl (handled_ok a)

theorem parseDuration_tame (alphabet : Alphabet) (last : String) :
    Tame ((parseDuration alphabet last.toList).mapError (invalid "duration" last)) := by
  rcases parseDuration_cases alphabet last with ⟨secs, -, hparse⟩ | ⟨e, herror⟩
  · rw [hparse]
    cases duration secs with
    | none => exact Or.inr rfl
    | some d => exact Or.inl (handled_ok d)
  · rw [herror]
    exact Or.inl (Or.inr ⟨_, rfl⟩)

section
variable (dates : Dates) (alphabet : Alphabet) (clock : Clock dates)

theorem timeFilter_handled (today : dates.NaiveDate) (what : String) (text : Option String) :
    Handled (timeFilter dates today what text) := by
  cases text with
  | none => exact handled_ok none
  | some text =>
    simp only [timeFilter]
    cases parseTimeString dates today text with
    | ok t => exact handled_ok (some t)
    | error e => exact Or.inr ⟨_, rfl⟩

theorem subtract_handled_iff (secs : Int) :
    Handled (subtract dates clock secs) ↔ (dates.sub clock.now secs).isSome := by
  simp only [subtract]
  cases dates.sub clock.now secs with
  | none => exact ⟨fun h => (not_handled_panicked h).elim, fun h => by cases h⟩
  | some t => exact ⟨fun _ => rfl, fun _ => handled_ok (some t)⟩

theorem amount_handled_iff (last : String) (secs : Int) :
    Handled (((expect (duration secs)).mapError (invalid "duration" last)).bind
      (subtract dates clock)) ↔ InRange dates clock.now secs := by
  cases hd : duration secs with
  | none =>
    refine ⟨fun h => (not_handled_panicked h).elim, fun h => ?_⟩
    rw [duration_eq_some.mpr ⟨h.millis, rfl⟩] at hd
    cases hd
  | some d =>
    obtain ⟨hmillis, rfl⟩ := duration_eq_some.mp hd
    change Handled (subtract dates clock d) ↔ _
    rw [subtract_handled_iff, dates.sub_isSome]
    exact ⟨fun h => ⟨hmillis, h⟩, InRange.years⟩

theorem sinceFilter_handled_iff (f : Filters) :
    Handled (sinceFilter dates alphabet clock f) ↔
      ∀ last secs, f.lastStr = some last → Amount last secs → InRange dates clock.now secs := by
  cases hlast : f.lastStr with
  | none =>
    simp only [sinceFilter, hlast]
    exact ⟨fun _ _ _ h => (by cases h), fun _ => timeFilter_handled dates _ _ _⟩
  | some last =>
    simp only [sinceFilter, hlast]
    constructor
    · intro h l secs hl hamount
      obtain rfl := Option.some.inj hl
      rw [parseDuration_amount alphabet hamount] at h
      exact (amount_handled_iff dates clock last secs).mp h
    · intro h
      rcases parseDuration_cases alphabet last with ⟨secs, hamount, hparse⟩ | ⟨e, herror⟩
      · rw [hparse]
        exact (amount_handled_iff dates clock last secs).mpr (h last secs rfl hamount)
      · rw [herror]
        exact Or.inr ⟨_, rfl⟩

theorem parseTimeFilters_handled_iff (f : Filters) :
    Handled (parseTimeFilters dates alphabet clock f) ↔
      Handled (sinceFilter dates alphabet clock f) :=
  handled_bind fun since => (handled_bind fun upTo => handled_ok (since, upTo)).mpr
    (timeFilter_handled dates clock.untilToday "until time" f.untilStr)

theorem time_filters_handled_iff (f : Filters) :
    Handled (parseTimeFilters dates alphabet clock f) ↔
      ∀ last secs, f.lastStr = some last → Amount last secs → InRange dates clock.now secs := by
  rw [parseTimeFilters_handled_iff, sinceFilter_handled_iff]

theorem parseTimeFilters_tame (f : Filters) : Tame (parseTimeFilters dates alphabet clock f) := by
  refine tame_bind ?_ fun since => tame_bind ?_ fun upTo => Or.inl (handled_ok (since, upTo))
  · simp only [sinceFilter]
    cases f.lastStr with
    | none => exact Or.inl (timeFilter_handled dates _ _ _)
    | some last =>
      refine tame_bind (parseDuration_tame alphabet last) fun secs => ?_
      exact tame_bind (tame_expect _) fun t => Or.inl (handled_ok (some t))
  · exact Or.inl (timeFilter_handled dates _ _ _)

theorem parseTimeFilters_panicked_iff (f : Filters) :
    parseTimeFilters dates alphabet clock f = .panicked ↔
      ∃ last secs, f.lastStr = some last ∧ Amount last secs ∧ ¬ InRange dates clock.now secs := by
  have hhandled : parseTimeFilters dates alphabet clock f = .panicked ↔
      ¬ Handled (parseTimeFilters dates alphabet clock f) :=
    ⟨fun h => h ▸ not_handled_panicked, (parseTimeFilters_tame dates alphabet clock f).resolve_left⟩
  rw [hhandled, parseTimeFilters_handled_iff, sinceFilter_handled_iff]
  push Not
  rfl

theorem bind_panicked_iff {E A B : Type} {o : Outcome E A} {f : A → Outcome E B}
    (hf : ∀ a, f a ≠ .panicked) : o.bind f = .panicked ↔ o = .panicked := by
  cases o with
  | ok a => exact ⟨fun h => absurd h (hf a), fun h => (by cases h)⟩
  | error e => exact ⟨fun h => (by cases h), fun h => (by cases h)⟩
  | panicked => exact ⟨fun _ => rfl, fun _ => rfl⟩

theorem searchFile_ne_panicked (compile : String → Except String (String → Bool))
    (now : dates.DateTime) (file : LogFile) (readError : String) (r : GrepLogsRequest)
    (range : Option dates.DateTime × Option dates.DateTime) :
    searchFile dates compile now file readError r range ≠ .panicked := by
  simp only [searchFile]
  cases compile r.pattern with
  | error e => exact fun h => by cases h
  | ok isMatch => cases file <;> exact fun h => by cases h

theorem grepLogs_panicked_iff (compile : String → Except String (String → Bool))
    (readNow : dates.DateTime) (logDir : UnixPath) (files : UnixPath → LogFile)
    (readError : String) (r : GrepLogsRequest) :
    grepLogs dates alphabet clock compile readNow logDir files readError r = .panicked ↔
      (∃ path, grepLogPath logDir r.project r.name = .ok path ∧ files path ≠ .absent) ∧
        ∃ last secs, r.filters.lastStr = some last ∧ Amount last secs ∧
          ¬ InRange dates clock.now secs := by
  simp only [grepLogs]
  cases hpath : grepLogPath logDir r.project r.name with
  | error e => exact ⟨fun h => (by cases h), fun h => (by obtain ⟨⟨_, h, _⟩, _⟩ := h; cases h)⟩
  | ok path =>
    dsimp only
    by_cases hfile : files path = .absent
    · rw [if_pos hfile]
      refine ⟨fun h => (by cases h), fun h => ?_⟩
      obtain ⟨⟨p, hp, hne⟩, -⟩ := h
      obtain rfl := Except.ok.inj hp
      exact absurd hfile hne
    · rw [if_neg hfile, bind_panicked_iff fun range => searchFile_ne_panicked dates compile readNow
        (files path) readError r range, parseTimeFilters_panicked_iff]
      exact ⟨fun h => ⟨⟨path, rfl, hfile⟩, h⟩, And.right⟩

end

def utcDates : Dates where
  toChrono := Grep.undated
  NaiveDate := Unit
  NaiveTime := Unit
  NaiveDateTime := Unit
  firstTimestamp := -8334601228800
  lastTimestamp := 8210266876799
  sub t secs :=
    if -8334601228800 ≤ t.1 - secs ∧ t.1 - secs ≤ 8210266876799 then some (t.1 - secs, t.2)
    else none
  parseNaiveDateTime _ _ := none
  parseNaiveTime _ _ := none
  andTime _ _ := ()
  fromLocalDateTime _ := none
  sub_isSome t secs := by
    split
    · next h => exact ⟨fun _ => h, fun _ => rfl⟩
    · next h => exact ⟨fun hs => (by cases hs), fun hs => absurd hs h⟩

def asciiAlphabet : Alphabet where
  isAlphabetic := Char.isAlpha
  ascii _ _ := rfl

def newYear : Clock utcDates := ⟨(1767225600, 0), (), ()⟩

theorem last_panics :
    ¬ Handled (parseTimeFilters utcDates asciiAlphabet newYear
        ⟨none, none, some "9223372036854775807d"⟩) ∧
      ¬ Handled (parseTimeFilters utcDates asciiAlphabet newYear
        ⟨none, none, some "9000000000000s"⟩) :=
  ⟨not_handled_panicked, not_handled_panicked⟩

end TimeFilters
