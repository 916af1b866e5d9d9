import Chtho.Logging.LogStream
import Chtho.Time.Timestamp

/-! `Logger::formTimeStr`: the time a log line begins with.

A thread keeps the second it has formatted last and the text, and formats a second only if it is
another one. The text depends on the time zone as well, which can be set in between, and the
second kept at first is 0, with no text. -/
namespace Chtho
open Lib

/-- `struct tm`, as far as it is set or printed here. -/
structure Tm where
  sec : Int
  min : Int
  hour : Int
  mday : Int
  mon : Int
  year : Int
  gmtoff : Int
  zone : Bytes
deriving DecidableEq, Repr

structure TimeZone where
  set_ : Bool
  gmtOff_ : Int
  abbr_ : Bytes
deriving DecidableEq, Repr

namespace TimeZone

/-- `TimeZone()`, with whatever is in the members that are not initialised. -/
def invalid (gmtOff : Int) (abbr : Bytes) : TimeZone := ⟨false, gmtOff, abbr⟩

def create (gmtOff : Int) (name : Bytes) : TimeZone := ⟨true, gmtOff, name⟩

def valid (tz : TimeZone) : Bool := tz.set_

/-- By how much the local time of a line is ahead; a time zone that is not valid is UTC. -/
def ahead (tz : TimeZone) : Int := if tz.valid then tz.gmtOff_ else 0

def toLocal (gmtime_r : Int → Tm) (tz : TimeZone) (secsSinceE : Int) : Tm :=
  let localSecs := secsSinceE + tz.gmtOff_
  {gmtime_r localSecs with gmtoff := tz.gmtOff_, zone := tz.abbr_}

end TimeZone

namespace Logging

/-- `Logger::timeZone` and the variables of the thread, `last_sec` and `time_str`. -/
structure Logger where
  timeZone : TimeZone
  last_sec : Int
  time_str : Bytes
deriving DecidableEq, Repr

namespace Logger

/-- The time zone is Beijing's; a thread's own variables begin as zeros. -/
def create : Logger := ⟨.create (8 * 3600) (ascii "CST"), 0, []⟩

inductive Action where
  | setTimeZone (tz : TimeZone)
  /-- A line is begun at some time, in a stream that memory has been found for. -/
  | event (time : Int) (data : Nat → UInt8)

/-- What a line begins with. -/
inductive Event where
  | formed (time : Int) (text : Bytes)
deriving DecidableEq, Repr

section
variable (gmtime_r : Int → Tm)

/-- `%4d%02d%02d %02d:%02d:%02d` in `time_str`. -/
def format (m : Tm) : Bytes :=
  Lib.snprintf 64 (decimalSpaced 4 (m.year + 1900) ++ decimalPadded 2 (m.mon + 1) ++ decimalPadded 2 m.mday ++ ascii " " ++
    decimalPadded 2 m.hour ++ ascii ":" ++ decimalPadded 2 m.min ++ ascii ":" ++ decimalPadded 2 m.sec)

/-- The text of a second in a time zone. -/
def dateTime (tz : TimeZone) (secs : Int) : Bytes :=
  format (if tz.valid then tz.toLocal gmtime_r secs else gmtime_r secs)

/-- The text of the microseconds. -/
def micros (time : Int) : Bytes := Lib.snprintf 32 (ascii "." ++ decimalPadded 6 (Timestamp.us time) ++ ascii " ")

/-- The line's insertions, and what the thread keeps. -/
def formTimeStr (l : Logger) (time : Int) : Logger × List Insert :=
  let secs := Timestamp.secsSinceE time
  let l := if secs ≠ l.last_sec then {l with last_sec := secs, time_str := dateTime gmtime_r l.timeZone secs} else l
  (l, [.cstr (some l.time_str), .cstr (some (micros time))])

def step (l : Logger) : Action → Logger × List Event
  | .setTimeZone tz => ({l with timeZone := tz}, [])
  | .event time data =>
    let (l, ops) := l.formTimeStr gmtime_r time
    (l, [.formed time ((LogStream.create data).run ops).text])

def run (l : Logger) : List Action → List Event
  | [] => []
  | a :: as => (l.step gmtime_r a).2 ++ run (l.step gmtime_r a).1 as

/-- What the lines should begin with: the second is formatted in the zone set at the moment. -/
def fresh : TimeZone → List Action → List Event
  | _, [] => []
  | _, .setTimeZone tz :: as => fresh tz as
  | tz, .event time _ :: as =>
    .formed time (dateTime gmtime_r tz (Timestamp.secsSinceE time) ++ micros time) :: fresh tz as

/-- What is kept of the event before, its second and its time zone, does for a second in a time zone:
it is another second, or both zones give it the same text. Second 0 is kept before any event. -/
def Reusable (tz : TimeZone) (secs : Int) : Option (Int × TimeZone) → Prop
  | none => secs ≠ 0
  | some (sec, tz') => secs = sec → dateTime gmtime_r tz' secs = dateTime gmtime_r tz secs

/-- What is kept does for every event. -/
def Steady : TimeZone → Option (Int × TimeZone) → List Action → Prop
  | _, _, [] => True
  | _, last, .setTimeZone tz :: as => Steady tz last as
  | tz, last, .event time _ :: as =>
    Reusable gmtime_r tz (Timestamp.secsSinceE time) last ∧ Steady tz (some (Timestamp.secsSinceE time, tz)) as

end

/-! ### The texts -/

variable {gmtime_r : Int → Tm} {l : Logger} {tz : TimeZone} {last : Option (Int × TimeZone)}

theorem zero_notMem_format (m : Tm) : 0 ∉ format m := by
  have hblank : 0 ∉ ascii " " := by decide
  have hcolon : 0 ∉ ascii ":" := by decide
  unfold format
  refine zero_notMem_snprintf ?_
  simp only [List.mem_append, zero_notMem_decimalSpaced, zero_notMem_decimalPadded, hblank, hcolon, or_self,
    not_false_eq_true]

theorem zero_notMem_micros (time : Int) : 0 ∉ micros time := by
  have hdot : 0 ∉ ascii "." := by decide
  have hblank : 0 ∉ ascii " " := by decide
  unfold micros
  refine zero_notMem_snprintf ?_
  simp only [List.mem_append, zero_notMem_decimalPadded, hdot, hblank, or_self, not_false_eq_true]

/-- A date is never written as nothing. -/
theorem format_ne_nil (m : Tm) : format m ≠ [] := by
  unfold format Lib.snprintf
  rw [ne_eq, List.take_eq_nil_iff]
  simp [ascii]

/-- What a stream holds behind the two insertions, whatever memory it was made in. -/
theorem text_run (data : Nat → UInt8) {a b : Bytes} (ha : 0 ∉ a) (hb : 0 ∉ b) (hroom : a.length + b.length < kSmall) :
    ((LogStream.create data).run [.cstr (some a), .cstr (some b)]).text = a ++ b := by
  have hcur : (LogStream.create data).cur = 0 := rfl
  have hfirst : (LogStream.create data).cur + a.length < kSmall := by
    rw [hcur]
    omega
  have hsecond : ((LogStream.create data).append a).cur + b.length < kSmall := by
    rw [LogStream.cur_append hcur a (by omega)]
    omega
  show (FixedBuffer.append (FixedBuffer.append _ (a.takeWhile _)) (b.takeWhile _)).text = a ++ b
  rw [takeWhile_ne_zero ha, takeWhile_ne_zero hb, FixedBuffer.text_append (by decide) hsecond,
    FixedBuffer.text_append (by decide) hfirst]
  rfl

/-- A text that `snprintf` has left in `time_str`. -/
def Stored (text : Bytes) : Prop := text.length < 64 ∧ 0 ∉ text

theorem stored_dateTime (gmtime_r : Int → Tm) (tz : TimeZone) (secs : Int) : Stored (dateTime gmtime_r tz secs) :=
  ⟨length_snprintf_lt (Nat.zero_lt_succ _) _, zero_notMem_format _⟩

theorem text_formed (data : Nat → UInt8) {text : Bytes} (h : Stored text) (time : Int) :
    ((LogStream.create data).run [.cstr (some text), .cstr (some (micros time))]).text = text ++ micros time := by
  have hmicros : (micros time).length < 32 := length_snprintf_lt (Nat.zero_lt_succ _) _
  have htext := h.1
  exact text_run data h.2 (zero_notMem_micros time) (Nat.lt_trans (Nat.add_lt_add htext hmicros) (by decide))

/-! ### The cache -/

/-- What the thread keeps of the event before. -/
def Keeps (gmtime_r : Int → Tm) (l : Logger) : Option (Int × TimeZone) → Prop
  | none => l.last_sec = 0 ∧ l.time_str = []
  | some (sec, tz) => l.last_sec = sec ∧ l.time_str = dateTime gmtime_r tz sec

theorem keeps_create (gmtime_r : Int → Tm) : Keeps gmtime_r create none := ⟨rfl, rfl⟩

theorem keeps_some {sec : Int} {text : Bytes} (h : text = dateTime gmtime_r tz sec) :
    Keeps gmtime_r {l with last_sec := sec, time_str := text} (some (sec, tz)) := ⟨rfl, h⟩

theorem Keeps.stored (h : Keeps gmtime_r l last) : Stored l.time_str := by
  cases last with
  | none =>
    rw [h.2]
    exact ⟨Nat.zero_lt_succ _, List.not_mem_nil⟩
  | some e =>
    rw [h.2]
    exact stored_dateTime ..

/-- Another second is formatted. -/
theorem step_of_ne {time : Int} (h : Timestamp.secsSinceE time ≠ l.last_sec) (data : Nat → UInt8) :
    l.step gmtime_r (.event time data) =
      ({l with
          last_sec := Timestamp.secsSinceE time
          time_str := dateTime gmtime_r l.timeZone (Timestamp.secsSinceE time)},
        [.formed time (dateTime gmtime_r l.timeZone (Timestamp.secsSinceE time) ++ micros time)]) := by
  simp only [step, formTimeStr, if_pos h, text_formed data (stored_dateTime ..)]

/-- Of the same second the text is used again. -/
theorem Keeps.step_of_eq (hkeeps : Keeps gmtime_r l last) {time : Int} (h : Timestamp.secsSinceE time = l.last_sec)
    (data : Nat → UInt8) : l.step gmtime_r (.event time data) = (l, [.formed time (l.time_str ++ micros time)]) := by
  simp only [step, formTimeStr, if_neg (not_not_intro h), text_formed data hkeeps.stored]

/-- **From any state**, the lines begin with fresh texts exactly if the cache is never used for
another text. -/
theorem Keeps.run_iff (h : Keeps gmtime_r l last) (as : List Action) :
    l.run gmtime_r as = fresh gmtime_r l.timeZone as ↔ Steady gmtime_r l.timeZone last as := by
  induction as generalizing l last with
  | nil => exact iff_of_true rfl trivial
  | cons a as ih =>
    cases a with
    | setTimeZone tz =>
      have hset : Keeps gmtime_r {l with timeZone := tz} last := by
        cases last <;> exact h
      exact ih hset
    | event time data =>
      by_cases hsec : Timestamp.secsSinceE time = l.last_sec
      · rw [run, h.step_of_eq hsec, fresh, Steady, List.singleton_append, List.cons.injEq, Event.formed.injEq,
          List.append_cancel_right_eq, eq_self_iff_true, true_and]
        cases last with
        | none =>
          -- nothing has been formatted
          refine iff_of_false (fun heq => ?_) fun hsteady => hsteady.1 (hsec.trans h.1)
          rw [h.2] at heq
          exact format_ne_nil _ heq.1.symm
        | some e =>
          obtain ⟨sec, tz⟩ := e
          obtain ⟨rfl, htext⟩ := h
          have hkept (hsame : dateTime gmtime_r tz l.last_sec = dateTime gmtime_r l.timeZone l.last_sec) :
              Keeps gmtime_r l (some (l.last_sec, l.timeZone)) := ⟨rfl, htext.trans hsame⟩
          rw [htext, hsec]
          constructor
          case mp =>
            intro ⟨hsame, hrest⟩
            exact ⟨fun _ => hsame, (ih (hkept hsame)).mp hrest⟩
          case mpr =>
            intro ⟨hsame, hrest⟩
            exact ⟨hsame rfl, (ih (hkept (hsame rfl))).mpr hrest⟩
      · rw [run, step_of_ne hsec, fresh, Steady, List.singleton_append, List.cons.injEq, eq_self_iff_true, true_and]
        have hnew : Keeps gmtime_r {l with
            last_sec := Timestamp.secsSinceE time
            time_str := dateTime gmtime_r l.timeZone (Timestamp.secsSinceE time)}
          (some (Timestamp.secsSinceE time, l.timeZone)) := keeps_some rfl
        have hother : Reusable gmtime_r l.timeZone (Timestamp.secsSinceE time) last := by
          cases last with
          | none =>
            rw [h.1] at hsec
            exact hsec
          | some e => exact fun heq => absurd (heq.trans h.1.symm) hsec
        exact ⟨fun heq => ⟨hother, (ih hnew).mp heq⟩, fun hsteady => (ih hnew).mpr hsteady.2⟩

/-- **The cached time string.** The lines of a thread begin with fresh texts exactly if its first event
is not in second 0 and no two events in a row are in one second that the time zones set at them
write differently. -/
theorem run_eq_fresh_iff (gmtime_r : Int → Tm) (as : List Action) :
    create.run gmtime_r as = fresh gmtime_r create.timeZone as ↔ Steady gmtime_r create.timeZone none as :=
  (keeps_create gmtime_r).run_iff as

/-- `gmtime_r` of the seconds of January 1, 1970. -/
def firstDay (secs : Int) : Tm := ⟨secs % 60, secs / 60 % 60, secs / 3600 % 24, 1, 0, 70, 0, ascii "GMT"⟩

/-- An event in second 0 finds nothing formatted; and where the time zone is set between two events of
one second, the second of them has the time of the old zone. -/
theorem cached_text_is_stale :
    (create.run firstDay [.event 0 fun _ => 0] = [.formed 0 (ascii ".000000 ")] ∧
      fresh firstDay create.timeZone [.event 0 fun _ => 0] = [.formed 0 (ascii "19700101 08:00:00.000000 ")]) ∧
    create.run firstDay
        [.event 60000000 fun _ => 0, .setTimeZone (.create 0 (ascii "UTC")), .event 60000001 fun _ => 0] =
      [.formed 60000000 (ascii "19700101 08:01:00.000000 "), .formed 60000001 (ascii "19700101 08:01:00.000001 ")] ∧
    fresh firstDay create.timeZone
        [.event 60000000 fun _ => 0, .setTimeZone (.create 0 (ascii "UTC")), .event 60000001 fun _ => 0] =
      [.formed 60000000 (ascii "19700101 08:01:00.000000 "), .formed 60000001 (ascii "19700101 00:01:00.000001 ")] := by
  decide +kernel

/-! ### Time zones with one offset -/

/-- The text of a second is that of the local time. -/
theorem dateTime_eq (gmtime_r : Int → Tm) (tz : TimeZone) (secs : Int) :
    dateTime gmtime_r tz secs = format (gmtime_r (secs + tz.ahead)) := by
  unfold dateTime TimeZone.ahead
  split
  · rfl
  · rw [Int.add_zero]

/-- Zones that are equally far ahead write every second alike. -/
theorem reusable_of_ahead {tz' : TimeZone} (h : tz'.ahead = tz.ahead) (secs sec : Int) :
    Reusable gmtime_r tz secs (some (sec, tz')) := fun _ => by
  rw [dateTime_eq, dateTime_eq, h]

theorem steady_of_ahead {as : List Action} (has : ∀ tz', .setTimeZone tz' ∈ as → tz'.ahead = tz.ahead)
    {tz' : TimeZone} (htz : tz'.ahead = tz.ahead) (sec : Int) : Steady gmtime_r tz (some (sec, tz')) as := by
  induction as generalizing tz tz' sec with
  | nil => trivial
  | cons a as ih =>
    have hrest : ∀ tz', .setTimeZone tz' ∈ as → tz'.ahead = tz.ahead := fun tz' hmem =>
      has tz' (List.mem_cons_of_mem _ hmem)
    cases a with
    | setTimeZone set =>
      have hset := has set List.mem_cons_self
      exact ih (fun tz' hmem => (hrest tz' hmem).trans hset.symm) (htz.trans hset.symm) sec
    | event => exact ⟨reusable_of_ahead htz _ _, ih hrest rfl _⟩

/-- Where every time zone that is set is as far ahead as the first, and the first event is
not in second 0, the events may come in any order. -/
theorem run_of_ahead (gmtime_r : Int → Tm) {time : Int} (htime : Timestamp.secsSinceE time ≠ 0) (data : Nat → UInt8)
    {as : List Action} (has : ∀ tz, .setTimeZone tz ∈ as → tz.ahead = create.timeZone.ahead) :
    create.run gmtime_r (.event time data :: as) = fresh gmtime_r create.timeZone (.event time data :: as) :=
  ((keeps_create gmtime_r).run_iff _).mpr ⟨htime, steady_of_ahead has rfl _⟩

end Logger
end Logging
end Chtho
