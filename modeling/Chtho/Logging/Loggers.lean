import Chtho.Lib.History
import Chtho.Lib.Machine
import Chtho.Logging.Logger
import Mathlib.Data.List.DropRight

/-! `Logger`: the records that any number of threads write.

A statement such as `LOG_INFO << a << b;` makes a `Logger`, which begins its record with the
time, the ids and the level; the insertions follow, each of them whole or not at all; the
destructor adds the file and the line and passes the record on. Whatever is inserted may be
the value of a function that logs, so a thread may be inside several statements at once. -/
namespace Chtho.Logging
open Lib

/-! ### Streams with room -/

/-- The test an insertion makes when `n` bytes are there: a text has to be shorter than what is left,
a float or a pointer needs `kMaxNumSize` bytes, and an integer `sizeof(v)`. -/
def Insert.Passes (n : Nat) : Insert → Prop
  | .integer v => n + v.type.sizeof ≤ kSmall
  | .float _ _ | .pointer _ _ => n + kMaxNumSize ≤ kSmall
  | .bool v => n + (Insert.bool v).text.length < kSmall
  | .char v => n + (Insert.char v).text.length < kSmall
  | .cstr str => n + (Insert.cstr str).text.length < kSmall
  | .string v => n + v.length < kSmall

instance (n : Nat) (op : Insert) : Decidable (op.Passes n) :=
  match op with
  | .integer _ | .float _ _ | .pointer _ _ => inferInstanceAs (Decidable (_ ≤ _))
  | .bool _ | .char _ | .cstr _ | .string _ => inferInstanceAs (Decidable (_ < _))

/-- The texts of those of a sequence of insertions that pass, behind `n` bytes. -/
def keptTexts : Nat → List Insert → List Bytes
  | _, [] => []
  | n, op :: ops =>
    if op.Passes n then op.text :: keptTexts (n + op.text.length) ops else keptTexts n ops

theorem keptTexts_append (n : Nat) (ops ops' : List Insert) :
    keptTexts n (ops ++ ops') = keptTexts n ops ++ keptTexts (n + (keptTexts n ops).flatten.length) ops' := by
  induction ops generalizing n with
  | nil => rfl
  | cons op ops ih =>
    rw [List.cons_append, keptTexts, keptTexts]
    split
    · rw [ih, List.cons_append, List.flatten_cons, List.length_append, Nat.add_assoc]
    · exact ih n

theorem keptTexts_sublist (n : Nat) (ops : List Insert) : (keptTexts n ops).Sublist (ops.map Insert.text) := by
  induction ops generalizing n with
  | nil => exact .refl _
  | cons op ops ih =>
    rw [keptTexts, List.map_cons]
    split
    · exact (ih _).cons_cons _
    · exact (ih _).cons _

namespace LogStream
variable {s : LogStream}

theorem length_text (s : LogStream) : s.text.length = s.cur := Memory.length_load ..

/-- Texts for which there is room are all inserted. -/
theorem run_strings {texts : List Bytes} (hzero : ∀ text ∈ texts, 0 ∉ text)
    (hroom : s.cur + texts.flatten.length < kSmall) :
    (s.run (texts.map fun text => .cstr (some text))).text = s.text ++ texts.flatten ∧
      (s.run (texts.map fun text => .cstr (some text))).cur = s.cur + texts.flatten.length := by
  induction texts generalizing s with
  | nil => exact ⟨(List.append_nil _).symm, rfl⟩
  | cons text texts ih =>
    rw [List.flatten_cons, List.length_append] at hroom
    obtain ⟨htext, hrest⟩ := List.forall_mem_cons.mp hzero
    have hfirst : s.cur + text.length < kSmall := by omega
    have hinsert : s.insert (.cstr (some text)) = s.append text := congrArg s.append (takeWhile_ne_zero htext)
    have hcur := cur_append (s := s) rfl text hfirst
    obtain ⟨ihtext, ihcur⟩ := ih (s := s.append text) hrest (by rw [hcur]; omega)
    rw [List.map_cons, run, List.foldl_cons, hinsert]
    refine ⟨ihtext.trans ?_, ihcur.trans ?_⟩
    · rw [FixedBuffer.text_append (by decide) hfirst, List.flatten_cons, List.append_assoc]
    · rw [hcur, List.flatten_cons, List.length_append, Nat.add_assoc]

/-- A stream that is not full, with nothing written behind it. -/
structure Room (s : LogStream) : Prop where
  bounded : s.Bounded
  short : s.cur < kSmall

theorem room_create (data : Nat → UInt8) : Room (create data) :=
  ⟨bounded_create data, show 0 < kSmall by decide⟩

theorem Room.append (h : Room s) (text : Bytes) :
    Room (s.append text) ∧
      (s.append text).text = if s.text.length + text.length < kSmall then s.text ++ text else s.text := by
  have heq := append_eq h.bounded.length text
  rw [length_text]
  split
  case isTrue hroom =>
    rw [if_pos hroom] at heq
    exact ⟨⟨(append_spec h.bounded text).1, by rw [heq]; exact hroom⟩, FixedBuffer.text_append (by decide) hroom⟩
  case isFalse hroom =>
    rw [if_neg hroom] at heq
    rw [heq]
    exact ⟨h, rfl⟩

/-- Where an insertion leaves `cur_`: it moves on by the text if the test passes. -/
theorem cur_insert (h : s.cur ≤ kSmall) (op : Insert) :
    (s.insert op).cur = if op.Passes s.cur then s.cur + op.text.length else s.cur := by
  have havail := avail_eq h
  have hstring (text : Bytes) :
      (s.append text).cur = if s.cur + text.length < kSmall then s.cur + text.length else s.cur := by
    rw [append_eq h]
    split <;> rfl
  cases op with
  | bool v => exact hstring _
  | char v => exact hstring _
  | string v => exact hstring _
  | cstr str => cases str <;> exact hstring _
  | integer v =>
    obtain ⟨hlen, -⟩ := convert_spec s.mem s.cur v.value
    split
    case isTrue hpasses =>
      have hroom : s.cur + v.type.sizeof ≤ kSmall := hpasses
      rw [insert, insertInteger, if_pos (by omega)]
      exact congrArg (s.cur + ·) hlen
    case isFalse hfails =>
      have hroom : ¬ s.cur + v.type.sizeof ≤ kSmall := hfails
      rw [insert, insertInteger, if_neg (by omega)]
  | float text _ | pointer text _ =>
    split
    case isTrue hpasses =>
      have hroom : s.cur + kMaxNumSize ≤ kSmall := hpasses
      rw [insert, insertFormatted, if_pos (by omega)]
      rfl
    case isFalse hfails =>
      have hroom : ¬ s.cur + kMaxNumSize ≤ kSmall := hfails
      rw [insert, insertFormatted, if_neg (by omega)]

/-- One insertion: its text, if the test passes. -/
theorem Room.insert (h : Room s) {op : Insert} (hfits : ¬ s.Overruns op) :
    Room (s.insert op) ∧
      (s.insert op).text = if op.Passes s.text.length then s.text ++ op.text else s.text := by
  have hsound := (sound_iff h.bounded op).mpr hfits
  have hcur := cur_insert h.bounded.length op
  have havail := avail_eq h.bounded.length
  have hshort := h.short
  rw [length_text]
  refine ⟨⟨hsound.bounded, ?_⟩, ?_⟩
  · rw [hcur]
    split
    case isFalse => exact hshort
    case isTrue hpasses =>
      cases op with
      | bool | char | cstr | string => exact hpasses
      | integer v =>
        have hlong : ¬ (v.type.sizeof ≤ s.avail ∧ s.avail ≤ (decimal v.value).length) := hfits
        have hroom : s.cur + v.type.sizeof ≤ kSmall := hpasses
        show s.cur + (decimal v.value).length < kSmall
        omega
      | float text hlen | pointer text hlen =>
        have hroom : s.cur + kMaxNumSize ≤ kSmall := hpasses
        show s.cur + text.length < kSmall
        omega
  · -- the text is there whole or not at all, and `cur_` tells which
    have hlength := length_text (s.insert op)
    rw [hcur] at hlength
    rcases hsound.whole with hwhole | hsame
    · rw [hwhole, List.length_append, length_text] at hlength
      split at hlength
      case isTrue hpasses => rw [if_pos hpasses, hwhole]
      case isFalse hpasses =>
        have hnil : op.text = [] := List.length_eq_zero_iff.mp (by omega)
        rw [if_neg hpasses, hwhole, hnil, List.append_nil]
    · rw [hsame, length_text] at hlength
      split at hlength
      case isTrue hpasses =>
        have hnil : op.text = [] := List.length_eq_zero_iff.mp (by omega)
        rw [if_pos hpasses, hsame, hnil, List.append_nil]
      case isFalse hpasses => rw [if_neg hpasses, hsame]

theorem run_append (s : LogStream) (ops ops' : List Insert) : s.run (ops ++ ops') = (s.run ops).run ops' :=
  List.foldl_append

instance (s : LogStream) (op : Insert) : Decidable (s.Overruns op) :=
  match op with
  | .integer v => inferInstanceAs (Decidable (v.type.sizeof ≤ s.avail ∧ s.avail ≤ (decimal v.value).length))
  | .bool _ | .char _ | .cstr _ | .string _ | .float _ _ | .pointer _ _ => isFalse id

instance decidableNoneOverruns (s : LogStream) (ops : List Insert) : Decidable (s.NoneOverruns ops) :=
  match ops with
  | [] => isTrue trivial
  | op :: ops => @instDecidableAnd _ _ _ (decidableNoneOverruns (s.insert op) ops)

/-- Only integers can overrun. -/
theorem noneOverruns_of_texts {ops : List Insert} (h : ∀ op ∈ ops, ∀ v, op ≠ .integer v) : s.NoneOverruns ops := by
  induction ops generalizing s with
  | nil => trivial
  | cons op ops ih =>
    obtain ⟨hop, hrest⟩ := List.forall_mem_cons.mp h
    refine ⟨?_, ih hrest⟩
    cases op with
    | integer v => exact absurd rfl (hop v)
    | bool | char | cstr | string | float | pointer => exact id

/-- A sequence of insertions: those whose test passes. -/
theorem Room.run (h : Room s) {ops : List Insert} (hfits : s.NoneOverruns ops) :
    Room (s.run ops) ∧ (s.run ops).text = s.text ++ (keptTexts s.text.length ops).flatten := by
  induction ops generalizing s with
  | nil => exact ⟨h, (List.append_nil _).symm⟩
  | cons op ops ih =>
    obtain ⟨hroom, htext⟩ := h.insert hfits.1
    obtain ⟨hroom', htext'⟩ := ih hroom hfits.2
    refine ⟨hroom', ?_⟩
    rw [LogStream.run, List.foldl_cons]
    refine htext'.trans ?_
    rw [htext, keptTexts]
    split
    · rw [List.length_append, List.flatten_cons, List.append_assoc]
    · rfl

end LogStream

/-! ### Records -/

/-- The ids of a thread, which it asks for once. -/
structure CurrentThread where
  tid_cached : Int
  tid_str : Bytes
  pid_cached : Int
  pid_str : Bytes
deriving DecidableEq, Repr

namespace CurrentThread

def create : CurrentThread := ⟨0, [], 0, []⟩

/-- `"%5d "` in an array of 32 bytes. -/
def idStr (id : Int) : Bytes := Lib.snprintf 32 (decimalSpaced 5 id ++ ascii " ")

def tid (gettid : Int) (c : CurrentThread) : CurrentThread :=
  if c.tid_cached = 0 then {c with tid_cached := gettid, tid_str := idStr gettid} else c

def pid (getpid : Int) (c : CurrentThread) : CurrentThread :=
  if c.pid_cached = 0 then {c with pid_cached := getpid, pid_str := idStr getpid} else c

end CurrentThread

/-- `SourceFile::data_`: the path behind its last slash. -/
def SourceFile.data (file : Bytes) : Bytes := file.rtakeWhile (· ≠ chr '/')

namespace Loggers

inductive Level where
  | TRACE
  | DEBUG
  | INFO
  | WARN
  | ERR
  | FATAL
deriving DecidableEq, Repr

def Level.toNat : Level → Nat
  | TRACE => 0
  | DEBUG => 1
  | INFO => 2
  | WARN => 3
  | ERR => 4
  | FATAL => 5

/-- `getenv` tells what is set. -/
def initLogLevel (getenv : Bytes → Bool) : Level :=
  if getenv (ascii "CHTHO_LOG_TRACE") then .TRACE
  else if getenv (ascii "CHTHO_LOG_DEBUG") then .DEBUG
  else if getenv (ascii "CHTHO_LOG_FATAL") then .FATAL
  else .INFO

def escape (code : String) : Bytes := 27 :: ascii code

/-- With and without `CHTHO_COLORED`. -/
def levelName : Bool → Level → Bytes
  | true, .TRACE => escape "[35m" ++ ascii "TRACE" ++ escape "[0m" ++ ascii " "
  | true, .DEBUG => escape "[36m" ++ ascii "DEBUG" ++ escape "[0m" ++ ascii " "
  | true, .INFO => escape "[97m" ++ ascii "INFO" ++ escape "[0m" ++ ascii "  "
  | true, .WARN => escape "[33m" ++ ascii "WARN" ++ escape "[0m" ++ ascii "  "
  | true, .ERR => escape "[31m" ++ ascii "ERROR" ++ escape "[0m" ++ ascii " "
  | true, .FATAL => escape "[1;31m" ++ ascii "FATAL" ++ escape "[0m" ++ ascii " "
  | false, .TRACE => ascii "TRACE "
  | false, .DEBUG => ascii "DEBUG "
  | false, .INFO => ascii "INFO  "
  | false, .WARN => ascii "WARN  "
  | false, .ERR => ascii "ERROR "
  | false, .FATAL => ascii "FATAL "

/-- The macros, each with its test of the level and its constructor. -/
inductive Macro where
  | LOG_TRACE
  | LOG_DEBUG
  | LOG_INFO
  | LOG_WARN
  | LOG_ERR
  | LOG_FATAL
  | LOG_SYSERR
  | LOG_SYSFATAL
deriving DecidableEq, Repr

def Macro.level : Macro → Level
  | LOG_TRACE => .TRACE
  | LOG_DEBUG => .DEBUG
  | LOG_INFO => .INFO
  | LOG_WARN => .WARN
  | LOG_ERR | LOG_SYSERR => .ERR
  | LOG_FATAL | LOG_SYSFATAL => .FATAL

/-- From `LOG_WARN` on nothing is tested. -/
def Macro.passes (logLevel : Level) : Macro → Bool
  | LOG_TRACE => logLevel.toNat ≤ Level.TRACE.toNat
  | LOG_DEBUG => logLevel.toNat ≤ Level.DEBUG.toNat
  | LOG_INFO => logLevel.toNat ≤ Level.INFO.toNat
  | LOG_WARN | LOG_ERR | LOG_FATAL | LOG_SYSERR | LOG_SYSFATAL => true

/-- What a statement is written with. -/
structure Statement where
  via : Macro
  file : Bytes
  line : Int32
  func : Bytes

/-- What the constructor inserts behind `commonInit`. -/
def Statement.inserts (st : Statement) : List Insert :=
  match st.via with
  | .LOG_TRACE | .LOG_DEBUG => [.cstr (some st.func), .char (chr ' ')]
  | .LOG_INFO | .LOG_WARN | .LOG_ERR | .LOG_FATAL | .LOG_SYSERR | .LOG_SYSFATAL => []

/-- A `Logger` between its constructor and its destructor. -/
structure Object where
  basename_ : Bytes
  line_ : Int32
  level_ : Level
  stream_ : LogStream

/-- What a thread has of its own: the text of the last second, its ids, and the statements it is
in, the innermost first. -/
structure Locals where
  last_sec : Int
  time_str : Bytes
  current : CurrentThread
  loggers : List Object
  /-- In the destructor of a `FATAL`, behind `output`. -/
  aborting : Bool

inductive Event (T : Type) where
  /-- A statement whose level passes, at a time, with the thread's `time_str`. -/
  | begun (t : T) (st : Statement) (time : Int) (date : Bytes)
  | inserted (t : T) (op : Insert)
  | output (t : T) (buf : Bytes)
  | flush (t : T)
  | abort (t : T)

inductive Action (T : Type) where
  | setLogLevel (level : Level)
  | setTimeZone (tz : TimeZone)
  /-- The memory of the new stream may hold anything. -/
  | construct (t : T) (st : Statement) (time : Int) (data : Nat → UInt8)
  | insert (t : T) (op : Insert)
  | destruct (t : T)
  | abort (t : T)

/-- What is outside. -/
structure Env (T : Type) where
  gmtime_r : Int → Tm
  getpid : Int
  gettid : T → Int
  colored : Bool

end Loggers

open Loggers in
structure Loggers (T : Type) where
  g_logLevel : Level
  timeZone : TimeZone
  threads : T → Locals
  aborted : Bool

namespace Loggers
variable {T : Type}

def create (getenv : Bytes → Bool) : Loggers T where
  g_logLevel := initLogLevel getenv
  timeZone := .create (8 * 3600) (ascii "CST")
  threads := fun _ => ⟨0, [], .create, [], false⟩
  aborted := false

section
variable [DecidableEq T] (env : Env T)

def setThread (s : Loggers T) (t : T) (l : Locals) : Loggers T := {s with threads := Function.update s.threads t l}

/-- `Logger::commonInit`: what the thread keeps, and the insertions. -/
def commonInit (s : Loggers T) (t : T) (level : Level) (time : Int) : Locals × List Insert :=
  let l := s.threads t
  let (kept, ops) := Logger.formTimeStr env.gmtime_r ⟨s.timeZone, l.last_sec, l.time_str⟩ time
  let current := (l.current.pid env.getpid).tid (env.gettid t)
  ({l with last_sec := kept.last_sec, time_str := kept.time_str, current := current},
    ops ++ [.cstr (some current.pid_str), .cstr (some current.tid_str), .cstr (some (levelName env.colored level))])

def construct (s : Loggers T) (t : T) (st : Statement) (time : Int) (data : Nat → UInt8) : Loggers T × List (Event T) :=
  if st.via.passes s.g_logLevel then
    let (l, ops) := s.commonInit env t st.via.level time
    let stream := (LogStream.create data).run (ops ++ st.inserts)
    let logger := ⟨SourceFile.data st.file, st.line, st.via.level, stream⟩
    (s.setThread t {l with loggers := logger :: l.loggers}, [.begun t st time l.time_str])
  else (s, [])

/-- `~Logger`, up to where a `FATAL` would flush. -/
def destruct (s : Loggers T) (t : T) (logger : Object) (rest : List Object) : Loggers T × List (Event T) :=
  let stream := logger.stream_.run (Logger.finish logger.basename_ logger.line_)
  (s.setThread t {s.threads t with loggers := rest, aborting := logger.level_ = .FATAL}, [.output t stream.text])

def step (s : Loggers T) : Action T → Option (Loggers T × List (Event T))
  | .setLogLevel level => some ({s with g_logLevel := level}, [])
  | .setTimeZone tz => some ({s with timeZone := tz}, [])
  | .construct t st time data => some (s.construct env t st time data)
  | .insert t op =>
    match (s.threads t).loggers with
    | logger :: rest =>
      some (s.setThread t {s.threads t with loggers := {logger with stream_ := logger.stream_.insert op} :: rest},
        [.inserted t op])
    | [] => none
  | .destruct t =>
    match (s.threads t).loggers with
    | logger :: rest => some (s.destruct t logger rest)
    | [] => none
  | .abort t => some ({s with aborted := true}, [.flush t, .abort t])

def Enabled (s : Loggers T) (a : Action T) : Prop :=
  s.aborted = false ∧
    match a with
    | .setLogLevel _ | .setTimeZone _ => True
    | .construct t _ _ _ => (s.threads t).aborting = false
    | .insert t _ | .destruct t => (s.threads t).aborting = false ∧ (s.threads t).loggers ≠ []
    | .abort t => (s.threads t).aborting = true

def machine : Machine (Loggers T) (Action T) (Event T) := ⟨Enabled, step env⟩

end

/-! ### What a record is -/

/-- A statement that a thread is in, with what has been inserted behind `commonInit`. -/
structure Begun where
  st : Statement
  time : Int
  date : Bytes
  message : List Insert

section
variable [DecidableEq T]

/-- The statements that the thread is in behind an event. -/
def enter (t : T) (inside : List Begun) : Event T → List Begun
  | .begun t' st time date => if t' = t then ⟨st, time, date, st.inserts⟩ :: inside else inside
  | .inserted t' op => if t' = t then inside.modifyHead fun b => {b with message := b.message ++ [op]} else inside
  | .output t' _ => if t' = t then inside.tail else inside
  | .flush _ | .abort _ => inside

/-- The statements that the thread is in, the innermost first. -/
def inside (t : T) (obs : List (Event T)) : List Begun := obs.foldl (enter t) []

theorem inside_snoc (t : T) (obs : List (Event T)) (e : Event T) :
    inside t (obs ++ [e]) = enter t (inside t obs) e := by
  simp [inside]

end

/-- The records that were passed on, with their threads. -/
def outputs (obs : List (Event T)) : List (T × Bytes) := obs.filterMap fun
  | .output t buf => some (t, buf)
  | _ => none

theorem mem_outputs {obs : List (Event T)} {t : T} {buf : Bytes} : (t, buf) ∈ outputs obs ↔ .output t buf ∈ obs := by
  rw [outputs, List.mem_filterMap]
  constructor
  · rintro ⟨e, he, heq⟩
    cases e with
    | output t' buf' =>
      obtain ⟨rfl, rfl⟩ := Prod.mk.inj (Option.some.inj heq)
      exact he
    | begun | inserted | flush | abort => cases heq
  · exact fun he => ⟨_, he, rfl⟩

def newline : UInt8 := chr '\n'

/-- The time, the ids and the level. -/
def head (env : Env T) (t : T) (b : Begun) : List Bytes :=
  [b.date, Logger.micros b.time, CurrentThread.idStr env.getpid, CurrentThread.idStr (env.gettid t),
    levelName env.colored b.st.via.level]

/-- What `finish` inserts before the newline. -/
def Begun.suffix (b : Begun) : List Insert := (Logger.finish (SourceFile.data b.st.file) b.st.line).take 4

/-- The head, and behind it insertions, each whole and in order: those that passed their test. -/
def written (env : Env T) (t : T) (b : Begun) (ops : List Insert) : Bytes :=
  (head env t b).flatten ++ (keptTexts (head env t b).flatten.length ops).flatten

/-- A record begins with all of its head. Then come the insertions for which there was room, and the
newline, unless the text has all the 3999 bytes there are. -/
structure Record (env : Env T) (t : T) (b : Begun) (buf : Bytes) : Prop where
  short : (written env t b (b.message ++ b.suffix)).length < kSmall
  eq : buf = written env t b (b.message ++ b.suffix) ++
    if (written env t b (b.message ++ b.suffix)).length = 3999 then [] else [newline]

theorem written_append (env : Env T) (t : T) (b : Begun) (ops ops' : List Insert) :
    written env t b (ops ++ ops') =
      written env t b ops ++ (keptTexts (written env t b ops).length ops').flatten := by
  simp only [written, keptTexts_append, List.flatten_append, List.append_assoc, List.length_append]

theorem Record.length_lt {env : Env T} {t : T} {b : Begun} {buf : Bytes} (h : Record env t b buf) :
    buf.length < kSmall := by
  obtain ⟨hshort, rfl⟩ := h
  have hmax : kSmall = 4000 := rfl
  rw [List.length_append]
  split
  case isTrue => exact hshort
  case isFalse =>
    rw [List.length_singleton]
    omega

/-- What a thread has of its own is what it should be. -/
structure Known (env : Env T) (t : T) (l : Locals) : Prop where
  date : Logger.Stored l.time_str ∧ newline ∉ l.time_str
  tid : l.current.tid_cached ≠ 0 → l.current.tid_str = CurrentThread.idStr (env.gettid t)
  pid : l.current.pid_cached ≠ 0 → l.current.pid_str = CurrentThread.idStr env.getpid

/-- A `Logger` holds what has been inserted in its statement. -/
structure Holds (env : Env T) (t : T) (b : Begun) (logger : Object) : Prop where
  date : newline ∉ b.date
  basename : logger.basename_ = SourceFile.data b.st.file
  line : logger.line_ = b.st.line
  room : logger.stream_.Room
  text : logger.stream_.text = written env t b b.message

/-- No integer overruns the stream that it is inserted into. -/
def Sane (s : Loggers T) : Action T → Prop
  | .insert t op => ∀ logger ∈ (s.threads t).loggers.head?, ¬ logger.stream_.Overruns op
  | .destruct t => ∀ logger ∈ (s.threads t).loggers.head?,
      logger.stream_.NoneOverruns (Logger.finish logger.basename_ logger.line_)
  | .construct _ _ _ _ | .setLogLevel _ | .setTimeZone _ | .abort _ => True

structure Inv [DecidableEq T] (env : Env T) (obs : List (Event T)) (s : Loggers T) : Prop where
  known : ∀ t, Known env t (s.threads t)
  holds : ∀ t, List.Forall₂ (Holds env t) (inside t obs) (s.threads t).loggers
  /-- Every record was written at the end of the innermost statement. -/
  records : Throughout (fun pre e => ∀ t buf, e = .output t buf →
    ∃ b rest, inside t pre = b :: rest ∧ Record env t b buf) obs

variable {env : Env T} {t : T} {b : Begun} {logger : Object}

/-! ### The head -/

theorem zero_notMem_idStr (id : Int) : 0 ∉ CurrentThread.idStr id := by
  have hblank : 0 ∉ ascii " " := by decide
  refine zero_notMem_snprintf ?_
  simp only [List.mem_append, zero_notMem_decimalSpaced, hblank, or_self, not_false_eq_true]

theorem zero_notMem_levelName (colored : Bool) (level : Level) : 0 ∉ levelName colored level := by
  cases colored <;> cases level <;> decide

theorem length_levelName (colored : Bool) (level : Level) : (levelName colored level).length < 32 := by
  cases colored <;> cases level <;> decide

/-- There is room for every head. -/
theorem head_fits (env : Env T) (t : T) {b : Begun} (hdate : Logger.Stored b.date) :
    (∀ text ∈ head env t b, 0 ∉ text) ∧ (head env t b).flatten.length < 200 := by
  constructor
  · simp only [head, List.forall_mem_cons, List.not_mem_nil, false_imp_iff, implies_true, and_true]
    exact ⟨hdate.2, Logger.zero_notMem_micros _, zero_notMem_idStr _, zero_notMem_idStr _, zero_notMem_levelName _ _⟩
  · have hshort := hdate.1
    have hmicros : (Logger.micros b.time).length < 32 := length_snprintf_lt (by decide) _
    have hpid : (CurrentThread.idStr env.getpid).length < 32 := length_snprintf_lt (by decide) _
    have htid : (CurrentThread.idStr (env.gettid t)).length < 32 := length_snprintf_lt (by decide) _
    have hname := length_levelName env.colored b.st.via.level
    simp only [head, List.length_flatten, List.map_cons, List.map_nil, List.sum_cons, List.sum_nil]
    omega

theorem newline_notMem_dateTime (gmtime_r : Int → Tm) (tz : TimeZone) (secs : Int) :
    newline ∉ Logger.dateTime gmtime_r tz secs := by
  have hpadded (width : Nat) (v : Int) : newline ∉ decimalPadded width v :=
    notMem_decimalPadded (by decide) (by decide) width v
  have hspaced (width : Nat) (v : Int) : newline ∉ decimalSpaced width v :=
    notMem_decimalSpaced (by decide) (by decide) (by decide) width v
  have hblank : newline ∉ ascii " " := by decide
  have hcolon : newline ∉ ascii ":" := by decide
  refine notMem_snprintf ?_
  simp only [List.mem_append, hpadded, hspaced, hblank, hcolon, or_self, not_false_eq_true]

theorem Known.formTimeStr {l : Locals} (h : Known env t l) (tz : TimeZone) (time : Int) :
    let date := (Logger.formTimeStr env.gmtime_r ⟨tz, l.last_sec, l.time_str⟩ time).1.time_str
    Logger.Stored date ∧ newline ∉ date := by
  simp only [Logger.formTimeStr]
  split
  · dsimp only
    exact ⟨Logger.stored_dateTime env.gmtime_r tz (Timestamp.secsSinceE time), newline_notMem_dateTime _ _ _⟩
  · exact h.date

/-- The thread's ids are those it has asked for. -/
theorem Known.ids {l : Locals} (h : Known env t l) :
    let current := (l.current.pid env.getpid).tid (env.gettid t)
    current.pid_str = CurrentThread.idStr env.getpid ∧ current.tid_str = CurrentThread.idStr (env.gettid t) := by
  have htid := h.tid
  have hpid := h.pid
  unfold CurrentThread.tid CurrentThread.pid
  dsimp only
  split <;> split <;> simp_all

variable {s s' : Loggers T} {obs o : List (Event T)}

/-- What `commonInit` inserts is the head, and what it leaves behind is known. -/
theorem commonInit_spec (st : Statement) (time : Int) (message : List Insert) (h : Known env t (s.threads t)) :
    ∃ l, s.commonInit env t st.via.level time =
        (l, (head env t ⟨st, time, l.time_str, message⟩).map fun text => .cstr (some text)) ∧
      Known env t l ∧ l.loggers = (s.threads t).loggers := by
  obtain ⟨hpid, htid⟩ := h.ids
  refine ⟨(s.commonInit env t st.via.level time).1, ?_, ⟨h.formTimeStr _ _, fun _ => htid, fun _ => hpid⟩, rfl⟩
  refine Prod.ext rfl ?_
  simp only [commonInit, hpid, htid, head, List.map_cons, List.map_nil]
  rfl

/-! ### Steps -/

theorem Holds.insert (h : Holds env t b logger) {op : Insert} (hfits : ¬ logger.stream_.Overruns op) :
    Holds env t {b with message := b.message ++ [op]} {logger with stream_ := logger.stream_.insert op} := by
  obtain ⟨hroom, htext⟩ := h.room.insert hfits
  refine ⟨h.date, h.basename, h.line, hroom, htext.trans ?_⟩
  have hhead : written env t {b with message := b.message ++ [op]} (b.message ++ [op]) =
      written env t b (b.message ++ [op]) := rfl
  rw [hhead, written_append, ← h.text, keptTexts]
  split
  · rw [keptTexts, List.flatten_singleton]
  · exact (List.append_nil _).symm

theorem Holds.finish_eq (h : Holds env t b logger) :
    Logger.finish logger.basename_ logger.line_ = b.suffix ++ [.char newline] := by
  rw [h.basename, h.line]
  rfl

/-- The file and the line are inserted if there is room. -/
theorem Holds.suffix (h : Holds env t b logger)
    (hfits : logger.stream_.NoneOverruns (Logger.finish logger.basename_ logger.line_)) :
    (logger.stream_.run b.suffix).Room ∧
      (logger.stream_.run b.suffix).text = written env t b (b.message ++ b.suffix) := by
  rw [h.finish_eq, LogStream.noneOverruns_append] at hfits
  obtain ⟨hroom, htext⟩ := h.room.run hfits.1
  refine ⟨hroom, htext.trans ?_⟩
  rw [h.text, written_append]

/-- What `finish` makes of it is a record. -/
theorem Holds.finish (h : Holds env t b logger)
    (hfits : logger.stream_.NoneOverruns (Logger.finish logger.basename_ logger.line_)) :
    Record env t b (logger.stream_.run (Logger.finish logger.basename_ logger.line_)).text := by
  obtain ⟨hroom, htext⟩ := h.suffix hfits
  have hshort := hroom.short
  rw [← LogStream.length_text] at hshort
  rw [h.finish_eq, LogStream.run_append]
  refine ⟨by rwa [← htext], ?_⟩
  rw [← htext]
  refine (hroom.append [newline]).2.trans ?_
  have hmax : kSmall = 4000 := rfl
  rw [List.length_singleton]
  split
  case isTrue hmore => rw [if_neg (by omega)]
  case isFalse hfull => rw [if_pos (by omega), List.append_nil]

section
variable [DecidableEq T]

theorem enter_of_ne {t' : T} (hne : t' ≠ t) (inside : List Begun) {e : Event T}
    (he : (∃ st time date, e = .begun t' st time date) ∨ (∃ op, e = .inserted t' op) ∨ ∃ buf, e = .output t' buf) :
    enter t inside e = inside := by
  obtain ⟨_, _, _, rfl⟩ | ⟨_, rfl⟩ | ⟨_, rfl⟩ := he
  all_goals exact if_neg hne

theorem threads_setThread (s : Loggers T) (t t' : T) (l : Locals) :
    (s.setThread t l).threads t' = if t' = t then l else s.threads t' := Function.update_apply ..

/-- One thread moves, with one event. -/
theorem Inv.moved (h : Inv env obs s) {l : Locals} {e : Event T}
    (he : (∃ st time date, e = .begun t st time date) ∨ (∃ op, e = .inserted t op) ∨ ∃ buf, e = .output t buf)
    (hknown : Known env t l) (hholds : List.Forall₂ (Holds env t) (enter t (inside t obs) e) l.loggers)
    (hrecord : ∀ buf, e = .output t buf → ∃ b rest, inside t obs = b :: rest ∧ Record env t b buf) :
    Inv env (obs ++ [e]) (s.setThread t l) where
  known := fun t' => by
    rw [threads_setThread]
    split
    case isTrue heq => exact heq ▸ hknown
    case isFalse => exact h.known t'
  holds := fun t' => by
    rw [threads_setThread, inside_snoc]
    split
    case isTrue heq => exact heq ▸ hholds
    case isFalse hne =>
      rw [enter_of_ne (Ne.symm hne) _ he]
      exact h.holds t'
  records := throughout_snoc.mpr ⟨h.records, fun t' buf heq => by
    obtain rfl : t' = t := by
      rw [heq] at he
      simpa using he
    exact hrecord buf heq⟩

/-- A statement is begun: its head goes in, and its first insertions. -/
theorem Inv.construct (h : Inv env obs s) {st : Statement} {time : Int} {data : Nat → UInt8} :
    Inv env (obs ++ (s.construct env t st time data).2) (s.construct env t st time data).1 := by
  unfold Loggers.construct
  split
  case isFalse => simpa using h
  case isTrue hpasses =>
    obtain ⟨l, hinit, hknown, hloggers⟩ := commonInit_spec st time st.inserts (h.known t)
    simp only [hinit]
    set b : Begun := ⟨st, time, l.time_str, st.inserts⟩ with hb
    obtain ⟨hzero, hshort⟩ := head_fits env t (b := b) hknown.date.1
    have hroom₀ {n : Nat} (hn : n < 200) : (LogStream.create data).cur + n < kSmall := by
      rw [show (LogStream.create data).cur + n = n from Nat.zero_add n]
      exact Nat.lt_trans hn (by decide)
    obtain ⟨htext, -⟩ := (LogStream.create data).run_strings hzero (hroom₀ hshort)
    have hstrings : ∀ op ∈ (head env t b).map fun text => Insert.cstr (some text), ∀ v, op ≠ .integer v := by simp
    obtain ⟨hroom, -⟩ := (LogStream.room_create data).run (LogStream.noneOverruns_of_texts hstrings)
    have hinserts : ∀ op ∈ st.inserts, ∀ v, op ≠ .integer v := by
      unfold Statement.inserts
      split <;> simp
    obtain ⟨hroom', htext'⟩ := hroom.run (LogStream.noneOverruns_of_texts hinserts)
    refine h.moved (.inl ⟨_, _, _, rfl⟩) ⟨hknown.date, hknown.tid, hknown.pid⟩ ?_ (by simp)
    rw [enter, if_pos rfl, hloggers]
    refine .cons ⟨hknown.date.2, rfl, rfl, ?_, ?_⟩ (h.holds t)
    · rw [LogStream.run_append]
      exact hroom'
    · rw [LogStream.run_append]
      rw [htext] at htext'
      exact htext'

theorem Inv.insert (h : Inv env obs s) {op : Insert} (hsane : Sane s (.insert t op))
    (hs : s.step env (.insert t op) = some (s', o)) : Inv env (obs ++ o) s' := by
  have hholds := h.holds t
  simp only [step] at hs
  split at hs
  case h_2 => cases hs
  case h_1 logger rest hloggers =>
    obtain ⟨rfl, rfl⟩ := Prod.mk.inj (Option.some.inj hs)
    have hfits := hsane logger (by rw [hloggers]; rfl)
    have hknown := h.known t
    rw [hloggers] at hholds
    generalize hin : inside t obs = bs at hholds
    cases hholds with
    | cons hb hrest =>
      refine h.moved (.inr (.inl ⟨_, rfl⟩)) ⟨hknown.date, hknown.tid, hknown.pid⟩ ?_ (by simp)
      rw [enter, if_pos rfl, hin]
      exact .cons (hb.insert hfits) hrest

theorem Inv.destruct (h : Inv env obs s) (hsane : Sane s (.destruct t))
    (hs : s.step env (.destruct t) = some (s', o)) : Inv env (obs ++ o) s' := by
  have hholds := h.holds t
  simp only [step] at hs
  split at hs
  case h_2 => cases hs
  case h_1 logger rest hloggers =>
    obtain ⟨rfl, rfl⟩ := Prod.mk.inj (Option.some.inj hs)
    have hfits := hsane logger (by rw [hloggers]; rfl)
    have hknown := h.known t
    rw [hloggers] at hholds
    generalize hin : inside t obs = bs at hholds
    cases hholds with
    | cons hb hrest =>
      refine h.moved (.inr (.inr ⟨_, rfl⟩)) ⟨hknown.date, hknown.tid, hknown.pid⟩ ?_ fun buf heq => ?_
      · rw [enter, if_pos rfl, hin]
        exact hrest
      · obtain ⟨-, rfl⟩ := Event.output.inj heq
        exact ⟨_, _, hin, hb.finish hfits⟩

theorem Inv.step (h : Inv env obs s) {a : Action T} (hsane : Sane s a) (hs : s.step env a = some (s', o)) :
    Inv env (obs ++ o) s' := by
  cases a with
  | setLogLevel level =>
    obtain ⟨rfl, rfl⟩ := Prod.mk.inj (Option.some.inj hs)
    rw [List.append_nil]
    exact ⟨h.known, h.holds, h.records⟩
  | setTimeZone tz =>
    obtain ⟨rfl, rfl⟩ := Prod.mk.inj (Option.some.inj hs)
    rw [List.append_nil]
    exact ⟨h.known, h.holds, h.records⟩
  | construct t st time data =>
    obtain ⟨rfl, rfl⟩ := Prod.mk.inj (Option.some.inj hs)
    exact h.construct
  | insert t op => exact h.insert hsane hs
  | destruct t => exact h.destruct hsane hs
  | abort t =>
    obtain ⟨rfl, rfl⟩ := Prod.mk.inj (Option.some.inj hs)
    refine ⟨h.known, fun t' => ?_, ?_⟩
    · rw [List.append_cons, inside_snoc, inside_snoc]
      exact h.holds t'
    · rw [List.append_cons]
      refine throughout_snoc.mpr ⟨throughout_snoc.mpr ⟨h.records, ?_⟩, ?_⟩
      all_goals
        intro t' buf heq
        cases heq

/-! ### Every run -/

variable {getenv : Bytes → Bool} {as : List (Action T)}

theorem inv_create (env : Env T) (getenv : Bytes → Bool) : Inv env [] (create getenv) where
  known := fun _ =>
    ⟨⟨⟨Nat.zero_lt_succ _, List.not_mem_nil⟩, List.not_mem_nil⟩, fun hne => absurd rfl hne, fun hne => absurd rfl hne⟩
  holds := fun _ => .nil
  records := throughout_nil

theorem inv_run (h : ((machine env).restrict Sane).Run (create getenv) as obs s) : Inv env obs s := by
  refine h.invariant (Inv env) (inv_create env getenv) ?_
  intro obs s a s' o hinv he hs
  exact hinv.step he.2 hs

instance (s : Loggers T) (a : Action T) : Decidable (Enabled s a) :=
  match a with
  | .setLogLevel _ | .setTimeZone _ => inferInstanceAs (Decidable (s.aborted = false ∧ True))
  | .construct t _ _ _ => inferInstanceAs (Decidable (s.aborted = false ∧ (s.threads t).aborting = false))
  | .insert t _ | .destruct t =>
    inferInstanceAs (Decidable (s.aborted = false ∧ (s.threads t).aborting = false ∧ ¬ (s.threads t).loggers = []))
  | .abort t => inferInstanceAs (Decidable (s.aborted = false ∧ (s.threads t).aborting = true))

instance (s : Loggers T) (a : Action T) : Decidable ((machine env).enabled s a) :=
  inferInstanceAs (Decidable (Enabled s a))

instance (s : Loggers T) (a : Action T) : Decidable (Sane s a) :=
  match a with
  | .insert t op => inferInstanceAs (Decidable (∀ logger ∈ (s.threads t).loggers.head?, ¬ logger.stream_.Overruns op))
  | .destruct t => inferInstanceAs (Decidable (∀ logger ∈ (s.threads t).loggers.head?,
      logger.stream_.NoneOverruns (Logger.finish logger.basename_ logger.line_)))
  | .construct _ _ _ _ | .setLogLevel _ | .setTimeZone _ | .abort _ => isTrue trivial

/-- Two threads of process 7 in January 1970. -/
def firstDay : Env Bool := ⟨Logger.firstDay, 7, fun t => if t then 8 else 9, false⟩

end

end Loggers
end Chtho.Logging
