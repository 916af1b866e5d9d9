import Chtho.Lib.Lines
import Chtho.Logging.AsyncLogging.Output
import Chtho.Logging.Loggers

/-! From the statements to the lines of the files.

Here `Logger::output` is `AsyncLogging::append`: what the statements of the threads pass on goes
to the buffers, and what the back end takes from these to the files. Nothing but newlines
separates the records there. If no text that is inserted has one, every record is a line, and as
the buffers and the files hold records whole, each line of a file is a record, or a notice that
some were dropped; where nothing is dropped, the lines of the files and then those still in
memory are the records, in the order in which they were passed on. -/
namespace Chtho.Logging.Loggers
open Lib
open AsyncLogging.Output (Outside Seen logged files)

/-! ### Records of one line -/

section
variable {T : Type} {env : Env T} {t : T} {b : Begun} {logger : Object}

/-- What is inserted in the statement has no newline. -/
structure Begun.Clean (b : Begun) : Prop where
  file : newline ∉ b.st.file
  message : ∀ op ∈ b.message, newline ∉ op.text

theorem newline_notMem_micros (time : Int) : newline ∉ Logger.micros time := by
  have hpadded := notMem_decimalPadded (c := newline) (by decide) (by decide) 6 (Timestamp.us time)
  have hdot : newline ∉ ascii "." := by decide
  have hblank : newline ∉ ascii " " := by decide
  refine notMem_snprintf ?_
  simp only [List.mem_append, hpadded, hdot, hblank, or_self, not_false_eq_true]

theorem newline_notMem_idStr (id : Int) : newline ∉ CurrentThread.idStr id := by
  have hspaced := notMem_decimalSpaced (c := newline) (by decide) (by decide) (by decide) 5 id
  have hblank : newline ∉ ascii " " := by decide
  refine notMem_snprintf ?_
  simp only [List.mem_append, hspaced, hblank, or_self, not_false_eq_true]

theorem newline_notMem_levelName (colored : Bool) (level : Level) : newline ∉ levelName colored level := by
  cases colored <;> cases level <;> decide

theorem newline_notMem_head (env : Env T) (t : T) (hdate : newline ∉ b.date) : newline ∉ (head env t b).flatten := by
  simp only [head, List.flatten_cons, List.flatten_nil, List.mem_append, List.not_mem_nil, hdate, newline_notMem_micros,
    newline_notMem_idStr, newline_notMem_levelName, or_self, not_false_eq_true]

/-- Nor has the file or the line. -/
theorem Begun.Clean.suffix (h : b.Clean) : ∀ op ∈ b.suffix, newline ∉ op.text := by
  have hdata : newline ∉ SourceFile.data b.st.file := fun hmem => h.file (List.rtakeWhile_suffix _ _ |>.subset hmem)
  have hline : newline ∉ decimal (Integer.ofInt32 b.st.line).value := notMem_decimal (by decide) (by decide) _
  intro op hop
  have hcases : op = .cstr (some (ascii " ")) ∨ op = .cstr (some (SourceFile.data b.st.file)) ∨ op = .char (chr ':') ∨
      op = .integer (.ofInt32 b.st.line) := by simpa [Begun.suffix, Logger.finish] using hop
  rcases hcases with rfl | rfl | rfl | rfl
  · decide
  · exact fun hmem => hdata (List.takeWhile_subset _ hmem)
  · decide
  · exact hline

/-- A record of clean insertions that the newline has found room in. -/
theorem Holds.isLine (h : Holds env t b logger) (hclean : b.Clean)
    (hfits : logger.stream_.NoneOverruns (Logger.finish logger.basename_ logger.line_))
    (hmore : (logger.stream_.run ((Logger.finish logger.basename_ logger.line_).take 4)).cur + 1 < kSmall) :
    IsLine newline (logger.stream_.run (Logger.finish logger.basename_ logger.line_)).text := by
  obtain ⟨hroom, htext⟩ := h.suffix hfits
  have htake : (Logger.finish logger.basename_ logger.line_).take 4 = b.suffix := by
    rw [h.finish_eq]
    rfl
  rw [htake, ← LogStream.length_text] at hmore
  have hend : (logger.stream_.run (Logger.finish logger.basename_ logger.line_)).text =
      written env t b (b.message ++ b.suffix) ++ [newline] := by
    rw [h.finish_eq, LogStream.run_append, ← htext]
    exact (hroom.append [newline]).2.trans (if_pos hmore)
  rw [hend]
  refine isLine_append ?_
  rw [written, List.mem_append, not_or]
  refine ⟨newline_notMem_head env t h.date, fun hmem => ?_⟩
  obtain ⟨text, htext, hmem⟩ := List.mem_flatten.mp hmem
  obtain ⟨op, hop, rfl⟩ := List.mem_map.mp ((keptTexts_sublist _ _).subset htext)
  rcases List.mem_append.mp hop with hop | hop
  · exact hclean.message op hop hmem
  · exact hclean.suffix op hop hmem

/-! ### Clean statements -/

/-- What a thread inserts has no newline, and there is room for that at the end of a record. -/
def OneLine (s : Loggers T) : Action T → Prop
  | .construct _ st _ _ => newline ∉ st.file ∧ newline ∉ st.func
  | .insert _ op => newline ∉ op.text
  | .destruct t => ∀ logger ∈ (s.threads t).loggers.head?,
      (logger.stream_.run ((Logger.finish logger.basename_ logger.line_).take 4)).cur + 1 < kSmall
  | .setLogLevel _ | .setTimeZone _ | .abort _ => True

/-- An event that keeps statements clean. -/
def Event.Clean : Event T → Prop
  | .begun _ st _ _ => newline ∉ st.file ∧ newline ∉ st.func
  | .inserted _ op => newline ∉ op.text
  | .output _ buf => IsLine newline buf ∧ buf.length < kSmall
  | .flush _ | .abort _ => True

theorem clean_inserts {st : Statement} (h : newline ∉ st.func) : ∀ op ∈ st.inserts, newline ∉ op.text := by
  unfold Statement.inserts
  split
  case h_1 | h_2 =>
    simp only [List.forall_mem_cons, List.not_mem_nil, false_imp_iff, implies_true, and_true]
    exact ⟨fun hmem => h (List.takeWhile_subset _ hmem), by decide⟩
  all_goals simp

variable [DecidableEq T] {obs o : List (Event T)} {s s' : Loggers T}

theorem clean_enter {e : Event T} (he : e.Clean) {bs : List Begun} (h : ∀ b ∈ bs, b.Clean) :
    ∀ b ∈ enter t bs e, b.Clean := by
  cases e with
  | begun t' st time date =>
    simp only [enter]
    split
    case isTrue => exact List.forall_mem_cons.mpr ⟨⟨he.1, clean_inserts he.2⟩, h⟩
    case isFalse => exact h
  | inserted t' op =>
    simp only [enter]
    split
    case isFalse => exact h
    case isTrue =>
      cases bs with
      | nil => exact h
      | cons b bs =>
        obtain ⟨hb, hrest⟩ := List.forall_mem_cons.mp h
        refine List.forall_mem_cons.mpr ⟨⟨hb.file, ?_⟩, hrest⟩
        exact List.forall_mem_append.mpr ⟨hb.message, List.forall_mem_singleton.mpr he⟩
  | output t' buf =>
    simp only [enter]
    split
    case isTrue => exact fun b hb => h b (List.mem_of_mem_tail hb)
    case isFalse => exact h
  | flush | abort => exact h

/-- Where all events are clean, the statements are. -/
theorem clean_inside (h : ∀ e ∈ obs, e.Clean) : ∀ b ∈ inside t obs, b.Clean := by
  induction obs using List.reverseRecOn with
  | nil => simp [inside]
  | append_singleton obs e ih =>
    obtain ⟨hobs, he⟩ := List.forall_mem_append.mp h
    rw [inside_snoc]
    exact clean_enter (he e (List.mem_singleton_self e)) (ih hobs)

/-- A step of clean insertions has clean events. -/
theorem clean_step (hinv : Inv env obs s) (hclean : ∀ e ∈ obs, e.Clean) {a : Action T} (hsane : Sane s a)
    (hone : OneLine s a) (hs : s.step env a = some (s', o)) : ∀ e ∈ o, e.Clean := by
  cases a with
  | setLogLevel | setTimeZone =>
    obtain ⟨rfl, rfl⟩ := Prod.mk.inj (Option.some.inj hs)
    simp
  | abort =>
    obtain ⟨rfl, rfl⟩ := Prod.mk.inj (Option.some.inj hs)
    simp [Event.Clean]
  | construct t st time data =>
    obtain ⟨rfl, rfl⟩ := Prod.mk.inj (Option.some.inj hs)
    show ∀ e ∈ (s.construct env t st time data).2, e.Clean
    unfold Loggers.construct
    split
    case isTrue => exact List.forall_mem_singleton.mpr hone
    case isFalse => simp
  | insert t op =>
    simp only [step] at hs
    split at hs
    case h_2 => cases hs
    case h_1 =>
      obtain ⟨rfl, rfl⟩ := Prod.mk.inj (Option.some.inj hs)
      exact List.forall_mem_singleton.mpr hone
  | destruct t =>
    have hholds := hinv.holds t
    simp only [step] at hs
    split at hs
    case h_2 => cases hs
    case h_1 logger rest hloggers =>
      obtain ⟨rfl, rfl⟩ := Prod.mk.inj (Option.some.inj hs)
      have hfits := hsane logger (by rw [hloggers]; rfl)
      have hmore := hone logger (by rw [hloggers]; rfl)
      rw [hloggers] at hholds
      have hbs := clean_inside (t := t) hclean
      generalize inside t obs = bs at hholds hbs
      cases hholds with
      | cons hb hrest =>
        refine List.forall_mem_singleton.mpr ⟨hb.isLine (hbs _ List.mem_cons_self) hfits hmore, ?_⟩
        exact (hb.finish hfits).length_lt

end

/-! ### The process -/

/-- The statements of all threads, and the logging that `Logger::output` appends to. -/
structure Process (T : Type) where
  loggers : Loggers T
  output : AsyncLogging.Output

namespace Process

inductive Action (T : Type) where
  /-- A step of a thread. The memory of a new buffer may hold anything. -/
  | thread (a : Loggers.Action T) (data : Nat → UInt8)
  /-- A step of the back end, `start` or `stop`. -/
  | back (a : AsyncLogging.Action) (x : Outside)

inductive Event (T : Type) where
  | logger (e : Loggers.Event T)
  | output (e : Seen)

/-- What an append finds outside: it does not look. -/
def nothing : Outside := ⟨0, [], 0, 1, none⟩

def isAppend : AsyncLogging.Action → Bool
  | .append .. => true
  | _ => false

section
variable {T : Type} [DecidableEq T] (env : Env T) (strftime : Int → Bytes) (name : Bytes) (rollsz : Int)

def create (getenv : Bytes → Bool) (data1 data2 : Nat → UInt8) : Process T :=
  ⟨.create getenv, .create data1 data2⟩

/-- `Logger::output` of each of these. -/
def append (data : Nat → UInt8) (output : AsyncLogging.Output) : List Bytes → Option (AsyncLogging.Output × List Seen)
  | [] => some (output, [])
  | buf :: bufs => do
    let (output, o) ← output.step strftime env.getpid name rollsz (.append buf data, nothing)
    let (output, o') ← append data output bufs
    some (output, o ++ o')

def step (p : Process T) : Action T → Option (Process T × List (Event T))
  | .thread a data => do
    let (loggers, o) ← p.loggers.step env a
    let (output, o') ← append env strftime name rollsz data p.output ((outputs o).map Prod.snd)
    some (⟨loggers, output⟩, o.map .logger ++ o'.map .output)
  | .back a x => do
    let (output, o) ← p.output.step strftime env.getpid name rollsz (a, x)
    some (⟨p.loggers, output⟩, o.map .output)

def Enabled (p : Process T) : Action T → Prop
  | .thread a _ => p.loggers.Enabled a
  | .back a _ => p.loggers.aborted = false ∧ isAppend a = false ∧ p.output.logging.Enabled a

def machine : Machine (Process T) (Action T) (Event T) := ⟨Enabled, step env strftime name rollsz⟩

end

/-- The time is an `int64_t`, and the number of buffers a `size_t`. -/
def Counted (s : AsyncLogging) : AsyncLogging.Action → Prop
  | .drop now => now.natAbs < 2 ^ 63 ∧ s.bufs.length < 2 ^ 64
  | .append .. | .start | .threadFunc .. | .test | .enter | .wake | .write | .refill | .stop => True

/-- No integer overruns its stream, no text has a newline, the clock is set and the disk takes what it is given. -/
def Sound {T : Type} (p : Process T) : Action T → Prop
  | .thread a _ => Sane p.loggers a ∧ OneLine p.loggers a
  | .back a x => AsyncLogging.Output.Sound p.output (a, x) ∧ Counted p.output.logging a

/-! ### What is seen -/

section
variable {T : Type}

def ofLoggers (obs : List (Event T)) : List (Loggers.Event T) := obs.filterMap fun
  | .logger e => some e
  | .output _ => none

def ofOutput (obs : List (Event T)) : List Seen := obs.filterMap fun
  | .logger _ => none
  | .output e => some e

theorem ofLoggers_step (obs : List (Event T)) (o : List (Loggers.Event T)) (o' : List Seen) :
    ofLoggers (obs ++ (o.map .logger ++ o'.map .output)) = ofLoggers obs ++ o := by
  simp [ofLoggers, List.filterMap_map]

theorem ofOutput_step (obs : List (Event T)) (o : List (Loggers.Event T)) (o' : List Seen) :
    ofOutput (obs ++ (o.map .logger ++ o'.map .output)) = ofOutput obs ++ o' := by
  simp [ofOutput, List.filterMap_map]

end

theorem logged_append (obs o : List Seen) : logged (obs ++ o) = logged obs ++ logged o := List.filterMap_append

theorem outputs_append {T : Type} (obs o : List (Loggers.Event T)) : outputs (obs ++ o) = outputs obs ++ outputs o :=
  List.filterMap_append

/-- Records of clean events are lines, and short. -/
theorem clean_outputs {T : Type} {obs : List (Loggers.Event T)} (h : ∀ e ∈ obs, e.Clean) :
    ∀ buf ∈ (outputs obs).map Prod.snd, IsLine newline buf ∧ buf.length < kSmall := by
  intro buf hbuf
  obtain ⟨⟨t, buf⟩, hmem, rfl⟩ := List.mem_map.mp hbuf
  exact h _ (mem_outputs.mp hmem)

/-! ### What the logging is called for -/

variable {s s' : AsyncLogging} {a : AsyncLogging.Action} {o : List AsyncLogging.Event}

theorem step_append {line : Bytes} {data : Nat → UInt8} (hs : s.step (.append line data) = some (s', o)) :
    o = [.appended line] := by
  simp only [AsyncLogging.step, Option.map_eq_some_iff, Prod.mk.injEq] at hs
  obtain ⟨_, -, -, rfl⟩ := hs
  rfl

/-- The other steps append nothing, and a notice is given where buffers are dropped. -/
theorem step_others (ha : isAppend a = false) (hs : s.step a = some (s', o)) :
    AsyncLogging.appended o = [] ∧
      ∀ text ∈ AsyncLogging.notices o, ∃ now, a = .drop now ∧ text = AsyncLogging.dropMessage now s.bufs.length := by
  cases a with
  | append line data => cases ha
  | start | stop | wake =>
    obtain ⟨-, rfl⟩ := Prod.mk.inj (Option.some.inj hs)
    exact ⟨rfl, by simp [AsyncLogging.notices]⟩
  | threadFunc data1 data2 =>
    obtain ⟨-, rfl⟩ := AsyncLogging.threadFunc_cases hs
    exact ⟨rfl, by simp [AsyncLogging.notices]⟩
  | test =>
    rcases AsyncLogging.test_cases (Option.some.inj hs) with ⟨-, -, rfl⟩ | ⟨-, -, rfl⟩
    all_goals exact ⟨rfl, by simp [AsyncLogging.notices]⟩
  | enter =>
    simp only [AsyncLogging.step, Option.map_eq_some_iff, Prod.mk.injEq] at hs
    obtain ⟨_, -, -, rfl⟩ := hs
    exact ⟨rfl, by simp [AsyncLogging.notices]⟩
  | drop now =>
    obtain ⟨-, hs⟩ := assert_bind_eq_some_iff.mp hs
    dsimp only at hs
    split at hs
    case isTrue =>
      obtain ⟨-, rfl⟩ := Prod.mk.inj (Option.some.inj hs)
      refine ⟨rfl, fun text htext => ⟨now, rfl, ?_⟩⟩
      simpa [AsyncLogging.notices] using htext
    case isFalse =>
      obtain ⟨-, rfl⟩ := Prod.mk.inj (Option.some.inj hs)
      exact ⟨rfl, by simp [AsyncLogging.notices]⟩
  | write =>
    simp only [AsyncLogging.step] at hs
    split at hs
    case h_2 => cases hs
    case h_1 =>
      obtain ⟨_, -, -, rfl⟩ := AsyncLogging.write_cases hs
      exact ⟨rfl, by simp [AsyncLogging.notices]⟩
  | refill =>
    obtain ⟨_, _, _, _, _, _, _, -, rfl⟩ := AsyncLogging.refill_cases hs
    exact ⟨rfl, by simp [AsyncLogging.notices]⟩

theorem length_decimal_le {v : Int} (h : v.natAbs < 10 ^ 20) : (decimal v).length ≤ 21 := by
  have hdigits := (length_decimalDigits_le (n := v.natAbs) (k := 20) (by decide)).mpr h
  rw [decimal, List.length_append]
  split <;> simp <;> omega

theorem length_decimalPadded_le {v : Int} (h : v.natAbs < 10 ^ 20) : (decimalPadded 6 v).length ≤ 27 := by
  have hdigits := (length_decimalDigits_le (n := v.natAbs) (k := 20) (by decide)).mpr h
  simp only [decimalPadded, List.length_append, List.length_replicate]
  split <;> simp <;> omega

/-- A notice is a line. -/
theorem isLine_dropMessage {now : Int} {size : Nat} (hnow : now.natAbs < 2 ^ 63) (hsize : size < 2 ^ 64) :
    IsLine newline (AsyncLogging.dropMessage now size) := by
  have hsecs : (now.tdiv usPerSec).natAbs < 10 ^ 20 := by
    rw [Int.natAbs_tdiv]
    exact Nat.lt_of_le_of_lt (Nat.div_le_self ..) (Nat.lt_trans hnow (by decide))
  have hmicros : (now.tmod usPerSec).natAbs < 10 ^ 20 := by
    rw [Int.natAbs_tmod]
    exact Nat.lt_of_le_of_lt (Nat.mod_le ..) (Nat.lt_trans hnow (by decide))
  have hcount : ((size - 2 : Nat) : Int).natAbs < 10 ^ 20 := by omega
  have hlast : ascii " larger bufs\n" = ascii " larger bufs" ++ [newline] := by decide
  have hshort := length_decimal_le hsecs
  have hshort' := length_decimalPadded_le hmicros
  have hshort'' := length_decimal_le hcount
  have hfit : (ascii "drop log at " ++ Timestamp.toString now ++ ascii ", " ++ decimal (size - 2 : Nat) ++
      ascii " larger bufs\n").length ≤ 255 := by
    have hfirst : (ascii "drop log at ").length = 12 := by decide
    have hcomma : (ascii ", ").length = 2 := by decide
    have hbufs : (ascii " larger bufs\n").length = 13 := by decide
    simp only [Timestamp.toString, List.length_append, List.length_singleton, hfirst, hcomma, hbufs]
    omega
  rw [AsyncLogging.dropMessage, List.take_of_length_le hfit, hlast, ← List.append_assoc]
  refine isLine_append ?_
  have hdecimal (v : Int) : newline ∉ decimal v := notMem_decimal (by decide) (by decide) v
  have hpadded (v : Int) : newline ∉ decimalPadded 6 v := notMem_decimalPadded (by decide) (by decide) 6 v
  have hfirst : newline ∉ ascii "drop log at " := by decide
  have hdot : newline ∉ [chr '.'] := by decide
  have hcomma : newline ∉ ascii ", " := by decide
  have hbufs : newline ∉ ascii " larger bufs" := by decide
  simp only [Timestamp.toString, List.mem_append, hdecimal, hpadded, hfirst, hdot, hcomma, hbufs, or_self,
    not_false_eq_true]

/-! ### Runs -/

theorem output_step {strftime : Int → Bytes} {pid : Int} {name : Bytes} {rollsz : Int} {p p' : AsyncLogging.Output}
    {a : AsyncLogging.Action × Outside} {o : List Seen} (hs : p.step strftime pid name rollsz a = some (p', o)) :
    p.logging.step a.1 = some (p'.logging, logged o) := by
  simp only [AsyncLogging.Output.step, Option.bind_eq_bind, Option.bind_eq_some_iff, Prod.exists] at hs
  obtain ⟨s', o₁, hlogging, hs⟩ := hs
  split at hs
  all_goals
    obtain ⟨⟨_, o₂⟩, -, hs⟩ := Option.bind_eq_some_iff.mp hs
    obtain ⟨rfl, rfl⟩ := Prod.mk.inj (Option.some.inj hs)
    rw [hlogging]
    exact congrArg (fun l => some (s', l)) (AsyncLogging.Output.logged_step [] o₁ o₂).symm

section
variable {T : Type} [DecidableEq T] {env : Env T} {strftime : Int → Bytes} {name : Bytes} {rollsz : Int}
  {data1 data2 : Nat → UInt8} {acts : List (AsyncLogging.Action × Outside)} {seen : List Seen}
  {out out' : AsyncLogging.Output}

/-- What the logging does by itself. -/
abbrev OutputRun (env : Env T) (strftime : Int → Bytes) (name : Bytes) (rollsz : Int) (data1 data2 : Nat → UInt8) :=
  ((AsyncLogging.Output.machine strftime env.getpid name rollsz).restrict AsyncLogging.Output.Sound).Run
    (.create data1 data2)

theorem sound_append (out : AsyncLogging.Output) (buf : Bytes) (data : Nat → UInt8) :
    AsyncLogging.Output.Sound out (.append buf data, nothing) := by
  refine ⟨show (0 : Int) < 1 by decide, fun c hc => ?_⟩
  unfold AsyncLogging.Output.calls at hc
  split at hc
  case h_1 hs =>
    rw [step_append hs] at hc
    cases hc
  case h_2 => cases hc

omit [DecidableEq T] in
/-- Records are appended, one after the other. -/
theorem append_run (h : OutputRun env strftime name rollsz data1 data2 acts seen out) {bufs : List Bytes}
    {data : Nat → UInt8} {o : List Seen} (hbufs : ∀ buf ∈ bufs, buf.length < kSmall)
    (hs : append env strftime name rollsz data out bufs = some (out', o)) :
    (∃ acts', OutputRun env strftime name rollsz data1 data2 acts' (seen ++ o) out') ∧
      AsyncLogging.appended (logged o) = bufs ∧ AsyncLogging.notices (logged o) = [] := by
  induction bufs generalizing acts seen out o with
  | nil =>
    obtain ⟨rfl, rfl⟩ := Prod.mk.inj (Option.some.inj hs)
    exact ⟨⟨acts, by rwa [List.append_nil]⟩, rfl, rfl⟩
  | cons buf bufs ih =>
    obtain ⟨hbuf, hrest⟩ := List.forall_mem_cons.mp hbufs
    obtain ⟨⟨out₁, o₁⟩, hstep, hs⟩ := Option.bind_eq_some_iff.mp hs
    obtain ⟨⟨out₂, o₂⟩, happend, hs⟩ := Option.bind_eq_some_iff.mp hs
    obtain ⟨rfl, rfl⟩ := Prod.mk.inj (Option.some.inj hs)
    have hlogged := step_append (output_step hstep)
    have hlen : buf.length < 2 ^ 31 := Nat.lt_trans hbuf (by decide)
    have hfirst := h.snoc (a := (AsyncLogging.Action.append buf data, nothing)) ⟨hlen, sound_append out buf data⟩ hstep
    obtain ⟨hrun, happended, hnotices⟩ := ih hfirst hrest happend
    rw [List.append_assoc] at hrun
    refine ⟨hrun, ?_, ?_⟩
    · rw [logged_append, hlogged, AsyncLogging.appended_append, happended]
      rfl
    · rw [logged_append, hlogged, AsyncLogging.notices_append, hnotices]
      rfl

/-- All together: the statements' records are what the logging appends, and every one is a line. -/
structure Joint (env : Env T) (strftime : Int → Bytes) (name : Bytes) (rollsz : Int) (data1 data2 : Nat → UInt8)
    (obs : List (Event T)) (p : Process T) : Prop where
  inv : Inv env (ofLoggers obs) p.loggers
  clean : ∀ e ∈ ofLoggers obs, e.Clean
  run : ∃ acts, OutputRun env strftime name rollsz data1 data2 acts (ofOutput obs) p.output
  appended : AsyncLogging.appended (logged (ofOutput obs)) = (outputs (ofLoggers obs)).map Prod.snd
  notices : ∀ text ∈ AsyncLogging.notices (logged (ofOutput obs)), IsLine newline text

variable {p p' : Process T} {obs o : List (Event T)}

theorem Joint.thread (h : Joint env strftime name rollsz data1 data2 obs p) {a : Loggers.Action T} {data : Nat → UInt8}
    (hsound : Sound p (.thread a data)) (hs : p.step env strftime name rollsz (.thread a data) = some (p', o)) :
    Joint env strftime name rollsz data1 data2 (obs ++ o) p' := by
  obtain ⟨⟨loggers, o₁⟩, hstep, hs⟩ := Option.bind_eq_some_iff.mp hs
  obtain ⟨⟨output, o₂⟩, happend, hs⟩ := Option.bind_eq_some_iff.mp hs
  obtain ⟨rfl, rfl⟩ := Prod.mk.inj (Option.some.inj hs)
  have hclean := clean_step h.inv h.clean hsound.1 hsound.2 hstep
  obtain ⟨acts, hrun⟩ := h.run
  obtain ⟨hrun', happended, hnotices⟩ := append_run hrun (fun buf hbuf => (clean_outputs hclean buf hbuf).2) happend
  constructor
  · rw [ofLoggers_step]
    exact h.inv.step hsound.1 hstep
  · rw [ofLoggers_step]
    exact List.forall_mem_append.mpr ⟨h.clean, hclean⟩
  · rw [ofOutput_step]
    exact hrun'
  · rw [ofOutput_step, ofLoggers_step, logged_append, AsyncLogging.appended_append, outputs_append, List.map_append,
      h.appended, happended]
  · rw [ofOutput_step, logged_append, AsyncLogging.notices_append, hnotices, List.append_nil]
    exact h.notices

theorem Joint.back (h : Joint env strftime name rollsz data1 data2 obs p) {a : AsyncLogging.Action} {x : Outside}
    (he : Enabled p (.back a x)) (hsound : Sound p (.back a x))
    (hs : p.step env strftime name rollsz (.back a x) = some (p', o)) :
    Joint env strftime name rollsz data1 data2 (obs ++ o) p' := by
  obtain ⟨⟨output, o₂⟩, hstep, hs⟩ := Option.bind_eq_some_iff.mp hs
  obtain ⟨rfl, rfl⟩ := Prod.mk.inj (Option.some.inj hs)
  obtain ⟨acts, hrun⟩ := h.run
  obtain ⟨happended, hnotices⟩ := step_others he.2.1 (output_step hstep)
  have hloggers := ofLoggers_step obs [] o₂
  have houtput := ofOutput_step obs [] o₂
  rw [List.map_nil, List.nil_append] at hloggers houtput
  rw [List.append_nil] at hloggers
  constructor
  · rw [hloggers]
    exact h.inv
  · rw [hloggers]
    exact h.clean
  · rw [houtput]
    exact ⟨_, hrun.snoc (a := (a, x)) ⟨he.2.2, hsound.1⟩ hstep⟩
  · rw [houtput, hloggers, logged_append, AsyncLogging.appended_append, happended, List.append_nil]
    exact h.appended
  · rw [houtput, logged_append, AsyncLogging.notices_append]
    refine List.forall_mem_append.mpr ⟨h.notices, fun text htext => ?_⟩
    obtain ⟨now, rfl, rfl⟩ := hnotices text htext
    exact isLine_dropMessage hsound.2.1 hsound.2.2

theorem joint_run {getenv : Bytes → Bool} {as : List (Action T)}
    (h : ((machine env strftime name rollsz).restrict Sound).Run (create getenv data1 data2) as obs p) :
    Joint env strftime name rollsz data1 data2 obs p := by
  have hfirst : Joint env strftime name rollsz data1 data2 [] (create getenv data1 data2) :=
    ⟨inv_create env getenv, by simp [ofLoggers], ⟨[], .nil⟩, rfl, by simp [ofOutput, logged, AsyncLogging.notices]⟩
  refine h.invariant (Joint env strftime name rollsz data1 data2) hfirst ?_
  intro obs p a p' o hjoint he hs
  cases a with
  | thread a data => exact hjoint.thread he.2 hs
  | back a x => exact hjoint.back he.1 he.2 hs

/-! ### Lines of the files -/

/-- Records that were passed on, and notices that some were dropped. -/
def Written (obs : List (Event T)) (line : Bytes) : Prop :=
  (∃ t, (t, line) ∈ outputs (ofLoggers obs)) ∨ line ∈ AsyncLogging.notices (logged (ofOutput obs))

theorem Joint.isLine (h : Joint env strftime name rollsz data1 data2 obs p) {line : Bytes} (hline : Written obs line) :
    IsLine newline line := by
  rcases hline with ⟨t, hmem⟩ | hmem
  · exact (clean_outputs h.clean line (List.mem_map_of_mem hmem)).1
  · exact h.notices line hmem

/-- Every record fits a buffer. -/
theorem Joint.fitting (h : Joint env strftime name rollsz data1 data2 obs p) :
    AsyncLogging.fitting (logged (ofOutput obs)) = (outputs (ofLoggers obs)).map Prod.snd := by
  rw [AsyncLogging.fitting, h.appended, List.filter_eq_self]
  intro buf hbuf
  exact decide_eq_true (Nat.lt_trans (clean_outputs h.clean buf hbuf).2 (by decide))

/-- What the back end writes of its rounds is made of records and notices. -/
theorem Joint.kept (h : Joint env strftime name rollsz data1 data2 obs p) {rs : List AsyncLogging.Round}
    (haccount : AsyncLogging.Accounted rs (logged (ofOutput obs)) p.output.logging) {chunk : Bytes}
    (hchunk : chunk ∈ rs.flatMap AsyncLogging.Round.kept) :
    ∃ lines : List Bytes, lines.flatten = chunk ∧ ∀ line ∈ lines, Written obs line := by
  obtain ⟨r, hr, hchunk⟩ := List.mem_flatMap.mp hchunk
  have htexts : chunk ∈ r.texts → ∃ lines : List Bytes, lines.flatten = chunk ∧ ∀ line ∈ lines, Written obs line := by
    intro htext
    have hround : chunk ∈ rs.flatMap AsyncLogging.Round.texts := List.mem_flatMap.mpr ⟨r, hr, htext⟩
    obtain ⟨lines, hflat, hlines⟩ :=
      haccount.lines.exists_group (List.mem_append_left _ (List.mem_append_left _ hround))
    refine ⟨lines, hflat, fun line hline => ?_⟩
    obtain ⟨⟨t, buf⟩, hmem, rfl⟩ := List.mem_map.mp (h.fitting ▸ hlines line hline)
    exact .inl ⟨t, hmem⟩
  unfold AsyncLogging.Round.kept at hchunk
  split at hchunk
  case isFalse => exact htexts hchunk
  case isTrue hfull =>
    rcases List.mem_cons.mp hchunk with rfl | hchunk
    · refine ⟨[r.notice], by simp, List.forall_mem_singleton.mpr (.inr ?_)⟩
      rw [haccount.notices]
      exact List.mem_map_of_mem (List.mem_filter.mpr ⟨hr, decide_eq_true hfull⟩)
    · exact htexts (List.mem_of_mem_take hchunk)

variable {getenv : Bytes → Bool} {as : List (Action T)}

/-- **Reading the log.** Any number of threads log, through the buffers, to the files. As long as no integer
overruns its stream, no text has a newline and each record has room for its own, the clock is set and the disk
takes what it is given, at every time of every run a file is nothing but lines, and each of them is a record,
whole, or a notice that records were dropped. And as long as none were, the lines of the files, one file after the
other, and then those still in memory are the records of all threads in the order in which they were passed on. -/
theorem files_by_lines (hname : chr '/' ∉ name)
    (h : ((machine env strftime name rollsz).restrict Sound).Run (create getenv data1 data2) as obs p) :
    (∀ f ∈ files p.output (ofOutput obs), ∃ lines : List Bytes, f.content.splitOn newline = lines ++ [[]] ∧
      ∀ line ∈ lines, Written obs (line ++ [newline])) ∧
    ((∀ size ∈ AsyncLogging.rounds (logged (ofOutput obs)), size ≤ 25) →
      ∃ inFiles inMemory : List (List Bytes),
        inFiles.flatten ++ inMemory.flatten = (outputs (ofLoggers obs)).map (fun r => r.2.dropLast) ∧
        (files p.output (ofOutput obs)).map (fun f => f.content.splitOn newline) = inFiles.map (· ++ [[]]) ∧
        (p.output.logging.heldTexts ++ p.output.logging.frontTexts).map (List.splitOn newline) =
          inMemory.map (· ++ [[]])) := by
  have hjoint := joint_run h
  obtain ⟨acts, hrun⟩ := hjoint.run
  constructor
  · intro f hf
    obtain ⟨rs, haccount, hkept⟩ := AsyncLogging.Output.rounds_run hname hrun
    obtain ⟨group, hflat, hgroup⟩ := hkept.exists_group (List.mem_append_left _ (List.mem_map_of_mem hf))
    obtain ⟨lines, hlines, hwritten⟩ :=
      exists_items_flatten fun chunk hchunk => hjoint.kept haccount (hgroup chunk hchunk)
    have hline : ∀ line ∈ lines, IsLine newline line := fun line hmem => hjoint.isLine (hwritten line hmem)
    refine ⟨lines.map List.dropLast, ?_, fun line hmem => ?_⟩
    · rw [← splitOn_lines hline, hlines, hflat]
    · obtain ⟨whole, hwhole, rfl⟩ := List.mem_map.mp hmem
      rw [(hline whole hwhole).dropLast_append]
      exact hwritten whole hwhole
  · intro hround
    have hpacked := AsyncLogging.Output.packed_run hname hrun hround
    rw [hjoint.fitting, List.append_assoc] at hpacked
    obtain ⟨groups, hflat, hsplit⟩ := hpacked.splitOn fun line hline => (clean_outputs hjoint.clean line hline).1
    rw [List.map_append] at hsplit
    obtain ⟨inFiles, inMemory, rfl, hfiles, hmemory⟩ := List.map_eq_append_iff.mp hsplit.symm
    refine ⟨inFiles, inMemory, ?_, ?_, hmemory.symm⟩
    · rw [← List.flatten_append, hflat, List.map_map]
      rfl
    · rw [hfiles, List.map_map]
      rfl

instance (p : Process T) (a : Action T) : Decidable ((machine env strftime name rollsz).enabled p a) :=
  match a with
  | .thread a _ => inferInstanceAs (Decidable (p.loggers.Enabled a))
  | .back a _ =>
    inferInstanceAs (Decidable (p.loggers.aborted = false ∧ isAppend a = false ∧ p.output.logging.Enabled a))

instance (s : Loggers T) (a : Loggers.Action T) : Decidable (OneLine s a) :=
  match a with
  | .construct _ st _ _ => inferInstanceAs (Decidable (newline ∉ st.file ∧ newline ∉ st.func))
  | .insert _ op => inferInstanceAs (Decidable (newline ∉ op.text))
  | .destruct t => inferInstanceAs (Decidable (∀ logger ∈ (s.threads t).loggers.head?,
      (logger.stream_.run ((Logger.finish logger.basename_ logger.line_).take 4)).cur + 1 < kSmall))
  | .setLogLevel _ | .setTimeZone _ | .abort _ => isTrue trivial

instance (s : AsyncLogging) (a : AsyncLogging.Action) : Decidable (Counted s a) :=
  match a with
  | .drop now => inferInstanceAs (Decidable (now.natAbs < 2 ^ 63 ∧ s.bufs.length < 2 ^ 64))
  | .append .. | .start | .threadFunc .. | .test | .enter | .wake | .write | .refill | .stop => isTrue trivial

instance (p : Process T) (a : Action T) : Decidable (Sound p a) :=
  match a with
  | .thread a _ => inferInstanceAs (Decidable (Sane p.loggers a ∧ OneLine p.loggers a))
  | .back a x => inferInstanceAs (Decidable (AsyncLogging.Output.Sound p.output (a, x) ∧ Counted p.output.logging a))

/-- A record is written to a file while another is passed on. -/
def twoRecords : List (Action Bool) :=
  [.back .start (AsyncLogging.Output.outside 1 0),
    .back (.threadFunc (fun _ => 1) fun _ => 2) (AsyncLogging.Output.outside 1 0),
    .back .test (AsyncLogging.Output.outside 1 0), .back .enter (AsyncLogging.Output.outside 1 0),
    .thread (.construct true ⟨.LOG_INFO, ascii "src/a.cc", 12, []⟩ 60000001 fun _ => 0) fun _ => 0,
    .thread (.insert true (.string (ascii "up"))) fun _ => 0,
    .thread (.construct false ⟨.LOG_WARN, ascii "b.cc", 3, []⟩ 60000002 fun _ => 0) fun _ => 0,
    .thread (.destruct true) fun _ => 0, .back .wake (AsyncLogging.Output.outside 2 0),
    .back (.drop 2) (AsyncLogging.Output.outside 2 0), .thread (.destruct false) fun _ => 0,
    .back .write (AsyncLogging.Output.outside 2 54)]

theorem files_by_lines_twoRecords :
    ∃ obs p, ((machine firstDay decimal (ascii "log") 1000).restrict Sound).Run
        (create (fun _ => false) (fun _ => 3) fun _ => 4) twoRecords obs p ∧
      outputs (ofLoggers obs) =
        [(true, ascii "19700101 08:01:00.000001     7     8 INFO  up a.cc:12\n"),
          (false, ascii "19700101 08:01:00.000002     7     9 WARN   b.cc:3\n")] ∧
      ∃ inFiles inMemory : List (List Bytes),
        inFiles.flatten ++ inMemory.flatten =
          [ascii "19700101 08:01:00.000001     7     8 INFO  up a.cc:12",
            ascii "19700101 08:01:00.000002     7     9 WARN   b.cc:3"] ∧
        [ascii "19700101 08:01:00.000001     7     8 INFO  up a.cc:12\n"].map (List.splitOn newline) =
          inFiles.map (· ++ [[]]) := by
  obtain ⟨obs, p, hrun, hout, hfiles, hround⟩ : ∃ obs p,
      ((machine firstDay decimal (ascii "log") 1000).restrict Sound).Run (create (fun _ => false) (fun _ => 3) fun _ => 4) twoRecords obs p ∧
      outputs (ofLoggers obs) =
        [(true, ascii "19700101 08:01:00.000001     7     8 INFO  up a.cc:12\n"),
          (false, ascii "19700101 08:01:00.000002     7     9 WARN   b.cc:3\n")] ∧
      (files p.output (ofOutput obs)).map AppendFile.content =
        [ascii "19700101 08:01:00.000001     7     8 INFO  up a.cc:12\n"] ∧
      ∀ size ∈ AsyncLogging.rounds (logged (ofOutput obs)), size ≤ 25 := Machine.Run.exists_of_trace (by decide +kernel)
  obtain ⟨inFiles, inMemory, hlines, hsplit, -⟩ := (files_by_lines (by decide) hrun).2 hround
  refine ⟨obs, p, hrun, hout, inFiles, inMemory, ?_, ?_⟩
  · rw [hlines, hout]
    decide
  · rw [← hfiles, ← hsplit, List.map_map]
    rfl

end

end Process
end Chtho.Logging.Loggers
