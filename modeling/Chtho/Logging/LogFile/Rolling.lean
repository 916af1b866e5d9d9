import Chtho.Logging.LogFile

/-! Rolling loses no record and uses no file twice.

`Inv` ties the files of a run to what was opened and appended: whatever is appended goes
to the current file before anything is rolled, and a file is opened in a later second than
the last. `Day` counts what comes into a file after the day it was opened on: the counter
is not set back without a look at the day, so the count is never ahead of it, and a look
after the boundary rolls. -/
namespace Chtho.Logging.LogFile
open Lib

variable {strftime : Int → Bytes} {pid : Int} {l l' : LogFile} {obs o : List Event}

/-! ### What the calls do -/

variable (strftime pid) in
/-- A roll opens a file, or comes in the second of the last one and does nothing. -/
theorem roll_cases (l : LogFile) (now : Int) (hostname : Option Bytes) :
    l.lastRoll_ < now ∧
        (l.roll strftime pid now hostname).2 =
          ({l with
              lastRoll_ := now
              lastFlush_ := now
              startOfPeriod_ := now.tdiv rollPerSec * rollPerSec
              file_ := some (.create (filename strftime pid l.name_ now hostname))},
            .opened now (filename strftime pid l.name_ now hostname) :: (l.file_.map Event.closed).toList) ∨
      now ≤ l.lastRoll_ ∧ (l.roll strftime pid now hostname).2 = (l, []) := by
  by_cases hnow : now > l.lastRoll_
  · left
    exact ⟨hnow, by simp [roll, hnow]⟩
  · right
    exact ⟨Int.not_lt.mp hnow, by simp [roll, hnow]⟩

theorem cnt_roll (l : LogFile) (now : Int) (hostname : Option Bytes) :
    (l.roll strftime pid now hostname).2.1.cnt_ = l.cnt_ := by
  unfold roll
  split <;> rfl

theorem checkEveryN_roll (l : LogFile) (now : Int) (hostname : Option Bytes) :
    (l.roll strftime pid now hostname).2.1.checkEveryN_ = l.checkEveryN_ := by
  unfold roll
  split <;> rfl

theorem rollsz_roll (l : LogFile) (now : Int) (hostname : Option Bytes) :
    (l.roll strftime pid now hostname).2.1.rollsz_ = l.rollsz_ := by
  unfold roll
  split <;> rfl

theorem lastRoll_le_roll (l : LogFile) (now : Int) (hostname : Option Bytes) :
    l.lastRoll_ ≤ (l.roll strftime pid now hostname).2.1.lastRoll_ := by
  rcases roll_cases strftime pid l now hostname with ⟨hnow, heq⟩ | ⟨_, heq⟩
  · rw [heq]
    exact Int.le_of_lt hnow
  · rw [heq]

theorem isSome_file_roll (l : LogFile) (now : Int) (hostname : Option Bytes) :
    (l.roll strftime pid now hostname).2.1.file_.isSome = true ↔ l.file_.isSome = true ∨ l.lastRoll_ < now := by
  rcases roll_cases strftime pid l now hostname with ⟨hnow, heq⟩ | ⟨hnow, heq⟩
  · rw [heq]
    exact iff_of_true rfl (.inr hnow)
  · rw [heq]
    exact (or_iff_left (Int.not_lt.mpr hnow)).symm

theorem le_lastRoll_roll (l : LogFile) (now : Int) (hostname : Option Bytes) :
    now ≤ (l.roll strftime pid now hostname).2.1.lastRoll_ := by
  rcases roll_cases strftime pid l now hostname with ⟨_, heq⟩ | ⟨hnow, heq⟩
  · rw [heq]
  · rw [heq]
    exact hnow

/-- The file with one more line. -/
def wrote (l : LogFile) (f : AppendFile) (line : Bytes) (counts : List Nat) : LogFile :=
  {l with file_ := some (f.append line counts)}

/-- What follows the writing of a line: a roll because of the size, nothing until it is time
to look at the clock, a roll on another day, or a look and perhaps a flush. -/
inductive Followed (strftime : Int → Bytes) (pid : Int) (l : LogFile) (written check now : Int)
    (hostname : Option Bytes) : LogFile → List Event → Prop where
  | size (hsize : l.rollsz_ < written) :
      Followed strftime pid l written check now hostname (l.roll strftime pid now hostname).2.1
        (l.roll strftime pid now hostname).2.2
  | count (hsize : written ≤ l.rollsz_) (hcnt : l.cnt_ + 1 < l.checkEveryN_) :
      Followed strftime pid l written check now hostname {l with cnt_ := l.cnt_ + 1} []
  | day (hsize : written ≤ l.rollsz_) (hcnt : l.checkEveryN_ ≤ l.cnt_ + 1)
      (hday : check.tdiv rollPerSec * rollPerSec ≠ l.startOfPeriod_) :
      Followed strftime pid l written check now hostname ({l with cnt_ := 0}.roll strftime pid now hostname).2.1
        ({l with cnt_ := 0}.roll strftime pid now hostname).2.2
  | check (hsize : written ≤ l.rollsz_) (hcnt : l.checkEveryN_ ≤ l.cnt_ + 1)
      (hday : check.tdiv rollPerSec * rollPerSec = l.startOfPeriod_) (lastFlush : Int) (o : List Event)
      (ho : o = [] ∨ o = [.flush]) :
      Followed strftime pid l written check now hostname {l with cnt_ := 0, lastFlush_ := lastFlush} o

theorem append_cases {line : Bytes} {counts : List Nat} {check now : Int} {hostname : Option Bytes}
    (h : l.append_unlocked strftime pid line counts check now hostname = some (l', o)) :
    ∃ f, l.file_ = some f ∧ Followed strftime pid (l.wrote f line counts) (f.append line counts).written_ check now
      hostname l' o := by
  cases hfile : l.file_ with
  | none => simp [append_unlocked, hfile] at h
  | some f =>
    refine ⟨f, rfl, ?_⟩
    simp only [append_unlocked, hfile, Option.bind_eq_bind, Option.bind_some] at h
    split at h
    case isTrue hsize =>
      obtain ⟨rfl, rfl⟩ := Prod.mk.inj (Option.some.inj h)
      exact .size hsize
    case isFalse hsize =>
      have hsize := Int.not_lt.mp hsize
      split at h
      case isTrue hcnt =>
        split at h
        case isTrue hday =>
          obtain ⟨rfl, rfl⟩ := Prod.mk.inj (Option.some.inj h)
          exact .day (l := l.wrote f line counts) hsize hcnt hday
        case isFalse hday =>
          split at h
          all_goals
            obtain ⟨rfl, rfl⟩ := Prod.mk.inj (Option.some.inj h)
            exact .check (l := l.wrote f line counts) hsize hcnt (not_not.mp hday) _ _ (by simp)
      case isFalse hcnt =>
        obtain ⟨rfl, rfl⟩ := Prod.mk.inj (Option.some.inj h)
        exact .count (l := l.wrote f line counts) hsize (Int.not_le.mp hcnt)

/-- A call of `append` that goes through. -/
theorem append_step {time check now : Int} {line : Bytes} {counts : List Nat} {hostname : Option Bytes}
    (hs : l.step strftime pid (.append time line counts check now hostname) = some (l', o)) :
    ∃ f o', l.file_ = some f ∧ o = .appended time line :: o' ∧
      Followed strftime pid (l.wrote f line counts) (f.append line counts).written_ check now hostname l' o' := by
  simp only [LogFile.step, Option.bind_eq_bind, Option.bind_eq_some_iff, Option.some.injEq, Prod.mk.injEq] at hs
  obtain ⟨⟨l₁, o₁⟩, happend, rfl, rfl⟩ := hs
  obtain ⟨f, hfile, hf⟩ := append_cases happend
  exact ⟨f, o₁, hfile, rfl, hf⟩

theorem flush_step (hs : l.step strftime pid .flush = some (l', o)) : l' = l ∧ o = [.flush] := by
  simp only [LogFile.step, Option.bind_eq_bind, Option.bind_eq_some_iff, Option.some.injEq, Prod.mk.injEq] at hs
  obtain ⟨_, _, rfl, rfl⟩ := hs
  exact ⟨rfl, rfl⟩

theorem isSome_file_followed {written check now : Int} {hostname : Option Bytes}
    (hf : Followed strftime pid l written check now hostname l' o) (h : l.file_.isSome = true) :
    l'.file_.isSome = true := by
  cases hf with
  | size | day => exact (isSome_file_roll ..).mpr (.inl h)
  | count | check => exact h

variable (strftime pid) in
/-- With an open file a call goes through. -/
theorem exists_append {f : AppendFile} (hfile : l.file_ = some f) (line : Bytes) (counts : List Nat) (check now : Int)
    (hostname : Option Bytes) : ∃ r, l.append_unlocked strftime pid line counts check now hostname = some r := by
  simp only [append_unlocked, hfile, Option.bind_eq_bind, Option.bind_some]
  split
  · exact ⟨_, rfl⟩
  · split
    · split
      · exact ⟨_, rfl⟩
      · split <;> exact ⟨_, rfl⟩
    · exact ⟨_, rfl⟩

/-! ### The files -/

theorem all_opened (fs : Files) (second : Int) (name : Bytes) :
    (fs.note (.opened second name)).all = fs.all ++ [⟨second, name, []⟩] := rfl

theorem all_appended {fs : Files} {e : Entry} (h : fs.current = some e) (time : Int) (line : Bytes) :
    fs.all = fs.past ++ [e] ∧
      (fs.note (.appended time line)).all = fs.past ++ [{e with records := e.records ++ [(time, line)]}] := by
  simp [Files.all, Files.note, h]

/-- The files of a run: `rs` is what was appended. -/
structure Inv (strftime : Int → Bytes) (pid : Int) (rs : List (Int × Bytes)) (obs : List Event) (l : LogFile) : Prop where
  contents : (closedFiles obs ++ l.file_.toList).map (fun f => (f.name, f.content)) =
    (files obs).all.map fun e => (e.name, e.content)
  records : (files obs).all.flatMap Entry.records = rs
  current : (files obs).current.map Entry.second = l.file_.map fun _ => l.lastRoll_
  increasing : (files obs).all.Pairwise fun e e' => e.second < e'.second
  last : ∀ e ∈ (files obs).all, e.second ≤ l.lastRoll_
  names : ∀ e ∈ (files obs).all, ∃ hostname, e.name = filename strftime pid l.name_ e.second hostname
  none : l.file_ = none → l.lastRoll_ = 0
  nonneg : 0 ≤ l.lastRoll_
  period : l.startOfPeriod_ ≤ l.lastRoll_

variable {rs : List (Int × Bytes)}

theorem period_le {now : Int} (h : 0 ≤ now) : now.tdiv rollPerSec * rollPerSec ≤ now := by
  rw [Int.tdiv_eq_ediv_of_nonneg h]
  exact Int.ediv_mul_le _ (by decide)

theorem files_rolled (obs : List Event) (second : Int) (name : Bytes) (file : Option AppendFile) :
    files (obs ++ .opened second name :: (file.map Event.closed).toList) = (files obs).note (.opened second name) := by
  rw [List.append_cons]
  cases file with
  | none => rw [Option.map_none, Option.toList_none, List.append_nil, files_snoc]
  | some f =>
    rw [Option.map_some, Option.toList_some, files_snoc, files_snoc]
    rfl

theorem closedFiles_append (obs o : List Event) : closedFiles (obs ++ o) = closedFiles obs ++ closedFiles o :=
  List.filterMap_append

theorem closedFiles_rolled (obs : List Event) (second : Int) (name : Bytes) (file : Option AppendFile) :
    closedFiles (obs ++ .opened second name :: (file.map Event.closed).toList) = closedFiles obs ++ file.toList := by
  rw [closedFiles_append]
  cases file <;> rfl

/-- Only a roll closes a file. -/
theorem closedFiles_appended (obs : List Event) (time : Int) (line : Bytes) :
    closedFiles (obs ++ [.appended time line]) = closedFiles obs := by
  rw [closedFiles_append]
  exact List.append_nil _

theorem closedFiles_flush (obs : List Event) : closedFiles (obs ++ [.flush]) = closedFiles obs := by
  rw [closedFiles_append]
  exact List.append_nil _

theorem Inv.roll (h : Inv strftime pid rs obs l) (now : Int) (hostname : Option Bytes) :
    Inv strftime pid rs (obs ++ (l.roll strftime pid now hostname).2.2) (l.roll strftime pid now hostname).2.1 := by
  rcases roll_cases strftime pid l now hostname with ⟨hnow, heq⟩ | ⟨_, heq⟩
  · rw [heq]
    have hnonneg := h.nonneg
    have hfiles := files_rolled obs now (filename strftime pid l.name_ now hostname) l.file_
    constructor
    case contents =>
      rw [hfiles, closedFiles_rolled, all_opened, List.map_append, h.contents, List.map_append]
      rfl
    case records =>
      rw [hfiles, all_opened, List.flatMap_append, h.records]
      exact List.append_nil _
    case current =>
      rw [hfiles]
      rfl
    case increasing =>
      rw [hfiles, all_opened, List.pairwise_append]
      refine ⟨h.increasing, List.pairwise_singleton _ _, fun e he e' he' => ?_⟩
      obtain rfl := List.mem_singleton.mp he'
      exact Int.lt_of_le_of_lt (h.last e he) hnow
    case last =>
      rw [hfiles, all_opened, List.forall_mem_append]
      refine ⟨fun e he => ?_, List.forall_mem_singleton.mpr (Int.le_refl _)⟩
      exact Int.le_of_lt (Int.lt_of_le_of_lt (h.last e he) hnow)
    case names =>
      rw [hfiles, all_opened, List.forall_mem_append]
      exact ⟨h.names, List.forall_mem_singleton.mpr ⟨hostname, rfl⟩⟩
    case none => nofun
    case nonneg => exact Int.le_of_lt (Int.lt_of_le_of_lt hnonneg hnow)
    case period => exact period_le (Int.le_of_lt (Int.lt_of_le_of_lt hnonneg hnow))
  · rw [heq, List.append_nil]
    exact h

/-- The current file was opened at the last roll. -/
theorem Inv.exists_current (h : Inv strftime pid rs obs l) {f : AppendFile} (hfile : l.file_ = some f) :
    ∃ e, (files obs).current = some e ∧ e.second = l.lastRoll_ := by
  have hcurrent := h.current
  rw [hfile] at hcurrent
  exact Option.map_eq_some_iff.mp hcurrent

/-- A line that is written whole is the last record of the current file. -/
theorem Inv.wrote (h : Inv strftime pid rs obs l) {f : AppendFile} (hfile : l.file_ = some f) (time : Int) {line : Bytes}
    {counts : List Nat} (hfull : AppendFile.taken counts line = line) :
    Inv strftime pid (rs ++ [(time, line)]) (obs ++ [.appended time line]) (l.wrote f line counts) := by
  obtain ⟨e, hcurrent, hsecond⟩ := h.exists_current hfile
  obtain ⟨hall, hall'⟩ := all_appended hcurrent time line
  obtain ⟨hcontents, hrecords, _, hincreasing, hlast, hnames, _, hnonneg, hperiod⟩ := h
  rw [hall, hfile] at hcontents
  rw [hall] at hrecords hincreasing hlast hnames
  constructor
  case contents =>
    rw [files_snoc, hall', closedFiles_appended, LogFile.wrote, Option.toList_some]
    rw [Option.toList_some, List.map_append, List.map_append, List.map_singleton, List.map_singleton] at hcontents
    obtain ⟨hpast, hlast⟩ := List.append_inj' hcontents rfl
    obtain ⟨hname, hcontent⟩ := Prod.mk.inj (List.cons.inj hlast).1
    rw [List.map_append, List.map_append, hpast]
    simp [AppendFile.append, hfull, hname, hcontent, Entry.content]
  case records =>
    rw [files_snoc, hall', ← hrecords]
    simp
  case current =>
    rw [files_snoc]
    simp [Files.note, hcurrent, hsecond, LogFile.wrote]
  case increasing =>
    rw [files_snoc, hall', List.pairwise_append]
    rw [List.pairwise_append] at hincreasing
    refine ⟨hincreasing.1, List.pairwise_singleton _ _, fun e₁ he₁ e₂ he₂ => ?_⟩
    obtain rfl := List.mem_singleton.mp he₂
    exact hincreasing.2.2 e₁ he₁ e (List.mem_singleton_self _)
  case last =>
    rw [files_snoc, hall', List.forall_mem_append, List.forall_mem_singleton]
    rw [List.forall_mem_append, List.forall_mem_singleton] at hlast
    exact hlast
  case names =>
    rw [files_snoc, hall', List.forall_mem_append, List.forall_mem_singleton]
    rw [List.forall_mem_append, List.forall_mem_singleton] at hnames
    exact hnames
  case none => nofun
  case nonneg => exact hnonneg
  case period => exact hperiod

/-- Neither the counter nor a flush matters. -/
theorem Inv.count (h : Inv strftime pid rs obs l) (cnt lastFlush : Int) :
    Inv strftime pid rs obs {l with cnt_ := cnt, lastFlush_ := lastFlush} :=
  ⟨h.contents, h.records, h.current, h.increasing, h.last, h.names, h.none, h.nonneg, h.period⟩

theorem Inv.flush (h : Inv strftime pid rs obs l) : Inv strftime pid rs (obs ++ [.flush]) l := by
  have hfiles : files (obs ++ [.flush]) = files obs := files_snoc obs .flush
  obtain ⟨hcontents, hrecords, hcurrent, hincreasing, hlast, hnames, hnone, hnonneg, hperiod⟩ := h
  rw [← hfiles] at hcontents hrecords hcurrent hincreasing hlast hnames
  rw [← closedFiles_flush] at hcontents
  exact ⟨hcontents, hrecords, hcurrent, hincreasing, hlast, hnames, hnone, hnonneg, hperiod⟩

theorem Inv.followed (h : Inv strftime pid rs obs l) {written check now : Int} {hostname : Option Bytes}
    (hf : Followed strftime pid l written check now hostname l' o) : Inv strftime pid rs (obs ++ o) l' := by
  cases hf with
  | size => exact h.roll now hostname
  | count =>
    rw [List.append_nil]
    exact h.count _ _
  | day => exact (h.count 0 l.lastFlush_).roll now hostname
  | check _ _ _ lastFlush o ho =>
    rcases ho with rfl | rfl
    · rw [List.append_nil]
      exact h.count _ _
    · exact (h.count _ _).flush

/-! ### The day a record belongs to -/

theorem late_opened (boundary second : Int) (name : Bytes) (fs : Files) :
    late boundary (fs.note (.opened second name)) = late boundary fs := by
  rw [late, all_opened, List.filter_append]
  by_cases hsecond : second < boundary
  all_goals simp [late, hsecond]

/-- A roll and a flush append nothing. -/
theorem late_followed (boundary : Int) {written check now : Int} {hostname : Option Bytes}
    (hf : Followed strftime pid l written check now hostname l' o) (obs : List Event) :
    late boundary (files (obs ++ o)) = late boundary (files obs) := by
  have hroll (l : LogFile) : late boundary (files (obs ++ (l.roll strftime pid now hostname).2.2)) =
      late boundary (files obs) := by
    rcases roll_cases strftime pid l now hostname with ⟨_, heq⟩ | ⟨_, heq⟩
    · rw [heq, files_rolled, late_opened]
    · rw [heq, List.append_nil]
  cases hf with
  | size => exact hroll _
  | count => rw [List.append_nil]
  | day => exact hroll _
  | check _ _ _ lastFlush o ho =>
    rcases ho with rfl | rfl
    · rw [List.append_nil]
    · rw [files_snoc]
      rfl

theorem late_appended {fs : Files} {e : Entry} (h : fs.current = some e) (boundary time : Int) (line : Bytes) :
    (late boundary (fs.note (.appended time line))).length =
      (late boundary fs).length + if e.second < boundary ∧ boundary ≤ time then 1 else 0 := by
  obtain ⟨hall, hall'⟩ := all_appended h time line
  rw [late, hall', late, hall, List.filter_append, List.filter_append, List.flatMap_append, List.flatMap_append,
    List.filter_append, List.filter_append, List.length_append, List.length_append, Nat.add_assoc]
  by_cases hsecond : e.second < boundary
  · by_cases htime : boundary ≤ time
    all_goals simp [hsecond, htime]
  · simp [hsecond]

/-- Late records of the current file are counted: the clock has last shown `latest`. -/
structure Day (boundary latest : Int) (obs : List Event) (l : LogFile) : Prop where
  cnt : 0 ≤ l.cnt_ ∧ l.cnt_ < l.checkEveryN_
  bound : ((late boundary (files obs)).length : Int) ≤ l.checkEveryN_
  count : l.lastRoll_ < boundary → ((late boundary (files obs)).length : Int) ≤ l.cnt_
  latest : late boundary (files obs) ≠ [] → boundary ≤ latest

/-- At a time from the boundary on, the clock shows another period. -/
theorem boundary_le_period {boundary check : Int} (hday : rollPerSec ∣ boundary) (hpos : 0 ≤ boundary)
    (h : boundary ≤ check) : boundary ≤ check.tdiv rollPerSec * rollPerSec := by
  obtain ⟨k, rfl⟩ := hday
  rw [Int.tdiv_eq_ediv_of_nonneg (Int.le_trans hpos h), Int.mul_comm]
  refine Int.mul_le_mul_of_nonneg_right ?_ (by decide)
  exact Int.le_ediv_of_mul_le (by decide) (Int.mul_comm _ _ ▸ h)

theorem Day.append {boundary latest : Int} (h : Day boundary latest obs l) (hinv : Inv strftime pid rs obs l)
    (hday : rollPerSec ∣ boundary) {f : AppendFile} (hfile : l.file_ = some f) {time check now : Int} {line : Bytes}
    {counts : List Nat} {hostname : Option Bytes} (htime : latest ≤ time) (hcheck : time ≤ check) (hnow : check ≤ now)
    (hf : Followed strftime pid (l.wrote f line counts) (f.append line counts).written_ check now hostname l' o) :
    Day boundary now (obs ++ .appended time line :: o) l' := by
  obtain ⟨e, hcurrent, hsecond⟩ := hinv.exists_current hfile
  have hlate := late_followed boundary hf (obs ++ [.appended time line])
  have hlength := late_appended hcurrent boundary time line
  rw [← files_snoc, hsecond] at hlength
  rw [← List.append_cons] at hlate
  obtain ⟨⟨hcnt, hless⟩, hbound, hcount, hlatest⟩ := h
  -- what is late now: all of it counted, and nothing before the boundary
  have hall : ((late boundary (files (obs ++ .appended time line :: o))).length : Int) ≤ l.checkEveryN_ := by
    rw [hlate, hlength]
    split
    case isTrue hadded =>
      have := hcount hadded.1
      omega
    case isFalse => omega
  have hcounted (hbefore : l.lastRoll_ < boundary) :
      ((late boundary (files (obs ++ .appended time line :: o))).length : Int) ≤ l.cnt_ + 1 := by
    have := hcount hbefore
    rw [hlate, hlength]
    split <;> omega
  have hnone (hearly : time < boundary) : late boundary (files (obs ++ .appended time line :: o)) = [] := by
    have hempty : late boundary (files obs) = [] := by
      by_contra hne
      have := hlatest hne
      omega
    rw [← List.length_eq_zero_iff, hlate, hlength, hempty, if_neg (fun hadded => by omega)]
    rfl
  have hearly (hnow : now < boundary) (n : Int) (hn : 0 ≤ n) :
      ((late boundary (files (obs ++ .appended time line :: o))).length : Int) ≤ n := by
    rw [hnone (by omega)]
    exact hn
  have hlatest' (hne : late boundary (files (obs ++ .appended time line :: o)) ≠ []) : boundary ≤ now := by
    by_contra hnow
    exact hne (hnone (by omega))
  cases hf with
  | size =>
    refine ⟨?_, ?_, fun hlast => ?_, hlatest'⟩
    · rw [cnt_roll, checkEveryN_roll]
      exact ⟨hcnt, hless⟩
    · rw [checkEveryN_roll]
      exact hall
    · rw [cnt_roll]
      exact hearly (Int.lt_of_le_of_lt (le_lastRoll_roll ..) hlast) _ hcnt
  | count _ hroom => exact ⟨⟨Int.le_add_one hcnt, hroom⟩, hall, hcounted, hlatest'⟩
  | day =>
    refine ⟨?_, ?_, fun hlast => ?_, hlatest'⟩
    · rw [cnt_roll, checkEveryN_roll]
      exact ⟨Int.le_refl 0, Int.lt_of_le_of_lt hcnt hless⟩
    · rw [checkEveryN_roll]
      exact hall
    · rw [cnt_roll]
      exact hearly (Int.lt_of_le_of_lt (le_lastRoll_roll ..) hlast) _ (Int.le_refl 0)
  | check _ _ hperiod =>
    refine ⟨⟨Int.le_refl 0, Int.lt_of_le_of_lt hcnt hless⟩, hall, fun hlast => ?_, hlatest'⟩
    -- had the look at the clock come from the boundary on, it would have shown another day
    have hbefore : check < boundary := by
      by_contra hafter
      have hpos := hinv.nonneg
      have hstart := hinv.period
      have hlate : boundary ≤ check := Int.not_lt.mp hafter
      have hnext := boundary_le_period hday (Int.le_trans hpos (Int.le_of_lt hlast)) hlate
      rw [hperiod] at hnext
      exact absurd (Int.lt_of_le_of_lt hstart hlast) (Int.not_lt.mpr hnext)
    rw [hnone (Int.lt_of_le_of_lt hcheck hbefore)]
    exact Int.le_refl 0

theorem Day.roll {boundary latest now : Int} (h : Day boundary latest obs l) (hnow : latest ≤ now)
    (hostname : Option Bytes) :
    Day boundary now (obs ++ (l.roll strftime pid now hostname).2.2) (l.roll strftime pid now hostname).2.1 := by
  have hlate : late boundary (files (obs ++ (l.roll strftime pid now hostname).2.2)) = late boundary (files obs) := by
    have hf : Followed strftime pid l (l.rollsz_ + 1) 0 now hostname _ _ := .size (by omega)
    exact late_followed boundary hf obs
  obtain ⟨hcnt, hbound, hcount, hlatest⟩ := h
  constructor
  case cnt =>
    rw [cnt_roll, checkEveryN_roll]
    exact hcnt
  case bound =>
    rw [hlate, checkEveryN_roll]
    exact hbound
  case count =>
    intro hlast
    rw [hlate, cnt_roll]
    exact hcount (Int.lt_of_le_of_lt (lastRoll_le_roll ..) hlast)
  case latest =>
    intro hne
    exact Int.le_trans (hlatest (hlate ▸ hne)) hnow

/-! ### Runs -/

/-- The second can be read in the name. -/
theorem filename_injective (hinj : Function.Injective strftime) (hdot : ∀ t, chr '.' ∉ strftime t) {name : Bytes}
    {t t' : Int} {hostname hostname' : Option Bytes}
    (h : filename strftime pid name t hostname = filename strftime pid name t' hostname') : t = t' := by
  have hname : ascii "." = [chr '.'] := rfl
  simp only [filename, hname, List.append_assoc, List.singleton_append] at h
  exact hinj (before_separator (hdot t) (hdot t') (List.cons.inj (List.append_cancel_left h)).2)

/-- What rolling has to keep, in a run with these calls and these readings of the clock:
every record is in one file, in order, no two files have one name, and of the records
appended from a day boundary on at most `checkEveryN` are in files opened before it. -/
structure Rolled (checkEveryN : Int) (clock : List Int) (as : List Action) (obs : List Event) (l : LogFile) : Prop where
  contents : (closedFiles obs ++ l.file_.toList).map AppendFile.content = (files obs).all.map Entry.content
  records : (files obs).all.flatMap Entry.records = appended as
  seconds : (files obs).all.Pairwise fun e e' => e.second < e'.second
  names : ((closedFiles obs ++ l.file_.toList).map AppendFile.name).Nodup
  day : 1 ≤ checkEveryN → clock.Pairwise (· ≤ ·) → ∀ boundary, rollPerSec ∣ boundary →
    ((late boundary (files obs)).length : Int) ≤ checkEveryN

theorem Inv.nodup (h : Inv strftime pid rs obs l) (hinj : Function.Injective strftime)
    (hdot : ∀ t, chr '.' ∉ strftime t) : ((closedFiles obs ++ l.file_.toList).map AppendFile.name).Nodup := by
  have hnames : (closedFiles obs ++ l.file_.toList).map AppendFile.name = (files obs).all.map Entry.name := by
    have hcontents := congrArg (List.map Prod.fst) h.contents
    rw [List.map_map, List.map_map] at hcontents
    exact hcontents
  rw [hnames, List.Nodup, List.pairwise_map]
  refine h.increasing.imp_of_mem fun {e e'} he he' hless heq => ?_
  obtain ⟨hostname, hname⟩ := h.names e he
  obtain ⟨hostname', hname'⟩ := h.names e' he'
  rw [hname, hname'] at heq
  exact absurd (filename_injective hinj hdot heq) (Int.ne_of_lt hless)

variable {name : Bytes} {rollsz flushInter checkEveryN now₀ : Int} {hostname₀ : Option Bytes} {l₀ : LogFile}
  {o₀ : List Event} {as : List Action}

/-- The object before the constructor calls `roll`. -/
def blank (name : Bytes) (rollsz flushInter checkEveryN : Int) : LogFile :=
  ⟨name, rollsz, flushInter, checkEveryN, 0, 0, 0, 0, none⟩

theorem create_eq (h : create strftime pid name rollsz flushInter checkEveryN now₀ hostname₀ = some (l₀, o₀)) :
    (l₀, o₀) = ((blank name rollsz flushInter checkEveryN).roll strftime pid now₀ hostname₀).2 := by
  obtain ⟨_, h⟩ := assert_bind_eq_some_iff.mp h
  exact (Option.some.inj h).symm

theorem inv_blank : Inv strftime pid [] [] (blank name rollsz flushInter checkEveryN) := by
  constructor
  case increasing => exact List.Pairwise.nil
  case last | names => nofun
  case none => exact fun _ => rfl
  case nonneg | period => exact Int.le_refl 0
  all_goals rfl

theorem inv_create (h : create strftime pid name rollsz flushInter checkEveryN now₀ hostname₀ = some (l₀, o₀)) :
    Inv strftime pid [] o₀ l₀ := by
  obtain ⟨rfl, rfl⟩ := Prod.mk.inj (create_eq h)
  exact inv_blank.roll now₀ hostname₀

/-- One call. -/
theorem Inv.step {a : Action} (h : Inv strftime pid (appended as) obs l) (hfull : a.WritesFully)
    (hs : l.step strftime pid a = some (l', o)) : Inv strftime pid (appended (as ++ [a])) (obs ++ o) l' := by
  have happended : appended (as ++ [a]) = appended as ++ appended [a] := List.filterMap_append
  rw [happended]
  cases a with
  | append time line counts check now hostname =>
    obtain ⟨f, o', hfile, rfl, hf⟩ := append_step hs
    rw [List.append_cons]
    exact (h.wrote hfile time hfull).followed hf
  | roll now hostname =>
    obtain ⟨rfl, rfl⟩ := Prod.mk.inj (Option.some.inj hs)
    rw [show appended [Action.roll now hostname] = [] from rfl, List.append_nil]
    exact h.roll now hostname
  | flush =>
    obtain ⟨rfl, rfl⟩ := flush_step hs
    rw [show appended [Action.flush] = [] from rfl, List.append_nil]
    exact h.flush

theorem inv_run (hcreate : create strftime pid name rollsz flushInter checkEveryN now₀ hostname₀ = some (l₀, o₀))
    (hrun : (machine strftime pid).Run l₀ as obs l) (hfull : ∀ a ∈ as, a.WritesFully) :
    Inv strftime pid (appended as) (o₀ ++ obs) l := by
  induction hrun with
  | nil =>
    rw [List.append_nil]
    exact inv_create hcreate
  | snoc _ _ hs ih =>
    rw [List.forall_mem_append, List.forall_mem_singleton] at hfull
    rw [← List.append_assoc]
    exact (ih hfull.1).step hfull.2 hs

/-- The sizes stay as they were given. -/
theorem step_settings {a : Action} (hs : l.step strftime pid a = some (l', o)) :
    l'.rollsz_ = l.rollsz_ ∧ l'.checkEveryN_ = l.checkEveryN_ := by
  cases a with
  | append time line counts check now hostname =>
    obtain ⟨f, o', -, rfl, hf⟩ := append_step hs
    cases hf with
    | size | day => exact ⟨rollsz_roll .., checkEveryN_roll ..⟩
    | count | check => exact ⟨rfl, rfl⟩
  | roll now hostname =>
    obtain ⟨rfl, rfl⟩ := Prod.mk.inj (Option.some.inj hs)
    exact ⟨rollsz_roll .., checkEveryN_roll ..⟩
  | flush =>
    obtain ⟨rfl, rfl⟩ := flush_step hs
    exact ⟨rfl, rfl⟩

theorem run_settings (hcreate : create strftime pid name rollsz flushInter checkEveryN now₀ hostname₀ = some (l₀, o₀))
    (hrun : (machine strftime pid).Run l₀ as obs l) : l.rollsz_ = rollsz ∧ l.checkEveryN_ = checkEveryN := by
  induction hrun with
  | nil =>
    obtain ⟨rfl, rfl⟩ := Prod.mk.inj (create_eq hcreate)
    exact ⟨rollsz_roll .., checkEveryN_roll ..⟩
  | snoc _ _ hs ih =>
    obtain ⟨hsize, hevery⟩ := step_settings hs
    rw [hsize, hevery]
    exact ih

/-- The count of late records, in a run whose clock does not go back. -/
theorem day_run (hcreate : create strftime pid name rollsz flushInter checkEveryN now₀ hostname₀ = some (l₀, o₀))
    (hrun : (machine strftime pid).Run l₀ as obs l) (hfull : ∀ a ∈ as, a.WritesFully) (hevery : 1 ≤ checkEveryN)
    (hclock : (now₀ :: as.flatMap Action.times).Pairwise (· ≤ ·)) {boundary : Int} (hday : rollPerSec ∣ boundary) :
    ∃ latest ∈ now₀ :: as.flatMap Action.times, Day boundary latest (o₀ ++ obs) l := by
  induction hrun with
  | nil =>
    obtain ⟨rfl, rfl⟩ := Prod.mk.inj (create_eq hcreate)
    have hblank : Day boundary now₀ [] (blank name rollsz flushInter checkEveryN) :=
      ⟨⟨Int.le_refl 0, hevery⟩, (by omega : (0 : Int) ≤ checkEveryN), fun _ => Int.le_refl 0, fun hne => absurd rfl hne⟩
    refine ⟨now₀, List.mem_cons_self, ?_⟩
    rw [List.append_nil]
    exact hblank.roll (Int.le_refl _) hostname₀
  | @snoc as obs l a l' o hrun _ hs ih =>
    have hs : l.step strftime pid a = some (l', o) := hs
    rw [List.forall_mem_append, List.forall_mem_singleton] at hfull
    rw [List.flatMap_append, List.flatMap_singleton, ← List.cons_append] at hclock ⊢
    obtain ⟨hbefore, hlast, horder⟩ := List.pairwise_append.mp hclock
    obtain ⟨latest, hmem, hold⟩ := ih hfull.1 hbefore
    have hinv := inv_run hcreate hrun hfull.1
    rw [← List.append_assoc]
    cases a with
    | append time line counts check now hostname =>
      obtain ⟨f, o', hfile, rfl, hf⟩ := append_step hs
      obtain ⟨htime, hcheck⟩ := List.pairwise_cons.mp hlast
      refine ⟨now, List.mem_append_right _ (by simp [Action.times]), ?_⟩
      exact hold.append hinv hday hfile (horder latest hmem time (by simp [Action.times]))
        (htime check (by simp)) ((List.pairwise_cons.mp hcheck).1 now (by simp)) hf
    | roll now hostname =>
      obtain ⟨rfl, rfl⟩ := Prod.mk.inj (Option.some.inj hs)
      refine ⟨now, List.mem_append_right _ (by simp [Action.times]), ?_⟩
      exact hold.roll (horder latest hmem now (by simp [Action.times])) hostname
    | flush =>
      obtain ⟨rfl, rfl⟩ := flush_step hs
      obtain ⟨hcnt, hbound, hcount, hlatest⟩ := hold
      have hfiles : files ((o₀ ++ obs) ++ [.flush]) = files (o₀ ++ obs) := files_snoc _ .flush
      refine ⟨latest, List.mem_append_left _ hmem, hcnt, ?_, ?_, ?_⟩
      all_goals
        rw [hfiles]
        assumption

theorem rolled_run (hinj : Function.Injective strftime) (hdot : ∀ t, chr '.' ∉ strftime t)
    (hcreate : create strftime pid name rollsz flushInter checkEveryN now₀ hostname₀ = some (l₀, o₀))
    (hrun : (machine strftime pid).Run l₀ as obs l) (hfull : ∀ a ∈ as, a.WritesFully) :
    Rolled checkEveryN (now₀ :: as.flatMap Action.times) as (o₀ ++ obs) l := by
  have hinv := inv_run hcreate hrun hfull
  constructor
  case contents =>
    have hcontents := congrArg (List.map Prod.snd) hinv.contents
    rw [List.map_map, List.map_map] at hcontents
    exact hcontents
  case records => exact hinv.records
  case seconds => exact hinv.increasing
  case names => exact hinv.nodup hinj hdot
  case day =>
    intro hevery hclock boundary hday
    obtain ⟨latest, _, hlate⟩ := day_run hcreate hrun hfull hevery hclock hday
    exact (run_settings hcreate hrun).2 ▸ hlate.bound

/-! ### Calls without a file -/

/-- A file is open once `roll` has read a positive time. -/
theorem isSome_file_iff (hcreate : create strftime pid name rollsz flushInter checkEveryN now₀ hostname₀ = some (l₀, o₀))
    (hrun : (machine strftime pid).Run l₀ as obs l) (hfull : ∀ a ∈ as, a.WritesFully) :
    l.file_.isSome = true ↔ ∃ t ∈ now₀ :: rolls as, 0 < t := by
  induction hrun with
  | nil =>
    obtain ⟨rfl, rfl⟩ := Prod.mk.inj (create_eq hcreate)
    rw [show rolls [] = [] from rfl, isSome_file_roll]
    simp [blank]
  | @snoc as obs l a l' o hrun _ hs ih =>
    have hs : l.step strftime pid a = some (l', o) := hs
    rw [List.forall_mem_append, List.forall_mem_singleton] at hfull
    have hinv := inv_run hcreate hrun hfull.1
    have hrolls : rolls (as ++ [a]) = rolls as ++ rolls [a] := List.filterMap_append
    cases a with
    | append time line counts check now hostname =>
      obtain ⟨f, o', hfile, rfl, hf⟩ := append_step hs
      rw [hrolls, show rolls [Action.append time line counts check now hostname] = [] from rfl, List.append_nil,
        ← ih hfull.1, hfile, isSome_file_followed hf rfl]
      rfl
    | roll now hostname =>
      obtain ⟨rfl, rfl⟩ := Prod.mk.inj (Option.some.inj hs)
      rw [hrolls, show rolls [Action.roll now hostname] = [now] from rfl, isSome_file_roll, ih hfull.1, ← List.cons_append]
      simp only [List.mem_append, List.mem_singleton, or_and_right, exists_or, exists_eq_left]
      refine or_congr_right' fun hnone => ?_
      rw [hinv.none (Option.not_isSome_iff_eq_none.mp (mt (ih hfull.1).mp hnone))]
    | flush =>
      obtain ⟨rfl, rfl⟩ := flush_step hs
      rw [hrolls, show rolls [Action.flush] = [] from rfl, List.append_nil]
      exact ih hfull.1

variable (strftime pid) in
theorem step_isSome (l : LogFile) (a : Action) (h : a.needsFile = true → l.file_.isSome = true) :
    ∃ r, l.step strftime pid a = some r := by
  cases a with
  | append time line counts check now hostname =>
    obtain ⟨f, hfile⟩ := Option.isSome_iff_exists.mp (h rfl)
    obtain ⟨r, happend⟩ := exists_append strftime pid hfile line counts check now hostname
    exact ⟨_, by rw [LogFile.step, happend]; rfl⟩
  | roll now hostname => exact ⟨_, rfl⟩
  | flush =>
    obtain ⟨f, hfile⟩ := Option.isSome_iff_exists.mp (h rfl)
    exact ⟨_, by rw [LogFile.step, hfile]; rfl⟩

theorem isSome_file_of_step {a : Action} (hs : l.step strftime pid a = some (l', o)) (h : a.needsFile = true) :
    l.file_.isSome = true := by
  cases hfile : l.file_ with
  | some f => rfl
  | none => cases a <;> simp [LogFile.step, append_unlocked, hfile, Action.needsFile] at hs h

theorem openedFirst_snoc (a : Action) :
    OpenedFirst now₀ (as ++ [a]) ↔
      OpenedFirst now₀ as ∧ (a.needsFile = true → ∃ t ∈ now₀ :: rolls as, 0 < t) := by
  refine ⟨fun h => ⟨fun pre b hpre => h pre b (hpre.trans (List.prefix_append _ _)), h as a (List.prefix_refl _)⟩, ?_⟩
  rintro ⟨has, ha⟩ pre b hpre
  rcases List.prefix_concat_iff.mp hpre with heq | hpre
  · obtain ⟨rfl, hb⟩ := List.append_inj' heq rfl
    obtain rfl := List.singleton_injective hb
    exact ha
  · exact has pre b hpre

/-- The calls go through exactly if a file is open for those that need one. -/
theorem exists_run_iff (hcreate : create strftime pid name rollsz flushInter checkEveryN now₀ hostname₀ = some (l₀, o₀))
    (hfull : ∀ a ∈ as, a.WritesFully) :
    (∃ obs l, (machine strftime pid).Run l₀ as obs l) ↔ OpenedFirst now₀ as := by
  induction as using List.reverseRecOn with
  | nil => exact iff_of_true ⟨[], l₀, .nil⟩ (fun pre a hpre => by simp at hpre)
  | append_singleton as a ih =>
    rw [List.forall_mem_append, List.forall_mem_singleton] at hfull
    rw [openedFirst_snoc, ← ih hfull.1]
    constructor
    · rintro ⟨obs, l', hrun⟩
      obtain ⟨obs, o, l, rfl, hrun, _, hs⟩ := hrun.of_snoc
      refine ⟨⟨obs, l, hrun⟩, fun hneeds => ?_⟩
      exact (isSome_file_iff hcreate hrun hfull.1).mp (isSome_file_of_step hs hneeds)
    · rintro ⟨⟨obs, l, hrun⟩, hopen⟩
      obtain ⟨⟨l', o⟩, hs⟩ := step_isSome strftime pid l a
        (fun hneeds => (isSome_file_iff hcreate hrun hfull.1).mpr (hopen hneeds))
      exact ⟨obs ++ o, l', hrun.snoc trivial hs⟩

/-! ### Rolling -/

/-- Behind a line, the file is small enough or the clock did not allow another. -/
theorem written_le_of_followed (h : 0 ≤ l.rollsz_) {f : AppendFile} (hfile : l.file_ = some f) {check now : Int}
    {hostname : Option Bytes} (hf : Followed strftime pid l f.written_ check now hostname l' o) :
    (∀ f ∈ l'.file_, (f.written_ : Int) ≤ l.rollsz_) ∨ now ≤ l.lastRoll_ := by
  have hroll (l₁ : LogFile) (hlast : l₁.lastRoll_ = l.lastRoll_) :
      (∀ f ∈ (l₁.roll strftime pid now hostname).2.1.file_, (f.written_ : Int) ≤ l.rollsz_) ∨ now ≤ l.lastRoll_ := by
    rcases roll_cases strftime pid l₁ now hostname with ⟨_, heq⟩ | ⟨hnow, _⟩
    · left
      rw [heq]
      rintro f ⟨⟩
      exact h
    · exact .inr (hlast ▸ hnow)
  have hsame (l₁ : LogFile) (hl₁ : l₁.file_ = l.file_) (hsize : (f.written_ : Int) ≤ l.rollsz_) :
      ∀ g ∈ l₁.file_, (g.written_ : Int) ≤ l.rollsz_ := by
    rw [hl₁, hfile]
    rintro g ⟨⟩
    exact hsize
  cases hf with
  | size => exact hroll _ rfl
  | day => exact hroll _ rfl
  | count hsize | check hsize => exact .inl (hsame _ rfl hsize)

/-- **Rolling loses no record and uses no file twice**, in the runs in which a file is open:
in exactly those all calls go through, all records are where they have to be, and behind every `append`
the file is small enough or it came in the second of the last roll. -/
theorem rolled_iff (hinj : Function.Injective strftime) (hdot : ∀ t, chr '.' ∉ strftime t) (hsize : 0 ≤ rollsz)
    (hcreate : create strftime pid name rollsz flushInter checkEveryN now₀ hostname₀ = some (l₀, o₀))
    (hfull : ∀ a ∈ as, a.WritesFully) :
    (∃ obs l, (machine strftime pid).Run l₀ as obs l ∧
      Rolled checkEveryN (now₀ :: as.flatMap Action.times) as (o₀ ++ obs) l ∧
      ∀ pre time line counts check now hostname, pre ++ [.append time line counts check now hostname] <+: as →
        ∃ obs₁ l₁ l₂ o, (machine strftime pid).Run l₀ pre obs₁ l₁ ∧
          l₁.step strftime pid (.append time line counts check now hostname) = some (l₂, o) ∧
          ((∀ f ∈ l₂.file_, (f.written_ : Int) ≤ rollsz) ∨ now ≤ l₁.lastRoll_)) ↔
      OpenedFirst now₀ as := by
  rw [← exists_run_iff hcreate hfull]
  constructor
  · rintro ⟨obs, l, hrun, _⟩
    exact ⟨obs, l, hrun⟩
  · rintro ⟨obs, l, hrun⟩
    refine ⟨obs, l, hrun, rolled_run hinj hdot hcreate hrun hfull, ?_⟩
    rintro pre time line counts check now hostname ⟨post, rfl⟩
    obtain ⟨obs', l₂, hpre⟩ := hrun.exists_prefix
    obtain ⟨obs₁, o, l₁, _, hrun₁, _, hs⟩ := hpre.of_snoc
    refine ⟨obs₁, l₁, l₂, o, hrun₁, hs, ?_⟩
    have hsettings := (run_settings hcreate hrun₁).1
    obtain ⟨f, o', -, -, hf⟩ := append_step hs
    exact hsettings ▸ written_le_of_followed (l := l₁.wrote f line counts) (hsettings ▸ hsize) rfl hf

theorem openedFirst_of_pos (h : 0 < now₀) (as : List Action) : OpenedFirst now₀ as :=
  fun _ _ _ _ => ⟨now₀, List.mem_cons_self, h⟩

/-- A number for every second. -/
def code (t : Int) : Nat := if 0 ≤ t then 2 * t.toNat else 2 * (-t).toNat - 1

theorem code_injective : Function.Injective code := by
  intro t t' h
  unfold code at h
  split at h <;> split at h <;> omega

/-- `strftime` around the first midnight, and some text at other times. -/
def stamp (t : Int) : Bytes :=
  if t = 86399 then ascii "19700101-235959"
  else if t = 86400 then ascii "19700102-000000"
  else chr 's' :: decimalDigits (code t)

theorem stamp_cases (t : Int) :
    t = 86399 ∧ stamp t = ascii "19700101-235959" ∨ t = 86400 ∧ stamp t = ascii "19700102-000000" ∨
      stamp t = chr 's' :: decimalDigits (code t) := by
  by_cases hbefore : t = 86399
  · exact .inl ⟨hbefore, if_pos hbefore⟩
  · by_cases hafter : t = 86400
    · exact .inr (.inl ⟨hafter, by rw [stamp, if_neg hbefore, if_pos hafter]⟩)
    · exact .inr (.inr (by rw [stamp, if_neg hbefore, if_neg hafter]))

theorem stamp_injective : Function.Injective stamp := by
  have hother {digits : Bytes} {n : Nat} (hdigits : digits.head? = some (chr '1')) : digits ≠ chr 's' :: decimalDigits n := by
    rintro rfl
    exact absurd (Option.some.inj hdigits) (by decide)
  intro t t' h
  rcases stamp_cases t with ⟨rfl, ht⟩ | ⟨rfl, ht⟩ | ht <;> rcases stamp_cases t' with ⟨rfl, ht'⟩ | ⟨rfl, ht'⟩ | ht'
  all_goals simp only [ht, ht'] at h
  · rfl
  · exact absurd h (by decide)
  · exact absurd h (hother rfl)
  · exact absurd h (by decide)
  · rfl
  · exact absurd h (hother rfl)
  · exact absurd h.symm (hother rfl)
  · exact absurd h.symm (hother rfl)
  · exact code_injective (decimalDigits_injective (List.cons.inj h).2)

theorem stamp_no_dot (t : Int) : chr '.' ∉ stamp t := by
  rcases stamp_cases t with ⟨_, ht⟩ | ⟨_, ht⟩ | ht
  all_goals rw [ht]
  · decide
  · decide
  · rw [List.mem_cons, not_or]
    exact ⟨by decide, notMem_decimalDigits (by decide) _⟩

/-- The constructor opens a file at a positive time only. -/
theorem exists_create (now : Int) :
    ∃ l₀ o₀, create stamp 7 (ascii "log") 5 3 1 now none = some (l₀, o₀) ∧
      (now ≤ 0 → l₀ = blank (ascii "log") 5 3 1) := by
  refine ⟨_, _, rfl, fun hnow => ?_⟩
  rcases roll_cases stamp 7 (blank (ascii "log") 5 3 1) now none with ⟨hlast, _⟩ | ⟨_, heq⟩
  · exact absurd hlast (Int.not_lt.mpr hnow)
  · exact congrArg Prod.fst heq

/-- A record at midnight still goes to the old file, which is then too large. -/
def midnight : Action := .append 86400 (ascii "line\n") [5] 86400 86400 none

theorem rolled_iff_midnight :
    ∃ l₀ o₀ obs l, create stamp 7 (ascii "log") 5 3 1 86399 none = some (l₀, o₀) ∧
      (machine stamp 7).Run l₀ [midnight] obs l ∧ Rolled 1 [86399, 86400, 86400, 86400] [midnight] (o₀ ++ obs) l := by
  obtain ⟨l₀, o₀, hcreate, _⟩ := exists_create 86399
  have hfull : ∀ a ∈ [midnight], a.WritesFully := List.forall_mem_singleton.mpr rfl
  obtain ⟨obs, l, hrun, hrolled, _⟩ := (rolled_iff stamp_injective stamp_no_dot (by decide) hcreate hfull).mpr
    (openedFirst_of_pos (by decide) [midnight])
  exact ⟨l₀, o₀, obs, l, hcreate, hrun, hrolled⟩

/-- At time zero the constructor opens no file, and there is none to append to. -/
theorem append_without_file :
    ∃ l₀ o₀, create stamp 7 (ascii "log") 5 3 1 0 none = some (l₀, o₀) ∧ l₀.file_ = none ∧
      l₀.step stamp 7 (.append 1 (ascii "line\n") [5] 1 1 none) = none ∧
      ¬ ∃ obs l, (machine stamp 7).Run l₀ [.append 1 (ascii "line\n") [5] 1 1 none] obs l := by
  obtain ⟨l₀, o₀, hcreate, hblank⟩ := exists_create 0
  obtain rfl := hblank (Int.le_refl 0)
  refine ⟨_, o₀, hcreate, rfl, rfl, ?_⟩
  intro hrun
  have hfull : ∀ a ∈ [Action.append 1 (ascii "line\n") [5] 1 1 none], a.WritesFully := List.forall_mem_singleton.mpr rfl
  have hopen := (exists_run_iff hcreate hfull).mp hrun
  obtain ⟨t, hmem, hpos⟩ := hopen [] _ (List.prefix_refl _) rfl
  obtain rfl := List.mem_singleton.mp hmem
  exact absurd hpos (by decide)

end Chtho.Logging.LogFile
