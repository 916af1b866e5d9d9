import Chtho.Lib.Packed
import Chtho.Logging.AsyncLogging

/-! The log is the lines, in the order of the locks.

A line is in what was written, in a buffer that the back end holds and has not written,
in `bufs_` or in `curBuf_`. The buffers move in this order and in no other: a front end
adds at the back (`Moved.line`), the swap hands `bufs_` and `curBuf_` to the back end
(`Moved.swap`), which writes from the front (`Moved.write`). That a buffer is empty when it
becomes `curBuf_` is what makes the difference between a line and a line behind old ones:
`Spare` says so of every buffer that may. -/
namespace Chtho.Logging.AsyncLogging
open Lib

/-! ### What was seen -/

/-- The lines, in the order of the calls to `append`. -/
def appended (obs : List Event) : List Bytes :=
  obs.filterMap fun
    | .appended line => some line
    | _ => none

/-- What was passed to `LogFile::append`. -/
def written (obs : List Event) : List Bytes :=
  obs.filterMap fun
    | .write line => some line
    | _ => none

/-- The sizes of the rounds. -/
def rounds (obs : List Event) : List Nat :=
  obs.filterMap fun
    | .round size => some size
    | _ => none

@[simp] theorem appended_append (a b : List Event) : appended (a ++ b) = appended a ++ appended b :=
  List.filterMap_append

@[simp] theorem written_append (a b : List Event) : written (a ++ b) = written a ++ written b :=
  List.filterMap_append

@[simp] theorem rounds_append (a b : List Event) : rounds (a ++ b) = rounds a ++ rounds b :=
  List.filterMap_append

@[simp] theorem appended_nil : appended [] = [] := rfl
@[simp] theorem written_nil : written [] = [] := rfl
@[simp] theorem appended_line (line : Bytes) : appended [.appended line] = [line] := rfl
@[simp] theorem written_line (line : Bytes) : written [.appended line] = [] := rfl
@[simp] theorem appended_write (line : Bytes) : appended [.write line] = [] := rfl
@[simp] theorem written_write (line : Bytes) : written [.write line] = [line] := rfl
@[simp] theorem appended_round (n : Nat) : appended [.round n] = [] := rfl
@[simp] theorem written_round (n : Nat) : written [.round n] = [] := rfl
@[simp] theorem appended_flush : appended [.flush] = [] := rfl
@[simp] theorem written_flush : written [.flush] = [] := rfl

/-- Every line fits a buffer, and no round finds more than 25 buffers. -/
structure Moderate (obs : List Event) : Prop where
  line : ∀ line ∈ appended obs, line.length < kLarge
  round : ∀ size ∈ rounds obs, size ≤ 25

theorem moderate_append {a b : List Event} : Moderate (a ++ b) ↔ Moderate a ∧ Moderate b := by
  constructor
  · rintro ⟨hline, hround⟩
    simp only [appended_append, rounds_append, List.forall_mem_append] at hline hround
    exact ⟨⟨hline.1, hround.1⟩, ⟨hline.2, hround.2⟩⟩
  · rintro ⟨⟨hline, hround⟩, ⟨hline', hround'⟩⟩
    constructor <;> simp only [appended_append, rounds_append, List.forall_mem_append]
    · exact ⟨hline, hline'⟩
    · exact ⟨hround, hround'⟩

/-! ### What is still to be written -/

/-- The buffers that the back end has not written. -/
def held (s : AsyncLogging) : List BufPtr :=
  match s.pc with
  | .swapped => s.bufs
  | .writing i => s.bufs.drop i
  | _ => []

def heldTexts (s : AsyncLogging) : List Bytes := s.held.map BufPtr.text

/-- The texts of `bufs_` and of `curBuf_`. -/
def frontTexts (s : AsyncLogging) : List Bytes := s.bufs_.map BufPtr.text ++ [s.curBuf_.text]

/-- The back end is before a swap, with the test of `running_` behind it. -/
def InRound (s : AsyncLogging) : Prop := s.pc = .enter ∨ s.pc = .waiting

/-- No buffer is overfull, what may become `curBuf_` is empty, and what the back end is to
hand over in the swap holds nothing. -/
structure Spare (s : AsyncLogging) : Prop where
  cur : ∀ b ∈ s.curBuf_, b.cur ≤ kLarge
  nxt : ∀ b ∈ s.nxtBuf_, b.cur = 0
  buf1 : ∀ b ∈ s.buf1, b.cur = 0
  buf2 : ∀ b ∈ s.buf2, b.cur = 0
  bufs : s.pc = .waiting → s.bufs = []

/-- What a step does to the texts that are still to be written. -/
inductive Moved (s : AsyncLogging) : List Event → AsyncLogging → Prop where
  /-- A line goes to the last buffer, or to a new one behind it. -/
  | line {s' : AsyncLogging} {line : Bytes} (front : List Bytes) (last : Bytes)
      (held : s'.heldTexts = s.heldTexts) (before : s.frontTexts = front ++ [last])
      (after : s'.frontTexts = front ++ [last ++ line] ∨ s'.frontTexts = front ++ [last] ++ [line])
      (pc : s'.pc = s.pc) (running : s'.running_ = s.running_) :
      Moved s [.appended line] s'
  | swap {s' : AsyncLogging} (pc : s.InRound) (before : s.heldTexts = []) (held : s'.heldTexts = s.frontTexts)
      (front : s'.frontTexts = [[]]) (pc' : s'.pc = .swapped) (running : s'.running_ = s.running_) :
      Moved s [] s'
  | write {s' : AsyncLogging} {text : Bytes} (rest : List Bytes) (before : s.heldTexts = text :: rest)
      (held : s'.heldTexts = rest) (front : s'.frontTexts = s.frontTexts) (pc' : ∃ i, s'.pc = .writing i)
      (running : s'.running_ = s.running_) :
      Moved s [.write text] s'
  /-- Nothing moves, and the loop is entered only if `running_`. -/
  | quiet {s' : AsyncLogging} {o : List Event} (seen : appended o = [] ∧ written o = [])
      (held : s'.heldTexts = s.heldTexts) (front : s'.frontTexts = s.frontTexts)
      (pc : s.InRound → s'.InRound) (pc' : s'.InRound → s.InRound ∨ s.running_ = true)
      (started : s.pc ≠ .idle → s'.pc ≠ .idle ∧ (s'.running_ = true → s.running_ = true)) :
      Moved s o s'

/-! ### What the functions do -/

variable {s s' : AsyncLogging}

theorem kLarge_lt : kLarge < 2 ^ 31 := by decide

theorem BufPtr_text_of_empty {p : BufPtr} (h : ∀ b ∈ p, b.cur = 0) : p.text = [] := by
  cases p with
  | none => rfl
  | some b => exact FixedBuffer.text_of_cur (h b rfl)

/-- The line is added to `curBuf_`, if it has room, or to an empty buffer. -/
theorem append_cases (h : Spare s) {line : Bytes} {data : Nat → UInt8} (hs : s.append line data = some s') :
    ∃ cur, s.curBuf_ = some cur ∧ cur.cur ≤ kLarge ∧
      ((cur.cur + line.length < kLarge ∧ s' = {s with curBuf_ := some (cur.append line)}) ∨
        ∃ new : FixedBuffer kLarge, new.cur = 0 ∧
          s' = {s with bufs_ := s.bufs_ ++ [some cur], curBuf_ := some (new.append line), nxtBuf_ := none}) := by
  simp only [append, Option.bind_eq_bind, Option.bind_eq_some_iff] at hs
  obtain ⟨cur, hcur, hs⟩ := hs
  have hfit := h.cur cur hcur
  refine ⟨cur, hcur, hfit, ?_⟩
  split at hs
  case isTrue hroom =>
    rw [FixedBuffer.avail_eq kLarge_lt hfit] at hroom
    exact .inl ⟨by omega, (Option.some.inj hs).symm⟩
  case isFalse =>
    cases hnxt : s.nxtBuf_ with
    | some nxt =>
      simp only [hnxt] at hs
      exact .inr ⟨nxt, h.nxt nxt hnxt, (Option.some.inj hs).symm⟩
    | none =>
      simp only [hnxt] at hs
      exact .inr ⟨_, FixedBuffer.cur_create data, (Option.some.inj hs).symm⟩

@[simp] theorem swap_running (s : AsyncLogging) : s.swap.running_ = s.running_ := by
  unfold swap
  dsimp only
  split <;> rfl

@[simp] theorem swap_pc (s : AsyncLogging) : s.swap.pc = .swapped := rfl

@[simp] theorem swap_curBuf (s : AsyncLogging) : s.swap.curBuf_ = s.buf1 := by
  unfold swap
  dsimp only
  split <;> rfl

@[simp] theorem swap_bufs_ (s : AsyncLogging) : s.swap.bufs_ = s.bufs := by
  unfold swap
  dsimp only
  split <;> rfl

@[simp] theorem swap_bufs (s : AsyncLogging) : s.swap.bufs = s.bufs_ ++ [s.curBuf_] := by
  unfold swap
  dsimp only
  split <;> rfl

@[simp] theorem swap_buf1 (s : AsyncLogging) : s.swap.buf1 = none := by
  unfold swap
  dsimp only
  split <;> rfl

/-- `nxtBuf_` is what it was, or it is `buf2`. -/
theorem swap_nxtBuf (s : AsyncLogging) :
    s.swap.nxtBuf_ = s.nxtBuf_ ∧ s.swap.buf2 = s.buf2 ∨ s.swap.nxtBuf_ = s.buf2 ∧ s.swap.buf2 = none := by
  unfold swap
  dsimp only
  split
  · exact .inr ⟨rfl, rfl⟩
  · exact .inl ⟨rfl, rfl⟩

theorem threadFunc_cases {data1 data2 : Nat → UInt8} {o : List Event}
    (hs : step s (.threadFunc data1 data2) = some (s', o)) :
    s' = {s with
      buf1 := some (FixedBuffer.create kLarge data1).zero
      buf2 := some (FixedBuffer.create kLarge data2).zero
      bufs := []
      pc := .test} ∧ o = [] := by
  simp only [step, Option.map_eq_some_iff, Prod.mk.injEq] at hs
  obtain ⟨_, hs, rfl, rfl⟩ := hs
  obtain ⟨_, hs⟩ := assert_bind_eq_some_iff.mp hs
  exact ⟨(Option.some.inj hs).symm, rfl⟩

theorem enter_cases (hs : s.enter = some s') :
    s.bufs = [] ∧ (s.bufs_ = [] ∧ s' = {s with pc := .waiting} ∨ s' = s.swap) := by
  obtain ⟨_, hs⟩ := assert_bind_eq_some_iff.mp hs
  obtain ⟨_, hs⟩ := assert_bind_eq_some_iff.mp hs
  obtain ⟨hbufs, hs⟩ := assert_bind_eq_some_iff.mp hs
  refine ⟨List.isEmpty_iff.mp hbufs, ?_⟩
  split at hs
  case isTrue hempty => exact .inl ⟨List.isEmpty_iff.mp hempty, (Option.some.inj hs).symm⟩
  case isFalse => exact .inr (Option.some.inj hs).symm

theorem refillFrom_cur {buf p : BufPtr} {bufs rest : List BufPtr} (h : refillFrom buf bufs = some (p, rest))
    (hbuf : ∀ b ∈ buf, b.cur = 0) : ∀ b ∈ p, b.cur = 0 := by
  unfold refillFrom at h
  split at h
  case isTrue =>
    obtain ⟨_, h⟩ := assert_bind_eq_some_iff.mp h
    simp only [Option.bind_eq_bind, Option.bind_eq_some_iff, Option.some.injEq, Prod.mk.injEq] at h
    obtain ⟨back, _, rfl, _⟩ := h
    intro b hb
    cases hb
    rfl
  case isFalse =>
    obtain ⟨rfl, _⟩ := Prod.mk.inj (Option.some.inj h)
    exact hbuf

theorem refill_cases {o : List Event} (hs : s.refill = some (s', o)) :
    ∃ buf1 buf2 bufs rest rest', refillFrom s.buf1 bufs = some (buf1, rest) ∧
      refillFrom s.buf2 rest = some (buf2, rest') ∧
      s' = {s with buf1 := buf1, buf2 := buf2, bufs := [], pc := .test} ∧ o = [.flush] := by
  simp only [refill, Option.bind_eq_bind, Option.bind_eq_some_iff, Prod.exists, Option.some.injEq,
    Prod.mk.injEq] at hs
  obtain ⟨buf1, rest, hbuf1, buf2, rest', hbuf2, rfl, rfl⟩ := hs
  exact ⟨buf1, buf2, _, rest, rest', hbuf1, hbuf2, rfl, rfl⟩

/-- More than 25 buffers are cut down to two. -/
theorem drop_cases {now : Int} {o : List Event} (hs : s.drop now = some (s', o)) :
    25 < s.bufs.length ∧ s' = {s with bufs := s.bufs.take 2, pc := .writing 0} ∧ s.bufs.length ∈ rounds o ∨
      s' = {s with pc := .writing 0} ∧ o = [.round s.bufs.length] := by
  obtain ⟨_, hs⟩ := assert_bind_eq_some_iff.mp hs
  dsimp only at hs
  split at hs
  case isTrue hmany =>
    obtain ⟨rfl, rfl⟩ := Prod.mk.inj (Option.some.inj hs)
    exact .inl ⟨hmany, rfl, List.mem_cons_self ..⟩
  case isFalse =>
    obtain ⟨rfl, rfl⟩ := Prod.mk.inj (Option.some.inj hs)
    exact .inr ⟨rfl, rfl⟩

theorem write_cases {i : Nat} {o : List Event} (hs : s.write i = some (s', o)) :
    ∃ buf, s.bufs[i]? = some (some buf) ∧ s' = {s with pc := .writing (i + 1)} ∧ o = [.write buf.text] := by
  simp only [write, Option.bind_eq_bind, Option.bind_eq_some_iff, Option.some.injEq, Prod.mk.injEq] at hs
  obtain ⟨p, hp, buf, rfl, rfl, rfl⟩ := hs
  exact ⟨buf, hp, rfl, rfl⟩

theorem test_cases {o : List Event} (hs : s.test = (s', o)) :
    s.running_ = true ∧ s' = {s with pc := .enter} ∧ o = [] ∨
      s.running_ = false ∧ s' = {s with pc := .done} ∧ o = [.flush] := by
  unfold test at hs
  split at hs
  case isTrue hrun =>
    obtain ⟨rfl, rfl⟩ := Prod.mk.inj hs
    exact .inl ⟨hrun, rfl, rfl⟩
  case isFalse hrun =>
    obtain ⟨rfl, rfl⟩ := Prod.mk.inj hs
    exact .inr ⟨Bool.eq_false_iff.mpr hrun, rfl, rfl⟩

/-! ### The buffers -/

theorem spare_create (data1 data2 : Nat → UInt8) : Spare (create data1 data2) where
  cur := by
    intro b hb
    cases hb
    exact Nat.zero_le _
  nxt := by
    intro b hb
    cases hb
    rfl
  buf1 := by
    intro b hb
    cases hb
  buf2 := by
    intro b hb
    cases hb
  bufs := fun _ => rfl

/-- The buffers that are not to be written stay where they are. -/
theorem Spare.of_same (h : Spare s) (hcur : s'.curBuf_ = s.curBuf_) (hnxt : s'.nxtBuf_ = s.nxtBuf_)
    (hbuf1 : s'.buf1 = s.buf1) (hbuf2 : s'.buf2 = s.buf2) (hbufs : s'.pc = .waiting → s'.bufs = []) :
    Spare s' where
  cur := by rw [hcur]; exact h.cur
  nxt := by rw [hnxt]; exact h.nxt
  buf1 := by rw [hbuf1]; exact h.buf1
  buf2 := by rw [hbuf2]; exact h.buf2
  bufs := hbufs

theorem Spare.append (h : Spare s) {line : Bytes} {data : Nat → UInt8} (hs : s.append line data = some s') :
    Spare s' := by
  obtain ⟨cur, _, hfit, ⟨_, rfl⟩ | ⟨new, hnew, rfl⟩⟩ := append_cases h hs
  · refine ⟨fun b hb => ?_, h.nxt, h.buf1, h.buf2, h.bufs⟩
    cases hb
    exact FixedBuffer.cur_append_le kLarge_lt hfit line
  · refine ⟨fun b hb => ?_, (fun b hb => by cases hb), h.buf1, h.buf2, h.bufs⟩
    cases hb
    exact FixedBuffer.cur_append_le kLarge_lt (by omega) line

theorem Spare.swap (h : Spare s) : Spare s.swap where
  cur := by
    intro b hb
    rw [swap_curBuf] at hb
    rw [h.buf1 b hb]
    exact Nat.zero_le _
  nxt := by
    rcases swap_nxtBuf s with ⟨hnxt, _⟩ | ⟨hnxt, _⟩ <;> rw [hnxt]
    · exact h.nxt
    · exact h.buf2
  buf1 := by
    intro b hb
    rw [swap_buf1] at hb
    cases hb
  buf2 := by
    rcases swap_nxtBuf s with ⟨_, hbuf2⟩ | ⟨_, hbuf2⟩ <;> rw [hbuf2]
    · exact h.buf2
    · intro b hb
      cases hb
  bufs := by
    intro hpc
    cases hpc

theorem Spare.refill (h : Spare s) {o : List Event} (hs : s.refill = some (s', o)) : Spare s' := by
  obtain ⟨buf1, buf2, bufs, rest, rest', hbuf1, hbuf2, rfl, _⟩ := refill_cases hs
  exact ⟨h.cur, h.nxt, refillFrom_cur hbuf1 h.buf1, refillFrom_cur hbuf2 h.buf2, fun _ => rfl⟩

theorem spare_step (h : Spare s) {a : Action} {o : List Event} (he : Enabled s a)
    (hs : step s a = some (s', o)) : Spare s' := by
  cases a with
  | append line data =>
    simp only [step, Option.map_eq_some_iff, Prod.mk.injEq] at hs
    obtain ⟨_, hs, rfl, _⟩ := hs
    exact h.append hs
  | start =>
    obtain ⟨rfl, rfl⟩ := Prod.mk.inj (Option.some.inj hs)
    exact h.of_same rfl rfl rfl rfl fun hpc => by cases hpc
  | threadFunc data1 data2 =>
    obtain ⟨rfl, rfl⟩ := threadFunc_cases hs
    refine ⟨h.cur, h.nxt, fun b hb => ?_, fun b hb => ?_, fun _ => rfl⟩
    all_goals
      cases hb
      rfl
  | test =>
    rcases test_cases (Option.some.inj hs) with ⟨_, rfl, _⟩ | ⟨_, rfl, _⟩
    all_goals exact h.of_same rfl rfl rfl rfl fun hpc => by cases hpc
  | enter =>
    simp only [step, Option.map_eq_some_iff, Prod.mk.injEq] at hs
    obtain ⟨_, hs, rfl, _⟩ := hs
    obtain ⟨hbufs, ⟨_, rfl⟩ | rfl⟩ := enter_cases hs
    · exact h.of_same rfl rfl rfl rfl fun _ => hbufs
    · exact h.swap
  | wake =>
    obtain ⟨rfl, rfl⟩ := Prod.mk.inj (Option.some.inj hs)
    exact h.swap
  | drop now =>
    rcases drop_cases hs with ⟨_, rfl, _⟩ | ⟨rfl, _⟩
    all_goals exact h.of_same rfl rfl rfl rfl fun hpc => by cases hpc
  | write =>
    obtain ⟨i, _, hpc⟩ := he
    simp only [step, hpc] at hs
    obtain ⟨_, _, rfl, _⟩ := write_cases hs
    exact h.of_same rfl rfl rfl rfl fun hpc => by cases hpc
  | refill => exact h.refill hs
  | stop =>
    obtain ⟨rfl, rfl⟩ := Prod.mk.inj (Option.some.inj hs)
    exact h.of_same rfl rfl rfl rfl h.bufs

/-! ### The texts -/

theorem moved_append (h : Spare s) {line : Bytes} {data : Nat → UInt8} (hline : line.length < kLarge)
    (hs : s.append line data = some s') : Moved s [.appended line] s' := by
  obtain ⟨cur, hcur, hfit, ⟨hroom, rfl⟩ | ⟨new, hnew, rfl⟩⟩ := append_cases h hs
  · have htext : (cur.append line).text = cur.text ++ line := FixedBuffer.text_append kLarge_lt hroom
    refine .line (s.bufs_.map BufPtr.text) cur.text rfl ?_ (.inl ?_) rfl rfl
    · rw [frontTexts, hcur]
      rfl
    · rw [← htext]
      rfl
  · have htext : (new.append line).text = line := by
      rw [FixedBuffer.text_append kLarge_lt (by omega), FixedBuffer.text_of_cur hnew, List.nil_append]
    refine .line (s.bufs_.map BufPtr.text) cur.text rfl ?_ (.inr ?_) rfl rfl
    · rw [frontTexts, hcur]
      rfl
    · rw [frontTexts, List.map_append]
      exact congrArg (fun text => s.bufs_.map BufPtr.text ++ [cur.text] ++ [text]) htext

theorem moved_swap (h : Spare s) (hpc : s.InRound) (hbufs : s.bufs = []) : Moved s [] s.swap := by
  refine .swap hpc ?_ ?_ ?_ rfl (swap_running s)
  · rcases hpc with hpc | hpc <;> rw [heldTexts, held, hpc] <;> rfl
  · rw [heldTexts, held, swap_pc, frontTexts, swap_bufs, List.map_append]
    rfl
  · rw [frontTexts, swap_bufs_, hbufs, swap_curBuf, BufPtr_text_of_empty h.buf1]
    rfl

/-- Nothing is held but between a swap and the refill. -/
theorem heldTexts_eq_nil (h : s.pc ≠ .swapped) (h' : ∀ i, s.pc ≠ .writing i) : s.heldTexts = [] := by
  unfold heldTexts held
  split
  case h_1 hpc => exact absurd hpc h
  case h_2 i hpc => exact absurd hpc (h' i)
  case h_3 => rfl

theorem heldTexts_of_inRound (h : s.InRound) : s.heldTexts = [] := by
  rcases h with hpc | hpc <;> exact heldTexts_eq_nil (by rw [hpc]; nofun) (by rw [hpc]; nofun)

theorem not_inRound {p : Pc} (h : s.pc = p) (henter : p ≠ .enter) (hwaiting : p ≠ .waiting) : ¬ s.InRound := by
  subst h
  exact not_or.mpr ⟨henter, hwaiting⟩

/-- The back end goes from one place outside its rounds to another. -/
theorem moved_elsewhere {o : List Event} (seen : appended o = [] ∧ written o = []) (hheld : s'.heldTexts = s.heldTexts)
    (hfront : s'.frontTexts = s.frontTexts) (hpc : ¬ s.InRound) (hpc' : ¬ s'.InRound)
    (hstarted : s.pc ≠ .idle → s'.pc ≠ .idle ∧ (s'.running_ = true → s.running_ = true)) : Moved s o s' :=
  .quiet seen hheld hfront (fun hin => absurd hin hpc) (fun hin => absurd hin hpc') hstarted

/-- A step of a moderate run. -/
theorem moved_step (h : Spare s) {a : Action} {o : List Event} (hmod : Moderate o) (he : Enabled s a)
    (hs : step s a = some (s', o)) : Moved s o s' := by
  cases a with
  | append line data =>
    simp only [step, Option.map_eq_some_iff, Prod.mk.injEq] at hs
    obtain ⟨_, hs, rfl, rfl⟩ := hs
    exact moved_append h (hmod.line line (List.mem_cons_self ..)) hs
  | start =>
    have hpc : s.pc = .idle := he
    obtain ⟨rfl, rfl⟩ := Prod.mk.inj (Option.some.inj hs)
    refine moved_elsewhere ⟨rfl, rfl⟩ ?_ rfl (not_inRound hpc nofun nofun) (not_inRound rfl nofun nofun)
      fun hidle => absurd hpc hidle
    rw [heldTexts, heldTexts, held, held, hpc]
    rfl
  | threadFunc data1 data2 =>
    have hpc : s.pc = .threadFunc := he
    obtain ⟨rfl, rfl⟩ := threadFunc_cases hs
    refine moved_elsewhere ⟨rfl, rfl⟩ ?_ rfl (not_inRound hpc nofun nofun) (not_inRound rfl nofun nofun)
      fun _ => ⟨nofun, id⟩
    rw [heldTexts, heldTexts, held, held, hpc]
  | test =>
    have hpc : s.pc = .test := he
    rcases test_cases (Option.some.inj hs) with ⟨hrun, rfl, rfl⟩ | ⟨hrun, rfl, rfl⟩
    · refine .quiet ⟨rfl, rfl⟩ ?_ rfl (fun _ => .inl rfl) (fun _ => .inr hrun) fun _ => ⟨nofun, id⟩
      rw [heldTexts, heldTexts, held, held, hpc]
    · refine moved_elsewhere ⟨rfl, rfl⟩ ?_ rfl (not_inRound hpc nofun nofun) (not_inRound rfl nofun nofun)
        fun _ => ⟨nofun, id⟩
      rw [heldTexts, heldTexts, held, held, hpc]
  | enter =>
    have hpc : s.pc = .enter := he
    simp only [step, Option.map_eq_some_iff, Prod.mk.injEq] at hs
    obtain ⟨_, hs, rfl, rfl⟩ := hs
    obtain ⟨hbufs, ⟨_, rfl⟩ | rfl⟩ := enter_cases hs
    · refine .quiet ⟨rfl, rfl⟩ ?_ rfl (fun _ => .inr rfl) (fun _ => .inl (.inl hpc)) fun _ => ⟨nofun, id⟩
      rw [heldTexts, heldTexts, held, held, hpc]
    · exact moved_swap h (.inl hpc) hbufs
  | wake =>
    obtain ⟨rfl, rfl⟩ := Prod.mk.inj (Option.some.inj hs)
    exact moved_swap h (.inr he) (h.bufs he)
  | drop now =>
    have hpc : s.pc = .swapped := he
    rcases drop_cases hs with ⟨hmany, _, hmem⟩ | ⟨rfl, rfl⟩
    · exact absurd (hmod.round _ hmem) (Nat.not_le.mpr hmany)
    · refine moved_elsewhere ⟨rfl, rfl⟩ ?_ rfl (not_inRound hpc nofun nofun) (not_inRound rfl nofun nofun)
        fun _ => ⟨nofun, id⟩
      rw [heldTexts, heldTexts, held, held, hpc]
      rfl
  | write =>
    obtain ⟨i, hi, hpc⟩ := he
    simp only [step, hpc] at hs
    obtain ⟨buf, hbuf, rfl, rfl⟩ := write_cases hs
    have hdrop : s.bufs.drop i = some buf :: s.bufs.drop (i + 1) := by
      rw [List.drop_eq_getElem_cons hi, (List.getElem?_eq_some_iff.mp hbuf).2]
    refine .write ((s.bufs.drop (i + 1)).map BufPtr.text) ?_ rfl rfl ⟨i + 1, rfl⟩ rfl
    rw [heldTexts, held, hpc]
    dsimp only
    rw [hdrop]
    rfl
  | refill =>
    have hpc : s.pc = .writing s.bufs.length := he
    obtain ⟨buf1, buf2, bufs, rest, rest', _, _, rfl, rfl⟩ := refill_cases hs
    refine moved_elsewhere ⟨rfl, rfl⟩ ?_ rfl (not_inRound hpc nofun nofun) (not_inRound rfl nofun nofun)
      fun _ => ⟨nofun, id⟩
    rw [heldTexts, heldTexts, held, held, hpc]
    dsimp only
    rw [List.drop_length]
  | stop =>
    obtain ⟨rfl, rfl⟩ := Prod.mk.inj (Option.some.inj hs)
    exact .quiet ⟨rfl, rfl⟩ rfl rfl id .inl fun hidle => ⟨hidle, nofun⟩

/-! ### Runs -/

variable {obs o : List Event} {data1 data2 : Nat → UInt8} {as : List Action}

/-- The lines are packed into what is written, what is held, and what the front ends fill. -/
def Stream (obs : List Event) (s : AsyncLogging) : Prop :=
  Packed (appended obs) (written obs ++ s.heldTexts ++ s.frontTexts)

theorem stream_create (data1 data2 : Nat → UInt8) : Stream [] (create data1 data2) :=
  Packed.nil.snoc_nil

theorem Stream.moved (h : Stream obs s) (hm : Moved s o s') : Stream (obs ++ o) s' := by
  unfold Stream at h ⊢
  rw [appended_append, written_append]
  cases hm with
  | line front last held before after pc running =>
    rw [before, ← List.append_assoc] at h
    rw [appended_line, written_line, List.append_nil, held]
    rcases after with after | after <;> rw [after]
    · rw [← List.append_assoc]
      exact h.extend
    · rw [← List.append_assoc, ← List.append_assoc]
      exact h.snoc
  | swap pc before held front pc' running =>
    rw [before, List.append_nil] at h
    rw [appended_nil, written_nil, List.append_nil, List.append_nil, held, front]
    exact h.snoc_nil
  | write rest before held front pc' running =>
    rw [before] at h
    rw [appended_write, written_write, List.append_nil, held, front, List.append_assoc (written obs)]
    exact h
  | quiet seen held front pc pc' started =>
    rw [seen.1, seen.2, List.append_nil, List.append_nil, held, front]
    exact h

theorem spare_run (h : machine.Run (create data1 data2) as obs s) : Spare s :=
  h.invariant (fun _ => Spare) (spare_create data1 data2) fun _ _ _ _ _ hI he hs => spare_step hI he hs

theorem stream_run (h : machine.Run (create data1 data2) as obs s) (hmod : Moderate obs) : Stream obs s := by
  have hall : Spare s ∧ (Moderate obs → Stream obs s) := by
    refine h.invariant (fun obs s => Spare s ∧ (Moderate obs → Stream obs s)) ?_ ?_
    · exact ⟨spare_create data1 data2, fun _ => stream_create data1 data2⟩
    · intro obs s a s' o ⟨hspare, hstream⟩ he hs
      refine ⟨spare_step hspare he hs, fun hmod => ?_⟩
      obtain ⟨hobs, ho⟩ := moderate_append.mp hmod
      exact (hstream hobs).moved (moved_step hspare ho he hs)
  exact hall.2 hmod

/-- **The log is complete and in order.** If every line fits a buffer and no round finds
more than 25 buffers, then at every moment what was written, what the back end holds,
`bufs_` and `curBuf_` are the lines in the order of the calls; and each of these buffers
holds whole lines. -/
theorem stream_complete (h : machine.Run (create data1 data2) as obs s)
    (hline : ∀ line ∈ appended obs, line.length < kLarge) (hround : ∀ size ∈ rounds obs, size ≤ 25) :
    (written obs).flatten ++ s.heldTexts.flatten ++ (s.bufs_.map BufPtr.text).flatten ++ s.curBuf_.text =
        (appended obs).flatten ∧
      Packed (appended obs)
        (written obs ++ s.heldTexts ++ s.bufs_.map BufPtr.text ++ [s.curBuf_.text]) := by
  have hstream := stream_run h ⟨hline, hround⟩
  rw [Stream, frontTexts, ← List.append_assoc] at hstream
  refine ⟨?_, hstream⟩
  have hflat := hstream.flatten_eq
  simp only [List.flatten_append, List.flatten_singleton] at hflat
  exact hflat

/-- Two lines are logged while the back end holds a buffer with another. -/
def loggedMeanwhile : List Action :=
  [.append (ascii "ab") fun _ => 0, .start, .threadFunc (fun _ => 1) fun _ => 2, .test, .enter, .wake,
    .append (ascii "cd") fun _ => 0, .drop 0, .append (ascii "ef") fun _ => 0]

theorem stream_complete_loggedMeanwhile :
    ∃ obs s, machine.Run (create (fun _ => 3) fun _ => 4) loggedMeanwhile obs s ∧
      s.heldTexts = [ascii "ab"] ∧ s.curBuf_.text = ascii "cdef" ∧
      (written obs).flatten ++ s.heldTexts.flatten ++ (s.bufs_.map BufPtr.text).flatten ++ s.curBuf_.text =
        (appended obs).flatten ∧
      Packed (appended obs)
        (written obs ++ s.heldTexts ++ s.bufs_.map BufPtr.text ++ [s.curBuf_.text]) := by
  have hrun : ∃ obs s, machine.Run (create (fun _ => 3) fun _ => 4) loggedMeanwhile obs s ∧
      (∀ line ∈ appended obs, line.length < kLarge) ∧ (∀ size ∈ rounds obs, size ≤ 25) ∧
      s.heldTexts = [ascii "ab"] ∧ s.curBuf_.text = ascii "cdef" := Machine.Run.exists_of_trace (by decide +kernel)
  obtain ⟨obs, s, hrun, hline, hround, hheld, hcur⟩ := hrun
  exact ⟨obs, s, hrun, hheld, hcur, stream_complete hrun hline hround⟩

end Chtho.Logging.AsyncLogging
