import Chtho.Logging.AsyncLogging.Recycle

/-! What the log loses.

A line that no buffer has room for is lost when it is logged. A round that finds more than
25 buffers writes a notice and the two oldest of them. Nothing else is lost: every other
line is in one buffer, whole, the buffers are in order, and what is written of each round can be
told from the number of its buffers alone. -/
namespace Chtho.Logging.AsyncLogging
open Lib

/-! ### Rounds -/

/-- The buffers of a round, and when they were counted. -/
structure Round where
  now : Int
  texts : List Bytes

namespace Round

/-- More buffers than the back end is willing to write. -/
def Overfull (r : Round) : Prop := r.texts.length > 25

instance (r : Round) : Decidable r.Overfull := inferInstanceAs (Decidable (_ > _))

def notice (r : Round) : Bytes := dropMessage r.now r.texts.length

/-- What is written of a round. -/
def kept (r : Round) : List Bytes := if r.Overfull then r.notice :: r.texts.take 2 else r.texts

end Round

/-- What was passed to `fputs`. -/
def notices (obs : List Event) : List Bytes :=
  obs.filterMap fun
    | .fputs text => some text
    | _ => none

@[simp] theorem notices_append (a b : List Event) : notices (a ++ b) = notices a ++ notices b :=
  List.filterMap_append

/-- A line that an empty buffer has room for. -/
def Fits (line : Bytes) : Prop := line.length < kLarge

instance (line : Bytes) : Decidable (Fits line) := inferInstanceAs (Decidable (_ < _))

/-- The lines that may get into a buffer. -/
def fitting (obs : List Event) : List Bytes := (appended obs).filter fun line => decide (Fits line)

theorem fitting_append (a b : List Event) : fitting (a ++ b) = fitting a ++ fitting b := by
  rw [fitting, appended_append, List.filter_append]
  rfl

/-- The buffers of the back end that it has not counted. -/
def uncounted (s : AsyncLogging) : List Bytes := if s.pc = .swapped then s.heldTexts else []

/-- Those it has counted, and not written. -/
def unwritten (s : AsyncLogging) : List Bytes := if s.pc = .swapped then [] else s.heldTexts

/-- What became of the lines, by the rounds so far. -/
structure Accounted (rs : List Round) (obs : List Event) (s : AsyncLogging) : Prop where
  lines : Packed (fitting obs) (rs.flatMap Round.texts ++ s.uncounted ++ s.frontTexts)
  written : written obs ++ s.unwritten = rs.flatMap Round.kept
  sizes : rounds obs = rs.map fun r => r.texts.length
  notices : notices obs = (rs.filter fun r => decide r.Overfull).map Round.notice

variable {s s' : AsyncLogging} {rs : List Round} {obs o : List Event}

/-! ### Steps -/

/-- Nothing of it is seen, and no text moves. -/
theorem Accounted.quiet (h : Accounted rs obs s) (ho : o = [] ∨ o = [.flush]) (hu : s'.uncounted = s.uncounted)
    (hw : s'.unwritten = s.unwritten) (hfront : s'.frontTexts = s.frontTexts) : Accounted rs (obs ++ o) s' := by
  have hnone : fitting o = [] ∧ AsyncLogging.written o = [] ∧ rounds o = [] ∧ AsyncLogging.notices o = [] := by
    rcases ho with rfl | rfl <;> exact ⟨rfl, rfl, rfl, rfl⟩
  obtain ⟨hfitting, hwritten, hrounds, hnotices⟩ := hnone
  constructor
  case lines =>
    rw [fitting_append, hfitting, List.append_nil, hu, hfront]
    exact h.lines
  case written =>
    rw [written_append, hwritten, List.append_nil, hw]
    exact h.written
  case sizes =>
    rw [rounds_append, hrounds, List.append_nil]
    exact h.sizes
  case notices =>
    rw [notices_append, hnotices, List.append_nil]
    exact h.notices

/-- The back end goes from one place to another, and holds nothing at either. -/
theorem Accounted.elsewhere (h : Accounted rs obs s) (ho : o = [] ∨ o = [.flush]) (hheld : s.heldTexts = [])
    (hheld' : s'.heldTexts = []) (hfront : s'.frontTexts = s.frontTexts) : Accounted rs (obs ++ o) s' := by
  refine h.quiet ho ?_ ?_ hfront
  · rw [uncounted, uncounted, hheld, hheld', ite_self, ite_self]
  · rw [unwritten, unwritten, hheld, hheld', ite_self, ite_self]

/-- Where a line goes: to the last buffer, or to a new one behind it, if one has room. -/
theorem append_texts (h : Spare s) {line : Bytes} {data : Nat → UInt8} (hs : s.append line data = some s') :
    s'.pc = s.pc ∧ s'.heldTexts = s.heldTexts ∧ ∃ front last, s.frontTexts = front ++ [last] ∧
      (Fits line ∧ s'.frontTexts = front ++ [last ++ line] ∨
        s'.frontTexts = front ++ [last] ++ [if Fits line then line else []]) := by
  obtain ⟨cur, hcur, hfit, ⟨hroom, rfl⟩ | ⟨new, hnew, rfl⟩⟩ := append_cases h hs
  · have htext : (cur.append line).text = cur.text ++ line := FixedBuffer.text_append kLarge_lt hroom
    refine ⟨rfl, rfl, s.bufs_.map BufPtr.text, cur.text, ?_, .inl ⟨?_, ?_⟩⟩
    · rw [frontTexts, hcur]
      rfl
    · exact Nat.lt_of_le_of_lt (Nat.le_add_left ..) hroom
    · rw [← htext]
      rfl
  · have htext : (new.append line).text = if Fits line then line else [] := by
      by_cases hfits : Fits line
      · rw [if_pos hfits, FixedBuffer.text_append kLarge_lt (by rw [hnew, Nat.zero_add]; exact hfits),
          FixedBuffer.text_of_cur hnew, List.nil_append]
      · rw [if_neg hfits, FixedBuffer.append_eq kLarge_lt (by omega),
          if_neg (by rw [hnew, Nat.zero_add]; exact hfits), FixedBuffer.text_of_cur hnew]
    refine ⟨rfl, rfl, s.bufs_.map BufPtr.text, cur.text, ?_, .inr ?_⟩
    · rw [frontTexts, hcur]
      rfl
    · rw [frontTexts, List.map_append, ← htext]
      rfl

theorem Accounted.append (h : Accounted rs obs s) (hspare : Spare s) {line : Bytes} {data : Nat → UInt8}
    (hs : s.append line data = some s') : Accounted rs (obs ++ [.appended line]) s' := by
  obtain ⟨hpc, hheld, front, last, hbefore, hafter⟩ := append_texts hspare hs
  have hlines := h.lines
  rw [hbefore, ← List.append_assoc] at hlines
  constructor
  case lines =>
    rw [fitting_append, uncounted, hpc, hheld]
    by_cases hfits : Fits line
    · have hone : fitting [.appended line] = [line] := by simp [fitting, hfits]
      rw [hone]
      rcases hafter with ⟨_, hafter⟩ | hafter
      · rw [hafter, ← List.append_assoc]
        exact hlines.extend
      · rw [hafter, if_pos hfits, ← List.append_assoc, ← List.append_assoc]
        exact hlines.snoc
    · have hnone : fitting [.appended line] = [] := by simp [fitting, hfits]
      rcases hafter with ⟨habs, _⟩ | hafter
      · exact absurd habs hfits
      · rw [hnone, List.append_nil, hafter, if_neg hfits, ← List.append_assoc, ← List.append_assoc]
        exact hlines.snoc_nil
  case written =>
    rw [written_append, unwritten, hpc, hheld, written_line, List.append_nil]
    exact h.written
  case sizes => exact (rounds_append ..).trans ((List.append_nil _).trans h.sizes)
  case notices => exact (notices_append ..).trans ((List.append_nil _).trans h.notices)

/-- The swap hands over all there is. -/
theorem Accounted.swap (h : Accounted rs obs s) (hspare : Spare s) (hpc : s.InRound) (hbufs : s.bufs = []) :
    Accounted rs (obs ++ []) s.swap := by
  have hheld := heldTexts_of_inRound hpc
  have hheld' : s.swap.heldTexts = s.frontTexts := by
    rw [heldTexts, held, swap_pc, frontTexts, swap_bufs, List.map_append]
    rfl
  have hfront' : s.swap.frontTexts = [[]] := by
    rw [frontTexts, swap_bufs_, hbufs, swap_curBuf, BufPtr_text_of_empty hspare.buf1]
    rfl
  obtain ⟨hlines, hwritten, hsizes, hnotices⟩ := h
  rw [uncounted, hheld, ite_self, List.append_nil] at hlines
  rw [unwritten, hheld, ite_self, List.append_nil] at hwritten
  rw [List.append_nil]
  refine ⟨?_, ?_, hsizes, hnotices⟩
  · rw [uncounted, swap_pc, if_pos rfl, hheld', hfront']
    exact hlines.snoc_nil
  · rw [unwritten, swap_pc, if_pos rfl, List.append_nil]
    exact hwritten

theorem writing_ne_swapped (i : Nat) : Pc.writing i ≠ .swapped := nofun

/-- The buffers are counted, and a round is added. -/
theorem Accounted.counted (h : Accounted rs obs s) (hpc : s.pc = .swapped) {r : Round} (htexts : r.texts = s.heldTexts)
    (hpc' : s'.pc ≠ .swapped) (hfront : s'.frontTexts = s.frontTexts) (hfitting : fitting o = [])
    (hkept : AsyncLogging.written o ++ s'.heldTexts = r.kept) (hsize : rounds o = [r.texts.length])
    (hnotice : AsyncLogging.notices o = if r.Overfull then [r.notice] else []) : Accounted (rs ++ [r]) (obs ++ o) s' := by
  obtain ⟨hlines, hwritten, hsizes, hnotices⟩ := h
  rw [uncounted, if_pos hpc, ← htexts] at hlines
  rw [unwritten, if_pos hpc, List.append_nil] at hwritten
  constructor
  case lines =>
    rw [fitting_append, hfitting, List.append_nil, uncounted, if_neg hpc', List.append_nil, hfront, List.flatMap_append,
      List.flatMap_singleton]
    exact hlines
  case written =>
    rw [written_append, List.append_assoc, unwritten, if_neg hpc', hkept, hwritten, List.flatMap_append,
      List.flatMap_singleton]
  case sizes =>
    rw [rounds_append, hsize, hsizes, List.map_append]
    rfl
  case notices =>
    rw [notices_append, hnotice, hnotices, List.filter_append, List.map_append]
    by_cases hover : r.Overfull
    · rw [if_pos hover, List.filter_singleton, decide_eq_true hover]
      rfl
    · rw [if_neg hover, List.filter_singleton, decide_eq_false hover]
      rfl

/-- Whatever it makes of them, the back end says how many it found. -/
theorem rounds_drop {now : Int} (hs : s.drop now = some (s', o)) : rounds o = [s.bufs.length] := by
  obtain ⟨_, hs⟩ := assert_bind_eq_some_iff.mp hs
  dsimp only at hs
  split at hs
  all_goals
    obtain ⟨_, rfl⟩ := Prod.mk.inj (Option.some.inj hs)
    rfl

theorem Accounted.drop (h : Accounted rs obs s) (hpc : s.pc = .swapped) {now : Int}
    (hs : s.drop now = some (s', o)) : ∃ r, Accounted (rs ++ [r]) (obs ++ o) s' := by
  have hheld : s.heldTexts = s.bufs.map BufPtr.text := by rw [heldTexts, held, hpc]
  have hlength : s.heldTexts.length = s.bufs.length := by rw [hheld, List.length_map]
  have hsize : rounds o = [s.heldTexts.length] := by rw [rounds_drop hs, hlength]
  obtain ⟨_, hs⟩ := assert_bind_eq_some_iff.mp hs
  dsimp only at hs
  refine ⟨⟨now, s.heldTexts⟩, ?_⟩
  split at hs
  case isTrue hmany =>
    obtain ⟨rfl, rfl⟩ := Prod.mk.inj (Option.some.inj hs)
    have hover : (⟨now, s.heldTexts⟩ : Round).Overfull := hmany.trans_eq hlength.symm
    have hnotice : (⟨now, s.heldTexts⟩ : Round).notice = dropMessage now s.bufs.length := by rw [Round.notice, hlength]
    refine h.counted hpc rfl (writing_ne_swapped 0) rfl rfl ?_ hsize (by rw [if_pos hover, hnotice]; rfl)
    rw [Round.kept, if_pos hover, hnotice, hheld, ← List.map_take]
    rfl
  case isFalse hfew =>
    obtain ⟨rfl, rfl⟩ := Prod.mk.inj (Option.some.inj hs)
    have hover : ¬ (⟨now, s.heldTexts⟩ : Round).Overfull :=
      fun hover => hfew (Nat.lt_of_lt_of_eq hover hlength)
    refine h.counted hpc rfl (writing_ne_swapped 0) rfl rfl ?_ hsize (by rw [if_neg hover]; rfl)
    rw [Round.kept, if_neg hover, hheld]
    rfl

theorem Accounted.write (h : Accounted rs obs s) {i : Nat} (hi : i < s.bufs.length) (hpc : s.pc = .writing i)
    (hs : s.write i = some (s', o)) : Accounted rs (obs ++ o) s' := by
  obtain ⟨buf, hbuf, rfl, rfl⟩ := write_cases hs
  have hdrop : s.bufs.drop i = some buf :: s.bufs.drop (i + 1) := by
    rw [List.drop_eq_getElem_cons hi, (List.getElem?_eq_some_iff.mp hbuf).2]
  obtain ⟨hlines, hwritten, hsizes, hnotices⟩ := h
  have hplace : s.pc ≠ .swapped := hpc ▸ writing_ne_swapped i
  rw [uncounted, if_neg hplace] at hlines
  rw [unwritten, if_neg hplace, heldTexts, held, hpc] at hwritten
  dsimp only at hwritten
  rw [hdrop] at hwritten
  constructor
  case lines =>
    rw [fitting_append]
    exact (List.append_nil (fitting obs)).symm ▸ hlines
  case written =>
    rw [← hwritten, written_append, List.append_assoc]
    rfl
  case sizes => exact (rounds_append ..).trans ((List.append_nil _).trans hsizes)
  case notices => exact (notices_append ..).trans ((List.append_nil _).trans hnotices)

/-- A round is added when its buffers are counted, and never else. -/
theorem accounted_step (h : Accounted rs obs s) (hspare : Spare s) {a : Action} (he : Enabled s a)
    (hs : step s a = some (s', o)) : ∃ rs', Accounted rs' (obs ++ o) s' := by
  cases a with
  | append line data =>
    simp only [step, Option.map_eq_some_iff, Prod.mk.injEq] at hs
    obtain ⟨_, hs, rfl, rfl⟩ := hs
    exact ⟨rs, h.append hspare hs⟩
  | start =>
    have hpc : s.pc = .idle := he
    obtain ⟨rfl, rfl⟩ := Prod.mk.inj (Option.some.inj hs)
    exact ⟨rs, h.elsewhere (.inl rfl) (by rw [heldTexts, held, hpc]; rfl) rfl rfl⟩
  | threadFunc data1 data2 =>
    have hpc : s.pc = .threadFunc := he
    obtain ⟨rfl, rfl⟩ := threadFunc_cases hs
    exact ⟨rs, h.elsewhere (.inl rfl) (by rw [heldTexts, held, hpc]; rfl) rfl rfl⟩
  | test =>
    have hpc : s.pc = .test := he
    have hheld : s.heldTexts = [] := by rw [heldTexts, held, hpc]; rfl
    rcases test_cases (Option.some.inj hs) with ⟨_, rfl, rfl⟩ | ⟨_, rfl, rfl⟩
    · exact ⟨rs, h.elsewhere (.inl rfl) hheld rfl rfl⟩
    · exact ⟨rs, h.elsewhere (.inr rfl) hheld rfl rfl⟩
  | enter =>
    have hpc : s.pc = .enter := he
    simp only [step, Option.map_eq_some_iff, Prod.mk.injEq] at hs
    obtain ⟨_, hs, rfl, rfl⟩ := hs
    obtain ⟨hbufs, ⟨_, rfl⟩ | rfl⟩ := enter_cases hs
    · exact ⟨rs, h.elsewhere (.inl rfl) (heldTexts_of_inRound (.inl hpc)) rfl rfl⟩
    · exact ⟨rs, h.swap hspare (.inl hpc) hbufs⟩
  | wake =>
    obtain ⟨rfl, rfl⟩ := Prod.mk.inj (Option.some.inj hs)
    exact ⟨rs, h.swap hspare (.inr he) (hspare.bufs he)⟩
  | drop now =>
    obtain ⟨r, h'⟩ := h.drop he hs
    exact ⟨rs ++ [r], h'⟩
  | write =>
    obtain ⟨i, hi, hpc⟩ := he
    simp only [step, hpc] at hs
    exact ⟨rs, h.write hi hpc hs⟩
  | refill =>
    have hpc : s.pc = .writing s.bufs.length := he
    obtain ⟨buf1, buf2, bufs, rest, rest', _, _, rfl, rfl⟩ := refill_cases hs
    refine ⟨rs, h.elsewhere (.inr rfl) ?_ rfl rfl⟩
    rw [heldTexts, held, hpc]
    dsimp only
    rw [List.drop_length]
    rfl
  | stop =>
    obtain ⟨rfl, rfl⟩ := Prod.mk.inj (Option.some.inj hs)
    exact ⟨rs, h.quiet (.inl rfl) rfl rfl rfl⟩

/-! ### Runs -/

variable {as : List Action} {data1 data2 : Nat → UInt8}

theorem accounted_create (data1 data2 : Nat → UInt8) : Accounted [] [] (create data1 data2) :=
  ⟨Packed.nil.snoc_nil, rfl, rfl, rfl⟩

theorem accounted_run (h : machine.Run (create data1 data2) as obs s) : ∃ rs, Accounted rs obs s := by
  have hall : (∃ rs, Accounted rs obs s) ∧ Spare s := by
    refine h.invariant (fun obs s => (∃ rs, Accounted rs obs s) ∧ Spare s)
      ⟨⟨[], accounted_create data1 data2⟩, spare_create data1 data2⟩ ?_
    rintro obs s a s' o ⟨⟨rs, h⟩, hspare⟩ he hs
    exact ⟨accounted_step h hspare he hs, spare_step hspare he hs⟩
  exact hall.1

/-- **The log loses what it announces, and lines too long for a buffer.** In every run there are
rounds such that the lines that fit a buffer are in order in their buffers, in those not yet counted,
and in those that are being filled, each line in one; a round of at most 25 buffers is written as it is; a
larger one is written as its notice, which goes to `stderr` too, and its first two buffers. -/
theorem losses_accounted (h : machine.Run (create data1 data2) as obs s) :
    ∃ rs : List Round,
      Packed (fitting obs) (rs.flatMap Round.texts ++ s.uncounted ++ s.bufs_.map BufPtr.text ++ [s.curBuf_.text]) ∧
      written obs ++ s.unwritten = rs.flatMap Round.kept ∧
      rounds obs = rs.map (fun r => r.texts.length) ∧
      notices obs = (rs.filter fun r => decide r.Overfull).map Round.notice := by
  obtain ⟨rs, hlines, hwritten, hsizes, hnotices⟩ := accounted_run h
  rw [frontTexts, ← List.append_assoc] at hlines
  exact ⟨rs, hlines, hwritten, hsizes, hnotices⟩

/-- A line too long for a buffer: it is not logged, and the buffer before it is given up. -/
def tooLong : Bytes := List.replicate kLarge 0

theorem length_tooLong : tooLong.length = kLarge := List.length_replicate

/-- The front ends can fill any number of buffers while the back end does nothing. -/
theorem exists_filled (data1 data2 : Nat → UInt8) (n : Nat) :
    ∃ as obs s, machine.Run (create data1 data2) as obs s ∧ s.pc = .idle ∧ s.bufs_.length = n ∧ rounds obs = [] := by
  induction n with
  | zero => exact ⟨[], [], _, .nil, rfl, rfl, rfl⟩
  | succ n ih =>
    obtain ⟨as, obs, s, hrun, hpc, hlength, hrounds⟩ := ih
    obtain ⟨hsupplied, hspare⟩ := supplied_run hrun
    have he : Enabled s (.append tooLong fun _ => 0) := length_tooLong.trans_lt kLarge_lt
    obtain ⟨⟨s', o⟩, hs⟩ := Option.isSome_iff_exists.mp (hsupplied.step_isSome hspare he)
    have hnext := hrun.snoc (a := Action.append tooLong fun _ => 0) he hs
    simp only [step, Option.map_eq_some_iff, Prod.mk.injEq] at hs
    obtain ⟨_, hs, rfl, rfl⟩ := hs
    refine ⟨_, _, _, hnext, ?_, ?_, by rw [rounds_append, hrounds]; rfl⟩
    · exact (append_texts hspare hs).1.trans hpc
    · obtain ⟨cur, _, _, ⟨hroom, _⟩ | ⟨new, _, rfl⟩⟩ := append_cases hspare hs
      · rw [length_tooLong] at hroom
        omega
      · rw [List.length_append, hlength]
        rfl

/-- Twenty seven buffers are found at once. -/
theorem losses_accounted_overfull :
    ∃ as obs s, machine.Run (create (fun _ => 3) fun _ => 4) as obs s ∧ rounds obs = [27] ∧
      ∃ rs : List Round,
        Packed (fitting obs) (rs.flatMap Round.texts ++ s.uncounted ++ s.bufs_.map BufPtr.text ++ [s.curBuf_.text]) ∧
        written obs ++ s.unwritten = rs.flatMap Round.kept ∧
        rounds obs = rs.map (fun r => r.texts.length) ∧
        notices obs = (rs.filter fun r => decide r.Overfull).map Round.notice := by
  obtain ⟨as, obs, s, hrun, hpc, hlength, hrounds⟩ := exists_filled (fun _ => 3) (fun _ => 4) 26
  have hstart := hrun.snoc (a := Action.start) hpc rfl
  have hfunc := hstart.snoc (a := Action.threadFunc (fun _ => 1) fun _ => 2) rfl rfl
  have htest := hfunc.snoc (a := Action.test) rfl rfl
  -- there is something to write, so the back end does not wait
  obtain ⟨hsupplied, hspare⟩ := supplied_run htest
  obtain ⟨⟨s₁, o₁⟩, hs₁⟩ := Option.isSome_iff_exists.mp (hsupplied.step_isSome hspare (a := Action.enter) rfl)
  have henter := htest.snoc (a := Action.enter) rfl hs₁
  simp only [step, Option.map_eq_some_iff, Prod.mk.injEq] at hs₁
  obtain ⟨_, hs₁, rfl, rfl⟩ := hs₁
  obtain ⟨-, ⟨hempty, -⟩ | rfl⟩ := enter_cases hs₁
  · have hnone : s.bufs_.length = 0 := List.length_eq_zero_iff.mpr hempty
    omega
  obtain ⟨hsupplied, hspare⟩ := supplied_run henter
  obtain ⟨⟨s₂, o₂⟩, hs₂⟩ := Option.isSome_iff_exists.mp (hsupplied.step_isSome hspare (a := Action.drop 0) rfl)
  have hdrop := henter.snoc (a := Action.drop 0) rfl hs₂
  refine ⟨_, _, _, hdrop, ?_, losses_accounted hdrop⟩
  have hfound : rounds o₂ = [27] := by
    rw [rounds_drop hs₂, swap_bufs, List.length_append]
    exact congrArg (fun n => [n + 1]) hlength
  rw [rounds_append, hfound]
  simp [hrounds]

end Chtho.Logging.AsyncLogging
