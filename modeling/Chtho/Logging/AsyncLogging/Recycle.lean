import Chtho.Logging.AsyncLogging.Stream

/-! The back end never runs out of buffers.

It comes into a round with two empty buffers and hands over one, and the second if `nxtBuf_`
is gone. `nxtBuf_` is only taken to replace a `curBuf_` that goes to `bufs_`, so then the round
finds that one and the present `curBuf_`: two buffers for the two that are given away
(`Supplied.round`, `Supplied.busy`). Dropping and resizing leave two where there were two. -/
namespace Chtho.Logging.AsyncLogging
open Lib

/-- No place that a pointer is read from holds a null pointer. -/
structure Supplied (s : AsyncLogging) : Prop where
  cur : s.curBuf_.isSome
  nxt : s.nxtBuf_ = none → s.bufs_ ≠ []
  bufs_ : ∀ p ∈ s.bufs_, p.isSome
  /-- Outside of the writing, the back end has both its buffers. -/
  round : s.pc = .test ∨ s.InRound → s.buf1.isSome ∧ s.buf2.isSome ∧ s.bufs = []
  /-- While it writes, there is one written buffer for each that it gave away. -/
  busy : (s.pc = .swapped ∨ ∃ i, s.pc = .writing i) →
    s.bufs ≠ [] ∧ (∀ p ∈ s.bufs, p.isSome) ∧ (s.buf2 = none → 2 ≤ s.bufs.length)
  running : s.pc = .threadFunc → s.running_ = true

variable {s s' : AsyncLogging}

theorem supplied_create (data1 data2 : Nat → UInt8) : Supplied (create data1 data2) where
  cur := rfl
  nxt := by
    intro h
    cases h
  bufs_ := by
    intro p hp
    cases hp
  round := by
    rintro (h | h | h) <;> cases h
  busy := by
    rintro (h | ⟨i, h⟩) <;> cases h
  running := by
    intro h
    cases h

/-! ### The swap -/

theorem swap_of_nxt (h : s.nxtBuf_ ≠ none) : s.swap.nxtBuf_ = s.nxtBuf_ ∧ s.swap.buf2 = s.buf2 := by
  unfold swap
  dsimp only
  rw [if_neg (by simpa using h)]
  exact ⟨rfl, rfl⟩

theorem swap_of_none (h : s.nxtBuf_ = none) : s.swap.nxtBuf_ = s.buf2 ∧ s.swap.buf2 = none := by
  unfold swap
  dsimp only
  rw [if_pos (by simp [h])]
  exact ⟨rfl, rfl⟩

/-- `nxtBuf_` is there again, and `buf2` is gone only if two buffers are to be written. -/
theorem Supplied.swap (h : Supplied s) (hpc : s.InRound) : Supplied s.swap := by
  obtain ⟨hbuf1, hbuf2, hbufs⟩ := h.round (.inr hpc)
  have hspare : s.swap.nxtBuf_ ≠ none ∧ (s.swap.buf2 = none → 2 ≤ s.swap.bufs.length) := by
    by_cases hnxt : s.nxtBuf_ = none
    · obtain ⟨hnxt', hbuf2'⟩ := swap_of_none hnxt
      have hfull := List.length_pos_iff.mpr (h.nxt hnxt)
      refine ⟨hnxt' ▸ Option.isSome_iff_ne_none.mp hbuf2, fun _ => ?_⟩
      rw [swap_bufs, List.length_append, List.length_singleton]
      omega
    · obtain ⟨hnxt', hbuf2'⟩ := swap_of_nxt hnxt
      refine ⟨hnxt' ▸ hnxt, fun hnone => ?_⟩
      exact absurd (hbuf2'.symm.trans hnone) (Option.isSome_iff_ne_none.mp hbuf2)
  refine ⟨?_, fun hnone => absurd hnone hspare.1, ?_, ?_, fun _ => ⟨?_, ?_, hspare.2⟩, ?_⟩
  · rw [swap_curBuf]
    exact hbuf1
  · intro p hp
    rw [swap_bufs_, hbufs] at hp
    cases hp
  · rintro (hpc' | hpc' | hpc') <;> cases hpc'
  · rw [swap_bufs]
    simp
  · intro p hp
    rw [swap_bufs, List.mem_append, List.mem_singleton] at hp
    rcases hp with hp | rfl
    · exact h.bufs_ p hp
    · exact h.cur
  · intro hpc'
    cases hpc'

/-! ### The refill -/

/-- A buffer that was given away is replaced, if there is a written one. -/
theorem refillFrom_spec {buf : BufPtr} {bufs : List BufPtr} (hbufs : ∀ p ∈ bufs, p.isSome)
    (hgiven : buf = none → bufs ≠ []) :
    ∃ b rest, refillFrom buf bufs = some (some b, rest) ∧ (∀ p ∈ rest, p.isSome) ∧ bufs.length ≤ rest.length + 1 := by
  cases hbuf : buf with
  | some b => exact ⟨b, bufs, rfl, hbufs, Nat.le_succ _⟩
  | none =>
    have hne := hgiven hbuf
    have hlast : bufs.getLast? = some (bufs.getLast hne) := List.getLast?_eq_some_getLast hne
    obtain ⟨back, hback⟩ := Option.isSome_iff_exists.mp (hbufs _ (List.getLast_mem hne))
    refine ⟨back.reset, bufs.dropLast, ?_, fun p hp => hbufs p ((List.dropLast_sublist bufs).subset hp), ?_⟩
    · simp [refillFrom, hne, hlast, hback]
    · rw [List.length_dropLast]
      omega

/-- **The refill.** Both assertions hold, and both buffers are there again. -/
theorem Supplied.refill (h : Supplied s) {i : Nat} (hpc : s.pc = .writing i) :
    ∃ buf1 buf2,
      s.refill = some ({s with buf1 := some buf1, buf2 := some buf2, bufs := [], pc := .test}, [.flush]) := by
  obtain ⟨hne, hbufs, htwo⟩ := h.busy (.inr ⟨i, hpc⟩)
  -- what `resize` leaves
  obtain ⟨kept, hkept, hmem, hlength⟩ : ∃ kept, kept = (if s.bufs.length > 2 then s.bufs.take 2 else s.bufs) ∧
      (∀ p ∈ kept, p.isSome) ∧ kept.length = min 2 s.bufs.length := by
    refine ⟨_, rfl, ?_, ?_⟩
    · intro p hp
      split at hp
      · exact hbufs p (List.mem_of_mem_take hp)
      · exact hbufs p hp
    · split
      · exact List.length_take
      · omega
  have hpos := List.length_pos_iff.mpr hne
  have hfirst : s.buf1 = none → kept ≠ [] := fun _ => List.length_pos_iff.mp (by omega)
  obtain ⟨buf1, rest, hbuf1, hrest, hless⟩ := refillFrom_spec hmem hfirst
  have hsecond : s.buf2 = none → rest ≠ [] := fun hnone => List.length_pos_iff.mp (by have := htwo hnone; omega)
  obtain ⟨buf2, rest', hbuf2, _, _⟩ := refillFrom_spec hrest hsecond
  refine ⟨buf1, buf2, ?_⟩
  simp [AsyncLogging.refill, ← hkept, hbuf1, hbuf2]

/-! ### Every step -/

/-- The places that are not the back end's own are as before, and it is somewhere with the
same buffers. -/
theorem Supplied.of_same (h : Supplied s) (hcur : s'.curBuf_ = s.curBuf_) (hnxt : s'.nxtBuf_ = s.nxtBuf_)
    (hbufs_ : s'.bufs_ = s.bufs_)
    (hround : s'.pc = .test ∨ s'.InRound → s'.buf1.isSome ∧ s'.buf2.isSome ∧ s'.bufs = [])
    (hbusy : (s'.pc = .swapped ∨ ∃ i, s'.pc = .writing i) →
      s'.bufs ≠ [] ∧ (∀ p ∈ s'.bufs, p.isSome) ∧ (s'.buf2 = none → 2 ≤ s'.bufs.length))
    (hrunning : s'.pc = .threadFunc → s'.running_ = true) : Supplied s' where
  cur := hcur ▸ h.cur
  nxt := by rw [hnxt, hbufs_]; exact h.nxt
  bufs_ := by rw [hbufs_]; exact h.bufs_
  round := hround
  busy := hbusy
  running := hrunning

theorem Supplied.append (h : Supplied s) (hspare : Spare s) {line : Bytes} {data : Nat → UInt8}
    (hs : s.append line data = some s') : Supplied s' := by
  obtain ⟨cur, hcur, _, ⟨_, rfl⟩ | ⟨new, _, rfl⟩⟩ := append_cases hspare hs
  · exact ⟨rfl, h.nxt, h.bufs_, h.round, h.busy, h.running⟩
  · refine ⟨rfl, fun _ => by simp, ?_, h.round, h.busy, h.running⟩
    intro p hp
    rcases List.mem_append.mp hp with hp | hp
    · exact h.bufs_ p hp
    · obtain rfl := List.mem_singleton.mp hp
      rfl

theorem supplied_step (h : Supplied s) (hspare : Spare s) {a : Action} {o : List Event} (he : Enabled s a)
    (hs : step s a = some (s', o)) : Supplied s' := by
  cases a with
  | append line data =>
    simp only [step, Option.map_eq_some_iff, Prod.mk.injEq] at hs
    obtain ⟨_, hs, rfl, _⟩ := hs
    exact h.append hspare hs
  | start =>
    obtain ⟨rfl, rfl⟩ := Prod.mk.inj (Option.some.inj hs)
    refine h.of_same rfl rfl rfl ?_ ?_ fun _ => rfl
    · rintro (hpc | hpc | hpc) <;> cases hpc
    · rintro (hpc | ⟨i, hpc⟩) <;> cases hpc
  | threadFunc data1 data2 =>
    obtain ⟨rfl, rfl⟩ := threadFunc_cases hs
    refine h.of_same rfl rfl rfl (fun _ => ⟨rfl, rfl, rfl⟩) ?_ ?_
    · rintro (hpc | ⟨i, hpc⟩) <;> cases hpc
    · intro hpc
      cases hpc
  | test =>
    have hpc : s.pc = .test := he
    rcases test_cases (Option.some.inj hs) with ⟨_, rfl, _⟩ | ⟨_, rfl, _⟩
    all_goals
      refine h.of_same rfl rfl rfl (fun _ => h.round (.inl hpc)) ?_ ?_
      · rintro (hpc | ⟨i, hpc⟩) <;> cases hpc
      · intro hpc
        cases hpc
  | enter =>
    have hpc : s.pc = .enter := he
    simp only [step, Option.map_eq_some_iff, Prod.mk.injEq] at hs
    obtain ⟨_, hs, rfl, _⟩ := hs
    obtain ⟨_, ⟨_, rfl⟩ | rfl⟩ := enter_cases hs
    · refine h.of_same rfl rfl rfl (fun _ => h.round (.inr (.inl hpc))) ?_ ?_
      · rintro (hpc | ⟨i, hpc⟩) <;> cases hpc
      · intro hpc
        cases hpc
    · exact h.swap (.inl hpc)
  | wake =>
    obtain ⟨rfl, rfl⟩ := Prod.mk.inj (Option.some.inj hs)
    exact h.swap (.inr he)
  | drop now =>
    obtain ⟨hne, hbufs, htwo⟩ := h.busy (.inl he)
    rcases drop_cases hs with ⟨hmany, rfl, _⟩ | ⟨rfl, _⟩
    · refine h.of_same rfl rfl rfl ?_ (fun _ => ⟨?_, fun p hp => hbufs p (List.mem_of_mem_take hp), fun _ => ?_⟩) ?_
      · rintro (hpc | hpc | hpc) <;> cases hpc
      · simp [hne]
      · simp only [List.length_take]
        omega
      · intro hpc
        cases hpc
    · refine h.of_same rfl rfl rfl ?_ (fun _ => ⟨hne, hbufs, htwo⟩) ?_
      · rintro (hpc | hpc | hpc) <;> cases hpc
      · intro hpc
        cases hpc
  | write =>
    obtain ⟨i, _, hpc⟩ := he
    have hbusy := h.busy (.inr ⟨i, hpc⟩)
    simp only [step, hpc] at hs
    obtain ⟨_, _, rfl, _⟩ := write_cases hs
    refine h.of_same rfl rfl rfl ?_ (fun _ => hbusy) ?_
    · rintro (hpc | hpc | hpc) <;> cases hpc
    · intro hpc
      cases hpc
  | refill =>
    obtain ⟨buf1, buf2, hrefill⟩ := h.refill he
    obtain ⟨rfl, rfl⟩ := Prod.mk.inj (Option.some.inj (hs.symm.trans hrefill))
    refine h.of_same rfl rfl rfl (fun _ => ⟨rfl, rfl, rfl⟩) ?_ ?_
    · rintro (hpc | ⟨i, hpc⟩) <;> cases hpc
    · intro hpc
      cases hpc
  | stop =>
    obtain ⟨rfl, rfl⟩ := Prod.mk.inj (Option.some.inj hs)
    exact h.of_same rfl rfl rfl h.round h.busy fun hpc => absurd hpc he.2

/-- Nothing fails: no assertion, and no null pointer is read through. -/
theorem Supplied.step_isSome (h : Supplied s) (hspare : Spare s) {a : Action} (he : Enabled s a) :
    (step s a).isSome := by
  cases a with
  | append line data =>
    obtain ⟨cur, hcur⟩ := Option.isSome_iff_exists.mp h.cur
    simp only [step, AsyncLogging.append, hcur, Option.bind_eq_bind, Option.bind_some, Option.isSome_map]
    split
    · rfl
    · cases s.nxtBuf_ <;> rfl
  | start | test | wake | stop => rfl
  | threadFunc data1 data2 => simp [step, threadFunc, h.running he]
  | enter =>
    obtain ⟨hbuf1, hbuf2, hbufs⟩ := h.round (.inr (.inl he))
    obtain ⟨buf1, hb1⟩ := Option.isSome_iff_exists.mp hbuf1
    obtain ⟨buf2, hb2⟩ := Option.isSome_iff_exists.mp hbuf2
    have hempty1 : buf1.length = 0 := hspare.buf1 buf1 hb1
    have hempty2 : buf2.length = 0 := hspare.buf2 buf2 hb2
    simp only [step, AsyncLogging.enter, hb1, hb2, hbufs, assert_bind, Option.isSome_map]
    simp only [Option.any_some, hempty1, hempty2, decide_true, if_true, List.isEmpty_nil]
    split <;> rfl
  | drop now =>
    obtain ⟨hne, _⟩ := h.busy (.inl he)
    simp only [step, AsyncLogging.drop, assert_bind, List.isEmpty_eq_false_iff.mpr hne, if_true]
    split <;> rfl
  | write =>
    obtain ⟨i, hi, hpc⟩ := he
    obtain ⟨_, hbufs, _⟩ := h.busy (.inr ⟨i, hpc⟩)
    obtain ⟨buf, hbuf⟩ := Option.isSome_iff_exists.mp (hbufs _ (List.getElem_mem hi))
    simp [step, hpc, AsyncLogging.write, List.getElem?_eq_getElem hi, hbuf]
  | refill =>
    obtain ⟨buf1, buf2, hrefill⟩ := h.refill he
    rw [step, hrefill]
    rfl

/-! ### Runs -/

variable {data1 data2 : Nat → UInt8} {as : List Action} {obs : List Event}

theorem supplied_run (h : machine.Run (create data1 data2) as obs s) : Supplied s ∧ Spare s :=
  h.invariant (fun _ s => Supplied s ∧ Spare s) ⟨supplied_create data1 data2, spare_create data1 data2⟩
    fun _ _ _ _ _ hI he hs => ⟨supplied_step hI.1 hI.2 he hs, spare_step hI.2 he hs⟩

/-- What `append` makes of `curBuf_`: the same buffer with the line, or an empty one in its
place. -/
theorem append_curBuf (hspare : Spare s) {line : Bytes} {data : Nat → UInt8}
    (hs : s.append line data = some s') :
    (∃ cur, s.curBuf_ = some cur ∧ s'.curBuf_ = some (cur.append line) ∧ s'.bufs_ = s.bufs_) ∨
      ∃ new : FixedBuffer kLarge, new.length = 0 ∧ s'.curBuf_ = some (new.append line) ∧
        s'.bufs_ = s.bufs_ ++ [s.curBuf_] ∧ s'.nxtBuf_ = none := by
  obtain ⟨cur, hcur, _, ⟨_, rfl⟩ | ⟨new, hnew, rfl⟩⟩ := append_cases hspare hs
  · exact .inl ⟨cur, hcur, rfl, rfl⟩
  · exact .inr ⟨new, hnew, rfl, by rw [hcur], rfl⟩

/-- **The buffers suffice.** In every run: `curBuf_` is there, and `bufs_` is not empty if
`nxtBuf_` is not; a round starts with two empty buffers and none to write; no step fails, and
so neither does an assertion of the refill; and what becomes `curBuf_`, in `append` or in the
swap, is empty then. -/
theorem recycling (h : machine.Run (create data1 data2) as obs s) :
    s.curBuf_.isSome ∧ (s.nxtBuf_ = none → s.bufs_ ≠ []) ∧
      (s.pc = .enter → (∃ b, s.buf1 = some b ∧ b.length = 0) ∧ (∃ b, s.buf2 = some b ∧ b.length = 0) ∧ s.bufs = []) ∧
      (∀ a, Enabled s a → (step s a).isSome) ∧
      (∀ line data s', s.append line data = some s' →
        (∃ cur, s.curBuf_ = some cur ∧ s'.curBuf_ = some (cur.append line) ∧ s'.bufs_ = s.bufs_) ∨
          ∃ new : FixedBuffer kLarge, new.length = 0 ∧ s'.curBuf_ = some (new.append line) ∧
            s'.bufs_ = s.bufs_ ++ [s.curBuf_] ∧ s'.nxtBuf_ = none) ∧
      (s.InRound → ∃ new : FixedBuffer kLarge, new.length = 0 ∧ s.swap.curBuf_ = some new) := by
  obtain ⟨hsupplied, hspare⟩ := supplied_run h
  refine ⟨hsupplied.cur, hsupplied.nxt, fun hpc => ?_, fun a => hsupplied.step_isSome hspare,
    fun line data s' => append_curBuf hspare, fun hpc => ?_⟩
  · obtain ⟨hbuf1, hbuf2, hbufs⟩ := hsupplied.round (.inr (.inl hpc))
    obtain ⟨b1, hb1⟩ := Option.isSome_iff_exists.mp hbuf1
    obtain ⟨b2, hb2⟩ := Option.isSome_iff_exists.mp hbuf2
    exact ⟨⟨b1, hb1, hspare.buf1 b1 hb1⟩, ⟨b2, hb2, hspare.buf2 b2 hb2⟩, hbufs⟩
  · obtain ⟨b1, hb1⟩ := Option.isSome_iff_exists.mp (hsupplied.round (.inr hpc)).1
    exact ⟨b1, hspare.buf1 b1 hb1, (swap_curBuf s).trans hb1⟩

/-- A round is over, and the next one starts. -/
def nextRound : List Action :=
  [.append (ascii "ab") fun _ => 0, .start, .threadFunc (fun _ => 1) fun _ => 2, .test, .enter, .wake, .drop 0,
    .append (ascii "cd") fun _ => 0, .write, .refill, .test]

theorem recycling_nextRound :
    ∃ obs s, machine.Run (create (fun _ => 3) fun _ => 4) nextRound obs s ∧ s.pc = .enter ∧
      (∃ b, s.buf1 = some b ∧ b.length = 0) ∧ (∃ b, s.buf2 = some b ∧ b.length = 0) ∧ s.bufs = [] := by
  obtain ⟨obs, s, hrun, hpc⟩ : ∃ obs s, machine.Run (create (fun _ => 3) fun _ => 4) nextRound obs s ∧ s.pc = .enter :=
    Machine.Run.exists_of_trace (by decide +kernel)
  exact ⟨obs, s, hrun, hpc, (recycling hrun).2.2.1 hpc⟩

end Chtho.Logging.AsyncLogging
