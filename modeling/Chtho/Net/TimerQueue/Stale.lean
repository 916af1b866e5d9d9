import Chtho.Net.TimerQueue.Cancel
import Chtho.Net.TimerQueue.Tick

/-! A cancel touches one timer at most.

A `TimerID` is an address and a number, and the address may be another timer's by now. Where
the timer it names is pending, it alone is deleted. Otherwise the cancel leaves at most a pair
in `cancelTimers_`, which `reset` compares with each timer of the batch it is at and the next
`handleRead` clears: if the timer named is not in the batch, two runs that differ in this pair
take the same steps (`Alike`), and if it is they do so until `reset` comes to the timer, and
differ in that timer only from then on (`Apart`). -/
namespace Chtho.Net.TimerQueue
open Lib

variable {s s' u v w : TimerQueue} {act : Action} {as : List (Action ⊕ Int)} {obs obs' o : List Event} {a : Addr}
  {n : Nat} {t : Timer} {y : ActiveTimer}

/-- All but the timer at `a` is as it was. -/
structure Others (a : Addr) (s u : TimerQueue) : Prop where
  heap : ∀ b ≠ a, u.heap b = s.heap b
  timers : ∀ x : Entry, x.timer ≠ a → (x ∈ u.timers.elems ↔ x ∈ s.timers.elems)
  active : ∀ x : ActiveTimer, x.timer ≠ a → (x ∈ u.activeTimers.elems ↔ x ∈ s.activeTimers.elems)
  cancelled : ∀ x : ActiveTimer, x.timer ≠ a → (x ∈ u.cancelTimers.elems ↔ x ∈ s.cancelTimers.elems)
  phase : u.phase = s.phase
  created : u.created = s.created
  numCreated : u.numCreated = s.numCreated

/-! ### One pair more -/

/-- The states may differ in whether `y` is in `cancelTimers_`. -/
structure Alike (y : ActiveTimer) (s u : TimerQueue) : Prop where
  same : u = {s with cancelTimers := u.cancelTimers}
  cancelled : ∀ x ≠ y, x ∈ u.cancelTimers.elems ↔ x ∈ s.cancelTimers.elems

theorem Alike.symm (h : Alike y s u) : Alike y u s := by
  refine ⟨?_, fun x hx => (h.cancelled x hx).symm⟩
  rw [h.same]

theorem Alike.others (h : Alike (activeTimer a n) s u) : Others a s u := by
  have hcancelled := h.cancelled
  rw [h.same] at hcancelled ⊢
  refine ⟨fun _ _ => rfl, fun _ _ => Iff.rfl, fun _ _ => Iff.rfl, fun x hx => ?_, rfl, rfl, rfl⟩
  exact hcancelled x fun heq => hx (by rw [heq]; rfl)

theorem Alike.enabled (h : Alike y s u) (he : s.Enabled act) : u.Enabled act := by
  rw [h.same]
  cases act <;> exact he

/-- `y` is not the timer `reset` is about to look at. -/
def Passed (y : ActiveTimer) (s : TimerQueue) : Prop :=
  ∀ now x rest t, s.phase = .resetting now (x :: rest) → s.heap x.timer = some t → activeTimer x.timer t.seq ≠ y

theorem Alike.step (h : Alike y s u) (hpassed : act = .resetTimer → Passed y s) (hm : Moved s act s' o) :
    ∃ u', Moved u act u' o ∧ Alike y s' u' := by
  obtain ⟨hsame, hcancelled⟩ := h
  generalize u.cancelTimers = cancel at hsame hcancelled
  subst hsame
  cases hm with
  | create b expir interval hnone hbound => exact ⟨_, .create b expir interval hnone hbound, rfl, hcancelled⟩
  | createElsewhere => exact ⟨_, .createElsewhere, rfl, hcancelled⟩
  | added b t now huse hb ht hearliest => exact ⟨_, .added b t now huse hb ht hearliest, rfl, hcancelled⟩
  | addedFirst b t now huse hb ht hearliest hnow =>
    exact ⟨_, .addedFirst b t now huse hb ht hearliest hnow, rfl, hcancelled⟩
  | cancelled b t huse hmem ht => exact ⟨_, .cancelled b t huse hmem ht, rfl, hcancelled⟩
  | deferred timerid huse hnot hcalling =>
    refine ⟨_, .deferred timerid huse hnot hcalling, rfl, fun x hx => ?_⟩
    rw [OrdSet.mem_insert, OrdSet.mem_insert, hcancelled x hx]
  | missed timerid huse hnot hcalling => exact ⟨_, .missed timerid huse hnot hcalling, rfl, hcancelled⟩
  | handleRead now active hphase hnow hagree =>
    exact ⟨_, .handleRead now active hphase hnow hagree, rfl, fun _ _ => Iff.rfl⟩
  | run now done todo x t hphase ht => exact ⟨_, .run now done todo x t hphase ht, rfl, hcancelled⟩
  | reset now done hphase => exact ⟨_, .reset now done hphase, rfl, hcancelled⟩
  | restarted now x rest t us hphase ht hus hnot =>
    have hx := hcancelled _ (hpassed rfl now x rest t hphase ht)
    exact ⟨_, .restarted now x rest t us hphase ht hus (mt hx.mp hnot), rfl, hcancelled⟩
  | dropped now x rest t hphase ht hwhy =>
    have hx := hcancelled _ (hpassed rfl now x rest t hphase ht)
    exact ⟨_, .dropped now x rest t hphase ht (hwhy.imp_right hx.mpr), rfl, hcancelled⟩
  | finished start now hphase hfirst => exact ⟨_, .finished start now hphase hfirst, rfl, hcancelled⟩
  | finishedArmed start now x hphase hfirst hpos hnow =>
    exact ⟨_, .finishedArmed start now x hphase hfirst hpos hnow, rfl, hcancelled⟩

theorem Alike.setClock (h : Alike y s u) (clock : Int) : Alike y {s with clock := clock} {u with clock := clock} := by
  refine ⟨?_, h.cancelled⟩
  rw [h.same]

/-! ### A pair that names no timer of the batch -/

def Foreign (y : ActiveTimer) (s : TimerQueue) : Prop :=
  ∀ x ∈ s.phase.held, ∀ t, s.heap x.timer = some t → activeTimer x.timer t.seq ≠ y

theorem Foreign.passed (h : Foreign y s) : Passed y s :=
  fun now x rest t hphase ht => h x (by simp [hphase, Phase.held]) t ht

theorem Foreign.of_sub (h : Foreign y s) (hheld : ∀ x ∈ s'.phase.held, x ∈ s.phase.held)
    (hheap : ∀ b ∈ s.owned, ∀ t, s'.heap b = some t → ∃ u, s.heap b = some u ∧ u.seq = t.seq) : Foreign y s' := by
  intro x hx t ht
  obtain ⟨u, hu, hseq⟩ := hheap _ (mem_owned_of_held (hheld x hx)) t ht
  rw [← hseq]
  exact h x (hheld x hx) u hu

/-- Only `handleRead` puts timers in the batch. -/
theorem Foreign.step (h : Foreign y s) (hinv : Inv s) (hm : Moved s act s' o) (hnot : ∀ now, act ≠ .handleRead now) :
    Foreign y s' := by
  have hsame : ∀ b ∈ s.owned, ∀ t, s.heap b = some t → ∃ u, s.heap b = some u ∧ u.seq = t.seq :=
    fun _ _ t ht => ⟨t, ht, rfl⟩
  cases hm with
  | create a expir interval hnone hbound =>
    refine h.of_sub (fun _ hx => hx) fun b hb t ht => ?_
    obtain ⟨u, hu⟩ := hinv.owns.deref hb
    exact ⟨t, (Heap.update_free hnone hu _).symm.trans ht, rfl⟩
  | createElsewhere => exact h.of_sub (fun _ hx => hx) hsame
  | added => exact h.of_sub (fun _ hx => hx) hsame
  | addedFirst => exact h.of_sub (fun _ hx => hx) hsame
  | cancelled => exact h.of_sub (fun _ hx => hx) fun _ _ _ => heap_freed
  | deferred => exact h.of_sub (fun _ hx => hx) hsame
  | missed => exact h
  | handleRead now => exact absurd rfl (hnot now)
  | run now done todo x t hphase => exact h.of_sub (by simp [hphase, Phase.held]) hsame
  | reset now done hphase => exact h.of_sub (by simp [hphase, Phase.held]) hsame
  | restarted now x rest t us hphase ht =>
    have hrest : ∀ z ∈ rest, z ∈ s.phase.held := fun z hz => by simp [hphase, Phase.held, hz]
    refine h.of_sub hrest fun b _ v hv => ?_
    rcases Heap.update_some hv with ⟨rfl, rfl⟩ | ⟨-, hv⟩
    · exact ⟨t, ht, rfl⟩
    · exact ⟨v, hv, rfl⟩
  | dropped now x rest t hphase =>
    have hrest : ∀ z ∈ rest, z ∈ s.phase.held := fun z hz => by simp [hphase, Phase.held, hz]
    exact h.of_sub hrest fun _ _ _ => heap_freed
  | finished => exact fun x hx => by cases hx
  | finishedArmed => exact fun x hx => by cases hx

/-- The states are the same to every later step. -/
def Blind (y : ActiveTimer) (s u : TimerQueue) : Prop := u = s ∨ Alike y s u ∧ Foreign y s

theorem Blind.same (h : Blind y s u) : u = {s with cancelTimers := u.cancelTimers} := by
  rcases h with rfl | ⟨halike, -⟩
  · rfl
  · exact halike.same

theorem Blind.symm (h : Blind y s u) : Blind y u s := by
  refine h.imp Eq.symm fun ⟨halike, hforeign⟩ => ⟨halike.symm, ?_⟩
  rw [halike.same]
  exact hforeign

theorem Blind.enabled (h : Blind y s u) (he : s.Enabled act) : u.Enabled act := by
  rcases h with rfl | ⟨halike, -⟩
  · exact he
  · exact halike.enabled he

theorem Blind.step (h : Blind y s u) (hinv : Inv s) (hm : Moved s act s' o) :
    ∃ u', Moved u act u' o ∧ Blind y s' u' := by
  rcases h with rfl | ⟨halike, hforeign⟩
  · exact ⟨s', hm, .inl rfl⟩
  by_cases hread : ∃ now, act = .handleRead now
  · -- `cancelTimers_` is cleared, and the states are equal from here on
    obtain ⟨now, rfl⟩ := hread
    rw [halike.same]
    cases hm with
    | handleRead _ active hphase hnow hagree => exact ⟨_, .handleRead now active hphase hnow hagree, .inl rfl⟩
  · obtain ⟨u', hm', halike'⟩ := halike.step (fun _ => hforeign.passed) hm
    exact ⟨u', hm', .inr ⟨halike', hforeign.step hinv hm fun now heq => hread ⟨now, heq⟩⟩⟩

theorem Blind.setClock (h : Blind y s u) (clock : Int) : Blind y {s with clock := clock} {u with clock := clock} := by
  rcases h with rfl | ⟨halike, hforeign⟩
  · exact .inl rfl
  · exact .inr ⟨halike.setClock clock, hforeign⟩

/-- Whatever happens next, the same is seen. -/
theorem Blind.run (h : Blind y s u) (hs : Inv s) (hu : Inv u) (hrun : adjusted.Run s as obs v) :
    ∃ w, adjusted.Run u as obs w ∧ Inv v ∧ Inv w ∧ Blind y v w := by
  induction hrun with
  | nil => exact ⟨u, .nil, hs, hu, h⟩
  | snoc _ he hstep ih =>
    obtain ⟨w, hw, hinvv, hinvw, hblind⟩ := ih
    rcases hinvv.adjusted_cases he hstep with ⟨b, rfl, hb, hm⟩ | ⟨c, rfl, rfl, rfl⟩
    · obtain ⟨w', hm', hblind'⟩ := hblind.step hinvv hm
      have hb' := hblind.enabled hb
      exact ⟨w', .snoc hw hb' (hinvw.step_eq hb' hm'), hinvv.step hm, hinvw.step hm', hblind'⟩
    · exact ⟨_, .snoc hw trivial rfl, hinvv.setClock c, hinvw.setClock c, hblind.setClock c⟩

/-- What can happen and be seen from `s` on can be from `u` on, and ends in a state that differs in
`cancelTimers_` at most. -/
def Follows (s u : TimerQueue) : Prop :=
  ∀ as obs v, adjusted.Run s as obs v → ∃ w, adjusted.Run u as obs w ∧ w = {v with cancelTimers := w.cancelTimers}

theorem Blind.follows (h : Blind y s u) (hs : Inv s) (hu : Inv u) : Follows s u := by
  intro as obs v hrun
  obtain ⟨w, hw, -, -, hblind⟩ := h.run hs hu hrun
  exact ⟨w, hw, hblind.same⟩

/-! ### A pair that names a timer of the batch -/

/-- `reset` has restarted the timer at `a` in one state, and deleted it in the other. -/
structure Apart (a : Addr) (s u : TimerQueue) : Prop extends Others a s u where
  clock : u.clock = s.clock
  resetting : ∃ now rest, s.phase = .resetting now rest
  held : ∀ x ∈ s.phase.held, x.timer ≠ a
  live : ∃ t, s.heap a = some t

theorem Others.update (h : Others a s u) (b : Addr) (x : Option Timer) :
    ∀ c ≠ a, Function.update u.heap b x c = Function.update s.heap b x c := by
  intro c hc
  rw [Function.update_apply, Function.update_apply, h.heap c hc]

theorem Others.finish (h : Others a s u) {u' : TimerQueue} {o' : List Event} {now : Int}
    (hm : Moved s (.finish now) s' o) (hm' : Moved u (.finish now) u' o') :
    Others a s' u' ∧ s'.phase = .outside ∧ runs o' = runs o := by
  obtain ⟨hheap, htimers, hactive, hcancelled, -, hcreated, hnum⟩ := h
  cases hm <;> cases hm' <;> exact ⟨⟨hheap, htimers, hactive, hcancelled, rfl, hcreated, hnum⟩, rfl, rfl⟩

theorem Apart.not_inUse (h : Apart a s u) : ¬ s.phase.inUse := by
  obtain ⟨now, rest, hphase⟩ := h.resetting
  rw [hphase]
  exact not_false

theorem Apart.enabled (h : Apart a s u) (hphase : s.phase ≠ .outside) (he : s.Enabled act) : u.Enabled act := by
  cases act with
  | create b expir interval =>
    obtain ⟨hpos, hbound, hnone⟩ := he
    have hba : b ≠ a := by
      rintro rfl
      obtain ⟨t, ht⟩ := h.live
      rw [hnone] at ht
      cases ht
    exact ⟨hpos, hbound, (h.heap b hba).trans hnone⟩
  | createElsewhere => trivial
  | addTimerInLoop => exact absurd he.1 h.not_inUse
  | rmTimerInLoop => exact absurd he h.not_inUse
  | handleRead => exact absurd (Phase.next_eq_handleRead he.1) hphase
  | run => exact (congrArg Phase.next h.phase).trans he
  | reset => exact (congrArg Phase.next h.phase).trans he
  | resetTimer => exact (congrArg Phase.next h.phase).trans he
  | finish now => exact ⟨(congrArg Phase.next h.phase).trans he.1, h.clock.trans_le he.2⟩

theorem Apart.step (h : Apart a s u) (hinv : Inv u) (he : u.Enabled act) (hm : Moved s act s' o) :
    ∃ u' o', Moved u act u' o' ∧ runs o' = runs o ∧ (Apart a s' u' ∨ s'.phase = .outside ∧ Others a s' u') := by
  have hothers := h.toOthers
  obtain ⟨now, rest, hresetting⟩ := h.resetting
  cases hm with
  | create b expir interval hnone hbound =>
    refine ⟨_, _, .create b expir interval he.2.2 hbound, rfl, .inl ⟨⟨?_, h.timers, h.active, h.cancelled, h.phase,
      by rw [h.created], by rw [h.numCreated]⟩, h.clock, h.resetting, h.held, ?_⟩⟩
    · rw [h.numCreated]
      exact hothers.update b _
    · obtain ⟨t, ht⟩ := h.live
      exact ⟨t, (Heap.update_free hnone ht _).trans ht⟩
  | createElsewhere =>
    exact ⟨_, _, .createElsewhere, rfl, .inl ⟨⟨h.heap, h.timers, h.active, h.cancelled, h.phase, h.created,
      by rw [h.numCreated]⟩, h.clock, h.resetting, h.held, h.live⟩⟩
  | added _ _ _ huse => exact absurd huse h.not_inUse
  | addedFirst _ _ _ huse => exact absurd huse h.not_inUse
  | cancelled _ _ huse => exact absurd huse h.not_inUse
  | deferred _ huse => exact absurd huse h.not_inUse
  | missed _ huse => exact absurd huse h.not_inUse
  | handleRead _ _ hphase =>
    rw [hresetting] at hphase
    cases hphase
  | run _ _ _ _ _ hphase =>
    rw [hresetting] at hphase
    cases hphase
  | reset _ _ hphase =>
    rw [hresetting] at hphase
    cases hphase
  | restarted start x rest t us hphase ht hus hnot =>
    have hx : x.timer ≠ a := h.held x (by simp [hphase, Phase.held])
    have hheld : ∀ z ∈ rest, z.timer ≠ a := fun z hz => h.held z (by simp [hphase, Phase.held, hz])
    refine ⟨_, _, .restarted start x rest t us (h.phase.trans hphase) ((h.heap _ hx).trans ht) hus
      (mt (h.cancelled (activeTimer x.timer t.seq) hx).mp hnot), rfl, .inl ⟨⟨hothers.update _ _, fun z hz => ?_,
      fun z hz => ?_, h.cancelled, rfl, h.created, h.numCreated⟩, h.clock, ⟨start, rest, rfl⟩, hheld, ?_⟩⟩
    · exact (OrdSet.mem_insert _).trans ((or_congr_right (h.timers z hz)).trans (OrdSet.mem_insert _).symm)
    · exact (OrdSet.mem_insert _).trans ((or_congr_right (h.active z hz)).trans (OrdSet.mem_insert _).symm)
    · obtain ⟨t', ht'⟩ := h.live
      exact ⟨t', (Function.update_of_ne hx.symm _ _).trans ht'⟩
  | dropped start x rest t hphase ht hwhy =>
    have hx : x.timer ≠ a := h.held x (by simp [hphase, Phase.held])
    have hheld : ∀ z ∈ rest, z.timer ≠ a := fun z hz => h.held z (by simp [hphase, Phase.held, hz])
    refine ⟨_, _, .dropped start x rest t (h.phase.trans hphase) ((h.heap _ hx).trans ht)
      (hwhy.imp_right (h.cancelled (activeTimer x.timer t.seq) hx).mpr), rfl, .inl ⟨⟨hothers.update _ _, h.timers,
      h.active, h.cancelled, rfl, h.created, h.numCreated⟩, h.clock, ⟨start, rest, rfl⟩, hheld, ?_⟩⟩
    obtain ⟨t', ht'⟩ := h.live
    exact ⟨t', (Function.update_of_ne hx.symm _ _).trans ht'⟩
  | finished start now hphase hfirst =>
    obtain ⟨u', o', -, hm'⟩ := hinv.moved he
    obtain ⟨hothers', hout, hruns⟩ := hothers.finish (.finished start now hphase hfirst) hm'
    exact ⟨u', o', hm', hruns, .inr ⟨hout, hothers'⟩⟩
  | finishedArmed start now x hphase hfirst hpos hnow =>
    obtain ⟨u', o', -, hm'⟩ := hinv.moved he
    obtain ⟨hothers', hout, hruns⟩ := hothers.finish (.finishedArmed start now x hphase hfirst hpos hnow) hm'
    exact ⟨u', o', hm', hruns, .inr ⟨hout, hothers'⟩⟩

/-- `reset` comes to the timer the pair names. -/
theorem Alike.resetTimer (h : Alike (activeTimer a n) s u) (hnoted : activeTimer a n ∈ u.cancelTimers.elems)
    (hinv : Inv s) (hpassed : ¬ Passed (activeTimer a n) s) (hm : Moved s .resetTimer s' o) :
    ∃ u' o', Moved u .resetTimer u' o' ∧ runs o' = runs o ∧
      (Alike (activeTimer a n) s' u' ∧ activeTimer a n ∈ u'.cancelTimers.elems ∨ Apart a s' u') := by
  have hothers := h.others
  obtain ⟨hsame, hcancelled⟩ := h
  generalize u.cancelTimers = cancel at hsame hcancelled hnoted
  subst hsame
  simp only [Passed, not_forall, not_not] at hpassed
  obtain ⟨now, x, rest, t, hphase, ht, heq⟩ := hpassed
  obtain ⟨rfl, rfl⟩ : x.timer = a ∧ t.seq = n := Prod.mk.inj (toLex.injective heq)
  have hdropped := Moved.dropped (s := {s with cancelTimers := cancel}) now x rest t hphase ht (.inr hnoted)
  refine ⟨_, _, hdropped, ?_⟩
  cases hm with
  | restarted now' x' rest' t' us hphase' ht' hus =>
    obtain ⟨rfl, rfl, rfl, rfl⟩ := resetting_unique hphase ht hphase' ht'
    have hfirst : ∀ z ∈ rest, z.timer ≠ x.timer := hinv.ne_first hphase
    refine ⟨rfl, .inr ⟨⟨fun b hb => ?_, fun z hz => ?_, fun z hz => ?_, hothers.cancelled, rfl, rfl, rfl⟩, rfl,
      ⟨now, rest, rfl⟩, hfirst, _, Function.update_self _ _ _⟩⟩
    · exact (Function.update_of_ne hb _ _).trans (Function.update_of_ne hb _ _).symm
    · refine ((OrdSet.mem_insert _).trans (or_iff_right fun heq => hz ?_)).symm
      rw [heq]
      rfl
    · refine ((OrdSet.mem_insert _).trans (or_iff_right fun heq => hz ?_)).symm
      rw [heq]
      rfl
  | dropped now' x' rest' t' hphase' ht' =>
    obtain ⟨rfl, rfl, rfl, rfl⟩ := resetting_unique hphase ht hphase' ht'
    exact ⟨rfl, .inl ⟨⟨rfl, hcancelled⟩, hnoted⟩⟩

/-- A pair stays in `cancelTimers_` until the next `handleRead`. -/
theorem Moved.noted (hm : Moved s act s' o) (hphase : s.phase ≠ .outside) (hy : y ∈ s.cancelTimers.elems) :
    y ∈ s'.cancelTimers.elems := by
  cases hm with
  | deferred => exact (OrdSet.mem_insert _).mpr (.inr hy)
  | handleRead _ _ houtside => exact absurd houtside hphase
  | _ => exact hy

/-- The states differ in the timer at `a` at most, up to the return of `handleRead`. -/
inductive Beside (a : Addr) (n : Nat) (s u : TimerQueue) : Prop where
  | noted : Alike (activeTimer a n) s u → activeTimer a n ∈ u.cancelTimers.elems → Beside a n s u
  | apart : Apart a s u → Beside a n s u
  | returned : s.phase = .outside → Others a s u → Beside a n s u

theorem Beside.others (h : Beside a n s u) : Others a s u := by
  cases h with
  | noted halike => exact halike.others
  | apart hapart => exact hapart.toOthers
  | returned _ hothers => exact hothers

theorem Beside.setClock (h : Beside a n s u) (hphase : s.phase ≠ .outside) (clock : Int) :
    Beside a n {s with clock := clock} {u with clock := clock} := by
  cases h with
  | noted halike hnoted => exact .noted (halike.setClock clock) hnoted
  | apart hapart =>
    obtain ⟨⟨hheap, htimers, hactive, hcancelled, hp, hcreated, hnum⟩, -, hresetting, hheld, hlive⟩ := hapart
    exact .apart ⟨⟨hheap, htimers, hactive, hcancelled, hp, hcreated, hnum⟩, rfl, hresetting, hheld, hlive⟩
  | returned houtside => exact absurd houtside hphase

theorem Beside.step (h : Beside a n s u) (hs : Inv s) (hu : Inv u) (hphase : s.phase ≠ .outside) (he : s.Enabled act)
    (hm : Moved s act s' o) :
    ∃ u' o', u.Enabled act ∧ Moved u act u' o' ∧ runs o' = runs o ∧ Beside a n s' u' := by
  cases h with
  | noted halike hnoted =>
    have he' := halike.enabled he
    have hphase' : u.phase ≠ .outside := by
      rw [halike.others.phase]
      exact hphase
    by_cases hturn : act = .resetTimer ∧ ¬ Passed (activeTimer a n) s
    · obtain ⟨rfl, hpassed⟩ := hturn
      obtain ⟨u', o', hm', hruns, hnext⟩ := halike.resetTimer hnoted hs hpassed hm
      exact ⟨u', o', he', hm', hruns, hnext.elim (fun h => .noted h.1 h.2) .apart⟩
    · obtain ⟨u', hm', halike'⟩ := halike.step (fun hact => not_not.mp fun hpassed => hturn ⟨hact, hpassed⟩) hm
      exact ⟨u', o, he', hm', rfl, .noted halike' (hm'.noted hphase' hnoted)⟩
  | apart hapart =>
    have he' := hapart.enabled hphase he
    obtain ⟨u', o', hm', hruns, hnext⟩ := hapart.step hu he' hm
    exact ⟨u', o', he', hm', hruns, hnext.elim .apart fun h => .returned h.1 h.2⟩
  | returned houtside => exact absurd houtside hphase

/-- Up to the return of `handleRead` the same callbacks run, and every other timer fares the same. -/
theorem Beside.run (h : Beside a n s u) (hs : Inv s) (hu : Inv u) (hrun : inside.Run s as obs v) :
    ∃ obs' w, inside.Run u as obs' w ∧ runs obs' = runs obs ∧ Inv v ∧ Inv w ∧ Beside a n v w := by
  induction hrun with
  | nil => exact ⟨[], u, .nil, rfl, hs, hu, h⟩
  | snoc _ he hstep ih =>
    obtain ⟨obs', w, hw, hruns, hinvv, hinvw, hbeside⟩ := ih
    have hphase : _ ≠ Phase.outside := he.2
    have hphase' : w.phase ≠ .outside := by
      rw [hbeside.others.phase]
      exact hphase
    rcases hinvv.adjusted_cases he.1 hstep with ⟨b, rfl, hb, hm⟩ | ⟨c, rfl, rfl, rfl⟩
    · obtain ⟨w', o', hb', hm', hruns', hbeside'⟩ := hbeside.step hinvv hinvw hphase hb hm
      refine ⟨_, w', .snoc hw ⟨hb', hphase'⟩ (hinvw.step_eq hb' hm'), ?_, hinvv.step hm, hinvw.step hm', hbeside'⟩
      rw [runs_append, runs_append, hruns, hruns']
    · refine ⟨_, _, .snoc hw ⟨trivial, hphase'⟩ rfl, ?_, hinvv.setClock c, hinvw.setClock c, hbeside.setClock hphase c⟩
      rw [List.append_nil, List.append_nil, hruns]

/-! ### The cancel -/

/-- The timer the id was given for is pending. -/
def IsPending (s : TimerQueue) (timerid : TimerID) : Prop := ∃ t, s.Pending timerid.timer t ∧ t.seq = timerid.seq

/-- It is in the batch. -/
def InBatch (s : TimerQueue) (timerid : TimerID) : Prop :=
  ∃ x ∈ s.phase.held, x.timer = timerid.timer ∧ ∃ t, s.heap timerid.timer = some t ∧ t.seq = timerid.seq

variable {timerid : TimerID}

theorem Inv.isPending_iff (h : Inv s) :
    s.IsPending timerid ↔ activeTimer timerid.timer timerid.seq ∈ s.activeTimers.elems := by
  constructor
  · rintro ⟨t, hp, hseq⟩
    rw [← hseq]
    exact hp.active
  · intro hmem
    obtain ⟨t, ht, hseq⟩ := h.agree.seq _ hmem
    exact ⟨t, h.pending (h.agree.mem_timers hmem ht) ht, hseq⟩

/-- A timer of the batch is not in the sets, and where a callback cancels it this is noted. -/
theorem Inv.inBatch_noted (h : Inv s) (hbatch : s.InBatch timerid) (huse : s.phase.inUse) :
    activeTimer timerid.timer timerid.seq ∉ s.activeTimers.elems ∧ s.callingExpiredTimers = true := by
  obtain ⟨x, hx, hxa, t, ht, -⟩ := hbatch
  constructor
  · intro hmem
    exact h.not_held (h.agree.mem_timers hmem ht) hx hxa.symm
  · obtain ⟨now, done, todo, hphase⟩ := Phase.inUse_held huse (List.ne_nil_of_mem hx)
    exact h.calling now done todo hphase

theorem others_removed : Others a s (s.removed a t) where
  heap := fun b hb => Function.update_of_ne hb _ _
  timers := fun x hx => (OrdSet.mem_erase _).trans (and_iff_right fun heq => hx (by rw [heq]; rfl))
  active := fun x hx => (OrdSet.mem_erase _).trans (and_iff_right fun heq => hx (by rw [heq]; rfl))
  cancelled := fun _ _ => Iff.rfl
  phase := rfl
  created := rfl
  numCreated := rfl

theorem alike_noted : Alike y s {s with cancelTimers := s.cancelTimers.insert y} :=
  ⟨rfl, fun _ hx => (OrdSet.mem_insert _).trans (or_iff_right hx)⟩

/-- A timer of the batch that is noted will not be pending again. -/
theorem Inv.cancelled_batch (h : Inv s) (hbatch : s.InBatch timerid) :
    Cancelled {s with cancelTimers := s.cancelTimers.insert (activeTimer timerid.timer timerid.seq)} timerid.seq := by
  obtain ⟨x, hx, hxa, t, ht, hseq⟩ := hbatch
  -- no other timer has the number
  have hhome : ∀ b v, s.heap b = some v → v.seq = timerid.seq → b = x.timer := by
    intro b v hv heq
    rw [hxa]
    exact h.owns.seq_inj _ _ v t hv ht (heq.trans hseq.symm)
  refine ⟨hseq ▸ h.owns.seq_le _ t ht, fun b hb v hv heq => ?_, fun z hz v hv heq => ?_, fun z hz v hv heq => ?_⟩
  · have hheld : b ∈ s.pending ++ s.phase.held.map Entry.timer :=
      List.mem_append_right _ (hhome b v hv heq ▸ List.mem_map_of_mem hx)
    exact (List.nodup_append.mp h.owns.nodup).2.2 b hb b hheld rfl
  · exact h.not_held hz hx (hhome _ v hv heq)
  · refine (OrdSet.mem_insert _).mpr (.inl ?_)
    rw [hhome _ v hv heq, hxa]

theorem Cancelled.run (h : Cancelled s n) (hinv : Inv s) (hrun : adjusted.Run s as obs v) :
    ∀ b t, v.Pending b t → t.seq ≠ n := by
  have hend := hrun.invariant (fun _ v => Inv v ∧ Cancelled v n) ⟨hinv, h⟩ fun _ v act v' o hv he hstep => ?_
  · exact fun b t hp => hend.2.pending _ hp.timers t hp.heap
  · rcases hv.1.adjusted_cases he hstep with ⟨b, -, -, hm⟩ | ⟨c, -, rfl, -⟩
    · exact ⟨hv.1.step hm, hv.2.step hv.1 hm⟩
    · exact ⟨hv.1.setClock c, hv.2.used, hv.2.created, hv.2.pending, hv.2.held⟩

/-- What a cancel did, by where the timer that its id was given for is. -/
structure Harmless (obs : List Event) (s : TimerQueue) (timerid : TimerID) (u : TimerQueue) (o : List Event) :
    Prop where
  pending : s.IsPending timerid → o = [.deleted timerid.seq] ∧ u.heap timerid.timer = none ∧
    (∀ x ∈ u.timers.elems, x.timer ≠ timerid.timer) ∧ (∀ x ∈ u.activeTimers.elems, x.timer ≠ timerid.timer) ∧
    Others timerid.timer s u
  /-- The timer will not be pending again; and to the end of the batch every other fares as it
  would without the cancel. -/
  batch : s.InBatch timerid → o = [] ∧
    (∀ as obs' v, adjusted.Run u as obs' v → ∀ b t, v.Pending b t → t.seq ≠ timerid.seq) ∧ Others timerid.timer s u ∧
    ∀ as obs' v, inside.Run s as obs' v →
      ∃ obs'' w, inside.Run u as obs'' w ∧ runs obs'' = runs obs' ∧ Others timerid.timer v w
  /-- With and without the cancel, the same happens from here on. -/
  stale : ¬ s.IsPending timerid → ¬ s.InBatch timerid →
    o = [] ∧ u = {s with cancelTimers := u.cancelTimers} ∧ Follows s u ∧ Follows u s
  deleted : .deleted timerid.seq ∈ obs → ¬ s.IsPending timerid ∧ ¬ s.InBatch timerid

/-- A pending timer is taken out and deleted. -/
theorem Inv.rm_pending (h : Inv s) (hpending : s.IsPending timerid) (hm : Moved s (.rmTimerInLoop timerid) u o) :
    o = [.deleted timerid.seq] ∧ u.heap timerid.timer = none ∧
      (∀ x ∈ u.timers.elems, x.timer ≠ timerid.timer) ∧ (∀ x ∈ u.activeTimers.elems, x.timer ≠ timerid.timer) ∧
      Others timerid.timer s u := by
  have hinv := h.step hm
  rw [h.isPending_iff] at hpending
  cases hm with
  | cancelled a t _ hmem ht =>
    have hnone : (s.removed a t).heap a = none := Function.update_self _ _ _
    refine ⟨rfl, hnone, fun x hx heq => ?_, fun x hx heq => ?_, others_removed⟩
    · obtain ⟨v, hv, -⟩ := hinv.agree.time x hx
      rw [heq, hnone] at hv
      cases hv
    · obtain ⟨v, hv, -⟩ := hinv.agree.seq x hx
      rw [heq, hnone] at hv
      cases hv
  | deferred _ _ hnot => exact absurd hpending hnot
  | missed _ _ hnot => exact absurd hpending hnot

/-- A timer of the batch is noted. -/
theorem Inv.rm_batch (h : Inv s) (hbatch : s.InBatch timerid) (huse : s.phase.inUse)
    (hm : Moved s (.rmTimerInLoop timerid) u o) :
    o = [] ∧ u = {s with cancelTimers := s.cancelTimers.insert (activeTimer timerid.timer timerid.seq)} := by
  obtain ⟨hnot, hcalling⟩ := h.inBatch_noted hbatch huse
  cases hm with
  | cancelled a t _ hmem ht => exact absurd hmem hnot
  | deferred => exact ⟨rfl, rfl⟩
  | missed _ _ _ hcalling' =>
    rw [hcalling] at hcalling'
    cases hcalling'

/-- What is neither pending nor in the batch may still be noted, and that is not seen. -/
theorem Inv.rm_stale (h : Inv s) (hpending : ¬ s.IsPending timerid) (hbatch : ¬ s.InBatch timerid)
    (hm : Moved s (.rmTimerInLoop timerid) u o) :
    o = [] ∧ Blind (activeTimer timerid.timer timerid.seq) s u := by
  have hforeign : Foreign (activeTimer timerid.timer timerid.seq) s := by
    intro x hx t ht heq
    obtain ⟨hxa, hseq⟩ := Prod.mk.inj (toLex.injective heq)
    exact hbatch ⟨x, hx, hxa, t, hxa ▸ ht, hseq⟩
  rw [h.isPending_iff] at hpending
  cases hm with
  | cancelled a t _ hmem ht => exact absurd hmem hpending
  | deferred => exact ⟨rfl, .inr ⟨alike_noted, hforeign⟩⟩
  | missed => exact ⟨rfl, .inl rfl⟩

/-- **A stale id is harmless.** A `TimerID` does nothing to any timer but the one it was given
for, whatever has become of that one and whatever its address is used for. -/
theorem rmTimerInLoop_harmless {calling : Bool} {numCreated : Nat} {clock : Int}
    (h : adjusted.Run (create calling numCreated clock) as obs s) (timerid : TimerID) (huse : s.phase.inUse) :
    ∃ u o, s.rmTimerInLoop timerid = some (u, o) ∧ Harmless obs s timerid u o := by
  obtain ⟨hinv, hrecord⟩ := reach_adjusted h
  obtain ⟨u, o, hu, hm⟩ := hinv.moved_rm timerid huse
  have hinvu := hinv.step hm
  refine ⟨u, o, hu, ?_⟩
  constructor
  case pending => exact fun hpending => hinv.rm_pending hpending hm
  case batch =>
    intro hbatch
    obtain ⟨rfl, rfl⟩ := hinv.rm_batch hbatch huse hm
    have halike : Alike (activeTimer timerid.timer timerid.seq) s _ := alike_noted
    refine ⟨rfl, fun _ _ _ hrun => (hinv.cancelled_batch hbatch).run hinvu hrun, halike.others,
      fun as obs' v hrun => ?_⟩
    have hbeside : Beside timerid.timer timerid.seq s _ := .noted halike ((OrdSet.mem_insert _).mpr (.inl rfl))
    obtain ⟨obs'', w, hw, hruns, -, -, hend⟩ := hbeside.run hinv hinvu hrun
    exact ⟨obs'', w, hw, hruns, hend.others⟩
  case stale =>
    intro hpending hbatch
    obtain ⟨rfl, hblind⟩ := hinv.rm_stale hpending hbatch hm
    exact ⟨rfl, hblind.same, hblind.follows hinv hinvu, hblind.symm.follows hinvu hinv⟩
  case deleted =>
    intro hdeleted
    have hdead := (hrecord.dead _ hdeleted).2
    constructor
    · rintro ⟨t, hp, hseq⟩
      exact hdead _ t hp.heap hseq
    · rintro ⟨x, -, -, t, ht, hseq⟩
      exact hdead _ t ht hseq

/-- A callback cancels a timer deleted long ago, whose address the timer it belongs to now has. -/
theorem rmTimerInLoop_harmless_reuse :
    ∃ obs s u o, adjusted.Run (create true 0 1000)
        [.inl (.create 16 2000 none), .inl (.addTimerInLoop 16 1000), .inl (.rmTimerInLoop ⟨16, 1⟩),
          .inl (.create 16 2000 (some 500)), .inl (.addTimerInLoop 16 1000), .inl (.handleRead 2000), .inl .run] obs s ∧
      (.deleted 1 ∈ obs ∧ .run 2 ∈ obs) ∧ s.rmTimerInLoop ⟨16, 1⟩ = some (u, o) ∧ Harmless obs s ⟨16, 1⟩ u o := by
  have hrun : ∃ obs s, adjusted.Run (create true 0 1000)
        [.inl (.create 16 2000 none), .inl (.addTimerInLoop 16 1000), .inl (.rmTimerInLoop ⟨16, 1⟩),
          .inl (.create 16 2000 (some 500)), .inl (.addTimerInLoop 16 1000), .inl (.handleRead 2000), .inl .run] obs s ∧
      ((.deleted 1 ∈ obs ∧ .run 2 ∈ obs) ∧ s.phase.inUse) := Machine.Run.exists_of_trace (by decide +kernel)
  obtain ⟨obs, s, hrun, hobs, huse⟩ := hrun
  obtain ⟨u, o, hu, hharmless⟩ := rmTimerInLoop_harmless hrun ⟨16, 1⟩ huse
  exact ⟨obs, s, u, o, hrun, hobs, hu, hharmless⟩

end Chtho.Net.TimerQueue
