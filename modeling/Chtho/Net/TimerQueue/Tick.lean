import Chtho.Net.TimerQueue.Places

/-! One call of `handleRead`: whose callbacks it runs, and what is left of the batch.

The timers due are those that come before the sentry, which is to say those whose time is not
after `now`, as every timer's address is below the sentry's. While their callbacks run they
are in neither set, so nothing the callbacks add or cancel changes the batch; `reset` then
goes through it once more. The proof follows the batch through the phases (`Stage`): first
how much of it has run, then what `reset` made of each timer (`Settled`).

The time of day may be set between any two steps: nothing here depends on the clock. -/
namespace Chtho.Net.TimerQueue
open Lib

variable {s s' u : TimerQueue} {act : Action} {as as' : List (Action ⊕ Int)} {obs obs' o : List Event} {a : Addr}
  {n : Nat} {t : Timer} {now : Int}

/-! ### A clock that may be set -/

/-- The queue in a system where the clock may be set at any time. -/
def adjusted : Machine TimerQueue (Action ⊕ Int) Event where
  enabled := fun s act => act.elim s.Enabled fun _ => True
  step := fun s act => act.elim s.step fun clock => some ({s with clock := clock}, [])

instance (s : TimerQueue) : (act : Action ⊕ Int) → Decidable (adjusted.enabled s act)
  | .inl act => inferInstanceAs (Decidable (s.Enabled act))
  | .inr _ => inferInstanceAs (Decidable True)

theorem Inv.setClock (h : Inv s) (clock : Int) : Inv {s with clock := clock} := ⟨h.owns, h.agree, h.calling⟩

theorem Record.setClock (h : Record obs s) (clock : Int) : Record obs {s with clock := clock} :=
  ⟨h.known, h.stays, h.once, h.dead, h.count⟩

/-- A step of the queue or of its clock. -/
theorem Inv.adjusted_cases {act : Action ⊕ Int} (h : Inv s) (he : adjusted.enabled s act)
    (hs : adjusted.step s act = some (s', o)) :
    (∃ b, act = .inl b ∧ s.Enabled b ∧ Moved s b s' o) ∨ ∃ c, act = .inr c ∧ s' = {s with clock := c} ∧ o = [] := by
  cases act with
  | inl b =>
    obtain ⟨u, o', hu, hm⟩ := h.moved he
    obtain ⟨rfl, rfl⟩ := Prod.mk.inj (Option.some.inj (hs.symm.trans hu))
    exact .inl ⟨b, rfl, he, hm⟩
  | inr c =>
    obtain ⟨rfl, rfl⟩ := Prod.mk.inj (Option.some.inj hs)
    exact .inr ⟨c, rfl, rfl, rfl⟩

theorem Inv.adjusted_safe {act : Action ⊕ Int} (h : Inv s) (he : adjusted.enabled s act) :
    (adjusted.step s act).isSome := by
  cases act with
  | inl b =>
    obtain ⟨u, o', hu, -⟩ := h.moved he
    show (s.step b).isSome
    rw [hu]
    rfl
  | inr c => rfl

theorem kept_adjusted {act : Action ⊕ Int} (h : Inv s ∧ Record obs s) (he : adjusted.enabled s act)
    (hs : adjusted.step s act = some (s', o)) : Inv s' ∧ Record (obs ++ o) s' := by
  rcases h.1.adjusted_cases he hs with ⟨b, -, -, hm⟩ | ⟨c, -, rfl, rfl⟩
  · exact ⟨h.1.step hm, h.2.step h.1 hm⟩
  · rw [List.append_nil]
    exact ⟨h.1.setClock c, h.2.setClock c⟩

theorem reach_adjusted {calling : Bool} {numCreated : Nat} {clock : Int}
    (h : adjusted.Run (create calling numCreated clock) as obs s) : Inv s ∧ Record obs s :=
  h.invariant (fun obs s => Inv s ∧ Record obs s) ⟨inv_create _ _ _, record_create _ _ _⟩
    fun _ _ _ _ _ hs he hstep => kept_adjusted hs he hstep

instance : (p : Phase) → Decidable (p = .outside)
  | .outside => isTrue rfl
  | .calling _ _ _ => isFalse (by simp)
  | .resetting _ _ => isFalse (by simp)

/-- The steps up to the return of `handleRead`. -/
def inside : Machine TimerQueue (Action ⊕ Int) Event := adjusted.restrict fun s _ => s.phase ≠ .outside

instance (s : TimerQueue) (act : Action ⊕ Int) : Decidable (inside.enabled s act) :=
  inferInstanceAs (Decidable (adjusted.enabled s act ∧ s.phase ≠ .outside))

/-! ### The timers due -/

/-- The timer is in both sets. -/
structure Pending (s : TimerQueue) (a : Addr) (t : Timer) : Prop where
  heap : s.heap a = some t
  timers : entry t.expir a ∈ s.timers.elems
  active : activeTimer a t.seq ∈ s.activeTimers.elems

theorem Inv.pending (h : Inv s) {x : Entry} (hx : x ∈ s.timers.elems) (ht : s.heap x.timer = some t) :
    Pending s x.timer t := by
  obtain ⟨u, hu, htime⟩ := h.agree.time x hx
  obtain rfl : t = u := Option.some.inj (ht.symm.trans hu)
  refine ⟨ht, ?_, h.agree.mem_active hx ht⟩
  rw [htime]
  exact hx

/-- The entry of a timer in `timers_`. -/
def key (x : Addr × Timer) : Entry := entry x.2.expir x.1

/-- The timers pending that expire no later than `now`, in the order of `timers_`. -/
def due (s : TimerQueue) (now : Int) : List (Addr × Timer) :=
  (s.timers.elems.filter (·.time ≤ now)).filterMap fun x => (s.heap x.timer).map (x.timer, ·)

theorem map_key (xs : List Entry) (h : ∀ x ∈ xs, ∃ t, s.heap x.timer = some t ∧ t.expir = x.time) :
    (xs.filterMap fun x => (s.heap x.timer).map (x.timer, ·)).map key = xs := by
  induction xs with
  | nil => rfl
  | cons x xs ih =>
    obtain ⟨t, ht, htime⟩ := h x List.mem_cons_self
    rw [List.filterMap_cons, ht, Option.map_some]
    show key (x.timer, t) :: _ = _
    rw [ih fun y hy => h y (List.mem_cons_of_mem x hy), key, htime, entry_eta]

theorem Inv.map_key_due (h : Inv s) (now : Int) : (s.due now).map key = s.timers.elems.filter (·.time ≤ now) :=
  map_key _ fun x hx => h.agree.time x (List.mem_of_mem_filter hx)

theorem lt_sentry {x : Entry} (hbound : x.timer < UINTPTR_MAX) : x < entry now UINTPTR_MAX ↔ x.time ≤ now := by
  refine Prod.Lex.lt_iff.trans ⟨fun h => h.elim le_of_lt fun heq => heq.1.le, fun h => ?_⟩
  rcases h.lt_or_eq with hlt | heq
  · exact .inl hlt
  · exact .inr ⟨heq, hbound⟩

/-- The cut at the sentry. -/
theorem Inv.before_eq (h : Inv s) (now : Int) : s.timers.before (entry now UINTPTR_MAX) = (s.due now).map key := by
  rw [h.map_key_due, s.timers.before_eq_filter]
  refine List.filter_congr fun x hx => ?_
  obtain ⟨t, ht, -⟩ := h.agree.time x hx
  exact decide_eq_decide.mpr (lt_sentry (h.owns.bounded _ t ht))

theorem Inv.mem_due (h : Inv s) : (a, t) ∈ s.due now ↔ s.Pending a t ∧ t.expir ≤ now := by
  unfold due
  rw [List.mem_filterMap]
  constructor
  · rintro ⟨x, hx, hmap⟩
    obtain ⟨hmem, htime⟩ := List.mem_filter.mp hx
    obtain ⟨v, hv, heq⟩ := Option.map_eq_some_iff.mp hmap
    obtain ⟨rfl, rfl⟩ := Prod.mk.inj heq
    obtain ⟨w, hw, hexpir⟩ := h.agree.time x hmem
    obtain rfl : v = w := Option.some.inj (hv.symm.trans hw)
    refine ⟨h.pending hmem hv, ?_⟩
    rw [hexpir]
    exact of_decide_eq_true htime
  · rintro ⟨hp, hle⟩
    exact ⟨entry t.expir a, List.mem_filter.mpr ⟨hp.timers, decide_eq_true hle⟩, by simp [hp.heap]⟩

theorem Inv.due_sorted (h : Inv s) (now : Int) : (s.due now).Pairwise fun x y => x.2.expir ≤ y.2.expir := by
  have hsorted : ((s.due now).map key).Pairwise (· < ·) := by
    rw [h.map_key_due]
    exact s.timers.sorted.sublist List.filter_sublist
  refine (List.pairwise_map.mp hsorted).imp fun {x y} hlt => ?_
  rcases Prod.Lex.lt_iff.mp hlt with hlt | heq
  · exact le_of_lt hlt
  · exact heq.1.le

theorem Inv.due_nodup (h : Inv s) (now : Int) : ((s.due now).map fun x => x.2.seq).Nodup := by
  have hkeys : ((s.due now).map key).Nodup := by
    rw [h.map_key_due]
    exact s.timers.nodup.filter _
  refine (List.Nodup.of_map _ hkeys).map_on fun x hx y hy heq => ?_
  have hx' := (h.mem_due.mp hx).1.heap
  have hy' := (h.mem_due.mp hy).1.heap
  have hsame : x.1 = y.1 := h.owns.seq_inj _ _ _ _ hx' hy' heq
  rw [hsame, hy'] at hx'
  exact Prod.ext hsame (Option.some.inj hx').symm

/-! ### The batch, phase by phase -/

/-- The timers whose callbacks have started. -/
def runs (obs : List Event) : List Nat :=
  obs.filterMap fun
    | .run n => some n
    | _ => none

theorem runs_append : runs (obs ++ o) = runs obs ++ runs o := List.filterMap_append

theorem mem_runs : n ∈ runs obs ↔ .run n ∈ obs := by
  unfold runs
  rw [List.mem_filterMap]
  constructor
  · rintro ⟨e, he, heq⟩
    cases e with
    | run m =>
      obtain rfl := Option.some.inj heq
      exact he
    | _ => cases heq
  · exact fun h => ⟨_, h, rfl⟩

theorem count_runs : (runs obs).count n = obs.count (.run n) := by
  induction obs with
  | nil => rfl
  | cons e obs ih =>
    rw [← List.singleton_append, runs_append, List.count_append, List.count_append, ih]
    cases e <;> simp [runs, List.count_singleton]

variable {batch ran past kept : List (Addr × Timer)}

/-- How far `handleRead` is: the timers that have run, those `reset` is done with, and the others. -/
inductive Stage (now : Int) (batch : List (Addr × Timer)) :
    Phase → List (Addr × Timer) → List (Addr × Timer) → List (Addr × Timer) → Prop where
  | calling (ran todo : List (Addr × Timer)) : ran ++ todo = batch →
      Stage now batch (.calling now (ran.map key) (todo.map key)) ran [] batch
  | resetting (past kept : List (Addr × Timer)) : past ++ kept = batch →
      Stage now batch (.resetting now (kept.map key)) batch past kept
  | outside : Stage now batch .outside batch batch []

theorem Stage.held {p : Phase} (h : Stage now batch p ran past kept) : p.held = kept.map key := by
  cases h with
  | calling _ _ hbatch => rw [Phase.held, ← List.map_append, hbatch]
  | resetting => rfl
  | outside => rfl

theorem Stage.of_calling {start : Int} {done todo : List Entry}
    (h : Stage now batch (.calling start done todo) ran past kept) :
    start = now ∧ done = ran.map key ∧ past = [] ∧ kept = batch ∧
      ∃ rest, todo = rest.map key ∧ ran ++ rest = batch := by
  generalize hp : Phase.calling start done todo = p at h
  cases h with
  | calling _ rest hbatch =>
    obtain ⟨rfl, rfl, rfl⟩ := Phase.calling.inj hp
    exact ⟨rfl, rfl, rfl, rfl, rest, rfl, hbatch⟩
  | resetting => cases hp
  | outside => cases hp

theorem Stage.of_resetting {start : Int} {rest : List Entry}
    (h : Stage now batch (.resetting start rest) ran past kept) :
    start = now ∧ rest = kept.map key ∧ ran = batch ∧ past ++ kept = batch := by
  generalize hp : Phase.resetting start rest = p at h
  cases h with
  | calling => cases hp
  | resetting _ _ hbatch =>
    obtain ⟨rfl, rfl⟩ := Phase.resetting.inj hp
    exact ⟨rfl, rfl, rfl, hbatch⟩
  | outside => cases hp

theorem Stage.of_outside (h : Stage now batch .outside ran past kept) : ran = batch ∧ past = batch := by
  cases h with
  | outside => exact ⟨rfl, rfl⟩

/-- What `reset` makes of a timer: it is deleted, or it is pending for its next time. -/
structure Settled (now : Int) (as : List (Action ⊕ Int)) (obs : List Event) (s : TimerQueue) (x : Addr × Timer) :
    Prop where
  oneShot : x.2.interval = none → .deleted x.2.seq ∈ obs
  repeating : ∀ us : Nat, x.2.interval = some us → .inl (.rmTimerInLoop ⟨x.1, x.2.seq⟩) ∉ as →
    s.Pending x.1 {x.2 with expir := now + us}

/-- Between the start of `handleRead` and its end. -/
structure Ticking (now : Int) (batch : List (Addr × Timer)) (as : List (Action ⊕ Int)) (obs : List Event)
    (s : TimerQueue) (ran past kept : List (Addr × Timer)) : Prop where
  stage : Stage now batch s.phase ran past kept
  runs : runs obs = ran.map fun x => x.2.seq
  kept : ∀ x ∈ kept, s.heap x.1 = some x.2
  past : ∀ x ∈ past, Settled now as obs s x
  cancelled : ∀ a n, activeTimer a n ∈ s.cancelTimers.elems → .inl (.rmTimerInLoop ⟨a, n⟩) ∈ as
  added : ∀ a n, .added a n ∈ obs → ∀ x ∈ batch, x.2.seq ≠ n

theorem Settled.step (h : Settled now as obs s (a, t)) (as' : List (Action ⊕ Int)) (o : List Event)
    (hpending : ∀ us : Nat, s.Pending a {t with expir := now + us} → s'.Pending a {t with expir := now + us}) :
    Settled now (as ++ as') (obs ++ o) s' (a, t) :=
  ⟨fun hnone => List.mem_append_left _ (h.oneShot hnone), fun us hus hnot =>
    hpending us (h.repeating us hus fun hmem => hnot (List.mem_append_left _ hmem))⟩

/-- A step within a phase, which takes no timer out of the sets while `reset` is at work. -/
theorem Ticking.within (h : Ticking now batch as obs s ran past kept) {act : Action ⊕ Int}
    (hphase : s'.phase = s.phase) (hruns : TimerQueue.runs o = [])
    (hkept : ∀ x ∈ kept, s'.heap x.1 = s.heap x.1)
    (hpast : ∀ x ∈ past, ∀ t, s.Pending x.1 t → s'.Pending x.1 t)
    (hcancelled : ∀ a n, activeTimer a n ∈ s'.cancelTimers.elems →
      activeTimer a n ∈ s.cancelTimers.elems ∨ act = .inl (.rmTimerInLoop ⟨a, n⟩))
    (hadded : ∀ a n, .added a n ∈ o → ∀ x ∈ batch, x.2.seq ≠ n) :
    Ticking now batch (as ++ [act]) (obs ++ o) s' ran past kept where
  stage := by
    rw [hphase]
    exact h.stage
  runs := by rw [runs_append, hruns, List.append_nil, h.runs]
  kept := fun x hx => (hkept x hx).trans (h.kept x hx)
  past := fun x hx => (h.past x hx).step _ _ fun us => hpast x hx _
  cancelled := fun a n hmem => by
    rcases hcancelled a n hmem with hmem | rfl
    · exact List.mem_append_left _ (h.cancelled a n hmem)
    · exact List.mem_append_right _ List.mem_cons_self
  added := fun a n hmem => (List.mem_append.mp hmem).elim (h.added a n) (hadded a n)

theorem Ticking.cancelled_before (h : Ticking now batch as obs s ran past kept)
    (hcancel : s'.cancelTimers = s.cancelTimers) (act : Action ⊕ Int) :
    ∀ a n, activeTimer a n ∈ s'.cancelTimers.elems → .inl (.rmTimerInLoop ⟨a, n⟩) ∈ as ++ [act] := by
  rw [hcancel]
  exact fun a n hmem => List.mem_append_left _ (h.cancelled a n hmem)

theorem Ticking.added_before (h : Ticking now batch as obs s ran past kept) (hadded : ∀ a n, .added a n ∉ o) :
    ∀ a n, .added a n ∈ obs ++ o → ∀ x ∈ batch, x.2.seq ≠ n :=
  fun a n hmem => h.added a n ((List.mem_append.mp hmem).resolve_right (hadded a n))

theorem Pending.frame (h : s.Pending a t) (hheap : s'.heap a = s.heap a)
    (htimers : ∀ x ∈ s.timers.elems, x ∈ s'.timers.elems)
    (hactive : ∀ x ∈ s.activeTimers.elems, x ∈ s'.activeTimers.elems) : s'.Pending a t :=
  ⟨hheap.trans h.heap, htimers _ h.timers, hactive _ h.active⟩

/-- A timer of the batch that is still held is not one that something else owns. -/
theorem Ticking.ne_of_pending (h : Ticking now batch as obs s ran past kept) (hinv : Inv s) {x : Addr × Timer}
    (hx : x ∈ kept) {y : Entry} (hy : y ∈ s.timers.elems) : x.1 ≠ y.timer := by
  have hheld : key x ∈ s.phase.held := by
    rw [h.stage.held]
    exact List.mem_map_of_mem hx
  exact (hinv.not_held hy hheld).symm

theorem Ticking.ne_of_created (h : Ticking now batch as obs s ran past kept) (hinv : Inv s) {x : Addr × Timer}
    (hx : x ∈ kept) (ha : a ∈ s.created) : x.1 ≠ a := by
  have hheld : x.1 ∈ s.phase.held.map Entry.timer := by
    rw [h.stage.held, List.map_map]
    exact List.mem_map_of_mem (f := Entry.timer ∘ key) hx
  exact ((List.nodup_append.mp hinv.owns.nodup).2.2 a ha _ (List.mem_append_right _ hheld)).symm

/-- Code that uses the queue runs only in callbacks, when all of the batch is held. -/
theorem Ticking.of_inUse (h : Ticking now batch as obs s ran past kept) (hphase : s.phase ≠ .outside)
    (huse : s.phase.inUse) : past = [] ∧ kept = batch := by
  obtain ⟨hstage, -, -, -, -, -⟩ := h
  generalize s.phase = p at hstage hphase huse
  cases hstage with
  | calling => exact ⟨rfl, rfl⟩
  | resetting => exact huse.elim
  | outside => exact absurd rfl hphase

/-- A timer added while a callback runs is not of the batch. -/
theorem Ticking.not_added (h : Ticking now batch as obs s ran past kept) (hinv : Inv s) (hphase : s.phase ≠ .outside)
    (huse : s.phase.inUse) (ha : a ∈ s.created) (ht : s.heap a = some t) : ∀ x ∈ batch, x.2.seq ≠ t.seq := by
  intro x hx hseq
  have hkept : x ∈ kept := (h.of_inUse hphase huse).2 ▸ hx
  exact h.ne_of_created hinv hkept ha (hinv.owns.seq_inj _ _ _ _ (h.kept x hkept) ht hseq)

/-- The next callback starts. -/
theorem Ticking.run (h : Ticking now batch as obs s ran past kept) {start : Int} {done todo : List Entry} {x : Entry}
    (hphase : s.phase = .calling start done (x :: todo)) (ht : s.heap x.timer = some t) (act : Action ⊕ Int) :
    ∃ y, Ticking now batch (as ++ [act]) (obs ++ [.run t.seq]) {s with phase := .calling start (done ++ [x]) todo}
      (ran ++ [y]) past kept := by
  have hstage := h.stage
  rw [hphase] at hstage
  obtain ⟨rfl, rfl, rfl, rfl, rest, hrest, hbatch⟩ := hstage.of_calling
  obtain ⟨y, rest, rfl, rfl, rfl⟩ := List.map_eq_cons_iff.mp hrest.symm
  have hy : s.heap y.1 = some y.2 := h.kept y (by simp [← hbatch])
  obtain rfl : t = y.2 := Option.some.inj (ht.symm.trans hy)
  refine ⟨y, ?_⟩
  constructor
  case stage =>
    have hnext : Stage start _ (.calling start ((ran ++ [y]).map key) (rest.map key)) (ran ++ [y]) [] _ :=
      .calling _ _ (by simpa using hbatch)
    rwa [List.map_append] at hnext
  case runs =>
    rw [runs_append, h.runs, List.map_append]
    rfl
  case kept => exact h.kept
  case past => simp
  case cancelled => exact h.cancelled_before rfl _
  case added => exact h.added_before (by simp)

/-- The callbacks have all returned. -/
theorem Ticking.reset (h : Ticking now batch as obs s ran past kept) {start : Int} {done : List Entry}
    (hphase : s.phase = .calling start done []) (act : Action ⊕ Int) :
    Ticking now batch (as ++ [act]) (obs ++ [.batchDone])
      {s with callingExpiredTimers := false, phase := .resetting start done} batch [] batch := by
  have hstage := h.stage
  rw [hphase] at hstage
  obtain ⟨rfl, rfl, rfl, rfl, rest, hrest, hbatch⟩ := hstage.of_calling
  obtain rfl := List.map_eq_nil_iff.mp hrest.symm
  obtain rfl : ran = kept := by simpa using hbatch
  constructor
  case stage => exact .resetting [] ran rfl
  case runs =>
    rw [runs_append, h.runs]
    exact List.append_nil _
  case kept => exact h.kept
  case past => simp
  case cancelled => exact h.cancelled_before rfl _
  case added => exact h.added_before (by simp)

theorem Ticking.exists_held (h : Ticking now batch as obs s ran past kept) {start : Int} {x : Entry}
    {rest : List Entry} (hphase : s.phase = .resetting start (x :: rest)) : ∃ y ys, kept = y :: ys ∧ x = key y := by
  have hstage := h.stage
  rw [hphase] at hstage
  obtain ⟨-, hrest, -, -⟩ := hstage.of_resetting
  obtain ⟨y, ys, hkept, hy, -⟩ := List.map_eq_cons_iff.mp hrest.symm
  exact ⟨y, ys, hkept, hy.symm⟩

theorem Ticking.start_eq (h : Ticking now batch as obs s ran past kept) {start : Int} {rest : List Entry}
    (hphase : s.phase = .resetting start rest) : start = now := by
  have hstage := h.stage
  rw [hphase] at hstage
  exact hstage.of_resetting.1

/-- `reset` is done with a timer, and has touched no other. -/
theorem Ticking.resetTimer {y : Addr × Timer} (h : Ticking now batch as obs s ran past (y :: kept)) (hinv : Inv s)
    {start : Int} {rest : List Entry} (hphase : s.phase = .resetting start (key y :: rest)) {act : Action ⊕ Int}
    (hphase' : s'.phase = .resetting start rest) (hruns : TimerQueue.runs o = []) (hadded : ∀ a n, .added a n ∉ o)
    (hheap : ∀ b ≠ y.1, s'.heap b = s.heap b) (htimers : ∀ x ∈ s.timers.elems, x ∈ s'.timers.elems)
    (hactive : ∀ x ∈ s.activeTimers.elems, x ∈ s'.activeTimers.elems) (hcancel : s'.cancelTimers = s.cancelTimers)
    (hsettled : Settled now (as ++ [act]) (obs ++ o) s' y) :
    Ticking now batch (as ++ [act]) (obs ++ o) s' ran (past ++ [y]) kept := by
  have hstage := h.stage
  rw [hphase] at hstage
  obtain ⟨rfl, hrest, rfl, hbatch⟩ := hstage.of_resetting
  obtain rfl := (List.cons.inj hrest).2
  have hfirst : ∀ x ∈ kept, x.1 ≠ y.1 := fun x hx => hinv.ne_first hphase (key x) (List.mem_map_of_mem hx)
  constructor
  case stage =>
    rw [hphase']
    exact .resetting _ _ (by simpa using hbatch)
  case runs => rw [runs_append, hruns, List.append_nil, h.runs]
  case kept => exact fun x hx => (hheap _ (hfirst x hx)).trans (h.kept x (List.mem_cons_of_mem _ hx))
  case past =>
    intro x hx
    rcases List.mem_append.mp hx with hx | hx
    · refine (h.past x hx).step _ _ fun us hp => hp.frame (hheap _ ?_) htimers hactive
      exact (h.ne_of_pending hinv List.mem_cons_self hp.timers).symm
    · rwa [List.mem_singleton.mp hx]
  case cancelled => exact h.cancelled_before hcancel _
  case added => exact h.added_before hadded

/-- `handleRead` returns. -/
theorem Ticking.finish (h : Ticking now batch as obs s ran past kept) {start : Int}
    (hphase : s.phase = .resetting start []) {act : Action ⊕ Int} (hphase' : s'.phase = .outside)
    (hruns : TimerQueue.runs o = []) (hadded : ∀ a n, .added a n ∉ o) (hheap : s'.heap = s.heap)
    (htimers : s'.timers = s.timers) (hactive : s'.activeTimers = s.activeTimers)
    (hcancel : s'.cancelTimers = s.cancelTimers) :
    Ticking now batch (as ++ [act]) (obs ++ o) s' batch batch [] := by
  have hstage := h.stage
  rw [hphase] at hstage
  obtain ⟨rfl, hrest, rfl, hbatch⟩ := hstage.of_resetting
  obtain rfl := List.map_eq_nil_iff.mp hrest.symm
  obtain rfl : past = ran := by simpa using hbatch
  constructor
  case stage =>
    rw [hphase']
    exact .outside
  case runs => rw [runs_append, hruns, List.append_nil, h.runs]
  case kept => simp
  case past =>
    refine fun x hx => (h.past x hx).step _ _ fun us hp => hp.frame (by rw [hheap]) ?_ ?_
    · rw [htimers]
      exact fun _ hmem => hmem
    · rw [hactive]
      exact fun _ hmem => hmem
  case cancelled => exact h.cancelled_before hcancel _
  case added => exact h.added_before hadded

/-- A step that leaves the timers there are as they were. -/
theorem Ticking.unmoved (h : Ticking now batch as obs s ran past kept) {act : Action ⊕ Int}
    (hphase : s'.phase = s.phase) (hheap : ∀ b v, s.heap b = some v → s'.heap b = some v)
    (htimers : s'.timers = s.timers) (hactive : s'.activeTimers = s.activeTimers)
    (hcancelled : ∀ a n, activeTimer a n ∈ s'.cancelTimers.elems →
      activeTimer a n ∈ s.cancelTimers.elems ∨ act = .inl (.rmTimerInLoop ⟨a, n⟩)) :
    Ticking now batch (as ++ [act]) (obs ++ []) s' ran past kept := by
  refine h.within hphase rfl (fun x hx => ?_) (fun x _ t hp => ?_) hcancelled (by simp)
  · rw [h.kept x hx]
    exact hheap _ _ (h.kept x hx)
  · refine ⟨hheap _ _ hp.heap, ?_, ?_⟩
    · rw [htimers]
      exact hp.timers
    · rw [hactive]
      exact hp.active

/-- A timer joins the sets while a callback runs. -/
theorem Ticking.joined (h : Ticking now batch as obs s ran past kept) (hinv : Inv s) (hphase : s.phase ≠ .outside)
    (huse : s.phase.inUse) (ha : a ∈ s.created) (ht : s.heap a = some t) {act : Action ⊕ Int}
    (hphase' : s'.phase = s.phase) (hruns : TimerQueue.runs o = [])
    (hadded : ∀ b n, .added b n ∈ o → n = t.seq) (hheap : s'.heap = s.heap)
    (hcancel : s'.cancelTimers = s.cancelTimers) :
    Ticking now batch (as ++ [act]) (obs ++ o) s' ran past kept := by
  obtain ⟨rfl, -⟩ := h.of_inUse hphase huse
  refine h.within hphase' hruns (fun x _ => by rw [hheap]) (by simp) (fun b n hmem => .inl ?_) fun b n hmem => ?_
  · rwa [hcancel] at hmem
  · rw [hadded b n hmem]
    exact h.not_added hinv hphase huse ha ht

theorem Ticking.step {act : Action} (h : Ticking now batch as obs s ran past kept) (hinv : Inv s)
    (hphase : s.phase ≠ .outside) (hm : Moved s act s' o) :
    ∃ ran past kept, Ticking now batch (as ++ [.inl act]) (obs ++ o) s' ran past kept := by
  cases hm with
  | create a expir interval hnone hbound =>
    exact ⟨_, _, _, h.unmoved rfl (fun b v hv => (Heap.update_free hnone hv _).trans hv) rfl rfl fun _ _ => .inl⟩
  | createElsewhere => exact ⟨_, _, _, h.unmoved rfl (fun _ _ hv => hv) rfl rfl fun _ _ => .inl⟩
  | added a t start huse ha ht =>
    exact ⟨_, _, _, h.joined hinv hphase huse ha ht rfl rfl (by simp) rfl rfl⟩
  | addedFirst a t start huse ha ht =>
    exact ⟨_, _, _, h.joined hinv hphase huse ha ht rfl rfl (by simp) rfl rfl⟩
  | cancelled a t huse hmem ht =>
    obtain ⟨rfl, rfl⟩ := h.of_inUse hphase huse
    refine ⟨_, _, _, h.within rfl rfl (fun x hx => ?_) (by simp) (fun _ _ => .inl) (by simp)⟩
    exact Function.update_of_ne (h.ne_of_pending hinv hx (hinv.agree.mem_timers hmem ht)) _ _
  | deferred timerid =>
    refine ⟨_, _, _, h.unmoved rfl (fun _ _ hv => hv) rfl rfl fun a n hmem => ?_⟩
    refine ((OrdSet.mem_insert _).mp hmem).symm.imp_right fun heq => ?_
    obtain ⟨rfl, rfl⟩ := Prod.mk.inj (toLex.injective heq)
    rfl
  | missed timerid => exact ⟨_, _, _, h.unmoved rfl (fun _ _ hv => hv) rfl rfl fun _ _ => .inl⟩
  | handleRead start active houtside => exact absurd houtside hphase
  | run start done todo x t hcalling ht =>
    obtain ⟨y, hy⟩ := h.run hcalling ht (.inl .run)
    exact ⟨_, _, _, hy⟩
  | reset start done hcalling => exact ⟨_, _, _, h.reset hcalling _⟩
  | restarted start x rest t us hresetting ht hus hnot =>
    obtain ⟨y, kept, rfl, rfl⟩ := h.exists_held hresetting
    obtain rfl : t = y.2 := Option.some.inj (ht.symm.trans (h.kept y List.mem_cons_self))
    refine ⟨_, _, _, h.resetTimer hinv hresetting rfl rfl (by simp) (fun b hb => Function.update_of_ne hb _ _)
      (fun _ hmem => (OrdSet.mem_insert _).mpr (.inr hmem)) (fun _ hmem => (OrdSet.mem_insert _).mpr (.inr hmem))
      rfl ?_⟩
    refine ⟨fun hnone => ?_, fun us' hus' _ => ?_⟩
    · rw [hus] at hnone
      cases hnone
    · obtain rfl : us = us' := Option.some.inj (hus.symm.trans hus')
      obtain rfl := h.start_eq hresetting
      exact ⟨Function.update_self _ _ _, (OrdSet.mem_insert _).mpr (.inl rfl), (OrdSet.mem_insert _).mpr (.inl rfl)⟩
  | dropped start x rest t hresetting ht hwhy =>
    obtain ⟨y, kept, rfl, rfl⟩ := h.exists_held hresetting
    obtain rfl : t = y.2 := Option.some.inj (ht.symm.trans (h.kept y List.mem_cons_self))
    refine ⟨_, _, _, h.resetTimer hinv hresetting rfl rfl (by simp) (fun b hb => Function.update_of_ne hb _ _)
      (fun _ hmem => hmem) (fun _ hmem => hmem) rfl ?_⟩
    refine ⟨fun _ => List.mem_append_right _ List.mem_cons_self, fun us hus hnot => ?_⟩
    rcases hwhy with hnone | hmem
    · rw [hus] at hnone
      cases hnone
    · exact absurd (List.mem_append_left _ (h.cancelled _ _ hmem)) hnot
  | finished start later hresetting => exact ⟨_, _, _, h.finish hresetting rfl rfl (by simp) rfl rfl rfl rfl⟩
  | finishedArmed start later x hresetting =>
    exact ⟨_, _, _, h.finish hresetting rfl rfl (by simp) rfl rfl rfl rfl⟩

/-! ### The whole call -/

/-- `handleRead` at any time takes out the timers due, and the first callback is next. -/
theorem Inv.ticking (h : Inv s) (hphase : s.phase = .outside) (now : Int) :
    ∃ r, s.handleRead now = some (r, []) ∧ Inv r ∧ r.heap = s.heap ∧ r.created = s.created ∧
      r.numCreated = s.numCreated ∧ Ticking now (s.due now) [] [] r [] [] (s.due now) := by
  obtain ⟨r, o, hr, hm⟩ := (h.setClock now).moved_handleRead hphase le_rfl
  have hinv := (h.setClock now).step hm
  cases hm with
  | handleRead _ active _ _ _ =>
    refine ⟨_, hr, hinv, rfl, rfl, rfl, ?_⟩
    constructor
    case stage =>
      show Stage now _ (.calling now [] (s.timers.before (entry now UINTPTR_MAX))) [] [] _
      rw [h.before_eq]
      exact .calling [] _ rfl
    case runs => rfl
    case kept => exact fun x hx => (h.mem_due.mp hx).1.heap
    case past => simp
    case cancelled => exact fun a n hmem => by cases hmem
    case added => simp

/-- A step of `handleRead` itself, and not of a callback or of another thread. -/
def Action.own : Action → Bool
  | .run | .reset | .resetTimer | .finish _ => true
  | _ => false

/-- How many of its own steps `handleRead` has yet to take. -/
def Phase.left : Phase → Nat
  | .outside => 0
  | .calling _ done todo => done.length + 2 * todo.length + 2
  | .resetting _ rest => rest.length + 1

theorem Moved.left_lt {act : Action} (hm : Moved s act s' o) (hown : act.own = true) :
    s'.phase.left < s.phase.left := by
  cases hm with
  | run start done todo x t hphase =>
    rw [hphase, Phase.left, Phase.left]
    simp only [List.length_append, List.length_cons, List.length_nil]
    omega
  | reset start done hphase =>
    rw [hphase]
    exact Nat.lt_succ_self _
  | restarted start x rest t us hphase =>
    rw [hphase]
    exact Nat.lt_succ_self _
  | dropped start x rest t hphase =>
    rw [hphase]
    exact Nat.lt_succ_self _
  | finished start later hphase =>
    rw [hphase]
    exact Nat.zero_lt_one
  | finishedArmed start later x hphase =>
    rw [hphase]
    exact Nat.zero_lt_one
  | _ => cases hown

theorem exists_own (hphase : s.phase ≠ .outside) : ∃ act : Action, act.own = true ∧ s.Enabled act := by
  cases hturn : s.phase.next with
  | handleRead => exact absurd (Phase.next_eq_handleRead hturn) hphase
  | run => exact ⟨.run, rfl, hturn⟩
  | reset => exact ⟨.reset, rfl, hturn⟩
  | resetTimer => exact ⟨.resetTimer, rfl, hturn⟩
  | finish => exact ⟨.finish s.clock, rfl, hturn, le_rfl⟩

/-- Once the callbacks leave it alone, `handleRead` goes on to its return. -/
theorem Inv.returns (h : Inv s) : ∃ acts : List Action, (∀ act ∈ acts, act.own = true) ∧
    ∃ obs s', inside.Run s (acts.map .inl) obs s' ∧ s'.phase = .outside := by
  induction hleft : s.phase.left using Nat.strong_induction_on generalizing s with
  | _ left ih =>
    by_cases hphase : s.phase = .outside
    · exact ⟨[], by simp, [], s, .nil, hphase⟩
    · obtain ⟨act, hown, he⟩ := exists_own hphase
      obtain ⟨u, o, hu, hm⟩ := h.moved he
      obtain ⟨acts, hacts, obs, s', hrun, hout⟩ := ih _ (hleft ▸ hm.left_lt hown) (h.step hm) rfl
      exact ⟨act :: acts, List.forall_mem_cons.mpr ⟨hown, hacts⟩, o ++ obs, s', .cons ⟨he, hphase⟩ hu hrun, hout⟩

/-- What `handleRead` has done when it returns in `s'`, entered in `s` at `now`. -/
structure Ticked (s : TimerQueue) (now : Int) (as : List (Action ⊕ Int)) (obs : List Event) (s' : TimerQueue) :
    Prop where
  /-- The callbacks were those of the timers due, the earliest first. -/
  order : ∃ batch : List (Addr × Timer), (∀ a t, (a, t) ∈ batch ↔ s.Pending a t ∧ t.expir ≤ now) ∧
    batch.Pairwise (fun x y => x.2.expir ≤ y.2.expir) ∧ runs obs = batch.map fun x => x.2.seq
  once : ∀ n, obs.count (.run n) ≤ 1
  notDue : ∀ a t, s.Pending a t → now < t.expir → .run t.seq ∉ obs
  notAdded : ∀ a n, .added a n ∈ obs → .run n ∉ obs
  oneShot : ∀ a t, s.Pending a t → t.expir ≤ now → t.interval = none →
    .deleted t.seq ∈ obs ∧ ∀ b v, s'.heap b = some v → v.seq ≠ t.seq
  repeating : ∀ a t (us : Nat), s.Pending a t → t.expir ≤ now → t.interval = some us →
    .inl (.rmTimerInLoop ⟨a, t.seq⟩) ∉ as → s'.Pending a {t with expir := now + us}

theorem Ticking.ticked (h : Ticking now (s.due now) as' obs' s' ran past kept) (hinv : Inv s)
    (hrecord : Record (obs ++ obs') s') (hphase : s'.phase = .outside) : Ticked s now as' obs' s' := by
  have hstage := h.stage
  rw [hphase] at hstage
  obtain ⟨rfl, rfl⟩ := hstage.of_outside
  -- each callback that ran was that of a timer due
  have hrun : ∀ n, .run n ∈ obs' → ∃ a t, (a, t) ∈ s.due now ∧ t.seq = n := by
    intro n hn
    rw [← mem_runs, h.runs] at hn
    obtain ⟨x, hx, hseq⟩ := List.mem_map.mp hn
    exact ⟨x.1, x.2, hx, hseq⟩
  constructor
  case order => exact ⟨s.due now, fun a t => hinv.mem_due, hinv.due_sorted now, h.runs⟩
  case once =>
    intro n
    rw [← count_runs, h.runs]
    exact List.nodup_iff_count_le_one.mp (hinv.due_nodup now) n
  case notDue =>
    intro a t hp hlt hmem
    obtain ⟨b, v, hv, hseq⟩ := hrun _ hmem
    obtain ⟨hv, hle⟩ := hinv.mem_due.mp hv
    obtain rfl : b = a := hinv.owns.seq_inj _ _ _ _ hv.heap hp.heap hseq
    obtain rfl : v = t := Option.some.inj (hv.heap.symm.trans hp.heap)
    omega
  case notAdded =>
    intro a n hadded hmem
    obtain ⟨b, v, hv, hseq⟩ := hrun _ hmem
    exact h.added a n hadded _ hv hseq
  case oneShot =>
    intro a t hp hle hnone
    have hdeleted := (h.past _ (hinv.mem_due.mpr ⟨hp, hle⟩)).oneShot hnone
    exact ⟨hdeleted, (hrecord.dead _ (List.mem_append_right _ hdeleted)).2⟩
  case repeating => exact fun a t us hp hle hus hnot => (h.past _ (hinv.mem_due.mpr ⟨hp, hle⟩)).repeating us hus hnot

/-- **A tick.** One call of `handleRead`, at any time and with any callbacks: no step fails, its
own steps lead to its return, and then it has done what `Ticked` says. -/
theorem handleRead_ticked {calling : Bool} {numCreated : Nat} {clock : Int}
    (h : adjusted.Run (create calling numCreated clock) as obs s) (hphase : s.phase = .outside) (now : Int) :
    ∃ r, s.handleRead now = some (r, []) ∧ ∀ as' obs' s', inside.Run r as' obs' s' →
      (∀ act, inside.enabled s' act → (inside.step s' act).isSome) ∧
        (∃ acts : List Action, (∀ act ∈ acts, act.own = true) ∧
          ∃ rest t, inside.Run s' (acts.map .inl) rest t ∧ t.phase = .outside) ∧
        (s'.phase = .outside → Ticked s now as' obs' s') := by
  obtain ⟨hinv, hrecord⟩ := reach_adjusted h
  obtain ⟨r, hr, hinvr, hheap, hcreated, hnum, hticking⟩ := hinv.ticking hphase now
  refine ⟨r, hr, fun as' obs' s' h' => ?_⟩
  have hrun := h'.invariant_actions
    (fun as' obs' u => (Inv u ∧ Record (obs ++ obs') u) ∧
      ∃ ran past kept, Ticking now (s.due now) as' obs' u ran past kept)
    ⟨⟨hinvr, hrecord.quiet (by simp) hcreated hnum.ge fun _ => by rw [hheap]⟩, [], [], _, hticking⟩
    fun as' obs' u act v o hu he hstep => ?_
  · obtain ⟨⟨hinv', hrecord'⟩, ran, past, kept, hticking'⟩ := hrun
    exact ⟨fun act he => hinv'.adjusted_safe he.1, hinv'.returns, hticking'.ticked hinv hrecord'⟩
  · obtain ⟨hkept, ran, past, kept, hticking'⟩ := hu
    refine ⟨?_, ?_⟩
    · rw [← List.append_assoc]
      exact kept_adjusted hkept he.1 hstep
    · rcases hkept.1.adjusted_cases he.1 hstep with ⟨b, rfl, -, hm⟩ | ⟨c, rfl, rfl, rfl⟩
      · exact hticking'.step hkept.1 he.2 hm
      · exact ⟨_, _, _, hticking'.unmoved rfl (fun _ _ hv => hv) rfl rfl fun _ _ => .inl⟩

/-- The call `handleRead now` and the steps `as` up to its return run the callbacks of `ns`. -/
def ticks (s : TimerQueue) (now : Int) (as : List (Action ⊕ Int)) (ns : List Nat) : Bool :=
  (s.handleRead now).any fun r => (inside.trace r.1 as).any fun q => decide (runs q.1 = ns ∧ q.2.phase = .outside)

theorem exists_of_ticks {r : TimerQueue} {ns : List Nat} (h : s.ticks now as ns = true)
    (hr : s.handleRead now = some (r, [])) :
    ∃ obs' s', inside.Run r as obs' s' ∧ runs obs' = ns ∧ s'.phase = .outside := by
  unfold ticks at h
  rw [hr, Option.any_some] at h
  exact Machine.Run.exists_of_trace h

/-- Two timers expire together, a third repeats without delay, and the callbacks add a timer
that is due, cancel one that is not, and cancel the one that ran first. -/
theorem handleRead_ticked_tie :
    ∃ obs s r obs' s', adjusted.Run (create true 0 1000)
        [.inl (.create 16 2000 none), .inl (.addTimerInLoop 16 1000), .inl (.create 32 2000 (some 500)),
          .inl (.addTimerInLoop 32 1000), .inl (.create 48 2001 none), .inl (.addTimerInLoop 48 1000),
          .inl (.create 64 1500 (some 0)), .inl (.addTimerInLoop 64 1000)] obs s ∧
      s.handleRead 2000 = some (r, []) ∧
      inside.Run r [.inl .run, .inl (.create 80 1 none), .inl (.addTimerInLoop 80 2000), .inr 500, .inl .run,
        .inl (.rmTimerInLoop ⟨48, 3⟩), .inl (.rmTimerInLoop ⟨64, 4⟩), .inl .run, .inl .reset, .inl .resetTimer,
        .inl .resetTimer, .inl .resetTimer, .inl (.finish 600)] obs' s' ∧
      runs obs' = [4, 1, 2] ∧
      Ticked s 2000 [.inl .run, .inl (.create 80 1 none), .inl (.addTimerInLoop 80 2000), .inr 500, .inl .run,
        .inl (.rmTimerInLoop ⟨48, 3⟩), .inl (.rmTimerInLoop ⟨64, 4⟩), .inl .run, .inl .reset, .inl .resetTimer,
        .inl .resetTimer, .inl .resetTimer, .inl (.finish 600)] obs' s' := by
  have hrun : ∃ obs s, adjusted.Run (create true 0 1000)
        [.inl (.create 16 2000 none), .inl (.addTimerInLoop 16 1000), .inl (.create 32 2000 (some 500)),
          .inl (.addTimerInLoop 32 1000), .inl (.create 48 2001 none), .inl (.addTimerInLoop 48 1000),
          .inl (.create 64 1500 (some 0)), .inl (.addTimerInLoop 64 1000)] obs s ∧
      (s.phase = .outside ∧ s.ticks 2000 [.inl .run, .inl (.create 80 1 none), .inl (.addTimerInLoop 80 2000), .inr 500,
        .inl .run, .inl (.rmTimerInLoop ⟨48, 3⟩), .inl (.rmTimerInLoop ⟨64, 4⟩), .inl .run, .inl .reset,
        .inl .resetTimer, .inl .resetTimer, .inl .resetTimer, .inl (.finish 600)] [4, 1, 2] = true) :=
    Machine.Run.exists_of_trace (by decide +kernel)
  obtain ⟨obs, s, hrun, hphase, hticks⟩ := hrun
  obtain ⟨r, hr, hall⟩ := handleRead_ticked hrun hphase 2000
  obtain ⟨obs', s', hrun', hruns, hphase'⟩ := exists_of_ticks hticks hr
  exact ⟨obs, s, r, obs', s', hrun, hr, hrun', hruns, (hall _ _ _ hrun').2.2 hphase'⟩

end Chtho.Net.TimerQueue
