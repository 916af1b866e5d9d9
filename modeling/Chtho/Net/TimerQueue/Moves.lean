import Chtho.Net.TimerQueue.Invariant

/-! Every step a timer queue may take succeeds, has one outcome, which is one of those `Moved`
lists, and keeps the invariant. -/
namespace Chtho.Net.TimerQueue
open Lib

variable {s s' : TimerQueue} {act : Action} {o : List Event} {a : Addr} {t : Timer}

theorem mem_owned_of_pending {x : Entry} (hx : x ∈ s.timers.elems) : x.timer ∈ s.owned :=
  List.mem_append_right _ (List.mem_append_left _ (List.mem_map_of_mem hx))

theorem mem_owned_of_held {x : Entry} (hx : x ∈ s.phase.held) : x.timer ∈ s.owned :=
  List.mem_append_right _ (List.mem_append_right _ (List.mem_map_of_mem hx))

theorem Inv.deref_created (h : Inv s) (ha : a ∈ s.created) : ∃ t, s.heap a = some t :=
  h.owns.deref (List.mem_append_left _ ha)

theorem Inv.deref_held (h : Inv s) {x : Entry} (hx : x ∈ s.phase.held) : ∃ t, s.heap x.timer = some t :=
  h.owns.deref (mem_owned_of_held hx)

/-- The batch has each timer once. -/
theorem Inv.held_nodup (h : Inv s) : (s.phase.held.map Entry.timer).Nodup :=
  (List.nodup_append.mp (List.nodup_append.mp h.owns.nodup).2.1).2.1

theorem Inv.ne_first (h : Inv s) {now : Int} {x : Entry} {rest : List Entry}
    (hphase : s.phase = .resetting now (x :: rest)) : ∀ y ∈ rest, y.timer ≠ x.timer := by
  have hnodup := h.held_nodup
  rw [hphase, Phase.held, List.map_cons] at hnodup
  intro y hy heq
  refine (List.nodup_cons.mp hnodup).1 ?_
  rw [← heq]
  exact List.mem_map_of_mem hy

/-! ### The phases -/

variable {p : Phase}

theorem Phase.next_eq_handleRead (h : p.next = .handleRead) : p = .outside := by
  cases p with
  | outside => rfl
  | calling _ _ todo => cases todo <;> cases h
  | resetting _ rest => cases rest <;> cases h

theorem Phase.next_eq_run (h : p.next = .run) : ∃ now done x todo, p = .calling now done (x :: todo) := by
  cases p with
  | outside => cases h
  | calling now done todo =>
    cases todo with
    | nil => cases h
    | cons x todo => exact ⟨now, done, x, todo, rfl⟩
  | resetting _ rest => cases rest <;> cases h

theorem Phase.next_eq_reset (h : p.next = .reset) : ∃ now done, p = .calling now done [] := by
  cases p with
  | outside => cases h
  | calling now done todo =>
    cases todo with
    | nil => exact ⟨now, done, rfl⟩
    | cons => cases h
  | resetting _ rest => cases rest <;> cases h

theorem Phase.next_eq_resetTimer (h : p.next = .resetTimer) : ∃ now x rest, p = .resetting now (x :: rest) := by
  cases p with
  | outside => cases h
  | calling _ _ todo => cases todo <;> cases h
  | resetting now rest =>
    cases rest with
    | nil => cases h
    | cons x rest => exact ⟨now, x, rest, rfl⟩

theorem Phase.next_eq_finish (h : p.next = .finish) : ∃ now, p = .resetting now [] := by
  cases p with
  | outside => cases h
  | calling _ _ todo => cases todo <;> cases h
  | resetting now rest =>
    cases rest with
    | nil => exact ⟨now, rfl⟩
    | cons => cases h

/-! ### Every step succeeds -/

theorem Inv.moved_add (h : Inv s) {now : Int} (huse : s.phase.inUse) (ha : a ∈ s.created) (hnow : s.clock ≤ now) :
    ∃ s' o, s.addTimerInLoop a now = some (s', o) ∧ Moved s (.addTimerInLoop a now) s' o := by
  obtain ⟨t, ht⟩ := h.deref_created ha
  have hinsert : TimerQueue.insert {s with created := s.created.erase a} a =
      some (inserted {s with created := s.created.erase a} a t, s.earliest t.expir) := insert_eq ht
  cases hearliest : s.earliest t.expir with
  | false =>
    refine ⟨_, _, ?_, .added a t now huse ha ht hearliest⟩
    simp [addTimerInLoop, deref, ht, hinsert, hearliest]
  | true =>
    refine ⟨_, _, ?_, .addedFirst a t now huse ha ht hearliest hnow⟩
    simp [addTimerInLoop, deref, ht, hinsert, hearliest]
    exact ⟨rfl, rfl⟩

theorem Inv.moved_rm (h : Inv s) (id : TimerID) (huse : s.phase.inUse) :
    ∃ s' o, s.rmTimerInLoop id = some (s', o) ∧ Moved s (.rmTimerInLoop id) s' o := by
  have hsize := h.agree.size_eq
  by_cases hmem : activeTimer id.timer id.seq ∈ s.activeTimers.elems
  · obtain ⟨t, ht, hseq⟩ := h.agree.seq _ hmem
    replace ht : s.heap id.timer = some t := ht
    replace hseq : t.seq = id.seq := hseq
    obtain ⟨a, n⟩ := id
    obtain rfl : t.seq = n := hseq
    have htimers : entry t.expir a ∈ s.timers.elems := h.agree.mem_timers hmem ht
    have hsize' := (h.agree.erase ht hmem).size_eq
    refine ⟨_, _, ?_, .cancelled a t huse hmem ht⟩
    simp [rmTimerInLoop, hsize, hmem, deref, delete, ht, htimers, hsize']
    rfl
  · cases hcalling : s.callingExpiredTimers with
    | true =>
      refine ⟨_, _, ?_, .deferred id huse hmem hcalling⟩
      simp [rmTimerInLoop, hsize, hmem, hcalling]
    | false =>
      refine ⟨_, _, ?_, .missed id huse hmem hcalling⟩
      simp [rmTimerInLoop, hsize, hmem, hcalling]

theorem Inv.moved_handleRead (h : Inv s) {now : Int} (hphase : s.phase = .outside) (hnow : s.clock ≤ now) :
    ∃ s' o, s.handleRead now = some (s', o) ∧ Moved s (.handleRead now) s' o := by
  obtain ⟨active, heq, hagree⟩ := h.agree.expire (s.timers.before_append (x := entry now UINTPTR_MAX)).symm
  refine ⟨_, _, ?_, .handleRead now active hphase hnow hagree⟩
  have heq' : eraseActive {s with clock := now, timerfd := readTimerfd s.timerfd now}
      (s.timers.before (entry now UINTPTR_MAX)) s.activeTimers = some active := heq
  simp [TimerQueue.handleRead, getExpired, h.agree.size_eq, heq', hagree.size_eq]
  rfl

theorem Inv.moved_resetTimer (h : Inv s) {now : Int} {x : Entry} {rest : List Entry}
    (hphase : s.phase = .resetting now (x :: rest)) :
    ∃ s' o, resetTimer {s with phase := .resetting now rest} now x.timer = some (s', o) ∧
      Moved s .resetTimer s' o := by
  obtain ⟨t, ht⟩ := h.deref_held (x := x) (by simp [hphase, Phase.held])
  have hderef : deref {s with phase := .resetting now rest} x.timer = some t := ht
  by_cases hagain : t.repeats = true ∧ activeTimer x.timer t.seq ∉ s.cancelTimers.elems
  · obtain ⟨us, hus⟩ := Option.isSome_iff_exists.mp hagain.1
    have hrestart : t.restart now = {t with expir := now + us} := by simp [Timer.restart, hus]
    refine ⟨_, _, ?_, .restarted now x rest t us hphase ht hus hagain.2⟩
    simp only [resetTimer, hderef, Option.bind_eq_bind, Option.bind_some, if_pos hagain, hrestart]
    rw [insert_eq (Function.update_self _ _ _)]
    rfl
  · refine ⟨_, _, ?_, .dropped now x rest t hphase ht ?_⟩
    · simp only [resetTimer, hderef, Option.bind_eq_bind, Option.bind_some, if_neg hagain, delete]
    · rw [Classical.not_and_iff_not_or_not] at hagain
      refine hagain.imp (fun hnot => ?_) not_not.mp
      simpa [Timer.repeats] using hnot

theorem Inv.moved_finish (h : Inv s) {start now : Int} (hphase : s.phase = .resetting start []) (hnow : s.clock ≤ now) :
    ∃ s' o, finish {s with phase := .outside} now = some (s', o) ∧ Moved s (.finish now) s' o := by
  cases hfirst : s.timers.first with
  | none =>
    refine ⟨_, _, ?_, .finished start now hphase (by simp [hfirst])⟩
    simp [finish, hfirst, Timestamp.valid]
  | some x =>
    obtain ⟨t, ht, htime⟩ := h.agree.time x (s.timers.first_mem hfirst)
    have hderef : deref {s with phase := .outside} x.timer = some t := ht
    by_cases hvalid : 0 < x.time
    · refine ⟨_, _, ?_, .finishedArmed start now x hphase hfirst hvalid hnow⟩
      simp [finish, hfirst, hderef, htime, Timestamp.valid, hvalid]
      rfl
    · refine ⟨_, _, ?_, .finished start now hphase (fun y hy => ?_)⟩
      · simp [finish, hfirst, hderef, htime, Timestamp.valid, hvalid]
      · rw [hfirst] at hy
        rw [← Option.some.inj hy]
        omega

/-- No assertion fails, and no deleted timer is used. -/
theorem Inv.moved (h : Inv s) (he : s.Enabled act) : ∃ s' o, s.step act = some (s', o) ∧ Moved s act s' o := by
  cases act with
  | create a expir interval => exact ⟨_, _, rfl, .create a expir interval he.2.2 he.2.1⟩
  | createElsewhere => exact ⟨_, _, rfl, .createElsewhere⟩
  | addTimerInLoop a now => exact h.moved_add he.1 he.2.1 he.2.2
  | rmTimerInLoop id => exact h.moved_rm id he
  | handleRead now => exact h.moved_handleRead (Phase.next_eq_handleRead he.1) he.2
  | run =>
    obtain ⟨now, done, x, todo, hphase⟩ := Phase.next_eq_run he
    obtain ⟨t, ht⟩ := h.deref_held (x := x) (by simp [hphase, Phase.held])
    refine ⟨_, _, ?_, .run now done todo x t hphase ht⟩
    simp [step, hphase, deref, ht]
  | reset =>
    obtain ⟨now, done, hphase⟩ := Phase.next_eq_reset he
    refine ⟨_, _, ?_, .reset now done hphase⟩
    simp [step, hphase]
  | resetTimer =>
    obtain ⟨now, x, rest, hphase⟩ := Phase.next_eq_resetTimer he
    obtain ⟨s', o, hs, hm⟩ := h.moved_resetTimer hphase
    refine ⟨s', o, ?_, hm⟩
    simpa [step, hphase] using hs
  | finish now =>
    obtain ⟨start, hphase⟩ := Phase.next_eq_finish he.1
    exact h.moved_finish hphase he.2

/-! ### A step has one outcome -/

/-- The one set says what the other is. -/
theorem Agree.unique {heap : Addr → Option Timer} {timers : OrdSet Entry} {active active' : OrdSet ActiveTimer}
    (h : Agree heap timers active) (h' : Agree heap timers active') : active = active' := by
  have hsub : ∀ {xs ys : OrdSet ActiveTimer}, Agree heap timers xs → Agree heap timers ys →
      ∀ x ∈ xs.elems, x ∈ ys.elems := by
    intro xs ys hxs hys x hx
    obtain ⟨t, ht, hseq⟩ := hxs.seq x hx
    have hmem := hys.mem_active (hxs.mem_timers hx ht) ht
    rw [hseq] at hmem
    exact hmem
  exact OrdSet.eq_of_mem_iff fun x => ⟨hsub h h' x, hsub h' h x⟩

/-- The phase says which timer `reset` is at. -/
theorem resetting_unique {now now' : Int} {x x' : Entry} {rest rest' : List Entry} {t' : Timer}
    (hphase : s.phase = .resetting now (x :: rest)) (ht : s.heap x.timer = some t)
    (hphase' : s.phase = .resetting now' (x' :: rest')) (ht' : s.heap x'.timer = some t') :
    now = now' ∧ x = x' ∧ rest = rest' ∧ t = t' := by
  rw [hphase] at hphase'
  obtain ⟨rfl, hcons⟩ := Phase.resetting.inj hphase'
  obtain ⟨rfl, rfl⟩ := List.cons.inj hcons
  exact ⟨rfl, rfl, rfl, Option.some.inj (ht.symm.trans ht')⟩

theorem Moved.unique {u : TimerQueue} {o' : List Event} (h : Moved s act s' o) (h' : Moved s act u o') :
    s' = u ∧ o = o' := by
  cases h with
  | create => cases h'; exact ⟨rfl, rfl⟩
  | createElsewhere => cases h'; exact ⟨rfl, rfl⟩
  | added a t now _ _ ht hearliest =>
    cases h' with
    | added _ t' _ _ _ ht' =>
      obtain rfl : t = t' := Option.some.inj (ht.symm.trans ht')
      exact ⟨rfl, rfl⟩
    | addedFirst _ t' _ _ _ ht' hearliest' =>
      obtain rfl : t = t' := Option.some.inj (ht.symm.trans ht')
      rw [hearliest] at hearliest'
      cases hearliest'
  | addedFirst a t now _ _ ht hearliest =>
    cases h' with
    | added _ t' _ _ _ ht' hearliest' =>
      obtain rfl : t = t' := Option.some.inj (ht.symm.trans ht')
      rw [hearliest] at hearliest'
      cases hearliest'
    | addedFirst _ t' _ _ _ ht' =>
      obtain rfl : t = t' := Option.some.inj (ht.symm.trans ht')
      exact ⟨rfl, rfl⟩
  | cancelled a t _ hmem ht =>
    generalize hid : TimerID.mk a t.seq = timerid at h'
    cases h' with
    | cancelled a' t' _ _ ht' =>
      obtain ⟨rfl, -⟩ := TimerID.mk.inj hid
      obtain rfl : t = t' := Option.some.inj (ht.symm.trans ht')
      exact ⟨rfl, rfl⟩
    | deferred _ _ hnot => exact absurd (hid ▸ hmem) hnot
    | missed _ _ hnot => exact absurd (hid ▸ hmem) hnot
  | deferred timerid _ hnot hcalling =>
    cases h' with
    | cancelled _ _ _ hmem => exact absurd hmem hnot
    | deferred => exact ⟨rfl, rfl⟩
    | missed _ _ _ hcalling' =>
      rw [hcalling] at hcalling'
      cases hcalling'
  | missed timerid _ hnot hcalling =>
    cases h' with
    | cancelled _ _ _ hmem => exact absurd hmem hnot
    | deferred _ _ _ hcalling' =>
      rw [hcalling] at hcalling'
      cases hcalling'
    | missed => exact ⟨rfl, rfl⟩
  | handleRead now active _ _ hagree =>
    cases h' with
    | handleRead _ active' _ _ hagree' =>
      rw [hagree.unique hagree']
      exact ⟨rfl, rfl⟩
  | run now done todo x t hphase ht =>
    cases h' with
    | run now' done' todo' x' t' hphase' ht' =>
      rw [hphase] at hphase'
      obtain ⟨rfl, rfl, hcons⟩ := Phase.calling.inj hphase'
      obtain ⟨rfl, rfl⟩ := List.cons.inj hcons
      obtain rfl : t = t' := Option.some.inj (ht.symm.trans ht')
      exact ⟨rfl, rfl⟩
  | reset now done hphase =>
    cases h' with
    | reset now' done' hphase' =>
      rw [hphase] at hphase'
      obtain ⟨rfl, rfl, -⟩ := Phase.calling.inj hphase'
      exact ⟨rfl, rfl⟩
  | restarted now x rest t us hphase ht hus hnot =>
    cases h' with
    | restarted now' x' rest' t' us' hphase' ht' hus' =>
      obtain ⟨rfl, rfl, rfl, rfl⟩ := resetting_unique hphase ht hphase' ht'
      obtain rfl : us = us' := Option.some.inj (hus.symm.trans hus')
      exact ⟨rfl, rfl⟩
    | dropped now' x' rest' t' hphase' ht' hwhy =>
      obtain ⟨rfl, rfl, rfl, rfl⟩ := resetting_unique hphase ht hphase' ht'
      rw [hus] at hwhy
      exact absurd (hwhy.resolve_left (by simp)) hnot
  | dropped now x rest t hphase ht hwhy =>
    cases h' with
    | restarted now' x' rest' t' us' hphase' ht' hus' hnot =>
      obtain ⟨rfl, rfl, rfl, rfl⟩ := resetting_unique hphase ht hphase' ht'
      rw [hus'] at hwhy
      exact absurd (hwhy.resolve_left (by simp)) hnot
    | dropped now' x' rest' t' hphase' ht' =>
      obtain ⟨rfl, rfl, rfl, rfl⟩ := resetting_unique hphase ht hphase' ht'
      exact ⟨rfl, rfl⟩
  | finished start now hphase hfirst =>
    cases h' with
    | finished => exact ⟨rfl, rfl⟩
    | finishedArmed _ _ x _ hx hpos => exact absurd (hfirst x hx) (by omega)
  | finishedArmed start now x hphase hx hpos =>
    cases h' with
    | finished _ _ _ hfirst => exact absurd (hfirst x hx) (by omega)
    | finishedArmed _ _ x' _ hx' =>
      obtain rfl : x = x' := Option.some.inj (hx.symm.trans hx')
      exact ⟨rfl, rfl⟩

/-- What `Moved` lists is what the step does. -/
theorem Inv.step_eq (h : Inv s) (he : s.Enabled act) (hm : Moved s act s' o) : s.step act = some (s', o) := by
  obtain ⟨u, o', hu, hm'⟩ := h.moved he
  obtain ⟨rfl, rfl⟩ := hm.unique hm'
  exact hu

/-! ### Every step keeps the invariant -/

/-- The owner of a timer that is being moved is one of three. -/
theorem owned_inserted (hnot : entry t.expir a ∉ s.timers.elems) : (s.inserted a t).owned.Perm (a :: s.owned) := by
  have hpending : (s.inserted a t).pending.Perm (a :: s.pending) := (s.timers.insert_perm hnot).map Entry.timer
  exact ((hpending.append_right _).append_left _).trans List.perm_middle

theorem owned_removed (hmem : entry t.expir a ∈ s.timers.elems) : s.owned.Perm (a :: (s.removed a t).owned) := by
  have hpending : s.pending.Perm (a :: (s.removed a t).pending) := (s.timers.erase_perm hmem).map Entry.timer
  exact ((hpending.append_right _).append_left _).trans List.perm_middle

theorem owned_created (hmem : a ∈ s.created) : s.owned.Perm (a :: owned {s with created := s.created.erase a}) :=
  (List.perm_cons_erase hmem).append_right _

theorem owned_resetting {now : Int} {x : Entry} {rest : List Entry} (hphase : s.phase = .resetting now (x :: rest)) :
    s.owned.Perm (x.timer :: owned {s with phase := .resetting now rest}) := by
  unfold owned
  rw [hphase]
  have hbatch : (s.pending ++ x.timer :: rest.map Entry.timer).Perm (x.timer :: (s.pending ++ rest.map Entry.timer)) :=
    List.perm_middle
  exact (hbatch.append_left _).trans List.perm_middle

/-- What is in the sets has no other owner. -/
theorem Owns.not_pending {heap : Addr → Option Timer} {numCreated : Nat} (h : Owns heap numCreated (a :: s.owned)) :
    a ∉ s.timers.elems.map Entry.timer :=
  fun hmem => (List.nodup_cons.mp h.nodup).1 (List.mem_append_right _ (List.mem_append_left _ hmem))

/-- What happens at its address does not touch them. -/
theorem Owns.frame {heap heap' : Addr → Option Timer} {numCreated : Nat} (h : Owns heap numCreated (a :: s.owned))
    {x : Entry} (hx : x ∈ s.timers.elems) (v : Option Timer) : Function.update heap' a v x.timer = heap' x.timer := by
  refine Function.update_of_ne (fun heq => h.not_pending ?_) _ _
  rw [← heq]
  exact List.mem_map_of_mem hx

/-- A timer enters both sets, from another owner. -/
theorem Inv.inserted (howns : Owns s.heap s.numCreated (a :: s.owned)) (hagree : Agree s.heap s.timers s.activeTimers)
    (hcalling : ∀ now done todo, s.phase = .calling now done todo → s.callingExpiredTimers = true)
    (ht : s.heap a = some t) : Inv (s.inserted a t) where
  owns := howns.perm (owned_inserted fun hmem => howns.not_pending (List.mem_map_of_mem hmem)).symm
  agree := hagree.insert ht howns.not_pending
  calling := hcalling

theorem Inv.added (h : Inv s) (ha : a ∈ s.created) (ht : s.heap a = some t) :
    Inv (TimerQueue.inserted {s with created := s.created.erase a} a t) :=
  Inv.inserted (s := {s with created := s.created.erase a}) (h.owns.perm (owned_created ha)) h.agree h.calling ht

theorem Inv.armed (h : Inv s) (now exp : Int) : Inv (s.armed now exp) := ⟨h.owns, h.agree, h.calling⟩

theorem Inv.removed (h : Inv s) (hmem : activeTimer a t.seq ∈ s.activeTimers.elems) (ht : s.heap a = some t) :
    Inv (s.removed a t) := by
  have htimers : entry t.expir a ∈ s.timers.elems := h.agree.mem_timers hmem ht
  have howns := h.owns.perm (owned_removed htimers)
  exact ⟨howns.free, (h.agree.erase ht hmem).congr fun x hx => howns.frame hx none, h.calling⟩

theorem Inv.expire (h : Inv s) {now : Int} {active : OrdSet ActiveTimer} (hphase : s.phase = .outside)
    (hagree : Agree s.heap (s.timers.dropBefore (entry now UINTPTR_MAX)) active) : Inv (s.expire now active) := by
  refine ⟨h.owns.perm ?_, hagree, fun _ _ _ _ => rfl⟩
  have hpending : s.pending =
      (s.timers.before (entry now UINTPTR_MAX)).map Entry.timer ++ (s.expire now active).pending := by
    rw [pending, ← s.timers.before_append (x := entry now UINTPTR_MAX), List.map_append]
    rfl
  refine List.Perm.append_left _ ?_
  rw [hphase, hpending, Phase.held, List.map_nil, List.append_nil]
  exact List.perm_append_comm

/-- `handleRead` goes on with the timers it holds. -/
theorem Inv.rephased (h : Inv s) {p : Phase} (hheld : p.held = s.phase.held) (calling : Bool)
    (hcalling : ∀ now done todo, p = .calling now done todo → calling = true) :
    Inv {s with callingExpiredTimers := calling, phase := p} := by
  refine ⟨h.owns.perm ?_, h.agree, hcalling⟩
  unfold owned
  rw [hheld]
  exact List.Perm.refl _

theorem Inv.step (h : Inv s) (hm : Moved s act s' o) : Inv s' := by
  cases hm with
  | create a expir interval hnone hbound =>
    have hallocated := h.owns.alloc (t := ⟨expir, interval, s.numCreated + 1⟩) hnone hbound rfl
    refine ⟨hallocated.perm ?_, h.agree.congr fun x hx => ?_, h.calling⟩
    · show List.Perm _ ((s.created ++ [a]) ++ _)
      rw [List.append_assoc]
      exact List.perm_middle.symm
    · obtain ⟨t, ht, -⟩ := h.agree.time x hx
      exact Heap.update_free hnone ht _
  | createElsewhere => exact ⟨h.owns.skip, h.agree, h.calling⟩
  | added a t now _ ha ht _ => exact h.added ha ht
  | addedFirst a t now _ ha ht => exact (h.added ha ht).armed now t.expir
  | cancelled a t _ hmem ht => exact h.removed hmem ht
  | deferred id => exact ⟨h.owns, h.agree, h.calling⟩
  | missed id => exact h
  | handleRead now active hphase _ hagree => exact h.expire hphase hagree
  | run now done todo x t hphase ht =>
    exact h.rephased (by simp [hphase, Phase.held]) s.callingExpiredTimers fun _ _ _ _ => h.calling _ _ _ hphase
  | reset now done hphase =>
    exact h.rephased (by simp [hphase, Phase.held]) false fun _ _ _ hcalling => by cases hcalling
  | restarted now x rest t us hphase ht hus =>
    have howns := (h.owns.perm (owned_resetting hphase)).restart (u := {t with expir := now + us}) ht rfl
    exact Inv.inserted howns (h.agree.congr fun y hy => howns.frame hy _) (fun _ _ _ hcalling => by cases hcalling)
      (Function.update_self _ _ _)
  | dropped now x rest t hphase ht =>
    have howns := h.owns.perm (owned_resetting hphase)
    exact ⟨howns.free, h.agree.congr fun y hy => howns.frame hy none, fun _ _ _ hcalling => by cases hcalling⟩
  | finished start now hphase =>
    exact h.rephased (by simp [hphase, Phase.held]) s.callingExpiredTimers fun _ _ _ hcalling => by cases hcalling
  | finishedArmed start now x hphase =>
    have hended : Inv {s with phase := .outside} :=
      h.rephased (by simp [hphase, Phase.held]) s.callingExpiredTimers fun _ _ _ hcalling => by cases hcalling
    exact hended.armed now x.time

end Chtho.Net.TimerQueue
