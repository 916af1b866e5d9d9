import Chtho.Net.TimerQueue.Places

/-! What a cancelled timer may still do.

A pending timer is deleted at once. One in the batch is noted in `cancelTimers_`, which
`reset` looks at when it decides what to restart, but the loop over the batch does not: if
the callback of the timer has not run yet it still will, once, and then never again
(`cancelled_runs_once`). A cancel that comes before the timer is added finds nothing. -/
namespace Chtho.Net.TimerQueue
open Lib

/-- The callback of timer `n` is still to run in the batch. -/
def Waiting (s : TimerQueue) (n : Nat) : Prop :=
  ∃ now done todo x t, s.phase = .calling now done todo ∧ x ∈ todo ∧ s.heap x.timer = some t ∧ t.seq = n

/-- Timer `n`, if there still is one, is in the batch and will not be restarted. -/
structure Cancelled (s : TimerQueue) (n : Nat) : Prop where
  used : n ≤ s.numCreated
  created : ∀ a ∈ s.created, ∀ t, s.heap a = some t → t.seq ≠ n
  pending : ∀ x ∈ s.timers.elems, ∀ t, s.heap x.timer = some t → t.seq ≠ n
  held : ∀ x ∈ s.phase.held, ∀ t, s.heap x.timer = some t → t.seq = n →
    activeTimer x.timer n ∈ s.cancelTimers.elems

variable {s s' : TimerQueue} {act : Action} {obs o : List Event} {a : Addr} {n : Nat} {t : Timer}

/-- A step that gives no place of the queue a timer `n` it did not have. -/
theorem Cancelled.of_sub (h : Cancelled s n) (hnum : s.numCreated ≤ s'.numCreated)
    (hheap : ∀ b t, s'.heap b = some t → ∃ u, s.heap b = some u ∧ u.seq = t.seq)
    (hcreated : ∀ b ∈ s'.created, b ∈ s.created)
    (htimers : ∀ x ∈ s'.timers.elems, x ∈ s.timers.elems ∨ ∀ t, s'.heap x.timer = some t → t.seq ≠ n)
    (hheld : ∀ x ∈ s'.phase.held, x ∈ s.phase.held)
    (hcancel : ∀ y ∈ s.cancelTimers.elems, y ∈ s'.cancelTimers.elems) : Cancelled s' n where
  used := h.used.trans hnum
  created := fun b hb t ht => by
    obtain ⟨u, hu, hseq⟩ := hheap b t ht
    exact hseq ▸ h.created b (hcreated b hb) u hu
  pending := fun x hx t ht => by
    rcases htimers x hx with hx | hnot
    · obtain ⟨u, hu, hseq⟩ := hheap x.timer t ht
      exact hseq ▸ h.pending x hx u hu
    · exact hnot t ht
  held := fun x hx t ht hn => by
    obtain ⟨u, hu, hseq⟩ := hheap x.timer t ht
    exact hcancel _ (h.held x (hheld x hx) u hu (hseq.trans hn))

theorem Cancelled.create (h : Cancelled s n) (hinv : Inv s) (hnone : s.heap a = none) (expir : Int)
    (interval : Option Nat) : Cancelled {s with
      heap := Function.update s.heap a (some ⟨expir, interval, s.numCreated + 1⟩)
      numCreated := s.numCreated + 1
      created := s.created ++ [a]} n := by
  have hkeep : ∀ b ∈ s.owned, Function.update s.heap a (some ⟨expir, interval, s.numCreated + 1⟩) b = s.heap b := by
    intro b hb
    obtain ⟨t, ht⟩ := hinv.owns.deref hb
    exact Heap.update_free hnone ht _
  constructor
  case used => exact h.used.trans (Nat.le_succ _)
  case created =>
    intro b hb t ht
    rcases List.mem_append.mp hb with hb | hb
    · exact h.created b hb t ((hkeep b (List.mem_append_left _ hb)).symm.trans ht)
    · obtain rfl := List.mem_singleton.mp hb
      have hnew := Option.some.inj ((Function.update_self b _ s.heap).symm.trans ht)
      have hused := h.used
      rw [← hnew]
      show s.numCreated + 1 ≠ n
      omega
  case pending =>
    intro x hx t ht
    exact h.pending x hx t ((hkeep x.timer (mem_owned_of_pending hx)).symm.trans ht)
  case held =>
    intro x hx t ht
    exact h.held x hx t ((hkeep x.timer (mem_owned_of_held hx)).symm.trans ht)

theorem Cancelled.added (h : Cancelled s n) (ha : a ∈ s.created) :
    Cancelled (inserted {s with created := s.created.erase a} a t) n := by
  refine h.of_sub le_rfl (fun b u hu => ⟨u, hu, rfl⟩) (fun b hb => List.mem_of_mem_erase hb) (fun x hx => ?_)
    (fun _ hx => hx) (fun _ hy => hy)
  rcases (OrdSet.mem_insert _).mp hx with rfl | hx
  · exact .inr (h.created a ha)
  · exact .inl hx

/-- The timer at `a` is deleted. -/
theorem heap_freed {b : Addr} (hb : Function.update s.heap a none b = some t) : ∃ u, s.heap b = some u ∧ u.seq = t.seq :=
  ⟨t, (Heap.update_none hb).2, rfl⟩

theorem Cancelled.step (h : Cancelled s n) (hinv : Inv s) (hm : Moved s act s' o) : Cancelled s' n := by
  cases hm with
  | create a expir interval hnone hbound => exact h.create hinv hnone expir interval
  | createElsewhere => exact ⟨h.used.trans (Nat.le_succ _), h.created, h.pending, h.held⟩
  | added a t now _ ha ht _ => exact h.added ha
  | addedFirst a t now _ ha ht =>
    obtain ⟨hused, hcreated, hpending, hheld⟩ := h.added ha
    exact ⟨hused, hcreated, hpending, hheld⟩
  | cancelled a t _ hmem ht =>
    exact h.of_sub le_rfl (fun b u => heap_freed) (fun _ hb => hb)
      (fun x hx => .inl ((OrdSet.mem_erase _).mp hx).2) (fun _ hx => hx) (fun _ hy => hy)
  | deferred id =>
    exact ⟨h.used, h.created, h.pending, fun x hx t ht hseq => (OrdSet.mem_insert _).mpr (.inr (h.held x hx t ht hseq))⟩
  | missed id => exact h
  | handleRead now active hphase _ hagree =>
    have hsplit := s.timers.before_append (x := entry now UINTPTR_MAX)
    refine ⟨h.used, h.created, fun x hx => h.pending x ?_, fun x hx t ht hseq => absurd hseq (h.pending x ?_ t ht)⟩
    · rw [← hsplit]
      exact List.mem_append_right _ hx
    · rw [← hsplit]
      exact List.mem_append_left _ hx
  | run now done todo x t hphase ht =>
    refine ⟨h.used, h.created, h.pending, fun y hy => h.held y ?_⟩
    simpa [hphase, Phase.held] using hy
  | reset now done hphase =>
    refine ⟨h.used, h.created, h.pending, fun y hy => h.held y ?_⟩
    simpa [hphase, Phase.held] using hy
  | restarted now x rest t us hphase ht hus hnot =>
    have hx : x ∈ s.phase.held := by simp [hphase, Phase.held]
    have hrest : ∀ y ∈ rest, y ∈ s.phase.held := fun y hy => by simp [hphase, Phase.held, hy]
    have hget : ∀ b u, Function.update s.heap x.timer (some {t with expir := now + us}) b = some u →
        ∃ v, s.heap b = some v ∧ v.seq = u.seq := by
      intro b u hu
      rcases Heap.update_some hu with ⟨rfl, rfl⟩ | ⟨-, hu⟩
      · exact ⟨t, ht, rfl⟩
      · exact ⟨u, hu, rfl⟩
    refine h.of_sub le_rfl hget (fun _ hb => hb) (fun y hy => ?_) hrest (fun _ hy => hy)
    rcases (OrdSet.mem_insert _).mp hy with rfl | hy
    · -- a cancelled timer is not restarted
      refine .inr fun u hu hseq => hnot ?_
      obtain ⟨v, hv, hvu⟩ := hget x.timer u hu
      obtain rfl : t = v := Option.some.inj (ht.symm.trans hv)
      have hn : t.seq = n := hvu.trans hseq
      rw [hn]
      exact h.held x hx t ht hn
    · exact .inl hy
  | dropped now x rest t hphase ht =>
    have hrest : ∀ y ∈ rest, y ∈ s.phase.held := fun y hy => by simp [hphase, Phase.held, hy]
    exact h.of_sub le_rfl (fun b u => heap_freed) (fun _ hb => hb) (fun _ hy => .inl hy) hrest (fun _ hy => hy)
  | finished start now hphase => exact ⟨h.used, h.created, h.pending, fun y hy => by cases hy⟩
  | finishedArmed start now x hphase => exact ⟨h.used, h.created, h.pending, fun y hy => by cases hy⟩

/-! ### The cancel -/

theorem Phase.inUse_held {p : Phase} (huse : p.inUse) (hheld : p.held ≠ []) : ∃ now done todo, p = .calling now done todo := by
  cases p with
  | outside => exact absurd rfl hheld
  | calling now done todo => exact ⟨now, done, todo, rfl⟩
  | resetting now rest => exact huse.elim

/-- `rmTimerInLoop` cancels a timer that was added. -/
theorem Inv.cancelled (h : Inv s) (hrecord : Record obs s) (hadded : .added a n ∈ obs)
    (hm : Moved s (.rmTimerInLoop ⟨a, n⟩) s' o) : Cancelled s' n := by
  have hused := hrecord.known a n hadded
  -- where the timer is not deleted, it is at its address and was not only created
  have hhome : ∀ b t, s.heap b = some t → t.seq = n → b = a ∧ a ∉ s.created := by
    rintro b t ht rfl
    rcases hrecord.stays a _ hadded with hdeleted | ⟨u, hu, hseq⟩
    · exact absurd rfl ((hrecord.dead _ hdeleted).2 b t ht)
    · exact ⟨h.owns.seq_inj _ _ t u ht hu hseq.symm, fun hmem => hrecord.once a _ hadded hmem u hu hseq⟩
  have hcreated : ∀ b ∈ s.created, ∀ t, s.heap b = some t → t.seq ≠ n := by
    intro b hb t ht hseq
    obtain ⟨rfl, hnot⟩ := hhome b t ht hseq
    exact hnot hb
  have hpending : activeTimer a n ∉ s.activeTimers.elems →
      ∀ x ∈ s.timers.elems, ∀ t, s.heap x.timer = some t → t.seq ≠ n := by
    intro hnot x hx t ht hseq
    have hmem := h.agree.mem_active hx ht
    rw [(hhome _ t ht hseq).1, hseq] at hmem
    exact hnot hmem
  cases hm with
  | cancelled a t huse hmem ht =>
    have hgone : ∀ b u, Function.update s.heap a none b = some u → u.seq ≠ t.seq := by
      intro b u hb hseq
      obtain ⟨hba, hb⟩ := Heap.update_none hb
      exact hba (hhome b u hb hseq).1
    exact ⟨hused, fun b _ => hgone b, fun x _ => hgone x.timer, fun x _ u hu hseq => absurd hseq (hgone x.timer u hu)⟩
  | deferred id huse hnot hcalling =>
    refine ⟨hused, hcreated, hpending hnot, fun x _ t ht hseq => ?_⟩
    rw [(hhome _ t ht hseq).1]
    exact (OrdSet.mem_insert _).mpr (.inl rfl)
  | missed id huse hnot hcalling =>
    refine ⟨hused, hcreated, hpending hnot, fun x hx => ?_⟩
    obtain ⟨now, done, todo, hphase⟩ := Phase.inUse_held huse (List.ne_nil_of_mem hx)
    rw [h.calling now done todo hphase] at hcalling
    cases hcalling

/-! ### After the cancel -/

theorem Waiting.of_heap (h : Waiting s' n) (hphase : s'.phase = s.phase)
    (hheap : ∀ b t, b ∈ s.owned → s'.heap b = some t → ∃ u, s.heap b = some u ∧ u.seq = t.seq) : Waiting s n := by
  obtain ⟨now, done, todo, x, t, hcalling, hx, ht, hseq⟩ := h
  rw [hphase] at hcalling
  have howned : x.timer ∈ s.owned := mem_owned_of_held (by simp [hcalling, Phase.held, hx])
  obtain ⟨u, hu, hueq⟩ := hheap _ t howned ht
  exact ⟨now, done, todo, x, u, hcalling, hx, hu, hueq.trans hseq⟩

theorem not_waiting_of_phase (hphase : ∀ now done todo, s.phase ≠ .calling now done todo) : ¬ Waiting s n := by
  rintro ⟨now, done, todo, x, t, hcalling, -⟩
  exact hphase now done todo hcalling

/-- Once its callback has started a timer waits no more. -/
theorem Inv.not_waiting_run (h : Inv s) {now : Int} {done todo : List Entry} {x : Entry}
    (hphase : s.phase = .calling now done (x :: todo)) (ht : s.heap x.timer = some t) :
    ¬ Waiting {s with phase := .calling now (done ++ [x]) todo} t.seq := by
  rintro ⟨now', done', todo', y, u, hcalling, hy, hu, hseq⟩
  obtain ⟨rfl, rfl, rfl⟩ := Phase.calling.inj hcalling
  have hsame : y.timer = x.timer := h.owns.seq_inj _ _ u t hu ht hseq
  have hnodup := h.held_nodup
  rw [hphase, Phase.held, List.map_append, List.map_cons] at hnodup
  refine (List.nodup_cons.mp (List.nodup_append.mp hnodup).2.1).1 ?_
  rw [← hsame]
  exact List.mem_map_of_mem hy

/-- The callback of a cancelled timer starts only where it was waiting, and no other step
makes it wait. -/
theorem Cancelled.waiting_step (h : Cancelled s n) (hinv : Inv s) (hm : Moved s act s' o) :
    (.run n ∈ o → Waiting s n ∧ ¬ Waiting s' n ∧ o = [.run n]) ∧
      (Waiting s' n → Waiting s n ∧ .batchDone ∉ o) := by
  cases hm with
  | create a expir interval hnone hbound =>
    refine ⟨by simp, fun hw => ⟨hw.of_heap rfl fun b t hb ht => ?_, by simp⟩⟩
    obtain ⟨u, hu⟩ := hinv.owns.deref hb
    have hba : b ≠ a := fun heq => by rw [heq, hnone] at hu; cases hu
    exact ⟨t, (Function.update_of_ne hba _ s.heap).symm.trans ht, rfl⟩
  | createElsewhere => exact ⟨by simp, fun hw => ⟨hw.of_heap rfl fun _ t _ ht => ⟨t, ht, rfl⟩, by simp⟩⟩
  | added a t now _ ha ht _ => exact ⟨by simp, fun hw => ⟨hw.of_heap rfl fun _ t _ ht => ⟨t, ht, rfl⟩, by simp⟩⟩
  | addedFirst a t now _ ha ht => exact ⟨by simp, fun hw => ⟨hw.of_heap rfl fun _ t _ ht => ⟨t, ht, rfl⟩, by simp⟩⟩
  | cancelled a t _ hmem ht =>
    exact ⟨by simp, fun hw => ⟨hw.of_heap rfl fun _ _ _ => heap_freed, by simp⟩⟩
  | deferred id => exact ⟨by simp, fun hw => ⟨hw.of_heap rfl fun _ t _ ht => ⟨t, ht, rfl⟩, by simp⟩⟩
  | missed id => exact ⟨by simp, fun hw => ⟨hw, by simp⟩⟩
  | handleRead now active hphase _ hagree =>
    refine ⟨by simp, fun hw => ?_⟩
    obtain ⟨_, _, todo, x, t, hcalling, hx, ht, hseq⟩ := hw
    obtain ⟨-, -, rfl⟩ := Phase.calling.inj hcalling
    have hpending : x ∈ s.timers.elems := by
      rw [← s.timers.before_append (x := entry now UINTPTR_MAX)]
      exact List.mem_append_left _ hx
    exact absurd hseq (h.pending x hpending t ht)
  | run now done todo x t hphase ht =>
    constructor
    · intro hmem
      obtain rfl := Event.run.inj (List.mem_singleton.mp hmem)
      exact ⟨⟨now, done, x :: todo, x, t, hphase, List.mem_cons_self, ht, rfl⟩, hinv.not_waiting_run hphase ht, rfl⟩
    · rintro ⟨now', done', todo', y, u, hcalling, hy, hu, hseq⟩
      obtain ⟨rfl, rfl, rfl⟩ := Phase.calling.inj hcalling
      exact ⟨⟨now, done, x :: todo, y, u, hphase, List.mem_cons_of_mem _ hy, hu, hseq⟩, by simp⟩
  | reset now done hphase =>
    exact ⟨by simp, fun hw => absurd hw (not_waiting_of_phase (by simp))⟩
  | restarted now x rest t us hphase ht hus hnot =>
    exact ⟨by simp, fun hw => absurd hw (not_waiting_of_phase (by simp [inserted]))⟩
  | dropped now x rest t hphase ht =>
    exact ⟨by simp, fun hw => absurd hw (not_waiting_of_phase (by simp))⟩
  | finished start now hphase =>
    exact ⟨by simp, fun hw => absurd hw (not_waiting_of_phase (by simp))⟩
  | finishedArmed start now x hphase =>
    exact ⟨by simp, fun hw => absurd hw (not_waiting_of_phase (by simp [armed, resetTimerfd]))⟩

theorem Waiting.keep (h : Waiting s n) (hphase : s'.phase = s.phase)
    (hheap : ∀ x ∈ s.phase.held, ∀ t, s.heap x.timer = some t → s'.heap x.timer = some t) : Waiting s' n := by
  obtain ⟨now, done, todo, x, t, hcalling, hx, ht, hseq⟩ := h
  exact ⟨now, done, todo, x, t, hphase.trans hcalling, hx, hheap x (by simp [hcalling, Phase.held, hx]) t ht, hseq⟩

/-- A timer in the batch is not in the set of pending ones. -/
theorem Inv.held_ne_pending (h : Inv s) {x y : Entry} (hx : x ∈ s.phase.held) (hy : y ∈ s.timers.elems) :
    x.timer ≠ y.timer :=
  ((List.nodup_append.mp (List.nodup_append.mp h.owns.nodup).2.1).2.2 _ (List.mem_map_of_mem hy) _
    (List.mem_map_of_mem hx)).symm

/-- A timer that waits in the batch goes on to wait until its callback is started. -/
theorem Inv.waiting_step (h : Inv s) (hm : Moved s act s' o) (hw : Waiting s n) : Waiting s' n ∨ .run n ∈ o := by
  cases hm with
  | create a expir interval hnone hbound =>
    refine .inl (hw.keep rfl fun x _ t ht => ?_)
    exact (Function.update_of_ne (fun heq => by rw [heq, hnone] at ht; cases ht) ..).trans ht
  | createElsewhere | added | addedFirst | deferred | missed => exact .inl (hw.keep rfl fun _ _ _ ht => ht)
  | cancelled a t _ hmem ht =>
    refine .inl (hw.keep rfl fun x hx u hu => ?_)
    exact (Function.update_of_ne (h.held_ne_pending hx (h.agree.mem_timers hmem ht)) ..).trans hu
  | run now done todo x t hphase ht =>
    obtain ⟨_, _, _, y, u, hcalling, hy, hu, hseq⟩ := hw
    obtain ⟨rfl, rfl, rfl⟩ := Phase.calling.inj (hphase.symm.trans hcalling)
    rcases List.mem_cons.mp hy with rfl | hy
    · obtain rfl := Option.some.inj (ht.symm.trans hu)
      exact .inr (List.mem_singleton.mpr (congrArg Event.run hseq.symm))
    · exact .inl ⟨now, done ++ [x], todo, y, u, rfl, hy, hu, hseq⟩
  | reset now done hphase =>
    obtain ⟨_, _, _, y, _, hcalling, hy, _⟩ := hw
    obtain ⟨-, -, rfl⟩ := Phase.calling.inj (hphase.symm.trans hcalling)
    cases hy
  | handleRead _ _ hphase | restarted _ _ _ _ _ hphase | dropped _ _ _ _ hphase | finished _ _ hphase
  | finishedArmed _ _ _ hphase =>
    refine absurd hw (not_waiting_of_phase fun now' done todo hcalling => ?_)
    rw [hphase] at hcalling
    cases hcalling

/-- What is seen after the cancel: nothing of the timer, or one start of its callback in the
batch it was in; and if it was waiting there it waits on or is started. -/
structure After (t : TimerQueue) (n : Nat) (obs : List Event) (s : TimerQueue) : Prop where
  waiting : Waiting s n → Waiting t n ∧ .batchDone ∉ obs ∧ .run n ∉ obs
  runs : .run n ∈ obs → Waiting t n ∧ ∃ before rest, obs = before ++ .run n :: rest ∧
    .run n ∉ before ∧ .run n ∉ rest ∧ .batchDone ∉ before
  starts : Waiting t n → Waiting s n ∨ .run n ∈ obs

theorem After.step {r : TimerQueue} (h : After r n obs s) (hcancelled : Cancelled s n) (hinv : Inv s)
    (hm : Moved s act s' o) : After r n (obs ++ o) s' := by
  obtain ⟨hrun, hwaiting⟩ := hcancelled.waiting_step hinv hm
  constructor
  case waiting =>
    intro hw
    obtain ⟨hbefore, hdone⟩ := hwaiting hw
    obtain ⟨hr, hdone', hnot⟩ := h.waiting hbefore
    refine ⟨hr, fun hmem => (List.mem_append.mp hmem).elim hdone' hdone, fun hmem => ?_⟩
    exact (List.mem_append.mp hmem).elim hnot fun hmem => (hrun hmem).2.1 hw
  case runs =>
    intro hmem
    by_cases hold : .run n ∈ obs
    · obtain ⟨hr, before, rest, rfl, hbefore, hrest, hdone⟩ := h.runs hold
      have hnot : .run n ∉ o := fun hnew => (h.waiting (hrun hnew).1).2.2 hold
      refine ⟨hr, before, rest ++ o, by simp, hbefore, ?_, hdone⟩
      exact fun hmem => (List.mem_append.mp hmem).elim hrest hnot
    · obtain ⟨hw, -, rfl⟩ := hrun ((List.mem_append.mp hmem).resolve_left hold)
      obtain ⟨hr, hdone, hnot⟩ := h.waiting hw
      exact ⟨hr, obs, [], rfl, hnot, by simp, hdone⟩
  case starts =>
    intro hr
    rcases h.starts hr with hw | hold
    · exact (hinv.waiting_step hm hw).imp_right (List.mem_append_right obs)
    · exact .inr (List.mem_append_left o hold)

/-- Once `rmTimerInLoop` has returned for a timer that was added, the callback of the timer
starts again only if it was waiting in the batch, and then once, in that batch; and if it was
waiting, it is started before the callbacks of the batch are over. -/
theorem cancelled_runs_once {calling : Bool} {numCreated : Nat} {clock : Int} {as as' : List Action}
    {obs' : List Event} {r : TimerQueue}
    (h : machine.Run (create calling numCreated clock) as obs s) (hadded : .added a n ∈ obs)
    (he : s.Enabled (.rmTimerInLoop ⟨a, n⟩)) (hs : s.step (.rmTimerInLoop ⟨a, n⟩) = some (r, o))
    (h' : machine.Run r as' obs' s') :
    (.run n ∈ obs' → Waiting r n ∧ ∃ before rest, obs' = before ++ .run n :: rest ∧
      .run n ∉ before ∧ .run n ∉ rest ∧ .batchDone ∉ before) ∧
    (Waiting r n → .batchDone ∈ obs' → .run n ∈ obs') := by
  obtain ⟨hinv, hrecord⟩ := reach h
  obtain ⟨r', o', hs', hm⟩ := hinv.moved he
  obtain ⟨rfl, rfl⟩ := Prod.mk.inj (Option.some.inj (hs.symm.trans hs'))
  have hafter := h'.invariant (fun obs s => Inv s ∧ Cancelled s n ∧ After r n obs s)
    ⟨hinv.step hm, hinv.cancelled hrecord hadded hm, fun hw => ⟨hw, by simp, by simp⟩, by simp, .inl⟩
    fun obs s act s' o hs he hstep => ?_
  · exact ⟨hafter.2.2.runs, fun hr hdone => (hafter.2.2.starts hr).resolve_left fun hw => (hafter.2.2.waiting hw).2.1 hdone⟩
  · obtain ⟨hinv, hcancelled, hafter⟩ := hs
    obtain ⟨u, o', hu, hm⟩ := hinv.moved he
    obtain ⟨rfl, rfl⟩ := Prod.mk.inj (Option.some.inj (hstep.symm.trans hu))
    exact ⟨hinv.step hm, hcancelled.step hinv hm, hafter.step hcancelled hinv hm⟩

/-- The callback of a timer runs after its cancel, in the rest `as` of a run. -/
def runsAfter (s : TimerQueue) (id : TimerID) (as : List Action) : Bool :=
  (s.step (.rmTimerInLoop id)).any fun r => (machine.trace r.1 as).any fun q => decide (.run id.seq ∈ q.1)

theorem exists_of_runsAfter {id : TimerID} {as : List Action} (h : s.runsAfter id as = true) :
    ∃ r o obs' s', s.step (.rmTimerInLoop id) = some (r, o) ∧ machine.Run r as obs' s' ∧ .run id.seq ∈ obs' := by
  unfold runsAfter at h
  cases hstep : s.step (.rmTimerInLoop id) with
  | none =>
    rw [hstep] at h
    cases h
  | some r =>
    rw [hstep, Option.any_some] at h
    have hrun : ∃ obs' s', machine.Run r.1 as obs' s' ∧ .run id.seq ∈ obs' := Machine.Run.exists_of_trace h
    obtain ⟨obs', s', hrun, hmem⟩ := hrun
    exact ⟨r.1, r.2, obs', s', rfl, hrun, hmem⟩

/-- A timer is cancelled by the callback that runs before its own. -/
theorem cancelled_runs_once_batch :
    ∃ obs s r o obs' s', machine.Run (create false 0 1000)
        [.create 16 2000 none, .addTimerInLoop 16 1000, .create 32 2000 (some 500), .addTimerInLoop 32 1000,
          .handleRead 2000, .run] obs s ∧
      .added 32 2 ∈ obs ∧ s.step (.rmTimerInLoop ⟨32, 2⟩) = some (r, o) ∧
      machine.Run r [.run, .reset, .resetTimer, .resetTimer, .finish 2100] obs' s' ∧ .run 2 ∈ obs' ∧
      (Waiting r 2 ∧ ∃ before rest, obs' = before ++ .run 2 :: rest ∧
        .run 2 ∉ before ∧ .run 2 ∉ rest ∧ .batchDone ∉ before) ∧
      (.batchDone ∈ obs' → .run 2 ∈ obs') := by
  have hrun : ∃ obs s, machine.Run (create false 0 1000)
        [.create 16 2000 none, .addTimerInLoop 16 1000, .create 32 2000 (some 500), .addTimerInLoop 32 1000,
          .handleRead 2000, .run] obs s ∧
      (.added 32 2 ∈ obs ∧ s.Enabled (.rmTimerInLoop ⟨32, 2⟩) ∧
        s.runsAfter ⟨32, 2⟩ [.run, .reset, .resetTimer, .resetTimer, .finish 2100] = true) :=
    Machine.Run.exists_of_trace (by decide +kernel)
  obtain ⟨obs, s, hrun, hadded, he, hafter⟩ := hrun
  obtain ⟨r, o, obs', s', hs, hrun', hmem⟩ := exists_of_runsAfter hafter
  obtain ⟨honce, hstarts⟩ := cancelled_runs_once hrun hadded he hs hrun'
  have hwaiting := honce hmem
  exact ⟨obs, s, r, o, obs', s', hrun, hadded, hs, hrun', hmem, hwaiting, hstarts hwaiting.1⟩

/-- Cancelled timers that run: one in the batch, and one that was created but not yet added. -/
theorem cancelled_runs :
    (∃ as obs s r o as' obs' s', machine.Run (create false 0 1000) as obs s ∧ .added 32 2 ∈ obs ∧
      s.Enabled (.rmTimerInLoop ⟨32, 2⟩) ∧ s.step (.rmTimerInLoop ⟨32, 2⟩) = some (r, o) ∧
      machine.Run r as' obs' s' ∧ .run 2 ∈ obs') ∧
    ∃ as obs s r o as' obs' s', machine.Run (create false 0 1000) as obs s ∧
      (s.heap 16).map Timer.seq = some 1 ∧ .added 16 1 ∉ obs ∧
      s.Enabled (.rmTimerInLoop ⟨16, 1⟩) ∧ s.step (.rmTimerInLoop ⟨16, 1⟩) = some (r, o) ∧
      machine.Run r as' obs' s' ∧ .run 1 ∈ obs' := by
  constructor
  · have hrun : ∃ obs s, machine.Run (create false 0 1000)
          [.create 16 2000 none, .addTimerInLoop 16 1000, .create 32 2000 none, .addTimerInLoop 32 1000,
            .handleRead 2000, .run] obs s ∧
        (.added 32 2 ∈ obs ∧ s.Enabled (.rmTimerInLoop ⟨32, 2⟩) ∧ s.runsAfter ⟨32, 2⟩ [.run] = true) :=
      Machine.Run.exists_of_trace (by decide +kernel)
    obtain ⟨obs, s, hrun, hadded, he, hafter⟩ := hrun
    obtain ⟨r, o, obs', s', hs, hrun', hmem⟩ := exists_of_runsAfter hafter
    exact ⟨_, obs, s, r, o, _, obs', s', hrun, hadded, he, hs, hrun', hmem⟩
  · have hrun : ∃ obs s, machine.Run (create false 0 1000) [.create 16 2000 none] obs s ∧
        ((s.heap 16).map Timer.seq = some 1 ∧ .added 16 1 ∉ obs ∧ s.Enabled (.rmTimerInLoop ⟨16, 1⟩) ∧
          s.runsAfter ⟨16, 1⟩ [.addTimerInLoop 16 1000, .handleRead 2000, .run] = true) :=
      Machine.Run.exists_of_trace (by decide +kernel)
    obtain ⟨obs, s, hrun, hseq, hnot, he, hafter⟩ := hrun
    obtain ⟨r, o, obs', s', hs, hrun', hmem⟩ := exists_of_runsAfter hafter
    exact ⟨_, obs, s, r, o, _, obs', s', hrun, hseq, hnot, he, hs, hrun', hmem⟩

end Chtho.Net.TimerQueue
