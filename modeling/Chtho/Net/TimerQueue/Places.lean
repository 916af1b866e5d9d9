import Chtho.Net.TimerQueue.Moves

/-! Where the timers of a run are.

A timer that was added is pending, in the batch, or deleted, never in two of these
places, and it is deleted at most once. The proof keeps a `Record` of the timers added
and deleted so far beside the timers on the heap: each addition is still on the heap
under its address and number, until its deletion is seen. -/
namespace Chtho.Net.TimerQueue
open Lib

structure Record (obs : List Event) (s : TimerQueue) : Prop where
  known : ∀ a n, .added a n ∈ obs → n ≤ s.numCreated
  stays : ∀ a n, .added a n ∈ obs → .deleted n ∈ obs ∨ ∃ t, s.heap a = some t ∧ t.seq = n
  once : ∀ a n, .added a n ∈ obs → a ∈ s.created → ∀ t, s.heap a = some t → t.seq ≠ n
  dead : ∀ n, .deleted n ∈ obs → n ≤ s.numCreated ∧ ∀ a t, s.heap a = some t → t.seq ≠ n
  count : ∀ n, obs.count (.deleted n) ≤ 1

variable {s s' : TimerQueue} {act : Action} {obs o : List Event} {a : Addr} {n : Nat} {t : Timer}

theorem record_create (calling : Bool) (numCreated : Nat) (clock : Int) :
    Record [] (create calling numCreated clock) := by
  constructor <;> simp

/-- Neither an addition nor a deletion. -/
def Event.Quiet : Event → Prop
  | .added _ _ | .deleted _ => False
  | .run _ | .batchDone | .settime _ => True

theorem mem_append_quiet (ho : ∀ e ∈ o, e.Quiet) {e : Event} (he : ¬ e.Quiet) : e ∈ obs ++ o ↔ e ∈ obs := by
  rw [List.mem_append]
  exact ⟨fun h => h.resolve_right fun hmem => he (ho e hmem), .inl⟩

/-- A step that creates, adds and deletes nothing. -/
theorem Record.quiet (h : Record obs s) (ho : ∀ e ∈ o, e.Quiet) (hcreated : s'.created = s.created)
    (hnum : s.numCreated ≤ s'.numCreated) (hheap : ∀ b, (s'.heap b).map Timer.seq = (s.heap b).map Timer.seq) :
    Record (obs ++ o) s' := by
  have hadded : ∀ a n, .added a n ∈ obs ++ o ↔ .added a n ∈ obs := fun a n => mem_append_quiet ho (by simp [Event.Quiet])
  have hdeleted : ∀ n, .deleted n ∈ obs ++ o ↔ .deleted n ∈ obs := fun n => mem_append_quiet ho (by simp [Event.Quiet])
  have hget : ∀ b t, s'.heap b = some t → ∃ u, s.heap b = some u ∧ u.seq = t.seq := by
    intro b t ht
    have hmap := hheap b
    rw [ht, Option.map_some, eq_comm, Option.map_eq_some_iff] at hmap
    exact hmap
  constructor
  case known => exact fun a n ha => (h.known a n ((hadded a n).mp ha)).trans hnum
  case stays =>
    intro a n ha
    rw [hdeleted]
    refine (h.stays a n ((hadded a n).mp ha)).imp_right fun hlive => ?_
    obtain ⟨t, ht, hseq⟩ := hlive
    have hmap := hheap a
    rw [ht, Option.map_some, Option.map_eq_some_iff] at hmap
    obtain ⟨u, hu, hueq⟩ := hmap
    exact ⟨u, hu, hueq.trans hseq⟩
  case once =>
    intro a n ha hmem t ht
    obtain ⟨u, hu, hueq⟩ := hget a t ht
    rw [← hueq]
    exact h.once a n ((hadded a n).mp ha) (hcreated ▸ hmem) u hu
  case dead =>
    intro n hn
    obtain ⟨hle, hnot⟩ := h.dead n ((hdeleted n).mp hn)
    refine ⟨hle.trans hnum, fun a t ht => ?_⟩
    obtain ⟨u, hu, hueq⟩ := hget a t ht
    rw [← hueq]
    exact hnot a u hu
  case count =>
    intro n
    rw [List.count_append, List.count_eq_zero_of_not_mem (fun hmem => ho (.deleted n) hmem), Nat.add_zero]
    exact h.count n

theorem Record.create (h : Record obs s) (hnone : s.heap a = none) (expir : Int)
    (interval : Option Nat) : Record obs {s with
      heap := Function.update s.heap a (some ⟨expir, interval, s.numCreated + 1⟩)
      numCreated := s.numCreated + 1
      created := s.created ++ [a]} := by
  have hget : ∀ b t, Function.update s.heap a (some ⟨expir, interval, s.numCreated + 1⟩) b = some t →
      t.seq = s.numCreated + 1 ∨ s.heap b = some t := by
    intro b t hb
    rcases Heap.update_some hb with ⟨-, rfl⟩ | ⟨-, hb⟩
    · exact .inl rfl
    · exact .inr hb
  constructor
  case known => exact fun b n hb => (h.known b n hb).trans (Nat.le_succ _)
  case stays =>
    intro b n hb
    refine (h.stays b n hb).imp_right fun hlive => ?_
    obtain ⟨t, ht, hseq⟩ := hlive
    refine ⟨t, ?_, hseq⟩
    rw [← ht]
    exact Heap.update_free hnone ht _
  case once =>
    intro b n hb hmem t ht
    have hle := h.known b n hb
    rcases hget b t ht with hseq | ht
    · omega
    · refine h.once b n hb ((List.mem_append.mp hmem).resolve_right fun hlast => ?_) t ht
      rw [List.mem_singleton.mp hlast, hnone] at ht
      cases ht
  case dead =>
    intro n hn
    obtain ⟨hle, hnot⟩ := h.dead n hn
    refine ⟨hle.trans (Nat.le_succ _), fun b t ht => ?_⟩
    rcases hget b t ht with hseq | ht
    · omega
    · exact hnot b t ht
  case count => exact h.count

theorem Record.added (h : Record obs s) (hinv : Inv s) (ht : s.heap a = some t)
    (hcreated : s'.created = s.created.erase a) (hnum : s'.numCreated = s.numCreated) (hheap : s'.heap = s.heap) :
    Record (obs ++ [.added a t.seq]) s' := by
  have hcases : ∀ b n, .added b n ∈ obs ++ [Event.added a t.seq] → .added b n ∈ obs ∨ b = a ∧ n = t.seq := by
    intro b n hb
    refine (List.mem_append.mp hb).imp_right fun hlast => ?_
    exact Event.added.inj (List.mem_singleton.mp hlast)
  constructor
  case known =>
    intro b n hb
    rw [hnum]
    rcases hcases b n hb with hb | ⟨-, rfl⟩
    · exact h.known b n hb
    · exact hinv.owns.seq_le a t ht
  case stays =>
    intro b n hb
    rw [hheap]
    rcases hcases b n hb with hb | ⟨rfl, rfl⟩
    · exact (h.stays b n hb).imp_left (List.mem_append_left _)
    · exact .inr ⟨t, ht, rfl⟩
  case once =>
    intro b n hb hmem
    rw [hcreated] at hmem
    rw [hheap]
    rcases hcases b n hb with hb | ⟨rfl, -⟩
    · exact h.once b n hb (List.mem_of_mem_erase hmem)
    · have hnodup : s.created.Nodup := (List.nodup_append.mp hinv.owns.nodup).1
      exact absurd rfl (hnodup.mem_erase_iff.mp hmem).1
  case dead =>
    intro n hn
    rw [hnum, hheap]
    exact h.dead n ((List.mem_append.mp hn).resolve_right (by simp))
  case count =>
    intro n
    rw [List.count_append]
    simpa using h.count n

theorem Record.deleted (h : Record obs s) (hinv : Inv s) (ht : s.heap a = some t) (hcreated : s'.created = s.created)
    (hnum : s'.numCreated = s.numCreated) (hheap : s'.heap = Function.update s.heap a none) :
    Record (obs ++ [.deleted t.seq]) s' := by
  have hget : ∀ b u, s'.heap b = some u → b ≠ a ∧ s.heap b = some u := by
    intro b u hb
    rw [hheap] at hb
    exact Heap.update_none hb
  have hadded : ∀ b n, .added b n ∈ obs ++ [Event.deleted t.seq] → .added b n ∈ obs :=
    fun b n hb => (List.mem_append.mp hb).resolve_right (by simp)
  constructor
  case known => exact fun b n hb => hnum ▸ h.known b n (hadded b n hb)
  case stays =>
    intro b n hb
    rcases h.stays b n (hadded b n hb) with hdeleted | ⟨u, hu, rfl⟩
    · exact .inl (List.mem_append_left _ hdeleted)
    · by_cases hba : b = a
      · rw [hba, ht] at hu
        rw [← Option.some.inj hu]
        exact .inl (List.mem_append_right _ List.mem_cons_self)
      · refine .inr ⟨u, ?_, rfl⟩
        rw [hheap, Function.update_of_ne hba, hu]
  case once =>
    intro b n hb hmem u hu
    exact h.once b n (hadded b n hb) (hcreated ▸ hmem) u (hget b u hu).2
  case dead =>
    intro n hn
    rw [hnum]
    rcases List.mem_append.mp hn with hn | hn
    · obtain ⟨hle, hnot⟩ := h.dead n hn
      exact ⟨hle, fun b u hu => hnot b u (hget b u hu).2⟩
    · obtain rfl := Event.deleted.inj (List.mem_singleton.mp hn)
      refine ⟨hinv.owns.seq_le a t ht, fun b u hu hseq => ?_⟩
      obtain ⟨hba, hu⟩ := hget b u hu
      exact hba (hinv.owns.seq_inj b a u t hu ht hseq)
  case count =>
    intro n
    rw [List.count_append]
    by_cases hn : n = t.seq
    · -- the timer is still there, so it was not deleted before
      have hfirst : .deleted n ∉ obs := fun hdeleted => (h.dead n hdeleted).2 a t ht hn.symm
      rw [List.count_eq_zero_of_not_mem hfirst, hn]
      simp
    · have hne : Event.deleted t.seq ≠ .deleted n := fun heq => hn (Event.deleted.inj heq).symm
      rw [List.count_cons_of_ne hne]
      exact h.count n

theorem Record.step (h : Record obs s) (hinv : Inv s) (hm : Moved s act s' o) : Record (obs ++ o) s' := by
  cases hm with
  | create a expir interval hnone hbound =>
    rw [List.append_nil]
    exact h.create hnone expir interval
  | createElsewhere => exact h.quiet (by simp) rfl (Nat.le_succ _) fun _ => rfl
  | added a t now _ ha ht => exact h.added hinv ht rfl rfl rfl
  | addedFirst a t now _ ha ht =>
    have hadded : Record (obs ++ [.added a t.seq]) (inserted {s with created := s.created.erase a} a t) :=
      h.added hinv ht rfl rfl rfl
    rw [← List.singleton_append, ← List.append_assoc]
    exact hadded.quiet (by simp [Event.Quiet]) rfl le_rfl fun _ => rfl
  | cancelled a t _ hmem ht => exact h.deleted hinv ht rfl rfl rfl
  | deferred id => exact h.quiet (by simp) rfl le_rfl fun _ => rfl
  | missed id => exact h.quiet (by simp) rfl le_rfl fun _ => rfl
  | handleRead now active => exact h.quiet (by simp) rfl le_rfl fun _ => rfl
  | run now done todo x t => exact h.quiet (by simp [Event.Quiet]) rfl le_rfl fun _ => rfl
  | reset now done => exact h.quiet (by simp [Event.Quiet]) rfl le_rfl fun _ => rfl
  | restarted now x rest t us hphase ht =>
    refine h.quiet (by simp) rfl le_rfl fun b => ?_
    show Option.map Timer.seq (Function.update s.heap x.timer (some {t with expir := now + us}) b) = _
    rw [Function.update_apply]
    split
    case isTrue hb => rw [hb, ht, Option.map_some, Option.map_some]
    case isFalse => rfl
  | dropped now x rest t hphase ht => exact h.deleted hinv ht rfl rfl rfl
  | finished start now => exact h.quiet (by simp) rfl le_rfl fun _ => rfl
  | finishedArmed start now x => exact h.quiet (by simp [Event.Quiet]) rfl le_rfl fun _ => rfl

/-! ### Runs -/

theorem reach {calling : Bool} {numCreated : Nat} {clock : Int} {as : List Action}
    (h : machine.Run (create calling numCreated clock) as obs s) : Inv s ∧ Record obs s := by
  refine h.invariant (fun obs s => Inv s ∧ Record obs s)
    ⟨inv_create _ _ _, record_create _ _ _⟩ fun obs s a s' o hs he hstep => ?_
  obtain ⟨t, o', ht, hm⟩ := hs.1.moved he
  obtain ⟨rfl, rfl⟩ := Prod.mk.inj (Option.some.inj (hstep.symm.trans ht))
  exact ⟨hs.1.step hm, hs.2.step hs.1 hm⟩

inductive Place where
  | pending
  | batch
  | deleted

/-- The places of the timer with number `n`. Pending means in both sets. -/
def At (obs : List Event) (s : TimerQueue) (n : Nat) : Place → Prop
  | .pending => ∃ a t, s.heap a = some t ∧ t.seq = n ∧ entry t.expir a ∈ s.timers.elems ∧
      activeTimer a n ∈ s.activeTimers.elems
  | .batch => ∃ x t, x ∈ s.phase.held ∧ s.heap x.timer = some t ∧ t.seq = n
  | .deleted => .deleted n ∈ obs

/-- The queue's representation: nothing the loop's thread does next fails, the sets hold the
same timers under their current times, and each timer added has one place. -/
structure Consistent (obs : List Event) (s : TimerQueue) : Prop where
  safe : ∀ act, s.Enabled act → (s.step act).isSome
  same : ∀ a n, activeTimer a n ∈ s.activeTimers.elems ↔
    ∃ e t, entry e a ∈ s.timers.elems ∧ s.heap a = some t ∧ t.seq = n
  key : ∀ e a, entry e a ∈ s.timers.elems → ∃ t, s.heap a = some t ∧ t.expir = e
  place : ∀ a n, .added a n ∈ obs → ∃! p, At obs s n p
  once : ∀ n, obs.count (.deleted n) ≤ 1

/-- No timer is both pending and in the batch. -/
theorem Inv.not_held (h : Inv s) {x y : Entry} (hx : x ∈ s.timers.elems) (hy : y ∈ s.phase.held) :
    x.timer ≠ y.timer := by
  have hnodup := (List.nodup_append.mp h.owns.nodup).2.1
  exact (List.nodup_append.mp hnodup).2.2 _ (List.mem_map_of_mem hx) _ (List.mem_map_of_mem hy)

theorem Inv.at_pending (h : Inv s) {x : Entry} (hx : x ∈ s.timers.elems) (ht : s.heap x.timer = some t) :
    At obs s t.seq .pending := by
  obtain ⟨u, hu, htime⟩ := h.agree.time x hx
  obtain rfl : t = u := Option.some.inj (ht.symm.trans hu)
  refine ⟨x.timer, t, ht, rfl, ?_, h.agree.mem_active hx ht⟩
  rw [htime]
  exact hx

theorem Record.place (h : Record obs s) (hinv : Inv s) (hadded : .added a n ∈ obs) : ∃! p, At obs s n p := by
  rcases h.stays a n hadded with hdeleted | ⟨t, ht, rfl⟩
  · have hnot := (h.dead n hdeleted).2
    refine ⟨.deleted, hdeleted, fun p hp => ?_⟩
    cases p with
    | pending =>
      obtain ⟨b, u, hu, hseq, -⟩ := hp
      exact absurd hseq (hnot b u hu)
    | batch =>
      obtain ⟨x, u, -, hu, hseq⟩ := hp
      exact absurd hseq (hnot x.timer u hu)
    | deleted => rfl
  · have halive : .deleted t.seq ∉ obs := fun hdeleted => (h.dead _ hdeleted).2 a t ht rfl
    have howned := (hinv.owns.live a).mp ⟨t, ht⟩
    have hnot : a ∉ s.created := fun hmem => h.once a _ hadded hmem t ht rfl
    rcases List.mem_append.mp ((List.mem_append.mp howned).resolve_left hnot) with hpending | hheld
    · obtain ⟨x, hx, rfl⟩ := List.mem_map.mp hpending
      refine ⟨.pending, hinv.at_pending hx ht, fun p hp => ?_⟩
      cases p with
      | pending => rfl
      | batch =>
        obtain ⟨y, u, hy, hu, hseq⟩ := hp
        exact absurd (hinv.owns.seq_inj _ _ t u ht hu hseq.symm) (hinv.not_held hx hy)
      | deleted => exact absurd hp halive
    · obtain ⟨x, hx, rfl⟩ := List.mem_map.mp hheld
      refine ⟨.batch, ⟨x, t, hx, ht, rfl⟩, fun p hp => ?_⟩
      cases p with
      | pending =>
        obtain ⟨b, u, hu, hseq, hmem, -⟩ := hp
        exact absurd (hinv.owns.seq_inj _ _ u t hu ht hseq) (hinv.not_held hmem hx)
      | batch => rfl
      | deleted => exact absurd hp halive

/-- In every state of a run the representation is consistent. -/
theorem consistent {calling : Bool} {numCreated : Nat} {clock : Int} {as : List Action}
    (h : machine.Run (create calling numCreated clock) as obs s) : Consistent obs s := by
  obtain ⟨hinv, hrecord⟩ := reach h
  constructor
  case safe =>
    intro act he
    obtain ⟨s', o, hs, -⟩ := hinv.moved he
    rw [hs]
    rfl
  case same =>
    intro a n
    constructor
    · intro hmem
      obtain ⟨t, ht, hseq⟩ := hinv.agree.seq _ hmem
      exact ⟨t.expir, t, hinv.agree.mem_timers hmem ht, ht, hseq⟩
    · rintro ⟨e, t, hmem, ht, rfl⟩
      exact hinv.agree.mem_active hmem ht
  case key => exact fun e a hmem => hinv.agree.time _ hmem
  case place => exact fun a n hadded => hrecord.place hinv hadded
  case once => exact hrecord.count

/-- A callback adds a timer at the address of one that was cancelled, and its own timer repeats. -/
theorem consistent_reuse :
    ∃ obs s, machine.Run (create true 7 1000)
      [.create 16 2000 (some 500), .addTimerInLoop 16 1000, .create 32 1500 none, .addTimerInLoop 32 1100,
        .rmTimerInLoop ⟨32, 9⟩, .handleRead 2000, .run, .create 32 1 none, .addTimerInLoop 32 2010,
        .rmTimerInLoop {}, .reset, .resetTimer, .finish 2020] obs s ∧
      (obs.count (.deleted 9) = 1 ∧ .added 32 10 ∈ obs) ∧ Consistent obs s := by
  have hrun : ∃ obs s, machine.Run (create true 7 1000)
      [.create 16 2000 (some 500), .addTimerInLoop 16 1000, .create 32 1500 none, .addTimerInLoop 32 1100,
        .rmTimerInLoop ⟨32, 9⟩, .handleRead 2000, .run, .create 32 1 none, .addTimerInLoop 32 2010,
        .rmTimerInLoop {}, .reset, .resetTimer, .finish 2020] obs s ∧
      (obs.count (.deleted 9) = 1 ∧ .added 32 10 ∈ obs) := Machine.Run.exists_of_trace (by decide +kernel)
  obtain ⟨obs, s, hrun, hobs⟩ := hrun
  exact ⟨obs, s, hrun, hobs, consistent hrun⟩

end Chtho.Net.TimerQueue
