import Chtho.Threads.ThreadPool

/-! The discipline of the queue, over whole runs.

The last worker to wait finds the queue empty, and the next task that is queued notifies a
worker: so there is one that does not wait while a task does. A producer waits for a full queue; every
task taken from it notifies one, so what is missing from a full queue is made up by producers that
are notified, as long as any still wait. A producer that comes out of `wait` is no longer
counted and has not queued its task yet: `owed` is one in between. -/
namespace Chtho.Threads.ThreadPool
open Lib

variable {ι τ : Type} [DecidableEq ι] {s s' : ThreadPool ι τ} {obs o : List (Event τ)} {owed : Nat}

structure Inv (owed : Nat) (obs : List (Event τ)) (s : ThreadPool ι τ) : Prop where
  order : pushed obs = taken obs ++ s.queue_
  full : 0 < s.maxQueueSz_ → s.queue_.length ≤ s.maxQueueSz_
  nodupWorkers : s.notEmpty_.inside.Nodup
  workers : ∀ w ∈ s.notEmpty_.inside, s.threads_[w]? = some .waiting
  nodupProducers : s.notFull_.inside.Nodup
  producers : ∀ p ∈ s.notFull_.inside, ∃ task, s.producer p = .waiting task
  /-- Not all workers wait while a task does. -/
  worker : s.queue_ ≠ [] → s.threads_ ≠ [] → ∃ w < s.threads_.length, w ∉ s.notEmpty_.waiting
  /-- Producers wait for a queue that is full, but for those notified. -/
  producer : s.notFull_.waiting ≠ [] → 0 < s.maxQueueSz_ ∧
    (s.running_ = true → s.maxQueueSz_ ≤ s.queue_.length + s.notFull_.notified.length + owed)
  stopped : s.running_ = false → s.notEmpty_.waiting = [] ∧ s.notFull_.waiting = []
  created : s.owner = .created → s.threads_ = [] ∧ s.running_ = false
  owner : s.owner = .joining ∨ s.owner = .stopped → s.running_ = false

theorem pushed_append (obs o : List (Event τ)) : pushed (obs ++ o) = pushed obs ++ pushed o := List.filterMap_append

theorem taken_append (obs o : List (Event τ)) : taken (obs ++ o) = taken obs ++ taken o := List.filterMap_append

omit [DecidableEq ι] in
theorem Inv.mono (h : Inv 0 obs s) (owed : Nat) : Inv owed obs s := by
  refine ⟨h.order, h.full, h.nodupWorkers, h.workers, h.nodupProducers, h.producers, h.worker, fun hne => ?_,
    h.stopped, h.created, h.owner⟩
  obtain ⟨hpos, hroom⟩ := h.producer hne
  exact ⟨hpos, fun hrunning => Nat.le_trans (hroom hrunning) (Nat.le_add_right _ _)⟩

omit [DecidableEq ι] in
/-- A worker that is not in `wait` goes on to another place. -/
theorem Inv.setWorker (h : Inv owed obs s) {w : Nat} (hw : w ∉ s.notEmpty_.inside) (worker : Worker τ) :
    Inv owed obs {s with threads_ := s.threads_.set w worker} := by
  have hworkers : ∀ w' ∈ s.notEmpty_.inside, (s.threads_.set w worker)[w']? = some .waiting := by
    intro w' hw'
    have hne : w ≠ w' := fun heq => hw (heq ▸ hw')
    rw [List.getElem?_set_ne hne]
    exact h.workers w' hw'
  refine ⟨h.order, h.full, h.nodupWorkers, hworkers, h.nodupProducers, h.producers, fun hqueue hne => ?_, h.producer,
    h.stopped, fun hcreated => ?_, h.owner⟩
  · rw [List.length_set]
    exact h.worker hqueue (fun hnil => hne (by rw [hnil]; rfl))
  · obtain ⟨hnil, hrunning⟩ := h.created hcreated
    exact ⟨by rw [hnil]; rfl, hrunning⟩

omit [DecidableEq ι] in
/-- A worker that comes out of `wait`. -/
theorem Inv.resumeWorker (h : Inv owed obs s) {w : Nat} (hw : w ∈ s.notEmpty_.notified ∨ w ∈ s.notEmpty_.woken) :
    Inv owed obs {s with notEmpty_ := s.notEmpty_.resume w} ∧ w ∉ (s.notEmpty_.resume w).inside ∧
      s.threads_[w]? = some .waiting := by
  have hperm := CondVar.inside_resume h.nodupWorkers hw
  have hnodup := hperm.nodup_iff.mp h.nodupWorkers
  obtain ⟨hnot, hnodup⟩ := List.nodup_cons.mp hnodup
  refine ⟨⟨h.order, h.full, hnodup, fun w' hw' => ?_, h.nodupProducers, h.producers, h.worker, h.producer, h.stopped,
    h.created, h.owner⟩, hnot, ?_⟩
  · exact h.workers w' (hperm.mem_iff.mpr (List.mem_cons_of_mem _ hw'))
  · exact h.workers w (hperm.mem_iff.mpr List.mem_cons_self)

/-- A task is taken by a worker that is not in `wait`, and a producer is notified. -/
theorem Inv.pop (h : Inv 0 obs s) {task : τ} {queue : List τ} (hqueue : s.queue_ = task :: queue) {w : Nat}
    (hlt : w < s.threads_.length) (hw : w ∉ s.notEmpty_.inside) {choice : Option ι}
    (hchoice : s.notFull_.Chooses choice) :
    Inv 0 (obs ++ [.taken task])
      {s with
        queue_ := queue
        notFull_ := if s.maxQueueSz_ > 0 then s.notFull_.notify choice else s.notFull_} := by
  have hlength : s.queue_.length = queue.length + 1 := by
    rw [hqueue]
    rfl
  have hperm : (if s.maxQueueSz_ > 0 then s.notFull_.notify choice else s.notFull_).inside.Perm s.notFull_.inside := by
    split
    · exact CondVar.inside_notify hchoice
    · exact .rfl
  constructor
  case order =>
    rw [pushed_append, taken_append, h.order, hqueue]
    simp [pushed, taken]
  case full =>
    intro hpos
    have hfull := h.full hpos
    rw [hlength] at hfull
    exact Nat.le_of_succ_le hfull
  case nodupWorkers => exact h.nodupWorkers
  case workers => exact h.workers
  case nodupProducers => exact hperm.nodup_iff.mpr h.nodupProducers
  case producers => exact fun p hp => h.producers p (hperm.mem_iff.mp hp)
  case worker =>
    refine fun _ _ => ⟨w, hlt, fun hwaiting => hw ?_⟩
    exact List.mem_append_left _ (List.mem_append_left _ hwaiting)
  case producer =>
    intro hne
    simp only at hne ⊢
    split at hne
    case isTrue hpos =>
      rw [if_pos hpos]
      cases choice with
      | none => exact absurd hchoice hne
      | some p =>
        have hold := h.producer (List.ne_nil_of_mem hchoice)
        refine ⟨hpos, fun hrunning => ?_⟩
        have := hold.2 hrunning
        simp only [CondVar.notify, List.length_append, List.length_cons, List.length_nil]
        omega
    case isFalse hzero => exact absurd (h.producer hne).1 hzero
  case stopped =>
    intro hstopped
    obtain ⟨hworkers, hproducers⟩ := h.stopped hstopped
    refine ⟨hworkers, ?_⟩
    simp only
    split
    · cases choice with
      | none => exact hproducers
      | some p => rw [CondVar.notify, hproducers, List.erase_nil]
    · exact hproducers
  case created => exact h.created
  case owner => exact h.owner

/-- `take` with the mutex. -/
theorem Inv.takeLocked (h : Inv 0 obs s) {w : Nat} (hw : w ∉ s.notEmpty_.inside) (hlt : w < s.threads_.length)
    {choice : Option ι} (hchoice : s.notFull_.Chooses choice) :
    Inv 0 (obs ++ (s.takeLocked w choice).2) (s.takeLocked w choice).1 := by
  unfold ThreadPool.takeLocked
  split
  case isTrue hwait =>
    obtain ⟨hempty, hrunning⟩ := Bool.and_eq_true_iff.mp hwait
    rw [List.isEmpty_iff] at hempty
    have hperm := CondVar.inside_wait s.notEmpty_ w
    rw [List.append_nil]
    refine ⟨h.order, h.full, hperm.nodup_iff.mpr (List.nodup_cons.mpr ⟨hw, h.nodupWorkers⟩), fun w' hw' => ?_,
      h.nodupProducers, h.producers, fun hqueue => absurd hempty hqueue, h.producer, fun hstopped => ?_, fun hcreated => ?_,
      h.owner⟩
    · rcases List.mem_cons.mp (hperm.mem_iff.mp hw') with rfl | hw'
      · exact List.getElem?_set_self hlt
      · exact (h.setWorker hw .waiting).workers w' hw'
    · rw [hrunning] at hstopped
      cases hstopped
    · exact (h.setWorker hw .waiting).created hcreated
  case isFalse hgo =>
    split
    case h_1 task queue hqueue =>
      exact (h.setWorker hw (.task (some task))).pop hqueue (by rwa [List.length_set]) hw hchoice
    case h_2 hqueue =>
      rw [List.append_nil]
      exact h.setWorker hw _

/-! ### The producers -/

/-- A producer that comes out of `wait` is not counted any more. -/
theorem Inv.resumeProducer (h : Inv 0 obs s) {p : ι} (hp : p ∈ s.notFull_.notified ∨ p ∈ s.notFull_.woken) :
    Inv 1 obs {s with notFull_ := s.notFull_.resume p} ∧ p ∉ (s.notFull_.resume p).inside ∧
      ∃ task, s.producer p = .waiting task := by
  have hperm := CondVar.inside_resume h.nodupProducers hp
  obtain ⟨hnot, hnodup⟩ := List.nodup_cons.mp (hperm.nodup_iff.mp h.nodupProducers)
  refine ⟨⟨h.order, h.full, h.nodupWorkers, h.workers, hnodup, fun p' hp' => ?_, h.worker, fun hne => ?_, h.stopped,
    h.created, h.owner⟩, hnot, ?_⟩
  · exact h.producers p' (hperm.mem_iff.mpr (List.mem_cons_of_mem _ hp'))
  · obtain ⟨hpos, hroom⟩ := h.producer hne
    refine ⟨hpos, fun hrunning => ?_⟩
    have := hroom hrunning
    simp only [CondVar.resume, List.length_erase]
    split <;> omega
  · exact h.producers p (hperm.mem_iff.mpr List.mem_cons_self)

/-- A producer that is not in `wait` goes on to another place. -/
theorem Inv.setProducer (h : Inv owed obs s) {p : ι} (hp : p ∉ s.notFull_.inside) (producer : Producer τ) :
    Inv owed obs {s with producer := Function.update s.producer p producer} := by
  refine ⟨h.order, h.full, h.nodupWorkers, h.workers, h.nodupProducers, fun p' hp' => ?_, h.worker, h.producer, h.stopped,
    h.created, h.owner⟩
  have hne : p' ≠ p := fun heq => hp (heq ▸ hp')
  obtain ⟨task, htask⟩ := h.producers p' hp'
  exact ⟨task, (Function.update_of_ne hne ..).trans htask⟩

omit [DecidableEq ι] in
/-- A task is queued and a worker notified. -/
theorem Inv.push (h : Inv 1 obs s) (hroom : s.isFull = false) (hrunning : s.running_ = true) (task : τ)
    {choice : Option Nat} (hchoice : s.notEmpty_.Chooses choice) :
    Inv 0 (obs ++ [.pushed task]) {s with queue_ := s.queue_ ++ [task], notEmpty_ := s.notEmpty_.notify choice} := by
  have hperm := CondVar.inside_notify hchoice
  have hlength : (s.queue_ ++ [task]).length = s.queue_.length + 1 := List.length_append
  constructor
  case order =>
    rw [pushed_append, taken_append, h.order]
    simp [pushed, taken]
  case full =>
    intro hpos
    simp only [isFull, hpos, decide_true, Bool.true_and, decide_eq_false_iff_not, Nat.not_le] at hroom
    rw [hlength]
    exact hroom
  case nodupWorkers => exact hperm.nodup_iff.mpr h.nodupWorkers
  case workers => exact fun w hw => h.workers w (hperm.mem_iff.mp hw)
  case nodupProducers => exact h.nodupProducers
  case producers => exact h.producers
  case worker =>
    intro _ hne
    cases choice with
    | none =>
      refine ⟨0, List.length_pos_iff.mpr hne, ?_⟩
      rw [CondVar.notify, hchoice]
      exact List.not_mem_nil
    | some w =>
      obtain ⟨hlt, _⟩ := List.getElem?_eq_some_iff.mp
        (h.workers w (List.mem_append_left _ (List.mem_append_left _ hchoice)))
      have hnodup := (List.nodup_append.mp (List.nodup_append.mp h.nodupWorkers).1).1
      exact ⟨w, hlt, fun hmem => (List.Nodup.mem_erase_iff hnodup).mp hmem |>.1 rfl⟩
  case producer =>
    intro hne
    obtain ⟨hpos, hold⟩ := h.producer hne
    refine ⟨hpos, fun _ => ?_⟩
    have := hold hrunning
    simp only [hlength]
    omega
  case stopped =>
    intro hstopped
    rw [hrunning] at hstopped
    cases hstopped
  case created => exact h.created
  case owner => exact h.owner

/-- `run` with the mutex: the assertion holds. -/
theorem Inv.runLocked (h : Inv 1 obs s) {p : ι} (hp : p ∉ s.notFull_.inside) (task : τ) {choice : Option Nat}
    (hchoice : s.notEmpty_.Chooses choice) :
    ∃ s' o, s.runLocked p task choice = some (s', o) ∧ Inv 0 (obs ++ o) s' := by
  unfold ThreadPool.runLocked
  by_cases hrunning : s.running_ = true
  · by_cases hfull : s.isFull = true
    · refine ⟨{s with
        notFull_ := s.notFull_.wait p
        producer := Function.update s.producer p (.waiting task)}, [], by simp [hrunning, hfull], ?_⟩
      rw [List.append_nil]
      simp only [isFull, Bool.and_eq_true, decide_eq_true_eq] at hfull
      have hperm := CondVar.inside_wait s.notFull_ p
      refine ⟨h.order, h.full, h.nodupWorkers, h.workers, hperm.nodup_iff.mpr (List.nodup_cons.mpr ⟨hp, h.nodupProducers⟩),
        fun p' hp' => ?_, h.worker, fun _ => ⟨hfull.1, fun _ => ?_⟩, fun hstopped => ?_, h.created, h.owner⟩
      · rcases List.mem_cons.mp (hperm.mem_iff.mp hp') with rfl | hp'
        · exact ⟨task, Function.update_self ..⟩
        · exact (h.setProducer hp (.waiting task)).producers p' hp'
      · exact Nat.le_trans hfull.2 (Nat.le_trans (Nat.le_add_right _ _) (Nat.le_add_right _ _))
      · cases hrunning.symm.trans hstopped
    · rw [Bool.not_eq_true] at hfull
      refine ⟨{s with
        queue_ := s.queue_ ++ [task]
        notEmpty_ := s.notEmpty_.notify choice
        producer := Function.update s.producer p .idle}, [.pushed task], by simp [hrunning, hfull], ?_⟩
      exact (h.push hfull hrunning task hchoice).setProducer hp .idle
  · rw [Bool.not_eq_true] at hrunning
    refine ⟨{s with producer := Function.update s.producer p .idle}, [], by simp [hrunning], ?_⟩
    rw [List.append_nil]
    obtain ⟨horder, hfull, hnodup, hworkers, hnodup', hproducers, hworker, _, hstopped, hcreated, howner⟩ :=
      h.setProducer hp .idle
    refine ⟨horder, hfull, hnodup, hworkers, hnodup', hproducers, hworker, fun hne => ?_, hstopped, hcreated, howner⟩
    exact absurd (hstopped hrunning).2 hne

/-! ### Steps and runs -/

omit [DecidableEq ι] in
theorem Inv.outside (h : Inv owed obs s) {w : Nat} {worker : Worker τ} (hw : s.threads_[w]? = some worker)
    (hne : worker ≠ .waiting) : w ∉ s.notEmpty_.inside :=
  fun hmem => hne (Option.some.inj (hw.symm.trans (h.workers w hmem)))

omit [DecidableEq ι] in
/-- Running a task is nothing to the queue. -/
theorem Inv.ran (h : Inv owed obs s) (task : τ) : Inv owed (obs ++ [.ran task]) s := by
  refine {h with order := ?_}
  rw [pushed_append, taken_append, h.order]
  simp [pushed, taken]

omit [DecidableEq ι] in
/-- `start` creates one more thread. -/
theorem Inv.createThread (h : Inv owed obs s) (n : Nat) :
    Inv owed obs {s with threads_ := s.threads_ ++ [.starting], owner := .starting n} := by
  constructor
  case workers =>
    intro w hw
    obtain ⟨hlt, _⟩ := List.getElem?_eq_some_iff.mp (h.workers w hw)
    rw [List.getElem?_append_left hlt]
    exact h.workers w hw
  case worker =>
    refine fun _ _ => ⟨s.threads_.length, by simp, fun hwaiting => ?_⟩
    have hmem := h.workers _ (List.mem_append_left _ (List.mem_append_left _ hwaiting))
    rw [List.getElem?_eq_none (Nat.le_refl _)] at hmem
    cases hmem
  case created => nofun
  case owner => rintro (hjoin | hstop) <;> contradiction
  case order => exact h.order
  case full => exact h.full
  case nodupWorkers => exact h.nodupWorkers
  case nodupProducers => exact h.nodupProducers
  case producers => exact h.producers
  case producer => exact h.producer
  case stopped => exact h.stopped

omit [DecidableEq ι] in
theorem Inv.wakeWorker (h : Inv owed obs s) {w : Nat} (hw : w ∈ s.notEmpty_.waiting) :
    Inv owed obs {s with notEmpty_ := s.notEmpty_.wake w} := by
  have hperm := CondVar.inside_wake hw
  refine ⟨h.order, h.full, hperm.nodup_iff.mpr h.nodupWorkers, fun w' hw' => h.workers w' (hperm.mem_iff.mp hw'),
    h.nodupProducers, h.producers, fun hqueue hne => ?_, h.producer, fun hstopped => ?_, h.created, h.owner⟩
  · obtain ⟨w', hlt, hnot⟩ := h.worker hqueue hne
    exact ⟨w', hlt, fun hmem => hnot (List.mem_of_mem_erase hmem)⟩
  · rw [(h.stopped hstopped).1] at hw
    cases hw

theorem Inv.wakeProducer (h : Inv owed obs s) {p : ι} (hp : p ∈ s.notFull_.waiting) :
    Inv owed obs {s with notFull_ := s.notFull_.wake p} := by
  have hperm := CondVar.inside_wake hp
  refine ⟨h.order, h.full, h.nodupWorkers, h.workers, hperm.nodup_iff.mpr h.nodupProducers,
    fun p' hp' => h.producers p' (hperm.mem_iff.mp hp'), h.worker, fun _ => h.producer (List.ne_nil_of_mem hp),
    fun hstopped => ?_, h.created, h.owner⟩
  rw [(h.stopped hstopped).2] at hp
  cases hp

omit [DecidableEq ι] in
theorem Inv.stop (h : Inv owed obs s) :
    Inv owed obs {s with
      running_ := false
      notEmpty_ := s.notEmpty_.notifyAll
      notFull_ := s.notFull_.notifyAll
      owner := .joining} := by
  have hworkers := CondVar.inside_notifyAll s.notEmpty_
  have hproducers := CondVar.inside_notifyAll s.notFull_
  refine ⟨h.order, h.full, hworkers.nodup_iff.mpr h.nodupWorkers, fun w hw => h.workers w (hworkers.mem_iff.mp hw),
    hproducers.nodup_iff.mpr h.nodupProducers, fun p hp => h.producers p (hproducers.mem_iff.mp hp), fun _ hne => ?_,
    fun hne => absurd rfl hne, fun _ => ⟨rfl, rfl⟩, nofun, fun _ => rfl⟩
  exact ⟨0, List.length_pos_iff.mpr hne, List.not_mem_nil⟩

omit [DecidableEq ι] in
theorem Inv.setOwner (h : Inv owed obs s) {owner : Owner} (hcreated : owner ≠ .created)
    (howner : owner = .joining ∨ owner = .stopped → s.running_ = false) : Inv owed obs {s with owner := owner} :=
  ⟨h.order, h.full, h.nodupWorkers, h.workers, h.nodupProducers, h.producers, h.worker, h.producer, h.stopped,
    fun heq => absurd heq hcreated, howner⟩

/-- A step of which nothing is seen. -/
theorem Inv.quiet {a : Action ι τ} (h : Inv 0 obs s') (hs : s.step a = some (s', [])) :
    ∃ s' o, s.step a = some (s', o) ∧ Inv 0 (obs ++ o) s' :=
  ⟨s', [], hs, by rwa [List.append_nil]⟩

/-- A step does not abort, and keeps the invariant. -/
theorem Inv.step (h : Inv 0 obs s) {a : Action ι τ} (he : s.Enabled a) :
    ∃ s' o, s.step a = some (s', o) ∧ Inv 0 (obs ++ o) s' := by
  cases a with
  | start numThreads =>
    obtain ⟨hnil, hrunning⟩ := h.created he
    obtain ⟨hworkers, hproducers⟩ := h.stopped hrunning
    refine ⟨{s with running_ := true, owner := .starting numThreads}, [], by simp [ThreadPool.step, hnil], ?_⟩
    rw [List.append_nil]
    refine ⟨h.order, h.full, h.nodupWorkers, h.workers, h.nodupProducers, h.producers, h.worker,
      fun hne => absurd hproducers hne, nofun, nofun, ?_⟩
    rintro (hjoin | hstop) <;> contradiction
  | create =>
    cases howner : s.owner with
    | starting n =>
      cases n with
      | zero =>
        have hset : Inv 0 obs {s with owner := .started} := h.setOwner nofun (by rintro (hjoin | hstop) <;> contradiction)
        exact hset.quiet (by simp [ThreadPool.step, howner])
      | succ n =>
        exact (h.createThread n).quiet (by simp [ThreadPool.step, howner])
    | created | started | joining | stopped =>
      have hstarts : s.owner.starts = true := he
      rw [howner] at hstarts
      cases hstarts
  | threadInitCB w =>
    exact (h.setWorker (h.outside he nofun) .test).quiet rfl
  | test w =>
    exact (h.setWorker (h.outside he nofun) _).quiet rfl
  | take w choice =>
    obtain ⟨hlt, _⟩ := List.getElem?_eq_some_iff.mp he.1
    exact ⟨_, _, rfl, h.takeLocked (h.outside he.1 nofun) hlt he.2⟩
  | wakeWorker w =>
    exact (h.wakeWorker he).quiet rfl
  | resumeWorker w choice =>
    obtain ⟨hresumed, hnot, hwaiting⟩ := h.resumeWorker he.1
    obtain ⟨hlt, _⟩ := List.getElem?_eq_some_iff.mp hwaiting
    exact ⟨_, _, rfl, hresumed.takeLocked hnot hlt he.2⟩
  | task w =>
    obtain ⟨worker, hw, hbusy⟩ := he
    cases worker with
    | task task =>
      have hset := h.setWorker (h.outside hw nofun) .test
      cases task with
      | none =>
        exact hset.quiet (by simp [ThreadPool.step, Option.mem_def.mp hw])
      | some task =>
        exact ⟨{s with threads_ := s.threads_.set w .test}, [.ran task], by simp [ThreadPool.step, Option.mem_def.mp hw],
          hset.ran task⟩
    | starting | test | take | waiting | exited => cases hbusy
  | run p task =>
    by_cases hempty : s.threads_.isEmpty = true
    · exact ⟨s, [.ran task], by simp [ThreadPool.step, hempty], h.ran task⟩
    · refine ⟨{s with producer := Function.update s.producer p (.entering task)}, [],
        by simp [ThreadPool.step, hempty], ?_⟩
      rw [List.append_nil]
      refine h.setProducer (fun hp => ?_) _
      obtain ⟨task', hwaiting⟩ := h.producers p hp
      have hidle : (s.producer p).idles = true := he
      rw [hwaiting] at hidle
      cases hidle
  | enter p choice =>
    obtain ⟨henters, hchoice⟩ := he
    cases hp : s.producer p with
    | entering task =>
      have hnot : p ∉ s.notFull_.inside := by
        intro hmem
        obtain ⟨task', hwaiting⟩ := h.producers p hmem
        cases hp.symm.trans hwaiting
      obtain ⟨s', o, hrun, hinv⟩ := (h.mono 1).runLocked hnot task hchoice
      exact ⟨s', o, by simp [ThreadPool.step, hp, hrun], hinv⟩
    | idle | waiting =>
      rw [hp] at henters
      cases henters
  | wakeProducer p =>
    exact (h.wakeProducer he).quiet rfl
  | resumeProducer p choice =>
    obtain ⟨hresumed, hnot, task, hp⟩ := h.resumeProducer he.1
    obtain ⟨s', o, hrun, hinv⟩ := hresumed.runLocked hnot task he.2
    exact ⟨s', o, by simp [ThreadPool.step, hp, hrun], hinv⟩
  | stop =>
    exact h.stop.quiet rfl
  | join =>
    have hset : Inv 0 obs {s with owner := .stopped} := h.setOwner nofun fun _ => h.owner (.inl he.1)
    exact hset.quiet rfl

omit [DecidableEq ι] in
theorem inv_create (maxQueueSz : Nat) : Inv 0 [] (create ι τ maxQueueSz) :=
  ⟨rfl, fun _ => Nat.zero_le _, .nil, nofun, .nil, nofun, fun hne => absurd rfl hne, fun hne => absurd rfl hne,
    fun _ => ⟨rfl, rfl⟩, fun _ => ⟨rfl, rfl⟩, by rintro (hjoin | hstop) <;> contradiction⟩

variable {maxQueueSz : Nat} {as : List (Action ι τ)}

theorem inv_run (h : (machine ι τ).Run (create ι τ maxQueueSz) as obs s) : Inv 0 obs s :=
  h.invariant (Inv 0) (inv_create maxQueueSz) fun obs s a s' o hinv he hs => by
    obtain ⟨t, o', hstep, hinv'⟩ := hinv.step he
    obtain ⟨rfl, rfl⟩ := Prod.mk.inj (Option.some.inj (hs.symm.trans hstep))
    exact hinv'

theorem takeLocked_maxQueueSz (s : ThreadPool ι τ) (w : Nat) (choice : Option ι) :
    (s.takeLocked w choice).1.maxQueueSz_ = s.maxQueueSz_ := by
  unfold ThreadPool.takeLocked
  split
  · rfl
  · split <;> rfl

theorem runLocked_maxQueueSz {p : ι} {task : τ} {choice : Option Nat}
    (h : s.runLocked p task choice = some (s', o)) : s'.maxQueueSz_ = s.maxQueueSz_ := by
  simp only [ThreadPool.runLocked, assert_bind] at h
  split at h
  · obtain ⟨rfl, rfl⟩ := Prod.mk.inj (Option.some.inj h)
    rfl
  · split at h
    · obtain ⟨rfl, rfl⟩ := Prod.mk.inj (Option.some.inj h)
      rfl
    · split at h
      · obtain ⟨rfl, rfl⟩ := Prod.mk.inj (Option.some.inj h)
        rfl
      · cases h

/-- The size is set before the start and stays. -/
theorem step_maxQueueSz {a : Action ι τ} (h : s.step a = some (s', o)) : s'.maxQueueSz_ = s.maxQueueSz_ := by
  cases a with
  | start | run =>
    simp only [ThreadPool.step, assert_bind] at h
    split at h
    all_goals cases h
    all_goals rfl
  | create =>
    simp only [ThreadPool.step] at h
    split at h
    all_goals cases h
    all_goals rfl
  | take w choice =>
    obtain rfl := congrArg Prod.fst (Option.some.inj h)
    exact takeLocked_maxQueueSz ..
  | resumeWorker w choice =>
    obtain rfl := congrArg Prod.fst (Option.some.inj h)
    exact takeLocked_maxQueueSz ..
  | task w =>
    simp only [ThreadPool.step, Option.bind_eq_bind, Option.bind_eq_some_iff] at h
    obtain ⟨worker, _, h⟩ := h
    split at h
    all_goals cases h
    all_goals rfl
  | enter p choice =>
    simp only [ThreadPool.step] at h
    split at h
    · exact runLocked_maxQueueSz h
    · cases h
  | resumeProducer p choice =>
    simp only [ThreadPool.step] at h
    split at h
    · have hsize := runLocked_maxQueueSz h
      exact hsize
    · cases h
  | threadInitCB | test | wakeWorker | wakeProducer | stop | join =>
    cases h
    rfl

theorem run_maxQueueSz (h : (machine ι τ).Run (create ι τ maxQueueSz) as obs s) : s.maxQueueSz_ = maxQueueSz :=
  h.invariant (fun _ s => s.maxQueueSz_ = maxQueueSz) rfl fun _ _ _ _ _ hsize _ hs => (step_maxQueueSz hs).trans hsize

/-- **The discipline of the queue.** In every state that is reached: the queue is not longer
than allowed, nothing aborts, what was taken is the beginning of what was pushed, no task waits while
all workers do, no producer waits for an empty queue while none is notified, and behind `stop`
nobody waits. -/
theorem queue_discipline (hrun : (machine ι τ).Run (create ι τ maxQueueSz) as obs s) :
    (0 < maxQueueSz → s.queue_.length ≤ maxQueueSz) ∧
    (∀ a, s.Enabled a → (s.step a).isSome = true) ∧
    pushed obs = taken obs ++ s.queue_ ∧
    (s.running_ = true → s.threads_ ≠ [] → (∀ w < s.threads_.length, w ∈ s.notEmpty_.waiting) → s.queue_ = []) ∧
    (s.running_ = true → s.queue_ = [] → s.notFull_.waiting ≠ [] → s.notFull_.notified ≠ []) ∧
    (s.owner = .joining ∨ s.owner = .stopped → s.notEmpty_.waiting = [] ∧ s.notFull_.waiting = []) := by
  have hinv := inv_run hrun
  have hsize := run_maxQueueSz hrun
  refine ⟨fun hpos => ?_, fun a he => ?_, hinv.order, fun _ hne hall => ?_, fun hrunning hempty hne hnone => ?_,
    fun howner => hinv.stopped (hinv.owner howner)⟩
  · exact hsize ▸ hinv.full (hsize ▸ hpos)
  · obtain ⟨s', o, hstep, _⟩ := hinv.step he
    rw [hstep]
    rfl
  · by_contra hqueue
    obtain ⟨w, hlt, hnot⟩ := hinv.worker hqueue hne
    exact hnot (hall w hlt)
  · obtain ⟨hpos, hroom⟩ := hinv.producer hne
    have := hroom hrunning
    rw [hempty, hnone] at this
    exact absurd this (Nat.not_le.mpr hpos)

/-- One worker, one place: the second producer waits, the worker takes the first task and
notifies it. -/
def handover : List (Action Bool Nat) :=
  [.start 1, .create, .create, .threadInitCB 0, .test 0, .run false 1, .enter false none, .run true 2, .enter true none,
    .take 0 (some true)]

theorem queue_discipline_handover :
    ∃ obs s, (machine Bool Nat).Run (create Bool Nat 1) handover obs s ∧
      (s.notFull_.notified = [true] ∧ s.queue_ = [] ∧ s.running_ = true) ∧
      pushed obs = taken obs ++ s.queue_ ∧ ∀ a, s.Enabled a → (s.step a).isSome = true := by
  have hrun : ∃ obs s, (machine Bool Nat).Run (create Bool Nat 1) handover obs s ∧
      (s.notFull_.notified = [true] ∧ s.queue_ = [] ∧ s.running_ = true) :=
    Machine.Run.exists_of_trace (by decide +kernel)
  obtain ⟨obs, s, hrun, hstate⟩ := hrun
  obtain ⟨_, hsafe, horder, _⟩ := queue_discipline hrun
  exact ⟨obs, s, hrun, hstate, horder, hsafe⟩

end Chtho.Threads.ThreadPool
