import Chtho.Lib.Progress
import Chtho.Threads.ThreadPool.Discipline

/-! `stop` comes to its end.

`stop` clears `running_` and notifies everybody, and then joins the workers one after the
other. A worker that was about to take a task takes it and runs it, if there is one; then it
sees the flag. A producer that waits for room returns with its task. So from the moment when the
flag is cleared each of them has a few steps left, whatever the queue holds, and nobody is left in
a `wait`. -/
namespace Chtho.Threads.ThreadPool
open Lib

variable {ι τ : Type} [DecidableEq ι] {s s' : ThreadPool ι τ} {obs o : List (Event τ)} {a : Action ι τ}

/-! ### Nobody is lost in a condition variable -/

/-- Who is in `wait` is known to the condition variable. -/
structure Present (s : ThreadPool ι τ) : Prop where
  workers : ∀ w, s.threads_[w]? = some .waiting → w ∈ s.notEmpty_.inside
  producers : ∀ p task, s.producer p = .waiting task → p ∈ s.notFull_.inside

/-- A worker that is put elsewhere is not one of those that wait. -/
theorem getElem?_set_waiting {threads : List (Worker τ)} {w w' : Nat} {worker : Worker τ} (hne : worker ≠ .waiting)
    (h : (threads.set w worker)[w']? = some .waiting) : w' ≠ w ∧ threads[w']? = some .waiting := by
  by_cases hw : w = w'
  · subst hw
    obtain ⟨hlt, _⟩ := List.getElem?_eq_some_iff.mp h
    rw [List.getElem?_set_self (by rwa [List.length_set] at hlt)] at h
    exact absurd (Option.some.inj h) hne
  · rw [List.getElem?_set_ne hw] at h
    exact ⟨Ne.symm hw, h⟩

omit [DecidableEq ι] in
theorem Present.setWorker (h : Present s) {w : Nat} {worker : Worker τ} (hne : worker ≠ .waiting) :
    Present {s with threads_ := s.threads_.set w worker} :=
  ⟨fun w' hw' => h.workers w' (getElem?_set_waiting hne hw').2, h.producers⟩

theorem Present.setProducer (h : Present s) {p : ι} {producer : Producer τ} (hne : ∀ task, producer ≠ .waiting task) :
    Present {s with producer := Function.update s.producer p producer} := by
  refine ⟨h.workers, fun p' task hp' => ?_⟩
  by_cases hp : p' = p
  · subst hp
    exact absurd ((Function.update_self ..).symm.trans hp') (hne task)
  · exact h.producers p' task ((Function.update_of_ne hp ..).symm.trans hp')

omit [DecidableEq ι] in
/-- Notifications and wake-ups keep everyone inside. -/
theorem Present.conditions (h : Present s) {notEmpty : CondVar Nat} {notFull : CondVar ι}
    (hworkers : notEmpty.inside.Perm s.notEmpty_.inside) (hproducers : notFull.inside.Perm s.notFull_.inside) :
    Present {s with notEmpty_ := notEmpty, notFull_ := notFull} :=
  ⟨fun w hw => hworkers.mem_iff.mpr (h.workers w hw), fun p task hp => hproducers.mem_iff.mpr (h.producers p task hp)⟩

/-- `take` with the mutex, by a worker that is not in `wait` any more. -/
theorem Present.takeLocked {w : Nat} {choice : Option ι} (hchoice : s.notFull_.Chooses choice)
    (hworkers : ∀ w', w' ≠ w → s.threads_[w']? = some .waiting → w' ∈ s.notEmpty_.inside)
    (hproducers : ∀ p task, s.producer p = .waiting task → p ∈ s.notFull_.inside) :
    Present (s.takeLocked w choice).1 := by
  have hset : ∀ {worker : Worker τ}, worker ≠ .waiting → ∀ w', (s.threads_.set w worker)[w']? = some .waiting →
      w' ∈ s.notEmpty_.inside := by
    intro worker hne w' hw'
    obtain ⟨hw, hwaiting⟩ := getElem?_set_waiting hne hw'
    exact hworkers w' hw hwaiting
  unfold ThreadPool.takeLocked
  split
  · have hperm := CondVar.inside_wait s.notEmpty_ w
    refine ⟨fun w' hw' => hperm.mem_iff.mpr ?_, hproducers⟩
    by_cases hw : w' = w
    · exact hw ▸ List.mem_cons_self
    · rw [List.getElem?_set_ne (Ne.symm hw)] at hw'
      exact List.mem_cons_of_mem _ (hworkers w' hw hw')
  · split
    · refine ⟨hset nofun, fun p task hp => ?_⟩
      have hin := hproducers p task hp
      split
      · exact (CondVar.inside_notify hchoice).mem_iff.mpr hin
      · exact hin
    · exact ⟨hset nofun, hproducers⟩

/-- `run` with the mutex, by a producer that is not in `wait` any more. -/
theorem Present.runLocked {p : ι} {task : τ} {choice : Option Nat} (hchoice : s.notEmpty_.Chooses choice)
    (hworkers : ∀ w, s.threads_[w]? = some .waiting → w ∈ s.notEmpty_.inside)
    (hproducers : ∀ p', p' ≠ p → ∀ task, s.producer p' = .waiting task → p' ∈ s.notFull_.inside)
    (hs : s.runLocked p task choice = some (s', o)) : Present s' := by
  have hset : ∀ p' task, Function.update s.producer p .idle p' = .waiting task → p' ∈ s.notFull_.inside := by
    intro p' task hp'
    by_cases hp : p' = p
    · subst hp
      rw [Function.update_self] at hp'
      cases hp'
    · exact hproducers p' hp task ((Function.update_of_ne hp ..).symm.trans hp')
  simp only [ThreadPool.runLocked, assert_bind] at hs
  split at hs
  · obtain ⟨rfl, _⟩ := Prod.mk.inj (Option.some.inj hs)
    have hperm := CondVar.inside_wait s.notFull_ p
    refine ⟨hworkers, fun p' task' hp' => hperm.mem_iff.mpr ?_⟩
    by_cases hp : p' = p
    · exact hp ▸ List.mem_cons_self
    · exact List.mem_cons_of_mem _ (hproducers p' hp task' ((Function.update_of_ne hp ..).symm.trans hp'))
  · split at hs
    · obtain ⟨rfl, _⟩ := Prod.mk.inj (Option.some.inj hs)
      exact ⟨hworkers, hset⟩
    · split at hs
      · obtain ⟨rfl, _⟩ := Prod.mk.inj (Option.some.inj hs)
        exact ⟨fun w hw => (CondVar.inside_notify hchoice).mem_iff.mpr (hworkers w hw), hset⟩
      · cases hs

theorem present_step (h : Present s) (hinv : Inv 0 obs s) (he : s.Enabled a) (hs : s.step a = some (s', o)) :
    Present s' := by
  cases a with
  | start =>
    obtain ⟨_, hs⟩ := assert_bind_eq_some_iff.mp hs
    obtain ⟨rfl, _⟩ := Prod.mk.inj (Option.some.inj hs)
    exact ⟨h.workers, h.producers⟩
  | create =>
    simp only [ThreadPool.step] at hs
    split at hs
    · obtain ⟨rfl, _⟩ := Prod.mk.inj (Option.some.inj hs)
      exact ⟨h.workers, h.producers⟩
    · obtain ⟨rfl, _⟩ := Prod.mk.inj (Option.some.inj hs)
      refine ⟨fun w hw => ?_, h.producers⟩
      rcases List.getElem?_append .. ▸ hw with hw
      split at hw
      · exact h.workers w hw
      · obtain hlast := List.mem_of_getElem? hw
        simp at hlast
    · cases hs
  | threadInitCB w =>
    obtain ⟨rfl, _⟩ := Prod.mk.inj (Option.some.inj hs)
    exact h.setWorker (by simp)
  | test w =>
    obtain ⟨rfl, _⟩ := Prod.mk.inj (Option.some.inj hs)
    exact h.setWorker (by split <;> simp)
  | take w choice =>
    obtain rfl := congrArg Prod.fst (Option.some.inj hs)
    exact .takeLocked he.2 (fun w' _ hw' => h.workers w' hw') h.producers
  | wakeWorker w =>
    obtain ⟨rfl, _⟩ := Prod.mk.inj (Option.some.inj hs)
    exact h.conditions (CondVar.inside_wake he) .rfl
  | resumeWorker w choice =>
    obtain rfl := congrArg Prod.fst (Option.some.inj hs)
    have hperm := CondVar.inside_resume hinv.nodupWorkers he.1
    refine .takeLocked he.2 (fun w' hw hw' => ?_) h.producers
    exact (List.mem_cons.mp (hperm.mem_iff.mp (h.workers w' hw'))).resolve_left hw
  | task w =>
    simp only [ThreadPool.step, Option.bind_eq_bind, Option.bind_eq_some_iff] at hs
    obtain ⟨worker, _, hs⟩ := hs
    split at hs
    · obtain ⟨rfl, _⟩ := Prod.mk.inj (Option.some.inj hs)
      exact h.setWorker (by simp)
    · obtain ⟨rfl, _⟩ := Prod.mk.inj (Option.some.inj hs)
      exact h.setWorker (by simp)
    · cases hs
  | run p task =>
    simp only [ThreadPool.step] at hs
    split at hs
    · obtain ⟨rfl, _⟩ := Prod.mk.inj (Option.some.inj hs)
      exact h
    · obtain ⟨rfl, _⟩ := Prod.mk.inj (Option.some.inj hs)
      exact h.setProducer (by simp)
  | enter p choice =>
    simp only [ThreadPool.step] at hs
    split at hs
    · exact .runLocked he.2 h.workers (fun p' _ => h.producers p') hs
    · cases hs
  | wakeProducer p =>
    obtain ⟨rfl, _⟩ := Prod.mk.inj (Option.some.inj hs)
    exact h.conditions .rfl (CondVar.inside_wake he)
  | resumeProducer p choice =>
    have hperm := CondVar.inside_resume hinv.nodupProducers he.1
    simp only [ThreadPool.step] at hs
    split at hs
    · refine .runLocked (s := {s with notFull_ := s.notFull_.resume p}) he.2 h.workers (fun p' hp task hp' => ?_) hs
      exact (List.mem_cons.mp (hperm.mem_iff.mp (h.producers p' task hp'))).resolve_left hp
    · cases hs
  | stop =>
    obtain ⟨rfl, _⟩ := Prod.mk.inj (Option.some.inj hs)
    have hall := h.conditions (CondVar.inside_notifyAll _) (CondVar.inside_notifyAll _)
    exact ⟨hall.workers, hall.producers⟩
  | join =>
    obtain ⟨rfl, _⟩ := Prod.mk.inj (Option.some.inj hs)
    exact ⟨h.workers, h.producers⟩

/-! ### What is left to do -/

/-- How far a worker is from its end once `running_` is cleared. -/
def Worker.left : Worker τ → Nat
  | .exited => 0
  | .test => 1
  | .starting | .task _ => 2
  | .take | .waiting => 3

/-- The worker may take one more task. -/
def Worker.hungry : Worker τ → Nat
  | .take | .waiting => 1
  | .starting | .test | .task _ | .exited => 0

def Producer.left : Producer τ → Nat
  | .idle => 0
  | .entering _ | .waiting _ => 1

def Owner.left : Owner → Nat
  | .joining => 1
  | _ => 0

def workers (s : ThreadPool ι τ) : Nat := (s.threads_.map Worker.left).sum

def hungry (s : ThreadPool ι τ) : Nat := (s.threads_.map Worker.hungry).sum

def work [Fintype ι] (s : ThreadPool ι τ) : Nat := s.workers + ∑ p, (s.producer p).left + s.owner.left

/-- A call of `run` comes from outside. -/
def Action.calls : Action ι τ → Bool
  | .run _ _ => true
  | _ => false

/-- A worker that goes on, with `running_` cleared. -/
structure WorkerGoes (s s' : ThreadPool ι τ) (o : List (Event τ)) : Prop where
  workers : s'.workers < s.workers
  hungry : (taken o).length + s'.hungry ≤ s.hungry
  producer : s'.producer = s.producer
  owner : s'.owner = s.owner
  threads : s'.threads_.length = s.threads_.length

omit [DecidableEq ι] in
theorem workerGoes {w : Nat} {worker worker' : Worker τ} (hw : s.threads_[w]? = some worker)
    (hthreads : s'.threads_ = s.threads_.set w worker') (hleft : worker'.left < worker.left)
    (hhungry : (taken o).length + worker'.hungry ≤ worker.hungry) (hproducer : s'.producer = s.producer)
    (howner : s'.owner = s.owner) : WorkerGoes s s' o := by
  have hwork := sum_map_set Worker.left hw worker'
  have hhunger := sum_map_set Worker.hungry hw worker'
  refine ⟨?_, ?_, hproducer, howner, by rw [hthreads, List.length_set]⟩
  · rw [ThreadPool.workers, ThreadPool.workers, hthreads]
    omega
  · rw [ThreadPool.hungry, ThreadPool.hungry, hthreads]
    omega

/-- Behind the end of the loop of `take`, with `running_` cleared. -/
theorem takeLocked_goes (hstopped : s.running_ = false) {w : Nat} {worker : Worker τ}
    (hw : s.threads_[w]? = some worker) (hplace : worker = .take ∨ worker = .waiting) (choice : Option ι) :
    WorkerGoes s (s.takeLocked w choice).1 (s.takeLocked w choice).2 := by
  unfold ThreadPool.takeLocked
  rw [hstopped, Bool.and_false, if_neg Bool.false_ne_true]
  split
  · rcases hplace with rfl | rfl
    all_goals exact workerGoes hw rfl (by simp [Worker.left]) (by simp [Worker.hungry, taken]) rfl rfl
  · rcases hplace with rfl | rfl
    all_goals exact workerGoes hw rfl (by simp [Worker.left]) (by simp [Worker.hungry, taken]) rfl rfl

/-- A producer returns, or the owner has joined all workers. -/
structure OthersGo (s s' : ThreadPool ι τ) (o : List (Event τ)) [Fintype ι] : Prop where
  threads : s'.threads_ = s.threads_
  taken : taken o = []
  owner : s'.owner = s.owner ∨ s'.owner = .stopped
  others : ∑ p, (s'.producer p).left + s'.owner.left < ∑ p, (s.producer p).left + s.owner.left

theorem runLocked_goes [Fintype ι] (hstopped : s.running_ = false) {p : ι} {task : τ} {choice : Option Nat}
    (hplace : (s.producer p).left = 1) (hs : s.runLocked p task choice = some (s', o)) : OthersGo s s' o := by
  simp only [ThreadPool.runLocked, hstopped, Bool.and_false, Bool.false_eq_true, if_false, Bool.not_false, if_true] at hs
  obtain ⟨rfl, rfl⟩ := Prod.mk.inj (Option.some.inj hs)
  refine ⟨rfl, rfl, .inl rfl, Nat.add_lt_add_right (sum_lt_of_one p ?_ fun q hq => ?_) _⟩
  · simp only [Function.update_self, hplace]
    exact Nat.one_pos
  · simp only [Function.update_of_ne hq]

/-- The flag is cleared and the owner joins, or has joined. -/
structure Stopping (s : ThreadPool ι τ) : Prop where
  inv : ∃ obs, Inv 0 obs s
  present : Present s
  owner : s.owner = .joining ∨ s.owner = .stopped

omit [DecidableEq ι] in
theorem Stopping.stopped (h : Stopping s) : s.running_ = false := by
  obtain ⟨obs, hinv⟩ := h.inv
  exact hinv.owner h.owner

/-- A step with the flag cleared is one of a worker, or one of the others. -/
theorem Stopping.goes [Fintype ι] (h : Stopping s) (ha : a.calls = false) (he : s.Enabled a)
    (hs : s.step a = some (s', o)) :
    WorkerGoes s s' o ∨ OthersGo s s' o := by
  obtain ⟨obs, hinv⟩ := h.inv
  have hstopped := h.stopped
  obtain ⟨hnoWorker, hnoProducer⟩ := hinv.stopped hstopped
  have howner : ∀ owner, owner ≠ .joining → owner ≠ .stopped → s.owner ≠ owner := by
    rintro owner hj hs rfl
    exact h.owner.elim hj hs
  cases a with
  | start => exact absurd he (howner _ nofun nofun)
  | create =>
    have hstarts : s.owner.starts = true := he
    rcases h.owner with ho | ho <;> rw [ho] at hstarts <;> cases hstarts
  | run => cases ha
  | stop => exact absurd he (howner _ nofun nofun)
  | wakeWorker w =>
    have hmem : w ∈ s.notEmpty_.waiting := he
    rw [hnoWorker] at hmem
    cases hmem
  | wakeProducer p =>
    have hmem : p ∈ s.notFull_.waiting := he
    rw [hnoProducer] at hmem
    cases hmem
  | threadInitCB w =>
    obtain ⟨rfl, rfl⟩ := Prod.mk.inj (Option.some.inj hs)
    exact .inl (workerGoes he rfl (by simp [Worker.left]) (by simp [Worker.hungry, taken]) rfl rfl)
  | test w =>
    rw [ThreadPool.step, hstopped, if_neg Bool.false_ne_true] at hs
    obtain ⟨rfl, rfl⟩ := Prod.mk.inj (Option.some.inj hs)
    exact .inl (workerGoes he rfl (by simp [Worker.left]) (by simp [Worker.hungry, taken]) rfl rfl)
  | take w choice =>
    obtain ⟨rfl, rfl⟩ := Prod.mk.inj (Option.some.inj hs)
    exact .inl (takeLocked_goes hstopped he.1 (.inl rfl) choice)
  | resumeWorker w choice =>
    obtain ⟨rfl, rfl⟩ := Prod.mk.inj (Option.some.inj hs)
    have hplace := (hinv.resumeWorker he.1).2.2
    obtain ⟨hworkers, hhungry, hproducer, hown, hthreads⟩ :=
      takeLocked_goes (s := {s with notEmpty_ := s.notEmpty_.resume w}) hstopped hplace (.inr rfl) choice
    exact .inl ⟨hworkers, hhungry, hproducer, hown, hthreads⟩
  | task w =>
    simp only [ThreadPool.step, Option.bind_eq_bind, Option.bind_eq_some_iff] at hs
    obtain ⟨worker, hw, hs⟩ := hs
    split at hs
    · obtain ⟨rfl, rfl⟩ := Prod.mk.inj (Option.some.inj hs)
      exact .inl (workerGoes hw rfl (by simp [Worker.left]) (by simp [Worker.hungry, taken]) rfl rfl)
    · obtain ⟨rfl, rfl⟩ := Prod.mk.inj (Option.some.inj hs)
      exact .inl (workerGoes hw rfl (by simp [Worker.left]) (by simp [Worker.hungry, taken]) rfl rfl)
    · cases hs
  | enter p choice =>
    simp only [ThreadPool.step] at hs
    split at hs
    case h_1 task hp => exact .inr (runLocked_goes hstopped (by rw [hp]; rfl) hs)
    case h_2 => cases hs
  | resumeProducer p choice =>
    simp only [ThreadPool.step] at hs
    split at hs
    case h_1 task hp =>
      obtain ⟨hthreads, htaken, hown, hothers⟩ :=
        runLocked_goes (s := {s with notFull_ := s.notFull_.resume p}) hstopped (by rw [hp]; rfl) hs
      exact .inr ⟨hthreads, htaken, hown, hothers⟩
    case h_2 => cases hs
  | join =>
    obtain ⟨rfl, rfl⟩ := Prod.mk.inj (Option.some.inj hs)
    exact .inr ⟨rfl, rfl, .inr rfl, by rw [he.1]; exact Nat.lt_succ_self _⟩

/-- The machine without new calls of `run`. -/
def closing (ι τ : Type) [DecidableEq ι] : Machine (ThreadPool ι τ) (Action ι τ) (Event τ) :=
  (machine ι τ).restrict fun _ a => a.calls = false

instance [DecidableEq τ] (s : ThreadPool ι τ) (a : Action ι τ) : Decidable ((closing ι τ).enabled s a) :=
  inferInstanceAs (Decidable (s.Enabled a ∧ a.calls = false))

theorem stopping_step [Fintype ι] (h : Stopping s) (he : (closing ι τ).enabled s a)
    (hs : (closing ι τ).step s a = some (s', o)) : Stopping s' ∧ s'.work < s.work := by
  obtain ⟨obs, hinv⟩ := h.inv
  obtain ⟨s₁, o₁, hs₁, hinv'⟩ := hinv.step he.1
  obtain ⟨rfl, rfl⟩ := Prod.mk.inj (Option.some.inj (hs.symm.trans hs₁))
  have hpresent := present_step h.present hinv he.1 hs
  rcases h.goes he.2 he.1 hs with hgoes | hgoes
  · refine ⟨⟨⟨_, hinv'⟩, hpresent, hgoes.owner ▸ h.owner⟩, ?_⟩
    have hlt := hgoes.workers
    rw [work, work, hgoes.producer, hgoes.owner]
    omega
  · refine ⟨⟨⟨_, hinv'⟩, hpresent, hgoes.owner.elim (fun heq => heq ▸ h.owner) .inr⟩, ?_⟩
    have hlt := hgoes.others
    rw [work, work, ThreadPool.workers, ThreadPool.workers, hgoes.threads]
    omega

omit [DecidableEq ι] in
/-- A worker that has not exited can go on. -/
theorem Stopping.worker_enabled (h : Stopping s) {w : Nat} {worker : Worker τ} (hw : s.threads_[w]? = some worker)
    (hne : worker ≠ .exited) : ∃ a : Action ι τ, a.calls = false ∧ s.Enabled a := by
  obtain ⟨obs, hinv⟩ := h.inv
  obtain ⟨hnoWorker, hnoProducer⟩ := hinv.stopped h.stopped
  cases worker with
  | starting => exact ⟨.threadInitCB w, rfl, hw⟩
  | test => exact ⟨.test w, rfl, hw⟩
  | take => exact ⟨.take w none, rfl, hw, hnoProducer⟩
  | waiting =>
    have hin := h.present.workers w hw
    rw [CondVar.inside, hnoWorker, List.nil_append, List.mem_append] at hin
    exact ⟨.resumeWorker w none, rfl, hin, hnoProducer⟩
  | task task => exact ⟨.task w, rfl, _, hw, rfl⟩
  | exited => exact absurd rfl hne

omit [DecidableEq ι] in
/-- A producer that has not returned can go on. -/
theorem Stopping.producer_enabled (h : Stopping s) {p : ι} (hp : s.producer p ≠ .idle) :
    ∃ a : Action ι τ, a.calls = false ∧ s.Enabled a := by
  obtain ⟨obs, hinv⟩ := h.inv
  obtain ⟨hnoWorker, hnoProducer⟩ := hinv.stopped h.stopped
  cases hplace : s.producer p with
  | idle => exact absurd hplace hp
  | entering task => exact ⟨.enter p none, rfl, by rw [hplace]; rfl, hnoWorker⟩
  | waiting task =>
    have hin := h.present.producers p task hplace
    rw [CondVar.inside, hnoProducer, List.nil_append, List.mem_append] at hin
    exact ⟨.resumeProducer p none, rfl, hin, hnoWorker⟩

theorem stopping_of_run {maxQueueSz : Nat} {as : List (Action ι τ)}
    (h : (machine ι τ).Run (create ι τ maxQueueSz) as obs s) (howner : s.owner = .joining) : Stopping s := by
  have hpresent : Present s := by
    refine (h.invariant (fun obs s => Inv 0 obs s ∧ Present s) ⟨inv_create _, nofun, nofun⟩ ?_).2
    rintro obs s a s' o ⟨hinv, hpresent⟩ he hs
    obtain ⟨s₁, o₁, hs₁, hinv'⟩ := hinv.step he
    obtain ⟨rfl, rfl⟩ := Prod.mk.inj (Option.some.inj (hs.symm.trans hs₁))
    exact ⟨hinv', present_step hpresent hinv he hs⟩
  exact ⟨⟨_, inv_run h⟩, hpresent, .inl howner⟩

/-- After the flag is cleared no worker takes more than one task. -/
theorem taken_le [Fintype ι] {as' : List (Action ι τ)} {obs' : List (Event τ)} (h : Stopping s)
    (h' : (closing ι τ).Run s as' obs' s') : (taken obs').length ≤ s.threads_.length := by
  have hbound : s.hungry ≤ s.threads_.length := by
    have hone : ∀ worker ∈ s.threads_.map Worker.hungry, worker ≤ 1 := by
      intro n hn
      obtain ⟨worker, _, rfl⟩ := List.mem_map.mp hn
      cases worker <;> simp [Worker.hungry]
    simpa [ThreadPool.hungry] using List.sum_le_card_nsmul _ 1 hone
  have hrun := h'.invariant (fun obs' s' => Stopping s' ∧ (taken obs').length + s'.hungry ≤ s.hungry)
    ⟨h, Nat.le_of_eq (Nat.zero_add _)⟩ (by
      rintro obs' s₁ a s₂ o ⟨hI, hle⟩ he hs
      refine ⟨(stopping_step hI he hs).1, ?_⟩
      rw [taken_append, List.length_append]
      rcases hI.goes he.2 he.1 hs with hgoes | hgoes
      · have hstep := hgoes.hungry
        omega
      · rw [hgoes.taken, ThreadPool.hungry, hgoes.threads]
        exact hle)
  omega

/-- **`stop` comes to its end.** From any state in which `stop` has cleared the flag and joins the
threads, and as long as nobody calls `run` anew, every run is at most as long as the work that is
left, however the threads are scheduled and whatever the queue holds; and it can always go on until
`stop` has returned, with every worker exited and every producer back. On the way no more tasks are
taken than there are workers. -/
theorem stop_comes_to_its_end [Fintype ι] {maxQueueSz : Nat} {as as' : List (Action ι τ)} {obs' : List (Event τ)}
    (h : (machine ι τ).Run (create ι τ maxQueueSz) as obs s) (howner : s.owner = .joining)
    (h' : (closing ι τ).Run s as' obs' s') :
    as'.length + s'.work ≤ s.work ∧ (taken obs').length ≤ s.threads_.length ∧
      ((s'.owner = .stopped ∧ (∀ worker ∈ s'.threads_, worker = .exited) ∧ ∀ p, s'.producer p = .idle) ∨
        ∃ a : Action ι τ, a.calls = false ∧ s'.Enabled a ∧ (s'.step a).isSome) := by
  have hstopping := stopping_of_run h howner
  obtain ⟨hstopping', hlength⟩ := h'.length_le (fun s a s' o hI he hs => stopping_step hI he hs) hstopping
  refine ⟨hlength, taken_le hstopping h', ?_⟩
  obtain ⟨obs₁, hinv⟩ := hstopping'.inv
  have hgoes : (∃ a : Action ι τ, a.calls = false ∧ s'.Enabled a) →
      ∃ a : Action ι τ, a.calls = false ∧ s'.Enabled a ∧ (s'.step a).isSome := by
    rintro ⟨a, ha, he⟩
    obtain ⟨s₁, o₁, hs₁, _⟩ := hinv.step he
    exact ⟨a, ha, he, by rw [hs₁]; rfl⟩
  by_cases hworkers : ∀ worker ∈ s'.threads_, worker = .exited
  · by_cases hproducers : ∀ p, s'.producer p = .idle
    · rcases hstopping'.owner with hjoining | hstopped
      · exact .inr (hgoes ⟨.join, rfl, hjoining, hworkers⟩)
      · exact .inl ⟨hstopped, hworkers, hproducers⟩
    · rw [not_forall] at hproducers
      obtain ⟨p, hp⟩ := hproducers
      exact .inr (hgoes (hstopping'.producer_enabled hp))
  · simp only [not_forall] at hworkers
    obtain ⟨worker, hmem, hne⟩ := hworkers
    obtain ⟨w, hw⟩ := List.mem_iff_getElem?.mp hmem
    exact .inr (hgoes (hstopping'.worker_enabled hw hne))

/-- One worker that waits, and one place in the queue, which is taken before it is back: with the
second producer waiting, the pool is stopped. -/
def stoppedFull : List (Action Bool Nat) :=
  [.start 1, .create, .create, .threadInitCB 0, .test 0, .take 0 none, .run false 1, .enter false (some 0), .run true 2,
    .enter true none, .stop]

theorem stop_comes_to_its_end_stoppedFull :
    ∃ obs s obs' s', (machine Bool Nat).Run (create Bool Nat 1) stoppedFull obs s ∧ s.owner = .joining ∧
      (closing Bool Nat).Run s [.resumeWorker 0 none] obs' s' ∧ obs' = [.taken 1] ∧ 1 + s'.work ≤ s.work ∧
      (taken obs').length ≤ s.threads_.length := by
  obtain ⟨obs, s, obs', s', hrun, hrun', howner, hobs⟩ :
      ∃ obs s obs' s', (machine Bool Nat).Run (create Bool Nat 1) stoppedFull obs s ∧
        (closing Bool Nat).Run s [.resumeWorker 0 none] obs' s' ∧ s.owner = .joining ∧ obs' = [.taken 1] :=
    Machine.Run.exists_of_traces (by decide +kernel)
  have hmain := stop_comes_to_its_end hrun howner hrun'
  exact ⟨obs, s, obs', s', hrun, howner, hrun', hobs, hmain.1, hmain.2.1⟩

end Chtho.Threads.ThreadPool
