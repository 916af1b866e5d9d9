import Chtho.Threads.CountDownLatch

/-! `Thread`: a thread and the object that stands for it.

`start` hands the new thread pointers into the object: to `tid_`, which the thread fills in, and
to the latch, on which `start` waits for that. The thread is still inside `countDown` when it
opens the latch, and the owner may destroy the object as soon as `start` has returned. So
what the new thread touches of the object has to be over by then, up to the end of
`pthread_mutex_unlock`. -/
namespace Chtho.Threads
open Lib

namespace Thread

/-- The thread that owns the object, and the one the object stands for. -/
inductive Side where
  | owner
  | self
deriving DecidableEq, Repr

instance : Fintype Side := ⟨{.owner, .self}, fun t => by cases t <;> decide⟩

/-- Where the owner is. -/
inductive Owner where
  | constructed
  /-- In `start`, before `pthread_create`. -/
  | creating
  /-- `pthread_create` has failed, which ends the program. -/
  | fatal
  /-- In `latch_.wait()`. -/
  | waiting
  /-- In `start`, past the wait. -/
  | waited
  | started
  /-- In `pthread_join`. -/
  | joining
  | destroyed
deriving DecidableEq, Repr

/-- Where the new thread is. -/
inductive Self where
  | none
  | created
  /-- `tid_` is filled in. -/
  | named
  /-- In `latch_->countDown()`. -/
  | counting
  | running
  | exited
deriving DecidableEq, Repr

/-- What becomes of what `pthread_create` returns. -/
inductive Handle where
  | none
  | joinable
  | joined
  | detached
deriving DecidableEq, Repr

inductive Action where
  | start
  | create (ok : Bool)
  /-- The new thread fills in `tid_`. -/
  | setTid
  | countDown
  | latch (a : CountDownLatch.Action Side)
  /-- `assert(tid_ > 0)`, and `start` returns. -/
  | checkTid
  | func
  | join
  | joined
  | destroy
deriving DecidableEq, Repr

inductive Event where
  | started (tid : Nat)
  | ran
  | joined
  | destroyed
deriving DecidableEq, Repr

end Thread

open Thread in
structure Thread where
  started_ : Bool
  joined_ : Bool
  tid_ : Nat
  latch_ : CountDownLatch Side
  handle : Handle
  owner : Owner
  self : Self

namespace Thread

def create : Thread := ⟨false, false, 0, .create Side 1, .none, .constructed, .none⟩

/-- The memory of the object is still there. -/
def alive (s : Thread) : Bool := s.owner != .destroyed

variable (ids : MutexLock.Tids Side)

/-- A step of the latch, in the memory of the object. -/
def onLatch (s : Thread) (a : CountDownLatch.Action Side) : Option (Thread × List (CountDownLatch.Event Side)) := do
  assert (s.alive = true)
  let (l, o) ← s.latch_.step ids a
  some ({s with latch_ := l}, o)

/-- The call of the latch has returned. -/
def returned (s : Thread) : Side → Thread
  | .owner => {s with owner := .waited}
  | .self => {s with self := .running}

def step (s : Thread) : Action → Option (Thread × List Event)
  | .start => do
    assert (s.started_ = false)
    some ({s with started_ := true, owner := .creating}, [])
  | .create true => do
    let (s, _) ← {s with handle := .joinable, self := .created, owner := .waiting}.onLatch ids (.wait .owner)
    some (s, [])
  | .create false => some ({s with started_ := false, owner := .fatal}, [])
  | .setTid => do
    assert (s.alive = true)
    some ({s with tid_ := ids.tid .self, self := .named}, [])
  | .countDown => do
    let (s, _) ← {s with self := .counting}.onLatch ids (.countDown .self)
    some (s, [])
  | .latch a => do
    let (s', _) ← s.onLatch ids a
    some (if s'.latch_.call a.thread = .idle then s'.returned a.thread else s', [])
  | .checkTid => do
    assert (s.tid_ > 0)
    some ({s with owner := .started}, [.started s.tid_])
  | .func => some ({s with self := .exited}, [.ran])
  | .join => do
    assert (s.started_ = true)
    assert (s.joined_ = false)
    some ({s with joined_ := true, owner := .joining}, [])
  | .joined => some ({s with handle := .joined, owner := .started}, [.joined])
  | .destroy => do
    let handle := if s.started_ && !s.joined_ then .detached else s.handle
    -- the destructors of the latch's condition variable and of its mutex
    assert (s.latch_.mutex_.cond.inside = [])
    let (m, _) ← s.latch_.mutex_.step ids .destroy
    some ({s with handle := handle, latch_ := {s.latch_ with mutex_ := m}, owner := .destroyed}, [.destroyed])

/-- An owner starts a thread once, joins it once at most, and may destroy the object at any time
when it is in no call. -/
def Enabled (s : Thread) : Action → Prop
  | .start => s.owner = .constructed
  | .create _ => s.owner = .creating
  | .setTid => s.self = .created
  | .countDown => s.self = .named
  | .latch a => a.calls = false ∧ s.latch_.Enabled a
  | .checkTid => s.owner = .waited
  | .func => s.self = .running
  | .join => s.owner = .started ∧ s.joined_ = false
  | .joined => s.owner = .joining ∧ s.self = .exited
  | .destroy => s.owner = .constructed ∨ s.owner = .started

def machine : Machine Thread Action Event := ⟨Enabled, step ids⟩

instance (s : Thread) (a : Action) : Decidable ((machine ids).enabled s a) :=
  match a with
  | .start => inferInstanceAs (Decidable (s.owner = .constructed))
  | .create _ => inferInstanceAs (Decidable (s.owner = .creating))
  | .setTid => inferInstanceAs (Decidable (s.self = .created))
  | .countDown => inferInstanceAs (Decidable (s.self = .named))
  | .latch a => inferInstanceAs (Decidable (a.calls = false ∧ (CountDownLatch.machine ids).enabled s.latch_ a))
  | .checkTid => inferInstanceAs (Decidable (s.owner = .waited))
  | .func => inferInstanceAs (Decidable (s.self = .running))
  | .join => inferInstanceAs (Decidable (s.owner = .started ∧ s.joined_ = false))
  | .joined => inferInstanceAs (Decidable (s.owner = .joining ∧ s.self = .exited))
  | .destroy => inferInstanceAs (Decidable (s.owner = .constructed ∨ s.owner = .started))

/-! ### The invariant -/

/-- The new thread is through with the object. -/
def Self.past : Self → Bool
  | .running | .exited => true
  | .none | .created | .named | .counting => false

/-- What the owner's place says about the object. -/
def OwnerFits (s : Thread) : Prop :=
  match s.owner with
  | .constructed => s.started_ = false ∧ s.joined_ = false ∧ s.handle = .none ∧ s.self = .none
  | .creating => s.started_ = true ∧ s.joined_ = false ∧ s.handle = .none ∧ s.self = .none
  | .fatal => s.self = .none
  | .waiting => s.started_ = true ∧ s.joined_ = false ∧ s.handle = .joinable ∧ s.self ≠ .none
  | .waited => s.started_ = true ∧ s.joined_ = false ∧ s.handle = .joinable ∧ s.self.past = true
  | .started => s.started_ = true ∧ s.handle = (if s.joined_ then .joined else .joinable) ∧ s.self.past = true
  | .joining => s.started_ = true ∧ s.joined_ = true ∧ s.handle = .joinable ∧ s.self.past = true
  | .destroyed => s.handle ≠ .joinable ∧ (s.self = .none ∨ s.self.past = true)

/-- What the new thread's place says about the latch. -/
def SelfFits : Self → CountDownLatch.Call → Int → Prop
  | .none, c, n | .created, c, n | .named, c, n => c = .idle ∧ n = 1
  | .counting, c, n => c = .countDown ∧ n = 1 ∨ (c = .decremented ∨ c = .counted) ∧ n = 0
  | .running, c, n | .exited, c, n => c = .idle ∧ n = 0

/-- What the owner's place says about its call of `wait`. -/
def WaitFits : Owner → CountDownLatch.Call → Prop
  | .waiting, c => c = .wait ∨ c = .waited
  | _, c => c = .idle

structure Inv (obs : List Event) (s : Thread) : Prop where
  latch : ∃ obs, s.latch_.Inv ids 1 obs
  owner : s.OwnerFits
  wait : WaitFits s.owner (s.latch_.call .owner)
  self : SelfFits s.self (s.latch_.call .self) s.latch_.count_
  /-- Who has seen the latch open comes after the new thread has left it. -/
  opened : s.latch_.call .owner = .waited → s.self.past = true
  tid : s.self ≠ .none → s.self ≠ .created → s.tid_ = ids.tid .self
  ran : obs.count .ran = if s.self = .exited then 1 else 0
  history : Throughout (fun pre e => match e with
    | .started tid => tid = ids.tid .self
    | .joined => .ran ∈ pre
    | _ => True) obs

variable {ids} {s s' : Thread} {obs : List Event} {a : Action}

theorem create_inv : Inv ids [] create :=
  ⟨⟨[], CountDownLatch.create_inv⟩, ⟨rfl, rfl, rfl, rfl⟩, rfl, ⟨rfl, rfl⟩, nofun, fun h => absurd rfl h, rfl,
    throughout_nil⟩

/-- As long as the new thread is not through with the object, the owner is in `latch_.wait()`. -/
theorem Inv.waiting (h : Inv ids obs s) (hself : s.self ≠ .none) (hpast : s.self.past = false) :
    s.owner = .waiting := by
  have howner := h.owner
  unfold OwnerFits at howner
  cases hplace : s.owner <;> rw [hplace] at howner
  case constructed | creating => exact absurd howner.2.2.2 hself
  case fatal => exact absurd howner hself
  case waited | joining =>
    rw [howner.2.2.2] at hpast
    cases hpast
  case started =>
    rw [howner.2.2] at hpast
    cases hpast
  case destroyed =>
    rcases howner.2 with hnone | hdone
    · exact absurd hnone hself
    · rw [hdone] at hpast
      cases hpast

theorem alive_of_waiting (h : s.owner = .waiting) : s.alive = true := by
  rw [alive, h]
  rfl

theorem onLatch_eq (halive : s.alive = true) {l : CountDownLatch Side} {b : CountDownLatch.Action Side}
    {o : List (CountDownLatch.Event Side)} (hl : s.latch_.step ids b = some (l, o)) :
    s.onLatch ids b = some ({s with latch_ := l}, o) := by
  simp only [onLatch, assert_bind, if_pos halive, hl, Option.bind_eq_bind, Option.bind_some]

theorem WaitFits.waiting {o : Owner} {c : CountDownLatch.Call} (h : WaitFits o c) (hc : c ≠ .idle) :
    o = .waiting ∧ (c = .wait ∨ c = .waited) := by
  cases o with
  | waiting => exact ⟨rfl, h⟩
  | constructed | creating | fatal | waited | started | joining | destroyed => exact absurd h hc

theorem SelfFits.counting {p : Self} {c : CountDownLatch.Call} {n : Int} (h : SelfFits p c n) (hc : c ≠ .idle) :
    p = .counting ∧ (c = .countDown ∧ n = 1 ∨ (c = .decremented ∨ c = .counted) ∧ n = 0) := by
  cases p with
  | counting => exact ⟨rfl, h⟩
  | none | created | named | running | exited => exact absurd h.1 hc

/-- The latch alone has moved. -/
theorem Inv.withLatch (h : Inv ids obs s) {l : CountDownLatch Side} (hl : ∃ obs, l.Inv ids 1 obs)
    (hwait : WaitFits s.owner (l.call .owner)) (hself : SelfFits s.self (l.call .self) l.count_)
    (hopened : l.call .owner = .waited → s.self.past = true) : Inv ids obs {s with latch_ := l} :=
  ⟨hl, h.owner, hwait, hself, hopened, h.tid, h.ran, h.history⟩

/-- Who is past the loop of `wait` has the mutex, and so the new thread has given it back. -/
theorem past_of_opened {l : CountDownLatch Side} {p : Self} {lobs : List (CountDownLatch.Event Side)}
    (hl : l.Inv ids 1 lobs) (hself : SelfFits p (l.call .self) l.count_) (hcall : l.call .owner = .waited) :
    p.past = true := by
  have howns : (l.mutex_.place .owner).owns = true := by
    have hfits := hl.fits .owner
    rw [hcall] at hfits
    cases hp : l.mutex_.place .owner <;> rw [hp] at hfits <;> first | rfl | cases hfits
  have hfree := hl.mutex.alone howns (u := .self) nofun
  have hzero := hl.waited .owner hcall
  cases p with
  | running | exited => rfl
  | none | created | named =>
    have hone := hself.2
    omega
  | counting =>
    rcases hself with ⟨_, hone⟩ | ⟨hc, _⟩
    · omega
    · -- it would have the mutex too
      have hfits := hl.fits .self
      have htaken : (l.mutex_.place .self).owns = true := by
        rcases hc with hc | hc <;> rw [hc] at hfits <;> cases hp : l.mutex_.place .self <;> rw [hp] at hfits <;>
          first | rfl | cases hfits
      rw [hfree] at htaken
      cases htaken

/-- The owner is in `latch_.wait()` until its call returns. -/
theorem Inv.latchOwner (h : Inv ids obs s) {b : CountDownLatch.Action Side} (hb : b.calls = false)
    (he : s.latch_.Enabled b) (hthread : b.thread = .owner) :
    ∃ s', step ids s (.latch b) = some (s', []) ∧ Inv ids obs s' := by
  obtain ⟨lobs, hlatch⟩ := h.latch
  obtain ⟨l, o, hl, hlatch'⟩ := CountDownLatch.inv_step hlatch he
  obtain ⟨hnext, hothers⟩ := CountDownLatch.step_call hlatch hb he hl
  rw [hthread] at hnext
  have hself' : l.call .self = s.latch_.call .self := hothers .self (by rw [hthread]; nofun)
  obtain ⟨hwaiting, hcall⟩ := h.wait.waiting hnext.busy
  obtain ⟨hcount, hnext⟩ := hnext.wait hcall
  have hself : SelfFits s.self (l.call .self) l.count_ := by
    rw [hself', hcount]
    exact h.self
  have hopened : l.call .owner = .waited → s.self.past = true := past_of_opened hlatch' hself
  simp only [step, onLatch_eq (alive_of_waiting hwaiting) hl, Option.bind_eq_bind, Option.bind_some, hthread]
  refine ⟨_, rfl, ?_⟩
  split
  case isTrue hidle =>
    have hpast : s.self.past = true := by
      rcases hnext with hc | hc | ⟨_, hc⟩
      · rw [hidle] at hc
        cases hc
      · exact hopened hc
      · exact h.opened hc
    have howner := h.owner
    rw [OwnerFits, hwaiting] at howner
    refine ⟨⟨_, hlatch'⟩, ⟨howner.1, howner.2.1, howner.2.2.1, hpast⟩, hidle, hself, hopened, h.tid, h.ran, h.history⟩
  case isFalse hbusy =>
    refine h.withLatch ⟨_, hlatch'⟩ ?_ hself hopened
    rw [hwaiting]
    exact hnext.imp_right fun hc => hc.resolve_right fun hc => hbusy hc.1

/-- The new thread is in `latch_->countDown()` until its call returns. -/
theorem Inv.latchSelf (h : Inv ids obs s) {b : CountDownLatch.Action Side} (hb : b.calls = false)
    (he : s.latch_.Enabled b) (hthread : b.thread = .self) :
    ∃ s', step ids s (.latch b) = some (s', []) ∧ Inv ids obs s' := by
  obtain ⟨lobs, hlatch⟩ := h.latch
  obtain ⟨l, o, hl, hlatch'⟩ := CountDownLatch.inv_step hlatch he
  obtain ⟨hnext, hothers⟩ := CountDownLatch.step_call hlatch hb he hl
  rw [hthread] at hnext
  have howner' : l.call .owner = s.latch_.call .owner := hothers .owner (by rw [hthread]; nofun)
  obtain ⟨hcounting, hcall⟩ := h.self.counting hnext.busy
  have hwaiting := h.waiting (by rw [hcounting]; nofun) (by rw [hcounting]; rfl)
  have hwait : WaitFits s.owner (l.call .owner) := howner' ▸ h.wait
  have hopened : l.call .owner = .waited → s.self.past = true := fun hc => h.opened (howner' ▸ hc)
  have hnext := hnext.countDown (hcall.imp And.left And.left)
  simp only [step, onLatch_eq (alive_of_waiting hwaiting) hl, Option.bind_eq_bind, Option.bind_some, hthread]
  refine ⟨_, rfl, ?_⟩
  split
  case isTrue hidle =>
    have hzero : l.count_ = 0 := by
      rcases hcall with ⟨hc, _⟩ | ⟨_, hzero⟩ <;> rcases hnext with ⟨hc', hnext⟩ | ⟨hc', hcount, _⟩
      · rw [hidle] at hnext
        simp at hnext
      · exact absurd hc hc'
      · rw [hidle] at hnext
        simp at hnext
      · exact hcount.trans hzero
    have howner := h.owner
    rw [OwnerFits, hwaiting] at howner
    refine ⟨⟨_, hlatch'⟩, ?_, hwait, ⟨hidle, hzero⟩, fun _ => rfl, fun _ _ => h.tid (by rw [hcounting]; nofun)
      (by rw [hcounting]; nofun), ?_, h.history⟩
    · rw [OwnerFits, returned, hwaiting]
      exact ⟨howner.1, howner.2.1, howner.2.2.1, nofun⟩
    · rw [h.ran, hcounting]
      rfl
  case isFalse hbusy =>
    refine h.withLatch ⟨_, hlatch'⟩ hwait ?_ hopened
    rw [hcounting]
    rcases hcall with ⟨hc, hone⟩ | ⟨hc, hzero⟩ <;> rcases hnext with ⟨hc', hnext⟩ | ⟨hc', hcount, hnext⟩
    · rcases hnext with ⟨hc'', hcount⟩ | ⟨hc'', hcount⟩
      · exact .inl ⟨hc'', hcount.trans hone⟩
      · exact .inr ⟨.inl hc'', by omega⟩
    · exact absurd hc hc'
    · rw [hc'] at hc
      simp at hc
    · refine .inr ⟨?_, hcount.trans hzero⟩
      rcases hnext with hn | hn | hn
      · exact .inl hn
      · exact .inr hn
      · exact absurd hn hbusy

/-- With nobody in a call of the latch, its destructors find nobody. -/
theorem Inv.unused (h : Inv ids obs s) (hwait : s.latch_.call .owner = .idle) (hself : s.latch_.call .self = .idle) :
    s.latch_.mutex_.cond.inside = [] ∧ s.latch_.mutex_.Enabled .destroy := by
  obtain ⟨lobs, hlatch⟩ := h.latch
  have hout : ∀ t, s.latch_.mutex_.place t = .outside := fun t =>
    (CountDownLatch.fits_outside (hlatch.fits t)).mp (by cases t <;> assumption)
  refine ⟨List.eq_nil_iff_forall_not_mem.mpr fun t ht => ?_, hout⟩
  have hplace := (hlatch.mutex.waiting t).mp ht
  rw [hout t] at hplace
  cases hplace

theorem Inv.destroy (h : Inv ids obs s) (he : s.owner = .constructed ∨ s.owner = .started) :
    ∃ s', step ids s .destroy = some (s', [.destroyed]) ∧ Inv ids (obs ++ [.destroyed]) s' := by
  obtain ⟨lobs, hlatch⟩ := h.latch
  have hidle : s.latch_.call .owner = .idle := by
    have hwait := h.wait
    rcases he with ho | ho <;> rwa [ho] at hwait
  -- either there is no thread, or it is through with the object
  have hself : (s.self = .none ∨ s.self.past = true) ∧
      (if s.started_ && !s.joined_ then .detached else s.handle) ≠ Handle.joinable := by
    have howner := h.owner
    rcases he with ho | ho <;> rw [OwnerFits, ho] at howner
    · obtain ⟨hstarted, _, hhandle, hnone⟩ := howner
      exact ⟨.inl hnone, by simp [hstarted, hhandle]⟩
    · obtain ⟨hstarted, hhandle, hpast⟩ := howner
      refine ⟨.inr hpast, ?_⟩
      rw [hstarted, hhandle]
      cases s.joined_ <;> simp
  have hcall : s.latch_.call .self = .idle := by
    have hfits := h.self
    rcases hself.1 with hnone | hpast
    · rw [hnone] at hfits
      exact hfits.1
    · cases hs : s.self <;> rw [hs] at hpast hfits <;> first | exact hfits.1 | cases hpast
  obtain ⟨hinside, henabled⟩ := h.unused hidle hcall
  obtain ⟨m, o, hm, hmutex⟩ := MutexLock.inv_step hlatch.mutex henabled
  have hsame : m = s.latch_.mutex_ := by
    simp only [MutexLock.step, assert_bind] at hm
    split at hm
    · split at hm
      · exact (Prod.mk.inj (Option.some.inj hm)).1.symm
      · cases hm
    · cases hm
  subst hsame
  refine ⟨_, by simp only [step, assert_bind, if_pos hinside, hm, Option.bind_eq_bind, Option.bind_some]; rfl, ?_⟩
  refine ⟨⟨_, hlatch⟩, ⟨hself.2, hself.1⟩, hidle, h.self, h.opened, h.tid, ?_, throughout_snoc.mpr ⟨h.history, trivial⟩⟩
  rw [List.count_append, h.ran]
  rfl

theorem inv_step (h : Inv ids obs s) (he : Enabled s a) :
    ∃ s' o, step ids s a = some (s', o) ∧ Inv ids (obs ++ o) s' := by
  have howner := h.owner
  have hwait := h.wait
  cases a with
  | start =>
    have hplace : s.owner = .constructed := he
    rw [OwnerFits, hplace] at howner
    rw [hplace] at hwait
    refine ⟨_, _, assert_bind_eq_some_iff.mpr ⟨howner.1, rfl⟩, ?_⟩
    rw [List.append_nil]
    exact ⟨h.latch, ⟨rfl, howner.2⟩, hwait, h.self, h.opened, h.tid, h.ran, h.history⟩
  | create ok =>
    have hplace : s.owner = .creating := he
    rw [OwnerFits, hplace] at howner
    rw [hplace] at hwait
    have hself := h.self
    rw [howner.2.2.2] at hself
    cases ok with
    | false =>
      refine ⟨_, _, rfl, ?_⟩
      rw [List.append_nil]
      exact ⟨h.latch, howner.2.2.2, hwait, h.self, h.opened, h.tid, h.ran, h.history⟩
    | true =>
      obtain ⟨lobs, hlatch⟩ := h.latch
      obtain ⟨l, hl, hlatch', hcount, hcall⟩ := hlatch.lock hwait (.inl rfl)
      have hother : l.call .self = s.latch_.call .self := by
        rw [hcall]
        exact Function.update_of_ne (by simp) ..
      have hmine : l.call .owner = .wait := by
        rw [hcall]
        exact Function.update_self ..
      refine ⟨_, _, by simp only [step, onLatch, CountDownLatch.step, alive, hl]; rfl, ?_⟩
      rw [List.append_nil]
      refine ⟨⟨_, hlatch'⟩, ⟨howner.1, howner.2.1, rfl, by simp⟩, .inl hmine, ?_, ?_, fun _ hne => absurd rfl hne, ?_,
        h.history⟩
      · show l.call .self = .idle ∧ l.count_ = 1
        rw [hother, hcount]
        exact hself
      · rw [hmine]
        simp
      · rw [h.ran, howner.2.2.2]
        rfl
  | setTid =>
    have hself : s.self = .created := he
    have hwaiting := h.waiting (by rw [hself]; simp) (by rw [hself]; rfl)
    have hfits := h.self
    rw [hself] at hfits
    rw [OwnerFits, hwaiting] at howner
    refine ⟨_, _, assert_bind_eq_some_iff.mpr ⟨alive_of_waiting hwaiting, rfl⟩, ?_⟩
    rw [List.append_nil]
    refine ⟨h.latch, ?_, h.wait, hfits, fun hc => ?_, fun _ _ => rfl, ?_, h.history⟩
    · rw [OwnerFits, hwaiting]
      exact ⟨howner.1, howner.2.1, howner.2.2.1, by simp⟩
    · have hpast := h.opened hc
      rw [hself] at hpast
      cases hpast
    · rw [h.ran, hself]
      rfl
  | countDown =>
    have hself : s.self = .named := he
    have hwaiting := h.waiting (by rw [hself]; simp) (by rw [hself]; rfl)
    have hfits := h.self
    rw [hself] at hfits
    rw [OwnerFits, hwaiting] at howner
    obtain ⟨lobs, hlatch⟩ := h.latch
    obtain ⟨l, hl, hlatch', hcount, hcall⟩ := hlatch.lock hfits.1 (.inr rfl)
    have hother : l.call .owner = s.latch_.call .owner := by
      rw [hcall]
      exact Function.update_of_ne (by simp) ..
    have hmine : l.call .self = .countDown := by
      rw [hcall]
      exact Function.update_self ..
    have halive : alive {s with self := .counting} = true := alive_of_waiting hwaiting
    refine ⟨{s with self := .counting, latch_ := l}, [],
      by simp only [step, onLatch, CountDownLatch.step, halive, hl, assert_bind]; rfl, ?_⟩
    rw [List.append_nil]
    refine ⟨⟨_, hlatch'⟩, ?_, hother ▸ h.wait, .inl ⟨hmine, hcount.trans hfits.2⟩, fun hc => ?_,
      fun _ _ => h.tid (by rw [hself]; simp) (by rw [hself]; simp), ?_, h.history⟩
    · rw [OwnerFits, hwaiting]
      exact ⟨howner.1, howner.2.1, howner.2.2.1, by simp⟩
    · have hpast := h.opened (hother ▸ hc)
      rw [hself] at hpast
      cases hpast
    · rw [h.ran, hself]
      rfl
  | latch b =>
    cases hthread : b.thread with
    | owner =>
      obtain ⟨s', hs', hI⟩ := h.latchOwner he.1 he.2 hthread
      exact ⟨s', [], hs', by rwa [List.append_nil]⟩
    | self =>
      obtain ⟨s', hs', hI⟩ := h.latchSelf he.1 he.2 hthread
      exact ⟨s', [], hs', by rwa [List.append_nil]⟩
  | checkTid =>
    have hplace : s.owner = .waited := he
    rw [OwnerFits, hplace] at howner
    rw [hplace] at hwait
    have htid : s.tid_ = ids.tid .self := by
      refine h.tid ?_ ?_ <;> intro hself <;> rw [hself] at howner <;> cases howner.2.2.2
    refine ⟨_, _, assert_bind_eq_some_iff.mpr ⟨htid ▸ ids.pos .self, rfl⟩, ?_⟩
    refine ⟨h.latch, ⟨howner.1, ?_, howner.2.2.2⟩, hwait, h.self, h.opened, h.tid, ?_,
      throughout_snoc.mpr ⟨h.history, htid⟩⟩
    · simp only [howner.2.1, howner.2.2.1]
      rfl
    · rw [List.count_append, h.ran]
      rfl
  | func =>
    have hself : s.self = .running := he
    have hfits := h.self
    rw [hself] at hfits
    refine ⟨_, _, rfl, h.latch, ?_, h.wait, hfits, fun _ => rfl,
      fun _ _ => h.tid (by rw [hself]; simp) (by rw [hself]; simp), ?_, throughout_snoc.mpr ⟨h.history, trivial⟩⟩
    · unfold OwnerFits at howner ⊢
      cases hplace : s.owner <;> rw [hplace] at howner <;> rw [hself] at howner <;> simp_all [Self.past]
    · rw [List.count_append, h.ran, hself]
      rfl
  | join =>
    obtain ⟨hplace, hjoined⟩ : s.owner = .started ∧ s.joined_ = false := he
    rw [OwnerFits, hplace, hjoined] at howner
    rw [hplace] at hwait
    refine ⟨_, _, assert_bind_eq_some_iff.mpr ⟨howner.1, assert_bind_eq_some_iff.mpr ⟨hjoined, rfl⟩⟩, ?_⟩
    rw [List.append_nil]
    exact ⟨h.latch, ⟨howner.1, rfl, howner.2.1, howner.2.2⟩, hwait, h.self, h.opened, h.tid, h.ran, h.history⟩
  | joined =>
    obtain ⟨hplace, hself⟩ : s.owner = .joining ∧ s.self = .exited := he
    rw [OwnerFits, hplace] at howner
    rw [hplace] at hwait
    have hran : .ran ∈ obs := by
      refine List.count_pos_iff.mp ?_
      rw [h.ran, if_pos hself]
      exact Nat.one_pos
    refine ⟨_, _, rfl, h.latch, ⟨howner.1, ?_, howner.2.2.2⟩, hwait, h.self, h.opened, h.tid, ?_,
      throughout_snoc.mpr ⟨h.history, hran⟩⟩
    · simp only [howner.2.1]
      rfl
    · rw [List.count_append, h.ran]
      rfl
  | destroy =>
    obtain ⟨s', hs', hI⟩ := h.destroy he
    exact ⟨s', _, hs', hI⟩

/-- **The new thread is through with the object when `start` returns.** An owner starts and
joins a thread and destroys the object at any time when it is in no call; the new thread is as
slow as it likes. In no run does either fail an assertion or touch the object after its
destruction. `start` leaves the id of the new thread behind, `join` returns when the function
has, which runs once at most, and with the object goes the last claim to a thread that was
not joined. -/
theorem object_outlives_its_use {as : List Action} (h : (machine ids).Run create as obs s) :
    (∀ a, Enabled s a → (step ids s a).isSome) ∧
      Throughout (fun pre e => match e with
        | .started tid => tid = ids.tid .self
        | .joined => .ran ∈ pre
        | _ => True) obs ∧
      obs.count .ran ≤ 1 ∧ (s.owner = .destroyed → s.handle ≠ .joinable) := by
  have hI : Inv ids obs s := by
    refine h.invariant (Inv ids) create_inv ?_
    intro obs s a s' o hI he hs
    obtain ⟨s₁, o₁, hs₁, hI'⟩ := inv_step hI he
    obtain ⟨rfl, rfl⟩ := Prod.mk.inj (Option.some.inj (hs.symm.trans hs₁))
    exact hI'
  refine ⟨fun a he => ?_, hI.history, ?_, fun hdestroyed => ?_⟩
  · obtain ⟨s', o, hs', _⟩ := inv_step hI he
    rw [hs']
    rfl
  · rw [hI.ran]
    split <;> omega
  · have howner := hI.owner
    rw [OwnerFits, hdestroyed] at howner
    exact howner.1

def sideTids : MutexLock.Tids Side where
  tid := fun
    | .owner => 1
    | .self => 2
  pos := fun t => by cases t <;> decide
  inj := fun t u h => by cases t <;> cases u <;> first | rfl | cases h

/-- The object is destroyed as soon as `start` has returned, before the function runs. -/
def destroyedEarly : List Action :=
  [.start, .create true, .latch (.acquire .owner), .latch (.assignHolder .owner), .latch (.test .owner), .setTid,
    .latch (.block .owner), .countDown, .latch (.acquire .self), .latch (.assignHolder .self), .latch (.decrement .self),
    .latch (.notifyAll .self), .latch (.release .self), .latch (.regain .owner), .latch (.assignHolder .owner),
    .latch (.test .owner), .latch (.release .owner), .checkTid, .destroy, .func]

theorem object_outlives_its_use_destroyedEarly :
    ∃ obs s, (machine sideTids).Run create destroyedEarly obs s ∧ obs = [.started 2, .destroyed, .ran] ∧
      s.handle = .detached ∧ obs.count .ran ≤ 1 ∧ (s.owner = .destroyed → s.handle ≠ .joinable) := by
  obtain ⟨obs, s, hrun, hobs, hhandle⟩ :
      ∃ obs s, (machine sideTids).Run create destroyedEarly obs s ∧ obs = [.started 2, .destroyed, .ran] ∧
        s.handle = .detached :=
    Machine.Run.exists_of_trace (by decide +kernel)
  have hmain := object_outlives_its_use hrun
  exact ⟨obs, s, hrun, hobs, hhandle, hmain.2.2⟩

end Thread
end Chtho.Threads
