import Mathlib.Logic.Function.Basic
import Chtho.Lib.Mailbox
import Chtho.Net.WholeMessages

/-! Any number of threads use one connection.

Every thread may call `send`, `shutdown` and `forceClose`. Each of them tests the state
first and then goes on with `runInLoop`: in the loop's own thread that is a call, in any
other it posts a functor. Between the test and the rest everything else may happen, and
`shutdown` and `forceClose` assign the state there: one that comes late makes a connection
that was closed in the meantime `disconnecting` again. What a thread sends still reaches
`sendInLoop` once each and in its own order, and what reaches the kernel is made of whole
messages. -/
namespace Chtho.Net
open Lib TcpConnection

namespace ManySenders

structure Message (τ : Type) where
  sender : τ
  data : Bytes
deriving DecidableEq, Repr

/-- The functors in the queue of the loop. -/
inductive Functor (τ : Type) where
  | sendInLoop (m : Message τ)
  | shutdownInLoop
  | forceCloseInLoop
  | callback (cb : Callback)
deriving DecidableEq, Repr

def Functor.message {τ : Type} : Functor τ → Option (Message τ)
  | .sendInLoop m => some m
  | _ => none

/-- The call a thread is in: past the test of the state, or past the assignment too. -/
inductive Stage where
  | idle
  | send (data : Bytes)
  | shutdown
  | shutdownSet
  | forceClose
  | forceCloseSet
deriving DecidableEq, Repr

/-- The message of a `send` that has passed its test. -/
def Stage.message {τ : Type} (t : τ) : Stage → Option (Message τ)
  | .send data => some ⟨t, data⟩
  | _ => none

/-- A result of `::write` goes with every action that may call it. -/
inductive Action (τ : Type) where
  | send (t : τ) (data : Bytes)
  | shutdown (t : τ)
  | forceClose (t : τ)
  | setState (t : τ)
  | runInLoop (t : τ) (r : Write)
  | handleWrite (r : Write)
  | handleClose
  | swap
  | func (r : Write)
deriving DecidableEq, Repr

inductive Event (τ : Type) where
  /-- A `send` has passed its test. -/
  | issued (m : Message τ)
  /-- `sendInLoop` is called, and whether it drops the message. -/
  | reached (m : Message τ) (dropped : Bool)
  | effect (e : Effect)
deriving DecidableEq, Repr

end ManySenders

open ManySenders in
structure ManySenders (τ : Type) where
  conn : TcpConnection
  queue : Mailbox (Functor τ)
  stage : τ → Stage

namespace ManySenders
variable {τ : Type}

/-- The functors that effects queue. -/
def callbacks (o : List Effect) : List (Functor τ) :=
  o.filterMap fun
    | .queueInLoop cb => some (.callback cb)
    | _ => none

/-- A connection and its effects taken over into the system. -/
def absorb (s : ManySenders τ) (r : TcpConnection × List Effect) : ManySenders τ × List (Event τ) :=
  ({s with conn := r.1, queue := s.queue.postAll (callbacks r.2)}, r.2.map .effect)

/-- What the calls of the loop's thread, and the functors, do in it. -/
def inLoop (s : ManySenders τ) (f : Functor τ) (r : Write) : Option (ManySenders τ × List (Event τ)) :=
  match f with
  | .sendInLoop m => do
    let (s', o) := s.absorb (← s.conn.sendInLoop m.data r)
    some (s', .reached m (s.conn.drops m.data r) :: o)
  | .shutdownInLoop => some (s.absorb (s.conn, s.conn.shutdownInLoop))
  | .forceCloseInLoop => do some (s.absorb (← s.conn.forceCloseInLoop))
  | .callback _ => some (s, [])

/-- What a stage passes to the loop. `forceClose` does so by `queueInLoop`. -/
def Stage.functor (t : τ) : Stage → Option (Functor τ)
  | .send data => some (.sendInLoop ⟨t, data⟩)
  | .shutdownSet => some .shutdownInLoop
  | .forceCloseSet => some .forceCloseInLoop
  | _ => none

/-- The kernel takes at most what it is given. -/
def Functor.Allows (f : Functor τ) (r : Write) : Prop := ∀ m, f.message = some m → r.Within m.data.length

section Machine
variable [DecidableEq τ] (me : τ)

def setStage (s : ManySenders τ) (t : τ) (stage : Stage) : ManySenders τ :=
  {s with stage := Function.update s.stage t stage}

/-- The loop's thread is in one call at a time, and a channel that is not read has no event. -/
def Enabled (s : ManySenders τ) : Action τ → Prop
  | .send t _ | .shutdown t | .forceClose t => s.stage t = .idle
  | .setState t => s.stage t = .shutdown ∨ s.stage t = .forceClose
  | .runInLoop t r => ∃ f, (s.stage t).functor t = some f ∧ f.Allows r
  | .handleWrite r => s.stage me = .idle ∧ s.queue.batch = [] ∧ r.Within s.conn.outputBuf.readableBytes
  | .handleClose => s.stage me = .idle ∧ s.queue.batch = [] ∧ s.conn.channel.isReading = true
  | .swap => s.stage me = .idle ∧ s.queue.batch = []
  | .func r => s.stage me = .idle ∧ ∃ f rest, s.queue.batch = f :: rest ∧ f.Allows r

def step (s : ManySenders τ) : Action τ → Option (ManySenders τ × List (Event τ))
  | .send t data =>
    if s.conn.state = .connected then some (s.setStage t (.send data), [.issued ⟨t, data⟩]) else some (s, [])
  | .shutdown t => if s.conn.state = .connected then some (s.setStage t .shutdown, []) else some (s, [])
  | .forceClose t =>
    if s.conn.state = .connected ∨ s.conn.state = .disconnecting then some (s.setStage t .forceClose, [])
    else some (s, [])
  | .setState t =>
    let next := if s.stage t = .shutdown then .shutdownSet else .forceCloseSet
    some ({s with conn := {s.conn with state := .disconnecting}}.setStage t next, [])
  | .runInLoop t r => do
    let f ← (s.stage t).functor t
    let s' := s.setStage t .idle
    if t = me ∧ f ≠ .forceCloseInLoop then s'.inLoop f r else some ({s' with queue := s'.queue.post f}, [])
  | .handleWrite r => do some (s.absorb (← s.conn.handleWrite r))
  | .handleClose => do some (s.absorb (← s.conn.handleClose))
  | .swap => some ({s with queue := s.queue.swap}, [])
  | .func r => do
    let (f, queue) ← s.queue.next
    {s with queue := queue}.inLoop f r

def machine : Machine (ManySenders τ) (Action τ) (Event τ) := ⟨Enabled me, step me⟩

instance (f : Functor τ) (r : Write) : Decidable (f.Allows r) :=
  match f with
  | .sendInLoop m => decidable_of_iff (r.Within m.data.length) (by simp [Functor.Allows, Functor.message])
  | .shutdownInLoop | .forceCloseInLoop | .callback _ => isTrue nofun

instance (s : ManySenders τ) (a : Action τ) : Decidable ((machine me).enabled s a) :=
  match a with
  | .send t _ | .shutdown t | .forceClose t => inferInstanceAs (Decidable (s.stage t = .idle))
  | .setState t => inferInstanceAs (Decidable (s.stage t = .shutdown ∨ s.stage t = .forceClose))
  | .runInLoop t r =>
    decidable_of_iff (((s.stage t).functor t).any (fun f => decide (f.Allows r)) = true)
      (by simp [machine, Enabled, Option.any_eq_true])
  | .handleWrite r =>
    inferInstanceAs (Decidable (s.stage me = .idle ∧ s.queue.batch = [] ∧ r.Within s.conn.outputBuf.readableBytes))
  | .handleClose =>
    inferInstanceAs (Decidable (s.stage me = .idle ∧ s.queue.batch = [] ∧ s.conn.channel.isReading = true))
  | .swap => inferInstanceAs (Decidable (s.stage me = .idle ∧ s.queue.batch = []))
  | .func r =>
    decidable_of_iff (s.stage me = .idle ∧ s.queue.batch.head?.any (fun f => decide (f.Allows r)) = true)
      (by cases hb : s.queue.batch <;> simp [machine, Enabled, hb])

end Machine

/-- An established connection, in no call and with nothing queued. -/
def established (τ : Type) (fd : Nat) : Option (ManySenders τ) := do
  let c ← TcpConnection.create fd true true
  let (c, _) ← c.connEstablished
  some ⟨c, .empty, fun _ => .idle⟩

/-! ### The history of a run -/

def issued (obs : List (Event τ)) : List (Message τ) :=
  obs.filterMap fun
    | .issued m => some m
    | _ => none

/-- The messages `sendInLoop` was called with. -/
def reached (obs : List (Event τ)) : List (Message τ) :=
  obs.filterMap fun
    | .reached m _ => some m
    | _ => none

/-- Those of them it did not drop. -/
def kept (obs : List (Event τ)) : List (Message τ) :=
  obs.filterMap fun
    | .reached m false => some m
    | _ => none

def handedBytes (obs : List (Event τ)) : Bytes :=
  obs.flatMap fun
    | .effect e => e.handed
    | _ => []

def bytes (ms : List (Message τ)) : Bytes := ms.flatMap (·.data)

/-- The messages of one thread. -/
def of [DecidableEq τ] (t : τ) (ms : List (Message τ)) : List (Message τ) := ms.filter (·.sender = t)

def queued (queue : Mailbox (Functor τ)) : List (Message τ) := queue.waiting.filterMap Functor.message

@[simp] theorem issued_append (a b : List (Event τ)) : issued (a ++ b) = issued a ++ issued b := List.filterMap_append

@[simp] theorem reached_append (a b : List (Event τ)) : reached (a ++ b) = reached a ++ reached b :=
  List.filterMap_append

@[simp] theorem kept_append (a b : List (Event τ)) : kept (a ++ b) = kept a ++ kept b := List.filterMap_append

@[simp] theorem handedBytes_append (a b : List (Event τ)) : handedBytes (a ++ b) = handedBytes a ++ handedBytes b :=
  List.flatMap_append

@[simp] theorem bytes_append (a b : List (Message τ)) : bytes (a ++ b) = bytes a ++ bytes b := List.flatMap_append

@[simp] theorem of_append [DecidableEq τ] (t : τ) (a b : List (Message τ)) : of t (a ++ b) = of t a ++ of t b := List.filter_append ..

theorem effects_quiet (o : List Effect) :
    issued (o.map Event.effect : List (Event τ)) = [] ∧ reached (o.map Event.effect : List (Event τ)) = [] ∧
      kept (o.map Event.effect : List (Event τ)) = [] ∧
      handedBytes (o.map Event.effect : List (Event τ)) = handed o := by
  refine ⟨by simp [issued], by simp [reached], by simp [kept], ?_⟩
  rw [handedBytes, List.flatMap_map]
  rfl

@[simp] theorem queued_post (q : Mailbox (Functor τ)) (f : Functor τ) :
    queued (q.post f) = queued q ++ f.message.toList := by
  rw [queued, Mailbox.waiting_post, List.filterMap_append, List.filterMap_cons]
  cases f.message <;> rfl

@[simp] theorem queued_callbacks (q : Mailbox (Functor τ)) (o : List Effect) :
    queued (q.postAll (callbacks o)) = queued q := by
  rw [queued, Mailbox.waiting_postAll, List.filterMap_append, queued, List.append_right_eq_self,
    List.filterMap_eq_nil_iff]
  intro f hf
  obtain ⟨e, _, he⟩ := List.mem_filterMap.mp hf
  split at he
  · obtain rfl := Option.some.inj he
    rfl
  · cases he

/-! ### The invariant -/

/-- Of each thread's messages the first ones have reached `sendInLoop`, the next ones are
queued and the last may be in a call; those not dropped are the output stream. -/
structure Delivering [DecidableEq τ] (me : τ) (obs : List (Event τ)) (s : ManySenders τ) : Prop where
  order : ∀ t, of t (issued obs) =
    of t (reached obs) ++ (of t (queued s.queue) ++ ((s.stage t).message t).toList)
  own : of me (queued s.queue) = []
  inv : s.conn.outputBuf.Inv
  stream : handedBytes obs ++ s.conn.outputBuf.content = bytes (kept obs)
  reading : s.conn.channel.isReading = true → s.conn.state = .connected ∨ s.conn.state = .disconnecting

/-- What a functor does in the loop: its message reaches `sendInLoop`. -/
structure Worked (s s' : ManySenders τ) (f : Functor τ) (o : List (Event τ)) : Prop where
  stage : s'.stage = s.stage
  queued : queued s'.queue = queued s.queue
  issued : issued o = []
  reached : reached o = f.message.toList
  inv : s'.conn.outputBuf.Inv
  stream : handedBytes o ++ s'.conn.outputBuf.content = s.conn.outputBuf.content ++ bytes (kept o)
  reading : s'.conn.channel.isReading = true → s'.conn.state = .connected ∨ s'.conn.state = .disconnecting

variable {s s' : ManySenders τ} {obs o : List (Event τ)} {r : Write}

theorem absorb_worked {c : TcpConnection} {o : List Effect} {f : Functor τ} (hf : f.message = none)
    (hinv : c.outputBuf.Inv)
    (hstream : handed o ++ c.outputBuf.content = s.conn.outputBuf.content)
    (hreading : c.channel.isReading = true → c.state = .connected ∨ c.state = .disconnecting) :
    Worked s (s.absorb (c, o)).1 f (s.absorb (c, o)).2 := by
  obtain ⟨hissued, hreached, hkept, hhanded⟩ := effects_quiet (τ := τ) o
  refine ⟨rfl, queued_callbacks _ _, hissued, hreached.trans (by rw [hf]; rfl), hinv, ?_, hreading⟩
  rw [absorb, hhanded, hstream, hkept]
  exact (List.append_nil _).symm

theorem handleClose_worked (f : Functor τ) (hf : f.message = none) (hinv : s.conn.outputBuf.Inv)
    (hup : s.conn.state = .connected ∨ s.conn.state = .disconnecting) :
    ∃ r, s.conn.handleClose = some r ∧ Worked s (s.absorb r).1 f (s.absorb r).2 := by
  refine ⟨_, assert_bind_eq_some_iff.mpr ⟨hup, rfl⟩, absorb_worked hf hinv rfl ?_⟩
  simp

theorem inLoop_worked {f : Functor τ} (hf : f.Allows r) (hinv : s.conn.outputBuf.Inv)
    (hreading : s.conn.channel.isReading = true → s.conn.state = .connected ∨ s.conn.state = .disconnecting) :
    ∃ s' o, s.inLoop f r = some (s', o) ∧ Worked s s' f o := by
  cases f with
  | sendInLoop m =>
    obtain ⟨c, o, hsend, hdrained, hstream⟩ := sendInLoop_whole hinv m.data r (hf m rfl)
    obtain ⟨hissued, hreached, hkept, hhanded⟩ := effects_quiet (τ := τ) o
    refine ⟨(s.absorb (c, o)).1, .reached m (s.conn.drops m.data r) :: (s.absorb (c, o)).2,
      by simp only [inLoop, hsend]; rfl,
      ⟨rfl, queued_callbacks _ _, hissued, congrArg (m :: ·) hreached, hdrained.inv, ?_, ?_⟩⟩
    · show handedBytes (o.map .effect) ++ c.outputBuf.content = _
      rw [hhanded, hstream, absorb]
      cases s.conn.drops m.data r
      · have hone : kept (.reached m false :: o.map .effect) = [m] := congrArg (m :: ·) hkept
        rw [hone]
        simp [bytes]
      · have hnone : kept (.reached m true :: o.map .effect) = [] := hkept
        rw [hnone]
        rfl
    · intro hr
      show c.state = .connected ∨ c.state = .disconnecting
      rw [hdrained.state]
      exact hreading (hdrained.reading ▸ hr)
  | shutdownInLoop =>
    refine ⟨_, _, rfl, absorb_worked rfl hinv ?_ hreading⟩
    rw [handed_shutdownInLoop]
    rfl
  | forceCloseInLoop =>
    by_cases hup : s.conn.state = .connected ∨ s.conn.state = .disconnecting
    · obtain ⟨r, hclose, hworked⟩ := handleClose_worked .forceCloseInLoop rfl hinv hup
      exact ⟨_, _, by simp only [inLoop, forceCloseInLoop, if_pos hup, hclose]; rfl, hworked⟩
    · exact ⟨_, _, by simp only [inLoop, forceCloseInLoop, if_neg hup]; rfl, absorb_worked rfl hinv rfl hreading⟩
  | callback cb => exact ⟨s, [], rfl, rfl, rfl, rfl, rfl, hinv, (List.append_nil _).symm, hreading⟩

theorem message_eq (t : τ) (st : Stage) : st.message t = (st.functor t).bind Functor.message := by
  cases st <;> rfl

theorem sender_functor {t : τ} {st : Stage} {f : Functor τ} {m : Message τ} (hf : st.functor t = some f)
    (hm : f.message = some m) : m.sender = t := by
  cases st with
  | send data =>
    obtain rfl := Option.some.inj hf
    obtain rfl := Option.some.inj hm
    rfl
  | shutdownSet | forceCloseSet =>
    obtain rfl := Option.some.inj hf
    cases hm
  | idle | shutdown | forceClose => cases hf

section Machine
variable [DecidableEq τ] {me : τ} {a : Action τ}

/-- What a thread passes on is no other thread's. -/
theorem of_functor {t t' : τ} {st : Stage} {f : Functor τ} (hf : st.functor t = some f) (hne : t' ≠ t) :
    of t' f.message.toList = [] := by
  cases hm : f.message with
  | none => rfl
  | some m =>
    have hsender : m.sender ≠ t' := fun heq => hne (heq.symm.trans (sender_functor hf hm))
    simp [of, hsender]

theorem of_functor_self {t : τ} {st : Stage} {f : Functor τ} (hf : st.functor t = some f) :
    of t f.message.toList = (st.message t).toList := by
  have hmessage : st.message t = f.message := by rw [message_eq, hf]; rfl
  rw [hmessage]
  cases hm : f.message with
  | none => rfl
  | some m => simp [of, sender_functor hf hm]

/-- A functor runs in the loop: it is the next one with a message of its sender. -/
theorem Delivering.work (h : Delivering me obs s) {f : Functor τ} (s₁ : ManySenders τ) (hconn : s₁.conn = s.conn)
    (hworked : Worked s₁ s' f o) (hown : of me (queued s₁.queue) = [])
    (horder : ∀ t, of t f.message.toList ++ (of t (queued s₁.queue) ++ ((s₁.stage t).message t).toList) =
      of t (queued s.queue) ++ ((s.stage t).message t).toList) : Delivering me (obs ++ o) s' := by
  refine ⟨fun t => ?_, hworked.queued ▸ hown, hworked.inv, ?_, hworked.reading⟩
  · rw [issued_append, hworked.issued, List.append_nil, reached_append, hworked.reached, of_append, hworked.queued,
      hworked.stage, List.append_assoc, horder, h.order]
  · rw [handedBytes_append, List.append_assoc, hworked.stream, hconn, ← List.append_assoc, h.stream, kept_append,
      bytes_append]

/-- A step that moves messages on and leaves the output buffer alone. -/
theorem Delivering.move (h : Delivering me obs s) (hconn : s'.conn.outputBuf = s.conn.outputBuf)
    (hreading : s'.conn.channel.isReading = true → s'.conn.state = .connected ∨ s'.conn.state = .disconnecting)
    (hown : of me (queued s'.queue) = [])
    (horder : ∀ t, of t (queued s'.queue) ++ ((s'.stage t).message t).toList =
      of t (queued s.queue) ++ ((s.stage t).message t).toList) : Delivering me (obs ++ []) s' := by
  rw [List.append_nil]
  refine ⟨fun t => ?_, hown, hconn ▸ h.inv, hconn ▸ h.stream, hreading⟩
  rw [horder, h.order]

/-- A call that has nothing to send yet enters its next stage. -/
theorem Delivering.stage (h : Delivering me obs s) {t : τ} {st : Stage} (hold : (s.stage t).message t = none)
    (hnew : st.message t = none) : Delivering me (obs ++ []) (s.setStage t st) := by
  refine h.move rfl h.reading h.own fun t' => ?_
  by_cases ht : t' = t
  · subst ht
    simp [setStage, hold, hnew]
  · simp [setStage, ht]

theorem Delivering.send (h : Delivering me obs s) {t : τ} (hidle : s.stage t = .idle) (data : Bytes) :
    Delivering me (obs ++ [.issued ⟨t, data⟩]) (s.setStage t (.send data)) := by
  have hquiet : reached (obs ++ [Event.issued ⟨t, data⟩]) = reached obs ∧
      kept (obs ++ [Event.issued ⟨t, data⟩]) = kept obs ∧
      handedBytes (obs ++ [Event.issued ⟨t, data⟩]) = handedBytes obs := by
    simp [reached, kept, handedBytes]
  refine ⟨fun t' => ?_, h.own, h.inv, ?_, h.reading⟩
  · have hissued : issued (obs ++ [Event.issued ⟨t, data⟩]) = issued obs ++ [⟨t, data⟩] := issued_append _ _
    rw [hissued, hquiet.1, of_append, h.order]
    by_cases ht : t' = t
    · subst ht
      simp [setStage, hidle, Stage.message, of]
    · have hother : of t' [Message.mk t data] = [] := by simp [of, Ne.symm ht]
      simp [setStage, ht, hother]
  · rw [hquiet.2.1, hquiet.2.2]
    exact h.stream

theorem Delivering.runInLoop (h : Delivering me obs s) {t : τ} {f : Functor τ}
    (hf : (s.stage t).functor t = some f) (hr : f.Allows r) :
    ∃ s' o, step me s (.runInLoop t r) = some (s', o) ∧ Delivering me (obs ++ o) s' := by
  have hgone : ((s.setStage t .idle).stage t).message t = none := by simp [setStage, Stage.message]
  have hself := of_functor_self hf
  simp only [step, hf, Option.bind_eq_bind, Option.bind_some]
  by_cases hhere : t = me ∧ f ≠ .forceCloseInLoop
  · rw [if_pos hhere]
    obtain ⟨s', o, hs', hworked⟩ := inLoop_worked (s := s.setStage t .idle) hr h.inv h.reading
    refine ⟨s', o, hs', h.work (s.setStage t .idle) rfl hworked h.own fun t' => ?_⟩
    by_cases ht : t' = t
    · have hnil : of t' (queued s.queue) = [] := by
        rw [ht, hhere.1]
        exact h.own
      subst ht
      rw [hself, hgone, hnil]
      simp [setStage, hnil]
    · simp [setStage, ht, of_functor hf ht]
  · rw [if_neg hhere]
    refine ⟨_, _, rfl, h.move rfl h.reading ?_ fun t' => ?_⟩
    · -- what the loop's own thread posts is a `forceCloseInLoop`
      have hnone : of me f.message.toList = [] := by
        by_cases ht : me = t
        · have hforce : f = .forceCloseInLoop := by
            by_contra hne
            exact hhere ⟨ht.symm, hne⟩
          rw [hforce]
          rfl
        · exact of_functor hf ht
      rw [queued_post, of_append, hnone]
      exact (List.append_nil _).trans h.own
    · by_cases ht : t' = t
      · subst ht
        rw [queued_post, of_append, hself, hgone]
        simp [setStage]
      · simp [setStage, ht, of_functor hf ht]

theorem Delivering.func (h : Delivering me obs s) {f : Functor τ} {rest : List (Functor τ)}
    (hbatch : s.queue.batch = f :: rest) (hr : f.Allows r) :
    ∃ s' o, step me s (.func r) = some (s', o) ∧ Delivering me (obs ++ o) s' := by
  obtain ⟨q, hnext⟩ : ∃ q, s.queue.next = some (f, q) := ⟨_, Mailbox.next_of_batch hbatch⟩
  have hqueued : queued s.queue = f.message.toList ++ queued q := by
    rw [queued, Mailbox.waiting_next hnext, List.filterMap_cons]
    cases f.message <;> rfl
  have hown := h.own
  rw [hqueued, of_append, List.append_eq_nil_iff] at hown
  obtain ⟨s', o, hs', hworked⟩ := inLoop_worked (s := {s with queue := q}) hr h.inv h.reading
  refine ⟨s', o, by simp only [step, hnext, Option.bind_eq_bind, Option.bind_some, hs'],
    h.work {s with queue := q} rfl hworked hown.2 fun t => ?_⟩
  rw [hqueued, of_append, List.append_assoc]

/-- A step the surroundings allow does not abort, and keeps everything. -/
theorem delivering_step (h : Delivering me obs s) (he : Enabled me s a) :
    ∃ s' o, step me s a = some (s', o) ∧ Delivering me (obs ++ o) s' := by
  have hsame : Delivering me (obs ++ []) s := by rwa [List.append_nil]
  have hidle : ∀ {t}, s.stage t = .idle → (s.stage t).message t = none := fun hi => by rw [hi]; rfl
  cases a with
  | send t data =>
    by_cases hup : s.conn.state = .connected
    · exact ⟨_, _, if_pos hup, h.send he data⟩
    · exact ⟨_, _, if_neg hup, hsame⟩
  | shutdown t =>
    by_cases hup : s.conn.state = .connected
    · exact ⟨_, _, if_pos hup, h.stage (hidle he) rfl⟩
    · exact ⟨_, _, if_neg hup, hsame⟩
  | forceClose t =>
    by_cases hup : s.conn.state = .connected ∨ s.conn.state = .disconnecting
    · exact ⟨_, _, if_pos hup, h.stage (hidle he) rfl⟩
    · exact ⟨_, _, if_neg hup, hsame⟩
  | setState t =>
    have hset : Delivering me (obs ++ []) {s with conn := {s.conn with state := .disconnecting}} :=
      h.move rfl (fun _ => .inr rfl) h.own fun _ => rfl
    have hold : (s.stage t).message t = none := by rcases he with he | he <;> rw [he] <;> rfl
    refine ⟨_, _, rfl, ?_⟩
    rw [List.append_nil] at hset
    exact hset.stage hold (by split <;> rfl)
  | runInLoop t r =>
    obtain ⟨f, hf, hr⟩ := he
    exact h.runInLoop hf hr
  | handleWrite r =>
    obtain ⟨c, o, hwrite, hdrained, hstream⟩ := handleWrite_drains h.inv r he.2.2
    refine ⟨_, _, by simp only [step, hwrite]; rfl,
      h.work s rfl (absorb_worked (f := .shutdownInLoop) rfl hdrained.inv hstream fun hr => ?_) h.own fun _ => rfl⟩
    rw [hdrained.state]
    exact h.reading (hdrained.reading ▸ hr)
  | handleClose =>
    obtain ⟨r, hclose, hworked⟩ := handleClose_worked .forceCloseInLoop rfl h.inv (h.reading he.2.2)
    exact ⟨_, _, by simp only [step, hclose]; rfl, h.work s rfl hworked h.own fun _ => rfl⟩
  | swap =>
    have hqueued : queued s.queue.swap = queued s.queue := congrArg (List.filterMap _) (Mailbox.waiting_swap he.2)
    exact ⟨_, _, rfl, h.move rfl h.reading (hqueued ▸ h.own) fun _ => by rw [hqueued]⟩
  | func r =>
    obtain ⟨_, f, rest, hbatch, hr⟩ := he
    exact h.func hbatch hr

theorem established_delivering {fd : Nat} (h₀ : established τ fd = some s) : Delivering me [] s := by
  simp only [established, connEstablished, assert_bind, Option.bind_eq_bind, Option.bind_eq_some_iff] at h₀
  obtain ⟨c, hcreate, hs⟩ := h₀
  obtain ⟨hbacklog, hempty⟩ := create_backlog hcreate
  split at hs
  · obtain ⟨_, heq, hs⟩ := hs
    obtain rfl := Option.some.inj heq
    obtain rfl := Option.some.inj hs
    exact ⟨fun _ => rfl, rfl, hbacklog.inv, hempty, fun _ => .inl rfl⟩
  · simp at hs

/-- **Every thread's messages are delivered once each and in its own order.** In every run, the
messages of a thread that passed the test of `send` are those that reached `sendInLoop`, those
queued and the one in its call, in this order, and of the loop's own thread nothing is ever
queued. What was handed to the kernel and what waits in the output buffer are the messages that
`sendInLoop` did not drop, whole and in the order in which they reached it. And no step the
surroundings allow fails an assertion of the connection's own, however late a state is assigned;
what its owner makes of a second close callback is the owner's. -/
theorem sends_reach_in_order {fd : Nat} {s₀ : ManySenders τ} (h₀ : established τ fd = some s₀)
    {as : List (Action τ)} (h : (machine me).Run s₀ as obs s) :
    (∀ t, of t (issued obs) = of t (reached obs) ++ (of t (queued s.queue) ++ ((s.stage t).message t).toList)) ∧
      of me (queued s.queue) = [] ∧ handedBytes obs ++ s.conn.outputBuf.content = bytes (kept obs) ∧
      ∀ a, Enabled me s a → (step me s a).isSome := by
  have hdelivering : Delivering me obs s := by
    refine h.invariant (Delivering me) (established_delivering h₀) ?_
    intro obs s a s' o hI he hs
    obtain ⟨s₁, o₁, hs₁, hI'⟩ := delivering_step hI he
    obtain ⟨rfl, rfl⟩ := Prod.mk.inj (Option.some.inj (hs.symm.trans hs₁))
    exact hI'
  refine ⟨hdelivering.order, hdelivering.own, hdelivering.stream, fun a he => ?_⟩
  obtain ⟨s', o, hs', _⟩ := delivering_step hdelivering he
  rw [hs']
  rfl

end Machine

/-- Thread 0 is the loop's. Of the three messages of thread 1 the second is not written whole; the
loop's own message gets between. The peer closes while thread 2 is in `shutdown`, and with the third message
queued; then thread 2 assigns the state. -/
def lateShutdown : List (Action Nat) :=
  [.send 1 [1], .runInLoop 1 (.wrote 0), .send 0 [9], .runInLoop 0 (.wrote 1), .send 1 [2, 3], .runInLoop 1 (.wrote 0),
    .swap, .func (.wrote 1), .func (.wrote 0), .func (.wrote 1), .send 1 [4], .runInLoop 1 (.wrote 0), .shutdown 2,
    .handleClose, .setState 2, .swap, .func (.wrote 0), .func (.wrote 0)]

theorem sends_reach_in_order_lateShutdown :
    ∃ s₀ obs s, established Nat 5 = some s₀ ∧ (machine 0).Run s₀ lateShutdown obs s ∧
      (of 1 (issued obs) = [⟨1, [1]⟩, ⟨1, [2, 3]⟩, ⟨1, [4]⟩] ∧ kept obs = [⟨0, [9]⟩, ⟨1, [1]⟩, ⟨1, [2, 3]⟩, ⟨1, [4]⟩] ∧
        handedBytes obs = [9, 1, 2]) ∧
      of 1 (issued obs) = of 1 (reached obs) ++ (of 1 (queued s.queue) ++ ((s.stage 1).message 1).toList) ∧
      handedBytes obs ++ s.conn.outputBuf.content = bytes (kept obs) := by
  obtain ⟨s₀, obs, s, h₀, hrun, hp⟩ :
      ∃ s₀ obs s, established Nat 5 = some s₀ ∧ (machine 0).Run s₀ lateShutdown obs s ∧
        (of 1 (issued obs) = [⟨1, [1]⟩, ⟨1, [2, 3]⟩, ⟨1, [4]⟩] ∧ kept obs = [⟨0, [9]⟩, ⟨1, [1]⟩, ⟨1, [2, 3]⟩, ⟨1, [4]⟩] ∧
          handedBytes obs = [9, 1, 2]) :=
    Machine.Run.exists_of_start (by decide +kernel)
  have hmain := sends_reach_in_order h₀ hrun
  exact ⟨s₀, obs, s, h₀, hrun, hp, hmain.1 1, hmain.2.2.1⟩

end ManySenders
end Chtho.Net
