import Chtho.Lib.Mailbox
import Chtho.Net.TcpConnection

/-! One thread sends on a connection and then shuts it down.

In the loop thread a `send` is a `sendInLoop` and a `shutdown` a `shutdownInLoop`. In
another thread both queue a functor, after a test of the state and, for `shutdown`, an
assignment to it. So the state can be `disconnecting` while sends of the thread are
still queued, and `handleWrite`, which half closes when it has drained the output
buffer in that state, does not know about them. Apart from that the half close comes
last: `shutdownInLoop` is queued behind every send. -/
namespace Chtho.Net
open Lib TcpConnection

namespace GracefulShutdown

/-- The functors in the queue of the loop. -/
inductive Functor where
  | send (data : Bytes)
  | shutdown
  | callback (cb : Callback)
deriving DecidableEq, Repr

/-- What a functor will send. -/
def Functor.bytes : Functor → Bytes
  | .send data => data
  | .shutdown | .callback _ => []

/-- Where the thread is. -/
inductive Stage where
  | sending
  /-- In `send`, before the functor is pushed. -/
  | queueing (data : Bytes)
  /-- In `shutdown`, before the functor is pushed. -/
  | closing
  | closed
deriving DecidableEq, Repr

def Stage.bytes : Stage → Bytes
  | .queueing data => data
  | _ => []

/-- A result of `::write` goes with every action that may call it. -/
inductive Action where
  | send (data : Bytes) (r : Write)
  | queueSend
  | shutdown
  | queueShutdown
  | handleWrite (r : Write)
  | swap
  | func (r : Write)
deriving DecidableEq, Repr

inductive Event where
  | issued (data : Bytes)
  | effect (e : Effect)
deriving DecidableEq, Repr

end GracefulShutdown

open GracefulShutdown in
/-- `shut` is whether the write side of the socket was shut down. -/
structure GracefulShutdown where
  conn : TcpConnection
  queue : Mailbox Functor
  stage : Stage
  shut : Bool

namespace GracefulShutdown

/-- While the write side is open, `::write` takes part of the data or would block. -/
def Allowed (s : GracefulShutdown) (len : Nat) (r : Write) : Prop :=
  r.Within len ∧ (s.shut = false → r.isFault = false)

/-- The bytes that are queued. -/
def queued (queue : Mailbox Functor) : Bytes := queue.waiting.flatMap Functor.bytes

/-- The functors that effects queue. -/
def callbacks (o : List Effect) : List Functor :=
  o.filterMap fun
    | .queueInLoop cb => some (.callback cb)
    | _ => none

/-- A connection and its effects taken over into the system. -/
def absorb (s : GracefulShutdown) (r : TcpConnection × List Effect) : GracefulShutdown × List Event :=
  ({s with conn := r.1, queue := s.queue.postAll (callbacks r.2), shut := s.shut || r.2.contains .shutdownWrite},
    r.2.map .effect)

variable (inLoop : Bool)

/-- Events are handled between two batches of functors. -/
def Enabled (s : GracefulShutdown) : Action → Prop
  | .send data r => s.stage = .sending ∧ (inLoop = true → s.Allowed data.length r)
  | .queueSend => ∃ data, s.stage = .queueing data
  | .shutdown => s.stage = .sending
  | .queueShutdown => s.stage = .closing
  | .handleWrite r => s.queue.batch = [] ∧ s.Allowed s.conn.outputBuf.readableBytes r
  | .swap => s.queue.batch = []
  | .func r => ∃ f rest, s.queue.batch = f :: rest ∧ s.Allowed f.bytes.length r

def step (s : GracefulShutdown) : Action → Option (GracefulShutdown × List Event)
  | .send data r =>
    if s.conn.state = .connected then
      if inLoop then do
        let (s', o) := s.absorb (← s.conn.sendInLoop data r)
        some (s', .issued data :: o)
      else some ({s with stage := .queueing data}, [.issued data])
    else some (s, [])
  | .queueSend => some ({s with stage := .sending, queue := s.queue.post (.send s.stage.bytes)}, [])
  | .shutdown =>
    let (conn, run) := s.conn.shutdown
    if run then
      if inLoop then some (absorb {s with stage := .closed} (conn, conn.shutdownInLoop))
      else some ({s with conn := conn, stage := .closing}, [])
    else some ({s with stage := .closed}, [])
  | .queueShutdown => some ({s with stage := .closed, queue := s.queue.post .shutdown}, [])
  | .handleWrite r => do some (s.absorb (← s.conn.handleWrite r))
  | .swap => some ({s with queue := s.queue.swap}, [])
  | .func r => do
    let (f, queue) ← s.queue.next
    let s := {s with queue := queue}
    match f with
    | .send data => some (s.absorb (← s.conn.sendInLoop data r))
    | .shutdown => some (s.absorb (s.conn, s.conn.shutdownInLoop))
    | .callback _ => some (s, [])

def machine : Machine GracefulShutdown Action Event := ⟨Enabled inLoop, step inLoop⟩

instance (s : GracefulShutdown) (len : Nat) (r : Write) : Decidable (s.Allowed len r) :=
  inferInstanceAs (Decidable (_ ∧ (_ → _)))

instance (s : GracefulShutdown) (a : Action) : Decidable ((machine inLoop).enabled s a) :=
  match a with
  | .send data r => inferInstanceAs (Decidable (s.stage = .sending ∧ (inLoop = true → s.Allowed data.length r)))
  | .queueSend =>
    match h : s.stage with
    | .queueing data => isTrue ⟨data, h⟩
    | .sending | .closing | .closed => isFalse fun ⟨_, hq⟩ => by rw [h] at hq; cases hq
  | .shutdown => inferInstanceAs (Decidable (s.stage = .sending))
  | .queueShutdown => inferInstanceAs (Decidable (s.stage = .closing))
  | .handleWrite r =>
    inferInstanceAs (Decidable (s.queue.batch = [] ∧ s.Allowed s.conn.outputBuf.readableBytes r))
  | .swap => inferInstanceAs (Decidable (s.queue.batch = []))
  | .func r =>
    match h : s.queue.batch with
    | [] => isFalse fun ⟨_, _, hb, _⟩ => by rw [h] at hb; cases hb
    | f :: rest =>
      decidable_of_iff (s.Allowed f.bytes.length r)
        ⟨fun hr => ⟨f, rest, h, hr⟩, fun ⟨_, _, hb, hr⟩ => by
          rw [h] at hb
          exact (List.cons.inj hb).1 ▸ hr⟩

/-- A connected connection with nothing sent. -/
structure Initial (s : GracefulShutdown) : Prop where
  backlog : s.conn.Backlog
  empty : s.conn.outputBuf.content = []
  state : s.conn.state = .connected
  queue : s.queue = .empty
  stage : s.stage = .sending
  shut : s.shut = false

/-- An established connection. -/
def established (fd : Nat) : Option GracefulShutdown := do
  let c ← TcpConnection.create fd false false
  let (c, _) ← c.connEstablished
  some ⟨c, .empty, .sending, false⟩

/-- The output buffer is not drained in the state `disconnecting` while bytes are queued. -/
def NoEarlyDrain (s : GracefulShutdown) : Action → Prop
  | .handleWrite r =>
    s.conn.state = .disconnecting → r = .wrote s.conn.outputBuf.readableBytes → queued s.queue = []
  | _ => True

instance (s : GracefulShutdown) (a : Action) : Decidable (NoEarlyDrain s a) :=
  match a with
  | .handleWrite _ => inferInstanceAs (Decidable (_ → _ → _))
  | .send _ _ | .queueSend | .shutdown | .queueShutdown | .swap | .func _ => isTrue trivial

/-! ### The history of a run -/

def handedBytes (obs : List Event) : Bytes :=
  obs.flatMap fun
    | .issued _ => []
    | .effect e => e.handed

def issuedBytes (obs : List Event) : Bytes :=
  obs.flatMap fun
    | .issued data => data
    | .effect _ => []

/-- Whenever the socket is half closed, all that is ever issued has been handed over, and
nothing is written afterwards. -/
def Graceful (obs : List Event) : Prop :=
  ∀ pre post, obs = pre ++ .effect .shutdownWrite :: post →
    handedBytes pre = issuedBytes obs ∧ ∀ data r, .effect (.write data r) ∈ post → data = []

@[simp] theorem handedBytes_append (a b : List Event) :
    handedBytes (a ++ b) = handedBytes a ++ handedBytes b := List.flatMap_append

@[simp] theorem issuedBytes_append (a b : List Event) :
    issuedBytes (a ++ b) = issuedBytes a ++ issuedBytes b := List.flatMap_append

@[simp] theorem handedBytes_issued (data : Bytes) : handedBytes [.issued data] = [] := rfl

@[simp] theorem issuedBytes_issued (data : Bytes) : issuedBytes [.issued data] = data := List.append_nil _

@[simp] theorem handedBytes_effects (o : List Effect) : handedBytes (o.map .effect) = handed o := by
  rw [handedBytes, List.flatMap_map]
  rfl

@[simp] theorem issuedBytes_effects (o : List Effect) : issuedBytes (o.map .effect) = [] := by
  simp [issuedBytes]

theorem eq_of_append_singleton {α : Type} {x : α} {as bs cs : List α} (h : as ++ x :: bs = cs ++ [x]) (hx : x ∉ cs) :
    as = cs ∧ bs = [] := by
  rcases List.append_eq_append_iff.mp h with ⟨ds, rfl, hds⟩ | ⟨ds, rfl, hds⟩
  · cases ds with
    | nil => exact ⟨(List.append_nil _).symm, List.cons_inj_right x |>.mp hds⟩
    | cons d ds =>
      obtain rfl := (List.cons.inj hds).1
      simp at hx
  · have hlen := congrArg List.length hds
    simp only [List.length_append, List.length_cons, List.length_nil] at hlen
    have hds' : ds = [] := List.length_eq_zero_iff.mp (by omega)
    exact ⟨by simp [hds'], List.length_eq_zero_iff.mp (by omega)⟩

/-- Effects that come after a half close write nothing, and a half close among them
comes last and when all is handed over. -/
theorem graceful_append {obs : List Event} {o : List Effect} (h : Graceful obs)
    (hold : .effect .shutdownWrite ∈ obs → ∀ data r, .write data r ∈ o → data = [])
    (hnew : .shutdownWrite ∉ o ∨ ∃ o₁, o = o₁ ++ [.shutdownWrite] ∧ .shutdownWrite ∉ o₁ ∧
      handedBytes obs ++ handed o₁ = issuedBytes obs) : Graceful (obs ++ o.map .effect) := by
  have hlast : ∀ o₂ post, o.map .effect = o₂ ++ .effect .shutdownWrite :: post →
      handedBytes (obs ++ o₂) = issuedBytes obs ∧ post = [] := by
    intro o₂ post hsplit
    obtain ⟨l₁, l₂, rfl, rfl, hl₂⟩ := List.map_eq_append_iff.mp hsplit
    obtain ⟨e, l₃, rfl, he, rfl⟩ := List.map_eq_cons_iff.mp hl₂
    obtain rfl := Event.effect.inj he
    rcases hnew with hno | ⟨o₁, ho, hmem, hhanded⟩
    · simp at hno
    · obtain ⟨rfl, rfl⟩ := eq_of_append_singleton ho hmem
      exact ⟨by simpa using hhanded, rfl⟩
  intro pre post heq
  rw [issuedBytes_append, issuedBytes_effects, List.append_nil]
  rcases List.append_eq_append_iff.mp heq with ⟨o₂, rfl, hsplit⟩ | ⟨obs', rfl, hsplit⟩
  · obtain ⟨hhanded, rfl⟩ := hlast o₂ post hsplit
    exact ⟨hhanded, nofun⟩
  · cases obs' with
    | nil =>
      obtain ⟨hhanded, rfl⟩ := hlast [] post hsplit.symm
      exact ⟨by simpa using hhanded, nofun⟩
    | cons e obs' =>
      obtain ⟨rfl, rfl⟩ := List.cons.inj hsplit
      obtain ⟨hhanded, hwrites⟩ := h pre obs' rfl
      refine ⟨hhanded, fun data r hmem => ?_⟩
      rcases List.mem_append.mp hmem with hmem | hmem
      · exact hwrites data r hmem
      · obtain ⟨e, he, heq⟩ := List.mem_map.mp hmem
        obtain rfl := Event.effect.inj heq
        exact hold (by simp) data r he

/-! ### The invariant -/

/-- Nothing is sent any more. -/
def Stage.past : Stage → Bool
  | .sending | .queueing _ => false
  | .closing | .closed => true

theorem Stage.bytes_of_past {stage : Stage} (h : stage.past = true) : stage.bytes = [] := by
  cases stage with
  | queueing => cases h
  | sending | closing | closed => rfl

/-- What holds apart from the output stream itself. -/
structure Settled (obs : List Event) (s : GracefulShutdown) : Prop where
  state : s.conn.state = if s.stage.past then .disconnecting else .connected
  /-- Behind a queued `shutdownInLoop` nothing is queued to be sent. -/
  ordered : s.queue.waiting.Pairwise fun f g => f = .shutdown → g.bytes = []
  last : .shutdown ∈ s.queue.waiting → s.stage = .closed
  /-- In the loop thread nothing is queued. -/
  own : inLoop = true → queued s.queue = [] ∧ s.stage.bytes = []
  shut : s.shut = true → handedBytes obs = issuedBytes obs ∧ s.stage.past = true
  history : .effect .shutdownWrite ∈ obs → s.shut = true
  graceful : Graceful obs

structure Sound (obs : List Event) (s : GracefulShutdown) : Prop extends Settled inLoop obs s where
  backlog : s.conn.Backlog
  stream : handedBytes obs ++ (s.conn.outputBuf.content ++ (queued s.queue ++ s.stage.bytes)) = issuedBytes obs

theorem sound_initial {s : GracefulShutdown} (h : s.Initial) : Sound inLoop [] s := by
  obtain ⟨hbacklog, hempty, hstate, hqueue, hstage, hshut⟩ := h
  refine ⟨⟨by rw [hstate, hstage]; rfl, ?_, ?_, ?_, ?_, nofun, ?_⟩, hbacklog, ?_⟩
  · simp [hqueue]
  · simp [hqueue]
  · simp [hqueue, hstage, queued, Stage.bytes]
  · rw [hshut]
    nofun
  · intro pre post hnil
    simp at hnil
  · simp [hempty, hqueue, hstage, queued, handedBytes, issuedBytes, Stage.bytes]

theorem established_initial {fd : Nat} {s : GracefulShutdown} (h : established fd = some s) : s.Initial := by
  simp only [established, connEstablished, assert_bind, Option.bind_eq_bind, Option.bind_eq_some_iff] at h
  obtain ⟨c, hcreate, hs⟩ := h
  obtain ⟨hbacklog, hempty⟩ := create_backlog hcreate
  split at hs
  · obtain ⟨_, heq, hs⟩ := hs
    obtain rfl := Option.some.inj heq
    obtain rfl := Option.some.inj hs
    exact ⟨⟨hbacklog.inv, by simpa using hbacklog.writing⟩, hempty, rfl, rfl, rfl, rfl⟩
  · simp at hs

variable {inLoop} {obs : List Event} {s : GracefulShutdown}

/-- After a half close nothing waits anywhere. -/
theorem Sound.idle (h : Sound inLoop obs s) (hshut : s.shut = true) :
    s.conn.outputBuf.content = [] ∧ queued s.queue = [] ∧ s.stage.bytes = [] := by
  have hstream := h.stream
  rw [(h.shut hshut).1, List.append_right_eq_self] at hstream
  simpa using hstream

theorem bytes_callbacks {o : List Effect} {f : Functor} (h : f ∈ callbacks o) : ∃ cb, f = .callback cb := by
  obtain ⟨e, _, he⟩ := List.mem_filterMap.mp h
  split at he
  · exact ⟨_, (Option.some.inj he).symm⟩
  · cases he

@[simp] theorem queued_postAll_callbacks (q : Mailbox Functor) (o : List Effect) :
    queued (q.postAll (callbacks o)) = queued q := by
  rw [queued, Mailbox.waiting_postAll, List.flatMap_append, queued, List.append_right_eq_self, List.flatMap_eq_nil_iff]
  intro f hf
  obtain ⟨cb, rfl⟩ := bytes_callbacks hf
  rfl

/-- Effects of the connection keep the invariant, if they keep the stream and half close
only when nothing waits. -/
theorem Settled.absorb (h : Settled inLoop obs s) {c : TcpConnection} {o : List Effect} (hbacklog : c.Backlog)
    (hstate : c.state = s.conn.state)
    (hstream : handedBytes obs ++ (handed o ++ (c.outputBuf.content ++ (queued s.queue ++ s.stage.bytes))) =
      issuedBytes obs)
    (hquiet : s.shut = true → ∀ data r, .write data r ∈ o → data = [])
    (hnew : .shutdownWrite ∉ o ∨ ∃ o₁, o = o₁ ++ [.shutdownWrite] ∧ .shutdownWrite ∉ o₁ ∧
      handedBytes obs ++ handed o₁ = issuedBytes obs ∧ s.stage.past = true) :
    Sound inLoop (obs ++ (s.absorb (c, o)).2) (s.absorb (c, o)).1 := by
  have hcallbacks : ∀ f ∈ callbacks o, f ≠ .shutdown ∧ f.bytes = [] := by
    intro f hf
    obtain ⟨cb, rfl⟩ := bytes_callbacks hf
    exact ⟨nofun, rfl⟩
  refine ⟨⟨hstate.trans h.state, ?_, ?_, ?_, ?_, ?_, ?_⟩, hbacklog, ?_⟩
  · show (s.queue.postAll (callbacks o)).waiting.Pairwise _
    rw [Mailbox.waiting_postAll, List.pairwise_append]
    refine ⟨h.ordered, ?_, fun f _ g hg _ => (hcallbacks g hg).2⟩
    exact List.pairwise_of_forall_mem_list fun f _ g hg _ => (hcallbacks g hg).2
  · intro hmem
    refine h.last ((List.mem_append.mp (Mailbox.waiting_postAll .. ▸ hmem)).resolve_right fun hcb => ?_)
    exact (hcallbacks _ hcb).1 rfl
  · intro hin
    exact ⟨(queued_postAll_callbacks _ _).trans (h.own hin).1, (h.own hin).2⟩
  · intro hshut
    show handedBytes (obs ++ o.map .effect) = issuedBytes (obs ++ o.map .effect) ∧ s.stage.past = true
    rw [handedBytes_append, handedBytes_effects, issuedBytes_append, issuedBytes_effects, List.append_nil]
    cases hold : s.shut with
    | true =>
      obtain ⟨hhanded, hpast⟩ := h.shut hold
      rw [hhanded, List.append_right_eq_self, List.append_eq_nil_iff] at hstream
      exact ⟨by rw [hstream.1, List.append_nil, hhanded], hpast⟩
    | false =>
      have hmem : .shutdownWrite ∈ o := by simpa [GracefulShutdown.absorb, hold] using hshut
      obtain ⟨o₁, rfl, _, hhanded, hpast⟩ := hnew.resolve_left (not_not_intro hmem)
      exact ⟨by simpa [Effect.handed] using hhanded, hpast⟩
  · intro hmem
    show (s.shut || o.contains .shutdownWrite) = true
    rcases List.mem_append.mp hmem with hmem | hmem
    · simp [h.history hmem]
    · obtain ⟨e, he, heq⟩ := List.mem_map.mp hmem
      obtain rfl := Event.effect.inj heq
      simp [he]
  · refine graceful_append h.graceful (fun hmem => hquiet (h.history hmem)) (hnew.imp_right ?_)
    rintro ⟨o₁, ho, hno, hhanded, _⟩
    exact ⟨o₁, ho, hno, hhanded⟩
  · show handedBytes (obs ++ o.map .effect) ++ (c.outputBuf.content ++
      (queued (s.queue.postAll (callbacks o)) ++ s.stage.bytes)) = issuedBytes (obs ++ o.map .effect)
    rw [handedBytes_append, handedBytes_effects, issuedBytes_append, issuedBytes_effects, List.append_nil,
      queued_postAll_callbacks, List.append_assoc]
    exact hstream

/-- `shutdownInLoop` half closes when nothing waits. -/
theorem Settled.shutdownInLoop (h : Settled inLoop obs s) (hbacklog : s.conn.Backlog)
    (hstream : handedBytes obs ++ s.conn.outputBuf.content = issuedBytes obs) (hqueued : queued s.queue = [])
    (hpast : s.stage.past = true) :
    Sound inLoop (obs ++ (s.absorb (s.conn, s.conn.shutdownInLoop)).2)
      (s.absorb (s.conn, s.conn.shutdownInLoop)).1 := by
  have hstage := Stage.bytes_of_past hpast
  refine h.absorb hbacklog rfl ?_ (fun _ data r hmem => ?_) ?_
  · rw [handed_shutdownInLoop, hqueued, hstage]
    simpa using hstream
  · unfold TcpConnection.shutdownInLoop at hmem
    split at hmem <;> simp at hmem
  · unfold TcpConnection.shutdownInLoop
    split
    · exact .inl nofun
    case isFalse hw =>
      have hnil : s.conn.outputBuf.content = [] := by
        by_contra hne
        exact hw (hbacklog.writing.mpr hne)
      exact .inr ⟨[], rfl, nofun, by simpa [hnil] using hstream, hpast⟩

theorem graceful_of_notMem (h : .effect .shutdownWrite ∉ obs) : Graceful obs := by
  rintro pre post rfl
  simp at h

variable {s' : GracefulShutdown} {o : List Event}

/-- While the thread sends, nothing is half closed. -/
theorem Settled.notMem (h : Settled inLoop obs s) (hpast : s.stage.past = false) :
    .effect .shutdownWrite ∉ obs ∧ s.shut = false := by
  have hshut : s.shut = false := by
    cases hs : s.shut with
    | false => rfl
    | true =>
      rw [(h.shut hs).2] at hpast
      cases hpast
  refine ⟨fun hmem => ?_, hshut⟩
  rw [h.history hmem] at hshut
  cases hshut

/-- A send may be issued while the thread sends. -/
theorem Settled.issued (h : Settled inLoop obs s) (hpast : s.stage.past = false) (data : Bytes) :
    Settled inLoop (obs ++ [.issued data]) s := by
  obtain ⟨hno, hopen⟩ := h.notMem hpast
  have hno' : .effect .shutdownWrite ∉ obs ++ [.issued data] := by simp [hno]
  refine ⟨h.state, h.ordered, h.last, h.own, ?_, fun hmem => absurd hmem hno', graceful_of_notMem hno'⟩
  rw [hopen]
  nofun

theorem notMem_sendInLoop {c c' : TcpConnection} {data : Bytes} {r : Write} {e : List Effect}
    (h : c.sendInLoop data r = some (c', e)) : .shutdownWrite ∉ e := by
  intro hmem
  rcases sendInLoop_effects h hmem with heq | heq | ⟨_, heq⟩ <;> cases heq

theorem Sound.send (h : Sound inLoop obs s) {data : Bytes} {r : Write} (he : Enabled inLoop s (.send data r))
    (hs : step inLoop s (.send data r) = some (s', o)) : Sound inLoop (obs ++ o) s' := by
  obtain ⟨hstage, hallowed⟩ := he
  have hpast : s.stage.past = false := by rw [hstage]; rfl
  have hconn : s.conn.state = .connected := by rw [h.state, hpast]; rfl
  have hissued := h.toSettled.issued hpast data
  simp only [step, if_pos hconn] at hs
  cases inLoop with
  | true =>
    obtain ⟨hwithin, hfault⟩ := hallowed rfl
    obtain ⟨c, o', hsend, hwrote, hstream⟩ := sendInLoop_spec h.backlog (by rw [hconn]; nofun) data r hwithin
    simp only [if_true, hsend, Option.bind_eq_bind, Option.bind_some] at hs
    obtain ⟨rfl, rfl⟩ := Prod.mk.inj (Option.some.inj hs)
    rw [List.append_cons]
    refine hissued.absorb hwrote.backlog hwrote.state ?_ (fun hshut => ?_) (.inl (notMem_sendInLoop hsend))
    · obtain ⟨hqueued, hbytes⟩ := h.own rfl
      have hold := h.stream
      have hkept : r.isFault = true → data = [] ∨ s.conn.outputBuf.content ≠ [] := fun hf => by
        rw [hfault (h.toSettled.notMem hpast).2] at hf
        cases hf
      rw [hqueued, hbytes, List.append_nil, List.append_nil] at hold
      rw [hqueued, hbytes, List.append_nil, List.append_nil, hstream.mpr hkept, handedBytes_append,
        handedBytes_issued, List.append_nil, issuedBytes_append, issuedBytes_issued, ← List.append_assoc, hold]
    · rw [(h.toSettled.notMem hpast).2] at hshut
      cases hshut
  | false =>
    obtain ⟨rfl, rfl⟩ := Prod.mk.inj (Option.some.inj hs)
    have hold := h.stream
    rw [hstage] at hold
    refine ⟨⟨hissued.state.trans (by rw [hstage]; rfl), hissued.ordered, ?_, nofun, ?_, hissued.history,
      hissued.graceful⟩, h.backlog, ?_⟩
    · intro hmem
      rw [h.last hmem] at hpast
      cases hpast
    · intro hshut
      rw [(h.toSettled.notMem hpast).2] at hshut
      cases hshut
    · simp only [handedBytes_append, handedBytes_issued, issuedBytes_append, issuedBytes_issued, Stage.bytes,
        List.append_nil] at hold ⊢
      rw [← hold, List.append_assoc, List.append_assoc]

theorem Sound.queueSend (h : Sound inLoop obs s) {data : Bytes} (hstage : s.stage = .queueing data) :
    Sound inLoop obs {s with stage := .sending, queue := s.queue.post (.send s.stage.bytes)} := by
  have hpast : s.stage.past = false := by rw [hstage]; rfl
  have hno : .shutdown ∉ s.queue.waiting := fun hmem => by
    rw [h.last hmem] at hpast
    cases hpast
  refine ⟨⟨?_, ?_, ?_, ?_, ?_, h.history, h.graceful⟩, h.backlog, ?_⟩
  · rw [h.state, hpast]
    rfl
  · simp only [Mailbox.waiting_post, List.pairwise_append, List.mem_singleton]
    refine ⟨h.ordered, List.pairwise_singleton _ _, fun f hf g _ heq => ?_⟩
    exact absurd (heq ▸ hf) hno
  · intro hmem
    simp [hno] at hmem
  · intro hin
    obtain ⟨hqueued, hbytes⟩ := h.own hin
    exact ⟨by simpa [queued, Functor.bytes, hbytes] using hqueued, rfl⟩
  · intro hshut
    rw [(h.toSettled.notMem hpast).2] at hshut
    cases hshut
  · simpa [queued, Functor.bytes, Stage.bytes] using h.stream

theorem Sound.shutdown (h : Sound inLoop obs s) (he : s.stage = .sending)
    (hs : step inLoop s .shutdown = some (s', o)) : Sound inLoop (obs ++ o) s' := by
  have hpast : s.stage.past = false := by rw [he]; rfl
  have hconn : s.conn.state = .connected := by rw [h.state, hpast]; rfl
  have hopen := (h.toSettled.notMem hpast).2
  have hstream := h.stream
  rw [he] at hstream
  -- the connection is now disconnecting, and past sending
  have hsettled : ∀ stage, Stage.past stage = true → Stage.bytes stage = [] →
      Settled inLoop obs {s with conn := {s.conn with state := .disconnecting}, stage := stage} := by
    intro stage hstage hbytes
    refine ⟨by rw [hstage]; rfl, h.ordered, ?_, fun hin => ⟨(h.own hin).1, hbytes⟩, ?_, h.history, h.graceful⟩
    · intro hmem
      rw [h.last hmem] at hpast
      cases hpast
    · intro hshut
      rw [show s.shut = true from hshut] at hopen
      cases hopen
  have hbacklog : Backlog {s.conn with state := .disconnecting} := ⟨h.backlog.inv, h.backlog.writing⟩
  simp only [step, TcpConnection.shutdown, if_pos hconn, if_true] at hs
  cases inLoop with
  | true =>
    obtain ⟨rfl, rfl⟩ := Prod.mk.inj (Option.some.inj hs)
    obtain ⟨hqueued, _⟩ := h.own rfl
    refine (hsettled .closed rfl rfl).shutdownInLoop hbacklog ?_ hqueued rfl
    simpa [hqueued, Stage.bytes] using hstream
  | false =>
    obtain ⟨rfl, rfl⟩ := Prod.mk.inj (Option.some.inj hs)
    rw [List.append_nil]
    exact ⟨hsettled .closing rfl rfl, hbacklog, hstream⟩

theorem Sound.queueShutdown (h : Sound inLoop obs s) (he : s.stage = .closing) :
    Sound inLoop obs {s with stage := .closed, queue := s.queue.post .shutdown} := by
  have hpast : s.stage.past = true := by rw [he]; rfl
  refine ⟨⟨?_, ?_, fun _ => rfl, ?_, fun hshut => ⟨(h.shut hshut).1, rfl⟩, h.history, h.graceful⟩, h.backlog, ?_⟩
  · rw [h.state, hpast]
    rfl
  · simp only [Mailbox.waiting_post, List.pairwise_append, List.mem_singleton]
    refine ⟨h.ordered, List.pairwise_singleton _ _, ?_⟩
    rintro f _ g rfl _
    rfl
  · intro hin
    exact ⟨by simpa [queued, Functor.bytes] using (h.own hin).1, rfl⟩
  · have hstream := h.stream
    rw [he] at hstream
    simpa [queued, Functor.bytes, Stage.bytes] using hstream

/-- A result of `::write` that takes the whole backlog. -/
theorem eq_wrote_of_taken {content : Bytes} {r : Write} (hne : content ≠ []) (hwithin : r.Within content.length)
    (h : r.taken content = content) : r = .wrote content.length := by
  cases r with
  | failed e => exact absurd h.symm hne
  | wrote n =>
    have hle : content.length ≤ n := List.take_eq_self_iff content |>.mp h
    rw [Nat.le_antisymm hwithin hle]

theorem Sound.handleWrite (h : Sound inLoop obs s) {r : Write} (he : Enabled inLoop s (.handleWrite r))
    (hC : NoEarlyDrain s (.handleWrite r)) (hs : step inLoop s (.handleWrite r) = some (s', o)) :
    Sound inLoop (obs ++ o) s' := by
  obtain ⟨_, hwithin, _⟩ := he
  obtain ⟨c, o', hwrite, hwrote, hstream⟩ := handleWrite_spec h.backlog r hwithin
  obtain ⟨hquiet, hclose⟩ := handleWrite_effects hwrite
  have hlen := Buffer.length_content h.backlog.inv
  simp only [step, hwrite, Option.bind_eq_bind, Option.bind_some] at hs
  obtain ⟨rfl, rfl⟩ := Prod.mk.inj (Option.some.inj hs)
  refine h.toSettled.absorb hwrote.backlog hwrote.state ?_ (fun hshut data r' hmem => ?_) (hclose.imp_right ?_)
  · rw [← List.append_assoc (handed o'), hstream]
    exact h.stream
  · rcases hquiet with rfl | hw
    · cases hmem
    · exact absurd (h.idle hshut).1 (h.backlog.writing.mp hw)
  · rintro ⟨o₁, rfl, hno, htaken, hstate, hempty⟩
    have hpast : s.stage.past = true := by
      have hst := h.state
      rw [hstate] at hst
      cases hp : s.stage.past with
      | true => rfl
      | false =>
        rw [hp] at hst
        cases hst
    have hnil := (Buffer.content_eq_nil_iff hwrote.backlog.inv).mpr hempty
    have hall : handed o₁ = s.conn.outputBuf.content := by
      rw [hnil] at hstream
      simpa [Effect.handed] using hstream
    have hne : s.conn.outputBuf.content ≠ [] := h.backlog.writing.mp (hquiet.resolve_left (by simp))
    have hr := eq_wrote_of_taken hne (hlen ▸ hwithin) (htaken.symm.trans hall)
    have hold := h.stream
    rw [hC hstate (hlen ▸ hr), Stage.bytes_of_past hpast, List.append_nil, List.append_nil, ← hall] at hold
    exact ⟨o₁, rfl, hno, hold, hpast⟩

/-- The first functor is taken from the queue. -/
theorem Sound.next (h : Sound inLoop obs s) {f : Functor} {q : Mailbox Functor} (hnext : s.queue.next = some (f, q)) :
    Settled inLoop obs {s with queue := q} ∧ queued s.queue = f.bytes ++ queued q ∧
      (f = .shutdown → queued q = [] ∧ s.stage = .closed) := by
  have hwaiting := Mailbox.waiting_next hnext
  have hqueued : queued s.queue = f.bytes ++ queued q := by
    rw [queued, hwaiting]
    rfl
  have hordered := h.ordered
  rw [hwaiting, List.pairwise_cons] at hordered
  refine ⟨⟨h.state, hordered.2, fun hmem => h.last (by simp [hwaiting, hmem]), fun hin => ?_, h.shut, h.history,
    h.graceful⟩, hqueued, fun hf => ⟨?_, h.last (by simp [hwaiting, hf])⟩⟩
  · obtain ⟨hnil, hbytes⟩ := h.own hin
    rw [hqueued, List.append_eq_nil_iff] at hnil
    exact ⟨hnil.2, hbytes⟩
  · exact List.flatMap_eq_nil_iff.mpr fun g hg => hordered.1 g hg hf

theorem Sound.func (h : Sound inLoop obs s) {r : Write} (he : Enabled inLoop s (.func r))
    (hs : step inLoop s (.func r) = some (s', o)) : Sound inLoop (obs ++ o) s' := by
  obtain ⟨f₀, rest, hbatch, hwithin, hfault⟩ := he
  simp only [step, Option.bind_eq_bind, Option.bind_eq_some_iff, Prod.exists] at hs
  obtain ⟨f, q, hnext, hs⟩ := hs
  obtain ⟨hsettled, hqueued, hlast⟩ := h.next hnext
  obtain rfl : f = f₀ := by
    have hb := (Mailbox.next_eq_some hnext).1
    rw [hbatch] at hb
    exact (List.cons.inj hb).1.symm
  have hstream := h.stream
  rw [hqueued] at hstream
  cases f with
  | send data =>
    -- after a half close only empty messages are left
    have hnil : s.shut = true → data = [] := fun hshut => by
      have hq := (h.idle hshut).2.1
      rw [hqueued, List.append_eq_nil_iff] at hq
      exact hq.1
    have hdata : r.isFault = true → data = [] := fun hf => by
      cases hshut : s.shut with
      | true => exact hnil hshut
      | false =>
        rw [hfault hshut] at hf
        cases hf
    have hconn : s.conn.state ≠ .disconnected := by
      rw [h.state]
      split <;> nofun
    obtain ⟨c, o', hsend, hwrote, hkept⟩ := sendInLoop_spec h.backlog hconn data r hwithin
    simp only [hsend, Option.bind_some] at hs
    obtain ⟨rfl, rfl⟩ := Prod.mk.inj (Option.some.inj hs)
    refine hsettled.absorb hwrote.backlog hwrote.state ?_ (fun hshut data' r' hmem => ?_)
      (.inl (notMem_sendInLoop hsend))
    · rw [← List.append_assoc (handed o'), hkept.mpr fun hf => .inl (hdata hf), List.append_assoc, ← hstream]
      simp [Functor.bytes]
    · rcases sendInLoop_effects hsend hmem with heq | heq | ⟨_, heq⟩
      · obtain ⟨rfl, _⟩ := Effect.write.inj heq
        exact hnil hshut
      all_goals cases heq
  | shutdown =>
    obtain ⟨rfl, rfl⟩ := Prod.mk.inj (Option.some.inj hs)
    obtain ⟨hq, hclosed⟩ := hlast rfl
    refine hsettled.shutdownInLoop h.backlog ?_ hq (by simp [hclosed, Stage.past])
    simpa [hq, hclosed, Functor.bytes, Stage.bytes] using hstream
  | callback cb =>
    obtain ⟨rfl, rfl⟩ := Prod.mk.inj (Option.some.inj hs)
    rw [List.append_nil]
    exact ⟨hsettled, h.backlog, hstream⟩

theorem sound_step (h : Sound inLoop obs s) {a : Action} (he : Enabled inLoop s a) (hC : NoEarlyDrain s a)
    (hs : step inLoop s a = some (s', o)) : Sound inLoop (obs ++ o) s' := by
  cases a with
  | send data r => exact h.send he hs
  | queueSend =>
    obtain ⟨data, hstage⟩ := he
    obtain ⟨rfl, rfl⟩ := Prod.mk.inj (Option.some.inj hs)
    rw [List.append_nil]
    exact h.queueSend hstage
  | shutdown => exact h.shutdown he hs
  | queueShutdown =>
    obtain ⟨rfl, rfl⟩ := Prod.mk.inj (Option.some.inj hs)
    rw [List.append_nil]
    exact h.queueShutdown he
  | handleWrite r => exact h.handleWrite he hC hs
  | swap =>
    obtain ⟨rfl, rfl⟩ := Prod.mk.inj (Option.some.inj hs)
    have hwaiting : s.queue.swap.waiting = s.queue.waiting := Mailbox.waiting_swap he
    have hqueued : queued s.queue.swap = queued s.queue := congrArg (List.flatMap _) hwaiting
    rw [List.append_nil]
    exact ⟨⟨h.state, hwaiting ▸ h.ordered, hwaiting ▸ h.last, hqueued ▸ h.own, h.shut, h.history, h.graceful⟩,
      h.backlog, hqueued ▸ h.stream⟩
  | func r => exact h.func he hs

/-- **A graceful shutdown loses nothing unless the output buffer is drained early.** One
thread, the loop's or another, sends and then shuts down. In every run in which no
`handleWrite` takes the whole backlog in the state `disconnecting` while bytes are
queued, the socket is half closed only when every byte issued has been handed to the
kernel, and nothing is written after that. -/
theorem shutdown_loses_nothing {s₀ : GracefulShutdown} (h₀ : s₀.Initial) {as : List Action}
    (h : ((machine inLoop).restrict NoEarlyDrain).Run s₀ as obs s) : Graceful obs := by
  have hsound : Sound inLoop obs s := by
    refine h.invariant (Sound inLoop) (sound_initial inLoop h₀) ?_
    rintro obs s a s' o hI ⟨he, hC⟩ hs
    exact sound_step hI he hC hs
  exact hsound.graceful

/-- What is seen of a run of an established connection. -/
def history (M : Machine GracefulShutdown Action Event) [∀ s a, Decidable (M.enabled s a)] (as : List Action) :
    Option (List Event) := do
  let s ← established 5
  let (obs, _) ← M.trace s as
  some obs

theorem run_of_history {M : Machine GracefulShutdown Action Event} [∀ s a, Decidable (M.enabled s a)]
    {as : List Action} (h : history M as = some obs) : ∃ s₀ s, established 5 = some s₀ ∧ M.Run s₀ as obs s := by
  simp only [history, Option.bind_eq_bind, Option.bind_eq_some_iff, Option.some.injEq, Prod.exists] at h
  obtain ⟨s₀, h₀, obs', s, htrace, rfl⟩ := h
  exact ⟨s₀, s, h₀, .of_trace htrace⟩

/-- Another thread sends two messages and shuts down. Of the first, one byte is written. -/
def twoMessages : List Action :=
  [.send [1, 2] (.wrote 0), .queueSend, .swap, .func (.wrote 1), .send [3] (.wrote 0), .queueSend, .shutdown,
    .queueShutdown]

/-- The functors run first, and then the backlog is drained. -/
theorem shutdown_loses_nothing_twoMessages :
    ∃ s₀ obs s, s₀.Initial ∧ ((machine false).restrict NoEarlyDrain).Run s₀
        (twoMessages ++ [.swap, .func (.wrote 0), .func (.wrote 0), .handleWrite (.wrote 2)]) obs s ∧
      handedBytes obs = [1, 2, 3] ∧ .effect .shutdownWrite ∈ obs ∧ Graceful obs := by
  have hhistory : history ((machine false).restrict NoEarlyDrain)
      (twoMessages ++ [.swap, .func (.wrote 0), .func (.wrote 0), .handleWrite (.wrote 2)]) =
      some [.issued [1, 2], .effect (.write [1, 2] (.wrote 1)), .effect .updateChannel, .issued [3],
        .effect (.write [2, 3] (.wrote 2)), .effect .updateChannel, .effect .shutdownWrite] := by
    decide +kernel
  obtain ⟨s₀, s, h₀, hrun⟩ := run_of_history hhistory
  have hinit := established_initial h₀
  exact ⟨s₀, _, s, hinit, hrun, by decide, by decide, shutdown_loses_nothing hinit hrun⟩

/-- The backlog is drained first: the socket is half closed while the second message is
still queued. -/
theorem shutdown_loses_queued_message :
    ∃ s₀ obs s, established 5 = some s₀ ∧ (machine false).Run s₀ (twoMessages ++ [.handleWrite (.wrote 1)]) obs s ∧
      ¬ Graceful obs := by
  have hhistory : history (machine false) (twoMessages ++ [.handleWrite (.wrote 1)]) =
      some ([.issued [1, 2], .effect (.write [1, 2] (.wrote 1)), .effect .updateChannel, .issued [3],
        .effect (.write [2] (.wrote 1)), .effect .updateChannel] ++ [.effect .shutdownWrite]) := by
    decide +kernel
  obtain ⟨s₀, s, h₀, hrun⟩ := run_of_history hhistory
  exact ⟨s₀, _, s, h₀, hrun, fun h => absurd (h _ _ rfl).1 (by decide)⟩

end GracefulShutdown
end Chtho.Net
