import Chtho.Net.TcpServer

/-! One connection of a `TcpServer`, apart from the rest.

A step of the server concerns one connection, of which it changes the `View`: all that
the server has of it, in the connection itself, the queues, the pollers and `conns_`. The
views of the other connections and the positions of the loop threads stay as they are
(`Frame`). -/
namespace Chtho.Net.TcpServer
open Lib TcpConnection

/-! ### What concerns one connection -/

namespace Functor

def conn : Functor → Nat
  | .connEstablished c | .connDestroyed c | .rmConnInLoop c | .shutdownInLoop c
  | .forceCloseInLoop c | .sendInLoop c | .callback c _ => c

/-- The functors that take a connection to the next stage of its life. -/
def isControl : Functor → Bool
  | .connEstablished _ | .connDestroyed _ | .rmConnInLoop _ => true
  | .shutdownInLoop _ | .forceCloseInLoop _ | .sendInLoop _ | .callback _ _ => false

end Functor

namespace Event

def conn : Event → Nat
  | .accepted c | .established c | .handler c _ | .closeCB c | .removed c | .destroyed c => c

def isHandler : Event → Bool
  | .handler _ _ => true
  | _ => false

end Event

/-- How often a functor is on its way to a loop or in its queue. -/
def pending (s : TcpServer) (l : Nat) (f : Functor) : Nat :=
  s.inflight.count (l, f) + (s.loops l).queue.waiting.count f

/-- A functor that a loop has taken up and not run yet counts once. -/
def inHand (r : Option (Nat × Functor)) (l : Nat) (f : Functor) : Nat := if r = some (l, f) then 1 else 0

@[simp] theorem inHand_none (l : Nat) (f : Functor) : inHand none l f = 0 := rfl

@[simp] theorem inHand_self (l : Nat) (f : Functor) : inHand (some (l, f)) l f = 1 := if_pos rfl

theorem inHand_of_ne {l l' : Nat} {f f' : Functor} (h : f ≠ f') : inHand (some (l, f)) l' f' = 0 :=
  if_neg fun heq => h (congrArg Prod.snd (Option.some.inj heq))

theorem inHand_of_conn_ne {l l' : Nat} {f f' : Functor} (h : f.conn ≠ f'.conn) : inHand (some (l, f)) l' f' = 0 :=
  inHand_of_ne fun heq => h (congrArg Functor.conn heq)

theorem inHand_of_isControl_ne {l l' : Nat} {f f' : Functor} (h : f.isControl ≠ f'.isControl) :
    inHand (some (l, f)) l' f' = 0 := inHand_of_ne fun heq => h (congrArg Functor.isControl heq)

/-- All that the server has of one connection. -/
structure View where
  accepted : Prop
  conn : Conn
  pending : Nat → Functor → Nat
  /-- In which pollers it is. -/
  registered : Nat → Prop
  /-- Under which names it is in `conns_`. -/
  listed : Bytes → Prop

def view (s : TcpServer) (c : Nat) : View where
  accepted := s.accepted c
  conn := s.conn c
  pending := fun l f => if f.conn = c then s.pending l f else 0
  registered := fun l => c ∈ (s.loops l).channels
  listed := fun name => s.conns.find? name = some c

variable {s s' t : TcpServer} {c d l : Nat} {f : Functor} {own : Bool}

theorem view_setTcp_self (tcp : TcpConnection) :
    (s.setTcp c tcp).view c = {s.view c with conn := {s.conn c with tcp := tcp}} := by
  simp only [view, setTcp, Function.update_self]
  rfl

theorem view_setTcp_of_ne (tcp : TcpConnection) (h : d ≠ c) : (s.setTcp c tcp).view d = s.view d := by
  simp only [view, setTcp, Function.update_of_ne h]
  rfl

theorem loops_setLoop (s : TcpServer) (l l' : Nat) (x : Loop) :
    (s.setLoop l x).loops l' = if l' = l then x else s.loops l' := Function.update_apply ..

theorem pending_setLoop {x : Loop} (h : x.queue.waiting = (s.loops l).queue.waiting) :
    (s.setLoop l x).pending = s.pending := by
  funext l' f
  show _ + ((s.setLoop l x).loops l').queue.waiting.count f = _
  rw [loops_setLoop]
  split
  case isTrue heq => rw [h, heq]; rfl
  case isFalse => rfl

/-- Where a loop thread is does not concern any connection. -/
theorem view_setLoop {x : Loop} (hq : x.queue.waiting = (s.loops l).queue.waiting)
    (hc : x.channels = (s.loops l).channels) : (s.setLoop l x).view = s.view := by
  funext d
  have hchannels : ∀ l', ((s.setLoop l x).loops l').channels = (s.loops l').channels := by
    intro l'
    rw [loops_setLoop]
    split
    case isTrue heq => rw [hc, heq]
    case isFalse => rfl
  simp only [view, pending_setLoop hq, hchannels]
  rfl

/-! Queueing a functor changes no loop but for what is pending. -/

@[simp] theorem conn_queueInLoop : (s.queueInLoop own l f).conn = s.conn := by cases own <;> rfl

@[simp] theorem conns_queueInLoop : (s.queueInLoop own l f).conns = s.conns := by cases own <;> rfl

@[simp] theorem nxtConnID_queueInLoop : (s.queueInLoop own l f).nxtConnID = s.nxtConnID := by cases own <;> rfl

theorem loops_queueInLoop (l' : Nat) :
    (s.queueInLoop own l f).loops l' = if own = true ∧ l' = l then {s.loops l' with queue := (s.loops l').queue.post f}
      else s.loops l' := by
  cases own with
  | false => rfl
  | true =>
    show (s.setLoop l _).loops l' = _
    rw [loops_setLoop]
    by_cases hl : l' = l
    · subst hl
      simp
    · simp [hl]

@[simp] theorem channels_queueInLoop (l' : Nat) :
    ((s.queueInLoop own l f).loops l').channels = (s.loops l').channels := by
  rw [loops_queueInLoop]
  split <;> rfl

theorem pending_queueInLoop (l' : Nat) (f' : Functor) :
    (s.queueInLoop own l f).pending l' f' = s.pending l' f' + inHand (some (l, f)) l' f' := by
  unfold pending inHand
  rw [loops_queueInLoop]
  cases own with
  | true =>
    show s.inflight.count (l', f') + _ = _
    by_cases hl : l' = l
    · subst hl
      simp [List.count_append, List.count_singleton, Nat.add_assoc, beq_eq_decide]
    · simp [hl, Ne.symm hl]
  | false =>
    show (s.inflight ++ [(l, f)]).count (l', f') + _ = _
    simp [List.count_append, List.count_singleton, Nat.add_right_comm, beq_eq_decide]

theorem view_queueInLoop_self :
    (s.queueInLoop own l f).view f.conn = {s.view f.conn with
      pending := fun l' f' => (s.view f.conn).pending l' f' + inHand (some (l, f)) l' f'} := by
  simp only [view, accepted, conn_queueInLoop, conns_queueInLoop, nxtConnID_queueInLoop, channels_queueInLoop,
    pending_queueInLoop]
  congr 1
  funext l' f'
  split
  · rfl
  case isFalse hne => rw [inHand_of_conn_ne (Ne.symm hne)]

theorem view_queueInLoop_of_ne (h : f.conn ≠ d) : (s.queueInLoop own l f).view d = s.view d := by
  simp only [view, accepted, conn_queueInLoop, conns_queueInLoop, nxtConnID_queueInLoop, channels_queueInLoop,
    pending_queueInLoop]
  congr 1
  funext l' f'
  split
  case isTrue heq => rw [inHand_of_conn_ne (heq ▸ h), Nat.add_zero]
  case isFalse => rfl

theorem view_setChannels_self (channels : List Nat) :
    (s.setChannels l channels).view c = {s.view c with
      registered := fun l' => if l' = l then c ∈ channels else c ∈ (s.loops l').channels} := by
  have hpending : (s.setChannels l channels).pending = s.pending := pending_setLoop rfl
  simp only [view, hpending]
  congr 1
  funext l'
  rw [setChannels, loops_setLoop]
  split <;> rfl

theorem view_setChannels_of_ne {channels : List Nat} (h : d ∈ channels ↔ d ∈ (s.loops l).channels) :
    (s.setChannels l channels).view d = s.view d := by
  have hchannels : ∀ l', d ∈ ((s.setChannels l channels).loops l').channels ↔ d ∈ (s.loops l').channels := by
    intro l'
    rw [setChannels, loops_setLoop]
    split
    case isTrue heq => rw [heq]; exact h
    case isFalse => rfl
  have hpending : (s.setChannels l channels).pending = s.pending := pending_setLoop rfl
  simp only [view, hpending, hchannels]
  rfl

/-! ### Frames -/

/-- Other connections than `d` and the positions of the loop threads are unchanged. -/
structure Frame (d : Nat) (s s' : TcpServer) : Prop where
  view : ∀ c, c ≠ d → s'.view c = s.view c
  phase : ∀ l, (s'.loops l).phase = (s.loops l).phase
  batch : ∀ l, (s'.loops l).queue.batch = (s.loops l).queue.batch

theorem Frame.trans (h : Frame d s s') (h' : Frame d s' t) : Frame d s t :=
  ⟨fun c hc => (h'.view c hc).trans (h.view c hc), fun l => (h'.phase l).trans (h.phase l),
    fun l => (h'.batch l).trans (h.batch l)⟩

theorem frame_setTcp (s : TcpServer) (d : Nat) (tcp : TcpConnection) : Frame d s (s.setTcp d tcp) :=
  ⟨fun _ hc => view_setTcp_of_ne tcp hc, fun _ => rfl, fun _ => rfl⟩

theorem frame_queueInLoop (s : TcpServer) (own : Bool) (l : Nat) (f : Functor) :
    Frame f.conn s (s.queueInLoop own l f) := by
  refine ⟨fun c hc => view_queueInLoop_of_ne (Ne.symm hc), fun l' => ?_, fun l' => ?_⟩
  · rw [loops_queueInLoop]
    split <;> rfl
  · rw [loops_queueInLoop]
    split <;> rfl

theorem frame_setChannels {channels : List Nat} (h : ∀ c, c ≠ d → (c ∈ channels ↔ c ∈ (s.loops l).channels)) :
    Frame d s (s.setChannels l channels) := by
  refine ⟨fun c hc => view_setChannels_of_ne (h c hc), fun l' => ?_, fun l' => ?_⟩
  · rw [setChannels, loops_setLoop]
    split
    case isTrue heq => rw [heq]
    case isFalse => rfl
  · rw [setChannels, loops_setLoop]
    split
    case isTrue heq => rw [heq]
    case isFalse => rfl

end Chtho.Net.TcpServer
