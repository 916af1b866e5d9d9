import Chtho.Lib.Machine
import Chtho.Lib.Mailbox
import Chtho.Net.Connector

/-! `TcpClient`: a connector and the connection it has made, in their loop.

The loop thread polls, handles the events of the active channels, among them the timer
queue's, and runs the functors it swapped out, one at a time. A functor queued by
another thread is in flight until its `push_back`. User code runs in the loop thread
outside `poll`, also in the callbacks of the connection: what it calls there comes
right before or right after the step that runs the callback.

Connections are numbered by `nxtConnID_`. What a connection does by itself is that it
closes: its channel may be active in any poll while it is open, and a close that
`forceClose` asks for is a functor. `channels` are the connector's channels in the
poller, `timers` the number of its retry timers; a timer fires at any time after it
was set. -/
namespace Chtho.Net
open Lib

namespace TcpClient

inductive Functor where
  | startInLoop
  | stopInLoop
  | resetChannel
  | forceCloseInLoop (c : Nat)
  | connDestroyed (c : Nat)
deriving DecidableEq, Repr

/-- Where the loop thread is. -/
inductive Phase where
  /-- Before `loop()`. -/
  | outside
  | polling
  /-- With what is still to be handled of the connector's channel and of a connection's,
  if they are active. -/
  | handling (connector : Option Mask) (conn : Option Nat)
  /-- In `doPendingFuncs`, after the swap. -/
  | functors
deriving DecidableEq, Repr

/-- What is recorded of a run. -/
inductive Event where
  /-- `Connector::start` or `Connector::restart` is called. -/
  | start
  /-- `Connector::stop` is called. -/
  | stop
  | stopInLoop
  | connector (effect : Connector.Effect)
deriving DecidableEq, Repr

end TcpClient

open TcpClient in
structure TcpClient where
  connector : Connector
  retry_ : Bool
  connect_ : Bool
  nxtConnID : Nat
  conn : Option Nat
  queue : Mailbox Functor
  /-- Functors on their way to the queue. -/
  inflight : List Functor
  phase : Phase
  channels : List Nat
  timers : Nat
  /-- How many sockets were created. -/
  sockets : Nat
deriving DecidableEq, Repr

namespace TcpClient

def create : TcpClient := ⟨.create, false, true, 1, none, .empty, [], .outside, [], 0, 0⟩

/-! ### The functions of the client -/

/-- `own` is whether the calling thread is the loop's own. -/
def queueInLoop (s : TcpClient) (own : Bool) (f : Functor) : TcpClient :=
  if own then {s with queue := s.queue.post f} else {s with inflight := s.inflight ++ [f]}

def newConn (s : TcpClient) : TcpClient := {s with nxtConnID := s.nxtConnID + 1, conn := some s.nxtConnID}

/-- What an effect of the connector does. -/
def perform (s : TcpClient) : Connector.Effect → Option TcpClient
  | .connect _ => some {s with sockets := s.sockets + 1}
  | .updateChannel fd => some {s with channels := if fd ∈ s.channels then s.channels else s.channels ++ [fd]}
  | .removeChannel fd => do
    assert (fd ∈ s.channels)
    some {s with channels := s.channels.filter (· ≠ fd)}
  | .destroyChannel fd => do
    assert (fd ∉ s.channels)
    some s
  | .queueResetChannel => some (s.queueInLoop true .resetChannel)
  | .runAfter _ => some {s with timers := s.timers + 1}
  | .close _ => some s
  | .newConnCB _ => some s.newConn

def performAll (s : TcpClient) : List Connector.Effect → Option TcpClient
  | [] => some s
  | e :: es => do
    let s ← s.perform e
    s.performAll es

/-- A function of the connector, by the connector it leaves and its effects. -/
def call (s : TcpClient) (r : Option (Connector × List Connector.Effect)) : Option (TcpClient × List Event) := do
  let (connector, effects) ← r
  let s ← performAll {s with connector := connector} effects
  some (s, effects.map .connector)

def startInLoop (s : TcpClient) (errno : ConnectErrno) : Option (TcpClient × List Event) :=
  s.call (s.connector.startInLoop s.sockets errno)

/-- `connect`, in the loop thread. -/
def connect (s : TcpClient) (errno : ConnectErrno) : Option (TcpClient × List Event) := do
  let s := {s with connect_ := true, connector := {s.connector with connect_ := true}}
  let (s, o) ← s.startInLoop errno
  some (s, .start :: o)

/-- `connect`, in another thread. -/
def connectQueued (s : TcpClient) : TcpClient × List Event :=
  let s := {s with connect_ := true, connector := {s.connector with connect_ := true}}
  (s.queueInLoop false .startInLoop, [.start])

/-- The connection, if there is one, is shut down: of that the client sees nothing before
the connection closes. -/
def disconnect (s : TcpClient) : TcpClient := {s with connect_ := false}

def stop (s : TcpClient) (own : Bool) : TcpClient × List Event :=
  let s := {s with connect_ := false, connector := {s.connector with connect_ := false}}
  (s.queueInLoop own .stopInLoop, [.stop])

def rmConn (s : TcpClient) (c : Nat) (errno : ConnectErrno) : Option (TcpClient × List Event) := do
  assert (s.conn = some c)
  let s := queueInLoop {s with conn := none} true (.connDestroyed c)
  if s.retry_ ∧ s.connect_ then
    let (s, o) ← s.call (s.connector.restart s.sockets errno)
    some (s, .start :: o)
  else some (s, [])

/-- A connection that has closed before is left alone. -/
def forceCloseInLoop (s : TcpClient) (c : Nat) (errno : ConnectErrno) : Option (TcpClient × List Event) :=
  if s.conn = some c then s.rmConn c errno else some (s, [])

def run (s : TcpClient) (errno : ConnectErrno) : Functor → Option (TcpClient × List Event)
  | .startInLoop => s.startInLoop errno
  | .stopInLoop => do
    let (s, o) ← s.call s.connector.stopInLoop
    some (s, .stopInLoop :: o)
  | .resetChannel => s.call s.connector.resetChannel
  | .forceCloseInLoop c => s.forceCloseInLoop c errno
  | .connDestroyed _ => some (s, [])

/-! ### Steps -/

/-- The kernel's answers go with the actions that may ask for them. -/
inductive Action where
  | connect (errno : ConnectErrno)
  | connectQueued
  | disconnect
  | stop (own : Bool)
  | enableRetry
  /-- The user calls `forceClose` on the connection. -/
  | forceClose (own : Bool)
  | push (f : Functor)
  | loop
  /-- What is active. -/
  | poll (connector : Option Mask) (conn : Bool)
  | connectorEvent (outcome : Outcome)
  /-- An event of the connection, which it may answer by closing. -/
  | connEvent (closes : Bool) (errno : ConnectErrno)
  | timer (errno : ConnectErrno)
  | doPendingFuncs
  | func (errno : ConnectErrno)
  | finish
deriving DecidableEq, Repr

namespace Phase

/-- The loop thread may be in user code. -/
def userCode : Phase → Bool
  | .polling => false
  | _ => true

/-- What is left to handle of the connector's channel. -/
def connectorActive : Phase → Option Mask
  | .handling connector _ => connector
  | _ => none

/-- The connection whose channel is still to be handled. -/
def connActive : Phase → Option Nat
  | .handling _ conn => conn
  | _ => none

def handles : Phase → Bool
  | .handling _ _ => true
  | _ => false

end Phase

def Enabled (s : TcpClient) : Action → Prop
  | .connect _ | .disconnect => s.phase.userCode = true
  | .stop own => own = true → s.phase.userCode = true
  | .forceClose own => s.conn.isSome = true ∧ (own = true → s.phase.userCode = true)
  | .connectQueued | .enableRetry => True
  | .push f => f ∈ s.inflight
  | .loop => s.phase = .outside
  | .poll connector conn =>
    s.phase = .polling ∧ (connector.isSome = true → s.channels ≠ []) ∧ (conn = true → s.conn.isSome = true)
  | .connectorEvent _ => s.phase.connectorActive.isSome = true
  | .connEvent _ _ => s.phase.connActive.isSome = true
  | .timer _ => s.phase.handles = true ∧ 0 < s.timers
  | .doPendingFuncs => s.phase = .handling none none
  | .func _ => s.phase = .functors ∧ s.queue.batch ≠ []
  | .finish => s.phase = .functors ∧ s.queue.batch = []

def step (s : TcpClient) : Action → Option (TcpClient × List Event)
  | .connect errno => s.connect errno
  | .connectQueued => some s.connectQueued
  | .disconnect => some (s.disconnect, [])
  | .stop own => some (s.stop own)
  | .enableRetry => some ({s with retry_ := true}, [])
  | .forceClose own =>
    match s.conn with
    | some c => some (s.queueInLoop own (.forceCloseInLoop c), [])
    | none => some (s, [])
  | .push f => some (queueInLoop {s with inflight := s.inflight.erase f} true f, [])
  | .loop => some ({s with phase := .polling}, [])
  | .poll connector conn => some ({s with phase := .handling connector (if conn then s.conn else none)}, [])
  | .connectorEvent outcome =>
    match s.phase with
    | .handling (some revents) conn => do
      let s := {s with phase := .handling none conn}
      s.call (s.connector.handleEvents outcome (Channel.handlers revents))
    | _ => none
  | .connEvent closes errno =>
    match s.phase with
    | .handling connector (some c) =>
      let s := {s with phase := .handling connector none}
      if closes then s.rmConn c errno else some (s, [])
    | _ => none
  | .timer errno => startInLoop {s with timers := s.timers - 1} errno
  | .doPendingFuncs => some ({s with queue := s.queue.swap, phase := .functors}, [])
  | .func errno => do
    let (f, queue) ← s.queue.next
    run {s with queue := queue} errno f
  | .finish => some ({s with phase := .polling}, [])

def machine : Machine TcpClient Action Event := ⟨Enabled, step⟩

instance (s : TcpClient) (a : Action) : Decidable (s.Enabled a) :=
  match a with
  | .connect _ | .disconnect | .loop | .connectorEvent _ | .connEvent _ _ | .doPendingFuncs =>
    inferInstanceAs (Decidable (_ = _))
  | .stop _ => inferInstanceAs (Decidable (_ → _))
  | .forceClose _ => inferInstanceAs (Decidable (_ ∧ (_ → _)))
  | .connectQueued | .enableRetry => inferInstanceAs (Decidable True)
  | .push _ => inferInstanceAs (Decidable (_ ∈ _))
  | .poll _ _ => inferInstanceAs (Decidable (_ ∧ (_ → ¬ _ = _) ∧ (_ → _)))
  | .timer _ | .finish => inferInstanceAs (Decidable (_ ∧ _))
  | .func _ => inferInstanceAs (Decidable (_ ∧ ¬ _ = _))

instance (s : TcpClient) (a : Action) : Decidable (machine.enabled s a) := inferInstanceAs (Decidable (s.Enabled a))

end TcpClient
end Chtho.Net
