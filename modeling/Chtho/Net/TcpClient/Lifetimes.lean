import Chtho.Net.TcpClient.Moves

/-! The objects of a client, and how long they live.

The loop reaches the client through the callback of its connection for closing and
through that of the connector for new connections, and the connector through the
callbacks of its channel and the functors it has queued; all of these hold a raw pointer. A
retry timer alone holds a `shared_ptr`, so that after `~TcpClient` the connector lives until
the last timer has fired. What a method does on an object that is gone is not defined:
it is seen (`dead`), and nothing comes behind it. -/
namespace Chtho.Net.TcpClient
open Lib Connector

/-- A method that is called through a pointer. -/
inductive Method where
  | newConn
  | rmConn
  /-- The callbacks of the connector's channel. -/
  | handleEvent
  | startInLoop
  | stopInLoop
  | resetChannel
deriving DecidableEq, Repr

inductive LifeEvent where
  | client (e : Event)
  | dtor
  | connectorDtor
  /-- `connDestroyed` is run on a connection. -/
  | connDestroyed (c : Nat)
  /-- A method is run on an object that is gone. -/
  | dead (m : Method)
deriving DecidableEq, Repr

inductive LifeAction where
  | step (a : Action)
  /-- `~TcpClient`, and whether others than the client own its connection. -/
  | destroy (others : Bool)
deriving DecidableEq, Repr

/-- A functor that was queued with a pointer to the connector. -/
def Functor.ofConnector : Functor → Bool
  | .startInLoop | .stopInLoop | .resetChannel => true
  | .forceCloseInLoop _ | .connDestroyed _ => false

/-- What the user calls on the client. -/
def usesClient : Action → Bool
  | .connect _ | .connectQueued | .disconnect | .stop _ | .enableRetry => true
  | _ => false

/-- The body of `~TcpClient`. The connection of a destroyed client is one that survived it. -/
def destroyed (s : TcpClient) (others : Bool) : TcpClient :=
  match s.conn with
  | some c =>
    -- `unique`: a `forceCloseInLoop` that is queued owns the connection too
    if others = true ∨ .forceCloseInLoop c ∈ s.queued then s else s.queueInLoop true (.forceCloseInLoop c)
  | none => queueInLoop {s with connector := {s.connector with connect_ := false}} true .stopInLoop

structure Lifetimes where
  client : TcpClient
  alive : Bool
  connectorAlive : Bool
  /-- A method was run on an object that is gone. -/
  undefined : Bool
deriving DecidableEq, Repr

namespace Lifetimes

def create : Lifetimes := ⟨.create, true, true, false⟩

def dead (p : Lifetimes) (m : Method) : Option (Lifetimes × List LifeEvent) :=
  some ({p with undefined := true}, [.dead m])

/-- `~Connector`, if neither the client nor a timer holds it any more. -/
def drop (p : Lifetimes) : Option (Lifetimes × List LifeEvent) :=
  if p.alive = true ∨ 0 < p.client.timers then some (p, [])
  else do
    assert (p.client.connector.channel = none)
    some ({p with connectorAlive := false}, [.connectorDtor])

def handsOver : Event → Bool
  | .connector (.newConnCB _) => true
  | _ => false

/-- A step of the loop or of the user. What the connector hands over goes to the client. -/
def go (p : Lifetimes) (a : Action) : Option (Lifetimes × List LifeEvent) := do
  let (client, o) ← p.client.step a
  if p.alive = false ∧ o.any handsOver = true then
    some ({p with client := client, undefined := true}, o.map .client ++ [.dead .newConn])
  else some ({p with client := client}, o.map .client)

/-- What a functor runs on an object that is gone. -/
def deadCall (p : Lifetimes) : Functor → Option Method
  | .startInLoop => if p.connectorAlive then none else some .startInLoop
  | .stopInLoop => if p.connectorAlive then none else some .stopInLoop
  | .resetChannel => if p.connectorAlive then none else some .resetChannel
  | .forceCloseInLoop c => if p.alive = false ∧ p.client.conn = some c then some .rmConn else none
  | .connDestroyed _ => none

def ran : Functor → List LifeEvent
  | .connDestroyed c => [.connDestroyed c]
  | _ => []

def func (p : Lifetimes) (errno : ConnectErrno) : Option (Lifetimes × List LifeEvent) := do
  let (f, _) ← p.client.queue.next
  match p.deadCall f with
  | some m => p.dead m
  | none => do
    let (p, o) ← p.go (.func errno)
    some (p, o ++ ran f)

def Enabled (p : Lifetimes) : LifeAction → Prop
  | .destroy _ => p.undefined = false ∧ p.alive = true ∧ p.client.phase.userCode = true
  | .step a => p.undefined = false ∧ p.client.Enabled a ∧ (usesClient a = true → p.alive = true)

def step (p : Lifetimes) : LifeAction → Option (Lifetimes × List LifeEvent)
  | .destroy others => do
    let (p, o) ← drop {p with client := destroyed p.client others, alive := false}
    some (p, .dtor :: o)
  | .step a =>
    match a with
    | .connectorEvent _ => if p.connectorAlive then p.go a else p.dead .handleEvent
    | .connEvent closes _ => if closes = true ∧ p.alive = false then p.dead .rmConn else p.go a
    | .timer _ => do
      let (p, o) ← p.go a
      let (p, o') ← p.drop
      some (p, o ++ o')
    | .func errno => p.func errno
    | _ => p.go a

def machine : Machine Lifetimes LifeAction LifeEvent := ⟨Enabled, step⟩

instance (p : Lifetimes) (a : LifeAction) : Decidable (machine.enabled p a) :=
  match a with
  | .destroy _ => inferInstanceAs (Decidable (_ = _ ∧ _ = _ ∧ _ = _))
  | .step _ => inferInstanceAs (Decidable (_ = _ ∧ _ ∧ (_ → _)))

end Lifetimes
end Chtho.Net.TcpClient
