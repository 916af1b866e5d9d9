import Mathlib.Data.List.Lex
import Mathlib.Logic.Function.Basic
import Chtho.Lib.Mailbox
import Chtho.Lib.OrdMap
import Chtho.Net.TcpConnection

/-! `TcpServer`: the connections of a server, its base loop and its io loops.

Loop 0 is the base loop, the others are those of the thread pool. Each loop thread
polls, handles the events of the active channels, one callback at a time, and runs
the functors it swapped out of its queue, one at a time. A functor queued in the
loop's own thread is in the queue at once; one queued in another thread is in flight
first, since that thread can be stopped anywhere before its `push_back`, and reaches
the queue in a step of its own.

Connections are numbered as `nxtConnID_` numbers them, from 1 on. A poller is the
list of the channels it holds, by connection: it is keyed by file descriptor in the
source, and no descriptor is reused before its connection is destroyed. Connections
stay in `conn` after their objects are gone. -/
namespace Chtho.Net
open Lib TcpConnection

namespace TcpServer

/-- The functors in the queues, by connection. What a `sendInLoop` finds to send is
known only when it runs. -/
inductive Functor where
  | connEstablished (c : Nat)
  | connDestroyed (c : Nat)
  | rmConnInLoop (c : Nat)
  | shutdownInLoop (c : Nat)
  | forceCloseInLoop (c : Nat)
  | sendInLoop (c : Nat)
  | callback (c : Nat) (cb : Callback)
deriving DecidableEq, Repr

/-- Where a loop thread is. -/
inductive Phase where
  | polling
  /-- With the active channels still to come and the callbacks of the current one. No
  connection's channel is current between `poll` and the first channel, and while the
  acceptor, the timers or the eventfd have their turn. -/
  | handling (activeChannels : List Nat) (todo : List (Nat × Mask)) (curActiveChannel : Option Nat)
      (handlers : List Handler)
  /-- In `doPendingFuncs`, after the swap. -/
  | functors
deriving DecidableEq, Repr

structure Loop where
  queue : Mailbox Functor
  phase : Phase
  /-- The channels in the poller. -/
  channels : List Nat

/-- A connection with its name and its loop. -/
structure Conn where
  name : Bytes
  tcp : TcpConnection
  loop : Nat

/-- What is recorded of a run: the steps in the life of a connection, and the callbacks
its channel runs. -/
inductive Event where
  | accepted (c : Nat)
  | established (c : Nat)
  | handler (c : Nat) (h : Handler)
  | closeCB (c : Nat)
  | removed (c : Nat)
  | destroyed (c : Nat)
deriving DecidableEq, Repr

/-- What a server is started with. The text of an address and its port is at most
`[`, 39 characters, `]:` and 5 digits long. -/
structure Config where
  name : Bytes
  ipPort : Bytes
  numThreads : Nat
  writeCompleteCB : Bool
  ipPort_le : ipPort.length ≤ 47

/-- The name of a connection: `snprintf` into a buffer of 64. -/
def Config.connName (cfg : Config) (id : Nat) : Bytes :=
  cfg.name ++ (ascii "-" ++ cfg.ipPort ++ ascii "#" ++ decimal id).take 63

/-- The buffer holds the whole number, so connections have names of their own. -/
theorem Config.connName_injective (cfg : Config) {a b : Nat} (ha : a < 2 ^ 31) (hb : b < 2 ^ 31)
    (h : cfg.connName a = cfg.connName b) : a = b := by
  have hshort : ∀ id : Nat, id < 2 ^ 31 →
      (ascii "-" ++ cfg.ipPort ++ ascii "#" ++ decimal id).take 63 =
        ascii "-" ++ cfg.ipPort ++ ascii "#" ++ decimalDigits id := by
    intro id hid
    have hlen : (decimalDigits id).length ≤ 10 := (length_decimalDigits_le (by decide)).mpr (by omega)
    have hport := cfg.ipPort_le
    rw [decimal_natCast, List.take_of_length_le]
    simp only [List.length_append, ascii, List.length_map]
    have h1 : "-".toList.length = 1 := by decide
    have h2 : "#".toList.length = 1 := by decide
    omega
  unfold Config.connName at h
  rw [hshort a ha, hshort b hb] at h
  exact decimalDigits_injective (List.append_cancel_left (List.append_cancel_left h))

/-- `getNextLoop`: the loop, and the new `nxt_`. -/
def Config.getNextLoop (cfg : Config) (nxt : Nat) : Nat × Nat :=
  if cfg.numThreads = 0 then (0, nxt)
  else (nxt + 1, if cfg.numThreads ≤ nxt + 1 then 0 else nxt + 1)

end TcpServer

open TcpServer in
structure TcpServer where
  conns : OrdMap Bytes Nat
  nxtConnID : Nat
  /-- `nxt_` of the thread pool. -/
  nxt : Nat
  conn : Nat → Conn
  loops : Nat → Loop
  /-- Functors on their way to the queue of a loop. -/
  inflight : List (Nat × Functor)

namespace TcpServer

/-- What the numbers of no connection are mapped to. -/
def Conn.unused : Conn := ⟨[], ⟨.disconnected, .create 0, false, false, 0, ⟨[], 0, 0⟩, ⟨[], 0, 0⟩⟩, 0⟩

def start : TcpServer := ⟨.empty, 1, 0, fun _ => .unused, fun _ => ⟨.empty, .polling, []⟩, []⟩

def accepted (s : TcpServer) (c : Nat) : Prop := 1 ≤ c ∧ c < s.nxtConnID

def setTcp (s : TcpServer) (c : Nat) (tcp : TcpConnection) : TcpServer :=
  {s with conn := Function.update s.conn c {s.conn c with tcp := tcp}}

def setLoop (s : TcpServer) (l : Nat) (loop : Loop) : TcpServer :=
  {s with loops := Function.update s.loops l loop}

def setPhase (s : TcpServer) (l : Nat) (phase : Phase) : TcpServer :=
  s.setLoop l {s.loops l with phase := phase}

def setChannels (s : TcpServer) (l : Nat) (channels : List Nat) : TcpServer :=
  s.setLoop l {s.loops l with channels := channels}

/-- The `push_back` of `queueInLoop`. -/
def post (s : TcpServer) (l : Nat) (f : Functor) : TcpServer :=
  s.setLoop l {s.loops l with queue := (s.loops l).queue.post f}

/-! ### `EventLoop` -/

/-- `own` is whether the calling thread is the loop's own. -/
def queueInLoop (s : TcpServer) (own : Bool) (l : Nat) (f : Functor) : TcpServer :=
  if own then s.post l f else {s with inflight := s.inflight ++ [(l, f)]}

/-- `run` is what `f` does. -/
def runInLoop (s : TcpServer) (own : Bool) (l : Nat) (f : Functor)
    (run : TcpServer → Option (TcpServer × List Event)) : Option (TcpServer × List Event) :=
  if own then run s else some (s.queueInLoop own l f, [])

def updateChannel (s : TcpServer) (l c : Nat) : TcpServer :=
  s.setChannels l (if c ∈ (s.loops l).channels then (s.loops l).channels else (s.loops l).channels ++ [c])

/-- `removeChannel`, with the poller's own assertion that it holds the channel. -/
def removeChannel (s : TcpServer) (l c : Nat) : Option TcpServer := do
  match (s.loops l).phase with
  | .handling activeChannels _ curActiveChannel _ => assert (curActiveChannel = some c ∨ c ∉ activeChannels)
  | .polling | .functors => some ()
  assert (c ∈ (s.loops l).channels)
  some (s.setChannels l ((s.loops l).channels.filter (· ≠ c)))

/-! ### Removing a connection -/

def rmConnInLoop (s : TcpServer) (c : Nat) : Option (TcpServer × List Event) := do
  let name := (s.conn c).name
  let ioloop := (s.conn c).loop
  assert ((s.conns.find? name).isSome = true)
  some (queueInLoop {s with conns := s.conns.erase name} (ioloop == 0) ioloop (.connDestroyed c), [.removed c])

/-- `rmConn`, called in the connection's loop. -/
def rmConn (s : TcpServer) (c : Nat) : Option (TcpServer × List Event) :=
  s.runInLoop ((s.conn c).loop == 0) 0 (.rmConnInLoop c) (·.rmConnInLoop c)

/-! ### The functions of a connection, in its loop -/

/-- What an effect of connection `c` does to the server. -/
def perform (s : TcpServer) (c : Nat) : Effect → Option (TcpServer × List Event)
  | .updateChannel => some (s.updateChannel (s.conn c).loop c, [])
  | .removeChannel => do some (← s.removeChannel (s.conn c).loop c, [])
  | .queueInLoop cb => some (s.queueInLoop true (s.conn c).loop (.callback c cb), [])
  | .closeCB => do
    let (s, o) ← s.rmConn c
    some (s, .closeCB c :: o)
  | .write _ _ | .shutdownWrite | .connCB | .msgCB => some (s, [])

def performAll (s : TcpServer) (c : Nat) : List Effect → Option (TcpServer × List Event)
  | [] => some (s, [])
  | e :: es => do
    let (s, o) ← s.perform c e
    let (s, o') ← s.performAll c es
    some (s, o ++ o')

/-- A function of connection `c`, by the connection it leaves and its effects. -/
def call (s : TcpServer) (c : Nat) (r : Option (TcpConnection × List Effect)) :
    Option (TcpServer × List Event) := do
  let (tcp, effects) ← r
  (s.setTcp c tcp).performAll c effects

def connEstablished (s : TcpServer) (c : Nat) : Option (TcpServer × List Event) := do
  let (s, o) ← s.call c (s.conn c).tcp.connEstablished
  some (s, .established c :: o)

def connDestroyed (s : TcpServer) (c : Nat) : Option (TcpServer × List Event) := do
  let (s, o) ← s.call c (s.conn c).tcp.connDestroyed
  some (s, .destroyed c :: o)

def shutdownInLoop (s : TcpServer) (c : Nat) : Option (TcpServer × List Event) :=
  s.call c (some ((s.conn c).tcp, (s.conn c).tcp.shutdownInLoop))

def forceCloseInLoop (s : TcpServer) (c : Nat) : Option (TcpServer × List Event) :=
  s.call c (s.conn c).tcp.forceCloseInLoop

def sendInLoop (s : TcpServer) (c : Nat) (data : Bytes) (w : Write) : Option (TcpServer × List Event) :=
  s.call c ((s.conn c).tcp.sendInLoop data w)

/-- A callback of the channel. -/
def handleEvent (s : TcpServer) (c : Nat) (rd : Readv) (w : Write) : Handler → Option (TcpServer × List Event)
  | .close => s.call c (s.conn c).tcp.handleClose
  | .error => some (s, [])
  | .read => s.call c ((s.conn c).tcp.handleRead rd)
  | .write => s.call c ((s.conn c).tcp.handleWrite w)

/-- A functor. User callbacks do nothing here: what they call is a step of its own. -/
def run (s : TcpServer) (data : Bytes) (w : Write) : Functor → Option (TcpServer × List Event)
  | .connEstablished c => s.connEstablished c
  | .connDestroyed c => s.connDestroyed c
  | .rmConnInLoop c => s.rmConnInLoop c
  | .shutdownInLoop c => s.shutdownInLoop c
  | .forceCloseInLoop c => s.forceCloseInLoop c
  | .sendInLoop c => s.sendInLoop c data w
  | .callback _ _ => some (s, [])

/-! ### The functions any thread may call -/

def newConn (cfg : Config) (s : TcpServer) (sockfd : Nat) (highWaterMarkCB : Bool) :
    Option (TcpServer × List Event) := do
  let (ioloop, nxt) := cfg.getNextLoop s.nxt
  let c := s.nxtConnID
  let tcp ← TcpConnection.create sockfd cfg.writeCompleteCB highWaterMarkCB
  let s := {s with
    nxt := nxt, nxtConnID := c + 1
    conn := Function.update s.conn c ⟨cfg.connName c, tcp, ioloop⟩
    conns := s.conns.insert (cfg.connName c) c}
  let (s, o) ← s.runInLoop (ioloop == 0) ioloop (.connEstablished c) (·.connEstablished c)
  some (s, .accepted c :: o)

/-- The loop of `~TcpServer` over `conns_`, in the base loop. -/
def destroyConns (s : TcpServer) : List (Bytes × Nat) → Option (TcpServer × List Event)
  | [] => some (s, [])
  | (_, c) :: rest => do
    let ioloop := (s.conn c).loop
    let (s, o) ← s.runInLoop (ioloop == 0) ioloop (.connDestroyed c) (·.connDestroyed c)
    let (s, o') ← s.destroyConns rest
    some (s, o ++ o')

def destructor (s : TcpServer) : Option (TcpServer × List Event) := s.destroyConns s.conns.entries

def shutdown (s : TcpServer) (own : Bool) (c : Nat) : Option (TcpServer × List Event) :=
  let (tcp, run) := (s.conn c).tcp.shutdown
  if run then (s.setTcp c tcp).runInLoop own (s.conn c).loop (.shutdownInLoop c) (·.shutdownInLoop c)
  else some (s, [])

def forceClose (s : TcpServer) (own : Bool) (c : Nat) : Option (TcpServer × List Event) :=
  let (tcp, run) := (s.conn c).tcp.forceClose
  if run then some ((s.setTcp c tcp).queueInLoop own (s.conn c).loop (.forceCloseInLoop c), [])
  else some (s, [])

def send (s : TcpServer) (own : Bool) (c : Nat) (data : Bytes) (w : Write) : Option (TcpServer × List Event) :=
  if (s.conn c).tcp.state = .connected then
    s.runInLoop own (s.conn c).loop (.sendInLoop c) (·.sendInLoop c data w)
  else some (s, [])

/-! ### Steps -/

/-- `l` is the loop whose thread takes the step. The results of `::readv` and `::write` go
with the actions that may call them, and with `func` what a `sendInLoop` finds to send. -/
inductive Action where
  | accept (sockfd : Nat) (highWaterMarkCB : Bool)
  | deliver (l : Nat) (f : Functor)
  | poll (l : Nat) (active : List (Nat × Mask))
  | next (l : Nat)
  /-- A channel that is no connection's has its turn. -/
  | other (l : Nat)
  | handle (l : Nat) (rd : Readv) (w : Write)
  | doPendingFuncs (l : Nat)
  | func (l : Nat) (data : Bytes) (w : Write)
  | finish (l : Nat)
  | shutdown (own : Bool) (c : Nat)
  | forceClose (own : Bool) (c : Nat)
  | send (own : Bool) (c : Nat) (data : Bytes) (w : Write)
deriving DecidableEq, Repr

namespace Phase

/-- No connection's channel is current. -/
def onOther : Phase → Bool
  | .handling _ _ none _ => true
  | _ => false

/-- The callbacks of the current channel are done, and `more` channels are active or none. -/
def between (more : Bool) : Phase → Bool
  | .handling _ todo _ [] => !todo.isEmpty == more
  | _ => false

/-- The current channel and the callback it runs next. -/
def current : Phase → Option (Nat × Handler)
  | .handling _ _ (some c) (h :: _) => some (c, h)
  | _ => none

end Phase

/-- An event the kernel may report in loop `l`. It reports on channels with events of
interest, and not `POLLPRI` or `POLLRDHUP` together with `POLLHUP` without `POLLIN`. -/
def Reported (s : TcpServer) (l : Nat) (e : Nat × Mask) : Prop :=
  e.1 ∈ (s.loops l).channels ∧ (s.conn e.1).tcp.channel.isNoneEvent = false ∧
    ¬ (e.2 &&& POLLHUP ≠ 0 ∧ e.2 &&& POLLIN = 0 ∧ e.2 &&& (POLLPRI ||| POLLRDHUP) ≠ 0)

/-- A call made in the loop's own thread is made by user code there, so not in `poll`. -/
def Callable (s : TcpServer) (own : Bool) (c : Nat) : Prop :=
  s.accepted c ∧ (own = true → (s.loops (s.conn c).loop).phase ≠ .polling)

def Enabled (s : TcpServer) : Action → Prop
  | .accept _ _ => s.nxtConnID < 2 ^ 31 ∧ (s.loops 0).phase.onOther = true
  | .deliver l f => (l, f) ∈ s.inflight
  | .poll l active =>
    (s.loops l).phase = .polling ∧ (active.map Prod.fst).Nodup ∧ ∀ e ∈ active, s.Reported l e
  | .next l => (s.loops l).phase.between true = true
  | .other l => (s.loops l).phase.between true = true ∨ (s.loops l).phase.between false = true
  | .handle l _ w => ∃ e ∈ (s.loops l).phase.current, w.Within (s.conn e.1).tcp.outputBuf.readableBytes
  | .doPendingFuncs l => (s.loops l).phase.between false = true
  | .func l data w => (s.loops l).phase = .functors ∧ (s.loops l).queue.batch ≠ [] ∧ w.Within data.length
  | .finish l => (s.loops l).phase = .functors ∧ (s.loops l).queue.batch = []
  | .shutdown own c | .forceClose own c => s.Callable own c
  | .send own c data w => s.Callable own c ∧ w.Within data.length

def step (cfg : Config) (s : TcpServer) : Action → Option (TcpServer × List Event)
  | .accept sockfd highWaterMarkCB => s.newConn cfg sockfd highWaterMarkCB
  | .deliver l f => some (post {s with inflight := s.inflight.erase (l, f)} l f, [])
  | .poll l active => some (s.setPhase l (.handling (active.map Prod.fst) active none []), [])
  | .next l =>
    match (s.loops l).phase with
    | .handling active ((c, revents) :: todo) _ [] =>
      some (s.setPhase l (.handling active todo (some c) (Channel.handlers revents)), [])
    | _ => none
  | .other l =>
    match (s.loops l).phase with
    | .handling active todo _ [] => some (s.setPhase l (.handling active todo none []), [])
    | _ => none
  | .handle l rd w =>
    match (s.loops l).phase with
    | .handling active todo (some c) (h :: hs) => do
      let (s, o) ← (s.setPhase l (.handling active todo (some c) hs)).handleEvent c rd w h
      some (s, .handler c h :: o)
    | _ => none
  | .doPendingFuncs l =>
    some (s.setLoop l {s.loops l with queue := (s.loops l).queue.swap, phase := .functors}, [])
  | .func l data w => do
    let (f, queue) ← (s.loops l).queue.next
    (s.setLoop l {s.loops l with queue := queue}).run data w f
  | .finish l => some (s.setPhase l .polling, [])
  | .shutdown own c => s.shutdown own c
  | .forceClose own c => s.forceClose own c
  | .send own c data w => s.send own c data w

def machine (cfg : Config) : Machine TcpServer Action Event := ⟨Enabled, step cfg⟩

instance (s : TcpServer) (l : Nat) (e : Nat × Mask) : Decidable (s.Reported l e) :=
  inferInstanceAs (Decidable (_ ∧ _ ∧ ¬ (¬ _ = _ ∧ _ ∧ ¬ _ = _)))

instance (s : TcpServer) (own : Bool) (c : Nat) : Decidable (s.Callable own c) :=
  inferInstanceAs (Decidable ((_ ∧ _) ∧ (_ → ¬ _ = _)))

instance (s : TcpServer) (a : Action) : Decidable (s.Enabled a) :=
  match a with
  | .accept _ _ => inferInstanceAs (Decidable (_ ∧ _))
  | .deliver l f => inferInstanceAs (Decidable ((l, f) ∈ s.inflight))
  | .poll l active => inferInstanceAs (Decidable (_ ∧ _ ∧ ∀ e ∈ active, s.Reported l e))
  | .next _ | .doPendingFuncs _ => inferInstanceAs (Decidable (_ = _))
  | .other _ => inferInstanceAs (Decidable (_ ∨ _))
  | .handle l _ w =>
    inferInstanceAs (Decidable (∃ e ∈ (s.loops l).phase.current, w.Within (s.conn e.1).tcp.outputBuf.readableBytes))
  | .func _ _ _ => inferInstanceAs (Decidable (_ ∧ ¬ _ = _ ∧ _))
  | .finish _ => inferInstanceAs (Decidable (_ ∧ _))
  | .shutdown own c | .forceClose own c => inferInstanceAs (Decidable (s.Callable own c))
  | .send own c data w => inferInstanceAs (Decidable (s.Callable own c ∧ w.Within data.length))

instance (cfg : Config) (s : TcpServer) (a : Action) : Decidable ((machine cfg).enabled s a) :=
  inferInstanceAs (Decidable (s.Enabled a))

end TcpServer
end Chtho.Net
