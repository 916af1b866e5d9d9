import Chtho.Net.Channel

/-! `Connector`: attempts to connect, one after another until one succeeds.

An attempt is a socket and, while `connect(2)` is in progress, a channel that waits
for the socket to become writable. The channel cannot be destroyed by its own
callback, so that is left to a functor: between `removeAndResetChannel` and
`resetChannel` there is a channel that is in no poller.

Sockets are numbered as they are created. The kernel uses a descriptor again once it
is closed; a number here names one socket for good. What a function does outside the
connector is the list of its `Effect`s, in order, and a function without a result has
failed an assertion or used a null `channel_`. -/
namespace Chtho.Net
open Lib

/-- What `errno` is after `connect(2)`. -/
inductive ConnectErrno where
  /-- `connect` returned 0. -/
  | none
  | EINPROGRESS
  | EINTR
  | EISCONN
  | EAGAIN
  | EADDRINUSE
  | EADDRNOTAVAIL
  | ECONNREFUSED
  | ENETUNREACH
  | EACCES
  | EPERM
  | EAFNOSUPPORT
  | EALREADY
  | EBADF
  | EFAULT
  | ENOTSOCK
  | other (n : Nat)
deriving DecidableEq, Repr

/-- `connect(2)` is done or in progress. -/
def ConnectErrno.begun : ConnectErrno → Bool
  | .none | .EINPROGRESS | .EINTR | .EISCONN => true
  | _ => false

/-- What the kernel says of a socket whose attempt is over: `SO_ERROR`, and whether it
is connected to itself. -/
structure Outcome where
  err : Nat
  selfConnect : Bool
deriving DecidableEq, Repr

namespace Connector

inductive State where
  | disconnected
  | connecting
  | connected
deriving DecidableEq, Repr

inductive Effect where
  /-- `createNonBlockOrDie`, and `connect(2)` on the socket. -/
  | connect (sockfd : Nat)
  | updateChannel (fd : Nat)
  | removeChannel (fd : Nat)
  /-- `channel_` is destroyed. -/
  | destroyChannel (fd : Nat)
  | queueResetChannel
  | runAfter (delayMs : Nat)
  | close (fd : Nat)
  | newConnCB (sockfd : Nat)
deriving DecidableEq, Repr

def maxRetryDelayMs : Nat := 30 * 1000
def initRetryDelayMs : Nat := 500

end Connector

open Connector in
structure Connector where
  connect_ : Bool
  state : State
  channel : Option Channel
  retryDelayMs : Nat
deriving DecidableEq, Repr

namespace Connector

def create : Connector := ⟨false, .disconnected, none, initRetryDelayMs⟩

def connecting (c : Connector) (sockfd : Nat) : Option (Connector × List Effect) := do
  assert (c.channel = none)
  some ({c with state := .connecting, channel := some (Channel.create sockfd).enableWrite}, [.updateChannel sockfd])

def retry (c : Connector) (sockfd : Nat) : Connector × List Effect :=
  if c.connect_ then
    ({c with state := .disconnected, retryDelayMs := min (c.retryDelayMs * 2) maxRetryDelayMs},
      [.close sockfd, .runAfter c.retryDelayMs])
  else ({c with state := .disconnected}, [.close sockfd])

/-- `sockfd` is the socket that is created. -/
def connect (c : Connector) (sockfd : Nat) : ConnectErrno → Option (Connector × List Effect)
  | .none | .EINPROGRESS | .EINTR | .EISCONN => do
    let (c, effects) ← c.connecting sockfd
    some (c, .connect sockfd :: effects)
  | .EAGAIN | .EADDRINUSE | .EADDRNOTAVAIL | .ECONNREFUSED | .ENETUNREACH =>
    let (c, effects) := c.retry sockfd
    some (c, .connect sockfd :: effects)
  | .EACCES | .EPERM | .EAFNOSUPPORT | .EALREADY | .EBADF | .EFAULT | .ENOTSOCK => some (c, [.connect sockfd, .close sockfd])
  | .other _ => some (c, [.connect sockfd, .close sockfd])

def startInLoop (c : Connector) (sockfd : Nat) (errno : ConnectErrno) : Option (Connector × List Effect) := do
  assert (c.state = .disconnected)
  if c.connect_ then c.connect sockfd errno else some (c, [])

def restart (c : Connector) (sockfd : Nat) (errno : ConnectErrno) : Option (Connector × List Effect) :=
  startInLoop {c with state := .disconnected, retryDelayMs := initRetryDelayMs, connect_ := true} sockfd errno

/-- The socket, the connector and the effects. -/
def removeAndResetChannel (c : Connector) : Option (Nat × Connector × List Effect) := do
  let channel ← c.channel
  let channel ← channel.disableAll.remove
  some (channel.fd, {c with channel := some channel},
    [.updateChannel channel.fd, .removeChannel channel.fd, .queueResetChannel])

/-- The destructor of the channel asserts that it is not in the loop. -/
def resetChannel (c : Connector) : Option (Connector × List Effect) := do
  match c.channel with
  | none => some (c, [])
  | some channel =>
    assert (channel.addedToLoop = false)
    some ({c with channel := none}, [.destroyChannel channel.fd])

def handleWrite (c : Connector) (outcome : Outcome) : Option (Connector × List Effect) :=
  if c.state = .connecting then do
    let (sockfd, c, effects) ← c.removeAndResetChannel
    if outcome.err ≠ 0 ∨ outcome.selfConnect then
      let (c, closing) := c.retry sockfd
      some (c, effects ++ closing)
    else
      some ({c with state := .connected}, effects ++ if c.connect_ then [.newConnCB sockfd] else [.close sockfd])
  else do
    assert (c.state = .disconnected)
    some (c, [])

/-- The error is only logged. -/
def handleError (c : Connector) : Option (Connector × List Effect) :=
  if c.state = .connecting then do
    let (sockfd, c, effects) ← c.removeAndResetChannel
    let (c, closing) := c.retry sockfd
    some (c, effects ++ closing)
  else some (c, [])

/-- The channel has no callbacks for closing and reading. -/
def handleEvent (c : Connector) (outcome : Outcome) : Handler → Option (Connector × List Effect)
  | .write => c.handleWrite outcome
  | .error => c.handleError
  | .close | .read => some (c, [])

def handleEvents (c : Connector) (outcome : Outcome) : List Handler → Option (Connector × List Effect)
  | [] => some (c, [])
  | h :: hs => do
    let (c, effects) ← c.handleEvent outcome h
    let (c, more) ← c.handleEvents outcome hs
    some (c, effects ++ more)

def stopInLoop (c : Connector) : Option (Connector × List Effect) :=
  if c.state = .disconnected then do
    let (sockfd, c, effects) ← {c with state := .disconnected}.removeAndResetChannel
    let (c, closing) := c.retry sockfd
    some (c, effects ++ closing)
  else some (c, [])

end Connector
end Chtho.Net
