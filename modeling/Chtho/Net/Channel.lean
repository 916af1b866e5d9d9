import Chtho.Net.Buffer

/-! `Channel`: the events of interest of a file descriptor, and which callbacks the
events that happened on it run.

`events_` and `revents_` are masks of `poll(2)`'s bits. A change of `events_` also
calls `EventLoop::updateChannel`; that call is reported by the operation's user
among its effects, so that the poller can be modelled beside the channel. -/
namespace Chtho.Net

abbrev Mask := BitVec 32

def POLLIN : Mask := 0x001
def POLLPRI : Mask := 0x002
def POLLOUT : Mask := 0x004
def POLLERR : Mask := 0x008
def POLLHUP : Mask := 0x010
def POLLNVAL : Mask := 0x020
def POLLRDHUP : Mask := 0x2000

structure Channel where
  fd : Nat
  events : Mask
  revents : Mask
  /-- Position in the poller, negative if it has none. -/
  idx : Int
  tied : Bool
  addedToLoop : Bool
deriving DecidableEq, Repr

/-- A callback a channel runs. -/
inductive Handler where
  | close
  | error
  | read
  | write
deriving DecidableEq, Repr

namespace Channel

def kNoneEvent : Mask := 0
def kReadEvent : Mask := POLLIN ||| POLLPRI
def kWriteEvent : Mask := POLLOUT

def create (fd : Nat) : Channel := ⟨fd, 0, 0, -1, false, false⟩

/-- A new mask, and `update()`. -/
def setEvents (ch : Channel) (events : Mask) : Channel := {ch with events := events, addedToLoop := true}

def enableRead (ch : Channel) : Channel := ch.setEvents (ch.events ||| kReadEvent)
def disableRead (ch : Channel) : Channel := ch.setEvents (ch.events &&& ~~~kReadEvent)
def enableWrite (ch : Channel) : Channel := ch.setEvents (ch.events ||| kWriteEvent)
def disableWrite (ch : Channel) : Channel := ch.setEvents (ch.events &&& ~~~kWriteEvent)
def disableAll (ch : Channel) : Channel := ch.setEvents kNoneEvent
def isReading (ch : Channel) : Bool := ch.events &&& kReadEvent != 0
def isWriting (ch : Channel) : Bool := ch.events &&& kWriteEvent != 0
def isNoneEvent (ch : Channel) : Bool := ch.events == kNoneEvent
def tie (ch : Channel) : Channel := {ch with tied := true}

/-- `remove()` up to its call of `EventLoop::removeChannel`. -/
def remove (ch : Channel) : Option Channel := do
  Lib.assert (ch.isNoneEvent = true)
  some {ch with addedToLoop := false}

/-- The callbacks `handleEventWithGuard` runs, in order. -/
def handlers (revents : Mask) : List Handler :=
  (if revents &&& POLLHUP ≠ 0 ∧ revents &&& POLLIN = 0 then [.close] else []) ++
  (if revents &&& (POLLERR ||| POLLNVAL) ≠ 0 then [.error] else []) ++
  (if revents &&& (POLLIN ||| POLLPRI ||| POLLRDHUP) ≠ 0 then [.read] else []) ++
  (if revents &&& POLLOUT ≠ 0 then [.write] else [])

/-! ### The masks -/

theorem or_and_self (e k : Mask) : (e ||| k) &&& k = k := by
  ext i hi
  rw [BitVec.getElem_and, BitVec.getElem_or]
  cases k[i] <;> simp

theorem clear_and_self (e k : Mask) : (e &&& ~~~k) &&& k = 0 := by
  ext i hi
  simp

/-- Setting bits outside `w` does not show in `w`. -/
theorem or_and_of_disjoint (e k w : Mask) (h : k &&& w = 0) : (e ||| k) &&& w = e &&& w := by
  have : (e ||| k) &&& w = (e &&& w) ||| (k &&& w) := by
    ext i hi
    simp [Bool.and_or_distrib_right]
  rw [this, h]
  exact BitVec.or_zero

/-- Nor does clearing them. -/
theorem clear_and_of_disjoint (e k w : Mask) (h : ~~~k &&& w = w) : (e &&& ~~~k) &&& w = e &&& w := by
  rw [BitVec.and_assoc, h]

variable (ch : Channel)

@[simp] theorem isWriting_enableWrite : ch.enableWrite.isWriting = true := by
  simp only [isWriting, enableWrite, setEvents, or_and_self]
  decide

@[simp] theorem isWriting_disableWrite : ch.disableWrite.isWriting = false := by
  simp only [isWriting, disableWrite, setEvents, clear_and_self]
  decide

@[simp] theorem isWriting_disableAll : ch.disableAll.isWriting = false := by
  simp [isWriting, disableAll, setEvents, kNoneEvent]

@[simp] theorem isWriting_enableRead : ch.enableRead.isWriting = ch.isWriting := by
  simp only [isWriting, enableRead, setEvents]
  rw [or_and_of_disjoint _ _ _ (by decide)]

@[simp] theorem isWriting_tie : ch.tie.isWriting = ch.isWriting := rfl

@[simp] theorem isReading_enableRead : ch.enableRead.isReading = true := by
  simp only [isReading, enableRead, setEvents, or_and_self]
  decide

@[simp] theorem isReading_enableWrite : ch.enableWrite.isReading = ch.isReading := by
  simp only [isReading, enableWrite, setEvents]
  rw [or_and_of_disjoint _ _ _ (by decide)]

@[simp] theorem isReading_disableWrite : ch.disableWrite.isReading = ch.isReading := by
  simp only [isReading, disableWrite, setEvents]
  rw [clear_and_of_disjoint _ _ _ (by decide)]

@[simp] theorem isReading_disableAll : ch.disableAll.isReading = false := by
  simp [isReading, disableAll, setEvents, kNoneEvent]

@[simp] theorem isNoneEvent_disableAll : ch.disableAll.isNoneEvent = true := by
  simp [isNoneEvent, disableAll, setEvents]

/-- A channel with no events has none of interest. -/
theorem isWriting_of_isNoneEvent (h : ch.isNoneEvent = true) : ch.isWriting = false := by
  have he : ch.events = kNoneEvent := by simpa [isNoneEvent] using h
  simp [isWriting, he, kNoneEvent]

/-- A channel that reads has events. -/
theorem isNoneEvent_of_isReading (h : ch.isReading = true) : ch.isNoneEvent = false := by
  cases hn : ch.isNoneEvent
  · rfl
  · have he : ch.events = kNoneEvent := by simpa [isNoneEvent] using hn
    simp [isReading, he, kNoneEvent] at h

end Channel
end Chtho.Net
