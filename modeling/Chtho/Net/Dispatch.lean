import Chtho.Net.Poller.Batch
import Chtho.Net.Poller.Pointers

/-! How `EventLoop::loop` hands events to channels.

`epoll_wait` answers with pointers, `activeChannels_` keeps them, and the loop calls
`handleEvent` on one after the other. Meanwhile callbacks may change, remove and destroy
channels, make new ones where old ones were, and other threads may destroy what they own.
What keeps the pointers good is not in one place: `~Channel` asserts that the channel was
removed and that none of its callbacks is running, and `removeChannel` asserts that a
channel still to be handled is not removed.

The poller is `EPoll`, with its kernel table and its list of events. A channel is known by
its address (`ι`), which may be used again, and descriptors may be shared and closed: no
operation is assumed to be a sensible one. -/
namespace Chtho.Net
open Lib

namespace Dispatch

/-- Where the loop's thread is. -/
inductive Pc (ι : Type) where
  /-- Not in the loop over `activeChannels_`: before `loop()`, or in a functor. -/
  | elsewhere
  /-- Between two calls of `handleEvent`, with the channels still to come. -/
  | dispatching (rest : List ι)
  /-- In `handleEventWithGuard` of a channel, with the callbacks still to come. -/
  | handling (this : ι) (todo : List Handler) (rest : List ι)
  /-- In one of its callbacks. -/
  | callback (this : ι) (todo : List Handler) (rest : List ι)
deriving DecidableEq, Repr

namespace Pc
variable {ι : Type}

/-- The channels whose turn is still to come. -/
def rest : Pc ι → List ι
  | elsewhere => []
  | dispatching rest | handling _ _ rest | callback _ _ rest => rest

/-- The channel whose member function is running. -/
def this : Pc ι → Option ι
  | elsewhere | dispatching _ => none
  | handling this _ _ | callback this _ _ => some this

/-- The callbacks that it has still to make. -/
def owed : Pc ι → List (ι × Handler)
  | elsewhere | dispatching _ => []
  | handling this todo _ | callback this todo _ => todo.map (this, ·)

/-- Code of the user runs in the loop's thread. -/
def userCode : Pc ι → Bool
  | elsewhere | callback _ _ _ => true
  | dispatching _ | handling _ _ _ => false

end Pc

/-- What `epoll_wait` returns: an error, or ready descriptors with their events. -/
inductive Answer where
  | error (errno : Nat)
  | ready (ds : List (Int × Mask))
deriving DecidableEq, Repr

inductive Action (ι : Type) where
  | construct (c : ι) (fd : Nat)
  | tie (c : ι)
  | change (k : Change) (c : ι)
  | remove (c : ι)
  /-- `~Channel`, in the loop's thread or in another. -/
  | destroy (c : ι) (inLoopThread : Bool)
  /-- A descriptor is closed, and the kernel forgets it. -/
  | close (n : Int)
  | poll (answer : Answer)
  /-- `handleEvent` of the next channel; `locked` is whether what it may be tied to is still there. -/
  | handleEvent (locked : Bool)
  | call
  | returned
  | handled
  | finish
deriving DecidableEq, Repr

/-- What is recorded of a run: what the kernel reports, the calls of `handleEvent` with the
events that the channel has for them, and the callbacks. -/
inductive Event (ι : Type) where
  | reported (c : ι) (revents : Mask)
  | handleEvent (c : ι) (revents : Mask) (guarded : Bool)
  | called (c : ι) (h : Handler)
deriving DecidableEq, Repr

end Dispatch

structure Dispatch (ι : Type) where
  /-- The poller, and the memory of the channels. -/
  host : Host ι (EPoll ι)
  eventList : EPoll.EventList ι
  /-- There is a channel at the address. -/
  alive : ι → Bool
  /-- `Channel::handlingEvents_` -/
  channelHandling : ι → Bool
  activeChannels : List ι
  curActiveChannel : Option ι
  handlingEvents : Bool
  pc : Dispatch.Pc ι

namespace Dispatch
variable {ι : Type} [DecidableEq ι]

def create : Dispatch ι :=
  ⟨EPoll.create fun _ => 0, .create, fun _ => false, fun _ => false, [], none, false, .elsewhere⟩

/-- The descriptors in the answer become what the kernel keeps for them. -/
def wait (table : OrdMap Int (Mask × ι)) : Answer → EPoll.Wait ι
  | .error errno => .error errno
  | .ready ds => .events (ds.filterMap fun d => (table.find? d.1).map fun e => ⟨d.2, some e.2⟩)

/-- The kernel reports as many descriptors as there is room for, none twice, and none it does
not have. -/
def Answers (s : Dispatch ι) : Answer → Prop
  | .error _ => True
  | .ready ds => ds.length ≤ s.eventList.size ∧ (ds.map Prod.fst).Nodup ∧
      ∀ d ∈ ds, (s.host.poller.table.find? d.1).isSome = true

/-- The kernel's side of an answer. -/
def reports (s : Dispatch ι) : Answer → List (ι × Mask)
  | .error _ => []
  | .ready ds => ds.filterMap fun d => (s.host.poller.table.find? d.1).map fun e => (e.2, d.2)

def step (s : Dispatch ι) : Action ι → Option (Dispatch ι × List (Event ι))
  | .construct c fd =>
    some ({s with
      host := s.host.set c (.create fd)
      alive := Function.update s.alive c true
      channelHandling := Function.update s.channelHandling c false}, [])
  | .tie c => some ({s with host := s.host.set c (s.host.channels c).tie}, [])
  | .change k c => do
    let host ← EPoll.poller.step s.host (.change k c)
    some ({s with host := host}, [])
  | .remove c => do
    let ch ← (s.host.channels c).remove
    assert (s.handlingEvents = true → s.curActiveChannel = some c ∨ c ∉ s.activeChannels)
    let host ← EPoll.removeChannel (s.host.set c ch) c
    some ({s with host := host}, [])
  | .destroy c inLoopThread => do
    assert (s.channelHandling c = false)
    assert ((s.host.channels c).addedToLoop = false)
    assert (inLoopThread = true → EPoll.hasChannel s.host c = false)
    some ({s with alive := Function.update s.alive c false}, [])
  | .close n => some ({s with host := {s.host with poller.table := s.host.poller.table.erase n}}, [])
  | .poll answer => do
    let (p, activeChannels) ← EPoll.Polling.poll ⟨s.host.channels, s.eventList⟩ (wait s.host.poller.table answer) []
    some ({s with
      host := {s.host with channels := p.channels}
      eventList := p.eventList
      activeChannels := activeChannels
      handlingEvents := true
      pc := .dispatching activeChannels}, (s.reports answer).map fun r => .reported r.1 r.2)
  | .handleEvent locked =>
    match s.pc with
    | .dispatching (c :: rest) =>
      let ch := s.host.channels c
      if ch.tied = false ∨ locked = true then
        some ({s with
          curActiveChannel := some c
          channelHandling := Function.update s.channelHandling c true
          pc := .handling c (Channel.handlers ch.revents) rest}, [.handleEvent c ch.revents true])
      else some ({s with curActiveChannel := some c, pc := .dispatching rest}, [.handleEvent c ch.revents false])
    | _ => none
  | .call =>
    match s.pc with
    | .handling this (h :: todo) rest => some ({s with pc := .callback this todo rest}, [.called this h])
    | _ => none
  | .returned =>
    match s.pc with
    | .callback this todo rest => some ({s with pc := .handling this todo rest}, [])
    | _ => none
  | .handled =>
    match s.pc with
    | .handling this [] rest =>
      some ({s with channelHandling := Function.update s.channelHandling this false, pc := .dispatching rest}, [])
    | _ => none
  | .finish =>
    match s.pc with
    | .dispatching [] => some ({s with curActiveChannel := none, handlingEvents := false, pc := .elsewhere}, [])
    | _ => none

/-- What can happen next. Calls are made on channels that exist, and those that assert it in
the loop's thread. -/
def Enabled (s : Dispatch ι) : Action ι → Prop
  | .construct c _ => s.alive c = false
  | .tie c => s.alive c = true
  | .change _ c | .remove c => s.alive c = true ∧ s.pc.userCode = true
  | .destroy c inLoopThread => s.alive c = true ∧ (inLoopThread = true → s.pc.userCode = true)
  | .close _ => True
  | .poll answer => s.pc = .elsewhere ∧ s.Answers answer
  | .handleEvent _ => ∃ c rest, s.pc = .dispatching (c :: rest)
  | .call => ∃ this h todo rest, s.pc = .handling this (h :: todo) rest
  | .returned => ∃ this todo rest, s.pc = .callback this todo rest
  | .handled => ∃ this rest, s.pc = .handling this [] rest
  | .finish => s.pc = .dispatching []

def machine : Machine (Dispatch ι) (Action ι) (Event ι) := ⟨Enabled, step⟩

instance (pc : Pc ι) : Decidable (∃ c rest, pc = .dispatching (c :: rest)) :=
  match pc with
  | .dispatching (c :: rest) => isTrue ⟨c, rest, rfl⟩
  | .dispatching [] | .elsewhere | .handling .. | .callback .. => isFalse (by simp)

instance (pc : Pc ι) : Decidable (∃ this h todo rest, pc = .handling this (h :: todo) rest) :=
  match pc with
  | .handling this (h :: todo) rest => isTrue ⟨this, h, todo, rest, rfl⟩
  | .handling _ [] _ | .elsewhere | .dispatching _ | .callback .. => isFalse (by simp)

instance (pc : Pc ι) : Decidable (∃ this todo rest, pc = .callback this todo rest) :=
  match pc with
  | .callback this todo rest => isTrue ⟨this, todo, rest, rfl⟩
  | .handling .. | .elsewhere | .dispatching _ => isFalse (by simp)

instance (pc : Pc ι) : Decidable (∃ this rest, pc = .handling this [] rest) :=
  match pc with
  | .handling this [] rest => isTrue ⟨this, rest, rfl⟩
  | .handling _ (_ :: _) _ | .elsewhere | .dispatching _ | .callback .. => isFalse (by simp)

instance (s : Dispatch ι) : (answer : Answer) → Decidable (s.Answers answer)
  | .error _ => isTrue trivial
  | .ready ds => inferInstanceAs (Decidable (ds.length ≤ s.eventList.size ∧ (ds.map Prod.fst).Nodup ∧
      ∀ d ∈ ds, (s.host.poller.table.find? d.1).isSome = true))

instance (s : Dispatch ι) (a : Action ι) : Decidable (machine.enabled s a) :=
  match a with
  | .construct c _ => inferInstanceAs (Decidable (s.alive c = false))
  | .tie c => inferInstanceAs (Decidable (s.alive c = true))
  | .change _ c | .remove c => inferInstanceAs (Decidable (s.alive c = true ∧ s.pc.userCode = true))
  | .destroy c inLoopThread =>
    inferInstanceAs (Decidable (s.alive c = true ∧ (inLoopThread = true → s.pc.userCode = true)))
  | .close _ => isTrue trivial
  | .poll answer => inferInstanceAs (Decidable (s.pc = .elsewhere ∧ s.Answers answer))
  | .handleEvent _ => inferInstanceAs (Decidable (∃ c rest, s.pc = .dispatching (c :: rest)))
  | .call => inferInstanceAs (Decidable (∃ this h todo rest, s.pc = .handling this (h :: todo) rest))
  | .returned => inferInstanceAs (Decidable (∃ this todo rest, s.pc = .callback this todo rest))
  | .handled => inferInstanceAs (Decidable (∃ this rest, s.pc = .handling this [] rest))
  | .finish => inferInstanceAs (Decidable (s.pc = .dispatching []))

/-! ### What `poll` tells the channels -/

variable {s : Dispatch ι}

/-- The channels after `set_revents` of each that was reported. -/
def told (channels : ι → Channel) (rs : List (ι × Mask)) : ι → Channel :=
  rs.foldl (fun channels r => Function.update channels r.1 {channels r.1 with revents := r.2}) channels

theorem told_eq (channels : ι → Channel) (rs : List (ι × Mask)) (d : ι) :
    ∃ revents, told channels rs d = {channels d with revents := revents} := by
  induction rs generalizing channels with
  | nil => exact ⟨_, rfl⟩
  | cons r rs ih =>
    obtain ⟨revents, hd⟩ := ih (Function.update channels r.1 {channels r.1 with revents := r.2})
    refine ⟨revents, hd.trans ?_⟩
    rw [Function.update_apply]
    split
    case isTrue heq => rw [heq]
    case isFalse => rfl

theorem told_of_notMem (channels : ι → Channel) {rs : List (ι × Mask)} {c : ι} (h : c ∉ rs.map Prod.fst) :
    told channels rs c = channels c := by
  induction rs generalizing channels with
  | nil => rfl
  | cons r rs ih =>
    obtain ⟨hc, hrest⟩ := not_or.mp (List.mem_cons.not.mp h)
    exact (ih _ hrest).trans (Function.update_of_ne hc _ _)

/-- A channel that is reported once is told what was reported. -/
theorem told_map (channels : ι → Channel) {rs : List (ι × Mask)} (h : (rs.map Prod.fst).Nodup) :
    (rs.map Prod.fst).map (fun c => (c, (told channels rs c).revents)) = rs := by
  induction rs generalizing channels with
  | nil => rfl
  | cons r rs ih =>
    obtain ⟨hr, hrs⟩ := List.nodup_cons.mp h
    have hhead : (told channels (r :: rs) r.1).revents = r.2 := by
      have hkept := told_of_notMem (Function.update channels r.1 {channels r.1 with revents := r.2}) hr
      exact (congrArg Channel.revents hkept).trans (by rw [Function.update_self])
    rw [List.map_cons, List.map_cons, hhead]
    exact congrArg (r :: ·) (ih _ hrs)

theorem fillFrom_told (rs : List (ι × Mask)) (more : List (EPoll.Event ι)) (channels : ι → Channel) (active : List ι) :
    EPoll.Polling.fillFrom (rs.map (fun r => ⟨r.2, some r.1⟩) ++ more) rs.length channels active =
      some (told channels rs, active ++ rs.map Prod.fst) := by
  induction rs generalizing channels active with
  | nil => simp [EPoll.Polling.fillFrom, told]
  | cons r rs ih => simp [EPoll.Polling.fillFrom, ih, told]

omit [DecidableEq ι] in
/-- The kernel's events lead to the channels they were reported for. -/
theorem wait_eq (table : OrdMap Int (Mask × ι)) (ds : List (Int × Mask)) :
    (ds.filterMap fun d => (table.find? d.1).map fun e => (⟨d.2, some e.2⟩ : EPoll.Event ι)) =
      (ds.filterMap fun d => (table.find? d.1).map fun e => (e.2, d.2)).map fun r => ⟨r.2, some r.1⟩ := by
  rw [List.map_filterMap]
  refine congrArg (List.filterMap · ds) (funext fun d => ?_)
  cases table.find? d.1 <;> rfl

/-- `poll` does not fail, and makes active what was reported. -/
theorem poll_eq {answer : Answer} (h : s.Answers answer) :
    ∃ eventList, EPoll.Polling.poll ⟨s.host.channels, s.eventList⟩ (wait s.host.poller.table answer) [] =
      some (⟨told s.host.channels (s.reports answer), eventList⟩, (s.reports answer).map Prod.fst) := by
  cases answer with
  | error errno => exact ⟨s.eventList, rfl⟩
  | ready ds =>
    simp only [wait, wait_eq, reports]
    generalize hrs : (ds.filterMap fun d => (s.host.poller.table.find? d.1).map fun e => (e.2, d.2)) = rs
    have hfits : 0 + (rs.map fun r => (⟨r.2, some r.1⟩ : EPoll.Event ι)).length ≤ s.eventList.events.length := by
      have hfew : rs.length ≤ ds.length := hrs ▸ List.length_filterMap_le _ _
      have hroom : ds.length ≤ s.eventList.events.length := h.1
      rw [List.length_map]
      omega
    have hstored : splice s.eventList.events 0 (rs.map fun r => (⟨r.2, some r.1⟩ : EPoll.Event ι)) =
        (rs.map fun r => ⟨r.2, some r.1⟩) ++ s.eventList.events.drop rs.length := by
      simp [splice]
    simp only [EPoll.Polling.poll, copyIn_eq _ _ _ hfits, hstored, List.length_map, Option.bind_eq_bind, Option.bind_some,
      EPoll.Polling.fillActiveChannels, fillFrom_told, List.nil_append]
    split
    · split
      · exact ⟨_, rfl⟩
      · exact ⟨_, rfl⟩
    case isFalse hnone =>
      obtain rfl : rs = [] := List.length_eq_zero_iff.mp (by omega)
      exact ⟨_, rfl⟩

omit [DecidableEq ι] in
/-- No channel is reported twice. -/
theorem reports_nodup (hpointers : EPoll.Pointers s.host) {answer : Answer} (h : s.Answers answer) :
    ((s.reports answer).map Prod.fst).Nodup := by
  cases answer with
  | error errno => exact .nil
  | ready ds =>
    refine List.pairwise_map.mpr ((List.pairwise_map.mp h.2.1).filterMap _ fun d d' hne r hr r' hr' heq => hne ?_)
    obtain ⟨e, he, rfl⟩ := Option.map_eq_some_iff.mp hr
    obtain ⟨e', he', rfl⟩ := Option.map_eq_some_iff.mp hr'
    exact (hpointers.table he).1.symm.trans ((congrArg (fun c => ((s.host.channels c).fd : Int)) heq).trans
      (hpointers.table he').1)

omit [DecidableEq ι] in
/-- What is reported was added to the loop. -/
theorem reports_added (hpointers : EPoll.Pointers s.host) {answer : Answer} {c : ι}
    (hc : c ∈ (s.reports answer).map Prod.fst) : (s.host.channels c).addedToLoop = true := by
  cases answer with
  | error errno => cases hc
  | ready ds =>
    obtain ⟨r, hr, rfl⟩ := List.mem_map.mp hc
    obtain ⟨d, -, hd⟩ := List.mem_filterMap.mp hr
    obtain ⟨e, he, rfl⟩ := Option.map_eq_some_iff.mp hd
    exact (hpointers.table he).2.1

end Dispatch
end Chtho.Net
