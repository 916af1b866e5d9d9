import Chtho.Net.Poller
import Chtho.Lib.Copy
import Chtho.Lib.Machine
import Mathlib.Data.Fintype.Card

/-! `EPoll::poll`: how many channels one call reports.

The kernel stores the events at the front of `events_`, as many as the vector has elements. A
vector that was full is to be larger at the next call; but `reserve` only makes room for more
elements, and `size()`, which is what `epoll_wait` is told, stays what the constructor made it.
So no call reports more than `kInitEventListSz` channels, however many are ready and however
often it is called. -/
namespace Chtho.Net.EPoll
open Lib

/-- `epoll_event` -/
structure Event (ι : Type) where
  events : Mask
  /-- `data.ptr` -/
  channel : Option ι
deriving DecidableEq

/-- `std::vector`: what it holds, and how many elements it has room for. -/
structure EventList (ι : Type) where
  events : List (Event ι)
  capacity : Nat

def kInitEventListSz : Nat := 16

namespace EventList
variable {ι : Type}

def create : EventList ι := ⟨List.replicate kInitEventListSz ⟨0, none⟩, kInitEventListSz⟩

def size (l : EventList ι) : Nat := l.events.length

def reserve (l : EventList ι) (n : Nat) : EventList ι := {l with capacity := max l.capacity n}

end EventList

/-- What `epoll_wait` returns. -/
inductive Wait (ι : Type) where
  | error (errno : Nat)
  | events (es : List (Event ι))

/-- The channels and the list of events. -/
structure Polling (ι : Type) where
  channels : ι → Channel
  eventList : EventList ι

namespace Polling
variable {ι : Type}

def create (channels : ι → Channel) : Polling ι := ⟨channels, .create⟩

/-- The argument of `epoll_wait`. -/
def maxevents (s : Polling ι) : Nat := s.eventList.size

variable [DecidableEq ι]

/-- The loop of `fillActiveChannels`, from an element of the list on. -/
def fillFrom : List (Event ι) → Nat → (ι → Channel) → List ι → Option ((ι → Channel) × List ι)
  | _, 0, channels, activeChannels => some (channels, activeChannels)
  | [], _ + 1, _, _ => none
  | event :: rest, numEvents + 1, channels, activeChannels => do
    let channel ← event.channel
    fillFrom rest numEvents (Function.update channels channel {channels channel with revents := event.events})
      (activeChannels ++ [channel])

def fillActiveChannels (s : Polling ι) (numEvents : Nat) (activeChannels : List ι) : Option (Polling ι × List ι) := do
  let (channels, activeChannels) ← fillFrom s.eventList.events numEvents s.channels activeChannels
  some ({s with channels := channels}, activeChannels)

/-- `poll` with the answer of `epoll_wait`: the kernel stores the events, and not outside the
list. -/
def poll (s : Polling ι) (wait : Wait ι) (activeChannels : List ι) : Option (Polling ι × List ι) :=
  match wait with
  -- logged, or an interrupted call
  | .error _ => some (s, activeChannels)
  | .events es => do
    let stored ← copyIn s.eventList.events 0 es
    let s : Polling ι := {s with eventList.events := stored}
    let numEvents := es.length
    if 0 < numEvents then do
      let (s, activeChannels) ← s.fillActiveChannels numEvents activeChannels
      if numEvents = s.eventList.size then
        some ({s with eventList := s.eventList.reserve (s.eventList.size * 2)}, activeChannels)
      else some (s, activeChannels)
    else some (s, activeChannels)

end Polling

/-! ### Channels that stay ready -/

variable {ι : Type}

/-- What `epoll_wait` may store while these channels are ready: as many of them as it was
asked for, none twice, with any events and in any order. -/
structure Answers (ready : Finset ι) (maxevents : Nat) (es : List (Event ι)) : Prop where
  length : es.length = min ready.card maxevents
  ready : ∃ cs : List ι, es.map Event.channel = cs.map some ∧ cs.Nodup ∧ ∀ c ∈ cs, c ∈ ready

/-- One call after the other, each with an empty `activeChannels`; seen of it is what the call
reports. -/
def polls [DecidableEq ι] (ready : Finset ι) : Machine (Polling ι) (List (Event ι)) (List ι) where
  enabled := fun s es => Answers ready s.maxevents es
  step := fun s es => (s.poll (.events es) []).map fun r => (r.1, [r.2])

/-- All the ready channels are reported, and each once. -/
def ReportsAll (ready : Finset ι) (batch : List ι) : Prop := batch.Nodup ∧ ∀ c, c ∈ batch ↔ c ∈ ready

/-- After some number of calls, one of them has reported all. -/
def EventuallyAll [DecidableEq ι] (ready : Finset ι) : Prop :=
  ∃ k, ∀ channels answers batches s, (polls ready).Run (.create channels) answers batches s → k ≤ answers.length →
    ∃ batch ∈ batches, ReportsAll ready batch

/-- The kernel never stores outside the list, which has as many elements as it is told. -/
def StaysInside [DecidableEq ι] (ready : Finset ι) : Prop :=
  ∀ channels answers batches s, (polls ready).Run (.create channels) answers batches s →
    s.maxevents ≤ s.eventList.events.length ∧ ∀ es, Answers ready s.maxevents es → ((polls ready).step s es).isSome

/-- There is always an answer. -/
theorem exists_answers (ready : Finset ι) (maxevents : Nat) : ∃ es, Answers ready maxevents es := by
  refine ⟨(ready.toList.take maxevents).map fun c => ⟨Channel.kReadEvent, some c⟩, ?_,
    ready.toList.take maxevents, ?_, ?_, ?_⟩
  · rw [List.length_map, List.length_take, Finset.length_toList, min_comm]
  · rw [List.map_map]
    rfl
  · exact ready.nodup_toList.sublist (List.take_sublist _ _)
  · exact fun c hc => Finset.mem_toList.mp (List.mem_of_mem_take hc)

section
variable [DecidableEq ι]

/-- Every event leads to its channel. -/
theorem fillFrom_spec {es : List (Event ι)} {cs : List ι} (hcs : es.map Event.channel = cs.map some)
    (rest : List (Event ι)) (channels : ι → Channel) (active : List ι) :
    ∃ channels', Polling.fillFrom (es ++ rest) es.length channels active = some (channels', active ++ cs) := by
  induction es generalizing cs channels active with
  | nil =>
    obtain rfl : cs = [] := by simpa using hcs.symm
    exact ⟨channels, by simp [Polling.fillFrom]⟩
  | cons e es ih =>
    cases cs with
    | nil => simp at hcs
    | cons c cs =>
      obtain ⟨hc, htail⟩ : e.channel = some c ∧ es.map Event.channel = cs.map some := by simpa using hcs
      obtain ⟨channels', hfill⟩ := ih htail (Function.update channels c {channels c with revents := e.events})
        (active ++ [c])
      exact ⟨channels', by simp [Polling.fillFrom, hc, hfill]⟩

/-- **One call.** It reports what the kernel stored, and the list is as long as before. -/
theorem poll_spec {ready : Finset ι} {s : Polling ι} {es : List (Event ι)} (h : Answers ready s.maxevents es) :
    ∃ s' batch, (polls ready).step s es = some (s', [batch]) ∧ s'.maxevents = s.maxevents ∧
      batch.length = min ready.card s.maxevents ∧ batch.Nodup ∧ ∀ c ∈ batch, c ∈ ready := by
  obtain ⟨cs, hcs, hnodup, hready⟩ := h.ready
  have hlength : cs.length = es.length := by simpa using (congrArg List.length hcs).symm
  have hfits : 0 + es.length ≤ s.eventList.events.length := by
    have hmin := h.length
    unfold Polling.maxevents EventList.size at hmin
    omega
  have hstored : (splice s.eventList.events 0 es).length = s.eventList.events.length := length_splice _ _ _ hfits
  obtain ⟨channels, hfill⟩ := fillFrom_spec hcs (s.eventList.events.drop (0 + es.length)) s.channels []
  have hsplice : splice s.eventList.events 0 es = es ++ s.eventList.events.drop (0 + es.length) := rfl
  rw [← hsplice] at hfill
  have hbatch := And.intro (hlength.trans h.length) (And.intro hnodup hready)
  by_cases hsome : 0 < es.length
  · by_cases hfull : s.eventList.events.length = es.length
    · refine ⟨⟨channels, ⟨splice s.eventList.events 0 es, max s.eventList.capacity (es.length * 2)⟩⟩, cs, ?_, hstored,
        hbatch⟩
      simp [polls, Polling.poll, Polling.fillActiveChannels, copyIn_eq _ _ _ hfits, hsome, hfill, EventList.size,
        EventList.reserve, hstored, hfull]
    · refine ⟨⟨channels, ⟨splice s.eventList.events 0 es, s.eventList.capacity⟩⟩, cs, ?_, hstored, hbatch⟩
      simp [polls, Polling.poll, Polling.fillActiveChannels, copyIn_eq _ _ _ hfits, hsome, hfill, EventList.size,
        hstored, Ne.symm hfull]
  · refine ⟨⟨s.channels, ⟨splice s.eventList.events 0 es, s.eventList.capacity⟩⟩, cs, ?_, hstored, hbatch⟩
    obtain rfl : cs = [] := List.length_eq_zero_iff.mp (by omega)
    simp [polls, Polling.poll, copyIn_eq _ _ _ hfits, hsome]

/-- The list stays as long as it was made, and no call reports more than fits in it. -/
theorem run_polls {ready : Finset ι} {channels : ι → Channel} {answers : List (List (Event ι))}
    {batches : List (List ι)} {s : Polling ι} (h : (polls ready).Run (.create channels) answers batches s) :
    s.maxevents = kInitEventListSz ∧ batches.length = answers.length ∧
      ∀ batch ∈ batches, batch.length = min ready.card kInitEventListSz ∧ batch.Nodup ∧ ∀ c ∈ batch, c ∈ ready := by
  refine h.invariant_actions (fun answers batches s => s.maxevents = kInitEventListSz ∧ batches.length = answers.length ∧
    ∀ batch ∈ batches, batch.length = min ready.card kInitEventListSz ∧ batch.Nodup ∧ ∀ c ∈ batch, c ∈ ready) ?_ ?_
  · exact ⟨by simp [Polling.maxevents, Polling.create, EventList.create, EventList.size], rfl, by simp⟩
  · rintro answers batches s es s' o ⟨hsize, hcount, hall⟩ henabled hstep
    obtain ⟨s₁, batch, hpoll, hsize₁, hbatch⟩ := poll_spec henabled
    obtain ⟨rfl, rfl⟩ := Prod.mk.inj (Option.some.inj (hstep.symm.trans hpoll))
    refine ⟨hsize₁.trans hsize, by simp [hcount], fun b hb => ?_⟩
    rcases List.mem_append.mp hb with hb | hb
    · exact hall b hb
    · obtain rfl := List.mem_singleton.mp hb
      rwa [hsize] at hbatch

/-- So the calls can go on. -/
theorem exists_run (ready : Finset ι) (channels : ι → Channel) (k : Nat) :
    ∃ answers batches s, (polls ready).Run (.create channels) answers batches s ∧ answers.length = k := by
  induction k with
  | zero => exact ⟨[], [], _, .nil, rfl⟩
  | succ k ih =>
    obtain ⟨answers, batches, s, hrun, hlength⟩ := ih
    obtain ⟨es, hes⟩ := exists_answers ready s.maxevents
    obtain ⟨s', batch, hpoll, _⟩ := poll_spec hes
    exact ⟨answers ++ [es], _, s', .snoc hrun hes hpoll, by simp [hlength]⟩

/-- What reports all has as many elements as there are channels. -/
theorem ReportsAll.length {ready : Finset ι} {batch : List ι} (h : ReportsAll ready batch) :
    batch.length = ready.card := by
  have hset : batch.toFinset = ready := by
    ext c
    rw [List.mem_toFinset, h.2]
  rw [← hset, List.toFinset_card_of_nodup h.1]

/-- As many different ready channels as there are, are all of them. -/
theorem ReportsAll.of_length {ready : Finset ι} {batch : List ι} (hnodup : batch.Nodup)
    (hready : ∀ c ∈ batch, c ∈ ready) (hlength : batch.length = ready.card) : ReportsAll ready batch := by
  have hset : batch.toFinset = ready := by
    refine Finset.eq_of_subset_of_card_le (fun c hc => hready c (List.mem_toFinset.mp hc)) ?_
    rw [List.toFinset_card_of_nodup hnodup, hlength]
  exact ⟨hnodup, fun c => by rw [← hset, List.mem_toFinset]⟩

theorem staysInside (ready : Finset ι) : StaysInside ready := by
  intro channels answers batches s hrun
  refine ⟨Nat.le_refl _, fun es hes => ?_⟩
  obtain ⟨s', batch, hpoll, _⟩ := poll_spec hes
  rw [hpoll]
  rfl

/-- **When a call reports every ready channel.** The kernel stores inside the list for any
number of ready channels; but one call comes to report all of them exactly if they fit in the
list as the constructor made it. -/
theorem eventuallyAll_iff (ready : Finset ι) :
    EventuallyAll ready ∧ StaysInside ready ↔ ready.card ≤ kInitEventListSz := by
  constructor
  · rintro ⟨⟨k, hk⟩, _⟩
    obtain ⟨answers, batches, s, hrun, hlength⟩ := exists_run ready (fun _ => .create 0) k
    obtain ⟨batch, hbatch, hall⟩ := hk _ _ _ _ hrun (Nat.le_of_eq hlength.symm)
    have hsize := ((run_polls hrun).2.2 batch hbatch).1
    rw [hall.length] at hsize
    omega
  · intro hcard
    refine ⟨⟨1, fun channels answers batches s hrun hone => ?_⟩, staysInside ready⟩
    obtain ⟨_, hcount, hall⟩ := run_polls hrun
    obtain ⟨batch, hbatch⟩ := List.exists_mem_of_length_pos (hcount.symm ▸ hone)
    obtain ⟨hlength, hnodup, hready⟩ := hall batch hbatch
    exact ⟨batch, hbatch, .of_length hnodup hready (hlength.trans (Nat.min_eq_left hcard))⟩

end

/-- Seventeen ready channels: every call reports sixteen, and there are any number of calls. -/
theorem seventeen_never_all :
    ¬ EventuallyAll (Finset.univ : Finset (Fin 17)) ∧
      ∀ k, ∃ answers batches s,
        (polls (Finset.univ : Finset (Fin 17))).Run (.create fun _ => .create 0) answers batches s ∧
        answers.length = k ∧ ∀ batch ∈ batches, batch.length = 16 := by
  have hruns : ∀ k, ∃ answers batches s,
      (polls (Finset.univ : Finset (Fin 17))).Run (.create fun _ => .create 0) answers batches s ∧
        answers.length = k ∧ ∀ batch ∈ batches, batch.length = 16 := by
    intro k
    obtain ⟨answers, batches, s, hrun, hlength⟩ := exists_run (Finset.univ : Finset (Fin 17)) (fun _ => .create 0) k
    refine ⟨answers, batches, s, hrun, hlength, fun batch hbatch => ?_⟩
    rw [((run_polls hrun).2.2 batch hbatch).1, Finset.card_univ, Fintype.card_fin]
    rfl
  refine ⟨fun ⟨k, hk⟩ => ?_, hruns⟩
  obtain ⟨answers, batches, s, hrun, hlength, hsixteen⟩ := hruns k
  obtain ⟨batch, hbatch, hall⟩ := hk _ _ _ _ hrun (Nat.le_of_eq hlength.symm)
  have hcard := hall.length
  rw [hsixteen batch hbatch, Finset.card_univ, Fintype.card_fin] at hcard
  omega

end Chtho.Net.EPoll
