import Chtho.Lib.Indexed
import Chtho.Lib.Machine
import Chtho.Lib.OrdMap
import Chtho.Net.Poller
import Mathlib.Algebra.Group.Int.Defs

/-! `Poll`: the poller over `poll(2)`.

A channel's `idx_` is the position of its `pollfd` in a vector. An entry without
events carries the descriptor negated, which `poll(2)` ignores, and an entry is taken
out by moving the last one into its place. `Inv` says that the vector is indexed by
the registered channels. It is kept by every operation but two: the first one of a
channel that enables nothing enters a descriptor with no events that is not negated,
and an operation on a removed channel finds the stale index. -/
namespace Chtho.Net
open Lib

structure PollFd where
  fd : Int
  events : BitVec 16
  revents : BitVec 16
deriving DecidableEq, Repr

structure Poll (ι : Type) where
  pollfds : List PollFd
  /-- The channel of each descriptor. -/
  channels : OrdMap Int ι

namespace Poll
variable {ι : Type}

def updateChannel [DecidableEq ι] (s : Host ι (Poll ι)) (c : ι) : Option (Host ι (Poll ι)) :=
  let ch := s.channels c
  let p := s.poller
  if ch.idx < 0 then do
    assert (p.channels.find? ch.fd = none)
    let pollfds := p.pollfds ++ [⟨ch.fd, ch.events.setWidth 16, 0⟩]
    some {s.setIdx c (pollfds.length - 1) with poller := ⟨pollfds, p.channels.insert ch.fd c⟩}
  else do
    assert (p.channels.find? ch.fd ≠ none)
    assert (p.channels.find? ch.fd = some c)
    assert (0 ≤ ch.idx ∧ ch.idx < p.pollfds.length)
    let fd := if ch.isNoneEvent then -(ch.fd : Int) - 1 else ch.fd
    some {s with poller := {p with pollfds := p.pollfds.set ch.idx.toNat ⟨fd, ch.events.setWidth 16, 0⟩}}

def removeChannel [DecidableEq ι] (s : Host ι (Poll ι)) (c : ι) : Option (Host ι (Poll ι)) := do
  let ch := s.channels c
  let p := s.poller
  assert (p.channels.find? ch.fd ≠ none)
  assert (p.channels.find? ch.fd = some c)
  assert (ch.isNoneEvent = true)
  assert (0 ≤ ch.idx ∧ ch.idx < p.pollfds.length)
  let pfd ← p.pollfds[ch.idx.toNat]?
  assert (pfd.fd = -(ch.fd : Int) - 1 ∧ pfd.events.signExtend 32 = ch.events)
  assert (p.channels.count ch.fd = 1)
  let channels := p.channels.erase ch.fd
  if ch.idx.toNat = p.pollfds.length - 1 then
    some {s with poller := ⟨p.pollfds.dropLast, channels⟩}
  else do
    let back ← p.pollfds.getLast?
    let channelEnd := if back.fd < 0 then -back.fd - 1 else back.fd
    let d ← channels.find? channelEnd
    some {s.setIdx d ch.idx with poller := ⟨swapRemove p.pollfds ch.idx.toNat, channels⟩}

def poller [DecidableEq ι] : Poller ι (Poll ι) := ⟨updateChannel, removeChannel⟩

def create (fds : ι → Nat) : Host ι (Poll ι) := ⟨fun c => .create (fds c), ⟨[], .empty⟩⟩

/-- What `poll(2)` looks at: it ignores negative descriptors. -/
def Monitors (p : Poll ι) (n : Int) (events : Mask) : Prop :=
  0 ≤ n ∧ ∃ pfd ∈ p.pollfds, pfd.fd = n ∧ pfd.events.signExtend 32 = events

/-! ### Entries -/

/-- The entry of a channel with these events. -/
structure Holds (fds : ι → Nat) (r : Poller.Registry ι) (c : ι) (pfd : PollFd) : Prop where
  fd : pfd.fd = if (r c).events = 0 then -(fds c : Int) - 1 else fds c
  events : pfd.events = (r c).events.setWidth 16

variable {fds : ι → Nat} {r : Poller.Registry ι}

/-- An entry's descriptor, negated or not, names its channel. -/
theorem Holds.unique (hfd : fds.Injective) (c d : ι) (pfd : PollFd) (hc : Holds fds r c pfd) (hd : Holds fds r d pfd) :
    c = d := by
  apply hfd
  have heq := hc.fd.symm.trans hd.fd
  split at heq <;> split at heq <;> omega

/-- A `short` holds the masks of channels. -/
theorem signExtend_setWidth {events : Mask} (h : events ∈ Change.masks) :
    (events.setWidth 16).signExtend 32 = events := by
  simp only [Change.masks, List.mem_cons, List.not_mem_nil, or_false] at h
  rcases h with rfl | rfl | rfl | rfl <;> decide +kernel

/-! ### The invariant -/

structure Inv (fds : ι → Nat) (r : Poller.Registry ι) (s : Host ι (Poll ι)) : Prop where
  describes : r.Describes fds s.channels
  fresh : ∀ c, (r c).status = .fresh → (s.channels c).idx < 0
  removed : ∀ c, (r c).status = .removed → 0 ≤ (s.channels c).idx
  channels : ∀ n c, s.poller.channels.find? n = some c ↔ (r c).status = .registered ∧ (fds c : Int) = n
  indexed : Indexed (fun c => (r c).status = .registered) (fun c => (s.channels c).idx) (Holds fds r) s.poller.pollfds

theorem inv_create : Inv fds .create (create fds) where
  describes := Poller.Registry.describes_create fds
  fresh := fun _ _ => by simp [create, Channel.create]
  removed := fun _ h => by simp [Poller.Registry.create] at h
  channels := fun n c => by simp [Poller.Registry.create, create]
  indexed := .empty (by simp [Poller.Registry.create])

variable {s : Host ι (Poll ι)}

/-- The vector monitors what the registry asks for. -/
theorem Inv.monitors (h : Inv fds r s) (n : Int) (events : Mask) :
    s.poller.Monitors n events ↔ r.Monitors fds n events := by
  constructor
  · rintro ⟨hn, pfd, hmem, rfl, rfl⟩
    obtain ⟨i, hi⟩ := List.getElem?_of_mem hmem
    obtain ⟨c, hc, hci⟩ := h.indexed.owner i (List.getElem?_eq_some_iff.mp hi).1
    obtain ⟨j, x, hj, hx, hholds⟩ := h.indexed.at_pos c hc
    obtain rfl : i = j := Int.ofNat.inj (hci.symm.trans hj)
    obtain rfl : pfd = x := Option.some.inj (hi.symm.trans hx)
    have hevents : pfd.events.signExtend 32 = (r c).events := by
      rw [hholds.events, signExtend_setWidth (h.describes.masks c)]
    have hne : (r c).events ≠ 0 := by
      intro hzero
      rw [hholds.fd, if_pos hzero] at hn
      omega
    refine ⟨c, ?_, hc, hevents.symm, by rw [hevents]; exact hne⟩
    rw [hholds.fd, if_neg hne]
  · rintro ⟨c, rfl, hc, rfl, hne⟩
    obtain ⟨i, pfd, -, hi, hholds⟩ := h.indexed.at_pos c hc
    refine ⟨Int.natCast_nonneg _, pfd, List.mem_of_getElem? hi, ?_, ?_⟩
    · rw [hholds.fd, if_neg hne]
    · rw [hholds.events, signExtend_setWidth (h.describes.masks c)]

/-- A channel that is not registered is not in the map. -/
theorem Inv.find?_eq_none (h : Inv fds r s) (hfds : fds.Injective) {c : ι} (hnot : (r c).status ≠ .registered) :
    s.poller.channels.find? (fds c) = none := by
  cases hfind : s.poller.channels.find? (fds c) with
  | none => rfl
  | some d =>
    obtain ⟨hd, heq⟩ := (h.channels _ _).mp hfind
    obtain rfl : d = c := hfds (Int.ofNat.inj heq)
    exact absurd hd hnot

/-! ### Operations -/

variable [DecidableEq ι]

theorem updateChannel_new {c : ι} (hidx : (s.channels c).idx < 0)
    (hnone : s.poller.channels.find? (s.channels c).fd = none) :
    ∃ s', updateChannel s c = some s' ∧
      (∀ d, s'.channels d =
        if d = c then {s.channels c with idx := s.poller.pollfds.length} else s.channels d) ∧
      s'.poller = ⟨s.poller.pollfds ++ [⟨(s.channels c).fd, (s.channels c).events.setWidth 16, 0⟩],
        s.poller.channels.insert (s.channels c).fd c⟩ := by
  simp only [updateChannel, if_pos hidx, assert_bind, if_pos hnone]
  refine ⟨_, rfl, fun d => ?_, rfl⟩
  rw [← Host.setIdx_channels]
  simp

theorem updateChannel_existing {c : ι} {i : Nat} (hidx : (s.channels c).idx = Int.ofNat i)
    (hlt : i < s.poller.pollfds.length) (hfind : s.poller.channels.find? (s.channels c).fd = some c) :
    updateChannel s c = some {s with
      poller.pollfds := s.poller.pollfds.set i
        ⟨if (s.channels c).events = 0 then -((s.channels c).fd : Int) - 1 else (s.channels c).fd,
          (s.channels c).events.setWidth 16, 0⟩} := by
  simp [updateChannel, hfind, hidx, hlt, Channel.isNoneEvent, Channel.kNoneEvent]

theorem removeChannel_eq {c : ι} {i : Nat} {pfd : PollFd} (hidx : (s.channels c).idx = Int.ofNat i)
    (hpfd : s.poller.pollfds[i]? = some pfd) (hfind : s.poller.channels.find? (s.channels c).fd = some c)
    (hnone : (s.channels c).isNoneEvent = true) (hfd : pfd.fd = -((s.channels c).fd : Int) - 1)
    (hevents : pfd.events.signExtend 32 = (s.channels c).events) :
    removeChannel s c =
      if i = s.poller.pollfds.length - 1 then
        some {s with poller := ⟨s.poller.pollfds.dropLast, s.poller.channels.erase (s.channels c).fd⟩}
      else (do
        let back ← s.poller.pollfds.getLast?
        let channelEnd := if back.fd < 0 then -back.fd - 1 else back.fd
        let d ← (s.poller.channels.erase (s.channels c).fd).find? channelEnd
        some {s.setIdx d (Int.ofNat i) with
          poller := ⟨swapRemove s.poller.pollfds i, s.poller.channels.erase (s.channels c).fd⟩}) := by
  obtain ⟨hlt, rfl⟩ := List.getElem?_eq_some_iff.mp hpfd
  simp [removeChannel, hfind, hidx, hlt, hnone, hfd, hevents, OrdMap.count]

/-- The first operation of a channel, if it enables something, enters it. -/
theorem Inv.enter (h : Inv fds r s) (hfds : fds.Injective) {c : ι} (hfresh : (r c).status = .fresh) {k : Change}
    (hne : k.mask (r c).events ≠ 0) :
    ∃ s', poller.step s (.change k c) = some s' ∧ Inv fds (r.step (.change k c)) s' := by
  have hidx : ((s.set c (k.apply (s.channels c))).channels c).idx < 0 := by
    rw [Host.set_self, Change.apply_idx]
    exact h.fresh c hfresh
  have hnone := h.find?_eq_none hfds (c := c) (by simp [hfresh])
  obtain ⟨s', hs, hch, hp⟩ := updateChannel_new hidx (by simpa [h.describes.fd c] using hnone)
  rw [Host.set_self, Host.set_poller, Change.apply_fd, Change.apply_events, h.describes.fd, h.describes.events] at hp
  have hch' : ∀ d, s'.channels d =
      if d = c then {k.apply (s.channels c) with idx := s.poller.pollfds.length} else s.channels d := by
    intro d
    rw [hch, Host.set_self, Host.set_channels, Host.set_poller]
    split <;> rfl
  refine ⟨s', hs, ?_⟩
  constructor
  case describes =>
    refine h.describes.change k c (fun d => ?_) (fun d => ?_)
    all_goals
      rw [hch']
      split
      case isTrue hd => simp [hd]
      case isFalse hd => simp
  case fresh =>
    intro d
    rw [hch', r.step_change]
    split
    · exact fun hst => by cases hst
    · exact h.fresh d
  case removed =>
    intro d
    rw [hch', r.step_change]
    split
    · exact fun hst => by cases hst
    · exact h.removed d
  case channels =>
    intro n d
    rw [hp, OrdMap.find?_insert, r.step_change]
    by_cases hd : d = c
    · rw [if_pos hd, hd]
      split
      case isTrue hn => simp [hn]
      case isFalse hn =>
        have hnot : s.poller.channels.find? n ≠ some c := fun hfind => hn ((h.channels n c).mp hfind).2
        simp [hn, hnot]
    · rw [if_neg hd, ← h.channels]
      split
      case isTrue hn =>
        rw [← hn, hnone]
        simp [Ne.symm hd]
      case isFalse => rfl
  case indexed =>
    rw [hp]
    refine h.indexed.push (d := c) (by simp [hfresh]) (fun d => ?_) ?_ ?_ (fun d hd => ?_) (fun d pfd hd hholds => ?_)
    · rw [r.step_change]
      by_cases hd : d = c <;> simp [hd]
    · rw [hch', if_pos rfl]
      rfl
    · constructor
      · rw [r.step_change, if_pos rfl, if_neg hne]
      · rw [r.step_change, if_pos rfl]
    · have hdc : d ≠ c := fun heq => by rw [heq, hfresh] at hd; cases hd
      rw [hch', if_neg hdc]
    · have hdc : d ≠ c := fun heq => by rw [heq, hfresh] at hd; cases hd
      constructor
      · rw [r.step_change, if_neg hdc, hholds.fd]
      · rw [r.step_change, if_neg hdc, hholds.events]

/-- Any later one sets the channel's entry. -/
theorem Inv.update (h : Inv fds r s) (hfds : fds.Injective) {c : ι} (hc : (r c).status = .registered) (k : Change) :
    ∃ s', poller.step s (.change k c) = some s' ∧ Inv fds (r.step (.change k c)) s' := by
  obtain ⟨i, pfd, hi, hpfd, -⟩ := h.indexed.at_pos c hc
  have hlt := (List.getElem?_eq_some_iff.mp hpfd).1
  have hfind := (h.channels (fds c) c).mpr ⟨hc, rfl⟩
  have hstep := updateChannel_existing (s := s.set c (k.apply (s.channels c))) (c := c) (i := i) (by simpa using hi)
    (by simpa using hlt) (by simpa [h.describes.fd c] using hfind)
  refine ⟨_, hstep, ?_⟩
  rw [Host.set_self, Host.set_poller, Change.apply_fd, Change.apply_events, h.describes.fd, h.describes.events]
  have hch : ∀ d, (s.set c (k.apply (s.channels c))).channels d =
      if d = c then k.apply (s.channels c) else s.channels d := fun d => Host.set_channels _ _ _ _
  have hidx : ∀ d, ((s.set c (k.apply (s.channels c))).channels d).idx = (s.channels d).idx := by
    intro d
    rw [hch]
    split
    case isTrue hd => simp [hd]
    case isFalse => rfl
  constructor
  case describes =>
    refine h.describes.change k c (fun d => ?_) (fun d => ?_)
    all_goals
      rw [hch]
      split
      case isTrue hd => simp [hd]
      case isFalse => rfl
  case fresh =>
    intro d
    rw [hidx, r.step_change]
    split
    · exact fun hst => by cases hst
    · exact h.fresh d
  case removed =>
    intro d
    rw [hidx, r.step_change]
    split
    · exact fun hst => by cases hst
    · exact h.removed d
  case channels =>
    intro n d
    rw [h.channels, r.step_change]
    split
    case isTrue hd => simp [hd, hc]
    case isFalse => rfl
  case indexed =>
    refine h.indexed.set (Holds.unique hfds) hc hi ?_ (fun d => ?_) hidx (fun d pfd hd hholds => ?_)
    · constructor
      · rw [r.step_change, if_pos rfl]
      · rw [r.step_change, if_pos rfl]
    · rw [r.step_change]
      by_cases hd : d = c <;> simp [hd, hc]
    · constructor
      · rw [r.step_change, if_neg hd, hholds.fd]
      · rw [r.step_change, if_neg hd, hholds.events]

/-- `removeChannel` moves the last entry, and tells its channel. -/
theorem Inv.removeChannel_spec (h : Inv fds r s) (hfds : fds.Injective) {c : ι} {i : Nat} {pfd : PollFd}
    (hc : (r c).status = .registered) (hevents : (r c).events = 0) (hi : (s.channels c).idx = Int.ofNat i)
    (hpfd : s.poller.pollfds[i]? = some pfd) (hholds : Holds fds r c pfd) :
    ∃ s', removeChannel s c = some s' ∧
      s'.poller = ⟨swapRemove s.poller.pollfds i, s.poller.channels.erase (fds c)⟩ ∧
      ∀ d, s'.channels d = {s.channels d with
        idx := if (r d).status = .registered ∧ (s.channels d).idx = Int.ofNat (s.poller.pollfds.length - 1)
          then Int.ofNat i else (s.channels d).idx} := by
  have hlt := (List.getElem?_eq_some_iff.mp hpfd).1
  have heq := removeChannel_eq hi hpfd (by rw [h.describes.fd, h.channels]; exact ⟨hc, rfl⟩)
    (h.describes.isNoneEvent hevents)
    (by rw [hholds.fd, if_pos hevents, h.describes.fd])
    (by rw [hholds.events, signExtend_setWidth (h.describes.masks c), h.describes.events])
  rw [h.describes.fd] at heq
  by_cases hlast : i = s.poller.pollfds.length - 1
  · rw [if_pos hlast, ← swapRemove_last hlt hlast] at heq
    refine ⟨_, heq, rfl, fun d => ?_⟩
    split
    case isTrue hd => rw [hlast, ← hd.2]
    case isFalse => rfl
  · rw [if_neg hlast] at heq
    obtain ⟨d, hd, hdlast⟩ := h.indexed.owner (s.poller.pollfds.length - 1) (by omega)
    obtain ⟨j, back, hj, hback, hdback⟩ := h.indexed.at_pos d hd
    obtain rfl : s.poller.pollfds.length - 1 = j := Int.ofNat.inj (hdlast.symm.trans hj)
    have hne : d ≠ c := by
      rintro rfl
      exact hlast (Int.ofNat.inj (hi.symm.trans hdlast))
    -- negated or not, the last entry names its channel
    have hend : (if back.fd < 0 then -back.fd - 1 else back.fd) = fds d := by
      rw [hdback.fd]
      by_cases hzero : (r d).events = 0
      · rw [if_pos hzero]
        omega
      · rw [if_neg hzero]
        omega
    have hfind : (s.poller.channels.erase (fds c)).find? (fds d) = some d := by
      rw [OrdMap.find?_erase, if_neg (fun hcd => hne (hfds (Int.ofNat.inj hcd.symm))), h.channels]
      exact ⟨hd, rfl⟩
    rw [List.getLast?_eq_getElem?, hback] at heq
    simp only [Option.bind_eq_bind, Option.bind_some, hend, hfind] at heq
    refine ⟨_, heq, rfl, fun e => ?_⟩
    show (s.setIdx d (Int.ofNat i)).channels e = _
    rw [Host.setIdx_channels]
    by_cases he : e = d
    · rw [if_pos he, he, if_pos ⟨hd, hdlast⟩]
    · rw [if_neg he, if_neg]
      rintro ⟨hmember, helast⟩
      exact he (h.indexed.pos_inj (Holds.unique hfds) hmember hd (helast.trans hdlast.symm))

/-- `addedToLoop_` means nothing to the poller. -/
theorem Inv.cleared (h : Inv fds r s) (c : ι) : Inv fds r (s.set c {s.channels c with addedToLoop := false}) := by
  have hch : ∀ d, (s.set c {s.channels c with addedToLoop := false}).channels d =
      {s.channels d with addedToLoop := if d = c then false else (s.channels d).addedToLoop} := by
    intro d
    rw [Host.set_channels]
    split
    case isTrue hd => rw [hd]
    case isFalse => rfl
  have hidx : ∀ d, ((s.set c {s.channels c with addedToLoop := false}).channels d).idx = (s.channels d).idx :=
    fun d => by rw [hch]
  constructor
  case describes =>
    exact ⟨fun d => by rw [hch, ← h.describes.fd], fun d => by rw [hch, ← h.describes.events], h.describes.masks⟩
  case fresh => exact fun d hd => hidx d ▸ h.fresh d hd
  case removed => exact fun d hd => hidx d ▸ h.removed d hd
  case channels => exact h.channels
  case indexed =>
    simp only [hidx]
    exact h.indexed

/-- A channel that is registered and has no events can be removed. -/
theorem Inv.leave (h : Inv fds r s) (hfds : fds.Injective) {c : ι} (hc : (r c).status = .registered)
    (hevents : (r c).events = 0) : ∃ s', poller.step s (.remove c) = some s' ∧ Inv fds (r.step (.remove c)) s' := by
  rw [h.describes.step_remove_eq poller hevents]
  have h := h.cleared c
  generalize s.set c {s.channels c with addedToLoop := false} = t at h
  obtain ⟨i, pfd, hi, hpfd, hholds⟩ := h.indexed.at_pos c hc
  obtain ⟨s', hs, hp, hch⟩ := h.removeChannel_spec hfds hc hevents hi hpfd hholds
  refine ⟨s', hs, ?_⟩
  -- only the owner of the last entry, a registered channel, has a new index
  have hkept : ∀ d, (r d).status ≠ .registered → (s'.channels d).idx = (t.channels d).idx := by
    intro d hd
    rw [hch]
    exact if_neg (fun hmoved => hd hmoved.1)
  constructor
  case describes => exact h.describes.remove c (fun d => by rw [hch]) (fun d => by rw [hch])
  case fresh =>
    intro d
    rw [r.step_remove]
    split
    · exact fun hst => by cases hst
    · intro hst
      rw [hkept d (by simp [hst])]
      exact h.fresh d hst
  case removed =>
    intro d
    rw [r.step_remove]
    split
    case isTrue hd =>
      intro _
      rw [hch, hd, hi]
      split <;> exact Int.natCast_nonneg i
    case isFalse =>
      intro hst
      rw [hkept d (by simp [hst])]
      exact h.removed d hst
  case channels =>
    intro n d
    rw [hp, OrdMap.find?_erase, r.step_remove]
    by_cases hd : d = c
    · rw [if_pos hd, hd]
      split
      case isTrue => simp
      case isFalse hn =>
        have hnot : t.poller.channels.find? n ≠ some c := fun hfind => hn ((h.channels n c).mp hfind).2
        simp [hnot]
    · rw [if_neg hd, ← h.channels]
      split
      case isTrue hn =>
        have hnot : t.poller.channels.find? n ≠ some d := by
          intro hfind
          exact hd (hfds (Int.ofNat.inj (((h.channels n d).mp hfind).2.trans hn.symm)))
        simp [hnot]
      case isFalse => rfl
  case indexed =>
    have hmember : ∀ d, (r.step (.remove c) d).status = .registered ↔ (r d).status = .registered ∧ d ≠ c := by
      intro d
      rw [r.step_remove]
      by_cases hd : d = c <;> simp [hd]
    rw [hp]
    refine h.indexed.remove (Holds.unique hfds) hc hi hmember (fun d hd hlast => ?_) (fun d hd hlast => ?_)
      (fun d pfd hd hholds => ?_)
    · rw [hch, if_pos ⟨((hmember d).mp hd).1, hlast⟩]
    · rw [hch]
      exact if_neg (fun hmoved => hlast hmoved.2)
    · have hdc := ((hmember d).mp hd).2
      constructor
      · rw [r.step_remove, if_neg hdc, hholds.fd]
      · rw [r.step_remove, if_neg hdc, hholds.events]

/-! ### Sequences of operations -/

/-- A channel's first operation enables something, and a removed one is not used again. -/
def Usable (r : Poller.Registry ι) : Poller.Op ι → Prop
  | .change k c => (r c).status ≠ .removed ∧ ((r c).status = .fresh → k.mask (r c).events ≠ 0)
  | .remove _ => True

instance (r : Poller.Registry ι) : (op : Poller.Op ι) → Decidable (Usable r op)
  | .change k c => inferInstanceAs (Decidable ((r c).status ≠ .removed ∧
      ((r c).status = .fresh → k.mask (r c).events ≠ 0)))
  | .remove _ => inferInstanceAs (Decidable True)

theorem Inv.step (h : Inv fds r s) (hfds : fds.Injective) {op : Poller.Op ι} (hlegal : r.Legal op)
    (huse : Usable r op) : ∃ s', poller.step s op = some s' ∧ Inv fds (r.step op) s' := by
  cases op with
  | change k c =>
    obtain ⟨hnot, hfirst⟩ := huse
    cases hst : (r c).status with
    | fresh => exact h.enter hfds hst (hfirst hst)
    | registered => exact h.update hfds hst k
    | removed => exact absurd hst hnot
  | remove c => exact h.leave hfds hlegal.1 hlegal.2

/-- The stale index of a removed channel fails an assertion. -/
theorem Inv.removed_aborts (h : Inv fds r s) (hfds : fds.Injective) {c : ι} (hc : (r c).status = .removed)
    (k : Change) : poller.step s (.change k c) = none := by
  have hidx : ¬ ((s.set c (k.apply (s.channels c))).channels c).idx < 0 := by
    rw [Host.set_self, Change.apply_idx]
    exact Int.not_lt.mpr (h.removed c hc)
  have hnone : (s.set c (k.apply (s.channels c))).poller.channels.find?
      ((s.set c (k.apply (s.channels c))).channels c).fd = none := by
    rw [Host.set_self, Host.set_poller, Change.apply_fd, h.describes.fd]
    exact h.find?_eq_none hfds (by simp [hc])
  simp only [Poller.step, poller, updateChannel, if_neg hidx, hnone]
  simp

end Poll
end Chtho.Net
