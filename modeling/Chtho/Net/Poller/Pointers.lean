import Chtho.Net.Poller.EPoll

/-! The pointers `EPoll` has to channels, in `channels_` and in the kernel's table.

The indices of `EPoll` are exact where each descriptor belongs to one channel (`EPoll.Inv`).
Which pointers there are does not depend on that: whatever is done with channels, descriptors
shared or closed, each pointer is to a channel that was added to the loop and is not yet
removed (`Pointers`). So each operation is taken apart here with no assumption on the state,
into what it leaves under the descriptor of its channel. -/
namespace Chtho.Net.EPoll
open Lib

variable {ι : Type} {s s' : Host ι (EPoll ι)} {c : ι}

/-- Each pointer of the poller and of the kernel is to a channel that was added to the loop, and is
kept for the channel's descriptor; what the kernel has, the channel's index knows of. -/
structure Pointers (s : Host ι (EPoll ι)) : Prop where
  map : ∀ {n c}, s.poller.channels.find? n = some c → ((s.channels c).fd : Int) = n ∧ (s.channels c).addedToLoop = true
  table : ∀ {n e c}, s.poller.table.find? n = some (e, c) →
    ((s.channels c).fd : Int) = n ∧ (s.channels c).addedToLoop = true ∧ (s.channels c).idx = kAdded

theorem epollCtl_find {op : CtlOp} {fd : Int} {event : Mask × ι} {table table' : OrdMap Int (Mask × ι)}
    (h : epollCtl op fd event table = some table') (n : Int) :
    table'.find? n = if fd = n then if op = .DEL then none else some event else table.find? n := by
  cases op <;> cases hfind : table.find? fd <;>
    simp only [epollCtl, hfind, Option.some.injEq, reduceCtorEq] at h
  case ADD.none | MOD.some =>
    rw [← h, OrdMap.find?_insert]
    rfl
  case DEL.some =>
    rw [← h, OrdMap.find?_erase]
    rfl

/-- What `epoll_ctl` leaves for the descriptor of the channel, also where it fails. -/
theorem update_find {op : CtlOp} (h : update s op c = some s') :
    s'.channels = s.channels ∧ s'.poller.channels = s.poller.channels ∧
      ∀ n, s'.poller.table.find? n = if ((s.channels c).fd : Int) = n then
        if op = .DEL then none else some ((s.channels c).events, c) else s.poller.table.find? n := by
  unfold update at h
  split at h
  case h_1 table htable =>
    obtain rfl := Option.some.inj h
    exact ⟨rfl, rfl, epollCtl_find htable⟩
  case h_2 hnone =>
    obtain ⟨rfl, hs⟩ := Option.ite_none_right_eq_some.mp h
    obtain rfl := Option.some.inj hs
    refine ⟨rfl, rfl, fun n => ?_⟩
    have hfind : s.poller.table.find? (s.channels c).fd = none := by
      cases hfind : s.poller.table.find? (s.channels c).fd with
      | none => rfl
      | some e => simp [epollCtl, hfind] at hnone
    rw [if_pos rfl]
    exact (s.poller.table.ite_find? hfind n).symm

/-- Changes of channels that keep what a pointer says of them. -/
theorem Pointers.of_channels (h : Pointers s) {channels : ι → Channel}
    (hch : ∀ d, (s.channels d).addedToLoop = true → (channels d).fd = (s.channels d).fd ∧
      (channels d).addedToLoop = true ∧ (channels d).idx = (s.channels d).idx) :
    Pointers {s with channels := channels} where
  map := fun hfind => by
    obtain ⟨hfd, hadded, -⟩ := hch _ (h.map hfind).2
    exact ⟨hfd ▸ (h.map hfind).1, hadded⟩
  table := fun hfind => by
    obtain ⟨hn, hadd, hidx⟩ := h.table hfind
    obtain ⟨hfd, hadded, hidx'⟩ := hch _ hadd
    exact ⟨hfd ▸ hn, hadded, hidx'.trans hidx⟩

/-- The kernel may forget. -/
theorem Pointers.close (h : Pointers s) (n : Int) : Pointers {s with poller.table := s.poller.table.erase n} where
  map := h.map
  table := fun {m e c} hfind => by
    rw [OrdMap.find?_erase] at hfind
    exact h.table (Option.ite_none_left_eq_some.mp hfind).2

variable [DecidableEq ι]

/-- `Poller::hasChannel` -/
def hasChannel (s : Host ι (EPoll ι)) (c : ι) : Bool :=
  s.poller.channels.find? (s.channels c).fd = some c

/-- An operation on the channel at `c` leaves the others alone. -/
structure Reindexed (s : Host ι (EPoll ι)) (c : ι) (s' : Host ι (EPoll ι)) : Prop where
  self : s'.channels c = {s.channels c with idx := (s'.channels c).idx}
  others : ∀ d, d ≠ c → s'.channels d = s.channels d

theorem reindexed_setIdx (s : Host ι (EPoll ι)) (c : ι) (idx : Int) : Reindexed s c (s.setIdx c idx) where
  self := by rw [Host.setIdx_channels, if_pos rfl]
  others := fun d hd => by rw [Host.setIdx_channels, if_neg hd]

/-- The three ends of `updateChannel`. -/
theorem updateChannel_cases (h : updateChannel s c = some s') :
    Reindexed s c s' ∧
      (∀ n, s'.poller.channels.find? n = s.poller.channels.find? n ∨
        ((s.channels c).fd : Int) = n ∧ s'.poller.channels.find? n = some c) ∧
      ∀ n, s'.poller.table.find? n = if ((s.channels c).fd : Int) = n then
        if (s'.channels c).idx = kAdded then some ((s.channels c).events, c) else none else s.poller.table.find? n := by
  simp only [updateChannel] at h
  split at h
  · obtain ⟨hch, hmap, htable⟩ := update_find h
    simp only [hch, hmap, htable]
    refine ⟨?_, fun n => ?_, fun n => ?_⟩
    · have hindexed := reindexed_setIdx s c kAdded
      exact ⟨by rw [hch]; exact hindexed.self, fun d hd => by rw [hch]; exact hindexed.others d hd⟩
    · split
      · rw [OrdMap.find?_insert]
        split
        case isTrue hn => exact .inr ⟨hn, rfl⟩
        case isFalse => exact .inl rfl
      · exact .inl rfl
    · simp [Host.setIdx]
  · simp only [assert_bind_eq_some_iff] at h
    obtain ⟨-, -, hadded, h⟩ := h
    split at h
    · obtain ⟨t, ht, hs⟩ := Option.bind_eq_some_iff.mp h
      obtain rfl := Option.some.inj hs
      obtain ⟨hch, hmap, htable⟩ := update_find ht
      have hindexed := reindexed_setIdx t c kDeleted
      refine ⟨⟨?_, fun d hd => ?_⟩, fun n => .inl ?_, fun n => ?_⟩
      · rw [hindexed.self, hch]
      · rw [hindexed.others d hd, hch]
      · exact congrArg (OrdMap.find? · n) hmap
      · refine (htable n).trans ?_
        simp [Host.setIdx, kDeleted, kAdded]
    · obtain ⟨hch, hmap, htable⟩ := update_find h
      refine ⟨⟨by rw [hch], fun d _ => by rw [hch]⟩, fun n => .inl (by rw [hmap]), fun n => ?_⟩
      rw [htable, hch]
      simp [hadded]

/-- And of `removeChannel`: nothing is left under the descriptor in the map, nor in the table if the index knew of it. -/
theorem removeChannel_cases (h : removeChannel s c = some s') :
    Reindexed s c s' ∧
      (∀ n, s'.poller.channels.find? n = if ((s.channels c).fd : Int) = n then none else s.poller.channels.find? n) ∧
      ∀ n, s'.poller.table.find? n =
        if ((s.channels c).fd : Int) = n ∧ (s.channels c).idx = kAdded then none else s.poller.table.find? n := by
  simp only [removeChannel, assert_bind_eq_some_iff] at h
  obtain ⟨-, h⟩ := h
  simp only [Option.bind_eq_bind, Option.bind_some] at h
  have hmapped : ∀ n, (s.poller.channels.erase (s.channels c).fd).find? n =
      if ((s.channels c).fd : Int) = n then none else s.poller.channels.find? n := OrdMap.find?_erase _ _
  split at h
  case isTrue hidx =>
    obtain ⟨t, ht, hs⟩ := Option.bind_eq_some_iff.mp h
    obtain rfl := Option.some.inj hs
    obtain ⟨hch, hmap, htable⟩ := update_find ht
    have hindexed := reindexed_setIdx t c kNew
    refine ⟨⟨?_, fun d hd => ?_⟩, fun n => ?_, fun n => ?_⟩
    · rw [hindexed.self, hch]
    · rw [hindexed.others d hd, hch]
    · exact (congrArg (OrdMap.find? · n) hmap).trans (hmapped n)
    · refine (htable n).trans ?_
      simp [hidx]
  case isFalse hidx =>
    obtain rfl := Option.some.inj h
    have hindexed := reindexed_setIdx {s with poller.channels := s.poller.channels.erase (s.channels c).fd} c kNew
    refine ⟨⟨hindexed.self, hindexed.others⟩, hmapped, fun n => ?_⟩
    rw [if_neg fun hboth => hidx hboth.2]
    rfl

/-- A change registers the channel, whatever else uses its descriptor. -/
theorem Pointers.change (h : Pointers s) {k : Change} (hs : poller.step s (.change k c) = some s') :
    Pointers s' ∧ (∀ d, d ≠ c → s'.channels d = s.channels d) ∧
      ∃ idx, s'.channels c = {k.apply (s.channels c) with idx := idx} := by
  obtain ⟨hch, hmap, htable⟩ := updateChannel_cases (s := s.set c (k.apply (s.channels c))) hs
  have hself : s'.channels c = {k.apply (s.channels c) with idx := (s'.channels c).idx} := by
    simpa using hch.self
  have hothers : ∀ d, d ≠ c → s'.channels d = s.channels d := by
    intro d hd
    rw [hch.others d hd, Host.set_channels, if_neg hd]
  have hfd : (s'.channels c).fd = (s.channels c).fd := by rw [hself]; exact k.apply_fd _
  have hadded : (s'.channels c).addedToLoop = true := by rw [hself]; cases k <;> rfl
  simp only [Host.set_self, Host.set_poller, Change.apply_fd] at hmap htable
  refine ⟨⟨fun {n d} hfind => ?_, fun {n e d} hfind => ?_⟩, hothers, _, hself⟩
  · rcases hmap n with hold | ⟨hn, hnew⟩
    · by_cases hd : d = c
      · rw [hd, hfd]
        exact ⟨(h.map (hd ▸ hold.symm.trans hfind)).1, hadded⟩
      · rw [hothers d hd]
        exact h.map (hold.symm.trans hfind)
    · obtain rfl : c = d := Option.some.inj (hnew.symm.trans hfind)
      exact ⟨hfd ▸ hn, hadded⟩
  · rw [htable] at hfind
    split at hfind
    case isTrue hn =>
      obtain ⟨hidx, hsome⟩ := Option.ite_none_right_eq_some.mp hfind
      obtain rfl : c = d := (Prod.mk.inj (Option.some.inj hsome)).2
      exact ⟨hfd ▸ hn, hadded, hidx⟩
    case isFalse hn =>
      have hd : d ≠ c := fun hd => hn (hd ▸ (h.table hfind).1)
      rw [hothers d hd]
      exact h.table hfind

/-- A removal leaves no pointer to the channel. -/
theorem Pointers.remove (h : Pointers s) (hs : removeChannel (s.set c {s.channels c with addedToLoop := false}) c = some s') :
    Pointers s' ∧ (∀ d, d ≠ c → s'.channels d = s.channels d) ∧
      ∃ idx, s'.channels c = {s.channels c with addedToLoop := false, idx := idx} := by
  obtain ⟨hch, hmap, htable⟩ := removeChannel_cases hs
  have hself : s'.channels c = {s.channels c with addedToLoop := false, idx := (s'.channels c).idx} := by
    simpa using hch.self
  have hothers : ∀ d, d ≠ c → s'.channels d = s.channels d := by
    intro d hd
    rw [hch.others d hd, Host.set_channels, if_neg hd]
  simp only [Host.set_self, Host.set_poller] at hmap htable
  refine ⟨⟨fun {n d} hfind => ?_, fun {n e d} hfind => ?_⟩, hothers, _, hself⟩
  · rw [hmap] at hfind
    obtain ⟨hn, hfind⟩ := Option.ite_none_left_eq_some.mp hfind
    have hd : d ≠ c := fun hd => hn (hd ▸ (h.map hfind).1)
    rw [hothers d hd]
    exact h.map hfind
  · rw [htable] at hfind
    obtain ⟨hn, hfind⟩ := Option.ite_none_left_eq_some.mp hfind
    have hd : d ≠ c := fun hd => hn (hd ▸ ⟨(h.table hfind).1, (h.table hfind).2.2⟩)
    rw [hothers d hd]
    exact h.table hfind

end Chtho.Net.EPoll
