import Chtho.Lib.Machine
import Chtho.Lib.OrdMap
import Chtho.Net.Poller
import Mathlib.Algebra.Group.Int.Defs

/-! `EPoll`: the poller over `epoll(7)`.

Here a channel's `idx_` is one of three states: the kernel has no entry for it and the
poller no record (`kNew`), it has one (`kAdded`), or the entry was deleted and the
record kept (`kDeleted`). The kernel's table follows `epoll_ctl(2)`, which refuses to
add what is there and to modify what is not; the program does not survive that. `Inv`
is kept by every legal operation, so none is refused. Whether the table is the one
wanted is another matter: a channel with no events may be in it (`Exact`). -/
namespace Chtho.Net
open Lib

structure EPoll (ι : Type) where
  channels : OrdMap Int ι
  /-- What the kernel has for each descriptor: the events, and the channel in `data.ptr`. -/
  table : OrdMap Int (Mask × ι)

namespace EPoll
variable {ι : Type}

def kNew : Int := -1
def kAdded : Int := 1
def kDeleted : Int := 2

inductive CtlOp where
  | ADD
  | MOD
  | DEL
deriving DecidableEq, Repr

/-- `epoll_ctl(2)`: the new table, if it does not fail. -/
def epollCtl (op : CtlOp) (fd : Int) (event : Mask × ι) (table : OrdMap Int (Mask × ι)) :
    Option (OrdMap Int (Mask × ι)) :=
  match op, table.find? fd with
  | .ADD, none | .MOD, some _ => some (table.insert fd event)
  | .DEL, some _ => some (table.erase fd)
  | .ADD, some _ | .MOD, none | .DEL, none => none

def update (s : Host ι (EPoll ι)) (op : CtlOp) (c : ι) : Option (Host ι (EPoll ι)) :=
  match epollCtl op (s.channels c).fd ((s.channels c).events, c) s.poller.table with
  | some table => some {s with poller.table := table}
  -- a failed DEL is logged, any other is fatal
  | none => if op = .DEL then some s else none

def updateChannel [DecidableEq ι] (s : Host ι (EPoll ι)) (c : ι) : Option (Host ι (EPoll ι)) :=
  let ch := s.channels c
  if ch.idx = kNew ∨ ch.idx = kDeleted then
    let channels := if ch.idx = kNew then s.poller.channels.insert ch.fd c else s.poller.channels
    update {s.setIdx c kAdded with poller := {s.poller with channels := channels}} .ADD c
  else do
    assert (s.poller.channels.find? ch.fd ≠ none)
    assert (s.poller.channels.find? ch.fd = some c)
    assert (ch.idx = kAdded)
    if ch.isNoneEvent then do
      let s ← update s .DEL c
      some (s.setIdx c kDeleted)
    else update s .MOD c

def removeChannel [DecidableEq ι] (s : Host ι (EPoll ι)) (c : ι) : Option (Host ι (EPoll ι)) := do
  let ch := s.channels c
  assert (s.poller.channels.count ch.fd = 1)
  let s := {s with poller.channels := s.poller.channels.erase ch.fd}
  let s ← if ch.idx = kAdded then update s .DEL c else some s
  some (s.setIdx c kNew)

def poller [DecidableEq ι] : Poller ι (EPoll ι) := ⟨updateChannel, removeChannel⟩

def create (fds : ι → Nat) : Host ι (EPoll ι) := ⟨fun c => .create (fds c), ⟨.empty, .empty⟩⟩

/-- What the kernel monitors. -/
def Monitors (p : EPoll ι) (n : Int) (events : Mask) : Prop := ∃ c, p.table.find? n = some (events, c)

/-! ### `epoll_ctl` where it succeeds -/

variable {s s' : Host ι (EPoll ι)} {c : ι}

theorem update_add (h : s.poller.table.find? (s.channels c).fd = none) :
    update s .ADD c = some {s with
      poller.table := s.poller.table.insert (s.channels c).fd ((s.channels c).events, c)} := by
  simp [update, epollCtl, h]

theorem update_mod {e : Mask × ι} (h : s.poller.table.find? (s.channels c).fd = some e) :
    update s .MOD c = some {s with
      poller.table := s.poller.table.insert (s.channels c).fd ((s.channels c).events, c)} := by
  simp [update, epollCtl, h]

theorem update_del {e : Mask × ι} (h : s.poller.table.find? (s.channels c).fd = some e) :
    update s .DEL c = some {s with poller.table := s.poller.table.erase (s.channels c).fd} := by
  simp [update, epollCtl, h]

/-! ### The invariant -/

/-- What an index says of its channel. -/
inductive Stage (e : Poller.Entry) : Int → Prop where
  | new : e.status ≠ .registered → Stage e kNew
  | added : e.status = .registered → Stage e kAdded
  | deleted : e.status = .registered → e.events = 0 → Stage e kDeleted

structure Inv (fds : ι → Nat) (r : Poller.Registry ι) (s : Host ι (EPoll ι)) : Prop where
  describes : r.Describes fds s.channels
  stage : ∀ c, Stage (r c) (s.channels c).idx
  channels : ∀ n c, s.poller.channels.find? n = some c ↔ (r c).status = .registered ∧ (fds c : Int) = n
  table : ∀ n events c, s.poller.table.find? n = some (events, c) ↔
    (s.channels c).idx = kAdded ∧ (fds c : Int) = n ∧ (r c).events = events

variable {fds : ι → Nat} {r r' : Poller.Registry ι}

theorem inv_create : Inv fds .create (create fds) where
  describes := Poller.Registry.describes_create fds
  stage := fun _ => .new (by simp [Poller.Registry.create])
  channels := fun n c => by simp [Poller.Registry.create, create]
  table := fun n events c => by simp [create, Channel.create, kAdded]

theorem Inv.registered_iff (h : Inv fds r s) (c : ι) :
    (r c).status = .registered ↔ (s.channels c).idx ≠ kNew := by
  have hstage := h.stage c
  generalize (s.channels c).idx = idx at hstage
  cases hstage with
  | new hnot => simp [hnot]
  | added hreg => simp [hreg, kAdded, kNew]
  | deleted hreg => simp [hreg, kDeleted, kNew]

/-- A registered channel with events is in the table. -/
theorem Inv.added (h : Inv fds r s) (hc : (r c).status = .registered) (hne : (r c).events ≠ 0) :
    (s.channels c).idx = kAdded := by
  have hstage := h.stage c
  generalize (s.channels c).idx = idx at hstage
  cases hstage with
  | new hnot => exact absurd hc hnot
  | added => rfl
  | deleted _ hzero => exact absurd hzero hne

theorem Inv.table_of_added (h : Inv fds r s) (hidx : (s.channels c).idx = kAdded) :
    s.poller.table.find? (fds c) = some ((r c).events, c) :=
  (h.table _ _ _).mpr ⟨hidx, rfl, rfl⟩

theorem Inv.table_eq_none (h : Inv fds r s) (hfds : fds.Injective) (hidx : (s.channels c).idx ≠ kAdded) :
    s.poller.table.find? (fds c) = none := by
  cases hfind : s.poller.table.find? (fds c) with
  | none => rfl
  | some e =>
    obtain ⟨hadded, heq, -⟩ := (h.table _ e.1 e.2).mp hfind
    rw [hfds (Int.ofNat.inj heq)] at hadded
    exact absurd hadded hidx

/-- An operation on one channel sets the two entries of its descriptor, and nothing else. -/
theorem Inv.stepped (h : Inv fds r s) (hfds : fds.Injective) (c : ι) (hdescribes : r'.Describes fds s'.channels)
    (hstage : Stage (r' c) (s'.channels c).idx) (hother : ∀ d, d ≠ c → r' d = r d)
    (hidx : ∀ d, d ≠ c → (s'.channels d).idx = (s.channels d).idx)
    (hchannels : ∀ n, s'.poller.channels.find? n =
      if (fds c : Int) = n then if (r' c).status = .registered then some c else none else s.poller.channels.find? n)
    (htable : ∀ n, s'.poller.table.find? n =
      if (fds c : Int) = n then if (s'.channels c).idx = kAdded then some ((r' c).events, c) else none
      else s.poller.table.find? n) : Inv fds r' s' := by
  have hfar : ∀ {d}, d ≠ c → ¬ (fds c : Int) = fds d := fun hd heq => hd (hfds (Int.ofNat.inj heq.symm))
  constructor
  case describes => exact hdescribes
  case stage =>
    intro d
    by_cases hd : d = c
    · rw [hd]
      exact hstage
    · rw [hother d hd, hidx d hd]
      exact h.stage d
  case channels =>
    intro n d
    rw [hchannels]
    by_cases hd : d = c
    · subst hd
      split
      case isTrue hn => simp [hn]
      case isFalse hn => simp [hn, h.channels]
    · rw [hother d hd, ← h.channels]
      split
      case isTrue hn =>
        have hnot : s.poller.channels.find? n ≠ some d := fun hfind => hfar hd (hn.trans ((h.channels _ _).mp hfind).2.symm)
        simp [hnot, Ne.symm hd]
      case isFalse => rfl
  case table =>
    intro n events d
    rw [htable]
    by_cases hd : d = c
    · subst hd
      split
      case isTrue hn => simp [hn]
      case isFalse hn => simp [hn, h.table]
    · rw [hother d hd, hidx d hd, ← h.table]
      split
      case isTrue hn =>
        have hnot : s.poller.table.find? n ≠ some (events, d) :=
          fun hfind => hfar hd (hn.trans ((h.table _ _ _).mp hfind).2.1.symm)
        simp [hnot, Ne.symm hd]
      case isFalse => rfl

/-! ### What the kernel monitors -/

/-- The kernel has no entry without events. -/
def Exact (r : Poller.Registry ι) (s : Host ι (EPoll ι)) : Prop :=
  ∀ c, (s.channels c).idx = kAdded → (r c).events ≠ 0

theorem Inv.monitors (h : Inv fds r s) (hexact : Exact r s) (n : Int) (events : Mask) :
    s.poller.Monitors n events ↔ r.Monitors fds n events := by
  constructor
  · rintro ⟨c, hfind⟩
    obtain ⟨hidx, hn, hevents⟩ := (h.table _ _ _).mp hfind
    refine ⟨c, hn, ?_, hevents, hevents ▸ hexact c hidx⟩
    rw [h.registered_iff, hidx]
    decide
  · rintro ⟨c, hn, hc, hevents, hne⟩
    exact ⟨c, (h.table _ _ _).mpr ⟨h.added hc (hevents ▸ hne), hn, hevents⟩⟩

/-! ### Operations -/

variable [DecidableEq ι]

/-- `updateChannel` left the channel at `c` with index `idx`, and all others alone. -/
def Indexes (s : Host ι (EPoll ι)) (c : ι) (idx : Int) (s' : Host ι (EPoll ι)) : Prop :=
  ∀ d, s'.channels d = if d = c then {s.channels c with idx := idx} else s.channels d

theorem updateChannel_add (hidx : (s.channels c).idx = kNew ∨ (s.channels c).idx = kDeleted)
    (hnone : s.poller.table.find? (s.channels c).fd = none) :
    ∃ s', updateChannel s c = some s' ∧ Indexes s c kAdded s' ∧
      s'.poller.channels =
        (if (s.channels c).idx = kNew then s.poller.channels.insert (s.channels c).fd c else s.poller.channels) ∧
      s'.poller.table = s.poller.table.insert (s.channels c).fd ((s.channels c).events, c) := by
  refine ⟨⟨(s.setIdx c kAdded).channels, ⟨
      if (s.channels c).idx = kNew then s.poller.channels.insert (s.channels c).fd c else s.poller.channels,
      s.poller.table.insert (s.channels c).fd ((s.channels c).events, c)⟩⟩,
    ?_, fun d => Host.setIdx_channels s c d kAdded, rfl, rfl⟩
  simp only [updateChannel, if_pos hidx]
  rw [update_add (by simpa [Host.setIdx] using hnone)]
  simp [Host.setIdx]

theorem updateChannel_mod {e : Mask × ι} (hidx : (s.channels c).idx = kAdded)
    (hfind : s.poller.channels.find? (s.channels c).fd = some c) (hne : (s.channels c).events ≠ 0)
    (htable : s.poller.table.find? (s.channels c).fd = some e) :
    ∃ s', updateChannel s c = some s' ∧ Indexes s c kAdded s' ∧ s'.poller.channels = s.poller.channels ∧
      s'.poller.table = s.poller.table.insert (s.channels c).fd ((s.channels c).events, c) := by
  have hsome : (s.channels c).isNoneEvent = false := by simpa [Channel.isNoneEvent, Channel.kNoneEvent] using hne
  refine ⟨⟨s.channels, ⟨s.poller.channels, s.poller.table.insert (s.channels c).fd ((s.channels c).events, c)⟩⟩,
    ?_, fun d => ?_, rfl, rfl⟩
  · simp [updateChannel, hidx, hfind, hsome, update_mod htable, kAdded, kNew, kDeleted]
  · split
    case isTrue hd => rw [hd, ← hidx]
    case isFalse => rfl

theorem updateChannel_del {e : Mask × ι} (hidx : (s.channels c).idx = kAdded)
    (hfind : s.poller.channels.find? (s.channels c).fd = some c) (hzero : (s.channels c).events = 0)
    (htable : s.poller.table.find? (s.channels c).fd = some e) :
    ∃ s', updateChannel s c = some s' ∧ Indexes s c kDeleted s' ∧ s'.poller.channels = s.poller.channels ∧
      s'.poller.table = s.poller.table.erase (s.channels c).fd := by
  have hnone : (s.channels c).isNoneEvent = true := by simp [Channel.isNoneEvent, Channel.kNoneEvent, hzero]
  refine ⟨⟨(s.setIdx c kDeleted).channels, ⟨s.poller.channels, s.poller.table.erase (s.channels c).fd⟩⟩,
    ?_, fun d => Host.setIdx_channels s c d kDeleted, rfl, rfl⟩
  simp [updateChannel, hidx, hfind, hnone, update_del htable, kAdded, kNew, kDeleted]
  rfl

/-- A change of a channel's mask, in the entries of its descriptor. -/
theorem Inv.changed (h : Inv fds r s) (hfds : fds.Injective) {k : Change} {idx : Int}
    (hidx : Indexes (s.set c (k.apply (s.channels c))) c idx s') (hstage : Stage (r.step (.change k c) c) idx)
    (hchannels : ∀ n, s'.poller.channels.find? n = if (fds c : Int) = n then some c else s.poller.channels.find? n)
    (htable : ∀ n, s'.poller.table.find? n =
      if (fds c : Int) = n then if idx = kAdded then some (k.mask (r c).events, c) else none
      else s.poller.table.find? n) : Inv fds (r.step (.change k c)) s' := by
  have hch : ∀ d, s'.channels d = if d = c then {k.apply (s.channels c) with idx := idx} else s.channels d := by
    intro d
    rw [hidx, Host.set_self, Host.set_channels]
    split <;> rfl
  refine h.stepped hfds c ?_ ?_ (fun d hd => ?_) (fun d hd => ?_) (fun n => ?_) (fun n => ?_)
  · refine h.describes.change k c (fun d => ?_) (fun d => ?_)
    all_goals
      rw [hch]
      split
      case isTrue hd => simp [hd]
      case isFalse => rfl
  · rw [hch, if_pos rfl]
    exact hstage
  · rw [r.step_change, if_neg hd]
  · rw [hch, if_neg hd]
  · rw [r.step_change, if_pos rfl, if_pos rfl]
    exact hchannels n
  · rw [hch, if_pos rfl, r.step_change, if_pos rfl]
    exact htable n

/-- A channel the kernel has no entry for gets one, with whatever events it has. -/
theorem Inv.add (h : Inv fds r s) (hfds : fds.Injective) (hidx : (s.channels c).idx ≠ kAdded) (k : Change) :
    ∃ s', poller.step s (.change k c) = some s' ∧ Inv fds (r.step (.change k c)) s' ∧
      Indexes (s.set c (k.apply (s.channels c))) c kAdded s' := by
  have hstage : (s.channels c).idx = kNew ∨ (s.channels c).idx = kDeleted := by
    have hstage := h.stage c
    generalize (s.channels c).idx = idx at hstage hidx
    cases hstage with
    | new => exact .inl rfl
    | added => exact absurd rfl hidx
    | deleted => exact .inr rfl
  obtain ⟨s', hs, hindexes, hchannels, htable⟩ := updateChannel_add (s := s.set c (k.apply (s.channels c))) (c := c)
    (by simpa using hstage) (by simpa [h.describes.fd] using h.table_eq_none hfds hidx)
  rw [Host.set_self, Host.set_poller, Change.apply_fd, h.describes.fd] at hchannels htable
  refine ⟨s', hs, h.changed hfds hindexes ?_ (fun n => ?_) (fun n => ?_), hindexes⟩
  · rw [r.step_change, if_pos rfl]
    exact .added rfl
  · rw [hchannels, Change.apply_idx]
    split
    case isTrue => rw [OrdMap.find?_insert]
    case isFalse hnew =>
      have hfind := (h.channels (fds c) c).mpr ⟨(h.registered_iff c).mpr hnew, rfl⟩
      exact (s.poller.channels.ite_find? hfind n).symm
  · rw [htable, OrdMap.find?_insert, Change.apply_events, h.describes.events, if_pos rfl]

/-- The entry of a channel follows its mask while there are events, and is deleted with the last. -/
theorem Inv.modify (h : Inv fds r s) (hfds : fds.Injective) (hidx : (s.channels c).idx = kAdded) (k : Change) :
    ∃ s', poller.step s (.change k c) = some s' ∧ Inv fds (r.step (.change k c)) s' ∧
      Indexes (s.set c (k.apply (s.channels c))) c (if k.mask (r c).events = 0 then kDeleted else kAdded) s' := by
  have hreg := (h.registered_iff c).mpr (by rw [hidx]; decide)
  have hidx' : ((s.set c (k.apply (s.channels c))).channels c).idx = kAdded := by simpa using hidx
  have hfind := (h.channels (fds c) c).mpr ⟨hreg, rfl⟩
  have hfind' : (s.set c (k.apply (s.channels c))).poller.channels.find?
      ((s.set c (k.apply (s.channels c))).channels c).fd = some c := by simpa [h.describes.fd] using hfind
  have htable' : (s.set c (k.apply (s.channels c))).poller.table.find?
      ((s.set c (k.apply (s.channels c))).channels c).fd = some ((r c).events, c) := by
    simpa [h.describes.fd] using h.table_of_added hidx
  have hevents : ((s.set c (k.apply (s.channels c))).channels c).events = k.mask (r c).events := by
    simp [h.describes.events]
  have hkept := fun n => (s.poller.channels.ite_find? hfind n).symm
  by_cases hzero : k.mask (r c).events = 0
  · obtain ⟨s', hs, hindexes, hchannels, htable⟩ := updateChannel_del hidx' hfind' (hevents.trans hzero) htable'
    rw [Host.set_self, Host.set_poller, Change.apply_fd, h.describes.fd] at htable
    rw [if_pos hzero]
    refine ⟨s', hs, h.changed hfds hindexes ?_ (fun n => ?_) (fun n => ?_), hindexes⟩
    · rw [r.step_change, if_pos rfl]
      exact .deleted rfl hzero
    · rw [hchannels]
      exact hkept n
    · rw [htable, OrdMap.find?_erase, if_neg (show kDeleted ≠ kAdded by decide)]
  · obtain ⟨s', hs, hindexes, hchannels, htable⟩ := updateChannel_mod hidx' hfind' (hevents ▸ hzero) htable'
    rw [hevents, Host.set_self, Host.set_poller, Change.apply_fd, h.describes.fd] at htable
    rw [if_neg hzero]
    refine ⟨s', hs, h.changed hfds hindexes ?_ (fun n => ?_) (fun n => ?_), hindexes⟩
    · rw [r.step_change, if_pos rfl]
      exact .added rfl
    · rw [hchannels]
      exact hkept n
    · rw [htable, OrdMap.find?_insert, if_pos rfl]

theorem removeChannel_eq {d : ι} (hfind : s.poller.channels.find? (s.channels c).fd = some d)
    (htable : (s.channels c).idx = kAdded → ∃ e, s.poller.table.find? (s.channels c).fd = some e) :
    ∃ s', removeChannel s c = some s' ∧ Indexes s c kNew s' ∧
      s'.poller.channels = s.poller.channels.erase (s.channels c).fd ∧
      s'.poller.table =
        if (s.channels c).idx = kAdded then s.poller.table.erase (s.channels c).fd else s.poller.table := by
  refine ⟨⟨(s.setIdx c kNew).channels, ⟨s.poller.channels.erase (s.channels c).fd,
      if (s.channels c).idx = kAdded then s.poller.table.erase (s.channels c).fd else s.poller.table⟩⟩,
    ?_, fun d => Host.setIdx_channels s c d kNew, rfl, rfl⟩
  by_cases hidx : (s.channels c).idx = kAdded
  · obtain ⟨e, he⟩ := htable hidx
    have hdel := update_del (s := {s with poller.channels := s.poller.channels.erase (s.channels c).fd}) he
    simp [removeChannel, OrdMap.count, hfind, hidx, hdel]
    rfl
  · simp [removeChannel, OrdMap.count, hfind, hidx]
    rfl

/-- A removed channel leaves no entry, not even one with no events. -/
theorem Inv.leave (h : Inv fds r s) (hfds : fds.Injective) (hc : (r c).status = .registered)
    (hevents : (r c).events = 0) :
    ∃ s', poller.step s (.remove c) = some s' ∧ Inv fds (r.step (.remove c)) s' ∧
      Indexes (s.set c {s.channels c with addedToLoop := false}) c kNew s' := by
  have hstep := h.describes.step_remove_eq poller hevents
  obtain ⟨s', hs, hindexes, hchannels, htable⟩ :=
    removeChannel_eq (s := s.set c {s.channels c with addedToLoop := false}) (c := c) (d := c)
      (by simpa [h.describes.fd] using (h.channels (fds c) c).mpr ⟨hc, rfl⟩)
      (by simpa [h.describes.fd] using fun hidx => ⟨_, _, h.table_of_added hidx⟩)
  simp only [Host.set_self, Host.set_poller, h.describes.fd] at hchannels htable
  have hch : ∀ d, s'.channels d =
      if d = c then {s.channels c with addedToLoop := false, idx := kNew} else s.channels d := by
    intro d
    rw [hindexes, Host.set_self, Host.set_channels]
    split <;> rfl
  refine ⟨s', hstep.trans hs, ?_, hindexes⟩
  refine h.stepped hfds c ?_ ?_ (fun d hd => ?_) (fun d hd => ?_) (fun n => ?_) (fun n => ?_)
  · refine h.describes.remove c (fun d => ?_) (fun d => ?_)
    all_goals
      rw [hch]
      split
      case isTrue hd => rw [hd]
      case isFalse => rfl
  · rw [hch, if_pos rfl, r.step_remove, if_pos rfl]
    exact .new (by simp)
  · rw [r.step_remove, if_neg hd]
  · rw [hch, if_neg hd]
  · rw [hchannels, OrdMap.find?_erase, r.step_remove, if_pos rfl]
    rfl
  · rw [htable, hch, if_pos rfl, if_neg (show kNew ≠ kAdded by decide)]
    split
    case isTrue => rw [OrdMap.find?_erase]
    case isFalse hidx => exact (s.poller.table.ite_find? (h.table_eq_none hfds hidx) n).symm

/-! ### Sequences of operations -/

/-- A change always succeeds, and leaves its channel added or, with the last of its events, deleted. -/
theorem Inv.change (h : Inv fds r s) (hfds : fds.Injective) (k : Change) (c : ι) :
    ∃ s', poller.step s (.change k c) = some s' ∧ Inv fds (r.step (.change k c)) s' ∧
      Indexes (s.set c (k.apply (s.channels c))) c
        (if (s.channels c).idx = kAdded ∧ k.mask (r c).events = 0 then kDeleted else kAdded) s' := by
  by_cases hidx : (s.channels c).idx = kAdded
  · obtain ⟨s', hs, hinv, hindexes⟩ := h.modify hfds hidx k
    refine ⟨s', hs, hinv, ?_⟩
    simpa [hidx] using hindexes
  · obtain ⟨s', hs, hinv, hindexes⟩ := h.add hfds hidx k
    refine ⟨s', hs, hinv, ?_⟩
    simpa [hidx] using hindexes

theorem Inv.step (h : Inv fds r s) (hfds : fds.Injective) {op : Poller.Op ι} (hlegal : r.Legal op) :
    ∃ s', poller.step s op = some s' ∧ Inv fds (r.step op) s' := by
  cases op with
  | change k c =>
    obtain ⟨s', hs, hinv, -⟩ := h.change hfds k c
    exact ⟨s', hs, hinv⟩
  | remove c =>
    obtain ⟨s', hs, hinv, -⟩ := h.leave hfds hlegal.1 hlegal.2
    exact ⟨s', hs, hinv⟩

/-! ### Entries without events -/

/-- An operation leaves its channel with events, or takes away all it had. -/
def Effective (r : Poller.Registry ι) : Poller.Op ι → Prop
  | .change k c => k.mask (r c).events ≠ 0 ∨ (r c).status = .registered ∧ (r c).events ≠ 0
  | .remove _ => True

theorem Inv.exact_step (h : Inv fds r s) (hfds : fds.Injective) (hexact : Exact r s) {op : Poller.Op ι}
    (hlegal : r.Legal op) (heffective : Effective r op) (hs : poller.step s op = some s') : Exact (r.step op) s' := by
  intro d hidx
  cases op with
  | change k c =>
    obtain ⟨t, ht, -, hindexes⟩ := h.change hfds k c
    obtain rfl := Option.some.inj (hs.symm.trans ht)
    rw [r.step_change]
    rw [hindexes, Host.set_self, Host.set_channels] at hidx
    split
    case isTrue hd =>
      rw [if_pos hd] at hidx
      intro hzero
      rcases heffective with hne | ⟨hc, hne⟩
      · exact hne hzero
      · rw [if_pos ⟨h.added hc hne, hzero⟩] at hidx
        exact absurd (show kDeleted = kAdded from hidx) (by decide)
    case isFalse hd =>
      rw [if_neg hd, if_neg hd] at hidx
      exact hexact d hidx
  | remove c =>
    obtain ⟨t, ht, -, hindexes⟩ := h.leave hfds hlegal.1 hlegal.2
    obtain rfl := Option.some.inj (hs.symm.trans ht)
    rw [r.step_remove]
    rw [hindexes, Host.set_self, Host.set_channels] at hidx
    split
    case isTrue hd =>
      rw [if_pos hd] at hidx
      exact absurd (show kNew = kAdded from hidx) (by decide)
    case isFalse hd =>
      rw [if_neg hd, if_neg hd] at hidx
      exact hexact d hidx

/-- Any other operation enters its channel with no events. -/
theorem Inv.ineffective (h : Inv fds r s) (hfds : fds.Injective) (hexact : Exact r s) {op : Poller.Op ι}
    (hnot : ¬ Effective r op) (hs : poller.step s op = some s') : ∃ n, s'.poller.Monitors n 0 := by
  cases op with
  | remove c => exact absurd trivial hnot
  | change k c =>
    obtain ⟨hzero, hempty⟩ := not_or.mp hnot
    have hzero : k.mask (r c).events = 0 := not_not.mp hzero
    have hidx : (s.channels c).idx ≠ kAdded := by
      intro hadded
      refine hempty ⟨?_, hexact c hadded⟩
      rw [h.registered_iff, hadded]
      decide
    obtain ⟨t, ht, hinv, hindexes⟩ := h.change hfds k c
    obtain rfl := Option.some.inj (hs.symm.trans ht)
    refine ⟨fds c, c, (hinv.table _ _ _).mpr ⟨?_, rfl, ?_⟩⟩
    · rw [hindexes, if_pos rfl, if_neg (fun hboth => hidx hboth.1)]
    · rw [r.step_change, if_pos rfl]
      exact hzero

end EPoll
end Chtho.Net
