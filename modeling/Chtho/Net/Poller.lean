import Chtho.Net.Channel
import Mathlib.Data.List.Induction
import Mathlib.Logic.Function.Basic

/-! `Poller`: what its two implementations share, and what both are for.

A loop's channels are addressed by pointers (`ι`). An operation of a channel changes
its mask and calls `updateChannel`, or calls `removeChannel`; each implementation keeps
its own meaning in the channel's `idx_`, and may change that of other channels too,
so a call works on all the channels (`Host`). `Registry` is the purpose of a poller: it
knows of each channel whether it is registered and with which mask, and has no
descriptors, no indices and nothing that can fail. -/
namespace Chtho.Net

/-- An operation of a channel that ends in `update()`. -/
inductive Change where
  | enableRead
  | disableRead
  | enableWrite
  | disableWrite
  | disableAll
deriving DecidableEq, Repr

namespace Change

def apply : Change → Channel → Channel
  | enableRead => Channel.enableRead
  | disableRead => Channel.disableRead
  | enableWrite => Channel.enableWrite
  | disableWrite => Channel.disableWrite
  | disableAll => Channel.disableAll

/-- What the operation makes of a mask. -/
def mask : Change → Mask → Mask
  | enableRead, events => events ||| Channel.kReadEvent
  | disableRead, events => events &&& ~~~Channel.kReadEvent
  | enableWrite, events => events ||| Channel.kWriteEvent
  | disableWrite, events => events &&& ~~~Channel.kWriteEvent
  | disableAll, _ => Channel.kNoneEvent

/-- The masks channels have. -/
def masks : List Mask := [0, 3, 4, 7]

variable (k : Change) (ch : Channel)

@[simp] theorem apply_fd : (k.apply ch).fd = ch.fd := by cases k <;> rfl

@[simp] theorem apply_idx : (k.apply ch).idx = ch.idx := by cases k <;> rfl

@[simp] theorem apply_events : (k.apply ch).events = k.mask ch.events := by cases k <;> rfl

theorem mask_mem {events : Mask} (h : events ∈ masks) : k.mask events ∈ masks := by
  simp only [masks, List.mem_cons, List.not_mem_nil, or_false] at h
  rcases h with rfl | rfl | rfl | rfl <;> cases k <;> decide +kernel

end Change

/-- A poller and the channels of its loop. -/
structure Host (ι P : Type) where
  channels : ι → Channel
  poller : P

namespace Host
variable {ι P : Type} [DecidableEq ι]

/-- The channel at `c` changes. -/
def set (s : Host ι P) (c : ι) (ch : Channel) : Host ι P := {s with channels := Function.update s.channels c ch}

@[simp] theorem set_poller (s : Host ι P) (c : ι) (ch : Channel) : (s.set c ch).poller = s.poller := rfl

theorem set_channels (s : Host ι P) (c d : ι) (ch : Channel) :
    (s.set c ch).channels d = if d = c then ch else s.channels d := Function.update_apply _ _ _ _

@[simp] theorem set_self (s : Host ι P) (c : ι) (ch : Channel) : (s.set c ch).channels c = ch := by
  rw [set_channels, if_pos rfl]

/-- `set_idx` -/
def setIdx (s : Host ι P) (c : ι) (idx : Int) : Host ι P := s.set c {s.channels c with idx := idx}

theorem setIdx_channels (s : Host ι P) (c d : ι) (idx : Int) :
    (s.setIdx c idx).channels d = if d = c then {s.channels c with idx := idx} else s.channels d := set_channels _ _ _ _

@[simp] theorem setIdx_set (s : Host ι P) (c : ι) (ch : Channel) (idx : Int) :
    (s.set c ch).setIdx c idx = s.set c {ch with idx := idx} := by
  simp [setIdx, set]

end Host

/-- The virtual functions of `Poller`. -/
structure Poller (ι P : Type) where
  updateChannel : Host ι P → ι → Option (Host ι P)
  removeChannel : Host ι P → ι → Option (Host ι P)

namespace Poller
variable {ι P : Type}

/-- An operation on the channel at a pointer. -/
inductive Op (ι : Type) where
  | change (k : Change) (c : ι)
  | remove (c : ι)
deriving DecidableEq, Repr

section Run
variable [DecidableEq ι]

def step (V : Poller ι P) (s : Host ι P) : Op ι → Option (Host ι P)
  | .change k c => V.updateChannel (s.set c (k.apply (s.channels c))) c
  | .remove c => do
    let ch ← (s.channels c).remove
    V.removeChannel (s.set c ch) c

def run (V : Poller ι P) (s : Host ι P) (ops : List (Op ι)) : Option (Host ι P) := ops.foldlM V.step s

theorem run_snoc (V : Poller ι P) (s : Host ι P) (ops : List (Op ι)) (op : Op ι) :
    V.run s (ops ++ [op]) = (V.run s ops).bind (V.step · op) := by
  simp only [run, List.foldlM_append, List.foldlM_cons, List.foldlM_nil, Option.bind_eq_bind]
  cases ops.foldlM V.step s with
  | none => rfl
  | some t => exact Option.bind_fun_some _

end Run

/-! ### What a poller is for -/

inductive Status where
  | fresh
  | registered
  | removed
deriving DecidableEq, Repr

structure Entry where
  status : Status
  events : Mask
deriving DecidableEq, Repr

/-- What a poller knows of each channel. -/
abbrev Registry (ι : Type) := ι → Entry

namespace Registry

def create : Registry ι := fun _ => ⟨.fresh, 0⟩

def step [DecidableEq ι] (r : Registry ι) : Op ι → Registry ι
  | .change k c => Function.update r c ⟨.registered, k.mask (r c).events⟩
  | .remove c => Function.update r c {r c with status := .removed}

def after [DecidableEq ι] (ops : List (Op ι)) : Registry ι := ops.foldl step create

theorem after_snoc [DecidableEq ι] (ops : List (Op ι)) (op : Op ι) : after (ops ++ [op]) = (after ops).step op := by
  simp [after]

theorem step_change [DecidableEq ι] (r : Registry ι) (k : Change) (c d : ι) :
    r.step (.change k c) d = if d = c then ⟨.registered, k.mask (r c).events⟩ else r d := Function.update_apply _ _ _ _

theorem step_remove [DecidableEq ι] (r : Registry ι) (c d : ι) :
    r.step (.remove c) d = if d = c then {r c with status := .removed} else r d := Function.update_apply _ _ _ _

/-- The channels have these descriptors and the masks of the registry. -/
structure Describes (fds : ι → Nat) (r : Registry ι) (channels : ι → Channel) : Prop where
  fd : ∀ c, (channels c).fd = fds c
  events : ∀ c, (channels c).events = (r c).events
  masks : ∀ c, (r c).events ∈ Change.masks

theorem describes_create (fds : ι → Nat) : Describes fds create fun c => .create (fds c) where
  fd := fun _ => rfl
  events := fun _ => rfl
  masks := fun _ => by simp [create, Change.masks]

theorem Describes.isNoneEvent {fds : ι → Nat} {r : Registry ι} {channels : ι → Channel}
    (h : Describes fds r channels) {c : ι} (hevents : (r c).events = 0) : (channels c).isNoneEvent = true := by
  simp [Channel.isNoneEvent, h.events, hevents, Channel.kNoneEvent]

section Describes
variable [DecidableEq ι] {fds : ι → Nat} {r : Registry ι} {channels channels' : ι → Channel}

theorem Describes.change (h : Describes fds r channels) (k : Change) (c : ι)
    (hfd : ∀ d, (channels' d).fd = (channels d).fd)
    (hevents : ∀ d, (channels' d).events = if d = c then k.mask (channels c).events else (channels d).events) :
    Describes fds (r.step (.change k c)) channels' where
  fd := fun d => by rw [hfd, h.fd]
  events := fun d => by
    rw [hevents, step_change]
    split
    · rw [h.events]
    · exact h.events d
  masks := fun d => by
    rw [step_change]
    split
    · exact k.mask_mem (h.masks c)
    · exact h.masks d

theorem Describes.remove (h : Describes fds r channels) (c : ι) (hfd : ∀ d, (channels' d).fd = (channels d).fd)
    (hevents : ∀ d, (channels' d).events = (channels d).events) : Describes fds (r.step (.remove c)) channels' where
  fd := fun d => by rw [hfd, h.fd]
  events := fun d => by
    rw [hevents, step_remove, h.events]
    split
    case isTrue hd => rw [hd]
    case isFalse => rfl
  masks := fun d => by
    rw [step_remove]
    split
    · exact h.masks c
    · exact h.masks d

/-- A channel without events may be removed. -/
theorem Describes.step_remove_eq {s : Host ι P} (h : Describes fds r s.channels) (V : Poller ι P) {c : ι}
    (hevents : (r c).events = 0) :
    V.step s (.remove c) = V.removeChannel (s.set c {s.channels c with addedToLoop := false}) c := by
  simp [Poller.step, Channel.remove, h.isNoneEvent hevents]

end Describes

/-- A channel is removed only while it is registered and has no events. -/
def Legal (r : Registry ι) : Op ι → Prop
  | .change _ _ => True
  | .remove c => (r c).status = .registered ∧ (r c).events = 0

instance (r : Registry ι) : (op : Op ι) → Decidable (r.Legal op)
  | .change _ _ => inferInstanceAs (Decidable True)
  | .remove c => inferInstanceAs (Decidable ((r c).status = .registered ∧ (r c).events = 0))

/-- The descriptors to monitor, with the events of interest: those of the registered
channels that have events. -/
def Monitors (fds : ι → Nat) (r : Registry ι) (n : Int) (events : Mask) : Prop :=
  ∃ c, (fds c : Int) = n ∧ (r c).status = .registered ∧ (r c).events = events ∧ events ≠ 0

variable [DecidableEq ι]

/-- Something of every operation, in the state it is done in. -/
def Throughout (p : Registry ι → Op ι → Prop) (ops : List (Op ι)) : Prop :=
  ∀ done op, done ++ [op] <+: ops → p (after done) op

variable {p : Registry ι → Op ι → Prop}

@[simp] theorem throughout_nil : Throughout p [] := by
  intro done op h
  simp at h

theorem throughout_snoc {ops : List (Op ι)} {op : Op ι} :
    Throughout p (ops ++ [op]) ↔ Throughout p ops ∧ p (after ops) op := by
  constructor
  · intro h
    exact ⟨fun done op' hpre => h done op' (hpre.trans (List.prefix_append ops [op])), h ops op (List.prefix_refl _)⟩
  · rintro ⟨h, hop⟩ done op' hpre
    rcases List.prefix_concat_iff.mp hpre with heq | hpre
    · obtain ⟨rfl, hlast⟩ := List.append_inj' heq rfl
      rw [List.singleton_inj.mp hlast]
      exact hop
    · exact h done op' hpre

theorem Throughout.of_prefix {done ops : List (Op ι)} (h : Throughout p ops) (hpre : done <+: ops) :
    Throughout p done :=
  fun done' op hpre' => h done' op (hpre'.trans hpre)

theorem Throughout.and {q : Registry ι → Op ι → Prop} {ops : List (Op ι)} (hp : Throughout p ops)
    (hq : Throughout q ops) : Throughout (fun r op => p r op ∧ q r op) ops :=
  fun done op hpre => ⟨hp done op hpre, hq done op hpre⟩

theorem throughout_iff {ops : List (Op ι)} :
    Throughout p ops ↔ ∀ i, (hi : i < ops.length) → p (after (ops.take i)) ops[i] := by
  constructor
  · intro h i hi
    refine h _ _ ?_
    rw [List.take_append_getElem]
    exact List.take_prefix _ _
  · rintro h done op ⟨rest, rfl⟩
    have hop := h done.length (by simp)
    simpa [List.getElem_append_left, List.getElem_append_right] using hop

instance [∀ r op, Decidable (p r op)] (ops : List (Op ι)) : Decidable (Throughout p ops) :=
  decidable_of_iff _ throughout_iff.symm

end Registry

/-- What the first state has and every operation keeps, where `p` allows the operation. -/
theorem run_of_step [DecidableEq ι] {V : Poller ι P} {s₀ : Host ι P} (I : Registry ι → Host ι P → Prop)
    {p : Registry ι → Op ι → Prop} (init : I .create s₀)
    (step : ∀ r s op, I r s → p r op → ∃ s', V.step s op = some s' ∧ I (r.step op) s') {ops : List (Op ι)}
    (h : Registry.Throughout p ops) : ∃ s', V.run s₀ ops = some s' ∧ I (.after ops) s' := by
  induction ops using List.reverseRecOn with
  | nil => exact ⟨s₀, rfl, init⟩
  | append_singleton ops op ih =>
    obtain ⟨hops, hop⟩ := Registry.throughout_snoc.mp h
    obtain ⟨s, hs, hinv⟩ := ih hops
    obtain ⟨s', hs', hinv'⟩ := step _ s op hinv hop
    refine ⟨s', ?_, ?_⟩
    · rw [run_snoc, hs]
      exact hs'
    · rw [Registry.after_snoc]
      exact hinv'

end Poller
end Chtho.Net
