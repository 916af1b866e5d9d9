import Chtho.Net.Poller.EPoll

/-! The `epoll_ctl` calls of `EPoll`.

A failed `EPOLL_CTL_DEL` is only logged, so that a run that gets through says nothing
of it. Here the poller keeps the calls it makes, each with what the kernel had for the
descriptor at the time; without them it is `EPoll` (`run_host`). Where a call is made
follows from the index of the channel, and `Inv` says that this index knows the kernel's
table. -/
namespace Chtho.Net.EPoll
open Lib

variable {ι : Type}

/-- A call, and whether the kernel had the descriptor. -/
structure Call where
  op : CtlOp
  fd : Int
  present : Bool
deriving DecidableEq, Repr

/-- `EPOLL_CTL_ADD` is for what is absent, the others for what is present. -/
def Call.Legal (call : Call) : Prop := call.present = true ↔ call.op ≠ .ADD

structure Traced (ι : Type) where
  epoll : EPoll ι
  calls : List Call

namespace Traced

/-- Without the calls. -/
def host (s : Host ι (Traced ι)) : Host ι (EPoll ι) := ⟨s.channels, s.poller.epoll⟩

@[simp] theorem host_channels (s : Host ι (Traced ι)) : (host s).channels = s.channels := rfl

@[simp] theorem host_poller (s : Host ι (Traced ι)) : (host s).poller = s.poller.epoll := rfl

def create (fds : ι → Nat) : Host ι (Traced ι) := ⟨(EPoll.create fds).channels, (EPoll.create fds).poller, []⟩

/-- The call that `update` makes. -/
def call (s : Host ι (EPoll ι)) (op : CtlOp) (c : ι) : Call :=
  ⟨op, (s.channels c).fd, (s.poller.table.find? (s.channels c).fd).isSome⟩

def update (s : Host ι (Traced ι)) (op : CtlOp) (c : ι) : Option (Host ι (Traced ι)) := do
  let t ← EPoll.update (host s) op c
  some ⟨t.channels, t.poller, s.poller.calls ++ [call (host s) op c]⟩

/-- What an operation of the poller makes of a state, with the calls that it adds. -/
def add (calls : List Call) (new : List Call) (t : Host ι (EPoll ι)) : Host ι (Traced ι) :=
  ⟨t.channels, t.poller, calls ++ new⟩

theorem update_eq (s : Host ι (Traced ι)) (op : CtlOp) (c : ι) :
    update s op c = (EPoll.update (host s) op c).map (add s.poller.calls [call (host s) op c]) := by
  rw [update]
  cases EPoll.update (host s) op c <;> rfl

variable [DecidableEq ι]

def updateChannel (s : Host ι (Traced ι)) (c : ι) : Option (Host ι (Traced ι)) :=
  let ch := s.channels c
  let p := s.poller.epoll
  if ch.idx = kNew ∨ ch.idx = kDeleted then
    let channels := if ch.idx = kNew then p.channels.insert ch.fd c else p.channels
    update {s.setIdx c kAdded with poller.epoll.channels := channels} .ADD c
  else do
    assert (p.channels.find? ch.fd ≠ none)
    assert (p.channels.find? ch.fd = some c)
    assert (ch.idx = kAdded)
    if ch.isNoneEvent then do
      let s ← update s .DEL c
      some (s.setIdx c kDeleted)
    else update s .MOD c

def removeChannel (s : Host ι (Traced ι)) (c : ι) : Option (Host ι (Traced ι)) := do
  let ch := s.channels c
  assert (s.poller.epoll.channels.count ch.fd = 1)
  let s := {s with poller.epoll.channels := s.poller.epoll.channels.erase ch.fd}
  let s ← if ch.idx = kAdded then update s .DEL c else some s
  some (s.setIdx c kNew)

def poller : Poller ι (Traced ι) := ⟨updateChannel, removeChannel⟩

/-! ### The poller and its calls -/

/-- Which operation an index asks for. -/
def updateOp (ch : Channel) : CtlOp :=
  if ch.idx = kNew ∨ ch.idx = kDeleted then .ADD else if ch.isNoneEvent then .DEL else .MOD

/-- What a state without calls does next is done before they are put back. -/
theorem map_add_bind {calls new : List Call} {t : Option (Host ι (EPoll ι))} {c : ι} {idx : Int} :
    ((t.map (add calls new)).bind fun s => some (s.setIdx c idx)) =
      (t.bind fun s => some (s.setIdx c idx)).map (add calls new) := by
  cases t <;> rfl

theorem updateChannel_eq (s : Host ι (Traced ι)) (c : ι) :
    updateChannel s c =
      (EPoll.updateChannel (host s) c).map (add s.poller.calls [call (host s) (updateOp (s.channels c)) c]) := by
  obtain ⟨channels, epoll, calls⟩ := s
  rw [show host ⟨channels, epoll, calls⟩ = ⟨channels, epoll⟩ from rfl]
  simp only [updateChannel, EPoll.updateChannel, assert_bind, update_eq, updateOp]
  by_cases hidx : (channels c).idx = kNew ∨ (channels c).idx = kDeleted
  · simp only [if_pos hidx, call, host, Host.setIdx, Host.set_self]
    rfl
  · simp only [if_neg hidx, apply_ite (Option.map _), Option.map_none, Option.bind_eq_bind, map_add_bind]
    refine if_congr Iff.rfl (if_congr Iff.rfl (if_congr Iff.rfl ?_ rfl) rfl) rfl
    split <;> rfl

theorem removeChannel_eq (s : Host ι (Traced ι)) (c : ι) :
    removeChannel s c = (EPoll.removeChannel (host s) c).map
      (add s.poller.calls (if (s.channels c).idx = kAdded then [call (host s) .DEL c] else [])) := by
  obtain ⟨channels, epoll, calls⟩ := s
  rw [show host ⟨channels, epoll, calls⟩ = ⟨channels, epoll⟩ from rfl]
  simp only [removeChannel, EPoll.removeChannel, assert_bind, update_eq, apply_ite (Option.map _), Option.map_none]
  refine if_congr Iff.rfl ?_ rfl
  by_cases hidx : (channels c).idx = kAdded
  · simp only [if_pos hidx, Option.bind_eq_bind, map_add_bind]
    rfl
  · simp [if_neg hidx, add, Host.setIdx, Host.set]

/-- The calls of an operation. -/
def issued (s : Host ι (EPoll ι)) : Poller.Op ι → List Call
  | .change k c => [call s (updateOp (k.apply (s.channels c))) c]
  | .remove c => if (s.channels c).idx = kAdded then [call s .DEL c] else []

theorem step_eq (s : Host ι (Traced ι)) (op : Poller.Op ι) :
    poller.step s op = (EPoll.poller.step (host s) op).map (add s.poller.calls (issued (host s) op)) := by
  cases op with
  | change k c =>
    have hcall : ∀ op, call (host (s.set c (k.apply (s.channels c)))) op c = call (host s) op c := by
      intro op
      simp [call]
    simp only [Poller.step, poller, updateChannel_eq, hcall, Host.set_self]
    rfl
  | remove c =>
    have hcall : call (host (s.set c {s.channels c with addedToLoop := false})) .DEL c = call (host s) .DEL c := by
      simp [call]
    simp only [Poller.step, EPoll.poller, poller, Channel.remove, assert_bind, Option.bind_eq_bind, host_channels]
    by_cases hnone : (s.channels c).isNoneEvent = true
    · simp only [hnone, if_true, Option.bind_some, removeChannel_eq, hcall, Host.set_self]
      rfl
    · simp only [hnone]
      rfl

/-- Without its calls the poller is `EPoll`. -/
theorem run_host (s : Host ι (Traced ι)) (ops : List (Poller.Op ι)) :
    (poller.run s ops).map host = EPoll.poller.run (host s) ops := by
  induction ops using List.reverseRecOn with
  | nil => rfl
  | append_singleton ops op ih =>
    rw [Poller.run_snoc, Poller.run_snoc, ← ih]
    cases poller.run s ops with
    | none => rfl
    | some t =>
      show (poller.step t op).map host = EPoll.poller.step (host t) op
      rw [step_eq]
      cases EPoll.poller.step (host t) op <;> rfl

end Traced

/-! ### Legal calls -/

variable {fds : ι → Nat} {r : Poller.Registry ι}

theorem Call.legal_iff {s : Host ι (EPoll ι)} {op : CtlOp} {c : ι} :
    (Traced.call s op c).Legal ↔ ((∃ e, s.poller.table.find? (s.channels c).fd = some e) ↔ op ≠ .ADD) := by
  rw [Call.Legal, Traced.call, Option.isSome_iff_exists]

/-- What the kernel has and what the poller has, from the channels. -/
structure Tracks (s : Host ι (EPoll ι)) : Prop where
  table : ∀ n events c, s.poller.table.find? n = some (events, c) ↔
    (s.channels c).idx = kAdded ∧ ((s.channels c).fd : Int) = n ∧ (s.channels c).events = events
  channels : ∀ n c, s.poller.channels.find? n = some c ↔
    ((s.channels c).idx = kAdded ∨ (s.channels c).idx = kDeleted) ∧ ((s.channels c).fd : Int) = n

theorem Inv.tracks {s : Host ι (EPoll ι)} (h : Inv fds r s) : Tracks s where
  table := fun n events c => by rw [h.table, h.describes.fd, h.describes.events]
  channels := by
    intro n c
    rw [h.channels, h.describes.fd]
    refine and_congr_left fun _ => ?_
    have hstage := h.stage c
    generalize (s.channels c).idx = idx at hstage
    cases hstage with
    | new hnot => exact iff_of_false hnot (by decide)
    | added hreg => exact iff_of_true hreg (.inl rfl)
    | deleted hreg => exact iff_of_true hreg (.inr rfl)

/-- An index asks for what the kernel's table allows. -/
theorem Inv.issued_legal {s : Host ι (EPoll ι)} (h : Inv fds r s) (hfds : fds.Injective) (op : Poller.Op ι) :
    ∀ call ∈ Traced.issued s op, call.Legal := by
  have hfind : ∀ c, (s.channels c).idx = kAdded → ∃ e, s.poller.table.find? (s.channels c).fd = some e :=
    fun c hidx => ⟨_, h.describes.fd c ▸ h.table_of_added hidx⟩
  intro call hcall
  cases op with
  | change k c =>
    obtain rfl := List.mem_singleton.mp hcall
    rw [Call.legal_iff, Traced.updateOp, Change.apply_idx]
    have hstage := h.stage c
    by_cases hidx : (s.channels c).idx = kAdded
    · have hnot : ¬ ((s.channels c).idx = kNew ∨ (s.channels c).idx = kDeleted) := by
        rw [hidx]
        decide
      rw [if_neg hnot]
      refine iff_of_true (hfind c hidx) ?_
      split <;> decide
    · have hnone := h.table_eq_none hfds hidx
      have hadd : (s.channels c).idx = kNew ∨ (s.channels c).idx = kDeleted := by
        generalize (s.channels c).idx = idx at hstage hidx
        cases hstage with
        | new => exact .inl rfl
        | added => exact absurd rfl hidx
        | deleted => exact .inr rfl
      rw [if_pos hadd, h.describes.fd, hnone]
      simp
  | remove c =>
    rw [Traced.issued] at hcall
    split at hcall
    case isTrue hidx =>
      obtain rfl := List.mem_singleton.mp hcall
      exact Call.legal_iff.mpr (iff_of_true (hfind c hidx) (by decide))
    case isFalse => cases hcall

variable [DecidableEq ι]

/-- A legal operation adds legal calls. -/
theorem Inv.traced_step {s : Host ι (Traced ι)} (h : Inv fds r (Traced.host s))
    (hcalls : ∀ call ∈ s.poller.calls, call.Legal) (hfds : fds.Injective) {op : Poller.Op ι} (hlegal : r.Legal op) :
    ∃ t, Traced.poller.step s op = some t ∧ Inv fds (r.step op) (Traced.host t) ∧
      ∀ call ∈ t.poller.calls, call.Legal := by
  obtain ⟨t, ht, hinv⟩ := h.step hfds hlegal
  refine ⟨Traced.add s.poller.calls (Traced.issued (Traced.host s) op) t, ?_, hinv, fun call hcall => ?_⟩
  · rw [Traced.step_eq, ht]
    rfl
  · rcases List.mem_append.mp hcall with hcall | hcall
    · exact hcalls call hcall
    · exact h.issued_legal hfds op call hcall

/-- Legal operations get through with legal calls only, and leave the kernel's table and
the poller's map to be those of the channels' indices. -/
theorem calls_legal (hfds : fds.Injective) {ops : List (Poller.Op ι)}
    (hlegal : Poller.Registry.Throughout Poller.Registry.Legal ops) :
    ∃ s, Traced.poller.run (Traced.create fds) ops = some s ∧
      poller.run (create fds) ops = some (Traced.host s) ∧
      (∀ call ∈ s.poller.calls, call.Legal) ∧ Tracks (Traced.host s) := by
  have hrun : ∃ s, Traced.poller.run (Traced.create fds) ops = some s ∧ Inv fds (.after ops) (Traced.host s) ∧
      ∀ call ∈ s.poller.calls, call.Legal :=
    Poller.run_of_step (fun r s => Inv fds r (Traced.host s) ∧ ∀ call ∈ s.poller.calls, call.Legal)
      ⟨inv_create, by simp [Traced.create]⟩ (fun _ _ _ hi hop => hi.1.traced_step hi.2 hfds hop) hlegal
  obtain ⟨s, hs, hinv, hcalls⟩ := hrun
  refine ⟨s, hs, ?_, hcalls, hinv.tracks⟩
  rw [show create fds = Traced.host (Traced.create fds) from rfl, ← Traced.run_host, hs]
  rfl

/-- Disabled twice, enabled again, removed and added once more. -/
theorem calls_legal_again :
    let fds : Fin 2 → Nat := fun c => c.val + 3
    let ops : List (Poller.Op (Fin 2)) := [.change .enableRead 0, .change .disableAll 0, .change .disableAll 0,
      .change .enableWrite 1, .change .enableRead 0, .change .disableAll 0, .remove 0, .change .enableRead 0]
    (Traced.poller.run (Traced.create fds) ops).map (·.poller.calls) = some [⟨.ADD, 3, false⟩, ⟨.DEL, 3, true⟩,
      ⟨.ADD, 3, false⟩, ⟨.ADD, 4, false⟩, ⟨.MOD, 3, true⟩, ⟨.DEL, 3, true⟩, ⟨.ADD, 3, false⟩] ∧
      ∃ s, Traced.poller.run (Traced.create fds) ops = some s ∧ poller.run (create fds) ops = some (Traced.host s) ∧
        (∀ call ∈ s.poller.calls, call.Legal) ∧ Tracks (Traced.host s) :=
  ⟨by decide +kernel, calls_legal (fun _ _ h => Fin.ext (Nat.add_right_cancel h)) (by decide +kernel)⟩

end Chtho.Net.EPoll
