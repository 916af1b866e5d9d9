import Chtho.Lib.Machine
import Mathlib.Data.List.Count
import Mathlib.Logic.Function.Basic

/-! `Acceptor`: the descriptors it takes from the kernel, and what becomes of them.

A process has room for `limit` descriptors, and a new one is the lowest that is free. The
acceptor keeps one that it does not need, `idleFd_`, for the case that there is no room for a
connection: it closes it, accepts the connection in its place, closes that and opens the idle
one again. Each of these is a statement of its own, between which other threads open and
close descriptors as they like, so the number in `idleFd_` may be anybody's when it is used
next. `owner` says for each open descriptor what it was opened as. -/
namespace Chtho.Net
open Lib

namespace Acceptor

/-- `errno` after `accept4(2)`, with the cases of the switch in `Socket::accept`. -/
inductive AcceptErrno where
  | EAGAIN
  | ECONNABORTED
  | EINTR
  | EPROTO
  | EPERM
  | EMFILE
  | EBADF
  | EFAULT
  | EINVAL
  | ENFILE
  | ENOBUFS
  | ENOMEM
  | ENOTSOCK
  | EOPNOTSUPP
  | other (n : Nat)
deriving DecidableEq, Repr

/-- Those that are not fatal. -/
def AcceptErrno.expected : AcceptErrno → Bool
  | EAGAIN | ECONNABORTED | EINTR | EPROTO | EPERM | EMFILE => true
  | EBADF | EFAULT | EINVAL | ENFILE | ENOBUFS | ENOMEM | ENOTSOCK | EOPNOTSUPP | other _ => false

/-- What a descriptor was opened as. -/
inductive Owner where
  /-- `acceptSocket_` -/
  | socket
  /-- `/dev/null` -/
  | idle
  /-- A connection that the acceptor has not passed on. -/
  | connection
  /-- Anything else in the process. -/
  | other
deriving DecidableEq, Repr

/-- What the loop's thread does next in `handleRead`, or nothing there. -/
inductive Pc where
  | outside
  | closeIdle
  | acceptIdle
  | closeAccepted
  | openIdle
  /-- There is no acceptor any more. -/
  | destroyed
deriving DecidableEq, Repr

/-- What `accept` returns. -/
inductive Result where
  | connection
  | error (errno : AcceptErrno)
deriving DecidableEq, Repr

/-- What is recorded of a run. -/
inductive Event where
  /-- A call of `handleRead`, with how many connections wait, and what its `accept` returns. -/
  | handleRead (backlog : Nat) (r : Result)
  | accepted (fd : Nat)
  | newConnCB (fd : Nat)
  /-- `close` of a descriptor, with what it was opened as. -/
  | closed (fd : Nat) (owner : Owner)
  /-- `close` of a number that is no open descriptor. -/
  | badClose (fd : Nat)
deriving DecidableEq, Repr

inductive Action where
  | listen
  /-- `seen` is the `errno` that is left when the error has been logged. -/
  | handleRead (r : Result) (seen : AcceptErrno)
  | closeIdle
  | acceptIdle (r : Result)
  | closeAccepted
  | openIdle (opened : Bool)
  | destroy
  | arrive
  | otherOpens
  | otherCloses (fd : Nat)
deriving DecidableEq, Repr

end Acceptor

structure Acceptor where
  acceptSocket : Nat
  /-- Whether a callback is set. -/
  newConnCB : Bool
  listening : Bool
  idleFd : Int
  pc : Acceptor.Pc
  /-- The kernel: the descriptors, how many there can be, and the connections that wait. -/
  owner : Nat → Option Acceptor.Owner
  limit : Nat
  backlog : Nat

namespace Acceptor

/-- The descriptor that the kernel hands out next, if there is room. -/
def free (limit : Nat) (owner : Nat → Option Owner) : Option Nat := (List.range limit).find? fun n => owner n = none

/-- The constructor: `socket` or die, and `assert(idleFd_ >= 0)`. -/
def create (newConnCB : Bool) (owner : Nat → Option Owner) (limit : Nat) : Option Acceptor := do
  let acceptSocket ← free limit owner
  let owner := Function.update owner acceptSocket (some .socket)
  let idleFd ← free limit owner
  let owner := Function.update owner idleFd (some .idle)
  some ⟨acceptSocket, newConnCB, false, idleFd, .outside, owner, limit, 0⟩

/-- `close(2)` -/
def close (s : Acceptor) : Int → Acceptor × List Event
  | .ofNat fd =>
    match s.owner fd with
    | some owner => ({s with owner := Function.update s.owner fd none}, [.closed fd owner])
    | none => (s, [.badClose fd])
  | .negSucc _ => (s, [])

/-- `accept(2)` -/
def accept (s : Acceptor) : Result → Option (Acceptor × Int)
  | .connection => do
    let fd ← free s.limit s.owner
    some ({s with owner := Function.update s.owner fd (some .connection), backlog := s.backlog - 1}, fd)
  | .error _ => some (s, -1)

/-- `accept` needs room for a descriptor before it looks for a connection. -/
def Accepts (s : Acceptor) : Result → Prop
  | .connection => (free s.limit s.owner).isSome = true ∧ 0 < s.backlog
  | .error .EAGAIN => (free s.limit s.owner).isSome = true ∧ s.backlog = 0
  | .error .EMFILE => free s.limit s.owner = none
  | .error _ => True

/-- What `handleRead` does with a connection: the callback takes it over, or it is closed. -/
def accepted (s : Acceptor) (fd : Nat) : Acceptor × List Event :=
  if s.newConnCB then ({s with owner := Function.update s.owner fd (some .other)}, [.newConnCB fd])
  else s.close fd

def step (s : Acceptor) : Action → Option (Acceptor × List Event)
  | .listen => some ({s with listening := true}, [])
  | .handleRead r seen => do
    let (s', connfd) ← s.accept r
    match r with
    | .connection =>
      let (t, o) := s'.accepted connfd.toNat
      some (t, .handleRead s.backlog r :: .accepted connfd.toNat :: o)
    | .error errno => do
      -- anything unexpected is logged as fatal
      assert (errno.expected = true)
      some (if seen = .EMFILE then {s' with pc := .closeIdle} else s', [.handleRead s.backlog r])
  | .closeIdle =>
    let (s', o) := s.close s.idleFd
    some ({s' with pc := .acceptIdle}, o)
  | .acceptIdle r => do
    let (s', fd) ← s.accept r
    some ({s' with idleFd := fd, pc := .closeAccepted}, if r = .connection then [.accepted fd.toNat] else [])
  | .closeAccepted =>
    let (s', o) := s.close s.idleFd
    some ({s' with pc := .openIdle}, o)
  | .openIdle opened =>
    match free s.limit s.owner, opened with
    | some fd, true => some ({s with owner := Function.update s.owner fd (some .idle), idleFd := fd, pc := .outside}, [])
    | _, _ => some ({s with idleFd := -1, pc := .outside}, [])
  | .destroy =>
    let (s', o) := s.close s.idleFd
    let (t, o') := s'.close s.acceptSocket
    some ({t with pc := .destroyed}, o ++ o')
  | .arrive => some ({s with backlog := s.backlog + 1}, [])
  | .otherOpens => do
    let fd ← free s.limit s.owner
    some ({s with owner := Function.update s.owner fd (some .other)}, [])
  | .otherCloses fd => some ({s with owner := Function.update s.owner fd none}, [])

/-- What can happen next. `handleRead` is called while the socket is listened on; other code
closes what it opened or took over. -/
def Enabled (s : Acceptor) : Action → Prop
  | .listen => s.pc = .outside
  | .handleRead r _ => s.pc = .outside ∧ s.listening = true ∧ s.Accepts r
  | .closeIdle => s.pc = .closeIdle
  | .acceptIdle r => s.pc = .acceptIdle ∧ s.Accepts r
  | .closeAccepted => s.pc = .closeAccepted
  | .openIdle _ => s.pc = .openIdle
  | .destroy => s.pc = .outside
  | .arrive => s.pc ≠ .destroyed
  | .otherOpens => (free s.limit s.owner).isSome = true
  | .otherCloses fd => s.owner fd = some .other

def machine : Machine Acceptor Action Event := ⟨Enabled, step⟩

instance (s : Acceptor) (r : Result) : Decidable (s.Accepts r) :=
  match r with
  | .connection => inferInstanceAs (Decidable (_ ∧ _))
  | .error .EAGAIN => inferInstanceAs (Decidable (_ ∧ _))
  | .error .EMFILE => inferInstanceAs (Decidable (free s.limit s.owner = none))
  | .error .ECONNABORTED | .error .EINTR | .error .EPROTO | .error .EPERM | .error .EBADF | .error .EFAULT
  | .error .EINVAL | .error .ENFILE | .error .ENOBUFS | .error .ENOMEM | .error .ENOTSOCK | .error .EOPNOTSUPP
  | .error (.other _) => isTrue trivial

instance (s : Acceptor) (a : Action) : Decidable (machine.enabled s a) :=
  match a with
  | .listen | .destroy => inferInstanceAs (Decidable (s.pc = .outside))
  | .handleRead r _ => inferInstanceAs (Decidable (s.pc = .outside ∧ s.listening = true ∧ s.Accepts r))
  | .closeIdle => inferInstanceAs (Decidable (s.pc = .closeIdle))
  | .acceptIdle r => inferInstanceAs (Decidable (s.pc = .acceptIdle ∧ s.Accepts r))
  | .closeAccepted => inferInstanceAs (Decidable (s.pc = .closeAccepted))
  | .openIdle _ => inferInstanceAs (Decidable (s.pc = .openIdle))
  | .arrive => inferInstanceAs (Decidable (s.pc ≠ .destroyed))
  | .otherOpens => inferInstanceAs (Decidable ((free s.limit s.owner).isSome = true))
  | .otherCloses fd => inferInstanceAs (Decidable (s.owner fd = some .other))

/-! ### Descriptors -/

/-- What the acceptor has to answer for. -/
def mine : Option Owner → Option Owner
  | some .other | none => none
  | some .socket => some .socket
  | some .idle => some .idle
  | some .connection => some .connection

/-- What the descriptor in `idleFd_` is. -/
def Pc.idleOwner : Pc → Option Owner
  | outside | closeIdle => some .idle
  | closeAccepted => some .connection
  | acceptIdle | openIdle | destroyed => none

/-- The descriptors the acceptor knows of. -/
def own (s : Acceptor) (n : Nat) : Option Owner :=
  if s.pc = .destroyed then none
  else if n = s.acceptSocket then some .socket
  else if (n : Int) = s.idleFd then s.pc.idleOwner
  else none

theorem free_spec {limit n : Nat} {owner : Nat → Option Owner} (h : free limit owner = some n) : owner n = none := by
  simpa using List.find?_some h

theorem free_isSome_iff {limit : Nat} {owner : Nat → Option Owner} :
    (free limit owner).isSome = true ↔ ∃ n < limit, owner n = none := by
  simp [free, List.find?_isSome]

theorem free_lt {limit n : Nat} {owner : Nat → Option Owner} (h : free limit owner = some n) : n < limit :=
  List.mem_range.mp (List.mem_of_find?_eq_some h)

theorem own_eq {s : Acceptor} (hpc : s.pc ≠ .destroyed) (hnone : s.pc.idleOwner = none) (n : Nat) :
    s.own n = if n = s.acceptSocket then some .socket else none := by
  rw [own, if_neg hpc, hnone, ite_self]

theorem eq_of_mine {x : Option Owner} {o : Owner} (h : mine x = some o) : x = some o := by
  cases x with
  | none => cases h
  | some owner =>
    cases owner with
    | other => cases h
    | socket | idle | connection => exact h

theorem mine_update (owner : Nat → Option Owner) (fd n : Nat) (x : Option Owner) :
    mine (Function.update owner fd x n) = if n = fd then mine x else mine (owner n) := by
  rw [Function.update_apply]
  exact apply_ite mine _ _ _

/-- The connections that the acceptor took off the backlog, by their descriptors. -/
def taken (obs : List Event) : List Nat := obs.filterMap fun
  | .accepted fd => some fd
  | _ => none

/-- Those it passed on or closed. -/
def released (obs : List Event) : List Nat := obs.filterMap fun
  | .newConnCB fd | .closed fd .connection => some fd
  | _ => none

theorem taken_append (obs o : List Event) : taken (obs ++ o) = taken obs ++ taken o := List.filterMap_append

theorem released_append (obs o : List Event) : released (obs ++ o) = released obs ++ released o := List.filterMap_append

theorem taken_closed (fds : List Nat) (owner : Owner) : taken (fds.map (.closed · owner)) = [] := by
  simp [taken, List.filterMap_map]

theorem released_closed (fds : List Nat) (owner : Owner) :
    released (fds.map (.closed · owner)) = if owner = .connection then fds else [] := by
  induction fds with
  | nil => simp [released]
  | cons fd fds ih =>
    rw [List.map_cons, ← List.singleton_append, released_append, ih]
    cases owner <;> rfl

/-- The descriptor in `idleFd_`, if the number is one. -/
def idleFds (s : Acceptor) : List Nat := if 0 ≤ s.idleFd then [s.idleFd.toNat] else []

/-- The connection the acceptor has in hand. -/
def held (s : Acceptor) : List Nat := if s.pc = .closeAccepted then s.idleFds else []

/-- A `close` of what the acceptor opened. -/
def Event.Sound : Event → Prop
  | .closed _ owner => owner ≠ .other
  | .badClose _ => False
  | .handleRead _ _ | .accepted _ | .newConnCB _ => True

structure Inv (obs : List Event) (s : Acceptor) : Prop where
  owns : ∀ n, mine (s.owner n) = s.own n
  apart : (s.acceptSocket : Int) ≠ s.idleFd
  sound : ∀ e ∈ obs, e.Sound
  balance : taken obs = released obs ++ s.held

variable {s s' : Acceptor} {obs o : List Event}

/-- The descriptor in `idleFd_` is closed, if there is one. -/
def withoutIdle (s : Acceptor) : Acceptor :=
  {s with owner := fun n => if (n : Int) = s.idleFd then none else s.owner n}

/-- `close(idleFd_)`: the descriptor is what it was opened as, or the number is none. -/
theorem Inv.close_idle (h : Inv obs s) (owner : Owner) (howner : s.pc.idleOwner = some owner) :
    s.close s.idleFd = (s.withoutIdle, s.idleFds.map (.closed · owner)) := by
  have hpc : s.pc ≠ .destroyed := by
    intro hpc
    rw [hpc] at howner
    cases howner
  obtain ⟨fd, hidle⟩ | ⟨k, hidle⟩ : (∃ fd : Nat, s.idleFd = fd) ∨ ∃ k, s.idleFd = Int.negSucc k := by
    cases s.idleFd with
    | ofNat fd => exact .inl ⟨fd, rfl⟩
    | negSucc k => exact .inr ⟨k, rfl⟩
  · have hne : fd ≠ s.acceptSocket := by
      rintro rfl
      exact h.apart hidle.symm
    have hfd : s.owner fd = some owner := by
      refine eq_of_mine ((h.owns fd).trans ?_)
      simp [own, hpc, hne, hidle, howner]
    have hupdate : Function.update s.owner fd none = fun n : Nat => if (n : Int) = s.idleFd then none else s.owner n := by
      funext n
      rw [Function.update_apply]
      exact if_congr (by omega) rfl rfl
    simp [hidle, close, hfd, withoutIdle, hupdate, idleFds]
  · have hnone : (fun n : Nat => if (n : Int) = s.idleFd then none else s.owner n) = s.owner := by
      funext n
      exact if_neg fun hn => by omega
    have hneg : ¬ 0 ≤ s.idleFd := by omega
    have hclose : s.close s.idleFd = (s, []) := by
      rw [hidle]
      rfl
    rw [hclose, withoutIdle, hnone, idleFds, if_neg hneg]
    rfl

/-- Nobody has to answer for the descriptor any more. -/
theorem Inv.withoutIdle (h : Inv obs s) (hpc : s.pc ≠ .destroyed) (n : Nat) :
    mine (s.withoutIdle.owner n) = if n = s.acceptSocket then some .socket else none := by
  have happart := h.apart
  simp only [Acceptor.withoutIdle]
  split
  case isTrue hn =>
    rw [if_neg (by omega)]
    rfl
  case isFalse hn => rw [h.owns, own, if_neg hpc, if_neg hn]

theorem sound_append (h : ∀ e ∈ obs, e.Sound) (ho : ∀ e ∈ o, e.Sound) : ∀ e ∈ obs ++ o, e.Sound := by
  intro e he
  rcases List.mem_append.mp he with he | he
  · exact h e he
  · exact ho e he

/-! ### Steps -/

/-- The rest of the process takes and gives back what is not the acceptor's. -/
theorem Inv.others (h : Inv obs s) {fd : Nat} {x : Option Owner} (hfd : mine (s.owner fd) = none) (hx : mine x = none)
    (backlog : Nat) : Inv obs {s with owner := Function.update s.owner fd x, backlog := backlog} where
  owns := fun n => by
    rw [mine_update]
    split
    case isTrue hn => rw [hx, ← hfd, hn, h.owns fd]; rfl
    case isFalse => exact h.owns n
  apart := h.apart
  sound := h.sound
  balance := h.balance

/-- What is added to the record, with nothing in hand. -/
theorem Inv.record (h : Inv obs s) (hheld : s.held = []) (ho : ∀ e ∈ o, e.Sound) (hbalance : taken o = released o) :
    Inv (obs ++ o) s where
  owns := h.owns
  apart := h.apart
  sound := sound_append h.sound ho
  balance := by
    rw [taken_append, released_append, h.balance, hheld, hbalance, List.append_nil, List.append_nil]

/-- A connection accepted outside the emergency is passed on or closed. -/
theorem Inv.connected (h : Inv obs s) (hpc : s.pc = .outside) {seen : AcceptErrno}
    (hs : s.step (.handleRead .connection seen) = some (s', o)) : Inv (obs ++ o) s' := by
  obtain ⟨⟨t, connfd⟩, haccept, hs⟩ := Option.bind_eq_some_iff.mp hs
  obtain ⟨fd, hfree, haccept⟩ := Option.bind_eq_some_iff.mp haccept
  obtain ⟨rfl, rfl⟩ := Prod.mk.inj (Option.some.inj haccept)
  have hheld : s.held = [] := by simp [held, hpc]
  have hfd : mine (s.owner fd) = none := by rw [free_spec hfree]; rfl
  simp only [accepted, Int.toNat_natCast] at hs
  cases hcb : s.newConnCB with
  | true =>
    simp only [hcb, if_true, Function.update_idem] at hs
    obtain ⟨rfl, rfl⟩ := Prod.mk.inj (Option.some.inj hs)
    have hmoved := (h.others hfd (x := some .other) rfl (s.backlog - 1)).record hheld
      (o := [.handleRead s.backlog .connection, .accepted fd, .newConnCB fd]) (by simp [Event.Sound]) rfl
    rwa [hcb] at hmoved
  | false =>
    simp only [hcb, Bool.false_eq_true, if_false, close, Function.update_self, Function.update_idem] at hs
    obtain ⟨rfl, rfl⟩ := Prod.mk.inj (Option.some.inj hs)
    have hmoved := (h.others hfd (x := none) rfl (s.backlog - 1)).record hheld
      (o := [.handleRead s.backlog .connection, .accepted fd, .closed fd .connection]) (by simp [Event.Sound]) rfl
    rwa [hcb] at hmoved

/-- An error of `accept` leaves the descriptors alone. -/
theorem Inv.failed (h : Inv obs s) (hpc : s.pc = .outside) {errno seen : AcceptErrno}
    (hs : s.step (.handleRead (.error errno) seen) = some (s', o)) : Inv (obs ++ o) s' := by
  simp only [step, accept, Option.bind_eq_bind, Option.bind_some] at hs
  obtain ⟨-, hs⟩ := assert_bind_eq_some_iff.mp hs
  obtain ⟨rfl, rfl⟩ := Prod.mk.inj (Option.some.inj hs)
  have hheld : s.held = [] := by simp [held, hpc]
  split
  · refine ⟨fun n => ?_, h.apart, sound_append h.sound (by simp [Event.Sound]), ?_⟩
    · rw [h.owns, own, own, hpc]
      rfl
    · rw [taken_append, released_append, h.balance, hheld]
      simp [taken, released, held]
  · exact h.record hheld (by simp [Event.Sound]) rfl

theorem Inv.closeIdle (h : Inv obs s) (hpc : s.pc = .closeIdle) (hs : s.step .closeIdle = some (s', o)) :
    Inv (obs ++ o) s' := by
  have hclose := h.close_idle .idle (by rw [hpc]; rfl)
  simp only [step, hclose] at hs
  obtain ⟨rfl, rfl⟩ := Prod.mk.inj (Option.some.inj hs)
  have hne : s.pc ≠ .destroyed := by simp [hpc]
  have hheld : s.held = [] := by simp [held, hpc]
  refine ⟨fun n => (h.withoutIdle hne n).trans ?_, h.apart, sound_append h.sound (by simp [Event.Sound]), ?_⟩
  · exact (own_eq (s := {s.withoutIdle with pc := .acceptIdle}) (by simp) rfl n).symm
  · rw [taken_append, released_append, taken_closed, released_closed, h.balance, hheld]
    simp [held]

/-- The place of the idle descriptor is taken by a connection, or by nothing. -/
theorem Inv.acceptIdle (h : Inv obs s) (hpc : s.pc = .acceptIdle) {r : Result}
    (hs : s.step (.acceptIdle r) = some (s', o)) : Inv (obs ++ o) s' := by
  obtain ⟨⟨t, connfd⟩, haccept, hs⟩ := Option.bind_eq_some_iff.mp hs
  have hheld : s.held = [] := by simp [held, hpc]
  have hsocket : mine (s.owner s.acceptSocket) = some .socket := by rw [h.owns]; simp [own, hpc]
  cases r with
  | connection =>
    obtain ⟨fd, hfree, haccept⟩ := Option.bind_eq_some_iff.mp haccept
    obtain ⟨rfl, rfl⟩ := Prod.mk.inj (Option.some.inj haccept)
    obtain ⟨rfl, rfl⟩ := Prod.mk.inj (Option.some.inj hs)
    have hne : s.acceptSocket ≠ fd := by
      rintro rfl
      rw [free_spec hfree] at hsocket
      cases hsocket
    refine ⟨fun n => ?_, fun heq => hne (Int.ofNat.inj heq), sound_append h.sound (by simp [Event.Sound]), ?_⟩
    · rw [mine_update, h.owns]
      simp only [own, hpc, Pc.idleOwner, ite_self, reduceCtorEq, if_false, Int.natCast_inj]
      by_cases hn : n = fd
      · rw [if_pos hn, if_neg (hn ▸ hne.symm), if_pos hn]
        rfl
      · rw [if_neg hn, if_neg hn]
    · rw [taken_append, released_append, h.balance, hheld]
      simp [taken, released, held, idleFds]
  | error errno =>
    obtain ⟨rfl, rfl⟩ := Prod.mk.inj (Option.some.inj haccept)
    obtain ⟨rfl, rfl⟩ := Prod.mk.inj (Option.some.inj hs)
    refine ⟨fun n => ?_, fun heq => by simp at heq, sound_append h.sound (by simp), ?_⟩
    · rw [h.owns]
      have hn : ¬ (n : Int) = -1 := by omega
      simp [own, hpc, Pc.idleOwner, hn]
    · rw [taken_append, released_append, h.balance, hheld]
      simp [taken, released, held, idleFds]

theorem Inv.closeAccepted (h : Inv obs s) (hpc : s.pc = .closeAccepted) (hs : s.step .closeAccepted = some (s', o)) :
    Inv (obs ++ o) s' := by
  have hclose := h.close_idle .connection (by rw [hpc]; rfl)
  simp only [step, hclose] at hs
  obtain ⟨rfl, rfl⟩ := Prod.mk.inj (Option.some.inj hs)
  have hne : s.pc ≠ .destroyed := by simp [hpc]
  refine ⟨fun n => (h.withoutIdle hne n).trans ?_, h.apart, sound_append h.sound (by simp [Event.Sound]), ?_⟩
  · exact (own_eq (s := {s.withoutIdle with pc := .openIdle}) (by simp) rfl n).symm
  · rw [taken_append, released_append, taken_closed, released_closed, h.balance, held, if_pos hpc, if_pos rfl]
    simp [held]

theorem Inv.openIdle (h : Inv obs s) (hpc : s.pc = .openIdle) {opened : Bool}
    (hs : s.step (.openIdle opened) = some (s', o)) : Inv (obs ++ o) s' := by
  have hheld : s.held = [] := by simp [held, hpc]
  have hsocket : mine (s.owner s.acceptSocket) = some .socket := by rw [h.owns]; simp [own, hpc]
  simp only [step] at hs
  split at hs
  case h_1 fd hfree =>
    obtain ⟨rfl, rfl⟩ := Prod.mk.inj (Option.some.inj hs)
    have hne : s.acceptSocket ≠ fd := by
      rintro rfl
      rw [free_spec hfree] at hsocket
      cases hsocket
    refine ⟨fun n => ?_, fun heq => hne (Int.ofNat.inj heq), by simpa using h.sound, ?_⟩
    · rw [mine_update, h.owns]
      simp only [own, hpc, Pc.idleOwner, ite_self, reduceCtorEq, if_false, Int.natCast_inj]
      by_cases hn : n = fd
      · rw [if_pos hn, if_neg (hn ▸ hne.symm), if_pos hn]
        rfl
      · rw [if_neg hn, if_neg hn]
    · rw [List.append_nil, h.balance, hheld]
      simp [held]
  case h_2 =>
    obtain ⟨rfl, rfl⟩ := Prod.mk.inj (Option.some.inj hs)
    refine ⟨fun n => ?_, fun heq => by simp at heq, by simpa using h.sound, ?_⟩
    · rw [h.owns]
      have hn : ¬ (n : Int) = -1 := by omega
      simp [own, hpc, Pc.idleOwner, hn]
    · rw [List.append_nil, h.balance, hheld]
      simp [held]

/-- The destructor closes both. -/
theorem Inv.destroy (h : Inv obs s) (hpc : s.pc = .outside) (hs : s.step .destroy = some (s', o)) : Inv (obs ++ o) s' := by
  have hclose := h.close_idle .idle (by rw [hpc]; rfl)
  have hne : s.pc ≠ .destroyed := by simp [hpc]
  have hheld : s.held = [] := by simp [held, hpc]
  have hsocket : s.withoutIdle.owner s.acceptSocket = some .socket :=
    eq_of_mine ((h.withoutIdle hne _).trans (if_pos rfl))
  have hclose' : s.withoutIdle.close s.acceptSocket =
      ({s.withoutIdle with owner := Function.update s.withoutIdle.owner s.acceptSocket none},
        [.closed s.acceptSocket .socket]) := by
    simp only [close, hsocket]
  simp only [step, hclose] at hs
  rw [show s.withoutIdle.close s.acceptSocket = _ from hclose'] at hs
  obtain ⟨rfl, rfl⟩ := Prod.mk.inj (Option.some.inj hs)
  refine ⟨fun n => ?_, h.apart, sound_append h.sound ?_, ?_⟩
  · rw [mine_update, h.withoutIdle hne]
    simp only [own, if_true]
    split <;> simp_all [mine]
  · intro e he
    rcases List.mem_append.mp he with he | he
    · obtain ⟨fd, -, rfl⟩ := List.mem_map.mp he
      simp [Event.Sound]
    · obtain rfl := List.mem_singleton.mp he
      simp [Event.Sound]
  · rw [taken_append, released_append, taken_append, released_append, taken_closed, released_closed, h.balance, hheld]
    simp [taken, released, held]

theorem Inv.step (h : Inv obs s) {a : Action} (he : Enabled s a) (hs : s.step a = some (s', o)) : Inv (obs ++ o) s' := by
  cases a with
  | listen =>
    obtain ⟨rfl, rfl⟩ := Prod.mk.inj (Option.some.inj hs)
    rw [List.append_nil]
    exact ⟨h.owns, h.apart, h.sound, h.balance⟩
  | handleRead r seen =>
    cases r with
    | connection => exact h.connected he.1 hs
    | error errno => exact h.failed he.1 hs
  | closeIdle => exact h.closeIdle he hs
  | acceptIdle r => exact h.acceptIdle he.1 hs
  | closeAccepted => exact h.closeAccepted he hs
  | openIdle opened => exact h.openIdle he hs
  | destroy => exact h.destroy he hs
  | arrive =>
    obtain ⟨rfl, rfl⟩ := Prod.mk.inj (Option.some.inj hs)
    rw [List.append_nil]
    exact ⟨h.owns, h.apart, h.sound, h.balance⟩
  | otherOpens =>
    obtain ⟨fd, hfree, hs⟩ := Option.bind_eq_some_iff.mp hs
    obtain ⟨rfl, rfl⟩ := Prod.mk.inj (Option.some.inj hs)
    rw [List.append_nil]
    exact h.others (by rw [free_spec hfree]; rfl) rfl _
  | otherCloses fd =>
    obtain ⟨rfl, rfl⟩ := Prod.mk.inj (Option.some.inj hs)
    rw [List.append_nil]
    exact h.others (by rw [show s.owner fd = some .other from he]; rfl) rfl _

/-! ### Every descriptor is accounted for -/

/-- Nothing in the process is the acceptor's before there is one. -/
def Foreign (owner : Nat → Option Owner) : Prop := ∀ n, mine (owner n) = none

variable {s₀ : Acceptor} {as : List Action} {newConnCB : Bool} {owner : Nat → Option Owner} {limit : Nat}

/-- The constructor's two descriptors. -/
theorem exists_of_create (h : create newConnCB owner limit = some s₀) :
    ∃ socket idle : Nat, s₀ = ⟨socket, newConnCB, false, idle, .outside,
        Function.update (Function.update owner socket (some .socket)) idle (some .idle), limit, 0⟩ ∧
      socket ≠ idle ∧ idle < limit := by
  obtain ⟨socket, hsocket, h⟩ := Option.bind_eq_some_iff.mp h
  obtain ⟨idle, hidle, h⟩ := Option.bind_eq_some_iff.mp h
  refine ⟨socket, idle, (Option.some.inj h).symm, ?_, free_lt hidle⟩
  rintro rfl
  exact absurd (free_spec hidle) (by simp)

theorem inv_create (hothers : Foreign owner) (h : create newConnCB owner limit = some s₀) : Inv [] s₀ := by
  obtain ⟨socket, idle, rfl, hne, -⟩ := exists_of_create h
  refine ⟨fun n => ?_, fun heq => hne (Int.ofNat.inj heq), by simp, rfl⟩
  rw [mine_update, mine_update, hothers]
  simp only [own, reduceCtorEq, if_false, Int.natCast_inj, Pc.idleOwner]
  by_cases hn : n = idle
  · rw [if_pos hn, if_neg (hn ▸ hne.symm), if_pos hn]
    rfl
  · rw [if_neg hn, if_neg hn]
    rfl

theorem inv_run (hothers : Foreign owner) (hcreate : create newConnCB owner limit = some s₀)
    (h : machine.Run s₀ as obs s) : Inv obs s :=
  h.invariant Inv (inv_create hothers hcreate) fun _ _ _ _ _ hinv he hs => hinv.step he hs

theorem close_backlog (s : Acceptor) (fd : Int) : (s.close fd).1.backlog = s.backlog ∧ taken (s.close fd).2 = [] := by
  unfold close
  split
  · split <;> exact ⟨rfl, rfl⟩
  · exact ⟨rfl, rfl⟩

/-- What a step takes off the backlog, it has accepted. -/
theorem step_backlog {a : Action} (he : Enabled s a) (hs : s.step a = some (s', o)) :
    s'.backlog + (taken o).length = s.backlog + if a = .arrive then 1 else 0 := by
  cases a with
  | listen | arrive | otherCloses =>
    obtain ⟨rfl, rfl⟩ := Prod.mk.inj (Option.some.inj hs)
    simp [taken]
  | closeIdle | closeAccepted =>
    simp only [step] at hs
    obtain ⟨rfl, rfl⟩ := Prod.mk.inj (Option.some.inj hs)
    simp [close_backlog]
  | destroy =>
    simp only [step] at hs
    obtain ⟨rfl, rfl⟩ := Prod.mk.inj (Option.some.inj hs)
    simp [close_backlog, taken_append]
  | otherOpens =>
    obtain ⟨fd, -, hs⟩ := Option.bind_eq_some_iff.mp hs
    obtain ⟨rfl, rfl⟩ := Prod.mk.inj (Option.some.inj hs)
    simp [taken]
  | openIdle opened =>
    simp only [step] at hs
    split at hs <;> obtain ⟨rfl, rfl⟩ := Prod.mk.inj (Option.some.inj hs) <;> simp [taken]
  | handleRead r seen =>
    cases r with
    | connection =>
      obtain ⟨⟨t, connfd⟩, haccept, hs⟩ := Option.bind_eq_some_iff.mp hs
      obtain ⟨fd, -, haccept⟩ := Option.bind_eq_some_iff.mp haccept
      obtain ⟨rfl, rfl⟩ := Prod.mk.inj (Option.some.inj haccept)
      simp only [Int.toNat_natCast] at hs
      obtain ⟨rfl, rfl⟩ := Prod.mk.inj (Option.some.inj hs)
      have hwaits : 0 < s.backlog := he.2.2.2
      have hpassed : ∀ t : Acceptor, (t.accepted fd).1.backlog = t.backlog ∧ taken (t.accepted fd).2 = [] := by
        intro t
        unfold accepted
        split
        · exact ⟨rfl, rfl⟩
        · exact close_backlog t fd
      have hcons : ∀ o', taken (.handleRead s.backlog .connection :: .accepted fd :: o') = fd :: taken o' := fun _ => rfl
      simp only [hcons, hpassed, List.length_singleton, reduceCtorEq, if_false]
      omega
    | error errno =>
      simp only [step, accept, Option.bind_eq_bind, Option.bind_some] at hs
      obtain ⟨-, hs⟩ := assert_bind_eq_some_iff.mp hs
      obtain ⟨rfl, rfl⟩ := Prod.mk.inj (Option.some.inj hs)
      split <;> simp [taken]
  | acceptIdle r =>
    obtain ⟨⟨t, connfd⟩, haccept, hs⟩ := Option.bind_eq_some_iff.mp hs
    cases r with
    | connection =>
      obtain ⟨fd, -, haccept⟩ := Option.bind_eq_some_iff.mp haccept
      obtain ⟨rfl, rfl⟩ := Prod.mk.inj (Option.some.inj haccept)
      obtain ⟨rfl, rfl⟩ := Prod.mk.inj (Option.some.inj hs)
      have hwaits : 0 < s.backlog := he.2.2
      simp [taken]
      omega
    | error errno =>
      obtain ⟨rfl, rfl⟩ := Prod.mk.inj (Option.some.inj haccept)
      obtain ⟨rfl, rfl⟩ := Prod.mk.inj (Option.some.inj hs)
      simp [taken]

/-- **Descriptors.** However other threads open and close descriptors between the statements of
`handleRead`, and whatever `accept` and `open` return: the acceptor closes only what it opened,
and each but once; what it has opened and not passed on or closed is `acceptSocket_` and, outside the
emergency, `idleFd_`; every connection it took off the backlog it has passed to the callback or closed,
once and in order, except the one it may have in hand; and no other left the backlog. -/
theorem descriptors_accounted (hothers : Foreign owner) (hcreate : create newConnCB owner limit = some s₀)
    (h : machine.Run s₀ as obs s) :
    (∀ n, mine (s.owner n) = s.own n) ∧ (∀ fd, .badClose fd ∉ obs ∧ .closed fd .other ∉ obs) ∧
      taken obs = released obs ++ s.held ∧ s.backlog + (taken obs).length = as.count .arrive := by
  have hinv := inv_run hothers hcreate h
  refine ⟨hinv.owns, fun fd => ⟨fun hmem => hinv.sound _ hmem, fun hmem => hinv.sound _ hmem rfl⟩, hinv.balance, ?_⟩
  refine h.invariant_actions (fun as obs s => s.backlog + (taken obs).length = as.count .arrive) ?_ ?_
  · obtain ⟨socket, idle, rfl, -⟩ := exists_of_create hcreate
    rfl
  · intro as obs s a s' o hsum he hs
    have hstep := step_backlog he hs
    rw [taken_append, List.length_append, List.count_append, List.count_singleton, ← hsum]
    simp only [beq_iff_eq]
    omega

/-- There is room for three descriptors. The first connection is passed on; for the second there
is none left, and while its place is made another thread takes it. -/
def placeTaken : List Action :=
  [.listen, .arrive, .handleRead .connection .EAGAIN, .arrive, .handleRead (.error .EMFILE) .EMFILE, .closeIdle,
    .otherOpens, .acceptIdle (.error .EMFILE), .closeAccepted, .openIdle true, .otherCloses 2,
    .handleRead .connection .EMFILE]

theorem descriptors_accounted_placeTaken :
    ∃ s₀ obs s, create true (fun _ => none) 3 = some s₀ ∧ machine.Run s₀ placeTaken obs s ∧ s.idleFd = -1 ∧
      released obs = [2, 2] ∧ taken obs = released obs ++ s.held ∧ .badClose 1 ∉ obs ∧ .closed 1 .other ∉ obs := by
  obtain ⟨s₀, obs, s, hcreate, hrun, hidle, hreleased⟩ :
      ∃ s₀ obs s, create true (fun _ => none) 3 = some s₀ ∧ machine.Run s₀ placeTaken obs s ∧ s.idleFd = -1 ∧
        released obs = [2, 2] := Machine.Run.exists_of_start (by decide +kernel)
  obtain ⟨-, hsound, hbalance, -⟩ := descriptors_accounted (fun _ => rfl) hcreate hrun
  exact ⟨s₀, obs, s, hcreate, hrun, hidle, hreleased, hbalance, hsound 1⟩

end Acceptor
end Chtho.Net
