import Chtho.Net.Acceptor

/-! What the idle descriptor is for.

With no room for another descriptor a connection cannot be accepted, so it waits, and the
listening socket stays readable: a loop that does nothing about it would spin. The idle
descriptor makes the place in which the connection is accepted and closed. This works in every
run in which nobody else takes that place (`Calm`), and then each call of `handleRead` that finds
a connection takes one, unless `accept` was interrupted or the connection aborted. It stops working for good where somebody does: `idleFd_` is then no
descriptor, and until some other is closed nothing that `handleRead` does changes anything. -/
namespace Chtho.Net.Acceptor
open Lib

/-- Nobody takes the place of the idle descriptor, and nothing gets in between: logging keeps
`errno`, the second `accept` is not interrupted, and `open` fails only if there is no room. -/
def Calm (s : Acceptor) : Action → Prop
  | .handleRead (.error errno) seen => seen = errno
  | .acceptIdle (.error errno) => errno = .EAGAIN ∨ errno = .EMFILE
  | .openIdle opened => opened = true
  | .otherOpens => s.pc = .outside
  | .handleRead .connection _ | .acceptIdle .connection | .listen | .closeIdle | .closeAccepted | .destroy | .arrive
  | .otherCloses _ => True

/-- A call of `handleRead` that finds a connection, with an `accept` that was neither interrupted nor aborted. -/
def Event.finds : Event → Bool
  | .handleRead backlog r => decide (0 < backlog ∧ (r = .connection ∨ r = .error .EMFILE))
  | .accepted _ | .newConnCB _ | .closed _ _ | .badClose _ => false

/-- The place for the connection is still to be made, or to be used. -/
def Pc.emergency : Pc → Bool
  | closeIdle | acceptIdle => true
  | outside | closeAccepted | openIdle | destroyed => false

structure Served (obs : List Event) (s : Acceptor) : Prop where
  bound : s.idleFd < s.limit
  idle : s.pc = .outside ∨ s.pc = .closeIdle → 0 ≤ s.idleFd
  room : s.pc = .acceptIdle ∨ s.pc = .openIdle ∨ s.pc = .closeAccepted ∧ s.idleFd < 0 → (free s.limit s.owner).isSome = true
  /-- A connection that was found still waits. -/
  waits : s.pc.emergency = true → obs.countP Event.finds ≤ (taken obs).length ∨ 0 < s.backlog
  found : obs.countP Event.finds ≤ (taken obs).length + if s.pc.emergency then 1 else 0

variable {s s' s₀ : Acceptor} {obs o : List Event} {as : List Action}

theorem Served.settled (h : Served obs s) (hem : s.pc.emergency = false) : obs.countP Event.finds ≤ (taken obs).length := by
  simpa [hem] using h.found

/-- A step outside the emergency that finds no more than it takes. -/
theorem Served.quiet (h : Served obs s) (hpc : s'.pc = s.pc) (hidle : s'.idleFd = s.idleFd) (hlimit : s'.limit = s.limit)
    (hroom : s.pc = .outside ∨ ((free s.limit s.owner).isSome = true → (free s'.limit s'.owner).isSome = true))
    (hbacklog : s.pc.emergency = true → s.backlog ≤ s'.backlog ∧ o = [])
    (hfinds : o.countP Event.finds ≤ (taken o).length) : Served (obs ++ o) s' where
  bound := by rw [hidle, hlimit]; exact h.bound
  idle := by rw [hpc, hidle]; exact h.idle
  room := by
    intro hneed
    rw [hpc, hidle] at hneed
    rcases hroom with hout | hkept
    · simp [hout] at hneed
    · exact hkept (h.room hneed)
  waits := by
    intro hem
    rw [hpc] at hem
    obtain ⟨hmore, rfl⟩ := hbacklog hem
    rw [List.append_nil]
    rcases h.waits hem with hfew | hwaits
    · exact .inl hfew
    · exact .inr (Nat.lt_of_lt_of_le hwaits hmore)
  found := by
    have hfound := h.found
    rw [List.countP_append, taken_append, List.length_append, hpc]
    omega

/-- What the idle descriptor leaves is room for another. -/
theorem Served.withoutIdle (h : Served obs s) (hroom : 0 ≤ s.idleFd ∨ (free s.limit s.owner).isSome = true) :
    (free s.withoutIdle.limit s.withoutIdle.owner).isSome = true := by
  rcases hroom with hidle | hroom
  · have hbound := h.bound
    refine free_isSome_iff.mpr ⟨s.idleFd.toNat, show s.idleFd.toNat < s.limit by omega, ?_⟩
    exact if_pos (Int.toNat_of_nonneg hidle)
  · obtain ⟨n, hn, hfree⟩ := free_isSome_iff.mp hroom
    refine free_isSome_iff.mpr ⟨n, hn, ?_⟩
    simp only [Acceptor.withoutIdle]
    split
    · rfl
    · exact hfree

theorem finds_closed (fds : List Nat) (owner : Owner) : (fds.map (Event.closed · owner)).countP Event.finds = 0 := by
  simp [List.countP_eq_zero, Event.finds]

/-- In the emergency's first two steps the found connection stays where it is. -/
theorem Served.closeIdle (h : Served obs s) (hinv : Inv obs s) (hpc : s.pc = .closeIdle)
    (hs : s.step .closeIdle = some (s', o)) : Served (obs ++ o) s' := by
  have hclose := hinv.close_idle .idle (by rw [hpc]; rfl)
  simp only [step, hclose] at hs
  obtain ⟨rfl, rfl⟩ := Prod.mk.inj (Option.some.inj hs)
  have hwaits := h.waits (by rw [hpc]; rfl)
  have hfound := h.found
  rw [hpc] at hfound
  refine ⟨h.bound, by simp, fun _ => h.withoutIdle (.inl (h.idle (.inr hpc))), fun _ => ?_, ?_⟩
  · rw [List.countP_append, finds_closed, taken_append, taken_closed, List.append_nil]
    exact hwaits
  · rw [List.countP_append, finds_closed, taken_append, taken_closed, List.append_nil]
    exact hfound

/-- The room that was made is used if there is a connection. -/
theorem Served.acceptIdle (h : Served obs s) {r : Result} (hpc : s.pc = .acceptIdle) (he : s.Accepts r)
    (hcalm : Calm s (.acceptIdle r)) (hs : s.step (.acceptIdle r) = some (s', o)) : Served (obs ++ o) s' := by
  have hroom := h.room (.inl hpc)
  have hfound := h.found
  rw [hpc] at hfound
  obtain ⟨⟨t, connfd⟩, haccept, hs⟩ := Option.bind_eq_some_iff.mp hs
  cases r with
  | connection =>
    obtain ⟨fd, hfree, haccept⟩ := Option.bind_eq_some_iff.mp haccept
    obtain ⟨rfl, rfl⟩ := Prod.mk.inj (Option.some.inj haccept)
    obtain ⟨rfl, rfl⟩ := Prod.mk.inj (Option.some.inj hs)
    refine ⟨Int.ofNat_lt.mpr (free_lt hfree), by simp, fun hneed => ?_, by simp [Pc.emergency], ?_⟩
    · simp only [reduceCtorEq, true_and, false_or] at hneed
      omega
    · rw [if_pos rfl, List.countP_append, taken_append, List.length_append]
      simpa [Event.finds, taken, Pc.emergency] using hfound
  | error errno =>
    obtain ⟨rfl, rfl⟩ := Prod.mk.inj (Option.some.inj haccept)
    obtain ⟨rfl, rfl⟩ := Prod.mk.inj (Option.some.inj hs)
    refine ⟨?_, by simp, fun _ => hroom, by simp [Pc.emergency], ?_⟩
    · show (-1 : Int) < s.limit
      omega
    · have hnone : errno = .EAGAIN := hcalm.resolve_right fun hfull => by
        rw [hfull] at he
        rw [show free s.limit s.owner = none from he] at hroom
        cases hroom
      rw [hnone] at he
      have hempty : s.backlog = 0 := he.2
      have hwaits := h.waits (by rw [hpc]; rfl)
      rw [hempty] at hwaits
      simpa [Pc.emergency] using hwaits

theorem Served.closeAccepted (h : Served obs s) (hinv : Inv obs s) (hpc : s.pc = .closeAccepted)
    (hs : s.step .closeAccepted = some (s', o)) : Served (obs ++ o) s' := by
  have hclose := hinv.close_idle .connection (by rw [hpc]; rfl)
  simp only [step, hclose] at hs
  obtain ⟨rfl, rfl⟩ := Prod.mk.inj (Option.some.inj hs)
  have hfound := h.settled (by rw [hpc]; rfl)
  refine ⟨h.bound, by simp, fun _ => h.withoutIdle ?_, by simp [Pc.emergency], ?_⟩
  · by_cases hidle : 0 ≤ s.idleFd
    · exact .inl hidle
    · exact .inr (h.room (.inr (.inr ⟨hpc, by omega⟩)))
  · rw [List.countP_append, finds_closed, taken_append, taken_closed, List.append_nil]
    exact hfound

/-- The idle descriptor comes back. -/
theorem Served.openIdle (h : Served obs s) (hpc : s.pc = .openIdle) (hs : s.step (.openIdle true) = some (s', o)) :
    Served (obs ++ o) s' := by
  obtain ⟨fd, hfree⟩ := Option.isSome_iff_exists.mp (h.room (.inr (.inl hpc)))
  simp only [step, hfree] at hs
  obtain ⟨rfl, rfl⟩ := Prod.mk.inj (Option.some.inj hs)
  have hfound := h.settled (by rw [hpc]; rfl)
  rw [List.append_nil]
  exact ⟨Int.ofNat_lt.mpr (free_lt hfree), fun _ => Int.natCast_nonneg fd, by simp, by simp [Pc.emergency], hfound⟩

/-- An error that is no emergency changes nothing, and one that is, is answered. -/
theorem Served.failed (h : Served obs s) (hpc : s.pc = .outside) {errno : AcceptErrno}
    (hs : s.step (.handleRead (.error errno) errno) = some (s', o)) : Served (obs ++ o) s' := by
  simp only [step, accept, Option.bind_eq_bind, Option.bind_some] at hs
  obtain ⟨-, hs⟩ := assert_bind_eq_some_iff.mp hs
  obtain ⟨rfl, rfl⟩ := Prod.mk.inj (Option.some.inj hs)
  have hfound := h.settled (by rw [hpc]; rfl)
  have htaken : taken (obs ++ [.handleRead s.backlog (.error errno)]) = taken obs := by simp [taken]
  split
  case isTrue hfull =>
    refine ⟨h.bound, fun _ => h.idle (.inl hpc), by simp, fun _ => ?_, ?_⟩
    · rw [htaken, List.countP_append]
      by_cases hwaits : 0 < s.backlog
      · exact .inr hwaits
      · refine .inl ?_
        simpa [Event.finds, hwaits] using hfound
    · rw [htaken, List.countP_append, List.countP_singleton]
      exact Nat.add_le_add hfound (by split <;> simp [Pc.emergency])
  case isFalse hother =>
    refine h.quiet rfl rfl rfl (.inl hpc) (fun hem => ?_) ?_
    · rw [hpc] at hem
      cases hem
    · simp [Event.finds, hother]

theorem Served.connected (h : Served obs s) (hpc : s.pc = .outside) {seen : AcceptErrno}
    (hs : s.step (.handleRead .connection seen) = some (s', o)) : Served (obs ++ o) s' := by
  obtain ⟨⟨t, connfd⟩, haccept, hs⟩ := Option.bind_eq_some_iff.mp hs
  obtain ⟨fd, -, haccept⟩ := Option.bind_eq_some_iff.mp haccept
  obtain ⟨rfl, rfl⟩ := Prod.mk.inj (Option.some.inj haccept)
  have hem : s.pc.emergency = true → ∀ P : Prop, P := by
    rw [hpc]
    intro hem
    cases hem
  simp only [accepted, Int.toNat_natCast] at hs
  cases hcb : s.newConnCB with
  | true =>
    simp only [hcb, if_true] at hs
    obtain ⟨rfl, rfl⟩ := Prod.mk.inj (Option.some.inj hs)
    refine h.quiet rfl rfl rfl (.inl hpc) (fun hemergency => hem hemergency _) ?_
    simp [taken, Event.finds, List.countP_cons]
    split <;> omega
  | false =>
    simp only [hcb, Bool.false_eq_true, if_false, close, Function.update_self] at hs
    obtain ⟨rfl, rfl⟩ := Prod.mk.inj (Option.some.inj hs)
    refine h.quiet rfl rfl rfl (.inl hpc) (fun hemergency => hem hemergency _) ?_
    simp [taken, Event.finds, List.countP_cons]
    split <;> omega

/-- What `close` leaves alone. -/
theorem close_keeps (s : Acceptor) (fd : Int) :
    (s.close fd).1.idleFd = s.idleFd ∧ (s.close fd).1.limit = s.limit ∧ (s.close fd).2.countP Event.finds = 0 := by
  unfold close
  split
  · split <;> exact ⟨rfl, rfl, rfl⟩
  · exact ⟨rfl, rfl, rfl⟩

theorem Served.destroy (h : Served obs s) (hpc : s.pc = .outside) (hs : s.step .destroy = some (s', o)) :
    Served (obs ++ o) s' := by
  simp only [step] at hs
  obtain ⟨rfl, rfl⟩ := Prod.mk.inj (Option.some.inj hs)
  refine ⟨?_, by simp, by simp, by simp [Pc.emergency], ?_⟩
  · simpa [close_keeps] using h.bound
  · simpa [close_keeps, taken_append, close_backlog, Pc.emergency] using h.settled (by rw [hpc]; rfl)

theorem Served.step (h : Served obs s) (hinv : Inv obs s) {a : Action} (he : Enabled s a) (hcalm : Calm s a)
    (hs : s.step a = some (s', o)) : Served (obs ++ o) s' := by
  cases a with
  | listen =>
    obtain ⟨rfl, rfl⟩ := Prod.mk.inj (Option.some.inj hs)
    exact h.quiet rfl rfl rfl (.inl he) (fun _ => ⟨Nat.le_refl _, rfl⟩) (by simp)
  | handleRead r seen =>
    cases r with
    | connection => exact h.connected he.1 hs
    | error errno =>
      obtain rfl : seen = errno := hcalm
      exact h.failed he.1 hs
  | closeIdle => exact h.closeIdle hinv he hs
  | acceptIdle r => exact h.acceptIdle he.1 he.2 hcalm hs
  | closeAccepted => exact h.closeAccepted hinv he hs
  | openIdle opened =>
    obtain rfl : opened = true := hcalm
    exact h.openIdle he hs
  | destroy => exact h.destroy he hs
  | arrive =>
    obtain ⟨rfl, rfl⟩ := Prod.mk.inj (Option.some.inj hs)
    exact h.quiet rfl rfl rfl (.inr id) (fun _ => ⟨Nat.le_succ _, rfl⟩) (by simp)
  | otherOpens =>
    obtain ⟨fd, -, hs⟩ := Option.bind_eq_some_iff.mp hs
    obtain ⟨rfl, rfl⟩ := Prod.mk.inj (Option.some.inj hs)
    exact h.quiet rfl rfl rfl (.inl hcalm) (fun _ => ⟨Nat.le_refl _, rfl⟩) (by simp)
  | otherCloses fd =>
    obtain ⟨rfl, rfl⟩ := Prod.mk.inj (Option.some.inj hs)
    refine h.quiet rfl rfl rfl (.inr fun hroom => ?_) (fun _ => ⟨Nat.le_refl _, rfl⟩) (by simp)
    obtain ⟨n, hn, hfree⟩ := free_isSome_iff.mp hroom
    refine free_isSome_iff.mpr ⟨n, hn, ?_⟩
    show Function.update s.owner fd none n = none
    rw [Function.update_apply, hfree, ite_self]

/-! ### With nobody in the way -/

variable {newConnCB : Bool} {owner : Nat → Option Owner} {limit : Nat}

/-- **The backlog moves.** As long as nobody takes the place of the idle descriptor and nothing
comes between the statements of `handleRead`, the idle descriptor is there whenever it is not being
used, and every call of `handleRead` that finds a connection, and whose first `accept` takes it or fails
for lack of room only, takes one off the backlog: the listening socket does not stay readable because
of a table that is full. -/
theorem backlog_moves (hothers : Foreign owner) (hcreate : create newConnCB owner limit = some s₀)
    (h : (machine.restrict Calm).Run s₀ as obs s) :
    (s.pc = .outside → ∃ fd : Nat, s.idleFd = fd ∧ s.owner fd = some .idle) ∧
      obs.countP Event.finds ≤ (taken obs).length + (if s.pc.emergency then 1 else 0) ∧
      (s.pc = .acceptIdle → (free s.limit s.owner).isSome = true) := by
  obtain ⟨hinv, hserved⟩ : Inv obs s ∧ Served obs s := by
    refine h.invariant (fun obs s => Inv obs s ∧ Served obs s) ⟨inv_create hothers hcreate, ?_⟩ ?_
    · obtain ⟨socket, idle, rfl, -, hbound⟩ := exists_of_create hcreate
      exact ⟨Int.ofNat_lt.mpr hbound, fun _ => Int.natCast_nonneg idle, by simp, by simp [Pc.emergency], Nat.zero_le _⟩
    · rintro obs s a s' o ⟨hinv, hserved⟩ he hs
      exact ⟨hinv.step he.1 hs, hserved.step hinv he.1 he.2 hs⟩
  refine ⟨fun hpc => ?_, hserved.found, fun hpc => hserved.room (.inl hpc)⟩
  have hidle := Int.toNat_of_nonneg (hserved.idle (.inl hpc))
  refine ⟨s.idleFd.toNat, hidle.symm, eq_of_mine ((hinv.owns _).trans ?_)⟩
  have hne : s.idleFd.toNat ≠ s.acceptSocket := by
    intro heq
    exact hinv.apart (by omega)
  rw [own, if_neg (by simp [hpc]), if_neg hne, if_pos hidle, hpc]
  rfl

instance (s : Acceptor) (a : Action) : Decidable (Calm s a) :=
  match a with
  | .handleRead (.error errno) seen => inferInstanceAs (Decidable (seen = errno))
  | .acceptIdle (.error errno) => inferInstanceAs (Decidable (errno = .EAGAIN ∨ errno = .EMFILE))
  | .openIdle opened => inferInstanceAs (Decidable (opened = true))
  | .otherOpens => inferInstanceAs (Decidable (s.pc = .outside))
  | .handleRead .connection _ | .acceptIdle .connection | .listen | .closeIdle | .closeAccepted | .destroy | .arrive
  | .otherCloses _ => isTrue trivial

/-- With room for three, one connection is passed on and the next two are turned away, the second
after another came for the place. -/
def turnedAway : List Action :=
  [.listen, .arrive, .handleRead .connection .EAGAIN, .arrive, .handleRead (.error .EMFILE) .EMFILE, .closeIdle,
    .arrive, .acceptIdle .connection, .closeAccepted, .openIdle true, .handleRead (.error .EMFILE) .EMFILE, .closeIdle,
    .acceptIdle .connection, .closeAccepted, .openIdle true]

theorem backlog_moves_turnedAway :
    ∃ s₀ obs s, create true (fun _ => none) 3 = some s₀ ∧ (machine.restrict Calm).Run s₀ turnedAway obs s ∧
      obs.countP Event.finds = 3 ∧ 3 ≤ (taken obs).length ∧ s.backlog = 0 ∧
      ∃ fd : Nat, s.idleFd = fd ∧ s.owner fd = some .idle := by
  obtain ⟨s₀, obs, s, hcreate, hrun, hfinds, hbacklog, hpc⟩ :
      ∃ s₀ obs s, create true (fun _ => none) 3 = some s₀ ∧ (machine.restrict Calm).Run s₀ turnedAway obs s ∧
        obs.countP Event.finds = 3 ∧ s.backlog = 0 ∧ s.pc = .outside := Machine.Run.exists_of_start (by decide +kernel)
  obtain ⟨hidle, hfound, -⟩ := backlog_moves (fun _ => rfl) hcreate hrun
  rw [hpc, hfinds] at hfound
  exact ⟨s₀, obs, s, hcreate, hrun, hfinds, hfound, hbacklog, hidle hpc⟩

/-! ### With the place taken -/

/-- There is no idle descriptor and no room for one. -/
structure Stuck (obs : List Event) (s : Acceptor) : Prop where
  idle : s.idleFd < 0
  full : s.pc ≠ .destroyed → free s.limit s.owner = none
  none : taken obs = []

theorem Stuck.step (h : Stuck obs s) {a : Action} (he : Enabled s a) (hopen : ∀ fd, a ≠ .otherCloses fd)
    (hs : s.step a = some (s', o)) : Stuck (obs ++ o) s' := by
  have hclose : s.close s.idleFd = (s, []) := by
    obtain ⟨k, hidle⟩ := Int.eq_negSucc_of_lt_zero h.idle
    rw [hidle]
    rfl
  have hfull : s.pc ≠ .destroyed → ¬ (free s.limit s.owner).isSome = true := fun hpc => by simp [h.full hpc]
  cases a with
  | listen =>
    obtain ⟨rfl, rfl⟩ := Prod.mk.inj (Option.some.inj hs)
    exact ⟨h.idle, h.full, by rw [List.append_nil]; exact h.none⟩
  | arrive =>
    obtain ⟨rfl, rfl⟩ := Prod.mk.inj (Option.some.inj hs)
    exact ⟨h.idle, h.full, by rw [List.append_nil]; exact h.none⟩
  | handleRead r seen =>
    have hpc : s.pc ≠ .destroyed := by simp [show s.pc = .outside from he.1]
    cases r with
    | connection => exact absurd he.2.2.1 (hfull hpc)
    | error errno =>
      simp only [Acceptor.step, accept, Option.bind_eq_bind, Option.bind_some] at hs
      obtain ⟨-, hs⟩ := assert_bind_eq_some_iff.mp hs
      obtain ⟨rfl, rfl⟩ := Prod.mk.inj (Option.some.inj hs)
      have hnone : taken (obs ++ [.handleRead s.backlog (.error errno)]) = [] := by
        rw [taken_append, h.none]
        rfl
      split
      · exact ⟨h.idle, fun _ => h.full hpc, hnone⟩
      · exact ⟨h.idle, h.full, hnone⟩
  | closeIdle =>
    simp only [Acceptor.step, hclose] at hs
    obtain ⟨rfl, rfl⟩ := Prod.mk.inj (Option.some.inj hs)
    exact ⟨h.idle, fun _ => h.full (by simp [show s.pc = .closeIdle from he]), by rw [List.append_nil]; exact h.none⟩
  | closeAccepted =>
    simp only [Acceptor.step, hclose] at hs
    obtain ⟨rfl, rfl⟩ := Prod.mk.inj (Option.some.inj hs)
    exact ⟨h.idle, fun _ => h.full (by simp [show s.pc = .closeAccepted from he]), by rw [List.append_nil]; exact h.none⟩
  | acceptIdle r =>
    have hpc : s.pc ≠ .destroyed := by simp [show s.pc = .acceptIdle from he.1]
    cases r with
    | connection => exact absurd he.2.1 (hfull hpc)
    | error errno =>
      obtain ⟨rfl, rfl⟩ := Prod.mk.inj (Option.some.inj hs)
      exact ⟨by simp, fun _ => h.full hpc, by simpa using h.none⟩
  | openIdle opened =>
    have hpc : s.pc ≠ .destroyed := by simp [show s.pc = .openIdle from he]
    simp only [Acceptor.step, h.full hpc] at hs
    obtain ⟨rfl, rfl⟩ := Prod.mk.inj (Option.some.inj hs)
    exact ⟨by simp, fun _ => h.full hpc, by rw [List.append_nil]; exact h.none⟩
  | destroy =>
    simp only [Acceptor.step] at hs
    obtain ⟨rfl, rfl⟩ := Prod.mk.inj (Option.some.inj hs)
    refine ⟨?_, by simp, ?_⟩
    · simpa [close_keeps] using h.idle
    · simp [taken_append, close_backlog, h.none]
  | otherOpens =>
    have hgone : s.pc = .destroyed := by
      by_contra hpc
      exact hfull hpc he
    obtain ⟨fd, -, hs⟩ := Option.bind_eq_some_iff.mp hs
    obtain ⟨rfl, rfl⟩ := Prod.mk.inj (Option.some.inj hs)
    exact ⟨h.idle, fun hpc => absurd hgone hpc, by rw [List.append_nil]; exact h.none⟩
  | otherCloses fd => exact absurd rfl (hopen fd)

/-- Without an idle descriptor and with no room, no connection is taken, to be passed on or turned away,
until another descriptor is closed. -/
theorem stuck_without_idle (hidle : s₀.idleFd < 0) (hfull : free s₀.limit s₀.owner = none)
    (hopen : ∀ fd, .otherCloses fd ∉ as) (h : machine.Run s₀ as obs s) : taken obs = [] := by
  have hstuck := h.invariant_actions (fun as obs s => (∀ fd, .otherCloses fd ∉ as) → Stuck obs s)
    (fun _ => ⟨hidle, fun _ => hfull, rfl⟩) fun as obs s a s' o ih he hs hall =>
      (ih fun fd hmem => hall fd (List.mem_append_left _ hmem)).step he
        (fun fd heq => hall fd (List.mem_append_right _ (by simp [heq]))) hs
  exact (hstuck hopen).none

end Chtho.Net.Acceptor
