import Chtho.Net.Dispatch

/-! The events that the kernel reports reach their channels, and these are alive.

The invariant is about the channels still to be handled: they were reported, so they were added
to the loop, and none of them can be removed before its turn. Everything else follows from
`addedToLoop_`, which `~Channel` asserts to be false. The steps on channels are one lemma
each over `Inv.moved`, what the loop itself does is `Inv.poll`, `Inv.handleEvent` and
`Inv.going`. -/
namespace Chtho.Net.Dispatch
open Lib

variable {ι : Type} [DecidableEq ι] {s : Dispatch ι}

/-! ### The invariant -/

/-- What the kernel reported, and what `handleEvent` was called with. -/
def reported (obs : List (Event ι)) : List (ι × Mask) := obs.filterMap fun
  | .reported c revents => some (c, revents)
  | _ => none

def handled (obs : List (Event ι)) : List (ι × Mask) := obs.filterMap fun
  | .handleEvent c revents _ => some (c, revents)
  | _ => none

/-- The callbacks that the calls of `handleEvent` ask for, of those that got their guard. -/
def asked (obs : List (Event ι)) : List (ι × Handler) := obs.flatMap fun
  | .handleEvent c revents true => (Channel.handlers revents).map (c, ·)
  | _ => []

def called (obs : List (Event ι)) : List (ι × Handler) := obs.filterMap fun
  | .called c h => some (c, h)
  | _ => none

section Append
variable (obs o : List (Event ι))

omit [DecidableEq ι]

theorem reported_append : reported (obs ++ o) = reported obs ++ reported o := List.filterMap_append

theorem handled_append : handled (obs ++ o) = handled obs ++ handled o := List.filterMap_append

theorem asked_append : asked (obs ++ o) = asked obs ++ asked o := List.flatMap_append

theorem called_append : called (obs ++ o) = called obs ++ called o := List.filterMap_append

end Append

/-- The channels still to be handled, with the events they have been told. -/
def due (s : Dispatch ι) : List (ι × Mask) := s.pc.rest.map fun c => (c, (s.host.channels c).revents)

structure Inv (obs : List (Event ι)) (s : Dispatch ι) : Prop where
  pointers : EPoll.Pointers s.host
  added : ∀ c, (s.host.channels c).addedToLoop = true → s.alive c = true
  rest : ∀ c ∈ s.pc.rest, (s.host.channels c).addedToLoop = true
  this : ∀ c, s.pc.this = some c → s.alive c = true ∧ s.channelHandling c = true
  nodup : s.activeChannels.Nodup
  /-- The current channel has had its turn. -/
  split : ∃ before, s.activeChannels = before ++ s.pc.rest ∧ ∀ c, s.curActiveChannel = some c → c ∈ before
  busy : s.pc ≠ .elsewhere → s.handlingEvents = true
  idle : s.pc = .elsewhere → s.curActiveChannel = none
  handled : reported obs = Dispatch.handled obs ++ s.due
  called : asked obs = Dispatch.called obs ++ s.pc.owed

variable {obs : List (Event ι)}

omit [DecidableEq ι] in
theorem inv_create : Inv [] (create : Dispatch ι) where
  pointers := ⟨by simp [create, EPoll.create], by simp [create, EPoll.create]⟩
  added := by simp [create, EPoll.create, Channel.create]
  rest := by simp [create, Pc.rest]
  this := by simp [create, Pc.this]
  nodup := .nil
  split := ⟨[], rfl, by simp [create]⟩
  busy := fun hpc => absurd rfl hpc
  idle := fun _ => rfl
  handled := rfl
  called := rfl

omit [DecidableEq ι] in
/-- What is done to channels outside the loop's own steps spares those it still needs. -/
theorem Inv.moved (h : Inv obs s) {host : Host ι (EPoll ι)} {alive channelHandling : ι → Bool}
    (hpointers : EPoll.Pointers host) (hadded : ∀ c, (host.channels c).addedToLoop = true → alive c = true)
    (hrest : ∀ c ∈ s.pc.rest, (host.channels c).addedToLoop = true ∧
      (host.channels c).revents = (s.host.channels c).revents)
    (hthis : ∀ c, s.pc.this = some c → alive c = true ∧ channelHandling c = true) :
    Inv obs {s with host := host, alive := alive, channelHandling := channelHandling} where
  pointers := hpointers
  added := hadded
  rest := fun c hc => (hrest c hc).1
  this := hthis
  nodup := h.nodup
  split := h.split
  busy := h.busy
  idle := h.idle
  handled := h.handled.trans (congrArg (Dispatch.handled obs ++ ·)
    (List.map_congr_left fun c hc => congrArg (c, ·) (hrest c hc).2.symm))
  called := h.called

omit [DecidableEq ι] in
/-- The current channel is not one of those still to come, and no other that was handled is. -/
theorem Inv.not_due (h : Inv obs s) {c : ι}
    (hc : s.handlingEvents = true → s.curActiveChannel = some c ∨ c ∉ s.activeChannels) : c ∉ s.pc.rest := by
  intro hin
  have hpc : s.pc ≠ .elsewhere := by
    intro hpc
    rw [hpc] at hin
    cases hin
  obtain ⟨before, hsplit, hcur⟩ := h.split
  rcases hc (h.busy hpc) with hself | hnot
  · have hnodup := h.nodup
    rw [hsplit] at hnodup
    exact (List.nodup_append.mp hnodup).2.2 c (hcur c hself) c hin rfl
  · exact hnot (hsplit ▸ List.mem_append_right _ hin)

/-! ### Steps on channels -/

section Steps
variable {s' : Dispatch ι} {o : List (Event ι)} {c : ι}

theorem Inv.construct (h : Inv obs s) {fd : Nat} (hc : s.alive c = false) :
    Inv obs {s with
      host := s.host.set c (.create fd)
      alive := Function.update s.alive c true
      channelHandling := Function.update s.channelHandling c false} := by
  have hne : ∀ d, s.alive d = true → d ≠ c := by
    rintro d hd rfl
    exact absurd (hd.symm.trans hc) (by decide)
  have hch : ∀ d, s.alive d = true → (s.host.set c (Channel.create fd)).channels d = s.host.channels d :=
    fun d hd => by rw [Host.set_channels, if_neg (hne d hd)]
  refine h.moved (h.pointers.of_channels fun d hd => ?_) (fun d hd => ?_) (fun d hd => ?_) fun d hd => ?_
  · have hd' := hch d (h.added d hd)
    simp only [Host.set] at hd'
    rw [hd']
    exact ⟨rfl, hd, rfl⟩
  · by_cases heq : d = c
    · rw [heq, Function.update_self]
    · rw [Function.update_of_ne heq]
      rw [Host.set_channels, if_neg heq] at hd
      exact h.added d hd
  · rw [hch d (h.added d (h.rest d hd))]
    exact ⟨h.rest d hd, rfl⟩
  · obtain ⟨halive, hhandling⟩ := h.this d hd
    rw [Function.update_of_ne (hne d halive), Function.update_of_ne (hne d halive)]
    exact ⟨halive, hhandling⟩

/-- A channel that is rewritten and keeps what matters. -/
theorem Inv.tie (h : Inv obs s) : Inv obs {s with host := s.host.set c (s.host.channels c).tie} := by
  have hch : ∀ d, ((s.host.set c (s.host.channels c).tie).channels d).addedToLoop = (s.host.channels d).addedToLoop ∧
      ((s.host.set c (s.host.channels c).tie).channels d).revents = (s.host.channels d).revents ∧
      ((s.host.set c (s.host.channels c).tie).channels d).fd = (s.host.channels d).fd ∧
      ((s.host.set c (s.host.channels c).tie).channels d).idx = (s.host.channels d).idx := by
    intro d
    rw [Host.set_channels]
    split
    case isTrue hd =>
      rw [hd]
      exact ⟨rfl, rfl, rfl, rfl⟩
    case isFalse => exact ⟨rfl, rfl, rfl, rfl⟩
  refine h.moved (h.pointers.of_channels fun d hd => ?_) (fun d hd => ?_) (fun d hd => ?_) h.this
  · exact ⟨(hch d).2.2.1, (hch d).1.trans hd, (hch d).2.2.2⟩
  · exact h.added d ((hch d).1.symm.trans hd)
  · exact ⟨(hch d).1.trans (h.rest d hd), (hch d).2.1⟩

theorem Inv.change (h : Inv obs s) {k : Change} {host : Host ι (EPoll ι)} (hc : s.alive c = true)
    (hs : EPoll.poller.step s.host (.change k c) = some host) : Inv obs {s with host := host} := by
  obtain ⟨hpointers, hothers, idx, hself⟩ := h.pointers.change hs
  refine h.moved hpointers (fun d hd => ?_) (fun d hd => ?_) h.this
  · by_cases heq : d = c
    · rw [heq]
      exact hc
    · rw [hothers d heq] at hd
      exact h.added d hd
  · by_cases heq : d = c
    · rw [heq, hself]
      cases k <;> exact ⟨rfl, rfl⟩
    · rw [hothers d heq]
      exact ⟨h.rest d hd, rfl⟩

theorem Inv.remove (h : Inv obs s) {host : Host ι (EPoll ι)}
    (hturn : s.handlingEvents = true → s.curActiveChannel = some c ∨ c ∉ s.activeChannels)
    (hs : EPoll.removeChannel (s.host.set c {s.host.channels c with addedToLoop := false}) c = some host) :
    Inv obs {s with host := host} := by
  obtain ⟨hpointers, hothers, idx, hself⟩ := h.pointers.remove hs
  refine h.moved hpointers (fun d hd => ?_) (fun d hd => ?_) h.this
  · by_cases heq : d = c
    · rw [heq, hself] at hd
      exact absurd hd Bool.false_ne_true
    · rw [hothers d heq] at hd
      exact h.added d hd
  · have hne : d ≠ c := by
      rintro rfl
      exact h.not_due hturn hd
    rw [hothers d hne]
    exact ⟨h.rest d hd, rfl⟩

theorem Inv.destroy (h : Inv obs s) (hhandling : s.channelHandling c = false)
    (hadded : (s.host.channels c).addedToLoop = false) :
    Inv obs {s with alive := Function.update s.alive c false} := by
  have hne : ∀ d, (s.host.channels d).addedToLoop = true → d ≠ c := by
    rintro d hd rfl
    exact absurd (hd.symm.trans hadded) (by decide)
  refine h.moved h.pointers (fun d hd => ?_) (fun d hd => ⟨h.rest d hd, rfl⟩) fun d hd => ?_
  · rw [Function.update_of_ne (hne d hd)]
    exact h.added d hd
  · obtain ⟨halive, hrunning⟩ := h.this d hd
    have hdc : d ≠ c := by
      rintro rfl
      exact absurd (hrunning.symm.trans hhandling) (by decide)
    rw [Function.update_of_ne hdc]
    exact ⟨halive, hrunning⟩

/-! ### Steps of the loop -/

/-- A new batch: the channels reported, each told what was reported for it. -/
theorem Inv.poll (h : Inv obs s) {answer : Answer} (hpc : s.pc = .elsewhere) (hanswer : s.Answers answer)
    (hs : s.step (.poll answer) = some (s', o)) : Inv (obs ++ o) s' := by
  obtain ⟨eventList, hpoll⟩ := poll_eq hanswer
  simp only [step, hpoll, Option.bind_eq_bind, Option.bind_some] at hs
  obtain ⟨rfl, rfl⟩ := Prod.mk.inj (Option.some.inj hs)
  have htold : ∀ d, ∃ revents, told s.host.channels (s.reports answer) d = {s.host.channels d with revents := revents} :=
    told_eq _ _
  constructor
  case pointers =>
    refine h.pointers.of_channels fun d hd => ?_
    obtain ⟨revents, heq⟩ := htold d
    rw [heq]
    exact ⟨rfl, hd, rfl⟩
  case added =>
    intro d hd
    obtain ⟨revents, heq⟩ := htold d
    exact h.added d ((congrArg Channel.addedToLoop heq).symm.trans hd)
  case rest =>
    intro d hd
    obtain ⟨revents, heq⟩ := htold d
    exact (congrArg Channel.addedToLoop heq).trans (reports_added h.pointers hd)
  case this => exact fun d hd => absurd hd (by simp [Pc.this])
  case nodup => exact reports_nodup h.pointers hanswer
  case split => exact ⟨[], rfl, fun d hd => absurd ((h.idle hpc).symm.trans hd) (by simp)⟩
  case busy => exact fun _ => rfl
  case idle => exact fun hpc => absurd hpc (by simp)
  case handled =>
    have hbatch := told_map s.host.channels (reports_nodup h.pointers hanswer)
    have hnone : s.due = [] := by simp [due, hpc, Pc.rest]
    have hnew : reported ((s.reports answer).map fun r => Event.reported r.1 r.2) = s.reports answer := by
      simp [reported, List.filterMap_map]
    have hsame : Dispatch.handled ((s.reports answer).map fun r => Event.reported r.1 r.2) = [] := by
      simp [Dispatch.handled, List.filterMap_map]
    rw [reported_append, handled_append, hnew, hsame, h.handled, hnone, List.append_nil]
    exact congrArg (Dispatch.handled obs ++ ·) hbatch.symm
  case called =>
    have howed : s.pc.owed = [] := by rw [hpc]; rfl
    have hsame : Dispatch.called ((s.reports answer).map fun r => Event.reported r.1 r.2) = [] := by
      simp [Dispatch.called, List.filterMap_map]
    have hnone : asked ((s.reports answer).map fun r => Event.reported r.1 r.2) = [] := by
      simp [asked, List.flatMap_map]
    rw [asked_append, called_append, hsame, hnone, h.called, howed]
    rfl

/-- The next channel gets its turn, and with the guard its callbacks are due. -/
theorem Inv.handleEvent (h : Inv obs s) {locked : Bool} (hs : s.step (.handleEvent locked) = some (s', o)) :
    Inv (obs ++ o) s' := by
  simp only [step] at hs
  split at hs
  case h_2 => cases hs
  case h_1 c rest hpc =>
    have hbusy := h.busy (by rw [hpc]; simp)
    obtain ⟨before, hsplit, _⟩ := h.split
    rw [hpc] at hsplit
    have hturn : ∃ before, s.activeChannels = before ++ rest ∧ ∀ d, some c = some d → d ∈ before :=
      ⟨before ++ [c], by simpa [Pc.rest] using hsplit, fun d hd => by simp [Option.some.inj hd]⟩
    have hrest := h.rest
    have hhandled := h.handled
    have hcalled := h.called
    simp only [hpc, Pc.rest, Pc.owed, due, List.mem_cons, forall_eq_or_imp, List.map_cons, List.append_nil] at hrest hhandled hcalled
    have hseen : ∀ guarded, reported (obs ++ [.handleEvent c (s.host.channels c).revents guarded]) =
        Dispatch.handled (obs ++ [.handleEvent c (s.host.channels c).revents guarded]) ++
          rest.map fun d => (d, (s.host.channels d).revents) := by
      intro guarded
      simpa [reported, Dispatch.handled] using hhandled
    split at hs
    case isTrue =>
      obtain ⟨rfl, rfl⟩ := Prod.mk.inj (Option.some.inj hs)
      refine ⟨h.pointers, h.added, hrest.2, fun d hd => ?_, h.nodup, hturn, fun _ => hbusy, fun hpc => ?_, hseen true, ?_⟩
      · obtain rfl : c = d := Option.some.inj hd
        exact ⟨h.added c hrest.1, Function.update_self ..⟩
      · cases hpc
      · simpa [asked, Dispatch.called, Pc.owed] using hcalled
    case isFalse =>
      obtain ⟨rfl, rfl⟩ := Prod.mk.inj (Option.some.inj hs)
      refine ⟨h.pointers, h.added, hrest.2, fun d hd => ?_, h.nodup, hturn, fun _ => hbusy, fun hpc => ?_, hseen false, ?_⟩
      · cases hd
      · cases hpc
      · simpa [asked, Dispatch.called, Pc.owed] using hcalled

omit [DecidableEq ι] in
/-- The loop's own steps inside `handleEvent` and behind it. -/
theorem Inv.going (h : Inv obs s) {pc : Pc ι} {channelHandling : ι → Bool} (hrest : pc.rest = s.pc.rest)
    (hthis : ∀ c, pc.this = some c → s.pc.this = some c ∧ channelHandling c = s.channelHandling c)
    (hpc : s.pc ≠ .elsewhere) (hpc' : pc ≠ .elsewhere) (hreported : reported o = []) (hhandled : Dispatch.handled o = [])
    (hcalled : asked o = []) (howed : s.pc.owed = Dispatch.called o ++ pc.owed) :
    Inv (obs ++ o) {s with pc := pc, channelHandling := channelHandling} where
  pointers := h.pointers
  added := h.added
  rest := hrest ▸ h.rest
  this := fun c hc => by
    obtain ⟨hsame, hhandling⟩ := hthis c hc
    exact ⟨(h.this c hsame).1, hhandling.trans (h.this c hsame).2⟩
  nodup := h.nodup
  split := hrest ▸ h.split
  busy := fun _ => h.busy hpc
  idle := fun helse => absurd helse hpc'
  handled := by
    have hdue : due {s with pc := pc, channelHandling := channelHandling} = s.due := by simp only [due, hrest]
    rw [hdue, reported_append, handled_append, hreported, hhandled, List.append_nil, List.append_nil]
    exact h.handled
  called := by
    rw [asked_append, called_append, hcalled, h.called, howed, List.append_nil, List.append_assoc]

/-- Every step keeps the invariant. -/
theorem Inv.step (h : Inv obs s) {a : Action ι} (he : Enabled s a) (hs : s.step a = some (s', o)) : Inv (obs ++ o) s' := by
  cases a with
  | poll answer => exact h.poll he.1 he.2 hs
  | handleEvent locked => exact h.handleEvent hs
  | construct c fd =>
    obtain ⟨rfl, rfl⟩ := Prod.mk.inj (Option.some.inj hs)
    rw [List.append_nil]
    exact h.construct he
  | tie c =>
    obtain ⟨rfl, rfl⟩ := Prod.mk.inj (Option.some.inj hs)
    rw [List.append_nil]
    exact h.tie
  | change k c =>
    obtain ⟨host, hhost, hs⟩ := Option.bind_eq_some_iff.mp hs
    obtain ⟨rfl, rfl⟩ := Prod.mk.inj (Option.some.inj hs)
    rw [List.append_nil]
    exact h.change he.1 hhost
  | remove c =>
    simp only [Dispatch.step, Channel.remove, Option.bind_eq_bind, Option.bind_assoc] at hs
    obtain ⟨-, hs⟩ := assert_bind_eq_some_iff.mp hs
    obtain ⟨hturn, hs⟩ := assert_bind_eq_some_iff.mp hs
    obtain ⟨host, hhost, hs⟩ := Option.bind_eq_some_iff.mp hs
    obtain ⟨rfl, rfl⟩ := Prod.mk.inj (Option.some.inj hs)
    rw [List.append_nil]
    exact h.remove hturn hhost
  | destroy c inLoopThread =>
    simp only [Dispatch.step, assert_bind_eq_some_iff] at hs
    obtain ⟨hhandling, hadded, -, hs⟩ := hs
    obtain ⟨rfl, rfl⟩ := Prod.mk.inj (Option.some.inj hs)
    rw [List.append_nil]
    exact h.destroy hhandling hadded
  | close n =>
    obtain ⟨rfl, rfl⟩ := Prod.mk.inj (Option.some.inj hs)
    rw [List.append_nil]
    exact h.moved (h.pointers.close n) h.added (fun c hc => ⟨h.rest c hc, rfl⟩) h.this
  | call =>
    obtain ⟨this, handler, todo, rest, hpc⟩ := he
    simp only [Dispatch.step, hpc] at hs
    obtain ⟨rfl, rfl⟩ := Prod.mk.inj (Option.some.inj hs)
    refine h.going (by rw [hpc]; rfl) (fun c hc => ⟨by rw [hpc]; exact hc, rfl⟩) (by simp [hpc]) (by simp) rfl rfl rfl ?_
    rw [hpc]
    rfl
  | returned =>
    obtain ⟨this, todo, rest, hpc⟩ := he
    simp only [Dispatch.step, hpc] at hs
    obtain ⟨rfl, rfl⟩ := Prod.mk.inj (Option.some.inj hs)
    refine h.going (by rw [hpc]; rfl) (fun c hc => ⟨by rw [hpc]; exact hc, rfl⟩) (by simp [hpc]) (by simp) rfl rfl rfl ?_
    rw [hpc]
    rfl
  | handled =>
    obtain ⟨this, rest, hpc⟩ := he
    simp only [Dispatch.step, hpc] at hs
    obtain ⟨rfl, rfl⟩ := Prod.mk.inj (Option.some.inj hs)
    refine h.going (by rw [hpc]; rfl) (fun c hc => absurd hc (by simp [Pc.this])) (by simp [hpc]) (by simp) rfl rfl rfl ?_
    rw [hpc]
    rfl
  | finish =>
    have hpc : s.pc = .dispatching [] := he
    simp only [Dispatch.step, hpc] at hs
    obtain ⟨rfl, rfl⟩ := Prod.mk.inj (Option.some.inj hs)
    obtain ⟨before, hsplit, -⟩ := h.split
    rw [List.append_nil]
    refine ⟨h.pointers, h.added, fun c hc => ?_, fun c hc => ?_, h.nodup, ⟨before, ?_, fun c hc => ?_⟩, fun hne => ?_,
      fun _ => rfl, ?_, ?_⟩
    · cases hc
    · cases hc
    · rw [hsplit, hpc]
      rfl
    · cases hc
    · exact absurd rfl hne
    · simpa [due, hpc, Pc.rest] using h.handled
    · simpa [hpc, Pc.owed] using h.called

end Steps

theorem inv_run {as : List (Action ι)} (h : machine.Run create as obs s) : Inv obs s :=
  h.invariant Inv inv_create fun _ _ _ _ _ hinv he hs => hinv.step he hs

/-! ### The events reach their channels -/

/-- The loop follows this pointer, now or later. -/
def Follows (s : Dispatch ι) (c : ι) : Prop :=
  c ∈ s.pc.rest ∨ s.pc.this = some c ∨ (∃ n, s.host.poller.channels.find? n = some c) ∨
    ∃ n events, s.host.poller.table.find? n = some (events, c)

/-- The steps that are the loop's own. -/
def Action.ofLoop : Action ι → Bool
  | .poll _ | .handleEvent _ | .call | .returned | .handled | .finish => true
  | .construct _ _ | .tie _ | .change _ _ | .remove _ | .destroy _ _ | .close _ => false

theorem Enabled.goes {a : Action ι} (he : Enabled s a) (ha : a.ofLoop = true) : (s.step a).isSome = true := by
  cases a with
  | construct | tie | change | remove | destroy | close => cases ha
  | poll answer =>
    obtain ⟨eventList, hpoll⟩ := poll_eq he.2
    simp [step, hpoll]
  | handleEvent locked =>
    obtain ⟨c, rest, hpc⟩ := he
    simp only [step, hpc]
    split <;> rfl
  | call =>
    obtain ⟨this, h, todo, rest, hpc⟩ := he
    simp [step, hpc]
  | returned =>
    obtain ⟨this, todo, rest, hpc⟩ := he
    simp [step, hpc]
  | handled =>
    obtain ⟨this, rest, hpc⟩ := he
    simp [step, hpc]
  | finish => simp [step, show s.pc = .dispatching [] from he]

end Chtho.Net.Dispatch
