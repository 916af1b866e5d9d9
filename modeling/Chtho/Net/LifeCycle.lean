import Chtho.Net.LifeCycle.Server

/-! The life cycle of the connections of a `TcpServer`.

A connection is accepted by the base loop, established by its own, closed there once,
removed from `conns_` by the base loop and destroyed by its own again. A peer that
closes, a hang-up and a `forceClose` from any thread may all begin the closing. What is
left for this file are the steps of the loop threads and the runs. -/
namespace Chtho.Net.TcpServer
open Lib TcpConnection

variable {s : TcpServer} {c l : Nat} {f : Functor} {cfg : Config} {stage : Nat → Stage}
  {r : Option (Nat × Functor)} {obs : List Event} {g : Stage}

/-! ### The steps of the loops -/

/-- **A functor reaches the queue.** -/
theorem Inv.deliver (h : Inv cfg stage none obs s) (hmem : (l, f) ∈ s.inflight) :
    Inv cfg stage none obs (TcpServer.post {s with inflight := s.inflight.erase (l, f)} l f) := by
  have hcount : 0 < s.inflight.count (l, f) := List.count_pos_iff.mpr hmem
  have htaken : Inv cfg stage (some (l, f)) obs {s with inflight := s.inflight.erase (l, f)} := by
    refine h.takeUp (fun l' f' => ?_) rfl rfl rfl (fun _ => rfl) h.loop
    show (s.inflight.erase (l, f)).count (l', f') + (s.loops l').queue.waiting.count f' + inHand _ _ _ = _
    unfold pending
    rw [List.count_erase, inHand]
    by_cases heq : (l, f) = (l', f')
    · rw [if_pos (congrArg some heq), ← heq, beq_self_eq_true, if_pos rfl]
      obtain ⟨rfl, rfl⟩ := Prod.mk.inj heq
      omega
    · rw [if_neg fun hs => heq (Option.some.inj hs), if_neg (by simpa using heq)]
      rfl
  refine htaken.post true (h.direct_of_pending (l := l) ?_)
  exact Nat.lt_of_lt_of_le hcount (Nat.le_add_right _ _)

theorem Phase.eq_of_between {p : Phase} {more : Bool} (h : p.between more = true) :
    ∃ active todo cur, p = .handling active todo cur [] ∧ (todo ≠ [] ↔ more = true) := by
  unfold Phase.between at h
  split at h
  case h_1 active todo cur =>
    refine ⟨active, todo, cur, rfl, ?_⟩
    cases todo <;> cases more <;> simp at h ⊢
  case h_2 => cases h

theorem Phase.eq_of_current {p : Phase} {e : Nat × Handler} (h : e ∈ p.current) :
    ∃ active todo handlers, p = .handling active todo (some e.1) (e.2 :: handlers) := by
  unfold Phase.current at h
  split at h
  case h_1 active todo c hd handlers =>
    obtain rfl := Option.some.inj h
    exact ⟨active, todo, handlers, rfl⟩
  case h_2 => cases h

/-- A loop thread moves on among the active channels. -/
theorem Inv.setPhase (h : Inv cfg stage r obs s) {active : List Nat} {todo : List (Nat × Mask)} {cur : Option Nat}
    {handlers : List Handler} (hphase : (s.loops l).phase ≠ .functors)
    (hok : HandlingOk stage (fun c => (s.conn c).loop) l todo cur handlers) :
    Inv cfg stage r obs (s.setPhase l (.handling active todo cur handlers)) := by
  refine h.setLoop rfl rfl ⟨fun _ _ _ _ heq => ?_, fun _ => (h.loop l).batch hphase⟩
  obtain ⟨_, rfl, rfl, rfl⟩ := Phase.handling.inj heq
  exact hok

theorem Inv.poll (h : Inv cfg stage none obs s) {active : List (Nat × Mask)} (hphase : (s.loops l).phase = .polling)
    (hnodup : (active.map Prod.fst).Nodup) (hreported : ∀ e ∈ active, s.Reported l e) :
    Inv cfg stage none obs (s.setPhase l (.handling (active.map Prod.fst) active none [])) := by
  refine h.setPhase (by simp [hphase]) ⟨fun e he => ?_, hnodup, nofun⟩
  obtain ⟨hmem, hevents, hmask⟩ := hreported e he
  obtain ⟨hloop, hreg⟩ := ((h.holds e.1).registered l).mp hmem
  refine ⟨?_, hloop.symm, closers_handlers hmask⟩
  -- a channel that asks for events is a live connection's
  rcases Stage.fits_of_established (Stage.established_of_registered hreg) (h.holds e.1).fits with ⟨hg, _⟩ | ⟨_, hnone⟩
  · exact hg
  · cases hevents.symm.trans hnone

theorem Inv.nextChannel (h : Inv cfg stage none obs s) {active : List Nat} {c : Nat} {revents : Mask}
    {todo : List (Nat × Mask)} {cur : Option Nat} {handlers : List Handler}
    (hphase : (s.loops l).phase = .handling active ((c, revents) :: todo) cur handlers) :
    Inv cfg stage none obs (s.setPhase l (.handling active todo (some c) (Channel.handlers revents))) := by
  obtain ⟨hcoming, hnodup, _⟩ := (h.loop l).handling _ _ _ _ hphase
  rw [List.map_cons, List.nodup_cons] at hnodup
  obtain ⟨hlive, hloop, hclosers⟩ := hcoming (c, revents) List.mem_cons_self
  refine h.setPhase (by simp [hphase])
    ⟨fun e he => hcoming e (List.mem_cons_of_mem _ he), hnodup.2, fun d hd => ?_⟩
  obtain rfl := Option.some.inj hd
  exact ⟨hloop, hnodup.1, by rw [hlive]; rfl, hclosers, absurd hlive⟩

theorem Inv.otherChannel (h : Inv cfg stage none obs s) {active : List Nat} {todo : List (Nat × Mask)}
    {cur : Option Nat} {handlers : List Handler} (hphase : (s.loops l).phase = .handling active todo cur handlers) :
    Inv cfg stage none obs (s.setPhase l (.handling active todo none [])) := by
  obtain ⟨hcoming, hnodup, _⟩ := (h.loop l).handling _ _ _ _ hphase
  exact h.setPhase (by simp [hphase]) ⟨hcoming, hnodup, nofun⟩

/-- The next functor of the batch is taken up. -/
theorem Inv.nextFunctor (h : Inv cfg stage none obs s) (hphase : (s.loops l).phase = .functors)
    {queue : Mailbox Functor} (hnext : (s.loops l).queue.next = some (f, queue)) :
    Inv cfg stage (some (l, f)) obs (s.setLoop l {s.loops l with queue := queue}) := by
  have hwaiting := Mailbox.waiting_next hnext
  refine h.takeUp (fun l' f' => ?_) rfl rfl rfl (fun l' => ?_) fun l' => ?_
  · show s.inflight.count (l', f') + ((s.setLoop l _).loops l').queue.waiting.count f' + _ =
      s.inflight.count (l', f') + _
    rw [loops_setLoop, Nat.add_assoc]
    congr 1
    by_cases hl : l' = l
    · subst hl
      rw [if_pos rfl, hwaiting, List.count_cons, inHand]
      simp
    · rw [if_neg hl, inHand, if_neg fun heq => hl (congrArg Prod.fst (Option.some.inj heq)).symm]
      rfl
  · rw [loops_setLoop]
    split
    case isTrue heq => rw [heq]
    case isFalse => rfl
  · rw [loops_setLoop]
    split
    case isTrue heq =>
      have hne : ¬ (s.loops l).phase ≠ .functors := not_not_intro hphase
      exact ⟨fun _ _ _ _ hh => (by cases hphase.symm.trans hh), fun hne' => absurd hne' hne⟩
    case isFalse => exact h.loop l'

theorem Stage.established_mem_history (h : g.established = true) : .established c ∈ g.history c := by
  cases g with
  | fresh | connecting => cases h
  | live | closing | removed | destroyed => simp [Stage.history]

/-- A callback of an established connection is recorded. -/
theorem Inv.handler (h : Inv cfg stage r obs s) (hest : (stage c).established = true) (hd : Handler) :
    Inv cfg stage r (obs ++ [.handler c hd]) s := by
  refine ⟨fun d => {h.holds d with history := ?_, order := ?_}, h.loop, h.pos, h.bound⟩
  · rw [← (h.holds d).history, record, List.filter_append]
    simp [record, Event.isHandler]
  · refine order_append (h.holds d).order fun hd' hmem => ?_
    obtain ⟨rfl, _⟩ := Event.handler.inj (List.mem_singleton.mp hmem)
    have hin := Stage.established_mem_history (c := d) hest
    rw [← (h.holds d).history] at hin
    exact List.mem_of_mem_filter hin

/-- **A callback of the current channel.** -/
theorem Inv.handle (h : Inv cfg stage none obs s) {active : List Nat} {todo : List (Nat × Mask)} {hd : Handler}
    {handlers : List Handler} (hphase : (s.loops l).phase = .handling active todo (some c) (hd :: handlers))
    (rd : Readv) {w : Write} (hw : w.Within (s.conn c).tcp.outputBuf.readableBytes) :
    Keeps cfg (obs ++ [.handler c hd])
      ((s.setPhase l (.handling active todo (some c) handlers)).handleEvent c rd w hd) := by
  obtain ⟨hcoming, hnodup, hcurrent⟩ := (h.loop l).handling _ _ _ _ hphase
  obtain ⟨hloop, hnot, hest, hle, hzero⟩ := hcurrent c rfl
  have hcons : closers (hd :: handlers) = closers handlers + closers [hd] := by
    rw [closers, List.countP_cons]
    simp [closers]
  have hinv : Inv cfg stage none obs (s.setPhase l (.handling active todo (some c) handlers)) := by
    refine h.setPhase (by simp [hphase]) ⟨hcoming, hnodup, fun d heq => ?_⟩
    obtain rfl := Option.some.inj heq
    refine ⟨hloop, hnot, hest, by omega, fun hne => ?_⟩
    have := hzero hne
    omega
  -- a callback that may close finds the connection live, and is the last that may
  have hclose : closers [hd] = 1 → stage c = .live ∧
      ((s.setPhase l (.handling active todo (some c) handlers)).loops (s.conn c).loop).phase.Left c := by
    intro hone
    refine ⟨by_contra fun hne => ?_, ?_⟩
    · have := hzero hne
      omega
    · rw [TcpServer.setPhase, loops_setLoop, if_pos hloop]
      exact ⟨hnot, fun _ => by omega⟩
  have hinv' := hinv.handler hest hd
  have hfits : (stage c).Fits (s.conn c).tcp := (h.holds c).fits
  cases hd with
  | close =>
    obtain ⟨hlive, hleft⟩ := hclose rfl
    exact hinv'.handleClose hlive hleft (hlive ▸ hfits)
  | error => exact hinv'.keeps
  | read =>
    obtain ⟨hlive, hleft⟩ := hclose rfl
    exact hinv'.handleRead hlive hleft rd
  | write => exact hinv'.stays hest (Stage.stays_handleWrite hest hfits hw)

/-- **A step never fails an assertion and keeps the invariant.** -/
theorem Inv.step (h : Inv cfg stage none obs s) {a : Action} (he : s.Enabled a) : Keeps cfg obs (s.step cfg a) := by
  cases a with
  | accept sockfd hwm => exact h.newConn he.1 sockfd hwm
  | deliver l f => exact (h.deliver he).keeps
  | poll l active => exact (h.poll he.1 he.2.1 he.2.2).keeps
  | next l =>
    obtain ⟨active, todo, cur, hphase, hmore⟩ := Phase.eq_of_between he
    obtain ⟨e, todo', rfl⟩ := List.exists_cons_of_ne_nil (hmore.mpr rfl)
    simpa only [TcpServer.step, hphase] using (h.nextChannel hphase).keeps
  | other l =>
    obtain ⟨more, hmore⟩ : ∃ more, (s.loops l).phase.between more = true := he.elim (⟨_, ·⟩) (⟨_, ·⟩)
    obtain ⟨active, todo, cur, hphase, _⟩ := Phase.eq_of_between hmore
    simpa only [TcpServer.step, hphase] using (h.otherChannel hphase).keeps
  | handle l rd w =>
    obtain ⟨⟨c, hd⟩, hcur, hw⟩ := he
    obtain ⟨active, todo, handlers, hphase⟩ := Phase.eq_of_current hcur
    simpa only [TcpServer.step, hphase] using (h.handle hphase rd hw).cons
  | doPendingFuncs l =>
    obtain ⟨active, todo, cur, hphase, _⟩ := Phase.eq_of_between he
    have hbatch := (h.loop l).batch (by simp [hphase])
    exact (h.setLoop (x := {s.loops l with queue := (s.loops l).queue.swap, phase := .functors})
      (Mailbox.waiting_swap hbatch) rfl ⟨nofun, fun hne => (hne rfl).elim⟩).keeps
  | func l data w =>
    obtain ⟨hphase, hbatch, hw⟩ := he
    obtain ⟨f, rest, hbatch⟩ := List.exists_cons_of_ne_nil hbatch
    have hnext : (s.loops l).queue.next = some (f, {(s.loops l).queue with batch := rest}) :=
      Mailbox.next_of_batch hbatch
    have hinv := h.nextFunctor hphase hnext
    have hphase' : ((s.setLoop l {s.loops l with queue := {(s.loops l).queue with batch := rest}}).loops l).phase =
        .functors := by
      rw [loops_setLoop, if_pos rfl]
      exact hphase
    simpa only [TcpServer.step, hnext, Option.bind_eq_bind, Option.bind_some] using hinv.run hphase' hw
  | finish l =>
    exact (h.setLoop (x := {s.loops l with phase := .polling}) rfl rfl ⟨nofun, fun _ => he.2⟩).keeps
  | shutdown own c => exact h.shutdown own he.1
  | forceClose own c => exact h.forceClose own he.1
  | send own c data w => exact h.send own he.1.1 he.2

theorem inv_start (cfg : Config) : Inv cfg (fun _ => .fresh) none [] start := by
  refine ⟨fun c => ?_, fun l => ⟨nofun, fun _ => rfl⟩, Nat.le_refl _, by decide⟩
  have hfresh : ¬ (start.view c).accepted := fun hacc => Nat.not_lt.mpr hacc.1 hacc.2
  have hnone : ∀ l f, (start.view c).pending l f = 0 := by
    intro l f
    show (if f.conn = c then 0 else 0) = 0
    split <;> rfl
  refine ⟨iff_of_true rfl hfresh, fun hacc => absurd hacc hfresh, trivial, fun l f _ _ => hnone l f,
    fun l f _ _ hpos => absurd (hnone l f) (Nat.ne_of_gt hpos), fun _ _ l f _ _ => hnone l f, fun l => ?_,
    fun name => ?_, rfl, by simp⟩
  · exact iff_of_false (List.not_mem_nil) (by simp [Stage.registered])
  · exact iff_of_false (by simp [view, start]) (by simp [Stage.listed])

theorem inv_of_run {as : List Action} (h : (machine cfg).Run start as obs s) : ∃ stage, Inv cfg stage none obs s := by
  refine h.invariant (fun obs s => ∃ stage, Inv cfg stage none obs s) ⟨_, inv_start cfg⟩ ?_
  rintro obs s a s' o ⟨stage, hinv⟩ he hs
  obtain ⟨s'', o', stage', hs', hinv'⟩ := hinv.step he
  obtain ⟨rfl, rfl⟩ := Prod.mk.inj (Option.some.inj (hs'.symm.trans hs))
  exact ⟨stage', hinv'⟩

/-! ### The life cycle -/

theorem Stage.nodup_history (g : Stage) (c : Nat) : (g.history c).Nodup := by
  cases g <;> simp [Stage.history]

theorem mem_record {e : Event} (hc : e.conn = c) (he : e.isHandler = false) : e ∈ record obs c ↔ e ∈ obs := by
  simp [record, hc, he]

/-- No step in the life of a connection is taken twice. -/
theorem Inv.count_le_one (h : Inv cfg stage r obs s) {e : Event} (he : e.isHandler = false) : obs.count e ≤ 1 := by
  have hcount : (record obs e.conn).count e = obs.count e := List.count_filter (by simp [he])
  rw [← hcount, (h.holds e.conn).history]
  exact List.nodup_iff_count.mp (Stage.nodup_history _ _) e

theorem Inv.destroyed (h : Inv cfg stage r obs s) (hmem : .destroyed c ∈ obs) :
    (s.conn c).tcp.state = .disconnected ∧ ∀ l, c ∉ (s.loops l).channels := by
  rw [← mem_record (c := c) rfl rfl, (h.holds c).history] at hmem
  have hg : stage c = .destroyed := by
    cases hs : stage c <;> simp [hs, Stage.history] at hmem ⊢
  have hfits : (stage c).Fits (s.conn c).tcp := (h.holds c).fits
  rw [hg] at hfits
  refine ⟨hfits.1, fun l hin => ?_⟩
  have hreg := (((h.holds c).registered l).mp hin).2
  rw [hg] at hreg
  cases hreg

theorem Inv.conns (h : Inv cfg stage r obs s) (name : Bytes) :
    s.conns.find? name = some c ↔ name = cfg.connName c ∧ .accepted c ∈ obs ∧ .removed c ∉ obs := by
  rw [← mem_record (e := .accepted c) (c := c) rfl rfl, ← mem_record (e := .removed c) (c := c) rfl rfl,
    (h.holds c).history]
  refine ((h.holds c).listed name).trans (and_congr_right fun _ => ?_)
  cases stage c <;> simp [Stage.listed, Stage.history]

/-- **The life cycle of a connection.** In every run of the server, a connection is
established at most once and before any callback of its channel, closed at most once
and destroyed at most once; no step fails an assertion; a connection destroyed is
disconnected and in no poller; and `conns_` holds exactly the connections accepted and
not yet removed, by their names. -/
theorem life_cycle {as : List Action} (h : (machine cfg).Run start as obs s) :
    (∀ c, obs.count (.established c) ≤ 1 ∧ obs.count (.closeCB c) ≤ 1 ∧ obs.count (.destroyed c) ≤ 1) ∧
      (∀ c pre hd post, obs = pre ++ .handler c hd :: post → .established c ∈ pre) ∧
      (∀ a, (machine cfg).enabled s a → ((machine cfg).step s a).isSome = true) ∧
      (∀ c, .destroyed c ∈ obs → (s.conn c).tcp.state = .disconnected ∧ ∀ l, c ∉ (s.loops l).channels) ∧
      (∀ name c, s.conns.find? name = some c ↔ name = cfg.connName c ∧ .accepted c ∈ obs ∧ .removed c ∉ obs) := by
  obtain ⟨stage, hinv⟩ := inv_of_run h
  refine ⟨fun c => ⟨hinv.count_le_one rfl, hinv.count_le_one rfl, hinv.count_le_one rfl⟩,
    fun c pre hd post hobs => (hinv.holds c).order pre hd post hobs, fun a he => ?_, fun c => hinv.destroyed,
    fun name c => hinv.conns name⟩
  obtain ⟨s', o, _, hs', _⟩ := hinv.step he
  exact Option.isSome_iff_exists.mpr ⟨_, hs'⟩

/-- A server with one io loop. -/
def oneThread : Config := ⟨ascii "echo", ascii "0.0.0.0:2007", 1, false, by decide⟩

/-- The peer closes while another thread is in `forceClose`. -/
def closedTwice : List Action :=
  [.poll 0 [], .accept 5 false, .deliver 1 (.connEstablished 1), .poll 1 [], .doPendingFuncs 1,
    .func 1 [] (.wrote 0), .finish 1, .forceClose false 1, .poll 1 [(1, POLLIN)], .next 1,
    .handle 1 (.data []) (.wrote 0), .deliver 0 (.rmConnInLoop 1), .doPendingFuncs 0, .func 0 [] (.wrote 0),
    .deliver 1 (.forceCloseInLoop 1), .deliver 1 (.connDestroyed 1), .doPendingFuncs 1, .func 1 [] (.wrote 0),
    .func 1 [] (.wrote 0)]

theorem life_cycle_closedTwice :
    ∃ obs s, (machine oneThread).Run start closedTwice obs s ∧ .destroyed 1 ∈ obs ∧ obs.count (.closeCB 1) ≤ 1 ∧
      (s.conn 1).tcp.state = .disconnected ∧ 1 ∉ (s.loops 1).channels ∧
      s.conns.find? (oneThread.connName 1) ≠ some 1 := by
  obtain ⟨obs, s, hrun, rfl⟩ : ∃ obs s, (machine oneThread).Run start closedTwice obs s ∧
      obs = [.accepted 1, .established 1, .handler 1 .read, .closeCB 1, .removed 1, .destroyed 1] :=
    Machine.Run.exists_of_trace (by decide +kernel)
  obtain ⟨hcount, _, _, hdestroyed, hconns⟩ := life_cycle hrun
  obtain ⟨hstate, hchannels⟩ := hdestroyed 1 (by decide)
  refine ⟨_, s, hrun, by decide, (hcount 1).2.1, hstate, hchannels 1, fun hfind => ?_⟩
  exact ((hconns _ _).mp hfind).2.2 (by decide)

end Chtho.Net.TcpServer
