import Chtho.Net.LifeCycle.View

/-! What holds of the connections of a running `TcpServer`.

Every connection is in a `Stage` of its life, which says which functor is due, what the
state and the events of interest are, whether the poller and `conns_` hold the connection
and what has been recorded of it. Between two stages the functor that takes the connection
on has been taken up and not run yet, and is said to be in hand. -/
namespace Chtho.Net.TcpServer
open Lib TcpConnection

variable {s s' t : TcpServer} {c d l : Nat} {f : Functor} {own : Bool}

/-! ### Stages -/

inductive Stage where
  /-- Not accepted yet. -/
  | fresh
  | connecting
  | live
  /-- Closed and still in `conns_`. -/
  | closing
  /-- Not destroyed yet. -/
  | removed
  | destroyed
deriving DecidableEq, Repr

namespace Stage

/-- Is it in the poller of its loop? -/
def registered : Stage → Bool
  | .live | .closing | .removed => true
  | .fresh | .connecting | .destroyed => false

/-- Is it in `conns_`? -/
def listed : Stage → Bool
  | .connecting | .live | .closing => true
  | .fresh | .removed | .destroyed => false

def established : Stage → Bool
  | .fresh | .connecting => false
  | .live | .closing | .removed | .destroyed => true

/-- The functor that takes connection `c` of loop `home` on. -/
def due (c home : Nat) : Stage → Option (Nat × Functor)
  | .connecting => some (home, .connEstablished c)
  | .closing => some (0, .rmConnInLoop c)
  | .removed => some (home, .connDestroyed c)
  | .fresh | .live | .destroyed => none

/-- What has been recorded of `c`, the callbacks of its channel aside. -/
def history (c : Nat) : Stage → List Event
  | .fresh => []
  | .connecting => [.accepted c]
  | .live => [.accepted c, .established c]
  | .closing => [.accepted c, .established c, .closeCB c]
  | .removed => [.accepted c, .established c, .closeCB c, .removed c]
  | .destroyed => [.accepted c, .established c, .closeCB c, .removed c, .destroyed c]

/-- What the connection itself is like. -/
def Fits (t : TcpConnection) : Stage → Prop
  | .fresh => True
  | .connecting => t.state = .connecting ∧ t.channel.isNoneEvent = true ∧ t.Backlog ∧ t.inputBuf.Inv
  | .live =>
    (t.state = .connected ∨ t.state = .disconnecting) ∧ t.channel.isReading = true ∧ t.Backlog ∧ t.inputBuf.Inv
  | .closing | .removed | .destroyed => t.state = .disconnected ∧ t.channel.isNoneEvent = true

theorem established_of_registered {g : Stage} (h : g.registered = true) : g.established = true := by
  cases g with
  | fresh | connecting | destroyed => cases h
  | live | closing | removed => rfl

theorem ne_fresh_of_listed {g : Stage} (h : g.listed = true) : g ≠ .fresh := by
  rintro rfl
  cases h

end Stage

/-! ### The invariant -/

/-- What has been recorded of `c`, in order, the callbacks of its channel aside. -/
def record (obs : List Event) (c : Nat) : List Event := obs.filter fun e => e.conn = c ∧ e.isHandler = false

/-- A view in stage `g`. The functor `r` has been taken up and not run yet. -/
structure Holds (cfg : Config) (c : Nat) (g : Stage) (r : Option (Nat × Functor)) (obs : List Event) (v : View) :
    Prop where
  fresh : g = .fresh ↔ ¬ v.accepted
  name : v.accepted → v.conn.name = cfg.connName c
  fits : g.Fits v.conn.tcp
  control : ∀ l f, f.conn = c → f.isControl = true → v.pending l f + inHand r l f = inHand (g.due c v.conn.loop) l f
  /-- The others are about an established connection, in its own loop. -/
  other : ∀ l f, f.conn = c → f.isControl = false → 0 < v.pending l f + inHand r l f →
    l = v.conn.loop ∧ g.established = true
  /-- From the base loop to itself the next step is run at once, but for the last. -/
  direct : v.conn.loop = 0 → g ≠ .removed → ∀ l f, f.conn = c → f.isControl = true → v.pending l f = 0
  registered : ∀ l, v.registered l ↔ l = v.conn.loop ∧ g.registered = true
  listed : ∀ name, v.listed name ↔ name = cfg.connName c ∧ g.listed = true
  history : record obs c = g.history c
  order : ∀ pre h post, obs = pre ++ .handler c h :: post → .established c ∈ pre

/-- How many of the callbacks may close the connection. -/
def closers (handlers : List Handler) : Nat := handlers.countP fun h => h = .close ∨ h = .read

/-- A channel runs at most one callback that may close the connection. -/
theorem closers_handlers {revents : Mask}
    (h : ¬ (revents &&& POLLHUP ≠ 0 ∧ revents &&& POLLIN = 0 ∧ revents &&& (POLLPRI ||| POLLRDHUP) ≠ 0)) :
    closers (Channel.handlers revents) ≤ 1 := by
  have hsplit : revents &&& (POLLIN ||| POLLPRI ||| POLLRDHUP) =
      (revents &&& POLLIN) ||| (revents &&& (POLLPRI ||| POLLRDHUP)) := by
    rw [BitVec.or_assoc]
    ext i hi
    simp [Bool.and_or_distrib_left]
  have hcount : closers (Channel.handlers revents) =
      (if revents &&& POLLHUP ≠ 0 ∧ revents &&& POLLIN = 0 then 1 else 0) +
        (if revents &&& (POLLIN ||| POLLPRI ||| POLLRDHUP) ≠ 0 then 1 else 0) := by
    have hone : ∀ p : Prop, ∀ [Decidable p], ∀ hd,
        closers (if p then [hd] else []) = if p then closers [hd] else 0 := by
      intro p _ hd
      split <;> rfl
    have happend : ∀ as bs, closers (as ++ bs) = closers as + closers bs := fun _ _ => List.countP_append
    rw [Channel.handlers, happend, happend, happend, hone, hone, hone, hone]
    simp [closers]
  rw [hcount, hsplit]
  by_cases hup : revents &&& POLLHUP ≠ 0 ∧ revents &&& POLLIN = 0
  · have hread : revents &&& (POLLPRI ||| POLLRDHUP) = 0 := by
      by_contra hne
      exact h ⟨hup.1, hup.2, hne⟩
    rw [if_pos hup, hup.2, hread]
    decide
  · rw [if_neg hup]
    split <;> decide

/-- The channels still to come are those of live connections, and each has at most one
callback to run that may close it; the current one has none left once it is closed. -/
structure HandlingOk (stage : Nat → Stage) (home : Nat → Nat) (l : Nat) (todo : List (Nat × Mask)) (cur : Option Nat)
    (handlers : List Handler) : Prop where
  coming : ∀ e ∈ todo, stage e.1 = .live ∧ home e.1 = l ∧ closers (Channel.handlers e.2) ≤ 1
  nodup : (todo.map Prod.fst).Nodup
  current : ∀ c, cur = some c → home c = l ∧ c ∉ todo.map Prod.fst ∧ (stage c).established = true ∧
    closers handlers ≤ 1 ∧ (stage c ≠ .live → closers handlers = 0)

structure LoopOk (stage : Nat → Stage) (home : Nat → Nat) (l : Nat) (x : Loop) : Prop where
  handling : ∀ active todo cur handlers, x.phase = .handling active todo cur handlers →
    HandlingOk stage home l todo cur handlers
  batch : x.phase ≠ .functors → x.queue.batch = []

structure Inv (cfg : Config) (stage : Nat → Stage) (r : Option (Nat × Functor)) (obs : List Event) (s : TcpServer) :
    Prop where
  holds : ∀ c, Holds cfg c (stage c) r obs (s.view c)
  loop : ∀ l, LoopOk stage (fun c => (s.conn c).loop) l (s.loops l)
  pos : 1 ≤ s.nxtConnID
  bound : s.nxtConnID ≤ 2 ^ 31

/-- No callback that may close `d` is still to be run. -/
def Phase.Left (d : Nat) : Phase → Prop
  | .handling _ todo cur handlers => d ∉ todo.map Prod.fst ∧ (cur = some d → closers handlers = 0)
  | .polling | .functors => True

variable {cfg : Config} {stage : Nat → Stage} {home home' : Nat → Nat} {r r' : Option (Nat × Functor)}
  {obs o : List Event} {g : Stage} {x : Loop} {v : View}

theorem Holds.accepted (h : Holds cfg c g r obs v) (hg : g ≠ .fresh) : v.accepted := not_imp_comm.mp h.fresh.mpr hg

/-- A connection may go on to another stage when no callback is left that counts on the old
one. -/
theorem LoopOk.advance (h : LoopOk stage home l x) (hhome : ∀ c, stage c ≠ .fresh → home' c = home c)
    (hest : (stage d).established = true → g.established = true)
    (hlive : stage d = .live → g = .live ∨ home d ≠ l ∨ x.phase.Left d) :
    LoopOk (Function.update stage d g) home' l x := by
  refine ⟨fun active todo cur handlers hphase => ?_, h.batch⟩
  obtain ⟨htodo, hnodup, hcur⟩ := h.handling active todo cur handlers hphase
  rw [hphase] at hlive
  refine ⟨fun e he => ?_, hnodup, fun c hc => ?_⟩
  · obtain ⟨hstage, hloop, hclosers⟩ := htodo e he
    refine ⟨?_, (hhome _ (by rw [hstage]; decide)).trans hloop, hclosers⟩
    by_cases hd : e.1 = d
    · rw [hd, Function.update_self]
      rcases hlive (hd ▸ hstage) with hg | hne | ⟨hleft, _⟩
      · exact hg
      · exact absurd (hd ▸ hloop) hne
      · exact absurd (hd ▸ List.mem_map_of_mem he) hleft
    · rw [Function.update_of_ne hd]
      exact hstage
  · obtain ⟨hloop, hnot, hestc, hle, hzero⟩ := hcur c hc
    have hfresh : stage c ≠ .fresh := by
      intro hf
      rw [hf] at hestc
      cases hestc
    refine ⟨(hhome c hfresh).trans hloop, hnot, ?_, hle, ?_⟩
    · by_cases hd : c = d
      · subst hd
        rw [Function.update_self]
        exact hest hestc
      · rw [Function.update_of_ne hd]
        exact hestc
    · by_cases hd : c = d
      · subst hd
        rw [Function.update_self]
        intro hg
        by_cases hs : stage c = .live
        · rcases hlive hs with hg' | hne | ⟨_, hleft⟩
          · exact absurd hg' hg
          · exact absurd hloop hne
          · exact hleft hc
        · exact hzero hs
      · rw [Function.update_of_ne hd]
        exact hzero

/-! ### One step of the invariant -/

/-- What has been recorded of another connection. -/
theorem record_append_of_ne (ho : ∀ e ∈ o, e.conn = d) (hc : c ≠ d) : record (obs ++ o) c = record obs c := by
  rw [record, record, List.filter_append, List.append_right_eq_self, List.filter_eq_nil_iff]
  intro e he
  simp [ho e he, Ne.symm hc]

theorem order_append (h : ∀ pre h post, obs = pre ++ .handler c h :: post → .established c ∈ pre)
    (ho : ∀ h, .handler c h ∈ o → .established c ∈ obs) :
    ∀ pre h post, obs ++ o = pre ++ .handler c h :: post → .established c ∈ pre := by
  intro pre hd post heq
  rcases List.append_eq_append_iff.mp heq with ⟨o₁, rfl, rfl⟩ | ⟨obs', rfl, hsplit⟩
  · exact List.mem_append_left _ (ho hd (by simp))
  · cases obs' with
    | nil =>
      have := ho hd (by rw [List.nil_append] at hsplit; simp [← hsplit])
      simpa using this
    | cons e obs' =>
      obtain ⟨rfl, rfl⟩ := List.cons.inj hsplit
      exact h pre hd obs' rfl

/-- The views of other connections keep what they have. -/
theorem Holds.frame (h : Holds cfg c g r obs v) (hr : ∀ l f, f.conn = c → inHand r' l f = inHand r l f)
    (ho : ∀ e ∈ o, e.conn = d) (hc : c ≠ d) : Holds cfg c g r' (obs ++ o) v := by
  refine ⟨h.fresh, h.name, h.fits, fun l f hf hctl => ?_, fun l f hf hctl => ?_, h.direct, h.registered, h.listed,
    (record_append_of_ne ho hc).trans h.history, order_append h.order fun hd hmem => ?_⟩
  · rw [hr l f hf]
    exact h.control l f hf hctl
  · rw [hr l f hf]
    exact h.other l f hf hctl
  · exact absurd (ho _ hmem) hc

/-- **One connection goes on.** -/
theorem Inv.advance (h : Inv cfg stage r obs s) (hframe : Frame d s s')
    (hr : ∀ l f, f.conn ≠ d → inHand r' l f = inHand r l f) (ho : ∀ e ∈ o, e.conn = d)
    (hd : Holds cfg d g r' (obs ++ o) (s'.view d)) (hhome : stage d ≠ .fresh → (s'.conn d).loop = (s.conn d).loop)
    (hest : (stage d).established = true → g.established = true)
    (hlive : stage d = .live → g = .live ∨ (s.loops (s.conn d).loop).phase.Left d)
    (hnxt : s.nxtConnID ≤ s'.nxtConnID) (hbound : s'.nxtConnID ≤ 2 ^ 31) :
    Inv cfg (Function.update stage d g) r' (obs ++ o) s' := by
  refine ⟨fun c => ?_, fun l => ?_, Nat.le_trans h.pos hnxt, hbound⟩
  · by_cases hc : c = d
    · subst hc
      rw [Function.update_self]
      exact hd
    · rw [Function.update_of_ne hc, hframe.view c hc]
      exact (h.holds c).frame (fun l f hf => hr l f (hf ▸ hc)) ho hc
  · have hok : LoopOk stage (fun c => (s.conn c).loop) l (s'.loops l) := by
      refine ⟨fun active todo cur handlers hphase => ?_, fun hne => ?_⟩
      · exact (h.loop l).handling active todo cur handlers ((hframe.phase l).symm.trans hphase)
      · rw [hframe.batch l]
        exact (h.loop l).batch (hframe.phase l ▸ hne)
    refine hok.advance (fun c hfresh => ?_) hest fun hs => ?_
    · by_cases hc : c = d
      · subst hc
        exact hhome hfresh
      · exact congrArg (fun v => v.conn.loop) (hframe.view c hc)
    · refine (hlive hs).imp_right fun hleft => ?_
      by_cases hl : (s.conn d).loop = l
      · subst hl
        right
        rw [hframe.phase]
        exact hleft
      · exact .inl hl

/-- **One connection changes within its stage.** -/
theorem Inv.keep (h : Inv cfg stage r obs s) (hframe : Frame d s s')
    (hd : Holds cfg d (stage d) r obs (s'.view d)) (hhome : (s'.conn d).loop = (s.conn d).loop)
    (hnxt : s'.nxtConnID = s.nxtConnID) : Inv cfg stage r obs s' := by
  have := h.advance (o := []) hframe (fun _ _ _ => rfl) nofun (by rwa [List.append_nil]) (fun _ => hhome) id
    (fun hs => .inl hs) (Nat.le_of_eq hnxt.symm) (hnxt ▸ h.bound)
  rwa [Function.update_eq_self, List.append_nil] at this

/-- A functor that takes no connection on may be dropped. -/
theorem Inv.drop (h : Inv cfg stage (some (l, f)) obs s) (hf : f.isControl = false) : Inv cfg stage none obs s := by
  refine ⟨fun c => ?_, h.loop, h.pos, h.bound⟩
  have hc := h.holds c
  refine {hc with control := fun l' f' hf' hctl => ?_, other := fun l' f' hf' hctl hpos => ?_}
  · have := hc.control l' f' hf' hctl
    rwa [inHand_of_isControl_ne (by rw [hf, hctl]; decide)] at this
  · exact hc.other l' f' hf' hctl (Nat.lt_of_lt_of_le hpos (Nat.add_le_add_left (Nat.zero_le _) _))

/-- And it may be taken up for an established connection in its own loop. -/
theorem Inv.take (h : Inv cfg stage none obs s) (hf : f.isControl = false)
    (hest : (stage f.conn).established = true) : Inv cfg stage (some ((s.conn f.conn).loop, f)) obs s := by
  refine ⟨fun c => ?_, h.loop, h.pos, h.bound⟩
  have hc := h.holds c
  refine {hc with control := fun l' f' hf' hctl => ?_, other := fun l' f' hf' hctl hpos => ?_}
  · rw [inHand_of_isControl_ne (by rw [hf, hctl]; decide)]
    exact hc.control l' f' hf' hctl
  · by_cases heq : some ((s.conn f.conn).loop, f) = some (l', f')
    · obtain ⟨rfl, rfl⟩ := Prod.mk.inj (Option.some.inj heq)
      subst hf'
      exact ⟨rfl, hest⟩
    · rw [inHand, if_neg heq] at hpos
      exact hc.other l' f' hf' hctl hpos

/-- **The functor in hand is queued.** -/
theorem Inv.post (h : Inv cfg stage (some (l, f)) obs s) (own : Bool)
    (hdirect : f.isControl = true → (s.conn f.conn).loop = 0 → stage f.conn = .removed) :
    Inv cfg stage none obs (s.queueInLoop own l f) := by
  have hc := h.holds f.conn
  have hr : ∀ l' f', f'.conn ≠ f.conn → inHand none l' f' = inHand (some (l, f)) l' f' := by
    intro l' f' hne
    rw [inHand_of_conn_ne (Ne.symm hne), inHand_none]
  have := h.advance (o := []) (g := stage f.conn) (frame_queueInLoop s own l f) hr nofun ?_ (fun _ => by simp) id
    (fun hs => .inl hs) (by simp) (by simpa using h.bound)
  · rwa [Function.update_eq_self, List.append_nil] at this
  rw [List.append_nil, view_queueInLoop_self]
  refine {hc with control := ?_, other := ?_, direct := fun hloop hstage l' f' hf' hctl => ?_}
  · exact hc.control
  · exact hc.other
  · show (s.view f.conn).pending l' f' + inHand (some (l, f)) l' f' = 0
    have hne : f.isControl ≠ f'.isControl := by
      rw [hctl]
      intro hf
      exact hstage (hdirect hf hloop)
    rw [hc.direct hloop hstage l' f' hf' hctl, inHand_of_isControl_ne hne]

/-- **The connection itself changes** within its stage. -/
theorem Inv.setTcp (h : Inv cfg stage r obs s) {tcp : TcpConnection} (hfits : (stage c).Fits tcp) :
    Inv cfg stage r obs (s.setTcp c tcp) := by
  refine h.keep (frame_setTcp s c tcp) ?_ ?_ rfl
  · rw [view_setTcp_self]
    exact {h.holds c with fits := hfits}
  · exact congrArg (fun v => v.conn.loop) (view_setTcp_self tcp)

/-! ### Loop threads -/

theorem Inv.setLoop (h : Inv cfg stage r obs s) (hqueue : x.queue.waiting = (s.loops l).queue.waiting)
    (hchannels : x.channels = (s.loops l).channels) (hok : LoopOk stage (fun c => (s.conn c).loop) l x) :
    Inv cfg stage r obs (s.setLoop l x) := by
  refine ⟨fun c => ?_, fun l' => ?_, h.pos, h.bound⟩
  · rw [view_setLoop hqueue hchannels]
    exact h.holds c
  · rw [loops_setLoop]
    split
    case isTrue heq => exact heq ▸ hok
    case isFalse => exact h.loop l'

/-- **A functor is taken** from where it was pending. -/
theorem Inv.takeUp (h : Inv cfg stage none obs s)
    (hpending : ∀ l' f', s'.pending l' f' + inHand (some (l, f)) l' f' = s.pending l' f') (hconn : s'.conn = s.conn)
    (hconns : s'.conns = s.conns) (hnxt : s'.nxtConnID = s.nxtConnID)
    (hchannels : ∀ l', (s'.loops l').channels = (s.loops l').channels)
    (hok : ∀ l', LoopOk stage (fun c => (s.conn c).loop) l' (s'.loops l')) :
    Inv cfg stage (some (l, f)) obs s' := by
  refine ⟨fun c => ?_, fun l' => hconn ▸ hok l', hnxt ▸ h.pos, hnxt ▸ h.bound⟩
  have hview : s'.view c = {s.view c with pending := fun l' f' => if f'.conn = c then s'.pending l' f' else 0} := by
    simp only [view, accepted, hconn, hconns, hnxt, hchannels]
  have hold : ∀ l' f', f'.conn = c →
      (s'.view c).pending l' f' + inHand (some (l, f)) l' f' = (s.view c).pending l' f' := by
    intro l' f' hf
    simpa only [view, if_pos hf] using hpending l' f'
  rw [hview] at hold ⊢
  refine {h.holds c with
    control := fun l' f' hf hctl => ?_, other := fun l' f' hf hctl hpos => ?_,
    direct := fun hloop hstage l' f' hf hctl => ?_}
  · rw [hold l' f' hf]
    exact (h.holds c).control l' f' hf hctl
  · rw [hold l' f' hf] at hpos
    exact (h.holds c).other l' f' hf hctl hpos
  · have hzero := (h.holds c).direct hloop hstage l' f' hf hctl
    rw [← hold l' f' hf] at hzero
    exact (Nat.add_eq_zero_iff.mp hzero).1

/-- What is pending about a connection of the base loop, from the base loop to itself. -/
theorem Inv.direct_of_pending (h : Inv cfg stage none obs s) (hpos : 0 < s.pending l f) :
    f.isControl = true → (s.conn f.conn).loop = 0 → stage f.conn = .removed := by
  intro hctl hloop
  by_contra hne
  have hzero : (s.view f.conn).pending l f = 0 := (h.holds f.conn).direct hloop hne l f rfl hctl
  rw [show (s.view f.conn).pending l f = s.pending l f from if_pos rfl] at hzero
  omega

end Chtho.Net.TcpServer
