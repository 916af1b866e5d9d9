import Chtho.Net.LifeCycle.Invariant

/-! What the functions of a connection do to the invariant: those that take it to the next
stage of its life, and those that leave it in its stage. -/
namespace Chtho.Net.TcpServer
open Lib TcpConnection

variable {s s' t : TcpServer} {c d l : Nat} {f : Functor} {own : Bool}
variable {cfg : Config} {stage : Nat → Stage} {r : Option (Nat × Functor)}
  {obs o : List Event} {g : Stage} {v : View}

theorem setLoop_self (s : TcpServer) (l : Nat) : s.setLoop l (s.loops l) = s := by
  rw [setLoop, Function.update_eq_self]

/-- A channel that the poller holds is not added again. -/
theorem updateChannel_of_mem (h : c ∈ (s.loops l).channels) : s.updateChannel l c = s := by
  rw [updateChannel, setChannels, if_pos h]
  exact setLoop_self s l

/-- Effects that neither close the connection nor take it out of the poller. -/
def isQuiet : Effect → Bool
  | .closeCB | .removeChannel => false
  | .write _ _ | .queueInLoop _ | .updateChannel | .shutdownWrite | .connCB | .msgCB => true

theorem Inv.performAll (h : Inv cfg stage none obs s) (hest : (stage c).established = true) {es : List Effect}
    (hquiet : ∀ e ∈ es, isQuiet e = true) (hupdate : .updateChannel ∈ es → (stage c).registered = true) :
    ∃ s', s.performAll c es = some (s', []) ∧ Inv cfg stage none obs s' := by
  induction es generalizing s with
  | nil => exact ⟨s, rfl, h⟩
  | cons e es ih =>
    have hone : ∃ s', s.perform c e = some (s', []) ∧ Inv cfg stage none obs s' := by
      cases e with
      | closeCB | removeChannel => cases hquiet _ List.mem_cons_self
      | write | shutdownWrite | connCB | msgCB => exact ⟨s, rfl, h⟩
      | updateChannel =>
        refine ⟨s, ?_, h⟩
        have hmem : (s.view c).registered (s.conn c).loop :=
          ((h.holds c).registered _).mpr ⟨rfl, hupdate List.mem_cons_self⟩
        rw [perform, updateChannel_of_mem hmem]
      | queueInLoop cb => exact ⟨_, rfl, (h.take (f := .callback c cb) rfl hest).post true nofun⟩
    obtain ⟨s₁, h₁, hinv₁⟩ := hone
    obtain ⟨s₂, h₂, hinv₂⟩ := ih hinv₁ (fun e he => hquiet e (List.mem_cons_of_mem _ he))
      fun hmem => hupdate (List.mem_cons_of_mem _ hmem)
    refine ⟨s₂, ?_, hinv₂⟩
    simp [TcpServer.performAll, h₁, h₂]

/-! ### Steps from stage to stage -/

/-- The step succeeds and keeps the invariant. -/
def Keeps (cfg : Config) (obs : List Event) (x : Option (TcpServer × List Event)) : Prop :=
  ∃ s' o stage', x = some (s', o) ∧ Inv cfg stage' none (obs ++ o) s'

theorem Inv.keeps (h : Inv cfg stage none obs s) : Keeps cfg obs (some (s, [])) :=
  ⟨s, [], stage, rfl, by rwa [List.append_nil]⟩

/-- What is recorded before a step. -/
theorem Keeps.cons {e : Event} {y : Option (TcpServer × List Event)} (h : Keeps cfg (obs ++ [e]) y) :
    Keeps cfg obs (y >>= fun (s, o) => some (s, e :: o)) := by
  obtain ⟨s', o, stage', hx, hinv⟩ := h
  refine ⟨s', e :: o, stage', by rw [hx]; rfl, ?_⟩
  rwa [List.append_assoc, List.singleton_append] at hinv

theorem record_concat {e : Event} (hc : e.conn = c) (he : e.isHandler = false) :
    record (obs ++ [e]) c = record obs c ++ [e] := by
  simp [record, hc, he]

theorem Inv.runInLoop (h : Inv cfg stage (some (l, f)) obs s) (own : Bool)
    (run : TcpServer → Option (TcpServer × List Event))
    (hqueue : own = false → f.isControl = true → (s.conn f.conn).loop ≠ 0) (hrun : own = true → Keeps cfg obs (run s)) :
    Keeps cfg obs (s.runInLoop own l f run) := by
  unfold TcpServer.runInLoop
  cases own with
  | true => exact hrun rfl
  | false => exact (h.post false fun hf hloop => absurd hloop (hqueue rfl hf)).keeps

theorem Stage.isControl_of_due {home : Nat} (h : g.due c home = some (l, f)) : f.isControl = true ∧ f.conn = c := by
  cases g with
  | fresh | live | destroyed => cases h
  | connecting | closing | removed =>
    obtain ⟨_, rfl⟩ := Prod.mk.inj (Option.some.inj h)
    exact ⟨rfl, rfl⟩

theorem Stage.inHand_due {home : Nat} (h : f.isControl = false ∨ f.conn ≠ c) : inHand (g.due c home) l f = 0 := by
  refine if_neg fun heq => ?_
  obtain ⟨hctl, hconn⟩ := Stage.isControl_of_due heq
  rcases h with h | h
  · rw [hctl] at h
    cases h
  · exact h hconn

/-- The functor that is due is in hand, and no other that takes the connection on is pending. -/
theorem Holds.pending_of_due (h : Holds cfg c g (g.due c v.conn.loop) obs v) (hf : f.conn = c)
    (hctl : f.isControl = true) : v.pending l f = 0 := by
  have := h.control l f hf hctl
  omega

/-- The functor in hand that takes a connection on is the one that is due. -/
theorem Inv.due_of_hand (h : Inv cfg stage (some (l, f)) obs s) (hf : f.conn = c) (hctl : f.isControl = true) :
    (stage c).due c (s.conn c).loop = some (l, f) := by
  have hone : (s.view c).pending l f + inHand (some (l, f)) l f = inHand ((stage c).due c (s.conn c).loop) l f :=
    (h.holds c).control l f hf hctl
  rw [inHand_self] at hone
  by_contra hne
  rw [inHand, if_neg hne] at hone
  exact Nat.succ_ne_zero _ hone

/-- From a stage to the next, with what is recorded. -/
inductive Stage.Next (c : Nat) : Stage → Event → Stage → Prop where
  | establish : Next c .connecting (.established c) .live
  | close : Next c .live (.closeCB c) .closing
  | remove : Next c .closing (.removed c) .removed
  | destroy : Next c .removed (.destroyed c) .destroyed

theorem Stage.Next.history {g g' : Stage} {e : Event} (h : Stage.Next c g e g') :
    g'.history c = g.history c ++ [e] ∧ e.conn = c ∧ e.isHandler = false := by
  cases h <;> exact ⟨rfl, rfl, rfl⟩

theorem Stage.Next.established {g g' : Stage} {e : Event} (h : Stage.Next c g e g') :
    g ≠ .fresh ∧ g'.established = true := by
  cases h <;> exact ⟨nofun, rfl⟩

/-- **A connection goes on to its next stage**: what was due has been taken up, and what is
due next is in hand. -/
theorem Inv.next (h : Inv cfg stage ((stage c).due c (s.conn c).loop) obs s) {e : Event} (tcp : TcpConnection)
    {registered : Nat → Prop} {listed : Bytes → Prop} (hnext : Stage.Next c (stage c) e g) (hframe : Frame c s t)
    (hview : t.view c = {s.view c with conn := {s.conn c with tcp := tcp}, registered := registered, listed := listed})
    (hfits : g.Fits tcp) (hregistered : ∀ l, registered l ↔ l = (s.conn c).loop ∧ g.registered = true)
    (hlisted : ∀ name, listed name ↔ name = cfg.connName c ∧ g.listed = true)
    (hlive : stage c = .live → (s.loops (s.conn c).loop).phase.Left c) (hnxt : t.nxtConnID = s.nxtConnID) :
    Inv cfg (Function.update stage c g) (g.due c (s.conn c).loop) (obs ++ [e]) t := by
  obtain ⟨hhistory, hconn, hhandler⟩ := hnext.history
  obtain ⟨hfresh, hest⟩ := hnext.established
  have hc := h.holds c
  have hacc := hc.accepted hfresh
  have hnone : ∀ l' f', f'.conn = c → f'.isControl = true → (s.view c).pending l' f' = 0 :=
    fun _ _ hf' hctl => hc.pending_of_due hf' hctl
  have hloop : (t.conn c).loop = (s.conn c).loop := congrArg (fun v => v.conn.loop) hview
  refine h.advance hframe (fun l' f' hf' => ?_) ?_ ?_ (fun _ => hloop) (fun _ => hest) (fun hs => .inr (hlive hs))
    (Nat.le_of_eq hnxt.symm) (hnxt ▸ h.bound)
  · rw [Stage.inHand_due (.inr hf'), Stage.inHand_due (.inr hf')]
  · intro e' he'
    rw [List.mem_singleton.mp he']
    exact hconn
  · rw [hview]
    refine ⟨iff_of_false (fun hg => ?_) (not_not_intro hacc), hc.name, hfits, fun l' f' hf' hctl => ?_,
      fun l' f' hf' hctl hpos => ?_, fun _ _ => hnone, hregistered, hlisted, ?_, ?_⟩
    · rw [hg] at hest
      cases hest
    · rw [show View.pending _ l' f' = 0 from hnone l' f' hf' hctl, Nat.zero_add]
    · rw [Stage.inHand_due (.inl hctl)] at hpos
      exact ⟨(hc.other l' f' hf' hctl (by rwa [Stage.inHand_due (.inl hctl)])).1, hest⟩
    · rw [record_concat hconn hhandler, hc.history, hhistory]
    · refine order_append hc.order fun hd hmem => ?_
      rw [← List.mem_singleton.mp hmem] at hhandler
      cases hhandler

/-- **`rmConnInLoop`.** -/
theorem Inv.rmConnInLoop (h : Inv cfg stage (some (l, .rmConnInLoop c)) obs s) :
    Keeps cfg obs (s.rmConnInLoop c) := by
  have hdue := h.due_of_hand (c := c) rfl rfl
  have hclosing : stage c = .closing := by
    cases hs : stage c <;> simp [hs, Stage.due] at hdue ⊢
  have hc := h.holds c
  rw [hclosing] at hc
  have hname : (s.conn c).name = cfg.connName c := hc.name (hc.accepted nofun)
  have hfind : s.conns.find? (cfg.connName c) = some c := (hc.listed _).mpr ⟨rfl, rfl⟩
  have herased : Frame c s {s with conns := s.conns.erase (cfg.connName c)} := by
    refine ⟨fun d hd => ?_, fun _ => rfl, fun _ => rfl⟩
    show View.mk .. = View.mk ..
    congr 1
    funext name
    rw [OrdMap.find?_erase]
    split
    case isTrue heq =>
      subst heq
      simp [hfind, Ne.symm hd]
    case isFalse => rfl
  have hinv : Inv cfg (Function.update stage c .removed) (some ((s.conn c).loop, .connDestroyed c))
      (obs ++ [.removed c]) {s with conns := s.conns.erase (cfg.connName c)} := by
    rw [← hdue] at h
    refine h.next (g := .removed) (s.conn c).tcp (by rw [hclosing]; exact .remove) herased rfl hc.fits hc.registered
      (fun name => ?_) (by rw [hclosing]; nofun) rfl
    rw [OrdMap.find?_erase]
    split
    · simp [Stage.listed]
    case isFalse hne =>
      refine iff_of_false (fun hsome => hne ?_) (by simp [Stage.listed])
      exact ((hc.listed name).mp hsome).1.symm
  have hpost := hinv.post ((s.conn c).loop == 0) fun _ _ => Function.update_self ..
  refine ⟨_, _, _, ?_, hpost⟩
  simp [TcpServer.rmConnInLoop, hname, hfind]

@[simp] theorem loop_setTcp (s : TcpServer) (c d : Nat) (tcp : TcpConnection) :
    ((s.setTcp c tcp).conn d).loop = (s.conn d).loop := by
  by_cases hd : d = c
  · subst hd
    exact congrArg (fun v => v.conn.loop) (view_setTcp_self tcp)
  · exact congrArg (fun v => v.conn.loop) (view_setTcp_of_ne tcp hd)

@[simp] theorem loops_setTcp (s : TcpServer) (c : Nat) (tcp : TcpConnection) : (s.setTcp c tcp).loops = s.loops := rfl

theorem Stage.fits_connEstablished {tcp : TcpConnection} (h : Stage.connecting.Fits tcp) :
    ∃ tcp', tcp.connEstablished = some (tcp', [.updateChannel, .connCB]) ∧ Stage.live.Fits tcp' := by
  obtain ⟨hstate, _, hbacklog, hinput⟩ := h
  refine ⟨{tcp with state := .connected, channel := tcp.channel.tie.enableRead}, ?_, .inl rfl, by simp,
    ⟨hbacklog.inv, ?_⟩, hinput⟩
  · simp [TcpConnection.connEstablished, hstate]
  · simpa using hbacklog.writing

theorem Stage.fits_handleClose {tcp : TcpConnection} (h : Stage.live.Fits tcp) :
    ∃ tcp', tcp.handleClose = some (tcp', [.updateChannel, .closeCB]) ∧ Stage.closing.Fits tcp' := by
  refine ⟨{tcp with state := .disconnected, channel := tcp.channel.disableAll}, ?_, rfl, by simp⟩
  simp only [TcpConnection.handleClose, assert_bind, if_pos h.1]

theorem Stage.fits_connDestroyed {tcp : TcpConnection} (h : Stage.removed.Fits tcp) :
    ∃ tcp', tcp.connDestroyed = some (tcp', [.removeChannel]) ∧ Stage.destroyed.Fits tcp' := by
  obtain ⟨hstate, hevents⟩ := h
  refine ⟨{tcp with channel := {tcp.channel with addedToLoop := false}}, ?_, hstate, hevents⟩
  simp [TcpConnection.connDestroyed, Channel.remove, hstate, hevents]

/-- **`connEstablished`.** -/
theorem Inv.connEstablished (h : Inv cfg stage (some (l, .connEstablished c)) obs s) :
    Keeps cfg obs (s.connEstablished c) := by
  have hdue := h.due_of_hand (c := c) rfl rfl
  have hconnecting : stage c = .connecting := by
    cases hs : stage c <;> simp [hs, Stage.due] at hdue ⊢
  have hc := h.holds c
  rw [hconnecting] at hc
  obtain ⟨tcp, htcp, hfits⟩ := Stage.fits_connEstablished hc.fits
  rw [← hdue] at h
  have hinv := h.next (g := .live) (t := (s.setTcp c tcp).updateChannel (s.conn c).loop c) tcp
    (by rw [hconnecting]; exact .establish) ?_ ((view_setChannels_self _).trans (by rw [view_setTcp_self])) hfits ?_
    hc.listed (by rw [hconnecting]; nofun) rfl
  · refine ⟨_, _, _, ?_, hinv⟩
    rw [TcpServer.connEstablished, show (s.conn c).tcp.connEstablished = _ from htcp]
    simp [TcpServer.call, TcpServer.performAll, perform]
  · refine (frame_setTcp s c _).trans (frame_setChannels fun d hd => ?_)
    split
    · rfl
    · simp [hd]
  · intro l'
    split
    case isTrue heq =>
      refine iff_of_true ?_ ⟨heq, rfl⟩
      split
      case isTrue hmem => exact hmem
      case isFalse => simp
    case isFalse hne =>
      refine iff_of_false (fun hmem => ?_) fun hand => hne hand.1
      exact hne ((hc.registered l').mp hmem).1

/-- **`connDestroyed`.** -/
theorem Inv.connDestroyed (h : Inv cfg stage (some (l, .connDestroyed c)) obs s)
    (hphase : (s.loops l).phase = .functors) : Keeps cfg obs (s.connDestroyed c) := by
  have hdue := h.due_of_hand (c := c) rfl rfl
  have hremoved : stage c = .removed := by
    cases hs : stage c <;> simp [hs, Stage.due] at hdue ⊢
  have hloop : (s.conn c).loop = l := by
    rw [hremoved] at hdue
    exact congrArg Prod.fst (Option.some.inj hdue)
  have hc := h.holds c
  rw [hremoved] at hc
  obtain ⟨tcp, htcp, hfits⟩ := Stage.fits_connDestroyed hc.fits
  have hmem : c ∈ (s.loops l).channels := (hc.registered l).mpr ⟨hloop.symm, rfl⟩
  rw [← hdue] at h
  have hinv := h.next (g := .destroyed) (t := (s.setTcp c tcp).setChannels l ((s.loops l).channels.filter (· ≠ c))) tcp
    (by rw [hremoved]; exact .destroy) ?_ ((view_setChannels_self _).trans (by rw [view_setTcp_self])) hfits ?_
    hc.listed (by rw [hremoved]; nofun) rfl
  · refine ⟨_, _, _, ?_, hinv⟩
    rw [TcpServer.connDestroyed, show (s.conn c).tcp.connDestroyed = _ from htcp]
    simp [TcpServer.call, TcpServer.performAll, perform, removeChannel, hloop, hphase, hmem]
  · exact (frame_setTcp s c _).trans (frame_setChannels fun d hd => by simp [hd])
  · intro l'
    split
    · simp [Stage.registered]
    case isFalse hne =>
      refine iff_of_false (fun hmem' => ?_) (by simp [Stage.registered])
      exact hne (((hc.registered l').mp hmem').1.trans hloop)

/-- **`handleClose`**, when no other callback is left that may close the connection. -/
theorem Inv.handleClose (h : Inv cfg stage none obs s) (hlive : stage c = .live)
    (hleft : (s.loops (s.conn c).loop).phase.Left c) {tcp : TcpConnection} (hfits : Stage.live.Fits tcp) :
    Keeps cfg obs (s.call c tcp.handleClose) := by
  have hc := h.holds c
  have hdue : (stage c).due c (s.conn c).loop = none := by rw [hlive]; rfl
  rw [hlive] at hc
  obtain ⟨tcp, htcp, hfits⟩ := Stage.fits_handleClose hfits
  have hmem : c ∈ (s.loops (s.conn c).loop).channels := (hc.registered _).mpr ⟨rfl, rfl⟩
  rw [← hdue] at h
  have hinv := h.next (g := .closing) tcp (by rw [hlive]; exact .close) (frame_setTcp s c tcp) (view_setTcp_self tcp)
    hfits hc.registered hc.listed (fun _ => hleft) rfl
  have hrm : Keeps cfg (obs ++ [.closeCB c]) ((s.setTcp c tcp).rmConn c) := by
    refine hinv.runInLoop _ _ (fun hown _ => ?_) fun _ => hinv.rmConnInLoop
    simpa [Functor.conn] using hown
  have hupdate : (s.setTcp c tcp).updateChannel (s.conn c).loop c = s.setTcp c tcp := updateChannel_of_mem hmem
  obtain ⟨s', o, stage', hrun, hinv'⟩ := hrm
  refine ⟨s', .closeCB c :: o, stage', ?_, by rwa [List.append_assoc, List.singleton_append] at hinv'⟩
  simp [htcp, TcpServer.call, TcpServer.performAll, perform, hupdate, hrun]

/-! ### Steps within a stage -/

/-- A function of a connection that leaves it in its stage. -/
def Stage.Stays (g : Stage) (y : Option (TcpConnection × List Effect)) : Prop :=
  ∃ tcp es, y = some (tcp, es) ∧ g.Fits tcp ∧ (∀ e ∈ es, isQuiet e = true) ∧
    (.updateChannel ∈ es → g.registered = true)

theorem Inv.stays (h : Inv cfg stage none obs s) (hest : (stage c).established = true)
    {y : Option (TcpConnection × List Effect)} (hy : (stage c).Stays y) : Keeps cfg obs (s.call c y) := by
  obtain ⟨tcp, es, rfl, hfits, hquiet, hupdate⟩ := hy
  obtain ⟨s', hs', hinv⟩ := (h.setTcp hfits).performAll hest hquiet hupdate
  rw [show s.call c (some (tcp, es)) = some (s', []) from hs']
  exact hinv.keeps

theorem Stage.fits_of_established {tcp : TcpConnection} (hest : g.established = true) (h : g.Fits tcp) :
    g = .live ∧ Stage.live.Fits tcp ∨ tcp.state = .disconnected ∧ tcp.channel.isNoneEvent = true := by
  cases g with
  | fresh | connecting => cases hest
  | live => exact .inl ⟨rfl, h⟩
  | closing | removed | destroyed => exact .inr h

theorem Stage.fits_wrote {tcp tcp' : TcpConnection} (h : Stage.live.Fits tcp) (hw : tcp.Wrote tcp') :
    Stage.live.Fits tcp' := by
  obtain ⟨hstate, hreading, _, hinput⟩ := h
  exact ⟨hw.state ▸ hstate, hw.reading.trans hreading, hw.backlog, hw.inputBuf ▸ hinput⟩

theorem Stage.ne_disconnected {tcp : TcpConnection} (h : Stage.live.Fits tcp) : tcp.state ≠ .disconnected := by
  rcases h.1 with hs | hs <;> rw [hs] <;> decide

theorem Stage.stays_sendInLoop {tcp : TcpConnection} {data : Bytes} {w : Write} (hest : g.established = true)
    (h : g.Fits tcp) (hw : w.Within data.length) : g.Stays (tcp.sendInLoop data w) := by
  rcases Stage.fits_of_established hest h with ⟨rfl, hlive⟩ | ⟨hstate, _⟩
  · obtain ⟨tcp', es, hsend, hwrote, _⟩ :=
      TcpConnection.sendInLoop_spec hlive.2.2.1 (Stage.ne_disconnected hlive) data w hw
    refine ⟨tcp', es, hsend, Stage.fits_wrote hlive hwrote, fun e he => ?_, fun _ => rfl⟩
    rcases TcpConnection.sendInLoop_effects hsend he with rfl | rfl | ⟨cb, rfl⟩ <;> rfl
  · exact ⟨tcp, [], by simp [TcpConnection.sendInLoop, hstate], h, nofun, nofun⟩

theorem isQuiet_handleWrite {tcp tcp' : TcpConnection} {w : Write} {es : List Effect}
    (h : tcp.handleWrite w = some (tcp', es)) : ∀ e ∈ es, isQuiet e = true := by
  unfold TcpConnection.handleWrite at h
  split at h
  case isFalse =>
    obtain ⟨_, rfl⟩ := Prod.mk.inj (Option.some.inj h)
    nofun
  case isTrue =>
    split at h
    · simp only [Option.bind_eq_bind, Option.bind_eq_some_iff] at h
      obtain ⟨b, _, h⟩ := h
      split at h
      · obtain ⟨_, rfl⟩ := Prod.mk.inj (Option.some.inj h)
        have hclose : ∀ p : TcpConnection, ∀ e ∈ p.shutdownInLoop, isQuiet e = true := by
          intro p e he
          unfold TcpConnection.shutdownInLoop at he
          split at he
          · cases he
          · rw [List.mem_singleton.mp he]
            rfl
        intro e he
        rcases List.mem_append.mp he with he | he
        · rcases List.mem_append.mp he with he | he
          · rcases List.mem_pair.mp he with rfl | rfl <;> rfl
          · split at he
            · rw [List.mem_singleton.mp he]
              rfl
            · cases he
        · split at he
          · exact hclose _ e he
          · cases he
      · obtain ⟨_, rfl⟩ := Prod.mk.inj (Option.some.inj h)
        simp [isQuiet]
    · obtain ⟨_, rfl⟩ := Prod.mk.inj (Option.some.inj h)
      simp [isQuiet]

theorem Stage.stays_handleWrite {tcp : TcpConnection} {w : Write} (hest : g.established = true) (h : g.Fits tcp)
    (hw : w.Within tcp.outputBuf.readableBytes) : g.Stays (tcp.handleWrite w) := by
  rcases Stage.fits_of_established hest h with ⟨rfl, hlive⟩ | ⟨_, hevents⟩
  · obtain ⟨tcp', es, hwrite, hwrote, _⟩ := TcpConnection.handleWrite_spec hlive.2.2.1 w hw
    exact ⟨tcp', es, hwrite, Stage.fits_wrote hlive hwrote, isQuiet_handleWrite hwrite, fun _ => rfl⟩
  · refine ⟨tcp, [], ?_, h, nofun, nofun⟩
    simp [TcpConnection.handleWrite, Channel.isWriting_of_isNoneEvent _ hevents]

theorem Stage.stays_shutdownInLoop {tcp : TcpConnection} (h : g.Fits tcp) :
    g.Stays (some (tcp, tcp.shutdownInLoop)) := by
  refine ⟨tcp, _, rfl, h, ?_, ?_⟩
  · unfold TcpConnection.shutdownInLoop
    split <;> simp [isQuiet]
  · unfold TcpConnection.shutdownInLoop
    split <;> simp

/-- **`handleRead`** of a live connection. -/
theorem Inv.handleRead (h : Inv cfg stage none obs s) (hlive : stage c = .live)
    (hleft : (s.loops (s.conn c).loop).phase.Left c) (rd : Readv) :
    Keeps cfg obs (s.call c ((s.conn c).tcp.handleRead rd)) := by
  have hc := h.holds c
  rw [hlive] at hc
  have hfits : Stage.live.Fits (s.conn c).tcp := hc.fits
  have hest : (stage c).established = true := by rw [hlive]; rfl
  obtain ⟨b, hread, hinv, _⟩ := Buffer.readFd_spec hfits.2.2.2 rd
  have hfits' : Stage.live.Fits {(s.conn c).tcp with inputBuf := b} :=
    ⟨hfits.1, hfits.2.1, ⟨hfits.2.2.1.inv, hfits.2.2.1.writing⟩, hinv⟩
  simp only [TcpConnection.handleRead, hread, Option.bind_eq_bind, Option.bind_some]
  split
  · refine h.stays hest ⟨_, _, rfl, hlive ▸ hfits', ?_, ?_⟩ <;> simp [isQuiet]
  · split
    · exact h.handleClose hlive hleft hfits'
    · exact h.stays hest ⟨_, _, rfl, hlive ▸ hfits', nofun, nofun⟩

/-- **`forceCloseInLoop`**, run as a functor. -/
theorem Inv.forceCloseInLoop (h : Inv cfg stage none obs s) (hest : (stage c).established = true)
    (hphase : (s.loops (s.conn c).loop).phase = .functors) : Keeps cfg obs (s.forceCloseInLoop c) := by
  have hc : (stage c).Fits (s.conn c).tcp := (h.holds c).fits
  unfold TcpServer.forceCloseInLoop TcpConnection.forceCloseInLoop
  rcases Stage.fits_of_established hest hc with ⟨hlive, hfits⟩ | ⟨hstate, _⟩
  · rw [if_pos hfits.1]
    exact h.handleClose hlive (by rw [hphase]; trivial) hfits
  · rw [if_neg (by simp [hstate])]
    exact h.stays hest ⟨_, _, rfl, hc, nofun, nofun⟩

end Chtho.Net.TcpServer
