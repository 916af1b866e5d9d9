import Chtho.Net.LifeCycle.Connection

/-! What functors, `newConn` and the functions any thread may call do to the invariant. -/
namespace Chtho.Net.TcpServer
open Lib TcpConnection

variable {s : TcpServer} {c d l : Nat} {f : Functor} {cfg : Config} {stage : Nat → Stage}
  {r : Option (Nat × Functor)} {obs : List Event}

/-- **A functor** that a loop has taken up. -/
theorem Inv.run (h : Inv cfg stage (some (l, f)) obs s) (hphase : (s.loops l).phase = .functors) {data : Bytes}
    {w : Write} (hw : w.Within data.length) : Keeps cfg obs (s.run data w f) := by
  have hother : f.isControl = false → l = (s.conn f.conn).loop ∧ (stage f.conn).established = true :=
    fun hf => (h.holds f.conn).other l f rfl hf (by simp)
  cases f with
  | connEstablished c => exact h.connEstablished
  | connDestroyed c => exact h.connDestroyed hphase
  | rmConnInLoop c => exact h.rmConnInLoop
  | shutdownInLoop c =>
    exact (h.drop rfl).stays (hother rfl).2 (Stage.stays_shutdownInLoop (h.holds c).fits)
  | forceCloseInLoop c =>
    obtain ⟨rfl, hest⟩ := hother rfl
    exact (h.drop rfl).forceCloseInLoop hest hphase
  | sendInLoop c =>
    exact (h.drop rfl).stays (hother rfl).2 (Stage.stays_sendInLoop (hother rfl).2 (h.holds c).fits hw)
  | callback c cb => exact (h.drop rfl).keeps

theorem Stage.fits_create (sockfd : Nat) (wc hwm : Bool) :
    ∃ tcp, TcpConnection.create sockfd wc hwm = some tcp ∧ Stage.connecting.Fits tcp := by
  obtain ⟨b, hb, hinv, _⟩ := Buffer.create_spec Buffer.kInit
  obtain ⟨tcp, htcp⟩ : ∃ tcp, TcpConnection.create sockfd wc hwm = some tcp := by
    simp [TcpConnection.create, hb]
  refine ⟨tcp, htcp, ?_⟩
  have hbacklog := (TcpConnection.create_backlog htcp).1
  simp only [TcpConnection.create, hb, Option.bind_eq_bind, Option.bind_some, Option.some.injEq] at htcp
  subst htcp
  exact ⟨rfl, rfl, hbacklog, hinv⟩

/-- The names in `conns_` are those of the connections they map to. -/
theorem Inv.find?_connName (h : Inv cfg stage r obs s) (hc : c < 2 ^ 31)
    (hfind : s.conns.find? (cfg.connName c) = some d) : d = c := by
  obtain ⟨hname, hlisted⟩ := ((h.holds d).listed _).mp hfind
  have hacc : s.accepted d := (h.holds d).accepted (Stage.ne_fresh_of_listed hlisted)
  exact (cfg.connName_injective hc (Nat.lt_of_lt_of_le hacc.2 h.bound) hname).symm

/-- The state after `newConn` has entered the connection. -/
theorem Inv.enter (h : Inv cfg stage none obs s) (hnxt : s.nxtConnID < 2 ^ 31) {tcp : TcpConnection}
    (hfits : Stage.connecting.Fits tcp) (ioloop nxt : Nat) :
    Inv cfg (Function.update stage s.nxtConnID .connecting) (some (ioloop, .connEstablished s.nxtConnID))
      (obs ++ [.accepted s.nxtConnID])
      {s with
        nxt := nxt, nxtConnID := s.nxtConnID + 1
        conn := Function.update s.conn s.nxtConnID ⟨cfg.connName s.nxtConnID, tcp, ioloop⟩
        conns := s.conns.insert (cfg.connName s.nxtConnID) s.nxtConnID} := by
  obtain ⟨c, hc⟩ : ∃ c, s.nxtConnID = c := ⟨_, rfl⟩
  rw [hc] at hnxt ⊢
  have hold := h.holds c
  have hfresh : stage c = .fresh := hold.fresh.mpr fun hacc => Nat.lt_irrefl c (hc ▸ hacc.2)
  rw [hfresh] at hold
  have hnone : ∀ l f, f.conn = c → (s.view c).pending l f = 0 := by
    intro l f hf
    cases hctl : f.isControl with
    | true => exact hold.control l f hf hctl
    | false =>
      by_contra hne
      cases (hold.other l f hf hctl (Nat.pos_of_ne_zero hne)).2
  refine h.advance (d := c) ⟨fun d hd => ?_, fun _ => rfl, fun _ => rfl⟩ (fun l f hf => ?_) (by simp [Event.conn]) ?_
    (absurd hfresh) (fun he => ?_) (fun hl => ?_) (hc ▸ Nat.le_succ c) hnxt
  · show View.mk .. = View.mk ..
    congr 1
    · show (1 ≤ d ∧ d < c + 1) = (1 ≤ d ∧ d < s.nxtConnID)
      rw [hc, Nat.lt_succ_iff_lt_or_eq, or_iff_left hd]
    · exact Function.update_of_ne hd _ _
    · funext name
      rw [OrdMap.find?_insert]
      split
      case isTrue heq =>
        subst heq
        refine propext (iff_of_false (fun hs => hd (Option.some.inj hs).symm) fun hs => hd ?_)
        exact h.find?_connName hnxt hs
      case isFalse => rfl
  · rw [inHand_of_conn_ne (Ne.symm hf), inHand_none]
  · have hconn : Function.update s.conn c ⟨cfg.connName c, tcp, ioloop⟩ c = ⟨cfg.connName c, tcp, ioloop⟩ :=
      Function.update_self ..
    refine ⟨iff_of_false nofun (not_not_intro ⟨hc ▸ h.pos, Nat.lt_succ_self c⟩), fun _ => congrArg Conn.name hconn,
      ?_, fun l f hf hctl => ?_, fun l f hf hctl hpos => ?_, fun _ _ l f hf _ => hnone l f hf, fun l => ?_,
      fun name => ?_, ?_, ?_⟩
    · show Stage.connecting.Fits (Function.update s.conn c _ c).tcp
      rw [hconn]
      exact hfits
    · show (s.view c).pending l f + _ = inHand (some ((Function.update s.conn c _ c).loop, _)) l f
      rw [hnone l f hf, hconn, Nat.zero_add]
    · have hz : (s.view c).pending l f + inHand (some (ioloop, .connEstablished c)) l f = 0 := by
        rw [hnone l f hf, inHand_of_isControl_ne fun heq => by rw [hctl] at heq; cases heq]
      exact absurd hz (Nat.ne_of_gt hpos)
    · refine iff_of_false (fun hmem => ?_) (by simp [Stage.registered])
      cases ((hold.registered l).mp hmem).2
    · show (s.conns.insert _ _).find? name = some c ↔ _
      rw [OrdMap.find?_insert]
      split
      case isTrue heq => exact iff_of_true rfl ⟨heq.symm, rfl⟩
      case isFalse hne =>
        refine iff_of_false (fun hs => ?_) fun hand => hne hand.1.symm
        cases ((hold.listed name).mp hs).2
    · refine (record_concat (c := c) rfl rfl).trans ?_
      rw [hold.history]
      rfl
    · exact order_append hold.order (by simp)
  · rw [hfresh] at he
    cases he
  · rw [hfresh] at hl
    cases hl

/-- **`newConn`.** -/
theorem Inv.newConn (h : Inv cfg stage none obs s) (hnxt : s.nxtConnID < 2 ^ 31) (sockfd : Nat) (hwm : Bool) :
    Keeps cfg obs (s.newConn cfg sockfd hwm) := by
  obtain ⟨tcp, htcp, hfits⟩ := Stage.fits_create sockfd cfg.writeCompleteCB hwm
  have hinv := h.enter hnxt hfits (cfg.getNextLoop s.nxt).1 (cfg.getNextLoop s.nxt).2
  have hrun := hinv.runInLoop ((cfg.getNextLoop s.nxt).1 == 0) (·.connEstablished s.nxtConnID)
    (fun hown _ => by simpa [Functor.conn] using hown) fun _ => hinv.connEstablished
  obtain ⟨s', o, stage', hs', hinv'⟩ := hrun
  refine ⟨s', .accepted s.nxtConnID :: o, stage', ?_, by rwa [List.append_assoc, List.singleton_append] at hinv'⟩
  simp [TcpServer.newConn, htcp, hs']

/-- Only a live connection is connected or disconnecting. -/
theorem Inv.live_of_state (h : Inv cfg stage r obs s) (hc : s.accepted c)
    (hs : (s.conn c).tcp.state = .connected ∨ (s.conn c).tcp.state = .disconnecting) : stage c = .live := by
  have hfits : (stage c).Fits (s.conn c).tcp := (h.holds c).fits
  cases hg : stage c with
  | live => rfl
  | fresh => exact absurd hc ((h.holds c).fresh.mp hg)
  | connecting | closing | removed | destroyed =>
    rw [hg] at hfits
    rcases hs with hs | hs
    · cases hs.symm.trans hfits.1
    · cases hs.symm.trans hfits.1

/-- What `shutdown` and `forceClose` do at once. -/
theorem Inv.disconnecting (h : Inv cfg stage none obs s) (hlive : stage c = .live) :
    Inv cfg stage none obs (s.setTcp c {(s.conn c).tcp with state := .disconnecting}) := by
  have hfits : Stage.live.Fits (s.conn c).tcp := hlive ▸ (h.holds c).fits
  refine h.setTcp ?_
  rw [hlive]
  exact ⟨.inr rfl, hfits.2.1, ⟨hfits.2.2.1.inv, hfits.2.2.1.writing⟩, hfits.2.2.2⟩

/-- **`shutdown`**, from any thread. -/
theorem Inv.shutdown (h : Inv cfg stage none obs s) (own : Bool) (hc : s.accepted c) :
    Keeps cfg obs (s.shutdown own c) := by
  by_cases hs : (s.conn c).tcp.state = .connected
  · simp only [TcpServer.shutdown, TcpConnection.shutdown, if_pos hs, if_true]
    have hlive := h.live_of_state hc (.inl hs)
    have hest : (stage c).established = true := by rw [hlive]; rfl
    have hinv := h.disconnecting hlive
    have hown := (hinv.take (f := .shutdownInLoop c) rfl hest).runInLoop own (·.shutdownInLoop c)
      nofun fun _ => hinv.stays hest (Stage.stays_shutdownInLoop (hinv.holds c).fits)
    simpa [Functor.conn] using hown
  · simpa [TcpServer.shutdown, TcpConnection.shutdown, hs] using h.keeps

/-- **`forceClose`**, from any thread. -/
theorem Inv.forceClose (h : Inv cfg stage none obs s) (own : Bool) (hc : s.accepted c) :
    Keeps cfg obs (s.forceClose own c) := by
  by_cases hs : (s.conn c).tcp.state = .connected ∨ (s.conn c).tcp.state = .disconnecting
  · simp only [TcpServer.forceClose, TcpConnection.forceClose, if_pos hs, if_true]
    have hlive := h.live_of_state hc hs
    have hest : (stage c).established = true := by rw [hlive]; rfl
    have hpost := (((h.disconnecting hlive).take (f := .forceCloseInLoop c) rfl hest).post own nofun).keeps
    simpa [Functor.conn] using hpost
  · simpa [TcpServer.forceClose, TcpConnection.forceClose, hs] using h.keeps

/-- **`send`**, from any thread. -/
theorem Inv.send (h : Inv cfg stage none obs s) (own : Bool) (hc : s.accepted c) {data : Bytes} {w : Write}
    (hw : w.Within data.length) : Keeps cfg obs (s.send own c data w) := by
  unfold TcpServer.send
  split
  case isFalse => exact h.keeps
  case isTrue hs =>
    have hlive := h.live_of_state hc (.inl hs)
    have hest : (stage c).established = true := by rw [hlive]; rfl
    exact (h.take (f := .sendInLoop c) rfl hest).runInLoop own _ nofun
      fun _ => h.stays hest (Stage.stays_sendInLoop hest (h.holds c).fits hw)

end Chtho.Net.TcpServer
