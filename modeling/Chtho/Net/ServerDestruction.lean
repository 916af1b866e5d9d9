import Chtho.Net.LifeCycle

/-! `~TcpServer`, run in the base loop with every connection on the base loop.

It calls `connDestroyed` on every connection of `conns_`. Those connections are live,
either connected or, after `shutdown` or `forceClose`, disconnecting. `connDestroyed`
takes back the events of interest of the first only, and `Channel::remove` asserts that
there are none. -/
namespace Chtho.Net.TcpServer
open Lib TcpConnection

variable {s s' : TcpServer} {c l : Nat} {cfg : Config} {stage : Nat → Stage} {obs : List Event}

/-- A live connection of the base loop. -/
structure Ready (v : View) : Prop where
  loop : v.conn.loop = 0
  state : v.conn.tcp.state = .connected ∨ v.conn.tcp.state = .disconnecting
  reading : v.conn.tcp.channel.isReading = true
  registered : ∀ l, v.registered l ↔ l = 0

/-- Disconnected and in no poller. -/
structure Gone (v : View) : Prop where
  state : v.conn.tcp.state = .disconnected
  registered : ∀ l, ¬ v.registered l

/-- `connDestroyed` on a connected connection. -/
theorem connDestroyed_connected (h : Ready (s.view c)) (hphase : (s.loops 0).phase = .functors)
    (hstate : (s.conn c).tcp.state = .connected) :
    ∃ s', s.connDestroyed c = some (s', [.destroyed c]) ∧ Gone (s'.view c) ∧ Frame c s s' := by
  obtain ⟨tcp, htcp, hdisconnected⟩ : ∃ tcp, (s.conn c).tcp.connDestroyed =
      some (tcp, [.updateChannel, .removeChannel]) ∧ tcp.state = .disconnected := by
    refine ⟨{(s.conn c).tcp with
      state := .disconnected, channel := {(s.conn c).tcp.channel.disableAll with addedToLoop := false}}, ?_, rfl⟩
    simp [TcpConnection.connDestroyed, hstate, Channel.remove]
  have hloop : (s.conn c).loop = 0 := h.loop
  have hmem : c ∈ (s.loops 0).channels := (h.registered 0).mpr rfl
  have hupdate : (s.setTcp c tcp).updateChannel 0 c = s.setTcp c tcp := updateChannel_of_mem hmem
  refine ⟨(s.setTcp c tcp).setChannels 0 ((s.loops 0).channels.filter (· ≠ c)), ?_, ?_, ?_⟩
  · simp [TcpServer.connDestroyed, htcp, TcpServer.call, TcpServer.performAll, perform, hloop, hupdate, removeChannel,
      hphase, hmem]
  · rw [view_setChannels_self, view_setTcp_self]
    refine ⟨hdisconnected, fun l => ?_⟩
    show ¬ if l = 0 then c ∈ (s.loops 0).channels.filter (· ≠ c) else c ∈ (s.loops l).channels
    split
    · simp
    case isFalse hne => exact fun hin => hne ((h.registered l).mp hin)
  · exact (frame_setTcp s c tcp).trans (frame_setChannels fun d hd => by simp [hd])

/-- `connDestroyed` on a disconnecting connection. -/
theorem connDestroyed_disconnecting (h : Ready (s.view c)) (hstate : (s.conn c).tcp.state = .disconnecting) :
    s.connDestroyed c = none := by
  have hevents : (s.conn c).tcp.channel.isNoneEvent = false := Channel.isNoneEvent_of_isReading _ h.reading
  simp [TcpServer.connDestroyed, TcpConnection.connDestroyed, hstate, Channel.remove, hevents, TcpServer.call]

theorem destroyConns_cons (hloop : (s.conn c).loop = 0) (name : Bytes) (es : List (Bytes × Nat)) :
    s.destroyConns ((name, c) :: es) =
      s.connDestroyed c >>= fun r => r.1.destroyConns es >>= fun r' => some (r'.1, r.2 ++ r'.2) := by
  simp [destroyConns, hloop, TcpServer.runInLoop]

/-- The loop of `~TcpServer` fails at the first disconnecting connection, and otherwise
leaves all that it came past gone and no other changed. -/
theorem destroyConns_spec {es : List (Bytes × Nat)} (hready : ∀ e ∈ es, Ready (s.view e.2))
    (hnodup : (es.map Prod.snd).Nodup) (hphase : (s.loops 0).phase = .functors) :
    if ∀ e ∈ es, (s.conn e.2).tcp.state ≠ .disconnecting then
      ∃ s', s.destroyConns es = some (s', es.map fun e => .destroyed e.2) ∧ (∀ e ∈ es, Gone (s'.view e.2)) ∧
        ∀ c, c ∉ es.map Prod.snd → s'.view c = s.view c
    else s.destroyConns es = none := by
  induction es generalizing s with
  | nil =>
    rw [if_pos nofun]
    exact ⟨s, rfl, nofun, fun _ _ => rfl⟩
  | cons e es ih =>
    obtain ⟨name, c⟩ := e
    rw [List.map_cons, List.nodup_cons] at hnodup
    have hc : Ready (s.view c) := hready _ List.mem_cons_self
    have hcons := destroyConns_cons hc.loop name es
    rcases hc.state with hstate | hstate
    · obtain ⟨s₁, h₁, hgone, hframe⟩ := connDestroyed_connected hc hphase hstate
      -- the connections still to come are as they were
      have hsame : ∀ e ∈ es, s₁.view e.2 = s.view e.2 := fun e he =>
        hframe.view e.2 fun heq => hnodup.1 (List.mem_map.mpr ⟨e, he, heq⟩)
      have hstates : ∀ e ∈ es, (s₁.conn e.2).tcp.state = (s.conn e.2).tcp.state := fun e he =>
        congrArg (fun v => v.conn.tcp.state) (hsame e he)
      have hrest := ih (fun e he => hsame e he ▸ hready e (List.mem_cons_of_mem _ he)) hnodup.2
        ((hframe.phase 0).trans hphase)
      have hall : (∀ e ∈ (name, c) :: es, (s.conn e.2).tcp.state ≠ .disconnecting) ↔
          ∀ e ∈ es, (s₁.conn e.2).tcp.state ≠ .disconnecting := by
        rw [List.forall_mem_cons, show (s.conn c).tcp.state = .connected from hstate]
        refine ⟨fun hs e he => hstates e he ▸ hs.2 e he, fun hs => ⟨nofun, fun e he => hstates e he ▸ hs e he⟩⟩
      split at hrest
      case isTrue hs =>
        obtain ⟨s', h', hrest, hothers⟩ := hrest
        rw [if_pos (hall.mpr hs), hcons, h₁]
        refine ⟨s', by simp [h'], ?_, fun d hd => ?_⟩
        · rw [List.forall_mem_cons]
          refine ⟨?_, hrest⟩
          rw [hothers c hnodup.1]
          exact hgone
        · rw [List.map_cons, List.mem_cons, not_or] at hd
          exact (hothers d hd.2).trans (hframe.view d hd.1)
      case isFalse hs =>
        rw [if_neg fun hs' => hs (hall.mp hs'), hcons, h₁]
        simp [hrest]
    · have hnot : ¬ ∀ e ∈ (name, c) :: es, (s.conn e.2).tcp.state ≠ .disconnecting :=
        fun hall => hall _ List.mem_cons_self hstate
      rw [if_neg hnot, hcons, connDestroyed_disconnecting hc hstate]
      rfl

/-- With every connection on the base loop, those in `conns_` are live. -/
theorem Inv.ready (h : Inv cfg stage none obs s) (hbase : ∀ c, s.accepted c → (s.conn c).loop = 0) {name : Bytes}
    (hfind : s.conns.find? name = some c) : Ready (s.view c) := by
  have hc := h.holds c
  have hlisted := ((hc.listed name).mp hfind).2
  have hloop := hbase c (hc.accepted (Stage.ne_fresh_of_listed hlisted))
  -- what is due in the base loop from the base loop has been run
  have hdue : (stage c).due c (s.conn c).loop = none ∨ stage c = .removed := by
    by_contra hne
    rw [not_or] at hne
    obtain ⟨⟨l, f⟩, hf⟩ := Option.ne_none_iff_exists'.mp hne.1
    obtain ⟨hctl, hconn⟩ := Stage.isControl_of_due hf
    have hzero := hc.direct hloop hne.2 l f hconn hctl
    have hone := hc.control l f hconn hctl
    rw [show (s.view c).conn = s.conn c from rfl, hf, hzero, inHand_self, inHand_none] at hone
    cases hone
  have hlive : stage c = .live := by
    cases hs : stage c <;> simp [hs, Stage.due, Stage.listed] at hdue hlisted ⊢
  have hfits : Stage.live.Fits (s.view c).conn.tcp := hlive ▸ hc.fits
  refine ⟨hloop, hfits.1, hfits.2.1, fun l => ?_⟩
  rw [hc.registered l, hlive]
  exact (and_iff_left rfl).trans (by rw [show (s.view c).conn.loop = 0 from hloop])

/-- Names of different connections differ. -/
theorem Inv.nodup_conns (h : Inv cfg stage none obs s) : (s.conns.entries.map Prod.snd).Nodup := by
  rw [List.Nodup, List.pairwise_map]
  refine s.conns.sorted.imp_of_mem fun {e e'} he he' hlt heq => ?_
  have hname : ∀ e ∈ s.conns.entries, e.1 = cfg.connName e.2 := fun e he =>
    (((h.holds e.2).listed e.1).mp (s.conns.find?_eq_some.mpr he)).1
  rw [hname e he, hname e' he', heq] at hlt
  exact lt_irrefl _ hlt

/-- **When destruction is clean.** In every reachable state of a server whose connections
all run on the base loop, `~TcpServer` run from a functor destroys every connection of
`conns_` without failing an assertion, and leaves it disconnected and in no poller, if
and only if none of them is disconnecting. -/
theorem destructor_clean_iff {as : List Action} (h : (machine cfg).Run start as obs s)
    (hbase : ∀ c, s.accepted c → (s.conn c).loop = 0) (hphase : (s.loops 0).phase = .functors) :
    (∃ s' o, s.destructor = some (s', o) ∧ ∀ name c, s.conns.find? name = some c →
      .destroyed c ∈ o ∧ (s'.conn c).tcp.state = .disconnected ∧ ∀ l, c ∉ (s'.loops l).channels) ↔
    ∀ name c, s.conns.find? name = some c → (s.conn c).tcp.state ≠ .disconnecting := by
  obtain ⟨stage, hinv⟩ := inv_of_run h
  have hspec := destroyConns_spec (fun e he => hinv.ready hbase (s.conns.find?_eq_some.mpr he)) hinv.nodup_conns hphase
  have hentries : (∀ e ∈ s.conns.entries, (s.conn e.2).tcp.state ≠ .disconnecting) ↔
      ∀ name c, s.conns.find? name = some c → (s.conn c).tcp.state ≠ .disconnecting :=
    ⟨fun hs name c hfind => hs _ (s.conns.find?_eq_some.mp hfind),
      fun hs e he => hs e.1 e.2 (s.conns.find?_eq_some.mpr he)⟩
  split at hspec
  case isTrue hs =>
    obtain ⟨s', hrun, hgone, _⟩ := hspec
    refine iff_of_true ⟨s', _, hrun, fun name c hfind => ?_⟩ (hentries.mp hs)
    have hmem := s.conns.find?_eq_some.mp hfind
    exact ⟨List.mem_map.mpr ⟨_, hmem, rfl⟩, (hgone _ hmem).state, (hgone _ hmem).registered⟩
  case isFalse hs =>
    refine iff_of_false ?_ fun hall => hs (hentries.mpr hall)
    rintro ⟨s', o, hrun, _⟩
    cases hrun.symm.trans hspec

theorem eq_one_of_accepted (hnxt : s.nxtConnID = 2) (hc : s.accepted c) : c = 1 := by
  unfold accepted at hc
  omega

/-- A server without io loops. -/
def baseOnly : Config := ⟨ascii "echo", ascii "0.0.0.0:2008", 0, false, by decide⟩

theorem destructor_clean_iff_connected :
    ∃ obs s, (machine baseOnly).Run start [.poll 0 [], .accept 5 false, .doPendingFuncs 0] obs s ∧
      s.conns.find? (baseOnly.connName 1) = some 1 ∧
      ∃ s' o, s.destructor = some (s', o) ∧ ∀ name c, s.conns.find? name = some c →
        .destroyed c ∈ o ∧ (s'.conn c).tcp.state = .disconnected ∧ ∀ l, c ∉ (s'.loops l).channels := by
  obtain ⟨obs, s, hrun, hnxt, hloop, hphase, hstate, hentries⟩ :
      ∃ obs s, (machine baseOnly).Run start [.poll 0 [], .accept 5 false, .doPendingFuncs 0] obs s ∧
        s.nxtConnID = 2 ∧ (s.conn 1).loop = 0 ∧ (s.loops 0).phase = .functors ∧
        (s.conn 1).tcp.state = .connected ∧ s.conns.entries = [(baseOnly.connName 1, 1)] :=
    Machine.Run.exists_of_trace (by decide +kernel)
  have hfind : s.conns.find? (baseOnly.connName 1) = some 1 := by
    rw [OrdMap.find?_eq_some, hentries]
    exact List.mem_singleton_self _
  refine ⟨obs, s, hrun, hfind, (destructor_clean_iff hrun (fun c hc => ?_) hphase).mpr fun name c hc => ?_⟩
  · rw [eq_one_of_accepted hnxt hc]
    exact hloop
  · rw [OrdMap.find?_eq_some, hentries] at hc
    obtain ⟨_, rfl⟩ := Prod.mk.inj (List.mem_singleton.mp hc)
    rw [hstate]
    decide

/-- `shutdown` on a connection of the base loop, and then `~TcpServer`, with nothing pending. -/
theorem destructor_fails_after_shutdown :
    ∃ obs s, (machine baseOnly).Run start [.poll 0 [], .accept 5 false, .shutdown true 1, .doPendingFuncs 0] obs s ∧
      (∀ c, s.accepted c → (s.conn c).loop = 0) ∧ (s.loops 0).phase = .functors ∧ (∀ f, s.pending 0 f = 0) ∧
      s.conns.find? (baseOnly.connName 1) = some 1 ∧ s.destructor = none := by
  obtain ⟨obs, s, hrun, hnxt, hloop, hphase, hflight, hqueue, hfind, hnone⟩ :
      ∃ obs s, (machine baseOnly).Run start [.poll 0 [], .accept 5 false, .shutdown true 1, .doPendingFuncs 0] obs s ∧
        s.nxtConnID = 2 ∧ (s.conn 1).loop = 0 ∧ (s.loops 0).phase = .functors ∧ s.inflight = [] ∧
        (s.loops 0).queue = .empty ∧ s.conns.find? (baseOnly.connName 1) = some 1 ∧ s.destructor.isNone = true :=
    Machine.Run.exists_of_trace (by decide +kernel)
  refine ⟨obs, s, hrun, fun c hc => ?_, hphase, fun f => ?_, hfind, Option.isNone_iff_eq_none.mp hnone⟩
  · rw [eq_one_of_accepted hnxt hc]
    exact hloop
  · rw [pending, hflight, hqueue]
    rfl

end Chtho.Net.TcpServer
