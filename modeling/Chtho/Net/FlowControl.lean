import Chtho.Net.OutputStream

/-! The notifications that let a producer control its flow.

The backlog of a connection is raised by `sendInLoop` and lowered by `handleWrite`. A step
queues the high water mark functor exactly if it takes the backlog from below the mark to the
mark or above (`StepSpec.marks`), and whoever empties the backlog queues the write complete
functor (`StepSpec.drained`); so does a message that needs no backlog, if it is not given up
(`sendInLoop_notifies`). What a run queues follows by counting crossings. -/
namespace Chtho.Net.TcpConnection
open Lib OutputStream

/-- The bytes that wait. -/
def backlog (c : TcpConnection) : Nat := c.outputBuf.readableBytes

def Effect.isHighWaterMark : Effect → Bool
  | .queueInLoop (.highWaterMark _) => true
  | _ => false

/-- How many high water mark functors were queued. -/
def marks (o : List Effect) : Nat := o.countP Effect.isHighWaterMark

@[simp] theorem marks_nil : marks [] = 0 := rfl

@[simp] theorem marks_append (o₁ o₂ : List Effect) : marks (o₁ ++ o₂) = marks o₁ + marks o₂ := List.countP_append

@[simp] theorem marks_cons (e : Effect) (o : List Effect) :
    marks (e :: o) = (if e.isHighWaterMark then 1 else 0) + marks o := by
  rw [marks, List.countP_cons, Nat.add_comm]
  rfl

/-- The connection with another mark. -/
def withMark (c : TcpConnection) (mark : Nat) : TcpConnection := {c with highWaterMark := mark}

/-- Both callbacks are set. -/
structure Notifying (mark : Nat) (c : TcpConnection) : Prop where
  writeCompleteCB : c.writeCompleteCB = true
  highWaterMarkCB : c.highWaterMarkCB = true
  highWaterMark : c.highWaterMark = mark
  inv : c.outputBuf.Inv

/-- What a step says of the backlog. -/
structure StepSpec (mark : Nat) (c c' : TcpConnection) (o : List Effect) : Prop where
  notifying : Notifying mark c'
  marks : marks o = if c.backlog < mark ∧ mark ≤ c'.backlog then 1 else 0
  drained : c.backlog ≠ 0 → c'.backlog = 0 → .queueInLoop .writeComplete ∈ o

variable {mark : Nat} {c c' : TcpConnection}

/-- A step that leaves `outputBuf` and queues nothing. -/
theorem StepSpec.of_same {o : List Effect} (h : Notifying mark c) (hbuf : c'.outputBuf = c.outputBuf)
    (hcomplete : c'.writeCompleteCB = c.writeCompleteCB) (hcb : c'.highWaterMarkCB = c.highWaterMarkCB)
    (hmark : c'.highWaterMark = c.highWaterMark) (hnone : TcpConnection.marks o = 0) : StepSpec mark c c' o where
  notifying := ⟨hcomplete ▸ h.writeCompleteCB, hcb ▸ h.highWaterMarkCB, hmark ▸ h.highWaterMark, hbuf ▸ h.inv⟩
  marks := by
    have hsame : c'.backlog = c.backlog := congrArg Buffer.readableBytes hbuf
    rw [hnone, hsame, if_neg (by omega)]
  drained := by
    intro hne hnil
    exact absurd ((congrArg Buffer.readableBytes hbuf).symm.trans hnil) hne

/-! ### What each function says -/

theorem keep_notifies (h : Notifying mark c) {rest : Bytes} (hne : rest ≠ []) {o : List Effect}
    (hkeep : c.keep rest = some (c', o)) : StepSpec mark c c' o ∧ c'.backlog = c.backlog + rest.length := by
  obtain ⟨b, happend, hinv, hcontent⟩ := Buffer.append_spec h.inv rest
  have hlength : b.readableBytes = c.backlog + rest.length := by
    rw [← Buffer.length_content hinv, hcontent, List.length_append, Buffer.length_content h.inv]
    rfl
  have hpos := List.length_pos_iff.mpr hne
  -- the test of the source is that the backlog crosses the mark
  have hcount : marks (if c.highWaterMark ≤ c.outputBuf.readableBytes + rest.length ∧
      c.outputBuf.readableBytes < c.highWaterMark ∧ c.highWaterMarkCB = true then
        [Effect.queueInLoop (.highWaterMark (c.outputBuf.readableBytes + rest.length))] else []) =
      if c.backlog < mark ∧ mark ≤ b.readableBytes then 1 else 0 := by
    rw [h.highWaterMarkCB, h.highWaterMark, hlength, backlog]
    by_cases hcross : c.outputBuf.readableBytes < mark ∧ mark ≤ c.outputBuf.readableBytes + rest.length
    · rw [if_pos ⟨hcross.2, hcross.1, rfl⟩, if_pos hcross]
      rfl
    · rw [if_neg (fun hall => hcross ⟨hall.2.1, hall.1⟩), if_neg hcross]
      rfl
  unfold keep at hkeep
  simp only [happend, Option.bind_eq_bind, Option.bind_some] at hkeep
  split at hkeep
  all_goals
    obtain ⟨rfl, rfl⟩ := Prod.mk.inj (Option.some.inj hkeep)
    refine ⟨⟨⟨h.writeCompleteCB, h.highWaterMarkCB, h.highWaterMark, hinv⟩, ?_, ?_⟩, hlength⟩
  case isTrue.refine_1 => exact hcount
  case isFalse.refine_1 =>
    rw [marks_append, hcount]
    rfl
  all_goals
    intro _ hnil
    have hzero : b.readableBytes = 0 := hnil
    omega

/-- The direct write queues the write complete functor, if any, and only for a whole message. -/
theorem writeDirect_notifies (h : Notifying mark c) (data : Bytes) (r : Write) :
    marks (c.writeDirect data r).effects = 0 ∧
      (data ≠ [] → data.drop (c.writeDirect data r).nwritten = [] →
        .queueInLoop .writeComplete ∈ (c.writeDirect data r).effects) := by
  unfold writeDirect
  split
  · cases r with
    | wrote n =>
      refine ⟨?_, fun hne hnil => ?_⟩
      · simp only [marks_cons, Effect.isHighWaterMark, Bool.false_eq_true, if_false, Nat.zero_add]
        split <;> rfl
      · have hlen : data.length - n = 0 := by
          rw [← List.length_drop, hnil]
          rfl
        simp [hlen, h.writeCompleteCB]
    | failed errno logged => exact ⟨rfl, fun hne hnil => absurd hnil hne⟩
  · exact ⟨rfl, fun hne hnil => absurd hnil hne⟩

/-- **`sendInLoop`.** A message raises the backlog by what is not written directly, and one
that raises nothing is complete or given up. -/
theorem sendInLoop_notifies (h : Notifying mark c) {data : Bytes} {r : Write} {o : List Effect}
    (hsend : c.sendInLoop data r = some (c', o)) :
    StepSpec mark c c' o ∧
      (c.state ≠ .disconnected → data ≠ [] → (c.writeDirect data r).faulterr = false →
        c'.backlog ≠ 0 ∨ .queueInLoop .writeComplete ∈ o) ∧
      (c.state ≠ .disconnected → (c.writeDirect data r).faulterr = true → c' = c ∧ o = (c.writeDirect data r).effects) := by
  unfold sendInLoop at hsend
  split at hsend
  case isTrue hdown =>
    obtain ⟨rfl, rfl⟩ := Prod.mk.inj (Option.some.inj hsend)
    exact ⟨.of_same h rfl rfl rfl rfl rfl, fun hup => absurd hdown hup, fun hup => absurd hdown hup⟩
  case isFalse hup =>
    obtain ⟨hquiet, hcomplete⟩ := writeDirect_notifies h data r
    obtain ⟨_, hsend⟩ := assert_bind_eq_some_iff.mp hsend
    dsimp only at hsend
    split at hsend
    case isTrue hkeep =>
      rw [Bool.and_eq_true, decide_eq_true_eq] at hkeep
      obtain ⟨⟨c₁, o₁⟩, hkept, hsend⟩ := Option.bind_eq_some_iff.mp hsend
      obtain ⟨rfl, rfl⟩ := Prod.mk.inj (Option.some.inj hsend)
      obtain ⟨hspec, hraised⟩ := keep_notifies h (List.length_pos_iff.mp hkeep.2) hkept
      have hwaits : c₁.backlog ≠ 0 := by omega
      refine ⟨⟨hspec.notifying, ?_, fun hne hnil => List.mem_append_right _ (hspec.drained hne hnil)⟩,
        fun _ _ _ => .inl hwaits, fun _ hfault => ?_⟩
      · rw [marks_append, hquiet, Nat.zero_add, hspec.marks]
      · rw [hfault] at hkeep
        cases hkeep.1
    case isFalse hrest =>
      obtain ⟨rfl, rfl⟩ := Prod.mk.inj (Option.some.inj hsend)
      refine ⟨.of_same h rfl rfl rfl rfl hquiet, fun _ hne hok => .inr (hcomplete hne ?_), fun _ _ => ⟨rfl, rfl⟩⟩
      rw [hok, Bool.not_false, Bool.true_and, decide_eq_true_eq] at hrest
      exact List.length_eq_zero_iff.mp (Nat.eq_zero_of_not_pos hrest)

theorem marks_shutdownInLoop (c : TcpConnection) : marks c.shutdownInLoop = 0 := by
  unfold shutdownInLoop
  split <;> rfl

/-- A message is given up only when nothing waits, and then nothing is queued. -/
theorem given_up (h : c.Backlog) {data : Bytes} {r : Write} (hr : r.Within data.length)
    (hfault : (c.writeDirect data r).faulterr = true) :
    c.backlog = 0 ∧ .queueInLoop .writeComplete ∉ (c.writeDirect data r).effects := by
  obtain ⟨_, _, hiff, _⟩ := writeDirect_spec h data r hr
  refine ⟨(Buffer.content_eq_nil_iff h.inv).mp (hiff.mp hfault).2, ?_⟩
  unfold writeDirect at hfault ⊢
  split at hfault
  · cases r with
    | wrote n => cases hfault
    | failed errno logged => simp [*]
  · cases hfault

/-- **`handleWrite`.** It lowers the backlog, and says so when it has emptied it. -/
theorem handleWrite_notifies (h : Notifying mark c) {r : Write} (hr : r.Within c.outputBuf.readableBytes)
    {o : List Effect} (hwrite : c.handleWrite r = some (c', o)) : StepSpec mark c c' o := by
  unfold handleWrite at hwrite
  split at hwrite
  · split at hwrite
    · case h_1 n =>
      obtain ⟨b, hretrieve, hinv, hcontent⟩ := Buffer.retrieve_spec h.inv (n + 1) hr
      have hlower : b.readableBytes ≤ c.backlog := by
        rw [← Buffer.length_content hinv, hcontent, List.length_drop, Buffer.length_content h.inv]
        exact Nat.sub_le _ _
      simp only [hretrieve, Option.bind_eq_bind, Option.bind_some] at hwrite
      split at hwrite
      · obtain ⟨rfl, rfl⟩ := Prod.mk.inj (Option.some.inj hwrite)
        refine ⟨⟨h.writeCompleteCB, h.highWaterMarkCB, h.highWaterMark, hinv⟩, ?_, ?_⟩
        · have hclose : ∀ c' : TcpConnection,
              marks (if c.state = .disconnecting then c'.shutdownInLoop else []) = 0 := by
            intro c'
            split
            · exact marks_shutdownInLoop c'
            · rfl
          have hno : ¬ (c.backlog < mark ∧ mark ≤ b.readableBytes) := by omega
          rw [marks_append, marks_append, hclose, h.writeCompleteCB]
          exact (if_neg hno).symm
        · intro _ _
          simp [h.writeCompleteCB]
      · case isFalse hsome =>
        obtain ⟨rfl, rfl⟩ := Prod.mk.inj (Option.some.inj hwrite)
        refine ⟨⟨h.writeCompleteCB, h.highWaterMarkCB, h.highWaterMark, hinv⟩, ?_, fun _ hnil => absurd hnil hsome⟩
        have hno : ¬ (c.backlog < mark ∧ mark ≤ b.readableBytes) := by omega
        exact (if_neg hno).symm
    · obtain ⟨rfl, rfl⟩ := Prod.mk.inj (Option.some.inj hwrite)
      exact .of_same h rfl rfl rfl rfl rfl
  · obtain ⟨rfl, rfl⟩ := Prod.mk.inj (Option.some.inj hwrite)
    exact .of_same h rfl rfl rfl rfl rfl

/-- **Every step.** -/
theorem step_notifies (h : Notifying mark c) {a : Action} (he : Enabled c a) {o : List Effect}
    (hstep : step c a = some (c', o)) : StepSpec mark c c' o := by
  cases a with
  | sendInLoop data r => exact (sendInLoop_notifies h hstep).1
  | handleWrite r => exact handleWrite_notifies h he hstep
  | connEstablished =>
    obtain ⟨_, hstep⟩ := assert_bind_eq_some_iff.mp hstep
    obtain ⟨rfl, rfl⟩ := Prod.mk.inj (Option.some.inj hstep)
    exact .of_same h rfl rfl rfl rfl rfl
  | handleClose =>
    obtain ⟨_, hstep⟩ := assert_bind_eq_some_iff.mp hstep
    obtain ⟨rfl, rfl⟩ := Prod.mk.inj (Option.some.inj hstep)
    exact .of_same h rfl rfl rfl rfl rfl
  | shutdown =>
    obtain ⟨rfl, rfl⟩ := Prod.mk.inj (Option.some.inj hstep)
    by_cases hcon : c.state = .connected
    · simp only [shutdown, if_pos hcon, if_true]
      exact .of_same h rfl rfl rfl rfl (marks_shutdownInLoop _)
    · simp only [shutdown, if_neg hcon]
      exact .of_same h rfl rfl rfl rfl rfl
  | forceClose =>
    obtain ⟨rfl, rfl⟩ := Prod.mk.inj (Option.some.inj hstep)
    unfold forceClose
    split
    all_goals exact .of_same h rfl rfl rfl rfl rfl

/-! ### Runs -/

/-- A step after which the backlog is so. -/
def Ends (p : Nat → Prop) (c : TcpConnection) (a : Action) : Prop := ∀ r ∈ step c a, p r.1.backlog

/-- The runs after each step of which the backlog is so. -/
def staying (p : Nat → Prop) : Machine TcpConnection Action Effect := machine.restrict (Ends p)

variable {c₀ : TcpConnection} {as : List Action} {obs : List Effect} {p : Nat → Prop}

theorem run_notifying (h : Notifying mark c) (hrun : machine.Run c as obs c') : Notifying mark c' :=
  hrun.invariant (fun _ c => Notifying mark c) h fun _ _ _ _ _ hI he hs => (step_notifies hI he hs).notifying

/-- While the backlog stays below the mark, nothing is said of it. -/
theorem marks_below (h : Notifying mark c) (hrun : (staying (· < mark)).Run c as obs c') : marks obs = 0 := by
  refine (hrun.invariant (fun obs c => Notifying mark c ∧ marks obs = 0) ⟨h, rfl⟩ ?_).2
  rintro obs c a c' o ⟨hI, hnone⟩ ⟨he, hbelow⟩ hs
  have hspec := step_notifies hI he hs
  have hend : c'.backlog < mark := hbelow _ hs
  exact ⟨hspec.notifying, by rw [marks_append, hnone, hspec.marks, if_neg (by omega)]⟩

/-- While it stays at the mark or above, the crossing is what was said. -/
theorem marks_above (h : Notifying mark c) (hlow : c.backlog < mark) (hrun : (staying (mark ≤ ·)).Run c as obs c') :
    marks obs = if as = [] then 0 else 1 := by
  refine (hrun.invariant_actions (fun as obs c' => Notifying mark c' ∧
    (as = [] → c' = c) ∧ (as ≠ [] → mark ≤ c'.backlog) ∧ marks obs = if as = [] then 0 else 1) ?_ ?_).2.2.2
  · exact ⟨h, fun _ => rfl, fun hne => absurd rfl hne, rfl⟩
  · rintro as obs c₁ a c₂ o ⟨hI, hfirst, hlater, hcount⟩ ⟨he, habove⟩ hs
    have hspec := step_notifies hI he hs
    have hend : mark ≤ c₂.backlog := habove _ hs
    refine ⟨hspec.notifying, fun hnil => absurd hnil (by simp), fun _ => hend, ?_⟩
    rw [marks_append, hcount, hspec.marks, if_neg (by simp : as ++ [a] ≠ [])]
    by_cases hnil : as = []
    · obtain rfl := hfirst hnil
      rw [if_pos hnil, if_pos ⟨hlow, hend⟩]
    · have hbefore := hlater hnil
      rw [if_neg hnil, if_neg (by omega)]

/-- At the mark or above, a run that began below has crossed it. -/
theorem exists_crossing (hrun : machine.Run c₀ as obs c) (hlow : c₀.backlog < mark) (hhigh : mark ≤ c.backlog) :
    ∃ as₁ obs₁ c₁ as₂ obs₂, as = as₁ ++ as₂ ∧ obs = obs₁ ++ obs₂ ∧ machine.Run c₀ as₁ obs₁ c₁ ∧ c₁.backlog < mark ∧
      as₂ ≠ [] ∧ (staying (mark ≤ ·)).Run c₁ as₂ obs₂ c := by
  induction hrun with
  | nil => omega
  | @snoc as obs c a c' o hrun he hs ih =>
    have hends : Ends (mark ≤ ·) c a := by
      intro r hr
      obtain rfl := Option.some.inj (hs.symm.trans hr)
      exact hhigh
    by_cases hbefore : mark ≤ c.backlog
    · obtain ⟨as₁, obs₁, c₁, as₂, obs₂, rfl, rfl, hrun₁, hlow₁, hne, hrun₂⟩ := ih hbefore
      exact ⟨as₁, obs₁, c₁, as₂ ++ [a], obs₂ ++ o, List.append_assoc .., List.append_assoc .., hrun₁, hlow₁,
        by simp, .snoc hrun₂ ⟨he, hends⟩ hs⟩
    · exact ⟨as, obs, c, [a], o, rfl, rfl, hrun, Nat.lt_of_not_le hbefore, by simp, .snoc .nil ⟨he, hends⟩ hs⟩

/-- Once something waits or was reported complete, this stays so. -/
theorem run_complete (h : Notifying mark c) {o : List Effect} (hfirst : c.backlog ≠ 0 ∨ .queueInLoop .writeComplete ∈ o)
    (hrun : machine.Run c as obs c') : c'.backlog ≠ 0 ∨ .queueInLoop .writeComplete ∈ o ++ obs := by
  refine (hrun.invariant (fun obs c' => Notifying mark c' ∧
    (c'.backlog ≠ 0 ∨ .queueInLoop .writeComplete ∈ o ++ obs)) ⟨h, by simpa using hfirst⟩ ?_).2
  rintro obs c₁ a c₂ o' ⟨hI, hone⟩ he hs
  have hspec := step_notifies hI he hs
  refine ⟨hspec.notifying, ?_⟩
  rw [← List.append_assoc, List.mem_append]
  by_cases hnil : c₂.backlog = 0
  · rcases hone with hwaits | hsaid
    · exact .inr (.inr (hspec.drained hwaits hnil))
    · exact .inr (.inl hsaid)
  · exact .inl hnil

theorem create_notifying {fd : Nat} (h : create fd true true = some c) (mark : Nat) :
    Notifying mark (c.withMark mark) ∧ (c.withMark mark).backlog = 0 ∧ (c.withMark mark).Backlog := by
  obtain ⟨hbacklog, hnil⟩ := create_backlog h
  have hsettings : c.writeCompleteCB = true ∧ c.highWaterMarkCB = true := by
    obtain ⟨b, hb, _⟩ := Buffer.create_spec Buffer.kInit
    simp only [create, hb, Option.bind_eq_bind, Option.bind_some, Option.some.injEq] at h
    subst h
    exact ⟨rfl, rfl⟩
  exact ⟨⟨hsettings.1, hsettings.2, rfl, hbacklog.inv⟩, (Buffer.content_eq_nil_iff hbacklog.inv).mp hnil,
    hbacklog.inv, hbacklog.writing⟩

/-- The bytes are given up if nothing waits and the log line spoils `errno`. -/
theorem faulterr_iff (h : c.Backlog) {data : Bytes} {r : Write} (hne : data ≠ []) (hr : r.Within data.length) :
    (c.writeDirect data r).faulterr = false ↔ KeepsErrno c (.sendInLoop data r) := by
  obtain ⟨_, _, hfault, _⟩ := writeDirect_spec h data r hr
  rw [← Bool.not_eq_true, hfault, KeepsErrno]
  simp [hne]

/-- **Flow control.** A connection with both callbacks set, any mark, and any run in which
`::write` does not find the peer gone. From a state with the backlog below the mark on, one
high water mark functor is queued as long as the backlog stays at the mark or above, and none
while it stays below; a backlog at a positive mark or above has come from below. After a
message was sent, something waits or a write complete functor was queued, exactly if no line logged
about its direct write leaves `EPIPE` or `ECONNRESET` in `errno`. -/
theorem notifications {fd mark : Nat} {c₀ c : TcpConnection} {as : List Action} {obs : List Effect}
    (h₀ : create fd true true = some c₀) (hrun : machine.Run (c₀.withMark mark) as obs c) :
    (∀ as' obs' c', c.backlog < mark → (staying (mark ≤ ·)).Run c as' obs' c' → as' ≠ [] → marks obs' = 1) ∧
      (∀ as' obs' c', (staying (· < mark)).Run c as' obs' c' → marks obs' = 0) ∧
      (0 < mark → mark ≤ c.backlog → ∃ as₁ obs₁ c₁ as₂ obs₂, as = as₁ ++ as₂ ∧ obs = obs₁ ++ obs₂ ∧
        machine.Run (c₀.withMark mark) as₁ obs₁ c₁ ∧ c₁.backlog < mark ∧ (staying (mark ≤ ·)).Run c₁ as₂ obs₂ c ∧
        marks obs₂ = 1) ∧
      (∀ data r c' o, c.state ≠ .disconnected → data ≠ [] → Enabled c (.sendInLoop data r) →
        c.sendInLoop data r = some (c', o) →
        ((∀ as' obs' c'', machine.Run c' as' obs' c'' →
            c''.backlog ≠ 0 ∨ .queueInLoop .writeComplete ∈ o ++ obs') ↔ KeepsErrno c (.sendInLoop data r))) := by
  obtain ⟨hinit, hempty, hbacklog⟩ := create_notifying h₀ mark
  have hI := run_notifying hinit hrun
  refine ⟨?_, fun as' obs' c' hbelow => marks_below hI hbelow, ?_, ?_⟩
  · intro as' obs' c' hlow habove hne
    rw [marks_above hI hlow habove, if_neg hne]
  · intro hpos hhigh
    obtain ⟨as₁, obs₁, c₁, as₂, obs₂, has, hobs, hrun₁, hlow₁, hne, hrun₂⟩ :=
      exists_crossing hrun (by omega) hhigh
    refine ⟨as₁, obs₁, c₁, as₂, obs₂, has, hobs, hrun₁, hlow₁, hrun₂, ?_⟩
    rw [marks_above (run_notifying hinit hrun₁) hlow₁ hrun₂, if_neg hne]
  · intro data r c' o hup hne he hsend
    obtain ⟨hspec, hfirst, hgiven⟩ := sendInLoop_notifies hI hsend
    have hkeeps := faulterr_iff (backlog_run hbacklog hrun hup) hne he.1
    constructor
    · -- a message that is given up leaves no backlog and says nothing
      intro hall
      by_contra hspoiled
      rw [← hkeeps, Bool.not_eq_false] at hspoiled
      obtain ⟨rfl, rfl⟩ := hgiven hup hspoiled
      obtain ⟨hnil, hnone⟩ := given_up (backlog_run hbacklog hrun hup) he.1 hspoiled
      rcases hall [] [] c' .nil with hwaits | hsaid
      · exact hwaits hnil
      · rw [List.append_nil] at hsaid
        exact hnone hsaid
    · intro hkept as' obs' c'' hlater
      exact run_complete hspec.notifying (hfirst hup hne (hkeeps.mpr hkept)) hlater

/-- Two messages wait, and a mark of four bytes lies between them. -/
def twoMessages : List Action :=
  [.connEstablished, .sendInLoop [1, 2, 3] (.failed .ewouldblock .ewouldblock), .sendInLoop [4, 5] (.wrote 0)]

theorem notifications_twoMessages :
    ∃ c₀ obs c, create 5 true true = some c₀ ∧ machine.Run (c₀.withMark 4) twoMessages obs c ∧ c.backlog = 5 ∧
      ∃ as₁ obs₁ c₁ as₂ obs₂, twoMessages = as₁ ++ as₂ ∧ obs = obs₁ ++ obs₂ ∧
        machine.Run (c₀.withMark 4) as₁ obs₁ c₁ ∧ c₁.backlog < 4 ∧ (staying (4 ≤ ·)).Run c₁ as₂ obs₂ c ∧
        marks obs₂ = 1 := by
  obtain ⟨s₀, obs, c, hstart, hrun, hbacklog⟩ :
      ∃ s₀ obs c, (create 5 true true).map (·.withMark 4) = some s₀ ∧ machine.Run s₀ twoMessages obs c ∧
        c.outputBuf.readableBytes = 5 :=
    Machine.Run.exists_of_start (by decide +kernel)
  obtain ⟨c₀, h₀, rfl⟩ := Option.map_eq_some_iff.mp hstart
  have hhigh : 4 ≤ c.backlog := by
    rw [backlog, hbacklog]
    decide
  exact ⟨c₀, obs, c, h₀, hrun, hbacklog, (notifications h₀ hrun).2.2.1 (by decide) hhigh⟩

/-- A direct write is interrupted and the log line leaves `ECONNRESET` in `errno`: nothing waits, and
nothing was said of the message. -/
theorem silent_behind_log :
    ∃ c₀ obs c, create 5 true true = some c₀ ∧
      machine.Run c₀ [.connEstablished, .sendInLoop [1] (.failed .eintr .econnreset)] obs c ∧ c.state = .connected ∧
      c.backlog = 0 ∧ .queueInLoop .writeComplete ∉ obs := by
  obtain ⟨c₀, obs, c, h₀, hrun, hs, hbacklog, hnone⟩ :
      ∃ c₀ obs c, create 5 true true = some c₀ ∧
        machine.Run c₀ [.connEstablished, .sendInLoop [1] (.failed .eintr .econnreset)] obs c ∧ c.state = .connected ∧
        c.outputBuf.readableBytes = 0 ∧ .queueInLoop .writeComplete ∉ obs :=
    Machine.Run.exists_of_start (by decide +kernel)
  exact ⟨c₀, obs, c, h₀, hrun, hs, hbacklog, hnone⟩

end Chtho.Net.TcpConnection
