import Chtho.Net.Poller.EPoll
import Chtho.Net.Poller.Poll

/-! When the two pollers agree.

`newDefaultPoller` picks one of two implementations, and the same operations on the
same channels should make both monitor what the registry asks for. They do as long as
every operation is `Sound`. Otherwise one of them fails: `Poll` keeps the index of a
channel it removed, so that the channel cannot be enabled again, and `EPoll` adds a channel
that it does not have in the kernel's table whatever its events are, so that an operation that
enables nothing enters it there with no events. -/
namespace Chtho.Net.Poller

variable {ι : Type}

/-- Both pollers get through the operations, and both then monitor what the registry asks for. -/
def Agree [DecidableEq ι] (fds : ι → Nat) (ops : List (Op ι)) : Prop :=
  ∃ p e, Poll.poller.run (Poll.create fds) ops = some p ∧ EPoll.poller.run (EPoll.create fds) ops = some e ∧
    (∀ n events, p.poller.Monitors n events ↔ (Registry.after ops).Monitors fds n events) ∧
    ∀ n events, e.poller.Monitors n events ↔ (Registry.after ops).Monitors fds n events

/-- The channel was not removed before, and the operation leaves it with events or
takes away all it had. -/
def Sound (r : Registry ι) : Op ι → Prop
  | .change k c => (r c).status ≠ .removed ∧
      (k.mask (r c).events ≠ 0 ∨ (r c).status = .registered ∧ (r c).events ≠ 0)
  | .remove _ => True

instance (r : Registry ι) : (op : Op ι) → Decidable (Sound r op)
  | .change k c => inferInstanceAs (Decidable ((r c).status ≠ .removed ∧
      (k.mask (r c).events ≠ 0 ∨ (r c).status = .registered ∧ (r c).events ≠ 0)))
  | .remove _ => inferInstanceAs (Decidable True)

variable {r : Registry ι} {op : Op ι}

theorem Sound.usable (h : Sound r op) : Poll.Usable r op := by
  cases op with
  | remove c => trivial
  | change k c =>
    obtain ⟨hnot, heffective⟩ := h
    refine ⟨hnot, fun hfresh => heffective.resolve_right fun hboth => ?_⟩
    rw [hfresh] at hboth
    cases hboth.1

theorem Sound.effective (h : Sound r op) : EPoll.Effective r op := by
  cases op with
  | remove c => trivial
  | change k c => exact h.2

variable [DecidableEq ι] {fds : ι → Nat} {ops : List (Op ι)}

/-- `Poll` is indexed by the registered channels after sound operations. -/
theorem poll_run (hfds : fds.Injective) (hlegal : Registry.Throughout Registry.Legal ops)
    (hsound : Registry.Throughout Sound ops) :
    ∃ p, Poll.poller.run (Poll.create fds) ops = some p ∧ Poll.Inv fds (.after ops) p :=
  run_of_step (Poll.Inv fds) Poll.inv_create
    (fun _ _ _ hinv hop => hinv.step hfds hop.1 hop.2.usable) (hlegal.and hsound)

/-- And the kernel's table has the channels with events. -/
theorem epoll_run (hfds : fds.Injective) (hlegal : Registry.Throughout Registry.Legal ops)
    (hsound : Registry.Throughout Sound ops) :
    ∃ e, EPoll.poller.run (EPoll.create fds) ops = some e ∧ EPoll.Inv fds (.after ops) e ∧
      EPoll.Exact (.after ops) e := by
  refine run_of_step (fun r e => EPoll.Inv fds r e ∧ EPoll.Exact r e) ⟨EPoll.inv_create, ?_⟩ ?_ (hlegal.and hsound)
  · intro c hidx
    exact absurd (show (-1 : Int) = EPoll.kAdded from hidx) (by decide)
  · rintro r e op ⟨hinv, hexact⟩ ⟨hop, hopsound⟩
    obtain ⟨e', hs, hinv'⟩ := hinv.step hfds hop
    exact ⟨e', hs, hinv', hinv.exact_step hfds hexact hop hopsound.effective hs⟩

theorem agree_of_sound (hfds : fds.Injective) (hlegal : Registry.Throughout Registry.Legal ops)
    (hsound : Registry.Throughout Sound ops) : Agree fds ops := by
  obtain ⟨p, hp, hpinv⟩ := poll_run hfds hlegal hsound
  obtain ⟨e, he, heinv, hexact⟩ := epoll_run hfds hlegal hsound
  exact ⟨p, e, hp, he, hpinv.monitors, heinv.monitors hexact⟩

/-- After an operation that is not sound one of the pollers has failed. -/
theorem sound_of_agree (hfds : fds.Injective) (hlegal : Registry.Throughout Registry.Legal ops)
    (hsound : Registry.Throughout Sound ops) (h : Agree fds (ops ++ [op])) : Sound (.after ops) op := by
  obtain ⟨p, hp, hpinv⟩ := poll_run hfds hlegal hsound
  obtain ⟨e, he, heinv, hexact⟩ := epoll_run hfds hlegal hsound
  obtain ⟨p', e', hp', he', -, hmonitors⟩ := h
  rw [run_snoc, hp, Option.bind_some] at hp'
  rw [run_snoc, he, Option.bind_some] at he'
  cases op with
  | remove c => trivial
  | change k c =>
    refine ⟨fun hremoved => ?_, ?_⟩
    · rw [hpinv.removed_aborts hfds hremoved] at hp'
      cases hp'
    · by_contra hnot
      have hineffective : ¬ EPoll.Effective (.after ops) (.change k c) := hnot
      obtain ⟨n, hzero⟩ := heinv.ineffective hfds hexact hineffective he'
      obtain ⟨c', -, -, -, hne⟩ := (hmonitors n 0).mp hzero
      exact hne rfl

/-- The pollers agree at every point of a sequence of operations exactly if each of them is sound. -/
theorem agree_iff (hfds : fds.Injective) (hlegal : Registry.Throughout Registry.Legal ops) :
    (∀ done, done <+: ops → Agree fds done) ↔ Registry.Throughout Sound ops := by
  constructor
  · intro h
    induction ops using List.reverseRecOn with
    | nil => exact Registry.throughout_nil
    | append_singleton ops op ih =>
      have hprefix := List.prefix_append ops [op]
      have hsound := ih (hlegal.of_prefix hprefix) fun done hdone => h done (hdone.trans hprefix)
      refine Registry.throughout_snoc.mpr ⟨hsound, ?_⟩
      exact sound_of_agree hfds (hlegal.of_prefix hprefix) hsound (h _ (List.prefix_refl _))
  · intro hsound done hdone
    exact agree_of_sound hfds (hlegal.of_prefix hdone) (hsound.of_prefix hdone)

/-- Two channels, of which the first leaves, so that the entry of the second moves. -/
theorem agree_iff_two :
    let ops : List (Op (Fin 2)) := [.change .enableRead 0, .change .enableWrite 1, .change .enableWrite 0,
      .change .disableAll 0, .remove 0, .change .disableAll 1, .change .enableRead 1]
    Registry.Throughout Sound ops ∧ ∀ done, done <+: ops → Agree (fun c => c.val + 5) done :=
  ⟨by decide +kernel, (agree_iff (fun _ _ h => Fin.ext (Nat.add_right_cancel h)) (by decide +kernel)).mpr
    (by decide +kernel)⟩

/-- A channel that is removed and then enabled again. -/
theorem disagree_after_remove :
    let fds : Fin 1 → Nat := fun _ => 3
    let ops : List (Op (Fin 1)) := [.change .enableRead 0, .change .disableAll 0, .remove 0, .change .enableRead 0]
    fds.Injective ∧ Registry.Throughout Registry.Legal ops ∧ ¬ Agree fds ops := by
  refine ⟨fun c d _ => Subsingleton.elim c d, by decide +kernel, ?_⟩
  rintro ⟨p, e, hp, -⟩
  have hnone : (Poll.poller.run (Poll.create (fun _ => 3)) [.change .enableRead 0, .change .disableAll 0, .remove 0,
      .change .enableRead (0 : Fin 1)]).isNone = true := by decide +kernel
  rw [hp] at hnone
  cases hnone

end Chtho.Net.Poller
