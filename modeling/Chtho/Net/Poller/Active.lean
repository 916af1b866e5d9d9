import Chtho.Net.Poller.Poll
import Mathlib.Data.List.Forall2

/-! `Poll::fillActiveChannels`: from the answer of `poll(2)` to channels.

The answer is in the entries, and each entry must lead to its channel through
`channels_`. That works while the vector and the map are exact (`Mapped`), which they
are after any operations that `Inv` allows. Then an entry with events is not negated,
so that its descriptor is a key, and no two entries lead to one channel. -/
namespace Chtho.Net.Poll
open Lib

variable {ι : Type}

section Fill
variable [DecidableEq ι]

/-- The loop of `fillActiveChannels`, from an entry on. -/
def fillFrom : List PollFd → Nat → Host ι (Poll ι) → List ι → Option (Host ι (Poll ι) × List ι)
  | [], _, s, activeChannels => some (s, activeChannels)
  | pfd :: rest, numEvents, s, activeChannels =>
    if numEvents = 0 then some (s, activeChannels)
    else if 0 < pfd.revents.toInt then do
      assert (s.poller.channels.find? pfd.fd ≠ none)
      let channel ← s.poller.channels.find? pfd.fd
      assert ((s.channels channel).fd = pfd.fd)
      fillFrom rest (numEvents - 1) (s.set channel {s.channels channel with revents := pfd.revents.signExtend 32})
        (activeChannels ++ [channel])
    else fillFrom rest numEvents s activeChannels

def fillActiveChannels (s : Host ι (Poll ι)) (numEvents : Nat) (activeChannels : List ι) :
    Option (Host ι (Poll ι) × List ι) :=
  fillFrom s.poller.pollfds numEvents s activeChannels

end Fill

/-- What `poll(2)` may make of an entry: it ignores a negative descriptor, and sets
no sign bit. -/
structure Answers (pfd pfd' : PollFd) : Prop where
  fd : pfd'.fd = pfd.fd
  events : pfd'.events = pfd.events
  nonneg : 0 ≤ pfd'.revents.toInt
  ignored : pfd.fd < 0 → pfd'.revents = 0

/-- The entries after `poll(2)`. -/
def answered (s : Host ι (Poll ι)) (pollfds : List PollFd) : Host ι (Poll ι) := {s with poller.pollfds := pollfds}

/-- The vector and the map are those of the channels that `p` holds of. -/
structure Mapped (p : ι → Prop) (s : Host ι (Poll ι)) : Prop where
  keys : ∀ n c, s.poller.channels.find? n = some c ↔ p c ∧ ((s.channels c).fd : Int) = n
  entry : ∀ c, p c → ∃ i pfd, (s.channels c).idx = Int.ofNat i ∧ s.poller.pollfds[i]? = some pfd ∧
    pfd.fd = (if (s.channels c).isNoneEvent then -((s.channels c).fd : Int) - 1 else (s.channels c).fd) ∧
    pfd.events.signExtend 32 = (s.channels c).events
  owner : ∀ i, i < s.poller.pollfds.length → ∃! c, p c ∧ (s.channels c).idx = Int.ofNat i

/-- A channel's entry reports these events. -/
def Reports (s : Host ι (Poll ι)) (pollfds : List PollFd) (c : ι) (revents : BitVec 16) : Prop :=
  ∃ n i pfd, s.poller.channels.find? n = some c ∧ (s.channels c).idx = Int.ofNat i ∧ pollfds[i]? = some pfd ∧
    pfd.revents = revents ∧ revents ≠ 0

/-- `found` are the channels whose entries report events, which they were told. -/
structure Filled (s : Host ι (Poll ι)) (pollfds : List PollFd) (t : Host ι (Poll ι)) (found : List ι) : Prop where
  nodup : found.Nodup
  mem : ∀ c, c ∈ found ↔ ∃ revents, Reports s pollfds c revents
  told : ∀ c revents, Reports s pollfds c revents →
    t.channels c = {s.channels c with revents := revents.signExtend 32}
  others : ∀ c, c ∉ found → t.channels c = s.channels c
  poller : t.poller = s.poller

/-! ### The loop -/

section Loop
variable [DecidableEq ι]

theorem fillFrom_zero (es : List PollFd) (s : Host ι (Poll ι)) (active : List ι) :
    fillFrom es 0 s active = some (s, active) := by
  cases es with
  | nil => rfl
  | cons pfd rest => rw [fillFrom, if_pos rfl]

/-- An entry with events leads to the channel. -/
structure Leads (s : Host ι (Poll ι)) (pfd : PollFd) (c : ι) : Prop where
  pos : 0 < pfd.revents.toInt
  find : s.poller.channels.find? pfd.fd = some c
  fd : ((s.channels c).fd : Int) = pfd.fd

theorem fillFrom_cons {s : Host ι (Poll ι)} {pfd : PollFd} {c : ι} (h : Leads s pfd c) (rest : List PollFd) (n : Nat)
    (active : List ι) :
    fillFrom (pfd :: rest) (n + 1) s active =
      fillFrom rest n (s.set c {s.channels c with revents := pfd.revents.signExtend 32}) (active ++ [c]) := by
  simp [fillFrom, h.pos, h.find, h.fd]

/-- The channel that was told is not told again. -/
theorem leads_set {s : Host ι (Poll ι)} (c d : ι) (revents : BitVec 32) (e : PollFd) :
    Leads (s.set c {s.channels c with revents := revents}) e d ↔ Leads s e d := by
  have hfd : ((s.set c {s.channels c with revents := revents}).channels d).fd = (s.channels d).fd := by
    rw [Host.set_channels]
    split
    case isTrue hd => rw [hd]
    case isFalse => rfl
  constructor
  · intro h
    exact ⟨h.pos, h.find, hfd ▸ h.fd⟩
  · intro h
    exact ⟨h.pos, h.find, hfd.symm ▸ h.fd⟩

/-- Of these entries, those with events were found and told. -/
structure Told (es : List PollFd) (s t : Host ι (Poll ι)) (found : List ι) : Prop where
  nodup : found.Nodup
  mem : ∀ c, c ∈ found ↔ ∃ pfd ∈ es, pfd.revents ≠ 0 ∧ Leads s pfd c
  told : ∀ pfd ∈ es, ∀ c, pfd.revents ≠ 0 → Leads s pfd c →
    t.channels c = {s.channels c with revents := pfd.revents.signExtend 32}
  others : ∀ c, c ∉ found → t.channels c = s.channels c
  poller : t.poller = s.poller

variable {es : List PollFd} {s t : Host ι (Poll ι)} {pfd : PollFd} {found : List ι} {c : ι}

omit [DecidableEq ι] in
theorem Told.skip (h : Told es s t found) (hzero : pfd.revents = 0) : Told (pfd :: es) s t found where
  nodup := h.nodup
  mem := by
    intro c
    rw [h.mem]
    simp [hzero]
  told := by
    intro e he c hne
    rcases List.mem_cons.mp he with rfl | he
    · exact absurd hzero hne
    · exact h.told e he c hne
  others := h.others
  poller := h.poller

theorem Told.cons (hc : Leads s pfd c) (hne : pfd.revents ≠ 0) (hapart : ∀ e ∈ es, e.revents ≠ 0 → pfd.fd ≠ e.fd)
    (h : Told es (s.set c {s.channels c with revents := pfd.revents.signExtend 32}) t found) :
    Told (pfd :: es) s t (c :: found) := by
  have hother : ∀ e ∈ es, e.revents ≠ 0 → ∀ d, Leads s e d → d ≠ c := by
    rintro e he hne d hd rfl
    exact hapart e he hne (hc.fd.symm.trans hd.fd)
  have hnot : c ∉ found := by
    intro hin
    obtain ⟨e, he, hne, hd⟩ := (h.mem c).mp hin
    exact hother e he hne c ((leads_set ..).mp hd) rfl
  refine ⟨List.nodup_cons.mpr ⟨hnot, h.nodup⟩, fun d => ?_, fun e he d hne hd => ?_, fun d hd => ?_, h.poller⟩
  · rw [List.mem_cons, h.mem]
    constructor
    · rintro (rfl | ⟨e, he, hne, hd⟩)
      · exact ⟨pfd, List.mem_cons_self, hne, hc⟩
      · exact ⟨e, List.mem_cons_of_mem _ he, hne, (leads_set ..).mp hd⟩
    · rintro ⟨e, he, hne, hd⟩
      rcases List.mem_cons.mp he with rfl | he
      · exact .inl (Option.some.inj (hd.find.symm.trans hc.find))
      · exact .inr ⟨e, he, hne, (leads_set ..).mpr hd⟩
  · rcases List.mem_cons.mp he with rfl | he
    · obtain rfl : d = c := Option.some.inj (hd.find.symm.trans hc.find)
      rw [h.others d hnot, Host.set_self]
    · rw [h.told e he d hne ((leads_set ..).mpr hd), Host.set_channels, if_neg (hother e he hne d hd)]
  · obtain ⟨hdc, hd⟩ := not_or.mp (fun hin => hd (List.mem_cons.mpr hin))
    rw [h.others d hd, Host.set_channels, if_neg hdc]

/-- Entries that lead to channels of their own are all found, and nothing else is. -/
theorem fillFrom_spec (es : List PollFd) (s : Host ι (Poll ι)) (active : List ι)
    (hleads : ∀ pfd ∈ es, pfd.revents ≠ 0 → ∃ c, Leads s pfd c)
    (hdistinct : es.Pairwise fun pfd pfd' => pfd.revents ≠ 0 → pfd'.revents ≠ 0 → pfd.fd ≠ pfd'.fd) :
    ∃ t found, fillFrom es (es.countP (·.revents ≠ 0)) s active = some (t, active ++ found) ∧ Told es s t found := by
  induction es generalizing s active with
  | nil => exact ⟨s, [], by simp [fillFrom], .nil, by simp, by simp, fun _ _ => rfl, rfl⟩
  | cons pfd rest ih =>
    obtain ⟨hhead, htail⟩ := List.pairwise_cons.mp hdistinct
    by_cases hzero : pfd.revents = 0
    · -- the count may have run out here, which the rest would not notice
      have hskip : fillFrom (pfd :: rest) (rest.countP (·.revents ≠ 0)) s active =
          fillFrom rest (rest.countP (·.revents ≠ 0)) s active := by
        rw [fillFrom, hzero]
        split
        case isTrue hnone => rw [hnone, fillFrom_zero]
        case isFalse => rfl
      obtain ⟨t, found, hfill, htold⟩ := ih s active (fun e he => hleads e (List.mem_cons_of_mem _ he)) htail
      refine ⟨t, found, ?_, htold.skip hzero⟩
      rw [List.countP_cons_of_neg (by simpa using hzero), hskip, hfill]
    · obtain ⟨c, hc⟩ := hleads pfd List.mem_cons_self hzero
      have hrest : ∀ e ∈ rest, e.revents ≠ 0 →
          ∃ d, Leads (s.set c {s.channels c with revents := pfd.revents.signExtend 32}) e d := by
        intro e he hne
        obtain ⟨d, hd⟩ := hleads e (List.mem_cons_of_mem _ he) hne
        exact ⟨d, (leads_set ..).mpr hd⟩
      obtain ⟨t, found, hfill, htold⟩ := ih _ (active ++ [c]) hrest htail
      refine ⟨t, c :: found, ?_, htold.cons hc hzero fun e he hne => hhead e he hzero hne⟩
      rw [List.countP_cons_of_pos (by simpa using hzero), fillFrom_cons hc, hfill, List.append_assoc]
      rfl

end Loop

/-! ### Where the entries lead -/

variable {fds : ι → Nat} {r : Poller.Registry ι} {s : Host ι (Poll ι)} {pollfds : List PollFd}

theorem Inv.mapped (h : Inv fds r s) (hfds : fds.Injective) : Mapped (fun c => (r c).status = .registered) s where
  keys := fun n c => by rw [h.channels, h.describes.fd]
  entry := by
    intro c hc
    obtain ⟨i, pfd, hi, hpfd, hholds⟩ := h.indexed.at_pos c hc
    refine ⟨i, pfd, hi, hpfd, ?_, ?_⟩
    · simp [hholds.fd, Channel.isNoneEvent, Channel.kNoneEvent, h.describes.events, h.describes.fd]
    · rw [hholds.events, signExtend_setWidth (h.describes.masks c), h.describes.events]
  owner := by
    intro i hi
    obtain ⟨c, hc, hci⟩ := h.indexed.owner i hi
    exact ⟨c, ⟨hc, hci⟩, fun d hd => h.indexed.pos_inj (Holds.unique hfds) hd.1 hc (hd.2.trans hci.symm)⟩

/-- An entry that reports events is the one of the channel it leads to. -/
theorem Inv.leads (h : Inv fds r s) (hanswer : List.Forall₂ Answers s.poller.pollfds pollfds) {i : Nat} {pfd : PollFd}
    (hpfd : pollfds[i]? = some pfd) (hne : pfd.revents ≠ 0) :
    ∃ c, (s.channels c).idx = Int.ofNat i ∧ Leads (answered s pollfds) pfd c := by
  obtain ⟨hi, rfl⟩ := List.getElem?_eq_some_iff.mp hpfd
  have hi' : i < s.poller.pollfds.length := hanswer.length_eq.symm ▸ hi
  have hone := hanswer.get hi' hi
  obtain ⟨c, hc, hci⟩ := h.indexed.owner i hi'
  obtain ⟨j, before, hj, hbefore, hholds⟩ := h.indexed.at_pos c hc
  obtain rfl : i = j := Int.ofNat.inj (hci.symm.trans hj)
  obtain ⟨_, rfl⟩ := List.getElem?_eq_some_iff.mp hbefore
  have hfd : pollfds[i].fd = fds c := by
    have hnot : ¬ s.poller.pollfds[i].fd < 0 := fun hneg => hne (hone.ignored hneg)
    have heq := hholds.fd
    split at heq
    · omega
    · exact hone.fd.trans heq
  refine ⟨c, hci, ?_, ?_, ?_⟩
  · exact lt_of_le_of_ne hone.nonneg (fun hzero => hne (BitVec.eq_of_toInt_eq hzero.symm))
  · exact (h.channels _ _).mpr ⟨hc, hfd.symm⟩
  · exact (congrArg Int.ofNat (h.describes.fd c)).trans hfd.symm

/-- What an entry leads to is what has it for its index. -/
theorem Inv.reports_iff (h : Inv fds r s) (hfds : fds.Injective)
    (hanswer : List.Forall₂ Answers s.poller.pollfds pollfds) (c : ι) (revents : BitVec 16) :
    Reports (answered s pollfds) pollfds c revents ↔
      ∃ pfd ∈ pollfds, pfd.revents = revents ∧ pfd.revents ≠ 0 ∧ Leads (answered s pollfds) pfd c := by
  constructor
  · rintro ⟨n, i, pfd, hfind, hi, hpfd, rfl, hne⟩
    obtain ⟨d, hdi, hd⟩ := h.leads hanswer hpfd hne
    have hc := ((h.channels _ _).mp hfind).1
    have hd' := ((h.channels _ _).mp hd.find).1
    obtain rfl : c = d := h.indexed.pos_inj (Holds.unique hfds) hc hd' (hi.trans hdi.symm)
    exact ⟨pfd, List.mem_of_getElem? hpfd, rfl, hne, hd⟩
  · rintro ⟨pfd, hin, rfl, hne, hc⟩
    obtain ⟨i, hi⟩ := List.getElem?_of_mem hin
    obtain ⟨d, hdi, hd⟩ := h.leads hanswer hi hne
    obtain rfl : c = d := Option.some.inj (hc.find.symm.trans hd.find)
    exact ⟨pfd.fd, i, pfd, hc.find, hdi, hi, rfl, hne⟩

/-- The channels whose entries report events are told, once each. -/
theorem Inv.filled [DecidableEq ι] (h : Inv fds r s) (hfds : fds.Injective)
    (hanswer : List.Forall₂ Answers s.poller.pollfds pollfds) (active : List ι) :
    ∃ t found, fillActiveChannels (answered s pollfds) (pollfds.countP (·.revents ≠ 0)) active =
      some (t, active ++ found) ∧ Filled (answered s pollfds) pollfds t found := by
  have hfill := fillFrom_spec pollfds (answered s pollfds) active ?_ ?_
  case refine_1 =>
    intro pfd hmem hne
    obtain ⟨i, hi⟩ := List.getElem?_of_mem hmem
    obtain ⟨c, -, hc⟩ := h.leads hanswer hi hne
    exact ⟨c, hc⟩
  case refine_2 =>
    refine List.pairwise_iff_getElem.mpr fun i j hi hj hlt hne hne' heq => ?_
    obtain ⟨c, hci, hc⟩ := h.leads hanswer (List.getElem?_eq_getElem hi) hne
    obtain ⟨d, hdj, hd⟩ := h.leads hanswer (List.getElem?_eq_getElem hj) hne'
    obtain rfl : c = d := Option.some.inj (hc.find.symm.trans ((congrArg _ heq).trans hd.find))
    exact absurd (Int.ofNat.inj (hci.symm.trans hdj)) (Nat.ne_of_lt hlt)
  obtain ⟨t, found, hrun, hnodup, hmem, htold, hothers, hpoller⟩ := hfill
  have hreports := h.reports_iff hfds hanswer
  refine ⟨t, found, hrun, hnodup, fun c => ?_, fun c revents hc => ?_, hothers, hpoller⟩
  · rw [hmem]
    constructor
    · rintro ⟨pfd, hin, hne, hc⟩
      exact ⟨pfd.revents, (hreports _ _).mpr ⟨pfd, hin, rfl, hne, hc⟩⟩
    · rintro ⟨revents, hc⟩
      obtain ⟨pfd, hin, -, hne, hc⟩ := (hreports _ _).mp hc
      exact ⟨pfd, hin, hne, hc⟩
  · obtain ⟨pfd, hin, rfl, hne, hc⟩ := (hreports _ _).mp hc
    exact htold pfd hin c hne hc

/-- Where a channel's first operation enables something, its last is a removal, and it is
removed with no events, all assertions hold, the vector and the map are exact, and an answer
of `poll(2)` reaches the channels it is about. -/
theorem index_map_exact [DecidableEq ι] (hfds : fds.Injective) {ops : List (Poller.Op ι)}
    (hops : Poller.Registry.Throughout (fun r op => r.Legal op ∧ Usable r op) ops) :
    ∃ s, poller.run (create fds) ops = some s ∧
      Mapped (fun c => (Poller.Registry.after ops c).status = .registered) s ∧
      ∀ pollfds active, List.Forall₂ Answers s.poller.pollfds pollfds →
        ∃ t found, fillActiveChannels (answered s pollfds) (pollfds.countP (·.revents ≠ 0)) active =
          some (t, active ++ found) ∧ Filled (answered s pollfds) pollfds t found := by
  obtain ⟨s, hs, hinv⟩ := Poller.run_of_step (Inv fds) inv_create
    (fun _ _ _ hinv hop => hinv.step hfds hop.1 hop.2) hops
  exact ⟨s, hs, hinv.mapped hfds, fun pollfds active hanswer => hinv.filled hfds hanswer active⟩

/-- The channel in the middle leaves, and the last one, ignored, takes its place and is enabled there. -/
theorem index_map_exact_moved :
    let fds : Fin 3 → Nat := fun c => 5 * c.val
    let ops : List (Poller.Op (Fin 3)) := [.change .enableRead 0, .change .enableWrite 1, .change .enableRead 2,
      .change .disableAll 1, .change .disableAll 2, .remove 1, .change .enableRead 2]
    (poller.run (create fds) ops).map (·.poller.pollfds) = some [⟨0, 3, 0⟩, ⟨10, 3, 0⟩] ∧
      ∃ s, poller.run (create fds) ops = some s ∧
        Mapped (fun c => (Poller.Registry.after ops c).status = .registered) s ∧
        ∀ pollfds active, List.Forall₂ Answers s.poller.pollfds pollfds →
          ∃ t found, fillActiveChannels (answered s pollfds) (pollfds.countP (·.revents ≠ 0)) active =
            some (t, active ++ found) ∧ Filled (answered s pollfds) pollfds t found :=
  ⟨by decide +kernel, index_map_exact (fun _ _ h => Fin.ext (Nat.eq_of_mul_eq_mul_left (by decide) h))
    (by decide +kernel)⟩

end Chtho.Net.Poll
