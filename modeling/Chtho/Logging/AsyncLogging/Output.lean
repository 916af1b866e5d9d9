import Chtho.Logging.AsyncLogging.Overload
import Chtho.Logging.LogFile.Rolling

/-! From the lines to the files.

The back end makes its `LogFile` when it starts, calls it for every buffer and at the end of
every round, and destroys it when it returns. Here the two run together: a step of the
logging makes calls, and the file performs them. What a run shows of either is a run of
it, so what is known of the buffers and what is known of the files add up: a line that is
not lost is in one file or in one buffer, whole, and the files and the buffers are in order. -/
namespace Chtho.Logging.AsyncLogging
open Lib

namespace Output

/-- What a call of `LogFile::append` finds outside: the clock, the name of the host, and what
`write` takes of the line. -/
structure Outside where
  time : Int
  counts : List Nat
  check : Int
  now : Int
  hostname : Option Bytes

inductive Seen where
  | logging (e : Event)
  | file (e : LogFile.Event)

/-- The call that an event of the back end is. -/
def call (x : Outside) : Event → List LogFile.Action
  | .write line => [.append x.time line x.counts x.check x.now x.hostname]
  | .flush => [.flush]
  | _ => []

end Output

open Output in
/-- The logging, and the local variable `output` of its back end. -/
structure Output where
  logging : AsyncLogging
  output : Option LogFile

namespace Output

section
variable (strftime : Int → Bytes) (pid : Int) (name : Bytes) (rollsz : Int)

def perform (l : LogFile) : List LogFile.Action → Option (LogFile × List LogFile.Event)
  | [] => some (l, [])
  | a :: as => do
    let (l, o) ← l.step strftime pid a
    let (l, o') ← perform l as
    some (l, o ++ o')

/-- What becomes of `output` when the back end makes these calls: it is destroyed when the
back end returns. -/
def back (output : Option LogFile) (calls : List LogFile.Action) (pc : Pc) :
    Option (Option LogFile × List LogFile.Event) :=
  if calls.isEmpty then some (output, [])
  else do
    let l ← output
    let (l, o) ← perform strftime pid l calls
    if pc = .done then some (none, o ++ (l.file_.map LogFile.Event.closed).toList)
    else some (some l, o)

def isThreadFunc : Action → Bool
  | .threadFunc .. => true
  | _ => false

def step (p : Output) (a : Action × Outside) : Option (Output × List Seen) := do
  let (logging, o) ← p.logging.step a.1
  if isThreadFunc a.1 then do
    let (l, o') ← LogFile.create strftime pid name rollsz 3 1024 a.2.now a.2.hostname
    some (⟨logging, some l⟩, o.map .logging ++ o'.map .file)
  else do
    let (output, o') ← back strftime pid p.output (o.flatMap (call a.2)) logging.pc
    some (⟨logging, output⟩, o.map .logging ++ o'.map .file)

def machine : Machine Output (Action × Outside) Seen where
  enabled := fun p a => p.logging.Enabled a.1
  step := step strftime pid name rollsz

end

def create (data1 data2 : Nat → UInt8) : Output := ⟨.create data1 data2, none⟩

/-- The calls of a step. -/
def calls (p : Output) (a : Action × Outside) : List LogFile.Action :=
  match p.logging.step a.1 with
  | some (_, o) => o.flatMap (call a.2)
  | none => []

/-- The clock is set, and the disk takes what it is given. -/
def Sound (p : Output) (a : Action × Outside) : Prop := 0 < a.2.now ∧ ∀ c ∈ calls p a, c.WritesFully

/-! ### What is seen of a run -/

def logged (obs : List Seen) : List Event :=
  obs.filterMap fun
    | .logging e => some e
    | .file _ => none

def filed (obs : List Seen) : List LogFile.Event :=
  obs.filterMap fun
    | .logging _ => none
    | .file e => some e

theorem logged_step (obs : List Seen) (o : List Event) (o' : List LogFile.Event) :
    logged (obs ++ (o.map .logging ++ o'.map .file)) = logged obs ++ o := by
  simp [logged, List.filterMap_map]

theorem filed_step (obs : List Seen) (o : List Event) (o' : List LogFile.Event) :
    filed (obs ++ (o.map .logging ++ o'.map .file)) = filed obs ++ o' := by
  simp [filed, List.filterMap_map]

/-- The files, in the order in which they were opened. -/
def files (p : Output) (obs : List Seen) : List AppendFile :=
  LogFile.closedFiles (filed obs) ++ (p.output.bind LogFile.file_).toList

/-! ### The back end's time -/

/-- The back end has made its `LogFile`, and not returned. -/
def hasOutput : Pc → Bool
  | .idle | .threadFunc | .done => false
  | _ => true

/-- What a step is for the file: `output` is made, or nothing happens to it, or it is called. -/
inductive Phase (x : Outside) (s : AsyncLogging) (a : Action) (o : List Event) (s' : AsyncLogging) : Prop where
  | made (ha : isThreadFunc a = true) (hpc : s.pc = .threadFunc) (hpc' : s'.pc = .test) (ho : o = [])
  | apart (ha : isThreadFunc a = false) (hcalls : o.flatMap (call x) = [])
      (hpc : s'.pc = s.pc ∨ s.pc = .idle ∧ s'.pc = .threadFunc)
  | called (ha : isThreadFunc a = false) (hpc : hasOutput s.pc = true) (hpc' : hasOutput s'.pc = true)
  | returned (ha : isThreadFunc a = false) (hpc : hasOutput s.pc = true) (hpc' : s'.pc = .done) (ho : o = [.flush])

theorem step_phase (x : Outside) {s s' : AsyncLogging} {a : Action} {o : List Event} (hspare : Spare s)
    (he : s.Enabled a) (hs : s.step a = some (s', o)) : Phase x s a o s' := by
  cases a with
  | append line data =>
    simp only [AsyncLogging.step, Option.map_eq_some_iff, Prod.mk.injEq] at hs
    obtain ⟨_, hs, rfl, rfl⟩ := hs
    exact .apart rfl rfl (.inl (append_texts hspare hs).1)
  | start =>
    obtain ⟨rfl, rfl⟩ := Prod.mk.inj (Option.some.inj hs)
    exact .apart rfl rfl (.inr ⟨he, rfl⟩)
  | threadFunc data1 data2 =>
    obtain ⟨rfl, rfl⟩ := threadFunc_cases hs
    exact .made rfl he rfl rfl
  | test =>
    have hpc : hasOutput s.pc = true := congrArg hasOutput he
    rcases test_cases (Option.some.inj hs) with ⟨_, rfl, rfl⟩ | ⟨_, rfl, rfl⟩
    · exact .called rfl hpc rfl
    · exact .returned rfl hpc rfl rfl
  | enter =>
    have hpc : hasOutput s.pc = true := congrArg hasOutput he
    simp only [AsyncLogging.step, Option.map_eq_some_iff, Prod.mk.injEq] at hs
    obtain ⟨_, hs, rfl, rfl⟩ := hs
    obtain ⟨_, ⟨_, rfl⟩ | rfl⟩ := enter_cases hs
    all_goals exact .called rfl hpc rfl
  | wake =>
    obtain ⟨rfl, rfl⟩ := Prod.mk.inj (Option.some.inj hs)
    exact .called rfl (congrArg hasOutput he) rfl
  | drop now =>
    rcases drop_cases hs with ⟨_, rfl, _⟩ | ⟨rfl, _⟩
    all_goals exact .called rfl (congrArg hasOutput he) rfl
  | write =>
    obtain ⟨i, _, hpc⟩ := he
    simp only [AsyncLogging.step, hpc] at hs
    obtain ⟨_, _, rfl, _⟩ := write_cases hs
    exact .called rfl (congrArg hasOutput hpc) rfl
  | refill =>
    obtain ⟨_, _, _, _, _, _, _, rfl, _⟩ := refill_cases hs
    exact .called rfl (congrArg hasOutput he) rfl
  | stop =>
    obtain ⟨rfl, rfl⟩ := Prod.mk.inj (Option.some.inj hs)
    exact .apart rfl rfl (.inl rfl)

/-! ### The file -/

variable {strftime : Int → Bytes} {pid : Int} {name : Bytes} {rollsz : Int} {fobs : List LogFile.Event}
  {as : List LogFile.Action} {l : LogFile}

/-- The calls of one step. -/
theorem perform_spec (h : LogFile.Inv strftime pid (LogFile.appended as) fobs l) (hfile : l.file_.isSome = true)
    {cs : List LogFile.Action} (hfull : ∀ c ∈ cs, c.WritesFully) :
    ∃ l' o, perform strftime pid l cs = some (l', o) ∧
      LogFile.Inv strftime pid (LogFile.appended (as ++ cs)) (fobs ++ o) l' ∧ l'.file_.isSome = true := by
  induction cs generalizing as fobs l with
  | nil => exact ⟨l, [], rfl, by simpa using h, hfile⟩
  | cons c cs ih =>
    rw [List.forall_mem_cons] at hfull
    obtain ⟨⟨l₁, o₁⟩, hs⟩ := LogFile.step_isSome strftime pid l c fun _ => hfile
    have hfile₁ : l₁.file_.isSome = true := by
      cases c with
      | append time line counts check now hostname =>
        obtain ⟨f, o', _, _, hf⟩ := LogFile.append_step hs
        exact LogFile.isSome_file_followed hf rfl
      | roll now hostname =>
        obtain ⟨rfl, rfl⟩ := Prod.mk.inj (Option.some.inj hs)
        exact (LogFile.isSome_file_roll ..).mpr (.inl hfile)
      | flush =>
        obtain ⟨rfl, _⟩ := LogFile.flush_step hs
        exact hfile
    obtain ⟨l₂, o₂, hrest, hinv, hfile₂⟩ := ih (h.step hfull.1 hs) hfile₁ hfull.2
    refine ⟨l₂, o₁ ++ o₂, by simp [perform, hs, hrest], ?_, hfile₂⟩
    rw [List.append_cons, ← List.append_assoc]
    exact hinv

/-- What was written is in the files, in order, and nothing of it is divided between two. -/
theorem packed_files {rs : List (Int × Bytes)} (h : LogFile.Inv strftime pid rs fobs l) :
    Packed (rs.map Prod.snd) ((LogFile.closedFiles fobs ++ l.file_.toList).map AppendFile.content) := by
  refine ⟨(LogFile.files fobs).all.map fun e => e.records.map Prod.snd, ?_, ?_⟩
  · rw [← h.records, List.map_flatMap, List.flatMap_def]
  · have hcontents := congrArg (List.map Prod.snd) h.contents
    rw [List.map_map, List.map_map] at hcontents
    rw [List.map_map]
    refine Eq.trans (List.map_congr_left fun e _ => ?_) hcontents.symm
    exact (List.flatMap_def ..).symm

/-- `output` at every time of the back end: `w` is what was written so far. -/
inductive Back (strftime : Int → Bytes) (pid : Int) (w : List Bytes) (fobs : List LogFile.Event) :
    Pc → Option LogFile → Prop where
  | before {pc : Pc} (hpc : pc = .idle ∨ pc = .threadFunc) (hw : w = []) (hfobs : fobs = []) :
      Back strftime pid w fobs pc none
  | running {pc : Pc} {as : List LogFile.Action} {l : LogFile} (hpc : hasOutput pc = true)
      (hw : (LogFile.appended as).map Prod.snd = w) (hinv : LogFile.Inv strftime pid (LogFile.appended as) fobs l)
      (hfile : l.file_.isSome = true) : Back strftime pid w fobs pc (some l)
  | after (h : Packed w ((LogFile.closedFiles fobs).map AppendFile.content)) : Back strftime pid w fobs .done none

theorem written_calls (x : Outside) (o : List Event) :
    (LogFile.appended (o.flatMap (call x))).map Prod.snd = written o := by
  induction o with
  | nil => rfl
  | cons e o ih =>
    have hcons : LogFile.appended ((e :: o).flatMap (call x)) =
        LogFile.appended (call x e) ++ LogFile.appended (o.flatMap (call x)) := List.filterMap_append
    have hwritten : written (e :: o) = written [e] ++ written o := written_append [e] o
    rw [hcons, hwritten, List.map_append, ih]
    cases e <;> rfl

variable {w : List Bytes} {s s' : AsyncLogging} {output : Option LogFile} {a : Action} {o : List Event}

theorem Back.started (h : Back strftime pid w fobs .idle output) : Back strftime pid w fobs .threadFunc output := by
  cases h with
  | before _ hw hfobs => exact .before (.inr rfl) hw hfobs
  | running hpc => exact absurd hpc Bool.false_ne_true

variable (rollsz) in
/-- The back end makes its `LogFile`. -/
theorem Back.made (h : Back strftime pid w fobs .threadFunc output) {x : Outside} (hnow : 0 < x.now)
    (hname : chr '/' ∉ name) :
    ∃ l o', LogFile.create strftime pid name rollsz 3 1024 x.now x.hostname = some (l, o') ∧
      Back strftime pid w (fobs ++ o') .test (some l) := by
  cases h with
  | running hpc => exact absurd hpc Bool.false_ne_true
  | before hpc hw hfobs =>
    subst hw hfobs
    obtain ⟨⟨l, o'⟩, hcreate⟩ : ∃ r, LogFile.create strftime pid name rollsz 3 1024 x.now x.hostname = some r :=
      ⟨_, by rw [LogFile.create, assert_bind, if_pos hname]⟩
    have hinv : LogFile.Inv strftime pid (LogFile.appended []) o' l := LogFile.inv_create hcreate
    refine ⟨l, o', hcreate, .running rfl rfl hinv ?_⟩
    obtain ⟨rfl, _⟩ := Prod.mk.inj (LogFile.create_eq hcreate)
    exact (LogFile.isSome_file_roll ..).mpr (.inr hnow)

/-- A running back end makes calls, and goes on or returns. -/
theorem Back.called {pc pc' : Pc} (h : Back strftime pid w fobs pc output) (hpc : hasOutput pc = true) {x : Outside}
    (hpc' : hasOutput pc' = true ∨ pc' = .done ∧ o = [.flush]) (hfull : ∀ c ∈ o.flatMap (call x), c.WritesFully) :
    ∃ output' o', back strftime pid output (o.flatMap (call x)) pc' = some (output', o') ∧
      Back strftime pid (w ++ written o) (fobs ++ o') pc' output' := by
  cases h with
  | before hbefore => rcases hbefore with rfl | rfl <;> exact absurd hpc Bool.false_ne_true
  | after => exact absurd hpc Bool.false_ne_true
  | @running _ as l _ hw hinv hfile =>
    obtain ⟨l', o', hperform, hinv', hfile'⟩ := perform_spec hinv hfile hfull
    have happended : (LogFile.appended (as ++ o.flatMap (call x))).map Prod.snd = w ++ written o := by
      rw [← hw, ← written_calls x o, ← List.map_append]
      exact congrArg _ List.filterMap_append
    rcases hpc' with hrunning | ⟨rfl, rfl⟩
    · have hdone : pc' ≠ .done := by
        rintro rfl
        exact absurd hrunning Bool.false_ne_true
      refine ⟨some l', o', ?_, .running hrunning happended hinv' hfile'⟩
      unfold back
      split
      case isTrue hnone =>
        rw [List.isEmpty_iff.mp hnone] at hperform
        obtain ⟨rfl, rfl⟩ := Prod.mk.inj (Option.some.inj hperform)
        rfl
      case isFalse => simp [hperform]
    · obtain ⟨f, hf⟩ := Option.isSome_iff_exists.mp hfile'
      refine ⟨none, o' ++ [.closed f], ?_, .after ?_⟩
      · have hcalls : List.flatMap (call x) [.flush] = [.flush] := rfl
        rw [hcalls] at hperform ⊢
        simp [back, hperform, hf]
      · have hpacked := packed_files hinv'
        rw [happended, hf] at hpacked
        rw [← List.append_assoc, LogFile.closedFiles_append]
        exact hpacked

variable (rollsz) in
theorem back_step {obs : List Seen} {p : Output} (h : Back strftime pid (written (logged obs)) (filed obs) p.logging.pc p.output)
    (hspare : Spare p.logging) (hname : chr '/' ∉ name) {a : Action × Outside} (he : p.logging.Enabled a.1)
    (hsound : Sound p a) (hs : p.logging.step a.1 = some (s', o)) :
    ∃ output' o', step strftime pid name rollsz p a = some (⟨s', output'⟩, o.map .logging ++ o'.map .file) ∧
      Back strftime pid (written (logged obs ++ o)) (filed obs ++ o') s'.pc output' := by
  have hfull : ∀ c ∈ o.flatMap (call a.2), c.WritesFully := by
    have hcalls := hsound.2
    simp only [calls, hs] at hcalls
    exact hcalls
  rw [written_append]
  cases step_phase a.2 hspare he hs with
  | made ha hpc hpc' ho =>
    subst ho
    rw [hpc] at h
    obtain ⟨l, o', hcreate, h'⟩ := h.made rollsz hsound.1 hname
    refine ⟨some l, o', by simp [step, hs, ha, hcreate], ?_⟩
    rw [hpc', written_nil, List.append_nil]
    exact h'
  | apart ha hcalls hpc =>
    have hback : back strftime pid p.output (o.flatMap (call a.2)) s'.pc = some (p.output, []) := by
      rw [hcalls]
      rfl
    refine ⟨p.output, [], by simp [step, hs, ha, hback], ?_⟩
    have hquiet : written o = [] := by rw [← written_calls a.2, hcalls]; rfl
    rw [hquiet, List.append_nil, List.append_nil]
    rcases hpc with hpc | ⟨hpc, hpc'⟩
    · rw [hpc]
      exact h
    · rw [hpc']
      exact (hpc ▸ h).started
  | called ha hpc hpc' =>
    obtain ⟨output', o', hback, h'⟩ := h.called hpc (.inl hpc') hfull
    exact ⟨output', o', by simp [step, hs, ha, hback], h'⟩
  | returned ha hpc hpc' ho =>
    obtain ⟨output', o', hback, h'⟩ := h.called hpc (.inr ⟨hpc', ho⟩) hfull
    exact ⟨output', o', by simp [step, hs, ha, hback], h'⟩

/-! ### Runs -/

variable {data1 data2 : Nat → UInt8} {acts : List (Action × Outside)} {obs : List Seen} {p : Output}

/-- Both in step: what is seen of the logging is a run of it, and `output` is where it should be. -/
structure Joint (strftime : Int → Bytes) (pid : Int) (data1 data2 : Nat → UInt8) (acts : List (Action × Outside))
    (obs : List Seen) (p : Output) : Prop where
  logging : AsyncLogging.machine.Run (.create data1 data2) (acts.map Prod.fst) (logged obs) p.logging
  output : Back strftime pid (written (logged obs)) (filed obs) p.logging.pc p.output

variable (rollsz) in
theorem joint_step (h : Joint strftime pid data1 data2 acts obs p) (hname : chr '/' ∉ name) {a : Action × Outside}
    (he : p.logging.Enabled a.1) (hsound : Sound p a) :
    ∃ p' o, step strftime pid name rollsz p a = some (p', o) ∧
      Joint strftime pid data1 data2 (acts ++ [a]) (obs ++ o) p' := by
  obtain ⟨hsupplied, hspare⟩ := supplied_run h.logging
  obtain ⟨⟨s', o⟩, hs⟩ := Option.isSome_iff_exists.mp (hsupplied.step_isSome hspare he)
  obtain ⟨output', o', hstep, hback⟩ := back_step rollsz h.output hspare hname he hsound hs
  refine ⟨_, _, hstep, ?_, ?_⟩
  · rw [logged_step, List.map_append]
    exact h.logging.snoc he hs
  · rw [logged_step, filed_step]
    exact hback

theorem joint_run (hname : chr '/' ∉ name)
    (h : ((machine strftime pid name rollsz).restrict Sound).Run (create data1 data2) acts obs p) :
    Joint strftime pid data1 data2 acts obs p := by
  refine h.invariant_actions (Joint strftime pid data1 data2) ⟨.nil, .before (.inl rfl) rfl rfl⟩ ?_
  intro as obs s a s' o hI he hs
  obtain ⟨s'', o', hs', hI'⟩ := joint_step rollsz hI hname he.1 he.2
  obtain ⟨rfl, rfl⟩ := Prod.mk.inj (Option.some.inj (hs.symm.trans hs'))
  exact hI'

theorem Back.packed {pc : Pc} (h : Back strftime pid w fobs pc output) :
    Packed w ((LogFile.closedFiles fobs ++ (output.bind LogFile.file_).toList).map AppendFile.content) := by
  cases h with
  | before hpc hw hfobs =>
    subst hw hfobs
    exact .nil
  | running hpc hw hinv hfile =>
    rw [← hw]
    exact packed_files hinv
  | after h => simpa using h

/-- What became of the lines, by the rounds, and what became of the rounds. -/
theorem rounds_run (hname : chr '/' ∉ name)
    (h : ((machine strftime pid name rollsz).restrict Sound).Run (create data1 data2) acts obs p) :
    ∃ rs, Accounted rs (logged obs) p.logging ∧
      Packed (rs.flatMap Round.kept) ((files p obs).map AppendFile.content ++ p.logging.unwritten) := by
  have hjoint := joint_run hname h
  obtain ⟨rs, haccount⟩ := accounted_run hjoint.logging
  refine ⟨rs, haccount, ?_⟩
  rw [← haccount.written]
  exact hjoint.output.packed.append (.refl _)

/-- Where every round is written as it is. -/
theorem packed_run (hname : chr '/' ∉ name)
    (h : ((machine strftime pid name rollsz).restrict Sound).Run (create data1 data2) acts obs p)
    (hround : ∀ size ∈ rounds (logged obs), size ≤ 25) :
    Packed (fitting (logged obs)) ((files p obs).map AppendFile.content ++ p.logging.heldTexts ++ p.logging.frontTexts) := by
  obtain ⟨rs, haccount, hkept⟩ := rounds_run hname h
  have hall : rs.flatMap Round.kept = rs.flatMap Round.texts := by
    refine congrArg List.flatten (List.map_congr_left fun r hr => if_neg ?_)
    exact Nat.not_lt.mpr (hround _ (haccount.sizes ▸ List.mem_map_of_mem hr))
  have hlines := haccount.lines.trans ((hall ▸ hkept).append (.refl p.logging.uncounted) |>.append (.refl _))
  have hheld : p.logging.unwritten ++ p.logging.uncounted = p.logging.heldTexts := by
    unfold unwritten uncounted
    split <;> simp
  rwa [List.append_assoc _ p.logging.unwritten, hheld] at hlines

/-- **The way of a line.** The clock is set and the disk takes what it is given. Then at every time of
every run the lines that fit a buffer are in order and whole in the rounds, in the buffers that are not yet
counted and in those that are being filled; what is written of the rounds is in order in the files and
in the buffers not yet written, and no buffer is divided between two files. So as long as no round is too
large, every line is whole in one file or in one buffer. And no step fails. -/
theorem lines_in_files (hname : chr '/' ∉ name)
    (h : ((machine strftime pid name rollsz).restrict Sound).Run (create data1 data2) acts obs p) :
    (∃ rs : List Round,
      Packed (fitting (logged obs)) (rs.flatMap Round.texts ++ p.logging.uncounted ++ p.logging.frontTexts) ∧
      Packed (rs.flatMap Round.kept) ((files p obs).map AppendFile.content ++ p.logging.unwritten)) ∧
    ((∀ size ∈ rounds (logged obs), size ≤ 25) →
      Packed (fitting (logged obs))
        ((files p obs).map AppendFile.content ++ p.logging.heldTexts ++ p.logging.frontTexts)) ∧
    ∀ a, p.logging.Enabled a.1 → Sound p a → (step strftime pid name rollsz p a).isSome := by
  obtain ⟨rs, haccount, hkept⟩ := rounds_run hname h
  refine ⟨⟨rs, haccount.lines, hkept⟩, packed_run hname h, fun a he hsound => ?_⟩
  obtain ⟨p', o, hs, _⟩ := joint_step rollsz (joint_run hname h) hname he hsound
  rw [hs]
  rfl

instance (a : LogFile.Action) : Decidable a.WritesFully :=
  match a with
  | .append _ _ _ _ _ _ => inferInstanceAs (Decidable (_ = _))
  | .roll _ _ | .flush => isTrue trivial

instance (p : Output) (a : Action × Outside) : Decidable (Sound p a) :=
  inferInstanceAs (Decidable (_ ∧ ∀ _ ∈ _, _))

instance (strftime : Int → Bytes) (pid : Int) (name : Bytes) (rollsz : Int) (p : Output) (a : Action × Outside) :
    Decidable ((machine strftime pid name rollsz).enabled p a) := inferInstanceAs (Decidable (p.logging.Enabled _))

/-- At a time, with room for so many bytes. -/
def outside (t : Int) (room : Nat) : Outside := ⟨t, [room], t, t, none⟩

/-- Two rounds, the first of which fills a file; a third line comes too late for the second. -/
def twoFiles : List (Action × Outside) :=
  [(.append (ascii "ab") fun _ => 0, outside 1 0), (.start, outside 1 0),
    (.threadFunc (fun _ => 1) fun _ => 2, outside 1 0), (.test, outside 1 0), (.enter, outside 1 0),
    (.wake, outside 2 0), (.append (ascii "cd") fun _ => 0, outside 2 0), (.drop 0, outside 2 0), (.write, outside 2 2),
    (.refill, outside 2 0), (.test, outside 2 0), (.enter, outside 2 0), (.wake, outside 3 0), (.drop 0, outside 3 0),
    (.append (ascii "ef") fun _ => 0, outside 3 0), (.write, outside 3 2), (.refill, outside 3 0), (.stop, outside 3 0),
    (.test, outside 3 0)]

theorem lines_in_files_twoFiles :
    ∃ obs p, ((machine decimal 7 (ascii "log") 1).restrict Sound).Run (create (fun _ => 3) fun _ => 4) twoFiles obs p ∧
      (files p obs).map AppendFile.content = [ascii "ab", ascii "cd", []] ∧ p.logging.frontTexts = [ascii "ef"] ∧
      Packed (fitting (logged obs))
        ((files p obs).map AppendFile.content ++ p.logging.heldTexts ++ p.logging.frontTexts) := by
  obtain ⟨obs, p, hrun, hround, hfiles, hfront⟩ : ∃ obs p,
      ((machine decimal 7 (ascii "log") 1).restrict Sound).Run (create (fun _ => 3) fun _ => 4) twoFiles obs p ∧
        (∀ size ∈ rounds (logged obs), size ≤ 25) ∧
        (files p obs).map AppendFile.content = [ascii "ab", ascii "cd", []] ∧ p.logging.frontTexts = [ascii "ef"] :=
    Machine.Run.exists_of_trace (by decide +kernel)
  exact ⟨obs, p, hrun, hfiles, hfront, (lines_in_files (by decide) hrun).2.1 hround⟩

end Output
end Chtho.Logging.AsyncLogging
