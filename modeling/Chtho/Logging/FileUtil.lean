import Chtho.Lib.Copy
import Chtho.Logging.LogFile.Rolling
import Mathlib.Algebra.GroupWithZero.Nat

/-! `AppendFile::append`, call by call.

A stream takes some of the bytes that a call of `fwrite_unlocked` offers, or none. `append`
offers the line, and then what remains of it, until nothing does or a call takes nothing. The
calls depend on one another only through how far the line has got: `reached` says it, and
`retry_spec` follows the loop along it. What comes into the file is a beginning of the line
however the calls go; `written_` grows by all of it, though. -/
namespace Chtho.Logging
open Lib

namespace Futil

/-- How many bytes `fwrite_unlocked` writes in each call: at most as many as it is given. -/
abbrev Fwrite := (call len : Nat) → Fin (len + 1)

/-- How far a line has got before a call, if every call is given all that remains. -/
def reached (fwrite : Fwrite) (len : Nat) : Nat → Nat
  | 0 => 0
  | call + 1 => reached fwrite len call + (fwrite call (len - reached fwrite len call)).val

/-- What a call writes of what remains. -/
def result (fwrite : Fwrite) (len call : Nat) : Nat := (fwrite call (len - reached fwrite len call)).val

/-- No call but the first writes nothing while something remains. -/
def RetriesWrite (fwrite : Fwrite) (len : Nat) : Prop :=
  ∀ call, reached fwrite len (call + 1) < len → result fwrite len (call + 1) ≠ 0

/-- The file behind a call of `append`, what the calls of `fwrite_unlocked` returned, and what was
printed to `stderr`. -/
structure Outcome where
  file : AppendFile
  counts : List Nat
  stderr : Bytes
deriving DecidableEq, Repr

section
variable (fwrite : Fwrite) (ferror : Int) (strerror_tl : Int → Bytes) (line : Bytes)

/-- `write` of `len` bytes from `line + n` on. -/
def write (call n len : Nat) (f : AppendFile) : Nat × AppendFile :=
  let x := (fwrite call len).val
  (x, {f with content := f.content ++ slice line n x})

/-- What is said of a call that wrote nothing. -/
def failed : Bytes :=
  if ferror ≠ 0 then ascii "AppendFile::append() failed " ++ strerror_tl ferror ++ ascii "\n" else []

/-- The loop, from a call on, for a number of turns. -/
def retry : (turns call n remain : Nat) → AppendFile → List Nat → Option Outcome
  | 0, _, _, _, _, _ => none
  | turns + 1, call, n, remain, f, counts =>
    if remain > 0 then
      let (x, f) := write fwrite line call n remain f
      if x = 0 then some ⟨f, counts ++ [x], failed ferror strerror_tl⟩
      else retry turns (call + 1) (n + x) (remain - x) f (counts ++ [x])
    else some ⟨f, counts, []⟩

def append (turns : Nat) (f : AppendFile) : Option Outcome := do
  let len := line.length
  let (n, f) := write fwrite line 0 0 len f
  let o ← retry fwrite ferror strerror_tl line turns 1 n (len - n) f [n]
  some {o with file := {o.file with written_ := o.file.written_ + len}}

end

/-! ### How far the calls get -/

variable {fwrite : Fwrite} {ferror : Int} {strerror_tl : Int → Bytes} {line : Bytes} {f : AppendFile}
  {len call turns : Nat}

theorem reached_succ (fwrite : Fwrite) (len call : Nat) :
    reached fwrite len (call + 1) = reached fwrite len call + result fwrite len call := rfl

theorem result_le (fwrite : Fwrite) (len call : Nat) :
    result fwrite len call ≤ len - reached fwrite len call := Nat.le_of_lt_succ (Fin.isLt _)

theorem reached_le (fwrite : Fwrite) (len call : Nat) : reached fwrite len call ≤ len := by
  induction call with
  | zero => exact Nat.zero_le _
  | succ call ih =>
    have hle := result_le fwrite len call
    rw [reached_succ]
    omega

theorem reached_mono (fwrite : Fwrite) (len : Nat) : Monotone (reached fwrite len) :=
  monotone_nat_of_le_succ fun _ => Nat.le_add_right _ _

/-- What the first calls return. -/
def results (fwrite : Fwrite) (len calls : Nat) : List Nat := (List.range calls).map (result fwrite len)

theorem results_succ (fwrite : Fwrite) (len calls : Nat) :
    results fwrite len (calls + 1) = results fwrite len calls ++ [result fwrite len calls] := by
  rw [results, List.range_succ, List.map_append]
  rfl

/-- The results add up to what the calls reach. -/
theorem sum_results (fwrite : Fwrite) (len calls : Nat) :
    (results fwrite len calls).sum = reached fwrite len calls := by
  induction calls with
  | zero => rfl
  | succ calls ih => rw [results_succ, List.sum_append, List.sum_singleton, ih, reached_succ]

/-- The file with a beginning of the line, as far as the calls reach. -/
def begun (fwrite : Fwrite) (line : Bytes) (f : AppendFile) (calls : Nat) : AppendFile :=
  {f with content := f.content ++ line.take (reached fwrite line.length calls)}

theorem begun_zero (fwrite : Fwrite) (line : Bytes) (f : AppendFile) : begun fwrite line f 0 = f := by
  rw [begun, reached, List.take_zero, List.append_nil]

theorem begun_succ (fwrite : Fwrite) (line : Bytes) (f : AppendFile) (call : Nat) :
    begun fwrite line f (call + 1) = {begun fwrite line f call with
      content := (begun fwrite line f call).content ++
        slice line (reached fwrite line.length call) (result fwrite line.length call)} := by
  rw [begun, reached_succ, List.take_add, ← List.append_assoc]
  rfl

/-- A call continues where the one before it stopped. -/
theorem write_begun (fwrite : Fwrite) (line : Bytes) (f : AppendFile) (call : Nat) :
    write fwrite line call (reached fwrite line.length call) (line.length - reached fwrite line.length call)
        (begun fwrite line f call) =
      (result fwrite line.length call, begun fwrite line f (call + 1)) := by
  rw [begun_succ]
  rfl

/-! ### The loop -/

/-- What ends the loop behind a number of calls: the line is written, or the last call wrote nothing.
The calls before it wrote something. -/
structure Ended (fwrite : Fwrite) (len first calls : Nat) : Prop where
  writes : ∀ call, first ≤ call → call + 1 < calls → result fwrite len call ≠ 0
  last : reached fwrite len calls = len ∨
    ∃ call, first ≤ call ∧ calls = call + 1 ∧ reached fwrite len call < len ∧ result fwrite len call = 0

theorem Ended.of_succ {first calls : Nat} (h : Ended fwrite len (first + 1) calls)
    (hwrote : result fwrite len first ≠ 0) : Ended fwrite len first calls := by
  constructor
  case writes =>
    intro call hle hlt
    rcases Nat.eq_or_lt_of_le hle with rfl | hle
    · exact hwrote
    · exact h.writes call hle hlt
  case last =>
    rcases h.last with hwhole | ⟨call, hcall, hrest⟩
    · exact .inl hwhole
    · exact .inr ⟨call, Nat.le_of_succ_le hcall, hrest⟩

/-- **The loop.** What remains gets smaller with every turn that writes, so there is a number of turns
from which on the loop ends, always in the same way. -/
theorem retry_spec (fwrite : Fwrite) (ferror : Int) (strerror_tl : Int → Bytes) (line : Bytes) (f : AppendFile)
    (call : Nat) :
    ∃ calls stderr, call ≤ calls ∧ Ended fwrite line.length call calls ∧
      ∀ turns, line.length - reached fwrite line.length call < turns →
        retry fwrite ferror strerror_tl line turns call (reached fwrite line.length call)
            (line.length - reached fwrite line.length call) (begun fwrite line f call)
            (results fwrite line.length call) =
          some ⟨begun fwrite line f calls, results fwrite line.length calls, stderr⟩ := by
  induction hremain : line.length - reached fwrite line.length call using Nat.strong_induction_on generalizing call with
  | _ remain ih =>
    subst hremain
    have hle := reached_le fwrite line.length call
    have hsucc := reached_succ fwrite line.length call
    by_cases hdone : reached fwrite line.length call = line.length
    · refine ⟨call, [], Nat.le_refl _, ⟨fun j hj hlt => by omega, .inl hdone⟩, ?_⟩
      intro turns hturns
      obtain ⟨turns, rfl⟩ := Nat.exists_eq_succ_of_ne_zero (Nat.ne_zero_of_lt hturns)
      rw [retry, if_neg (by omega)]
    · by_cases hzero : result fwrite line.length call = 0
      · refine ⟨call + 1, failed ferror strerror_tl, Nat.le_succ _,
          ⟨fun j hj hlt => by omega, .inr ⟨call, Nat.le_refl _, rfl, by omega, hzero⟩⟩, ?_⟩
        intro turns hturns
        obtain ⟨turns, rfl⟩ := Nat.exists_eq_succ_of_ne_zero (Nat.ne_zero_of_lt hturns)
        rw [retry, if_pos (by omega), write_begun, results_succ]
        exact if_pos hzero
      · obtain ⟨calls, stderr, hcalls, hended, hretry⟩ := ih _ (by omega) (call + 1) rfl
        have hsub : line.length - reached fwrite line.length call - result fwrite line.length call =
            line.length - reached fwrite line.length (call + 1) := by omega
        refine ⟨calls, stderr, Nat.le_of_succ_le hcalls, hended.of_succ hzero, fun turns hturns => ?_⟩
        obtain ⟨turns, rfl⟩ := Nat.exists_eq_succ_of_ne_zero (Nat.ne_zero_of_lt hturns)
        rw [retry, if_pos (by omega), write_begun]
        simp only [if_neg hzero]
        rw [hsub, ← hsucc, ← results_succ]
        exact hretry turns (by omega)

/-- The loop ends with the whole line exactly if no retry fails. -/
theorem whole_iff {calls : Nat} (hended : Ended fwrite len 1 calls) :
    reached fwrite len calls = len ↔ RetriesWrite fwrite len := by
  constructor
  case mp =>
    intro hwhole call hless hzero
    have hlt : call + 1 < calls := by
      by_contra hge
      have hmono := reached_mono fwrite len (Nat.not_lt.mp hge)
      omega
    rcases Nat.eq_or_lt_of_le (Nat.succ_le_of_lt hlt) with rfl | hlt
    · rw [Nat.succ_eq_add_one, reached_succ] at hwhole
      omega
    · exact hended.writes (call + 1) (Nat.le_add_left _ _) hlt hzero
  case mpr =>
    intro hretries
    rcases hended.last with hwhole | ⟨call, hcall, rfl, hshort, hzero⟩
    · exact hwhole
    · obtain ⟨call, rfl⟩ := Nat.exists_eq_add_of_le' hcall
      exact absurd hzero (hretries call hshort)

/-- What a call of `append` comes to, for any number of turns that is larger than the line is long. -/
theorem append_spec (fwrite : Fwrite) (ferror : Int) (strerror_tl : Int → Bytes) (line : Bytes) (f : AppendFile) :
    ∃ calls stderr, 1 ≤ calls ∧ Ended fwrite line.length 1 calls ∧
      ∀ turns, line.length < turns → append fwrite ferror strerror_tl line turns f =
        some ⟨{begun fwrite line f calls with written_ := f.written_ + line.length},
          results fwrite line.length calls, stderr⟩ := by
  obtain ⟨calls, stderr, hcalls, hended, hretry⟩ := retry_spec fwrite ferror strerror_tl line f 1
  refine ⟨calls, stderr, hcalls, hended, fun turns hturns => ?_⟩
  have hfirst := write_begun fwrite line f 0
  rw [begun_zero] at hfirst
  have hretry := hretry turns (Nat.lt_of_le_of_lt (Nat.sub_le _ _) hturns)
  rw [reached_succ, reached, Nat.zero_add] at hretry
  rw [append, show write fwrite line 0 0 line.length f = _ from hfirst]
  simp only [Option.bind_eq_bind]
  rw [show [result fwrite line.length 0] = results fwrite line.length 1 from rfl, hretry]
  rfl

/-! ### The line, and the file that rolling looks at -/

theorem writeLoop_eq {counts : List Nat} (h : ∀ x ∈ counts.dropLast, x ≠ 0) (rest : Bytes) :
    AppendFile.writeLoop counts rest = rest.take counts.sum := by
  induction counts generalizing rest with
  | nil => rfl
  | cons x counts ih =>
    rw [AppendFile.writeLoop, List.sum_cons, List.take_add]
    by_cases hrest : rest = []
    · simp [hrest]
    · by_cases hx : x = 0
      · -- a call that writes nothing is the last
        cases counts with
        | nil => simp [hx]
        | cons y counts => exact absurd hx (h x (by simp))
      · rw [if_neg (by simp [hrest, hx]), ih]
        cases counts with
        | nil => simp
        | cons y counts => exact fun x' hx' => h x' (List.mem_cons_of_mem _ hx')

theorem taken_results {calls : Nat} (hcalls : 1 ≤ calls) (hended : Ended fwrite line.length 1 calls) :
    AppendFile.taken (results fwrite line.length calls) line = line.take (reached fwrite line.length calls) := by
  obtain ⟨calls, rfl⟩ := Nat.exists_eq_add_of_le' hcalls
  have hcons : results fwrite line.length (calls + 1) =
      result fwrite line.length 0 :: (List.range' 1 calls).map (result fwrite line.length) := by
    rw [results, List.range_eq_range', List.range'_succ, List.map_cons]
  have hsum := sum_results fwrite line.length (calls + 1)
  rw [hcons, List.sum_cons] at hsum
  rw [hcons, AppendFile.taken, List.headD_cons, List.tail_cons, ← hsum, List.take_add, writeLoop_eq]
  intro x hx
  cases calls with
  | zero => simp at hx
  | succ calls =>
    rw [List.range'_1_concat, List.map_append, List.map_singleton, List.dropLast_concat] at hx
    obtain ⟨call, hcall, rfl⟩ := List.mem_map.mp hx
    obtain ⟨hle, hlt⟩ := List.mem_range'_1.mp hcall
    exact hended.writes call hle (by omega)

/-- A call of `append` is the one that `LogFile` makes, and its stream takes the whole line exactly if
no retry fails. -/
theorem append_refines (fwrite : Fwrite) (ferror : Int) (strerror_tl : Int → Bytes) (line : Bytes) (f : AppendFile) :
    ∃ o, (∀ turns, line.length < turns → append fwrite ferror strerror_tl line turns f = some o) ∧
      o.file = f.append line o.counts ∧
      (AppendFile.taken o.counts line = line ↔ RetriesWrite fwrite line.length) := by
  obtain ⟨calls, stderr, hcalls, hended, happend⟩ := append_spec fwrite ferror strerror_tl line f
  have htaken := taken_results hcalls hended
  have hle := reached_le fwrite line.length calls
  refine ⟨_, happend, ?_, ?_⟩
  · rw [AppendFile.append, htaken]
    rfl
  · rw [htaken, List.take_eq_self_iff, ← whole_iff hended]
    omega

/-- **What `append` accounts for.** It comes to an end; what comes into the file is a beginning of the
line, and all of it unless the last call wrote nothing. `written_` grows by what was written, and
stays the size of the file, exactly if no retry wrote nothing. -/
theorem written_append_iff (fwrite : Fwrite) (ferror : Int) (strerror_tl : Int → Bytes) (line : Bytes) (f : AppendFile) :
    ∃ (o : Outcome) (n : Nat),
      (∀ turns, line.length < turns → append fwrite ferror strerror_tl line turns f = some o) ∧
      n ≤ line.length ∧ o.file.content = f.content ++ line.take n ∧ o.counts.sum = n ∧
      (n < line.length → o.counts.getLast? = some 0) ∧
      (o.file.written_ = f.written_ + n ↔ RetriesWrite fwrite line.length) ∧
      (f.written_ = f.content.length →
        (o.file.written_ = o.file.content.length ↔ RetriesWrite fwrite line.length)) := by
  obtain ⟨calls, stderr, hcalls, hended, happend⟩ := append_spec fwrite ferror strerror_tl line f
  have hle := reached_le fwrite line.length calls
  have hwhole := whole_iff hended
  refine ⟨_, reached fwrite line.length calls, happend, hle, rfl, sum_results .., fun hshort => ?_, ?_,
    fun hsize => ?_⟩
  · rcases hended.last with hall | ⟨last, _, rfl, _, hzero⟩
    · exact absurd hall (Nat.ne_of_lt hshort)
    · show (results fwrite line.length (last + 1)).getLast? = some 0
      rw [results_succ, List.getLast?_concat, hzero]
  · rw [← hwhole]
    show f.written_ + line.length = _ ↔ _
    omega
  · rw [← hwhole]
    show f.written_ + line.length = (f.content ++ line.take (reached fwrite line.length calls)).length ↔ _
    rw [List.length_append, List.length_take, hsize]
    omega

/-- A stream that takes one byte in the first call and none in the second: of two bytes one is in the
file, and both are counted. -/
theorem short_write_counts_whole_line :
    ∃ o, (∀ turns, (ascii "ab").length < turns →
        append (fun call len => Fin.ofNat (len + 1) (if call = 0 then 1 else 0)) 5 (fun _ => ascii "Input/output error")
          (ascii "ab") turns (.create (ascii "log")) = some o) ∧
      o.file.content = (ascii "ab").take 1 ∧ o.counts.sum = 1 ∧ o.file.written_ ≠ 0 + 1 := by
  refine ⟨⟨⟨ascii "log", ascii "a", 2⟩, [1, 0], ascii "AppendFile::append() failed Input/output error\n"⟩,
    fun turns hturns => ?_, rfl, rfl, by decide⟩
  obtain ⟨turns, rfl⟩ := Nat.exists_eq_add_of_le' (show 3 ≤ turns from hturns)
  rfl

end Futil

/-! ### The size that rolling sees -/

namespace LogFile

variable {strftime : Int → Bytes} {pid : Int} {l l' l₀ : LogFile} {obs o o₀ : List Event} {as : List Action}
  {name : Bytes} {rollsz flushInter checkEveryN now₀ : Int} {hostname₀ : Option Bytes}

/-- The current file has the size that is compared with `rollsz_`. -/
def Sized (l : LogFile) : Prop := ∀ f, l.file_ = some f → f.written_ = f.content.length

theorem Sized.roll (h : l.Sized) (now : Int) (hostname : Option Bytes) :
    (l.roll strftime pid now hostname).2.1.Sized := by
  rcases roll_cases strftime pid l now hostname with ⟨_, heq⟩ | ⟨_, heq⟩
  · rw [heq]
    rintro f ⟨⟩
    rfl
  · rw [heq]
    exact h

theorem Sized.wrote (h : l.Sized) {f : AppendFile} (hfile : l.file_ = some f) {line : Bytes} {counts : List Nat}
    (hfull : AppendFile.taken counts line = line) : (l.wrote f line counts).Sized := by
  rintro f' ⟨⟩
  show f.written_ + line.length = (f.content ++ AppendFile.taken counts line).length
  rw [hfull, List.length_append, h f hfile]

theorem Sized.step {a : Action} (h : l.Sized) (hfull : a.WritesFully) (hs : l.step strftime pid a = some (l', o)) :
    l'.Sized := by
  cases a with
  | append time line counts check now hostname =>
    obtain ⟨f, o', hfile, rfl, hf⟩ := append_step hs
    have hwrote := h.wrote hfile hfull
    cases hf with
    | size => exact hwrote.roll now hostname
    | count | check => exact hwrote
    | day => exact Sized.roll (l := {l.wrote f line counts with cnt_ := 0}) hwrote now hostname
  | roll now hostname =>
    obtain ⟨rfl, rfl⟩ := Prod.mk.inj (Option.some.inj hs)
    exact h.roll now hostname
  | flush =>
    obtain ⟨rfl, rfl⟩ := flush_step hs
    exact h

/-- **As long as no retry fails, a file is rolled by its real size.** -/
theorem sized_run (hcreate : create strftime pid name rollsz flushInter checkEveryN now₀ hostname₀ = some (l₀, o₀))
    (hrun : (machine strftime pid).Run l₀ as obs l) (hfull : ∀ a ∈ as, a.WritesFully) : l.Sized := by
  induction hrun with
  | nil =>
    obtain ⟨rfl, rfl⟩ := Prod.mk.inj (create_eq hcreate)
    have hblank : (blank name rollsz flushInter checkEveryN).Sized := nofun
    exact hblank.roll now₀ hostname₀
  | snoc _ _ hs ih =>
    rw [List.forall_mem_append, List.forall_mem_singleton] at hfull
    exact (ih hfull.1).step hfull.2 hs

end LogFile
end Chtho.Logging
