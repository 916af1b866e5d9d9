import Chtho.Logging.Convert
import Chtho.Logging.FixedBuffer

/-! `LogStream`: texts inserted into a `FixedBuffer` until it is full, and the suffix
that `Logger::finish` inserts.

A text too long for what is left should be dropped whole. The guards that see to this
differ: strings ask for more than their length, floats and pointers for `kMaxNumSize`,
integers for `sizeof(v)`, which has little to do with the length of their text. -/
namespace Chtho.Logging
open Lib

def kMaxNumSize : Nat := 32

abbrev LogStream := FixedBuffer kSmall

/-- One `operator<<`. A C string may be a null pointer, and its text ends at its first
NUL. Floats and pointers are the text that they are formatted to. -/
inductive Insert where
  | bool (v : Bool)
  | char (v : UInt8)
  | cstr (str : Option Bytes)
  | string (v : Bytes)
  | integer (v : Integer)
  | float (text : Bytes) (short : text.length < kMaxNumSize)
  | pointer (text : Bytes) (short : text.length < kMaxNumSize)

/-- The bytes that an insertion is to append. -/
def Insert.text : Insert → Bytes
  | .bool v => ascii (if v then "1" else "0")
  | .char v => [v]
  | .cstr (some str) => str.takeWhile (· ≠ 0)
  | .cstr none => ascii "(null)"
  | .string v => v
  | .integer v => decimal v.value
  | .float text _ | .pointer text _ => text

/-- `snprintf` of a formatted text: as much of it as fits with a NUL is written, and the
length of the whole text is returned. -/
def snprintf (m : Memory UInt8) (s size : Nat) (text : Bytes) : Memory UInt8 × Nat :=
  (m.store s ((text.take (size - 1) ++ [0]).take size), text.length)

namespace LogStream

def create (data : Nat → UInt8) : LogStream := FixedBuffer.create kSmall data

def insertFormatted (s : LogStream) (text : Bytes) : LogStream :=
  if s.avail ≥ kMaxNumSize then
    let (mem, len) := snprintf s.mem s.cur kMaxNumSize text
    FixedBuffer.add ⟨mem, s.cur⟩ len
  else s

def insertInteger (s : LogStream) (v : Integer) : LogStream :=
  if s.avail ≥ v.type.sizeof then
    let (mem, len) := convert s.mem s.cur v.value
    FixedBuffer.add ⟨mem, s.cur⟩ len
  else s

/-- `operator<<`. -/
def insert (s : LogStream) : Insert → LogStream
  | .bool v => s.append (ascii (if v then "1" else "0"))
  | .char v => s.append [v]
  | .cstr (some str) => s.append (str.takeWhile (· ≠ 0))
  | .cstr none => s.append (ascii "(null)")
  | .string v => s.append v
  | .integer v => s.insertInteger v
  | .float text _ | .pointer text _ => s.insertFormatted text

def run (s : LogStream) (ops : List Insert) : LogStream := ops.foldl insert s

end LogStream

/-- What `Logger::finish` inserts: the file and the line. -/
def Logger.finish (basename : Bytes) (line : Int32) : List Insert :=
  [.cstr (some (ascii " ")), .cstr (some basename), .char (chr ':'),
    .integer (.ofInt32 line), .char (chr '\n')]

/-! ### What an insertion should do -/

namespace LogStream

/-- Nothing was written outside `data_`, and `cur_` is not behind its end. -/
structure Bounded (s : LogStream) : Prop where
  inside : ∀ k ∈ s.mem.written, k < kSmall
  length : s.length ≤ kSmall
  avail : 0 ≤ s.avail

/-- An insertion stays inside and appends its whole text or does nothing. -/
structure Sound (s : LogStream) (op : Insert) : Prop where
  bounded : (s.insert op).Bounded
  whole : (s.insert op).text = s.text ++ op.text ∨ s.insert op = s

/-- Every one of a sequence of insertions does. -/
def AllSound (s : LogStream) : List Insert → Prop
  | [] => True
  | op :: ops => s.Sound op ∧ (s.insert op).AllSound ops

/-- The guard of an integer passes, and its text and NUL do not fit. -/
def Overruns (s : LogStream) : Insert → Prop
  | .integer v => v.type.sizeof ≤ s.avail ∧ s.avail ≤ (decimal v.value).length
  | _ => False

/-- No one of a sequence of insertions overruns. -/
def NoneOverruns (s : LogStream) : List Insert → Prop
  | [] => True
  | op :: ops => ¬ s.Overruns op ∧ (s.insert op).NoneOverruns ops

variable {s : LogStream}

theorem avail_eq (h : s.cur ≤ kSmall) : s.avail = (kSmall : Int) - s.cur :=
  FixedBuffer.avail_eq (by decide) h

theorem bounded_create (data : Nat → UInt8) : (create data).Bounded := by
  refine ⟨nofun, Nat.zero_le _, ?_⟩
  rw [avail_eq (Nat.zero_le _)]
  exact Int.natCast_nonneg kSmall

theorem append_eq (h : s.cur ≤ kSmall) (text : Bytes) :
    s.append text =
      if s.cur + text.length < kSmall then ⟨s.mem.store s.cur text, s.cur + text.length⟩ else s :=
  FixedBuffer.append_eq (by decide) h text

theorem cur_append {n : Nat} (h : s.cur = n) (text : Bytes) (hroom : n + text.length < kSmall) :
    (s.append text).cur = n + text.length := by
  subst h
  rw [append_eq (Nat.le_of_lt (Nat.lt_of_le_of_lt (Nat.le_add_right _ _) hroom)), if_pos hroom]

/-- A text written at `cur_` with nothing behind `data_` extends the text. -/
theorem bounded_extend {mem : Memory UInt8} {hi : Nat} (text : Bytes) (h : s.Bounded)
    (hchanged : s.mem.Changed mem s.cur hi) (hhi : hi ≤ kSmall) (hlen : s.cur + text.length ≤ kSmall)
    (hload : mem.load s.cur text.length = text) :
    Bounded ⟨mem, s.cur + text.length⟩ ∧
      (⟨mem, s.cur + text.length⟩ : LogStream).text = s.text ++ text := by
  refine ⟨⟨?_, hlen, ?_⟩, ?_⟩
  · intro k hk
    rcases hchanged.inside k hk with hold | ⟨_, hlt⟩
    · exact h.inside k hold
    · omega
  · rw [avail_eq hlen]
    simp only
    omega
  · rw [FixedBuffer.text, Memory.load_add, Nat.zero_add, hload, hchanged.load (Nat.le_of_eq (Nat.zero_add s.cur))]
    rfl

/-- **Strings.** The guard leaves room for more than the text. -/
theorem append_spec (h : s.Bounded) (text : Bytes) :
    Bounded (s.append text) ∧ ((s.append text).text = s.text ++ text ∨ s.append text = s) := by
  rw [append_eq h.length]
  split
  case isTrue hroom =>
    have hlen := Nat.le_of_lt hroom
    have hext := bounded_extend text h (s.mem.changed_store text hlen) (Nat.le_refl _) hlen
      (s.mem.load_store s.cur text)
    exact ⟨hext.1, .inl hext.2⟩
  case isFalse => exact ⟨h, .inr rfl⟩

/-- **Floats and pointers.** `kMaxNumSize` bytes are room for any such text. -/
theorem insertFormatted_spec (h : s.Bounded) {text : Bytes} (hshort : text.length < kMaxNumSize) :
    (s.insertFormatted text).Bounded ∧
      ((s.insertFormatted text).text = s.text ++ text ∨ s.insertFormatted text = s) := by
  unfold insertFormatted
  split
  case isTrue hroom =>
    have havail := avail_eq h.length
    have hall : (text.take (kMaxNumSize - 1) ++ [0]).take kMaxNumSize = text ++ [0] := by
      rw [List.take_of_length_le (Nat.le_sub_one_of_lt hshort), List.take_of_length_le (by rwa [List.length_append])]
    have hlen : s.cur + (text ++ [0]).length ≤ kSmall := by
      simp
      omega
    simp only [snprintf, hall, FixedBuffer.add]
    have hext := bounded_extend text h (s.mem.changed_store (text ++ [0]) hlen) (Nat.le_refl _)
      (by simp at hlen; omega) ?_
    · exact ⟨hext.1, .inl hext.2⟩
    · rw [Memory.store_append, (Memory.changed_store _ [0] (Nat.le_refl _)).load (Nat.le_refl _), Memory.load_store]
  case isFalse => exact ⟨h, .inr rfl⟩

/-- **Integers.** An integer that does not overrun is inserted whole or not at all. -/
theorem insertInteger_spec (h : s.Bounded) {v : Integer} (hfits : ¬ s.Overruns (.integer v)) :
    (s.insertInteger v).Bounded ∧
      ((s.insertInteger v).text = s.text ++ decimal v.value ∨ s.insertInteger v = s) := by
  unfold insertInteger
  split
  case isTrue hroom =>
    obtain ⟨hlen, hload, _, hchanged⟩ := convert_spec s.mem s.cur v.value
    have havail := avail_eq h.length
    have hfit : s.cur + (decimal v.value).length + 1 ≤ kSmall := by
      have hlong : ¬ s.avail ≤ (decimal v.value).length := fun hle => hfits ⟨hroom, hle⟩
      omega
    simp only [FixedBuffer.add, hlen]
    have hext := bounded_extend _ h hchanged hfit (by omega) hload
    exact ⟨hext.1, .inl hext.2⟩
  case isFalse => exact ⟨h, .inr rfl⟩

/-- An integer that overruns writes its NUL behind `data_`. -/
theorem insertInteger_overruns (h : s.Bounded) {v : Integer} (hover : s.Overruns (.integer v)) :
    ¬ (s.insertInteger v).Bounded := by
  intro hb
  have hmem := (convert_spec s.mem s.cur v.value).2.2.1
  have havail := avail_eq h.length
  have hroom : s.avail ≥ v.type.sizeof := hover.1
  have hlt := hb.inside (s.cur + (decimal v.value).length)
    (by rw [insertInteger, if_pos hroom]; exact hmem)
  have hle := hover.2
  omega

/-- An insertion from a bounded state is sound exactly if it does not overrun. -/
theorem sound_iff (h : s.Bounded) (op : Insert) : s.Sound op ↔ ¬ s.Overruns op := by
  constructor
  · intro hsound hover
    cases op with
    | integer v => exact insertInteger_overruns h hover hsound.bounded
    | bool | char | cstr | string | float | pointer => exact hover
  · intro hfits
    cases op with
    | bool v =>
      obtain ⟨hb, hw⟩ := append_spec h (ascii (if v then "1" else "0"))
      exact ⟨hb, hw⟩
    | char v =>
      obtain ⟨hb, hw⟩ := append_spec h [v]
      exact ⟨hb, hw⟩
    | cstr str =>
      cases str with
      | none =>
        obtain ⟨hb, hw⟩ := append_spec h (ascii "(null)")
        exact ⟨hb, hw⟩
      | some str =>
        obtain ⟨hb, hw⟩ := append_spec h (str.takeWhile (· ≠ 0))
        exact ⟨hb, hw⟩
    | string v =>
      obtain ⟨hb, hw⟩ := append_spec h v
      exact ⟨hb, hw⟩
    | integer v =>
      obtain ⟨hb, hw⟩ := insertInteger_spec h hfits
      exact ⟨hb, hw⟩
    | float text hshort | pointer text hshort =>
      obtain ⟨hb, hw⟩ := insertFormatted_spec h hshort
      exact ⟨hb, hw⟩

/-- The same of a whole sequence. -/
theorem allSound_iff (h : s.Bounded) (ops : List Insert) : s.AllSound ops ↔ s.NoneOverruns ops := by
  induction ops generalizing s with
  | nil => exact Iff.rfl
  | cons op ops ih =>
    constructor
    · rintro ⟨hsound, hrest⟩
      exact ⟨(sound_iff h op).mp hsound, (ih hsound.bounded).mp hrest⟩
    · rintro ⟨hfits, hrest⟩
      have hsound := (sound_iff h op).mpr hfits
      exact ⟨hsound, (ih hsound.bounded).mpr hrest⟩

theorem noneOverruns_append (s : LogStream) (ops ops' : List Insert) :
    s.NoneOverruns (ops ++ ops') ↔ s.NoneOverruns ops ∧ (s.run ops).NoneOverruns ops' := by
  induction ops generalizing s with
  | nil => simp [NoneOverruns, run]
  | cons op ops ih => simp [NoneOverruns, run, ih, and_assoc]

/-- **A log line is bounded unless an integer overruns it.** From an empty stream, every
insertion stays inside `data_` and appends its whole text or nothing exactly if no
integer is inserted with at least `sizeof(v)` bytes left and no more than it has
characters. After a message for which this holds, it holds of the suffix exactly if
the line number does not meet such a state. -/
theorem log_line_bounded (data : Nat → UInt8) (ops : List Insert) :
    ((create data).AllSound ops ↔ (create data).NoneOverruns ops) ∧
      ∀ basename line, (create data).AllSound (ops ++ Logger.finish basename line) ↔
        (create data).NoneOverruns ops ∧
          ¬ ((create data).run (ops ++ (Logger.finish basename line).take 3)).Overruns (.integer (.ofInt32 line)) := by
  have hempty := bounded_create data
  refine ⟨allSound_iff hempty ops, ?_⟩
  intro basename line
  rw [allSound_iff hempty, noneOverruns_append]
  simp [Logger.finish, NoneOverruns, run, Overruns]

/-- The stream at the line number, after a message, a blank, the file and a colon. -/
def atLine (message basename : Bytes) : LogStream :=
  (((create fun _ => 0).insert (.string message)).run ((Logger.finish basename 0).take 3))

theorem cur_atLine (message : Bytes) (h : message.length = 3990) : (atLine message (ascii "a.cc")).cur = 3996 := by
  have hmessage := cur_append (s := create fun _ => 0) rfl message (by rw [h]; decide)
  have hblank := cur_append hmessage ((ascii " ").takeWhile (· ≠ 0)) (by rw [h]; decide)
  have hfile := cur_append hblank ((ascii "a.cc").takeWhile (· ≠ 0)) (by rw [h]; decide)
  have hcolon := cur_append hfile [chr ':'] (by rw [h]; decide)
  rw [h] at hcolon
  exact hcolon

/-- After 3990 bytes of message and ` a.cc:`, the line number 12345 finds 4 bytes left,
enough for `sizeof(int)`, and its NUL is the second byte behind `data_`, where `cur_` is. -/
theorem log_line_overrun :
    ¬ (create fun _ => 0).AllSound (.string (List.replicate 3990 97) :: Logger.finish (ascii "a.cc") 12345) ∧
      4001 ∈ ((atLine (List.replicate 3990 97) (ascii "a.cc")).insertInteger (.ofInt32 12345)).mem.written := by
  generalize hm : List.replicate 3990 (97 : UInt8) = message
  have hcur := cur_atLine message (by rw [← hm, List.length_replicate])
  have havail : (atLine message (ascii "a.cc")).avail = 4 := by
    rw [avail_eq (Nat.le_of_lt (by rw [hcur]; decide)), hcur]
    rfl
  have hover : (atLine message (ascii "a.cc")).Overruns (.integer (.ofInt32 12345)) := by
    unfold Overruns
    rw [havail]
    decide
  constructor
  · rw [allSound_iff (bounded_create _)]
    rintro ⟨_, _, _, _, hfits, _⟩
    exact hfits hover
  · have hnul := (convert_spec (atLine message (ascii "a.cc")).mem (atLine message (ascii "a.cc")).cur 12345).2.2.1
    rw [hcur] at hnul
    rw [insertInteger, if_pos hover.1, hcur]
    exact hnul

end LogStream
end Chtho.Logging
