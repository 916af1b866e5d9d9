import Mathlib.Logic.Function.Basic
import Chtho.Net.Buffer

/-! A `Buffer` is a queue of bytes.

Any number of buffers, each made with its own initial size, are used through their
operations, in any order, as long as the caller asks for no more than there is
(`Legal`). The specification keeps only a list of bytes for each of them:
appending adds at the back, prepending at the front, retrieving drops from the
front and returns what it dropped. `simulation` relates the two one operation at a
time; `buffer_refines_queue` is what follows for every sequence. -/
namespace Chtho.Net.Buffer
open Lib

variable {ι : Type}

/-- An operation on the buffers `ι`. `retrieveUntil` is given the distance of its
pointer from `peek()`, and `written` comes after the caller has stored the bytes at
`writePtr()`. -/
inductive Op (ι : Type) where
  | append (i : ι) (s : Bytes)
  | prepend (i : ι) (s : Bytes)
  | retrieve (i : ι) (n : Nat)
  | retrieveUntil (i : ι) (n : Nat)
  | retrieveAsString (i : ι) (n : Nat)
  | retrieveAllAsString (i : ι)
  | retrieveAll (i : ι)
  | ensure (i : ι) (n : Nat)
  | written (i : ι) (s : Bytes)
  | swap (i j : ι)
  | readFd (i : ι) (r : Readv)

/-- What an operation returns. -/
inductive Answer where
  | string (s : Bytes)
  | count (n : Int) (errno : Option Nat)
deriving DecidableEq, Repr

/-- What the caller owes. -/
def Op.LegalOn (b : Buffer) : Op ι → Prop
  | .prepend _ s => s.length ≤ b.prependableBytes
  | .retrieve _ n | .retrieveUntil _ n | .retrieveAsString _ n => n ≤ b.readableBytes
  | .written _ s => s.length ≤ b.writableBytes
  | .readFd _ r => b.Fits r
  | .append _ _ | .retrieveAllAsString _ | .retrieveAll _ | .ensure _ _ | .swap _ _ => True

/-- One operation on one buffer: its answers and the buffer after it. -/
def perform (b : Buffer) : Op ι → Option (List Answer × Buffer)
  | .append _ s => do let b ← b.append s; some ([], b)
  | .prepend _ s => do let b ← b.prepend s; some ([], b)
  | .retrieve _ n => do let b ← b.retrieve n; some ([], b)
  | .retrieveUntil _ n => do let b ← b.retrieveUntil (b.readerIdx + n); some ([], b)
  | .retrieveAsString _ n => do let (s, b) ← b.retrieveAsString n; some ([.string s], b)
  | .retrieveAllAsString _ => do let (s, b) ← b.retrieveAllAsString; some ([.string s], b)
  | .retrieveAll _ => some ([], b.retrieveAll)
  | .ensure _ n => do let b ← b.ensure n; some ([], b)
  | .written _ s => do let b ← b.fill s; let b ← b.written s.length; some ([], b)
  | .readFd _ r => do let ((n, errno), b) ← b.readFd r; some ([.count n errno], b)
  | .swap _ _ => some ([], b)

/-- The buffer an operation is called on. -/
def Op.target : Op ι → ι
  | .append i _ | .prepend i _ | .retrieve i _ | .retrieveUntil i _ | .retrieveAsString i _
  | .retrieveAllAsString i | .retrieveAll i | .ensure i _ | .written i _ | .swap i _ | .readFd i _ => i

def Legal (bs : ι → Buffer) (op : Op ι) : Prop := op.LegalOn (bs op.target)

/-- What an operation does to a list of bytes, and what it answers. -/
def Op.onQueue (q : Bytes) : Op ι → Bytes × List Answer
  | .append _ s => (q ++ s, [])
  | .prepend _ s => (s ++ q, [])
  | .retrieve _ n => (q.drop n, [])
  | .retrieveUntil _ n => (q.drop n, [])
  | .retrieveAsString _ n => (q.drop n, [.string (q.take n)])
  | .retrieveAllAsString _ => ([], [.string q])
  | .retrieveAll _ => ([], [])
  | .ensure _ _ => (q, [])
  | .written _ s => (q ++ s, [])
  | .readFd _ (.error errno) => (q, [.count (-1) (some errno)])
  | .readFd _ (.data bytes) => (q ++ bytes, [.count bytes.length none])
  | .swap _ _ => (q, [])

/-- One buffer follows its list of bytes. -/
theorem perform_spec {b : Buffer} (h : b.Inv) (op : Op ι) (hl : op.LegalOn b) :
    ∃ b', b.perform op = some ((op.onQueue b.content).2, b') ∧ b'.Inv ∧
      b'.content = (op.onQueue b.content).1 := by
  cases op with
  | append i s =>
    obtain ⟨b', hb', hspec⟩ := append_spec h s
    exact ⟨b', by simp [perform, hb', Op.onQueue], hspec⟩
  | prepend i s =>
    obtain ⟨b', hb', hspec⟩ := prepend_spec h s hl
    exact ⟨b', by simp [perform, hb', Op.onQueue], hspec⟩
  | retrieve i n =>
    obtain ⟨b', hb', hspec⟩ := retrieve_spec h n hl
    exact ⟨b', by simp [perform, hb', Op.onQueue], hspec⟩
  | retrieveUntil i n =>
    have hn : n ≤ b.writerIdx - b.readerIdx := hl
    have hr := h.reader
    obtain ⟨b', hb', hinv, hcontent⟩ := retrieveUntil_spec h (b.readerIdx + n) (by omega) (by omega)
    rw [Nat.add_sub_cancel_left] at hcontent
    exact ⟨b', by simp [perform, hb', Op.onQueue], hinv, hcontent⟩
  | retrieveAsString i n =>
    obtain ⟨b', hb', hspec⟩ := retrieveAsString_spec h n hl
    exact ⟨b', by simp [perform, hb', Op.onQueue], hspec⟩
  | retrieveAllAsString i =>
    obtain ⟨b', hb', hspec⟩ := retrieveAllAsString_spec h
    exact ⟨b', by simp [perform, hb', Op.onQueue], hspec⟩
  | retrieveAll i =>
    obtain ⟨hinv, hnil⟩ := retrieveAll_spec h
    exact ⟨_, rfl, hinv, hnil⟩
  | ensure i n =>
    obtain ⟨b', hb', hinv, hcontent, _⟩ := ensure_spec h n
    exact ⟨b', by simp [perform, hb', Op.onQueue], hinv, hcontent⟩
  | written i s =>
    obtain ⟨b₁, h₁, h₂, _, _, _, hinv, hcontent⟩ := fill_written_spec h s hl
    exact ⟨_, by simp [perform, h₁, h₂, Op.onQueue], hinv, hcontent⟩
  | swap i j => exact ⟨_, rfl, h, rfl⟩
  | readFd i r =>
    obtain ⟨b', hb', hinv, hcontent⟩ := readFd_spec h r
    cases r with
    | error errno => exact ⟨b', by simp [perform, hb', readFdReturn, Op.onQueue], hinv,
        hcontent.trans (List.append_nil _)⟩
    | data bytes => exact ⟨b', by simp [perform, hb', readFdReturn, Op.onQueue], hinv, hcontent⟩

section
variable [DecidableEq ι]

/-- Two members of a family exchanged. -/
def exchange {β : Type} (f : ι → β) (i j : ι) : ι → β :=
  Function.update (Function.update f i (f j)) j (f i)

def machine (ι : Type) [DecidableEq ι] : Machine (ι → Buffer) (Op ι) Answer where
  enabled := Legal
  step := fun bs op =>
    match op with
    | .swap i j => some (exchange bs i j, [])
    | op => do
      let (answers, b) ← (bs op.target).perform op
      some (Function.update bs op.target b, answers)

/-- The specification: a list of bytes for each buffer. -/
def queueSpec (qs : ι → Bytes) : Op ι → (ι → Bytes) × List Answer
  | .swap i j => (exchange qs i j, [])
  | op => (Function.update qs op.target (op.onQueue (qs op.target)).1, (op.onQueue (qs op.target)).2)

/-- Every buffer has its invariant and holds its list of bytes. -/
def Represents (bs : ι → Buffer) (qs : ι → Bytes) : Prop :=
  ∀ i, (bs i).Inv ∧ (bs i).content = qs i

theorem represents_update {bs : ι → Buffer} {qs : ι → Bytes} (h : Represents bs qs) (i : ι)
    {b : Buffer} {q : Bytes} (hinv : b.Inv) (hcontent : b.content = q) :
    Represents (Function.update bs i b) (Function.update qs i q) := by
  intro k
  by_cases hk : k = i
  · subst hk
    rw [Function.update_self, Function.update_self]
    exact ⟨hinv, hcontent⟩
  · rw [Function.update_of_ne hk, Function.update_of_ne hk]
    exact h k

theorem represents_exchange {bs : ι → Buffer} {qs : ι → Bytes} (h : Represents bs qs) (i j : ι) :
    Represents (exchange bs i j) (exchange qs i j) :=
  represents_update (represents_update h i (h j).1 (h j).2) j (h i).1 (h i).2

theorem step_swap (bs : ι → Buffer) (i j : ι) :
    (machine ι).step bs (.swap i j) = some (exchange bs i j, []) := rfl

theorem represents_perform {bs : ι → Buffer} {qs : ι → Bytes} (h : Represents bs qs) (op : Op ι)
    (hl : Legal bs op) :
    ∃ b', (bs op.target).perform op = some ((op.onQueue (qs op.target)).2, b') ∧
      Represents (Function.update bs op.target b')
        (Function.update qs op.target (op.onQueue (qs op.target)).1) := by
  obtain ⟨hinv, hcontent⟩ := h op.target
  obtain ⟨b', hb', hinv', hcontent'⟩ := perform_spec hinv op hl
  rw [hcontent] at hb' hcontent'
  exact ⟨b', hb', represents_update h op.target hinv' hcontent'⟩

def simulation : Simulation (machine ι) queueSpec where
  Rel := Represents
  step := by
    intro bs qs op hrel hl
    obtain ⟨b', hb', hrel'⟩ := represents_perform hrel op hl
    cases op
    case swap i j => exact ⟨_, step_swap bs i j, represents_exchange hrel i j⟩
    all_goals exact ⟨_, by simp [machine, hb', queueSpec], hrel'⟩

/-- **Buffers refine queues of bytes.** Whatever the initial sizes, the constructors
succeed, and after any legal sequence of operations every buffer has its index
invariant and holds exactly the bytes its queue does, every answer given was the
queue's, and no legal operation can fail an assertion. -/
theorem buffer_refines_queue (initSz : ι → Nat) :
    ∃ bs₀ : ι → Buffer, (∀ i, create (initSz i) = some (bs₀ i)) ∧
      ∀ ops answers bs, (machine ι).Run bs₀ ops answers bs →
        (∀ i, (bs i).readerIdx ≤ (bs i).writerIdx ∧ (bs i).writerIdx ≤ (bs i).buf.length ∧
          kPre ≤ (bs i).buf.length) ∧
        (∀ i, (bs i).content = (specRun queueSpec (fun _ => []) ops).1 i) ∧
        answers = (specRun queueSpec (fun _ => []) ops).2 ∧
        ∀ op, Legal bs op → ((machine ι).step bs op).isSome := by
  choose bs₀ hcreate hinv hnil using fun i => create_spec (initSz i)
  have h₀ : Represents bs₀ (fun _ => []) := fun i => ⟨hinv i, hnil i⟩
  refine ⟨bs₀, hcreate, ?_⟩
  intro ops answers bs hrun
  obtain ⟨hrel, hanswers⟩ := simulation.run h₀ hrun
  refine ⟨fun i => ?_, fun i => (hrel i).2, hanswers, fun op hl => simulation.safe h₀ hrun op hl⟩
  exact ⟨(hrel i).1.reader, (hrel i).1.writer, (hrel i).1.size⟩

end

end Chtho.Net.Buffer
