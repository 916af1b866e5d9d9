import Chtho.Net.BufferQueue

/-! How large the vector of a `Buffer` gets.

It grows in `expand`, to `writerIdx + len`, so the bytes already retrieved stay in the new
size. But it only grows where compacting would not make room, and that is when fewer than
`kPre + len` bytes lie in front of the reader: less than `kPre` and what is appended. Both are
bounded by what is readable afterwards (`ensure_size`), so the size follows from the content of
one moment and not from what has passed through. -/
namespace Chtho.Net.Buffer
open Lib

/-! ### The size behind each step of an operation -/

theorem size_fill {b b' : Buffer} {s : Bytes} (h : b.fill s = some b') :
    b'.buf.length = b.buf.length ∧ b'.readerIdx = b.readerIdx ∧ b'.writerIdx = b.writerIdx := by
  obtain ⟨buf, hcopy, h⟩ := Option.bind_eq_some_iff.mp h
  obtain rfl := Option.some.inj h
  exact ⟨length_of_copyIn hcopy, rfl, rfl⟩

theorem size_written {b b' : Buffer} {len : Nat} (h : b.written len = some b') :
    b'.buf.length = b.buf.length ∧ b'.readerIdx = b.readerIdx ∧ b'.writerIdx = b.writerIdx + len := by
  obtain ⟨_, h⟩ := assert_bind_eq_some_iff.mp h
  obtain rfl := Option.some.inj h
  exact ⟨rfl, rfl, rfl⟩

/-- Growth ends where the writable bytes do that were asked for, and starts less than
`kPre + len` bytes before the reader. -/
theorem size_expand {b b' : Buffer} {len : Nat} (h : b.expand len = some b') :
    (b'.buf.length = b.buf.length ∧ b'.readableBytes = b.readableBytes) ∨
      (b'.buf.length = b.writerIdx + len ∧ b'.readerIdx = b.readerIdx ∧ b'.writerIdx = b.writerIdx ∧
        b.readerIdx < kPre + len) := by
  unfold expand at h
  split at h
  case isTrue hroom =>
    obtain rfl := Option.some.inj h
    unfold writableBytes prependableBytes at hroom
    exact .inr ⟨length_resize _ _, rfl, rfl, by omega⟩
  case isFalse =>
    obtain ⟨_, h⟩ := assert_bind_eq_some_iff.mp h
    obtain ⟨buf, hcopy, h⟩ := Option.bind_eq_some_iff.mp h
    obtain ⟨hreadable, h⟩ := assert_bind_eq_some_iff.mp h
    obtain rfl := Option.some.inj h
    exact .inl ⟨length_of_copyWithin hcopy, hreadable.symm⟩

theorem size_ensure {b b' : Buffer} {len : Nat} (h : b.ensure len = some b') :
    (b'.buf.length = b.buf.length ∧ b'.readableBytes = b.readableBytes) ∨
      (b'.buf.length = b.writerIdx + len ∧ b'.readerIdx = b.readerIdx ∧ b'.writerIdx = b.writerIdx ∧
        b.readerIdx < kPre + len) := by
  unfold ensure at h
  by_cases hlen : b.writableBytes < len
  · rw [if_pos hlen] at h
    obtain ⟨b₁, hexpand, h⟩ := Option.bind_eq_some_iff.mp h
    obtain ⟨_, h⟩ := assert_bind_eq_some_iff.mp h
    obtain rfl := Option.some.inj h
    exact size_expand hexpand
  · rw [if_neg hlen] at h
    obtain ⟨_, h⟩ := assert_bind_eq_some_iff.mp h
    obtain rfl := Option.some.inj h
    exact .inl ⟨rfl, rfl⟩

/-- The bound that one operation keeps. -/
def Bounded (b b' : Buffer) : Prop := b'.buf.length ≤ max b.buf.length (kPre + 2 * b'.readableBytes)

theorem Bounded.of_length {b b' : Buffer} (h : b'.buf.length = b.buf.length) : Bounded b b' :=
  (Nat.le_of_eq h).trans (Nat.le_max_left _ _)

/-- **Appending.** If the vector grows, then to no more than the content needs twice. -/
theorem size_append {b b' : Buffer} (hinv : b.Inv) {s : Bytes} (h : b.append s = some b') : Bounded b b' := by
  obtain ⟨b₁, hensure, h⟩ := Option.bind_eq_some_iff.mp h
  obtain ⟨b₂, hfill, hwritten⟩ := Option.bind_eq_some_iff.mp h
  obtain ⟨hsize₂, hreader₂, hwriter₂⟩ := size_fill hfill
  obtain ⟨hsize, hreader, hwriter⟩ := size_written hwritten
  rcases size_ensure hensure with ⟨hsame, _⟩ | ⟨hgrown, hreader₁, hwriter₁, hfront⟩
  · exact .of_length (by rw [hsize, hsize₂, hsame])
  · -- the size is the reader's position and the content
    have hr := hinv.reader
    unfold Bounded readableBytes
    rw [hsize, hsize₂, hgrown, hreader, hreader₂, hreader₁, hwriter, hwriter₂, hwriter₁]
    omega

theorem size_prepend {b b' : Buffer} {s : Bytes} (h : b.prepend s = some b') : Bounded b b' := by
  obtain ⟨_, h⟩ := assert_bind_eq_some_iff.mp h
  obtain ⟨buf, hcopy, h⟩ := Option.bind_eq_some_iff.mp h
  obtain rfl := Option.some.inj h
  exact .of_length (length_of_copyIn hcopy)

theorem size_retrieve {b b' : Buffer} {len : Nat} (h : b.retrieve len = some b') : Bounded b b' := by
  obtain ⟨_, h⟩ := assert_bind_eq_some_iff.mp h
  obtain rfl := Option.some.inj h
  refine .of_length ?_
  split <;> rfl

theorem size_retrieveAsString {b b' : Buffer} {len : Nat} {s : Bytes} (h : b.retrieveAsString len = some (s, b')) :
    Bounded b b' := by
  obtain ⟨_, h⟩ := assert_bind_eq_some_iff.mp h
  obtain ⟨b₁, hretrieve, h⟩ := Option.bind_eq_some_iff.mp h
  obtain ⟨_, rfl⟩ := Prod.mk.inj (Option.some.inj h)
  exact size_retrieve hretrieve

/-- Bytes that are read from a descriptor are appended, at most the second part of them by
`append`. -/
theorem size_readFd {b b' : Buffer} (hinv : b.Inv) {r : Readv} {res : Int × Option Nat}
    (h : b.readFd r = some (res, b')) :
    Bounded b b' := by
  cases r with
  | error errno =>
    obtain ⟨_, rfl⟩ := Prod.mk.inj (Option.some.inj h)
    exact .of_length rfl
  | data bytes =>
    obtain ⟨filled, hfill, h⟩ := Option.bind_eq_some_iff.mp h
    obtain ⟨hsize, hreader, hwriter⟩ := size_fill hfill
    simp only at h
    split at h
    · obtain ⟨_, rfl⟩ := Prod.mk.inj (Option.some.inj h)
      exact .of_length hsize
    · obtain ⟨b₁, happend, h⟩ := Option.bind_eq_some_iff.mp h
      obtain ⟨_, rfl⟩ := Prod.mk.inj (Option.some.inj h)
      -- the full buffer has its writer at the end
      have hfull : Inv {filled with writerIdx := filled.buf.length} := by
        refine ⟨?_, Nat.le_refl _, hsize ▸ hinv.size⟩
        show filled.readerIdx ≤ filled.buf.length
        rw [hreader, hsize]
        exact hinv.reader.trans hinv.writer
      have hbound := size_append hfull happend
      unfold Bounded at hbound ⊢
      rwa [← hsize]

/-! ### A run of operations -/

/-- The operations that move bytes in and out; `ensure` makes room for bytes that may never
come. -/
def Op.moves {ι : Type} : Op ι → Bool
  | .ensure _ _ | .swap _ _ => false
  | .append _ _ | .prepend _ _ | .retrieve _ _ | .retrieveUntil _ _ | .retrieveAsString _ _ | .retrieveAllAsString _
  | .retrieveAll _ | .written _ _ | .readFd _ _ => true

instance {ι : Type} (b : Buffer) : (op : Op ι) → Decidable (op.LegalOn b)
  | .prepend _ s => inferInstanceAs (Decidable (s.length ≤ b.prependableBytes))
  | .retrieve _ n | .retrieveUntil _ n | .retrieveAsString _ n => inferInstanceAs (Decidable (n ≤ b.readableBytes))
  | .written _ s => inferInstanceAs (Decidable (s.length ≤ b.writableBytes))
  | .readFd _ (.data bytes) => inferInstanceAs (Decidable (bytes.length ≤ b.iovecLength))
  | .readFd _ (.error _) | .append _ _ | .retrieveAllAsString _ | .retrieveAll _ | .ensure _ _ | .swap _ _ =>
    .isTrue trivial

/-- One buffer and its operations. -/
def single : Machine Buffer (Op Unit) Answer where
  enabled := fun b op => op.LegalOn b ∧ op.moves = true
  step := fun b op => (b.perform op).map fun r => (r.2, r.1)

instance (b : Buffer) (op : Op Unit) : Decidable (single.enabled b op) := inferInstanceAs (Decidable (_ ∧ _))

/-- After the operation no more than `M` bytes are readable. -/
def Within (M : Nat) (b : Buffer) (op : Op Unit) : Prop := ∀ r ∈ b.perform op, r.2.readableBytes ≤ M

instance (M : Nat) (b : Buffer) (op : Op Unit) : Decidable (Within M b op) :=
  match h : b.perform op with
  | none => .isTrue (by simp [Within, h])
  | some r => decidable_of_iff (r.2.readableBytes ≤ M) (by simp [Within, h])

theorem size_perform {b b' : Buffer} (hinv : b.Inv) {op : Op Unit} (hmoves : op.moves = true) {answers : List Answer}
    (h : b.perform op = some (answers, b')) : Bounded b b' := by
  cases op with
  | append i s =>
    obtain ⟨b₁, happend, h⟩ := Option.bind_eq_some_iff.mp h
    obtain ⟨_, rfl⟩ := Prod.mk.inj (Option.some.inj h)
    exact size_append hinv happend
  | prepend i s =>
    obtain ⟨b₁, hprepend, h⟩ := Option.bind_eq_some_iff.mp h
    obtain ⟨_, rfl⟩ := Prod.mk.inj (Option.some.inj h)
    exact size_prepend hprepend
  | retrieve i n =>
    obtain ⟨b₁, hretrieve, h⟩ := Option.bind_eq_some_iff.mp h
    obtain ⟨_, rfl⟩ := Prod.mk.inj (Option.some.inj h)
    exact size_retrieve hretrieve
  | retrieveUntil i n =>
    obtain ⟨b₁, hretrieve, h⟩ := Option.bind_eq_some_iff.mp h
    obtain ⟨_, rfl⟩ := Prod.mk.inj (Option.some.inj h)
    obtain ⟨_, hretrieve⟩ := assert_bind_eq_some_iff.mp hretrieve
    exact size_retrieve hretrieve
  | retrieveAsString i n | retrieveAllAsString i =>
    obtain ⟨⟨s, b₁⟩, hretrieve, h⟩ := Option.bind_eq_some_iff.mp h
    obtain ⟨_, rfl⟩ := Prod.mk.inj (Option.some.inj h)
    exact size_retrieveAsString hretrieve
  | retrieveAll i =>
    obtain ⟨_, rfl⟩ := Prod.mk.inj (Option.some.inj h)
    exact .of_length rfl
  | written i s =>
    obtain ⟨b₁, hfill, h⟩ := Option.bind_eq_some_iff.mp h
    obtain ⟨b₂, hwritten, h⟩ := Option.bind_eq_some_iff.mp h
    obtain ⟨_, rfl⟩ := Prod.mk.inj (Option.some.inj h)
    exact .of_length (by rw [(size_written hwritten).1, (size_fill hfill).1])
  | readFd i r =>
    obtain ⟨⟨res, b₁⟩, hread, h⟩ := Option.bind_eq_some_iff.mp h
    obtain ⟨_, rfl⟩ := Prod.mk.inj (Option.some.inj h)
    exact size_readFd hinv hread
  | ensure | swap => cases hmoves

theorem create_eq (initSz : Nat) : create initSz = some ⟨List.replicate (kPre + initSz) 0, kPre, kPre⟩ := by
  simp [create, readableBytes, writableBytes, prependableBytes]

/-- **Memory is proportional to the content.** In a run in which at most `M` bytes are readable
after every operation, the vector stays within twice that and the space in front, or what it
was made with, whatever has passed through. -/
theorem size_le {initSz M : Nat} {b₀ b : Buffer} {ops : List (Op Unit)} {answers : List Answer}
    (hcreate : create initSz = some b₀) (hrun : (single.restrict (Within M)).Run b₀ ops answers b) :
    b.buf.length ≤ max (kPre + initSz) (kPre + 2 * M) := by
  obtain ⟨b₁, hb₁, hinv₁, _⟩ := create_spec initSz
  obtain rfl : b₀ = b₁ := Option.some.inj (hcreate.symm.trans hb₁)
  have hsize₀ : b₀.buf.length = kPre + initSz := by
    rw [create_eq] at hcreate
    obtain rfl := Option.some.inj hcreate
    exact List.length_replicate
  have hboth : b.Inv ∧ b.buf.length ≤ max (kPre + initSz) (kPre + 2 * M) := by
    refine hrun.invariant (fun _ b => b.Inv ∧ b.buf.length ≤ max (kPre + initSz) (kPre + 2 * M))
      ⟨hinv₁, hsize₀ ▸ Nat.le_max_left _ _⟩ ?_
    rintro _ b op b' o ⟨hinv, hsize⟩ ⟨⟨hlegal, hmoves⟩, hwithin⟩ hstep
    obtain ⟨r, hperform, hr⟩ := Option.map_eq_some_iff.mp hstep
    obtain ⟨rfl, rfl⟩ := Prod.mk.inj hr
    obtain ⟨b₂, hb₂, hinv₂, _⟩ := perform_spec hinv op hlegal
    obtain rfl := Option.some.inj (hperform.symm.trans hb₂)
    have hbound := size_perform hinv hmoves hperform
    have hreadable := hwithin _ hperform
    unfold Bounded at hbound
    refine ⟨hinv₂, ?_⟩
    simp only at hreadable ⊢
    omega
  exact hboth.2

/-- Forty bytes through a buffer made with four, never more than twelve at a time. -/
theorem size_le_stream :
    ∃ b₀ answers b, create 4 = some b₀ ∧
      (single.restrict (Within 12)).Run b₀
        [.append () (ascii "0123456789"), .retrieve () 8, .append () (ascii "0123456789"), .retrieve () 11,
          .append () (ascii "0123456789"), .prepend () [0], .retrieve () 10, .append () (ascii "0123456789")]
          answers b ∧
      b.buf.length ≤ 32 := by
  have hstart : ∃ b₀ answers b, create 4 = some b₀ ∧
      (single.restrict (Within 12)).Run b₀
        [.append () (ascii "0123456789"), .retrieve () 8, .append () (ascii "0123456789"), .retrieve () 11,
          .append () (ascii "0123456789"), .prepend () [0], .retrieve () 10, .append () (ascii "0123456789")]
          answers b ∧
      True := Machine.Run.exists_of_start (by decide +kernel)
  obtain ⟨b₀, answers, b, hcreate, hrun, _⟩ := hstart
  exact ⟨b₀, answers, b, hcreate, hrun, size_le hcreate hrun⟩

end Chtho.Net.Buffer
