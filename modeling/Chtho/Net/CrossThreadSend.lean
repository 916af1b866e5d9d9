import Mathlib.Logic.Function.Basic
import Chtho.Lib.Mailbox
import Chtho.Lib.Memory
import Chtho.Net.StringPiece

/-! `TcpConnection::send` from a thread that is not the loop's.

The caller has memory, of which a `StringPiece` is a view, and buffers, to which a
`Buffer*` is a reference. Its `send` on a connected connection queues a functor and
returns some time later; the loop thread runs the functors in order and passes the
string they make to `sendInLoop`, as a `StringPiece`. Which bytes these are depends on
what the functor holds: the lambda of `send(StringPiece)` copies them only from C++14 on,
and that of `send(Buffer*)` keeps the pointer in every language. So `send(Buffer*)` never
leaves a buffer with something in it empty unless its functor has run before it returns. -/
namespace Chtho.Net
open Lib

namespace CrossThreadSend

/-- What a queued functor holds. -/
inductive Functor (ι : Type) where
  | copy (s : Bytes)
  | view (addr len : Nat)
  | buf (i : ι)
deriving DecidableEq, Repr

/-- The call the caller is in. -/
inductive Call (ι : Type) where
  | none
  | piece
  /-- Of a buffer that was empty when `send` was called, or was not. -/
  | buf (i : ι) (empty : Bool)
deriving DecidableEq, Repr

inductive Action (ι : Type) where
  | sendPiece (addr len : Nat)
  | sendBuf (i : ι)
  | ret
  | poke (addr : Nat) (byte : UInt8)
  | refill (i : ι) (s : Bytes)
  | swap
  | func
deriving DecidableEq, Repr

inductive Event where
  /-- `send` is called while its argument holds these bytes. -/
  | called (s : Bytes)
  /-- `sendInLoop` gets these. -/
  | delivered (s : Bytes)
  /-- `send(Buffer*)` returns with these left in the buffer. -/
  | returned (left : Bytes)
deriving DecidableEq, Repr

end CrossThreadSend

open CrossThreadSend in
structure CrossThreadSend (ι : Type) where
  mem : Memory UInt8
  bufs : ι → Buffer
  call : Call ι
  queue : Mailbox (Functor ι)

namespace CrossThreadSend
variable {ι : Type} [DecidableEq ι]

def Enabled (s : CrossThreadSend ι) : Action ι → Prop
  -- the length of a piece is an `int`
  | .sendPiece _ len => s.call = .none ∧ len < 2 ^ 31
  | .sendBuf _ | .poke _ _ | .refill _ _ => s.call = .none
  | .ret => s.call ≠ .none
  | .swap => s.queue.batch = []
  | .func => s.queue.batch ≠ []

/-- `#if __cplusplus >= 201402L` in `send(const StringPiece&)`. -/
def pieceFunctor (cplusplus : Nat) (s : CrossThreadSend ι) (addr len : Nat) : Functor ι :=
  if 201402 ≤ cplusplus then .copy (s.mem.load addr len) else .view addr len

/-- The string a functor makes, and the buffers behind it. -/
def string (s : CrossThreadSend ι) : Functor ι → Option (Bytes × (ι → Buffer))
  | .copy data => some (data, s.bufs)
  | .view addr len => some (s.mem.load addr len, s.bufs)
  | .buf i => do
    let (data, b) ← (s.bufs i).retrieveAllAsString
    some (data, Function.update s.bufs i b)

def step (cplusplus : Nat) (s : CrossThreadSend ι) : Action ι → Option (CrossThreadSend ι × List Event)
  | .sendPiece addr len =>
    some ({s with call := .piece, queue := s.queue.post (pieceFunctor cplusplus s addr len)},
      [.called (s.mem.load addr len)])
  | .sendBuf i =>
    let data := (s.bufs i).content
    some ({s with call := .buf i data.isEmpty, queue := s.queue.post (.buf i)}, [.called data])
  | .ret =>
    let left := match s.call with
      | .buf i _ => [Event.returned (s.bufs i).content]
      | _ => []
    some ({s with call := .none}, left)
  | .poke addr byte => some ({s with mem := s.mem.put addr byte}, [])
  | .refill i data => do
    let b ← (s.bufs i).append data
    some ({s with bufs := Function.update s.bufs i b}, [])
  | .swap => some ({s with queue := s.queue.swap}, [])
  | .func => do
    let (f, queue) ← s.queue.next
    let (data, bufs) ← s.string f
    let bytes ← (StringPiece.ofString data).bytes
    some ({s with queue := queue, bufs := bufs}, [.delivered bytes])

def machine (ι : Type) [DecidableEq ι] (cplusplus : Nat) : Machine (CrossThreadSend ι) (Action ι) Event :=
  ⟨Enabled, step cplusplus⟩

/-- Nothing is queued and no call is made. -/
structure Initial (s : CrossThreadSend ι) : Prop where
  call : s.call = .none
  queue : s.queue = .empty
  bufs : ∀ i, (s.bufs i).Inv

/-- The caller leaves alone what is queued: it changes no byte that a queued view shows and
does not fill a buffer of a queued functor; a buffer it sends is shorter than 2^31 bytes,
and the call returns when its functor has run, unless the buffer was empty. -/
def Undisturbed (s : CrossThreadSend ι) : Action ι → Prop
  | .poke addr byte =>
    byte = s.mem.cell addr ∨ ∀ a n, .view a n ∈ s.queue.waiting → ¬ (a ≤ addr ∧ addr < a + n)
  | .refill i data => data = [] ∨ .buf i ∉ s.queue.waiting
  | .sendBuf i => (s.bufs i).content.length < 2 ^ 31
  | .ret => ∀ i empty, s.call = .buf i empty → .buf i ∈ s.queue.waiting → empty = true
  | _ => True

/-! ### What was called and what was delivered -/

def called (obs : List Event) : List Bytes :=
  obs.filterMap fun
    | .called s => some s
    | _ => none

def delivered (obs : List Event) : List Bytes :=
  obs.filterMap fun
    | .delivered s => some s
    | _ => none

@[simp] theorem called_append (a b : List Event) : called (a ++ b) = called a ++ called b := List.filterMap_append
@[simp] theorem delivered_append (a b : List Event) : delivered (a ++ b) = delivered a ++ delivered b :=
  List.filterMap_append

@[simp] theorem called_called (s : Bytes) : called [.called s] = [s] := rfl
@[simp] theorem called_delivered (s : Bytes) : called [.delivered s] = [] := rfl
@[simp] theorem called_returned (s : Bytes) : called [.returned s] = [] := rfl
@[simp] theorem delivered_called (s : Bytes) : delivered [.called s] = [] := rfl
@[simp] theorem delivered_delivered (s : Bytes) : delivered [.delivered s] = [s] := rfl
@[simp] theorem delivered_returned (s : Bytes) : delivered [.returned s] = [] := rfl

/-- What a functor would deliver now. -/
def value (s : CrossThreadSend ι) : Functor ι → Bytes
  | .copy data => data
  | .view addr len => s.mem.load addr len
  | .buf i => (s.bufs i).content

/-- What is queued would deliver what was called, whole. A buffer with something in it has at most the
functor of the call that is being made, and it is as long as that is queued that the call would leave
something in it. -/
structure Faithful (obs : List Event) (s : CrossThreadSend ι) : Prop where
  order : called obs = delivered obs ++ s.queue.waiting.map s.value
  short : ∀ f ∈ s.queue.waiting, (s.value f).length < 2 ^ 31
  bufs : ∀ i, (s.bufs i).Inv
  alone : ∀ i, .buf i ∈ s.queue.waiting →
    (s.bufs i).content = [] ∨ s.call = .buf i false ∧ s.queue.waiting.count (.buf i) = 1
  left : ∀ i empty, s.call = .buf i empty →
    ((s.bufs i).content = [] ↔ (.buf i ∈ s.queue.waiting → empty = true))
  returned : ∀ left, .returned left ∈ obs → left = []

theorem faithful_initial {s : CrossThreadSend ι} (h : s.Initial) : Faithful [] s := by
  obtain ⟨hcall, hqueue, hbufs⟩ := h
  have hnone : ∀ f, f ∉ s.queue.waiting := by
    intro f hf
    rw [hqueue] at hf
    cases hf
  refine ⟨by simp [hqueue, called, delivered], fun f hf => absurd hf (hnone f), hbufs,
    fun i hi => absurd hi (hnone _), ?_, nofun⟩
  intro i empty hi
  rw [hcall] at hi
  cases hi

variable {s s' : CrossThreadSend ι} {obs o : List Event} {a : Action ι} {cplusplus : Nat}

/-- Outside a call, a buffer of a queued functor is empty. -/
theorem Faithful.idle (h : Faithful obs s) (hcall : s.call = .none) {i : ι} (hi : .buf i ∈ s.queue.waiting) :
    (s.bufs i).content = [] := by
  refine (h.alone i hi).resolve_right ?_
  rw [hcall]
  rintro ⟨hc, _⟩
  cases hc

/-- A step that leaves the queue, the call and what is queued as they are keeps
everything. -/
theorem Faithful.quiet (h : Faithful obs s) (hcall : s.call = .none) (hcall' : s'.call = .none)
    (hqueue : s'.queue = s.queue) (hbufs : ∀ i, (s'.bufs i).Inv)
    (hvalue : ∀ f ∈ s.queue.waiting, s'.value f = s.value f) : Faithful (obs ++ []) s' := by
  rw [List.append_nil]
  refine ⟨?_, ?_, hbufs, ?_, ?_, h.returned⟩
  · rw [hqueue, h.order, List.map_congr_left hvalue]
  · intro f hf
    rw [hqueue] at hf
    rw [hvalue f hf]
    exact h.short f hf
  · intro i hi
    rw [hqueue] at hi
    exact .inl ((hvalue _ hi).trans (h.idle hcall hi))
  · intro i empty hi
    rw [hcall'] at hi
    cases hi

/-- A call of `send` queues a functor that would deliver the argument. -/
theorem Faithful.send (h : Faithful obs s) (hcall : s.call = .none) (f : Functor ι) (c : Call ι)
    (hc : ∀ i empty, c = .buf i empty ↔ f = .buf i ∧ empty = (s.bufs i).content.isEmpty)
    (hshort : (s.value f).length < 2 ^ 31) :
    Faithful (obs ++ [.called (s.value f)]) {s with call := c, queue := s.queue.post f} := by
  refine ⟨?_, ?_, h.bufs, ?_, ?_, ?_⟩
  · simp only [called_append, called_called, delivered_append, delivered_called, List.append_nil,
      Mailbox.waiting_post, List.map_append, List.map_singleton]
    rw [h.order, List.append_assoc]
    rfl
  · intro g hg
    simp only [Mailbox.waiting_post, List.mem_append, List.mem_singleton] at hg
    rcases hg with hg | rfl
    · exact h.short g hg
    · exact hshort
  · intro i hi
    simp only [Mailbox.waiting_post, List.mem_append, List.mem_singleton] at hi ⊢
    by_cases hold : .buf i ∈ s.queue.waiting
    · exact .inl (h.idle hcall hold)
    · have hf : f = .buf i := (hi.resolve_left hold).symm
      cases hcontent : (s.bufs i).content with
      | nil => exact .inl rfl
      | cons b rest =>
        refine .inr ⟨(hc i false).mpr ⟨hf, by rw [hcontent]; rfl⟩, ?_⟩
        rw [hf, List.count_append, List.count_eq_zero_of_not_mem hold, List.count_singleton_self]
  · intro i empty hi
    obtain ⟨rfl, rfl⟩ := (hc i empty).mp hi
    simp
  · intro left hleft
    exact h.returned left (by simpa using hleft)

/-- The loop runs the first functor, which delivers what was called and leaves its
buffer empty. -/
theorem Faithful.deliver (h : Faithful obs s) {f : Functor ι} {q : Mailbox (Functor ι)} {bufs : ι → Buffer}
    (hnext : s.queue.next = some (f, q)) (hbufs : ∀ i, (bufs i).Inv)
    (hsame : ∀ i, f ≠ .buf i → bufs i = s.bufs i) (hempty : ∀ i, f = .buf i → (bufs i).content = []) :
    Faithful (obs ++ [.delivered (s.value f)]) {s with queue := q, bufs := bufs} := by
  have hwaiting := Mailbox.waiting_next hnext
  -- a buffer with something in it has no functor further back
  have hlast : ∀ i, f = .buf i → .buf i ∈ q.waiting → (s.bufs i).content = [] := by
    intro i hf hmem
    refine (h.alone i (by simp [hwaiting, hf])).resolve_right ?_
    rintro ⟨_, hcount⟩
    rw [hwaiting, hf, List.count_cons_self] at hcount
    exact List.count_eq_zero.mp (by omega) hmem
  have hvalue : ∀ g ∈ q.waiting, value {s with queue := q, bufs := bufs} g = s.value g := by
    intro g hg
    cases g with
    | copy | view => rfl
    | buf i =>
      by_cases hf : f = .buf i
      · exact (hempty i hf).trans (hlast i hf hg).symm
      · exact congrArg Buffer.content (hsame i hf)
  refine ⟨?_, ?_, hbufs, ?_, ?_, ?_⟩
  · simp only [called_append, called_delivered, delivered_append, delivered_delivered, List.append_nil]
    rw [h.order, hwaiting, List.map_cons, List.map_congr_left hvalue, List.append_assoc]
    rfl
  · intro g hg
    rw [hvalue g hg]
    exact h.short g (by simp [hwaiting, hg])
  · intro i hi
    by_cases hf : f = .buf i
    · exact .inl (hempty i hf)
    · simp only [hsame i hf]
      refine (h.alone i (by simp [hwaiting, hi])).imp_right fun ⟨hcall, hcount⟩ => ⟨hcall, ?_⟩
      rwa [hwaiting, List.count_cons_of_ne hf] at hcount
  · intro i empty hi
    have hleft := h.left i empty hi
    by_cases hf : f = .buf i
    · refine iff_of_true (hempty i hf) fun hmem => ?_
      exact hleft.mp (hlast i hf hmem) (by simp [hwaiting, hf])
    · have hmem : .buf i ∈ s.queue.waiting ↔ .buf i ∈ q.waiting := by
        simp [hwaiting, Ne.symm hf]
      simpa only [hsame i hf, hmem] using hleft
  · intro left hleft
    exact h.returned left (by simpa using hleft)

/-- `send` returns. -/
theorem Faithful.ret (h : Faithful obs s) (hC : Undisturbed s .ret) (hs : step cplusplus s .ret = some (s', o)) :
    Faithful (obs ++ o) s' := by
  obtain ⟨rfl, rfl⟩ := Prod.mk.inj (Option.some.inj hs)
  have halone : ∀ i, .buf i ∈ s.queue.waiting → (s.bufs i).content = [] := fun i hi =>
    (h.alone i hi).resolve_right fun ⟨hcall, _⟩ => Bool.false_ne_true (hC i false hcall hi)
  cases hcall : s.call with
  | none | piece =>
    rw [List.append_nil]
    exact ⟨h.order, h.short, h.bufs, fun i hi => .inl (halone i hi), nofun, h.returned⟩
  | buf i empty =>
    have hleft : (s.bufs i).content = [] := (h.left i empty hcall).mpr (hC i empty hcall)
    refine ⟨?_, h.short, h.bufs, fun i hi => .inl (halone i hi), nofun, ?_⟩
    · rw [called_append, called_returned, delivered_append, delivered_returned, List.append_nil, List.append_nil]
      exact h.order
    · intro left hmem
      rcases List.mem_append.mp hmem with hmem | hmem
      · exact h.returned left hmem
      · rw [List.mem_singleton, Event.returned.injEq] at hmem
        exact hmem.trans hleft

theorem step_func {f : Functor ι} {q : Mailbox (Functor ι)} {data : Bytes} {bufs : ι → Buffer}
    (hnext : s.queue.next = some (f, q)) (hstring : s.string f = some (data, bufs)) (hdata : data.length < 2 ^ 31) :
    step cplusplus s .func = some ({s with queue := q, bufs := bufs}, [.delivered data]) := by
  have hbytes := StringPiece.bytes_ofString hdata
  rw [step, hnext, Option.bind_eq_bind, Option.bind_some]
  dsimp only
  rw [hstring, Option.bind_eq_bind, Option.bind_some]
  dsimp only
  rw [hbytes, Option.bind_eq_bind, Option.bind_some]

/-- A functor runs to its end and delivers what it would have. -/
theorem Faithful.func (h : Faithful obs s) (cplusplus : Nat) {f : Functor ι} {q : Mailbox (Functor ι)}
    (hnext : s.queue.next = some (f, q)) : ∃ bufs,
    step cplusplus s .func = some ({s with queue := q, bufs := bufs}, [.delivered (s.value f)]) ∧
      (∀ i, (bufs i).Inv) ∧ (∀ i, f ≠ .buf i → bufs i = s.bufs i) ∧
      ∀ i, f = .buf i → (bufs i).content = [] := by
  have hshort := h.short f (by simp [Mailbox.waiting_next hnext])
  cases f with
  | copy data => exact ⟨s.bufs, step_func hnext rfl hshort, h.bufs, fun _ _ => rfl, nofun⟩
  | view addr len => exact ⟨s.bufs, step_func hnext rfl hshort, h.bufs, fun _ _ => rfl, nofun⟩
  | buf j =>
    obtain ⟨b, hb, hinv, hcontent⟩ := Buffer.retrieveAllAsString_spec (h.bufs j)
    refine ⟨Function.update s.bufs j b, step_func hnext ?_ hshort, fun i => ?_, fun i hi => ?_, fun i hi => ?_⟩
    · simp only [string, hb, Option.bind_eq_bind, Option.bind_some, value]
    · by_cases hi : i = j
      · subst hi
        simpa using hinv
      · simpa [hi] using h.bufs i
    · exact Function.update_of_ne (fun heq => hi (by rw [heq])) ..
    · obtain rfl := Functor.buf.inj hi
      simpa using hcontent

theorem faithful_step (h : Faithful obs s) (he : Enabled s a) (hC : Undisturbed s a)
    (hs : step cplusplus s a = some (s', o)) : Faithful (obs ++ o) s' := by
  cases a with
  | sendPiece addr len =>
    obtain ⟨hcall, hlen⟩ := he
    obtain ⟨rfl, rfl⟩ := Prod.mk.inj (Option.some.inj hs)
    have hshort : (s.mem.load addr len).length < 2 ^ 31 := by rwa [Memory.length_load]
    unfold pieceFunctor
    split
    · exact h.send hcall (.copy (s.mem.load addr len)) .piece (fun i empty => by simp) hshort
    · exact h.send hcall (.view addr len) .piece (fun i empty => by simp) hshort
  | sendBuf j =>
    obtain ⟨rfl, rfl⟩ := Prod.mk.inj (Option.some.inj hs)
    refine h.send he (.buf j) (.buf j _) (fun i empty => ?_) hC
    simp only [Call.buf.injEq, Functor.buf.injEq]
    constructor
    · rintro ⟨rfl, rfl⟩
      exact ⟨rfl, rfl⟩
    · rintro ⟨rfl, rfl⟩
      exact ⟨rfl, rfl⟩
  | ret => exact h.ret hC hs
  | poke addr byte =>
    obtain ⟨rfl, rfl⟩ := Prod.mk.inj (Option.some.inj hs)
    refine h.quiet he he rfl h.bufs fun f hf => ?_
    cases f with
    | copy | buf => rfl
    | view a n =>
      refine Memory.load_congr fun k hlo hhi => ?_
      by_cases hk : k = addr
      · subst hk
        have hsame : byte = s.mem.cell k := hC.resolve_right fun hno => hno a n hf ⟨hlo, hhi⟩
        exact (Function.update_self ..).trans hsame
      · exact Function.update_of_ne hk ..
  | refill j data =>
    obtain ⟨b, hb, hinv, hcontent⟩ := Buffer.append_spec (h.bufs j) data
    simp only [step, hb, Option.bind_eq_bind, Option.bind_some] at hs
    obtain ⟨rfl, rfl⟩ := Prod.mk.inj (Option.some.inj hs)
    refine h.quiet he he rfl (fun i => ?_) fun f hf => ?_
    · by_cases hi : i = j
      · subst hi
        simpa using hinv
      · simpa [hi] using h.bufs i
    · cases f with
      | copy | view => rfl
      | buf i =>
        by_cases hi : i = j
        · subst hi
          have hnil : data = [] := hC.resolve_right fun hno => hno hf
          simp [value, hcontent, hnil]
        · simp [value, hi]
  | swap =>
    obtain ⟨rfl, rfl⟩ := Prod.mk.inj (Option.some.inj hs)
    have hwaiting : s.queue.swap.waiting = s.queue.waiting := Mailbox.waiting_swap he
    rw [List.append_nil]
    refine ⟨?_, ?_, h.bufs, ?_, ?_, h.returned⟩
    · rw [hwaiting]
      exact h.order
    · rw [hwaiting]
      exact h.short
    · simpa only [hwaiting] using h.alone
    · simpa only [hwaiting] using h.left
  | func =>
    obtain ⟨f, q, hnext⟩ := Mailbox.exists_next he
    obtain ⟨bufs, hstep, hinv, hsame, hempty⟩ := h.func cplusplus hnext
    obtain ⟨rfl, rfl⟩ := Prod.mk.inj (Option.some.inj (hstep.symm.trans hs))
    exact h.deliver hnext hinv hsame hempty

/-- No step fails. -/
theorem Faithful.isSome_step (h : Faithful obs s) (he : Enabled s a) : (step cplusplus s a).isSome := by
  cases a with
  | sendPiece | sendBuf | ret | poke | swap => rfl
  | refill j data =>
    obtain ⟨b, hb, _⟩ := Buffer.append_spec (h.bufs j) data
    simp [step, hb]
  | func =>
    obtain ⟨f, q, hnext⟩ := Mailbox.exists_next he
    obtain ⟨bufs, hstep, _⟩ := h.func cplusplus hnext
    rw [hstep]
    rfl

/-- **A send from another thread delivers what was passed to it, if the caller leaves it
alone.** In every run in which the caller changes nothing that a queued functor will
read, a buffer that is sent is shorter than 2^31 bytes, and `send(Buffer*)` returns only
when its functor has run or the buffer was empty, what `sendInLoop` gets is what `send`
was called with, in order, every `send(Buffer*)` returns with an empty buffer, and no
step fails. The last condition is exact: in every state of such a run the buffer of a call
is empty if and only if it was empty when `send` was called or its functor has run. -/
theorem delivers_what_was_called {s₀ : CrossThreadSend ι} (h₀ : s₀.Initial) {as : List (Action ι)}
    (h : ((machine ι cplusplus).restrict Undisturbed).Run s₀ as obs s) :
    delivered obs <+: called obs ∧ (∀ left, .returned left ∈ obs → left = []) ∧
      (∀ a, Enabled s a → (step cplusplus s a).isSome) ∧
      ∀ i empty, s.call = .buf i empty →
        ((s.bufs i).content = [] ↔ (.buf i ∈ s.queue.waiting → empty = true)) := by
  have hfaithful : Faithful obs s := by
    refine h.invariant Faithful (faithful_initial h₀) ?_
    rintro obs s a s' o hI ⟨he, hC⟩ hs
    exact faithful_step hI he hC hs
  exact ⟨⟨_, hfaithful.order.symm⟩, hfaithful.returned, fun _ he => hfaithful.isSome_step he, hfaithful.left⟩

/-- `AB` at address 0, and a buffer with `A` in it. -/
def caller : CrossThreadSend Unit :=
  ⟨⟨fun addr => if addr = 0 then 65 else 66, []⟩, fun _ => ⟨[0, 0, 0, 0, 0, 0, 0, 0, 65], 8, 9⟩, .none, .empty⟩

theorem caller_initial : caller.Initial := ⟨rfl, rfl, fun () => ⟨by decide, by decide, by decide⟩⟩

/-- Bytes next to the message may be changed. -/
theorem delivers_what_was_called_beside :
    ∃ obs s, ((machine Unit 201103).restrict Undisturbed).Run caller
        [.sendPiece 0 2, .ret, .poke 2 88, .swap, .func] obs s ∧
      delivered obs = [[65, 66]] ∧ delivered obs <+: called obs := by
  have hbeside : ∀ a n, Functor.view a n ∈ [(.view 0 2 : Functor Unit)] → ¬ (a ≤ 2 ∧ 2 < a + n) := by
    intro a n hmem
    obtain ⟨rfl, rfl⟩ := Functor.view.inj (List.mem_singleton.mp hmem)
    decide
  have hrun : ((machine Unit 201103).restrict Undisturbed).Run caller
      [.sendPiece 0 2, .ret, .poke 2 88, .swap, .func] _ _ :=
    .cons ⟨⟨rfl, by decide⟩, trivial⟩ rfl (.cons ⟨nofun, nofun⟩ rfl (.cons ⟨rfl, .inr hbeside⟩ rfl
      (.cons ⟨rfl, trivial⟩ rfl (.cons ⟨nofun, trivial⟩ rfl .nil))))
  exact ⟨_, _, hrun, by decide, (delivers_what_was_called caller_initial hrun).1⟩

/-- As C++11, the first byte of the message is overwritten after `send` has returned, and
`sendInLoop` gets the new one; and a buffer is left as it was when `send` returns. -/
theorem delivers_what_was_overwritten :
    (∃ obs s, (machine Unit 201103).Run caller [.sendPiece 0 2, .ret, .poke 0 88, .swap, .func] obs s ∧
      called obs = [[65, 66]] ∧ delivered obs = [[88, 66]] ∧ ¬ delivered obs <+: called obs) ∧
    ∃ obs s, (machine Unit 201103).Run caller [.sendBuf (), .ret] obs s ∧ .returned [65] ∈ obs := by
  constructor
  · have hrun : (machine Unit 201103).Run caller [.sendPiece 0 2, .ret, .poke 0 88, .swap, .func] _ _ :=
      .cons ⟨rfl, by decide⟩ rfl (.cons nofun rfl (.cons rfl rfl (.cons rfl rfl (.cons nofun rfl .nil))))
    exact ⟨_, _, hrun, by decide, by decide, by decide⟩
  · exact ⟨_, _, .cons rfl rfl (.cons nofun rfl .nil), by decide⟩

end CrossThreadSend
end Chtho.Net
