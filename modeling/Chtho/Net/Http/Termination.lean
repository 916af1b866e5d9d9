import Chtho.Net.Http.Incremental

/-! When the loop of `parse` comes to an end.

A turn in `expReq` or `expHeader` takes a line out of the buffer or stops the loop. In
`done` no branch is taken: `more` stays set, and the next turn is the same one. So a call
returns exactly if the context was not finished before; `expBody` is a state no context gets
into. -/
namespace Chtho.Net
open Lib

namespace HTTPContext

/-- The contexts that calls of `parse` lead to, with any buffer at each call. -/
inductive Reachable : HTTPContext → Prop where
  | create : Reachable create
  | parse {c : HTTPContext} {b : Buffer} {fuel : Nat} {l : Loop} (hreach : Reachable c) (hinv : b.Inv)
      (hloop : parseLoop fuel ⟨true, true, c, b⟩ = some l) : Reachable l.context

/-- The call comes back after some number of turns. -/
def Returns (c : HTTPContext) (b : Buffer) : Prop := ∃ fuel l, parseLoop fuel ⟨true, true, c, b⟩ = some l

/-! ### No context waits for a body -/

theorem parseOnce_ne_expBody {l l' : Loop} (h : parseOnce l = some l') (hstate : l.context.state ≠ .expBody) :
    l'.context.state ≠ .expBody := by
  unfold parseOnce at h
  split at h
  case h_1 hreq =>
    split at h
    · simp only at h
      split at h
      · obtain ⟨buf, _, h⟩ := Option.bind_eq_some_iff.mp h
        obtain rfl := Option.some.inj h
        simp
      · obtain rfl := Option.some.inj h
        exact hstate
    · obtain rfl := Option.some.inj h
      exact hstate
  case h_2 hheader =>
    split at h
    · obtain ⟨buf, _, h⟩ := Option.bind_eq_some_iff.mp h
      obtain rfl := Option.some.inj h
      simp only
      split
      · exact hstate
      · simp
    · obtain rfl := Option.some.inj h
      exact hstate
  all_goals
    obtain rfl := Option.some.inj h
    exact hstate

theorem parseLoop_ne_expBody {fuel : Nat} {l l' : Loop} (h : parseLoop fuel l = some l')
    (hstate : l.context.state ≠ .expBody) : l'.context.state ≠ .expBody := by
  induction fuel generalizing l with
  | zero => cases h
  | succ fuel ih =>
    obtain ⟨l₁, honce, hrest⟩ := Option.bind_eq_some_iff.mp h
    have hstate₁ := parseOnce_ne_expBody honce hstate
    split at hrest
    · exact ih hrest hstate₁
    · obtain rfl := Option.some.inj hrest
      exact hstate₁

theorem Reachable.ne_expBody {c : HTTPContext} (h : Reachable c) : c.state ≠ .expBody := by
  induction h with
  | create => simp [HTTPContext.create]
  | parse _ _ hloop ih => exact parseLoop_ne_expBody hloop ih

/-! ### The call on a finished context -/

/-- A turn of a finished context changes nothing. -/
theorem parseOnce_done {l : Loop} (h : l.context.done = true) : parseOnce l = some l := by
  have hstate : l.context.state = .done := by simpa [done] using h
  simp [parseOnce, hstate]

/-- However many turns it is given, the loop has not come to its end. -/
theorem parseLoop_done {l : Loop} (h : l.context.done = true) (hmore : l.more = true) (fuel : Nat) :
    parseLoop fuel l = none := by
  induction fuel with
  | zero => rfl
  | succ fuel ih => simp [parseLoop, parseOnce_done h, hmore, ih]

/-- **When `parse` terminates.** A call on a context that earlier calls led to, and on any
buffer, returns exactly if the context is not finished. -/
theorem returns_iff_not_done {c : HTTPContext} (hreach : Reachable c) {b : Buffer} (hinv : b.Inv) :
    Returns c b ↔ c.done = false := by
  constructor
  · rintro ⟨fuel, l, hloop⟩
    by_contra hdone
    rw [parseLoop_done (Bool.eq_true_of_not_eq_false hdone) rfl] at hloop
    cases hloop
  · intro hdone
    have hstate : c.state = .expReq ∨ c.state = .expHeader := by
      have hbody := hreach.ne_expBody
      cases hc : c.state with
      | expReq => exact .inl rfl
      | expHeader => exact .inr rfl
      | expBody => exact absurd hc hbody
      | done => simp [done, hc] at hdone
    -- one turn for each readable byte and one more
    obtain ⟨ok, c', rest, hparses⟩ := exists_parses hstate b.content
    obtain ⟨b', _, _, hloop⟩ := hparses.parseLoop hinv rfl (Nat.lt_succ_self _)
    exact ⟨_, _, hloop⟩

/-- A request line, and then a header line without a colon and part of a line end. -/
def requestLineOnly : Buffer := ⟨List.replicate 8 0 ++ ascii "GET / HTTP/1.1\r\n", 8, 24⟩

def brokenLine : Buffer := ⟨List.replicate 8 0 ++ ascii "no colon\r\n\r", 8, 19⟩

/-- A call on a context that waits for headers. -/
theorem returns_brokenLine :
    ∃ c b, create.parse requestLineOnly = some (true, c, b) ∧ c.state = .expHeader ∧ Reachable c ∧
      brokenLine.content = ascii "no colon\r\n\r" ∧ Returns c brokenLine := by
  have hinv : requestLineOnly.Inv := ⟨by decide, by decide, by decide⟩
  have hcontent : requestLineOnly.content = ascii "GET / HTTP/1.1" ++ Buffer.crlf ++ [] := by decide
  have hparses : Parses create requestLineOnly.content true ⟨.expHeader, (procReq .create (ascii "GET / HTTP/1.1")).1⟩ [] := by
    rw [hcontent]
    exact .request rfl (by decide) (by decide) (.incomplete (.inr rfl) (by decide))
  obtain ⟨b, hparse, _, _⟩ := hparses.parse hinv rfl
  obtain ⟨b', _, _, hloop⟩ := hparses.parseLoop hinv rfl (Nat.lt_succ_self _)
  have hreach : Reachable ⟨.expHeader, (procReq .create (ascii "GET / HTTP/1.1")).1⟩ := .parse .create hinv hloop
  have hbroken : brokenLine.Inv := ⟨by decide, by decide, by decide⟩
  exact ⟨_, b, hparse, rfl, hreach, by decide, (returns_iff_not_done hreach hbroken).mpr rfl⟩

/-- A buffer that holds a whole request. -/
def wholeRequest : Buffer := ⟨List.replicate 8 0 ++ ascii "GET / HTTP/1.1\r\n\r\n", 8, 26⟩

/-- A second call on the context that has parsed it does not return. -/
theorem second_call_spins :
    ∃ c b, create.parse wholeRequest = some (true, c, b) ∧ Reachable c ∧ c.done = true ∧
      ∀ b : Buffer, ¬ Returns c b := by
  have hinv : wholeRequest.Inv := ⟨by decide, by decide, by decide⟩
  have hcontent : wholeRequest.content = ascii "GET / HTTP/1.1" ++ Buffer.crlf ++ ([] ++ Buffer.crlf ++ []) := by decide
  have hparses : Parses create wholeRequest.content true ⟨.done, (procReq .create (ascii "GET / HTTP/1.1")).1⟩ [] := by
    rw [hcontent]
    exact .request rfl (by decide) (by decide) (.finish rfl (by decide) (by decide))
  obtain ⟨b, hparse, _, _⟩ := hparses.parse hinv rfl
  obtain ⟨b', _, _, hloop⟩ := hparses.parseLoop hinv rfl (Nat.lt_succ_self _)
  refine ⟨_, b, hparse, .parse .create hinv hloop, rfl, fun b₁ hreturns => ?_⟩
  obtain ⟨fuel, l, hnone⟩ := hreturns
  rw [parseLoop_done rfl rfl] at hnone
  cases hnone

end HTTPContext
end Chtho.Net
