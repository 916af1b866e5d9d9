import Chtho.Net.Http.Message

/-! `HTTPContext`: parsing a request from the front of a `Buffer`.

`parse` is a loop that takes one line at a time: `parseOnce` is one turn of it, with
the local variables `ok` and `more`. Nothing in the loop handles the states `expBody`
and `done`, so the loop is run with fuel; in the other states one turn for each
readable byte and one more are enough. -/
namespace Chtho.Net
open Lib

namespace HTTPContext

inductive ParseState where
  | expReq
  | expHeader
  | expBody
  | done
deriving DecidableEq, Repr

end HTTPContext

structure HTTPContext where
  state : HTTPContext.ParseState
  request : HTTPRequest

namespace HTTPContext

def create : HTTPContext := ⟨.expReq, .create⟩

def done (c : HTTPContext) : Bool := c.state = .done

/-- The version at the end of a request line. -/
def procVersion (q : HTTPRequest) (version : Bytes) : HTTPRequest × Bool :=
  if version.length ≠ 8 then (q, false)
  else if version.take 7 ≠ ascii "HTTP/1." then (q, false)
  else if version.drop 7 = ascii "1" then ({q with version := .http11}, true)
  else if version.drop 7 = ascii "0" then ({q with version := .http10}, true)
  else (q, false)

/-- The target of a request line, with its query from the question mark on. -/
def procTarget (q : HTTPRequest) (target : Bytes) : HTTPRequest :=
  let question := target.idxOf (chr '?')
  if question ≠ target.length then {q with path := target.take question, query := target.drop question}
  else {q with path := target}

def procReq (q : HTTPRequest) (line : Bytes) : HTTPRequest × Bool :=
  let space := line.idxOf (chr ' ')
  if space = line.length then (q, false)
  else
    let (q, valid) := q.setMethod (line.take space)
    if !valid then (q, false)
    else
      let rest := line.drop (space + 1)
      let space := rest.idxOf (chr ' ')
      if space = rest.length then (q, false)
      else procVersion (procTarget q (rest.take space)) (rest.drop (space + 1))

/-- The variables of the loop. -/
structure Loop where
  ok : Bool
  more : Bool
  context : HTTPContext
  buf : Buffer

def parseOnce (l : Loop) : Option Loop :=
  match l.context.state with
  | .expReq =>
    match l.buf.findCRLF with
    | some crlf => do
      let (request, ok) := procReq l.context.request (slice l.buf.buf l.buf.readerIdx (crlf - l.buf.readerIdx))
      if ok then
        let buf ← l.buf.retrieveUntil (crlf + 2)
        some {l with ok := ok, context := ⟨.expHeader, request⟩, buf := buf}
      else some {l with ok := ok, more := false, context := {l.context with request := request}}
    | none => some {l with more := false}
  | .expHeader =>
    match l.buf.findCRLF with
    | some crlf => do
      let line := slice l.buf.buf l.buf.readerIdx (crlf - l.buf.readerIdx)
      let colon := line.idxOf (chr ':')
      let l :=
        if colon ≠ line.length then
          {l with context := {l.context with request := l.context.request.addHeader line colon}}
        else {l with more := false, context := {l.context with state := .done}}
      let buf ← l.buf.retrieveUntil (crlf + 2)
      some {l with buf := buf}
    | none => some {l with more := false}
  | .expBody | .done => some l

def parseLoop : Nat → Loop → Option Loop
  | 0, _ => none
  | fuel + 1, l => do
    let l ← parseOnce l
    if l.more then parseLoop fuel l else some l

/-- `parse`: what it returns, the context and the buffer; none if it does not come to
an end. -/
def parse (c : HTTPContext) (buf : Buffer) : Option (Bool × HTTPContext × Buffer) := do
  let l ← parseLoop (buf.readableBytes + 1) ⟨true, true, c, buf⟩
  some (l.ok, l.context, l.buf)

/-! ### One turn, by what the buffer holds -/

/-- A line has no line end in it. -/
def IsLine (line : Bytes) : Prop := ¬ Buffer.crlf <:+: line

instance (line : Bytes) : Decidable (IsLine line) := inferInstanceAs (Decidable (¬ _))

theorem findCRLF_eq_none {b : Buffer} (h : IsLine b.content) : b.findCRLF = none := by
  rw [Buffer.findCRLF, (search_eq_none_iff (by decide) _).mpr h]
  rfl

/-- A complete line at the front of the buffer is found, read and retrieved. -/
theorem findCRLF_spec {b : Buffer} (h : b.Inv) {line rest : Bytes} (hline : IsLine line)
    (hcontent : b.content = line ++ Buffer.crlf ++ rest) :
    ∃ crlf b', b.findCRLF = some crlf ∧ slice b.buf b.readerIdx (crlf - b.readerIdx) = line ∧
      b.retrieveUntil (crlf + 2) = some b' ∧ b'.Inv ∧ b'.content = rest := by
  have hsearch : search Buffer.crlf b.content = some line.length := by
    rw [hcontent, List.append_assoc]
    exact search_pair (by decide) hline rest
  have hlen : line.length + 2 ≤ b.readableBytes := by
    rw [← Buffer.length_content h, hcontent]
    simp [Buffer.crlf]
  have hread : b.readerIdx + b.readableBytes = b.writerIdx := Nat.add_sub_cancel' h.reader
  obtain ⟨b', hb', hinv, hrest⟩ := Buffer.retrieveUntil_spec h (b.readerIdx + line.length + 2) (by omega) (by omega)
  refine ⟨b.readerIdx + line.length, b', ?_, ?_, hb', hinv, ?_⟩
  · rw [Buffer.findCRLF, hsearch]
    rfl
  · rw [Nat.add_sub_cancel_left, ← take_slice _ _ _ _ (by omega : line.length ≤ b.readableBytes)]
    show b.content.take line.length = line
    rw [hcontent, List.append_assoc, List.take_left]
  · have hdrop : b.readerIdx + line.length + 2 - b.readerIdx = (line ++ Buffer.crlf).length := by
      simp [Buffer.crlf]
      omega
    rw [hrest, hdrop, hcontent, List.drop_left]

/-- Without a complete line the loop stops. -/
theorem parseLoop_incomplete (fuel : Nat) {l : Loop} (hstate : l.context.state = .expReq ∨ l.context.state = .expHeader)
    (h : IsLine l.buf.content) : parseLoop (fuel + 1) l = some {l with more := false} := by
  have hnone := findCRLF_eq_none h
  rcases hstate with hstate | hstate
  all_goals simp [parseLoop, parseOnce, hstate, hnone]

/-- A request line that is accepted is consumed. -/
theorem parseLoop_request (fuel : Nat) {l : Loop} (hstate : l.context.state = .expReq) (hmore : l.more = true)
    (h : l.buf.Inv) {line rest : Bytes} (hline : IsLine line) (hcontent : l.buf.content = line ++ Buffer.crlf ++ rest)
    (hok : (procReq l.context.request line).2 = true) :
    ∃ b', b'.Inv ∧ b'.content = rest ∧
      parseLoop (fuel + 1) l =
        parseLoop fuel ⟨true, true, ⟨.expHeader, (procReq l.context.request line).1⟩, b'⟩ := by
  obtain ⟨crlf, b', hfind, hslice, hretrieve, hinv, hrest⟩ := findCRLF_spec h hline hcontent
  refine ⟨b', hinv, hrest, ?_⟩
  simp [parseLoop, parseOnce, hstate, hfind, hslice, hretrieve, hok, hmore]

/-- A request line that is rejected stays where it is. -/
theorem parseLoop_reject (fuel : Nat) {l : Loop} (hstate : l.context.state = .expReq) (h : l.buf.Inv)
    {line rest : Bytes} (hline : IsLine line) (hcontent : l.buf.content = line ++ Buffer.crlf ++ rest)
    (hok : (procReq l.context.request line).2 = false) :
    parseLoop (fuel + 1) l =
      some ⟨false, false, ⟨.expReq, (procReq l.context.request line).1⟩, l.buf⟩ := by
  obtain ⟨crlf, b', hfind, hslice, _⟩ := findCRLF_spec h hline hcontent
  simp [parseLoop, parseOnce, hstate, hfind, hslice, hok]

/-- A header line is consumed and added. -/
theorem parseLoop_header (fuel : Nat) {l : Loop} (hstate : l.context.state = .expHeader) (hmore : l.more = true)
    (h : l.buf.Inv) {line rest : Bytes} (hline : IsLine line) (hcontent : l.buf.content = line ++ Buffer.crlf ++ rest)
    (hcolon : chr ':' ∈ line) :
    ∃ b', b'.Inv ∧ b'.content = rest ∧
      parseLoop (fuel + 1) l =
        parseLoop fuel ⟨l.ok, true,
          ⟨.expHeader, l.context.request.addHeader line (line.idxOf (chr ':'))⟩, b'⟩ := by
  obtain ⟨crlf, b', hfind, hslice, hretrieve, hinv, hrest⟩ := findCRLF_spec h hline hcontent
  refine ⟨b', hinv, hrest, ?_⟩
  have hne : line.idxOf (chr ':') ≠ line.length := fun heq => List.idxOf_eq_length_iff.mp heq hcolon
  simp [parseLoop, parseOnce, hstate, hfind, hslice, hretrieve, hne, hmore]

/-- A line without a colon ends the request. -/
theorem parseLoop_end (fuel : Nat) {l : Loop} (hstate : l.context.state = .expHeader) (h : l.buf.Inv)
    {line rest : Bytes} (hline : IsLine line) (hcontent : l.buf.content = line ++ Buffer.crlf ++ rest)
    (hcolon : chr ':' ∉ line) :
    ∃ b', b'.Inv ∧ b'.content = rest ∧
      parseLoop (fuel + 1) l = some ⟨l.ok, false, ⟨.done, l.context.request⟩, b'⟩ := by
  obtain ⟨crlf, b', hfind, hslice, hretrieve, hinv, hrest⟩ := findCRLF_spec h hline hcontent
  refine ⟨b', hinv, hrest, ?_⟩
  have heq := List.idxOf_eq_length_iff.mpr hcolon
  simp [parseLoop, parseOnce, hstate, hfind, hslice, hretrieve, heq]

/-! ### Header lines -/

structure IsHeader (line : Bytes) : Prop where
  isLine : IsLine line
  colon : chr ':' ∈ line

/-- Lines, each with its end. -/
def joined (lines : List Bytes) : Bytes := lines.flatMap (· ++ Buffer.crlf)

@[simp] theorem joined_nil : joined [] = [] := rfl

@[simp] theorem joined_cons (line : Bytes) (lines : List Bytes) :
    joined (line :: lines) = line ++ Buffer.crlf ++ joined lines := rfl

def addHeaders (q : HTTPRequest) (lines : List Bytes) : HTTPRequest :=
  lines.foldl (fun q line => q.addHeader line (line.idxOf (chr ':'))) q

/-- Every turn uses up some of the buffer. -/
theorem length_behind_line {content line rest : Bytes} {fuel : Nat} (h : content = line ++ Buffer.crlf ++ rest)
    (hfuel : content.length < fuel + 1) : rest.length < fuel := by
  subst h
  simp only [List.length_append, Buffer.crlf, List.length_cons, List.length_nil] at hfuel
  omega

/-- All header lines and the empty line are there: the request is done. -/
theorem parseLoop_headers {lines : List Bytes} (hlines : ∀ line ∈ lines, IsHeader line) {fuel : Nat} {l : Loop}
    (hstate : l.context.state = .expHeader) (hmore : l.more = true) (h : l.buf.Inv) {rest : Bytes}
    (hcontent : l.buf.content = joined lines ++ Buffer.crlf ++ rest) (hfuel : l.buf.content.length < fuel) :
    ∃ b', b'.Inv ∧ b'.content = rest ∧
      parseLoop fuel l = some ⟨l.ok, false, ⟨.done, addHeaders l.context.request lines⟩, b'⟩ := by
  induction lines generalizing l fuel with
  | nil =>
    obtain ⟨fuel, rfl⟩ := Nat.exists_eq_succ_of_ne_zero (Nat.ne_of_gt (Nat.zero_lt_of_lt hfuel))
    exact parseLoop_end fuel hstate h (by decide) hcontent (by simp)
  | cons line lines ih =>
    obtain ⟨fuel, rfl⟩ := Nat.exists_eq_succ_of_ne_zero (Nat.ne_of_gt (Nat.zero_lt_of_lt hfuel))
    obtain ⟨hhead, htail⟩ := List.forall_mem_cons.mp hlines
    have hfirst : l.buf.content = line ++ Buffer.crlf ++ (joined lines ++ Buffer.crlf ++ rest) := by
      simpa using hcontent
    obtain ⟨b₁, hinv₁, hcontent₁, hloop⟩ := parseLoop_header fuel hstate hmore h hhead.isLine hfirst hhead.colon
    obtain ⟨b₂, hinv₂, hcontent₂, hloop₂⟩ := ih htail (l := ⟨l.ok, true, ⟨.expHeader, _⟩, b₁⟩) rfl rfl hinv₁ hcontent₁
      (hcontent₁ ▸ length_behind_line hfirst hfuel)
    exact ⟨b₂, hinv₂, hcontent₂, hloop.trans hloop₂⟩

/-- **A complete request at the front of the buffer is parsed**, and what is behind it is
left. -/
theorem parse_whole {b : Buffer} (h : b.Inv) {line rest : Bytes} {headers : List Bytes} (hline : IsLine line)
    (hheaders : ∀ header ∈ headers, IsHeader header) (hok : (procReq .create line).2 = true)
    (hcontent : b.content = line ++ Buffer.crlf ++ (joined headers ++ Buffer.crlf ++ rest)) :
    ∃ b', b'.Inv ∧ b'.content = rest ∧
      create.parse b = some (true, ⟨.done, addHeaders (procReq .create line).1 headers⟩, b') := by
  obtain ⟨b₁, hinv₁, hcontent₁, hloop₁⟩ := parseLoop_request b.readableBytes
    (l := ⟨true, true, HTTPContext.create, b⟩) rfl rfl h hline hcontent hok
  have hfuel : b₁.content.length < b.readableBytes := by
    rw [hcontent₁]
    exact length_behind_line hcontent (Nat.lt_succ_of_le (Nat.le_of_eq (Buffer.length_content h)))
  obtain ⟨b₂, hinv₂, hcontent₂, hloop₂⟩ := parseLoop_headers hheaders
    (l := ⟨true, true, ⟨.expHeader, (procReq .create line).1⟩, b₁⟩) rfl rfl hinv₁ hcontent₁ hfuel
  have hloop := hloop₁.trans hloop₂
  refine ⟨b₂, hinv₂, hcontent₂, ?_⟩
  rw [parse, hloop]
  rfl

/-- The beginning of a line and of its end is a line. -/
theorem isLine_of_beginning {line rest p : Bytes} (h : IsLine line) (hp : p <+: line ++ Buffer.crlf ++ rest)
    (hlen : p.length < line.length + 2) : IsLine p := by
  have hcr : IsLine (line ++ [13]) := by
    rintro hsub
    rcases List.infix_concat_iff.mp hsub with hsuffix | hsub
    · have hlast := hsuffix.getLast (by decide)
      simp [Buffer.crlf] at hlast
    · exact h hsub
  have hpre : p <+: line ++ [13] := by
    refine List.prefix_of_prefix_length_le hp ⟨10 :: rest, ?_⟩ (by simpa using Nat.le_of_lt_succ hlen)
    simp [Buffer.crlf]
  exact fun hsub => hcr (hsub.trans hpre.isInfix)

/-- Not all header lines are there yet: those that are, are consumed, and the loop stops
at the beginning of the next line. -/
theorem parseLoop_headers_incomplete {lines : List Bytes} (hlines : ∀ line ∈ lines, IsHeader line) {fuel : Nat} {l : Loop}
    (hstate : l.context.state = .expHeader) (hmore : l.more = true) (h : l.buf.Inv) {rest : Bytes} (hne : rest ≠ [])
    (hcontent : l.buf.content ++ rest = joined lines ++ Buffer.crlf) (hfuel : l.buf.content.length < fuel) :
    ∃ lines' c' b', lines' <:+ lines ∧ b'.Inv ∧ IsLine b'.content ∧
      b'.content ++ rest = joined lines' ++ Buffer.crlf ∧ c'.state = .expHeader ∧
      parseLoop fuel l = some ⟨l.ok, false, c', b'⟩ := by
  have hpos := List.length_pos_iff.mpr hne
  induction lines generalizing l fuel with
  | nil =>
    obtain ⟨fuel, rfl⟩ := Nat.exists_eq_succ_of_ne_zero (Nat.ne_of_gt (Nat.zero_lt_of_lt hfuel))
    have hlen := congrArg List.length hcontent
    have hpre : l.buf.content <+: [] ++ Buffer.crlf ++ [] := ⟨rest, by simpa using hcontent⟩
    have hline : IsLine l.buf.content := by
      refine isLine_of_beginning (by decide) hpre ?_
      simp only [List.length_append, joined_nil, Buffer.crlf, List.length_cons, List.length_nil] at hlen ⊢
      omega
    exact ⟨[], l.context, l.buf, List.suffix_refl _, h, hline, hcontent, hstate,
      parseLoop_incomplete fuel (.inr hstate) hline⟩
  | cons line lines ih =>
    obtain ⟨fuel, rfl⟩ := Nat.exists_eq_succ_of_ne_zero (Nat.ne_of_gt (Nat.zero_lt_of_lt hfuel))
    obtain ⟨hhead, htail⟩ := List.forall_mem_cons.mp hlines
    have hpre : l.buf.content <+: line ++ Buffer.crlf ++ (joined lines ++ Buffer.crlf) :=
      ⟨rest, by simpa using hcontent⟩
    by_cases hlen : l.buf.content.length < line.length + 2
    · have hline := isLine_of_beginning hhead.isLine hpre hlen
      exact ⟨line :: lines, l.context, l.buf, List.suffix_refl _, h, hline, hcontent, hstate,
        parseLoop_incomplete fuel (.inr hstate) hline⟩
    · -- the next line is complete
      obtain ⟨p, hp⟩ : line ++ Buffer.crlf <+: l.buf.content :=
        List.prefix_of_prefix_length_le (List.prefix_append _ _) hpre (by simp [Buffer.crlf]; omega)
      have hrest : p ++ rest = joined lines ++ Buffer.crlf := by
        have heq := hcontent
        rw [← hp, joined_cons, List.append_assoc, List.append_assoc (line ++ Buffer.crlf)] at heq
        exact List.append_cancel_left heq
      obtain ⟨b₁, hinv₁, hcontent₁, hloop⟩ := parseLoop_header fuel hstate hmore h hhead.isLine hp.symm hhead.colon
      obtain ⟨lines', c', b', hsuffix, hinv', hline', hcontent', hstate', hloop'⟩ :=
        ih htail (l := ⟨l.ok, true, ⟨.expHeader, _⟩, b₁⟩) rfl rfl hinv₁ (by rw [hcontent₁]; exact hrest)
          (hcontent₁ ▸ length_behind_line hp.symm hfuel)
      exact ⟨lines', c', b', hsuffix.trans (List.suffix_cons _ _), hinv', hline', hcontent', hstate', hloop.trans hloop'⟩

end HTTPContext
end Chtho.Net
