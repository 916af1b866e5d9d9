import Chtho.Net.Http.Context

/-! What `parse` does with the bytes of a buffer, and in how many calls.

`Parses` says it over the bytes alone, line by line: a complete line is taken or ends the
parsing, bytes without a line end stay. It is all there is to `parse` (`Parses.parse`,
`exists_parses`). Bytes that come later do not change what was decided
(`Parses.append_stopped`), and a parse that is not finished goes on where it stopped
(`Parses.append`); so it makes no difference in which chunks the bytes come.

A request ends behind the first line without a colon. That is the empty line, unless a
line before it has no colon either. -/
namespace Chtho.Net
open Lib

namespace HTTPContext

/-- `parse` of the bytes in a buffer: what it returns, the context, and the bytes left. -/
inductive Parses : HTTPContext → Bytes → Bool → HTTPContext → Bytes → Prop where
  | incomplete {c : HTTPContext} {content : Bytes} (hstate : c.state = .expReq ∨ c.state = .expHeader)
      (hline : IsLine content) : Parses c content true c content
  | reject {c : HTTPContext} {line rest : Bytes} (hstate : c.state = .expReq) (hline : IsLine line)
      (hok : (procReq c.request line).2 = false) :
      Parses c (line ++ Buffer.crlf ++ rest) false ⟨.expReq, (procReq c.request line).1⟩ (line ++ Buffer.crlf ++ rest)
  | request {c c' : HTTPContext} {line rest rest' : Bytes} {ok : Bool} (hstate : c.state = .expReq)
      (hline : IsLine line) (hok : (procReq c.request line).2 = true)
      (hnext : Parses ⟨.expHeader, (procReq c.request line).1⟩ rest ok c' rest') :
      Parses c (line ++ Buffer.crlf ++ rest) ok c' rest'
  | header {c c' : HTTPContext} {line rest rest' : Bytes} {ok : Bool} (hstate : c.state = .expHeader)
      (hline : IsLine line) (hcolon : chr ':' ∈ line)
      (hnext : Parses ⟨.expHeader, c.request.addHeader line (line.idxOf (chr ':'))⟩ rest ok c' rest') :
      Parses c (line ++ Buffer.crlf ++ rest) ok c' rest'
  | finish {c : HTTPContext} {line rest : Bytes} (hstate : c.state = .expHeader) (hline : IsLine line)
      (hcolon : chr ':' ∉ line) : Parses c (line ++ Buffer.crlf ++ rest) true ⟨.done, c.request⟩ rest

variable {c c' : HTTPContext} {content rest : Bytes} {ok : Bool}

/-! ### The loop and its bytes -/

theorem Parses.parseLoop (h : Parses c content ok c' rest) {b : Buffer} (hinv : b.Inv) (hcontent : b.content = content)
    {fuel : Nat} (hfuel : content.length < fuel) :
    ∃ b', b'.Inv ∧ b'.content = rest ∧ HTTPContext.parseLoop fuel ⟨true, true, c, b⟩ = some ⟨ok, false, c', b'⟩ := by
  obtain ⟨fuel, rfl⟩ := Nat.exists_eq_succ_of_ne_zero (Nat.ne_of_gt (Nat.zero_lt_of_lt hfuel))
  induction h generalizing b fuel with
  | incomplete hstate hline => exact ⟨b, hinv, hcontent, parseLoop_incomplete fuel hstate (hcontent ▸ hline)⟩
  | reject hstate hline hok =>
    exact ⟨b, hinv, hcontent, parseLoop_reject fuel (l := ⟨true, true, _, b⟩) hstate hinv hline hcontent hok⟩
  | request hstate hline hok hnext ih =>
    obtain ⟨b₁, hinv₁, hcontent₁, hloop⟩ :=
      parseLoop_request fuel (l := ⟨true, true, _, b⟩) hstate rfl hinv hline hcontent hok
    have hless := length_behind_line rfl hfuel
    obtain ⟨fuel, rfl⟩ := Nat.exists_eq_succ_of_ne_zero (Nat.ne_of_gt (Nat.zero_lt_of_lt hless))
    obtain ⟨b', hinv', hcontent', hloop'⟩ := ih hinv₁ hcontent₁ fuel hless
    exact ⟨b', hinv', hcontent', hloop.trans hloop'⟩
  | header hstate hline hcolon hnext ih =>
    obtain ⟨b₁, hinv₁, hcontent₁, hloop⟩ :=
      parseLoop_header fuel (l := ⟨true, true, _, b⟩) hstate rfl hinv hline hcontent hcolon
    have hless := length_behind_line rfl hfuel
    obtain ⟨fuel, rfl⟩ := Nat.exists_eq_succ_of_ne_zero (Nat.ne_of_gt (Nat.zero_lt_of_lt hless))
    obtain ⟨b', hinv', hcontent', hloop'⟩ := ih hinv₁ hcontent₁ fuel hless
    exact ⟨b', hinv', hcontent', hloop.trans hloop'⟩
  | finish hstate hline hcolon =>
    exact parseLoop_end fuel (l := ⟨true, true, _, b⟩) hstate hinv hline hcontent hcolon

/-- `parse` does what its bytes say. -/
theorem Parses.parse (h : Parses c content ok c' rest) {b : Buffer} (hinv : b.Inv) (hcontent : b.content = content) :
    ∃ b', c.parse b = some (ok, c', b') ∧ b'.Inv ∧ b'.content = rest := by
  have hfuel : content.length < b.readableBytes + 1 := by
    rw [← hcontent, Buffer.length_content hinv]
    exact Nat.lt_succ_self _
  obtain ⟨b', hinv', hcontent', hloop⟩ := h.parseLoop hinv hcontent hfuel
  refine ⟨b', ?_, hinv', hcontent'⟩
  rw [HTTPContext.parse, hloop]
  rfl

/-- A content with a line end in it starts with a complete line. -/
theorem exists_line (h : ¬ IsLine content) :
    ∃ line rest, IsLine line ∧ content = line ++ Buffer.crlf ++ rest := by
  obtain ⟨line, rest, hcontent, hline⟩ := exists_first_occurrence (by decide) (Decidable.not_not.mp h)
  exact ⟨line, rest, hline, hcontent⟩

theorem exists_parses (hstate : c.state = .expReq ∨ c.state = .expHeader) (content : Bytes) :
    ∃ ok c' rest, Parses c content ok c' rest := by
  induction hlen : content.length using Nat.strong_induction_on generalizing c content with
  | _ n ih =>
    by_cases hall : IsLine content
    · exact ⟨true, c, content, .incomplete hstate hall⟩
    · obtain ⟨line, rest, hline, rfl⟩ := exists_line hall
      have hless : rest.length < n := by
        simp only [List.length_append, Buffer.crlf, List.length_cons, List.length_nil] at hlen
        omega
      have hnext (request : HTTPRequest) := ih rest.length hless (c := ⟨.expHeader, request⟩) (.inr rfl) rest rfl
      rcases hstate with hstate | hstate
      · cases hok : (procReq c.request line).2 with
        | false => exact ⟨_, _, _, .reject hstate hline hok⟩
        | true =>
          obtain ⟨ok, c', rest', hparses⟩ := hnext (procReq c.request line).1
          exact ⟨ok, c', rest', .request hstate hline hok hparses⟩
      · by_cases hcolon : chr ':' ∈ line
        · obtain ⟨ok, c', rest', hparses⟩ := hnext (c.request.addHeader line (line.idxOf (chr ':')))
          exact ⟨ok, c', rest', .header hstate hline hcolon hparses⟩
        · exact ⟨_, _, _, .finish hstate hline hcolon⟩

/-! ### Bytes that come later -/

/-- A rejected or finished request does not look at them. -/
theorem Parses.append_stopped (h : Parses c content ok c' rest) (hstop : ok = false ∨ c'.done = true) (more : Bytes) :
    Parses c (content ++ more) ok c' (rest ++ more) := by
  induction h with
  | incomplete hstate hline =>
    rcases hstate with hstate | hstate
    all_goals simp [done, hstate] at hstop
  | reject hstate hline hok =>
    rw [List.append_assoc]
    exact .reject hstate hline hok
  | request hstate hline hok hnext ih =>
    rw [List.append_assoc]
    exact .request hstate hline hok (ih hstop)
  | header hstate hline hcolon hnext ih =>
    rw [List.append_assoc]
    exact .header hstate hline hcolon (ih hstop)
  | finish hstate hline hcolon =>
    rw [List.append_assoc]
    exact .finish hstate hline hcolon

/-- An unfinished request goes on with what was left and what comes. -/
theorem Parses.append (h : Parses c content ok c' rest) (hok : ok = true) (hdone : c'.done = false) {more : Bytes}
    {ok' : Bool} {c'' : HTTPContext} {rest' : Bytes} (h' : Parses c' (rest ++ more) ok' c'' rest') :
    Parses c (content ++ more) ok' c'' rest' := by
  induction h with
  | incomplete hstate hline => exact h'
  | reject hstate hline hrejected => exact absurd hok Bool.false_ne_true
  | request hstate hline haccepted hnext ih =>
    rw [List.append_assoc]
    exact .request hstate hline haccepted (ih hok hdone h')
  | header hstate hline hcolon hnext ih =>
    rw [List.append_assoc]
    exact .header hstate hline hcolon (ih hok hdone h')
  | finish hstate hline hcolon => simp [done] at hdone

/-- What an unfinished request leaves is the beginning of a line. -/
theorem Parses.unfinished (h : Parses c content ok c' rest) (hok : ok = true) (hdone : c'.done = false) :
    (c'.state = .expReq ∨ c'.state = .expHeader) ∧ IsLine rest := by
  induction h with
  | incomplete hstate hline => exact ⟨hstate, hline⟩
  | reject hstate hline hrejected => exact absurd hok Bool.false_ne_true
  | request hstate hline haccepted hnext ih => exact ih hok hdone
  | header hstate hline hcolon hnext ih => exact ih hok hdone
  | finish hstate hline hcolon => simp [done] at hdone

/-- The bytes come in chunks: each is appended and parsed, until a call returns false or
the request is done. The chunks behind that are only appended. -/
def parseChunks (ok : Bool) (c : HTTPContext) (b : Buffer) : List Bytes → Option (Bool × HTTPContext × Buffer)
  | [] => some (ok, c, b)
  | chunk :: chunks => do
    let b ← b.append chunk
    let (ok, c, b) ← c.parse b
    if !ok || c.done then
      let b ← chunks.foldlM Buffer.append b
      some (ok, c, b)
    else parseChunks ok c b chunks

theorem append_chunks_spec {b : Buffer} (hinv : b.Inv) (chunks : List Bytes) :
    ∃ b', chunks.foldlM Buffer.append b = some b' ∧ b'.Inv ∧ b'.content = b.content ++ chunks.flatten := by
  induction chunks generalizing b with
  | nil => exact ⟨b, rfl, hinv, by simp⟩
  | cons chunk chunks ih =>
    obtain ⟨b₁, h₁, hinv₁, hcontent₁⟩ := Buffer.append_spec hinv chunk
    obtain ⟨b₂, h₂, hinv₂, hcontent₂⟩ := ih hinv₁
    exact ⟨b₂, by simp [h₁, h₂], hinv₂, by simp [hcontent₂, hcontent₁]⟩

theorem parseChunks_spec (hstate : c.state = .expReq ∨ c.state = .expHeader) {b : Buffer} (hinv : b.Inv)
    (hline : IsLine b.content) (chunks : List Bytes) :
    ∃ ok c' b', parseChunks true c b chunks = some (ok, c', b') ∧
      Parses c (b.content ++ chunks.flatten) ok c' b'.content := by
  induction chunks generalizing c b with
  | nil => exact ⟨true, c, b, rfl, by simpa using Parses.incomplete hstate hline⟩
  | cons chunk chunks ih =>
    obtain ⟨b₁, happend, hinv₁, hcontent₁⟩ := Buffer.append_spec hinv chunk
    obtain ⟨ok₁, c₁, rest₁, hfirst⟩ := exists_parses hstate (b.content ++ chunk)
    obtain ⟨b₂, hparse, hinv₂, hcontent₂⟩ := hfirst.parse hinv₁ hcontent₁
    rw [List.flatten_cons, ← List.append_assoc]
    by_cases hstop : ok₁ = false ∨ c₁.done = true
    · obtain ⟨b₃, hfold, _, hcontent₃⟩ := append_chunks_spec hinv₂ chunks
      refine ⟨ok₁, c₁, b₃, ?_, ?_⟩
      · simp [parseChunks, happend, hparse, hstop, hfold]
      · rw [hcontent₃, hcontent₂]
        exact hfirst.append_stopped hstop _
    · obtain ⟨hok, hdone⟩ := not_or.mp hstop
      rw [Bool.not_eq_false] at hok
      rw [Bool.not_eq_true] at hdone
      obtain ⟨hstate₁, hline₁⟩ := hfirst.unfinished hok hdone
      obtain ⟨ok', c', b', hrest, hparses⟩ := ih hstate₁ hinv₂ (hcontent₂ ▸ hline₁)
      refine ⟨ok', c', b', ?_, hfirst.append hok hdone (hcontent₂ ▸ hparses)⟩
      simp [parseChunks, happend, hparse, hok, hdone, hrest]

/-- **Parsing in chunks is parsing at once.** However the bytes are divided into chunks,
parsing after each ends as one parse of all of them does. -/
theorem parseChunks_eq_parse {b b₁ : Buffer} (hinv : b.Inv) (hempty : b.content = []) (hinv₁ : b₁.Inv)
    {chunks : List Bytes} (hall : b₁.content = chunks.flatten) :
    ∃ ok c b' b₁', parseChunks true create b chunks = some (ok, c, b') ∧
      create.parse b₁ = some (ok, c, b₁') ∧ b'.content = b₁'.content := by
  have hline : IsLine b.content := by
    rw [hempty]
    decide
  obtain ⟨ok, c, b', hchunks, hparses⟩ := parseChunks_spec (c := create) (.inl rfl) hinv hline chunks
  rw [hempty, List.nil_append] at hparses
  obtain ⟨b₁', hparse, _, hcontent⟩ := hparses.parse hinv₁ hall
  exact ⟨ok, c, b', b₁', hchunks, hparse, hcontent.symm⟩

/-- A request cut inside a line end, and one byte of the next. -/
theorem parseChunks_eq_parse_cut :
    ∃ b₁ ok c b' b₁' b, b₁.content = ascii "GET / HTTP/1.1\r\n\r\nG" ∧
      parseChunks true create b [ascii "GET / HTTP/1.1\r", ascii "\n\r\nG"] = some (ok, c, b') ∧
      create.parse b₁ = some (ok, c, b₁') ∧ b'.content = b₁'.content := by
  obtain ⟨b, hinv, hempty⟩ := Buffer.exists_content []
  obtain ⟨b₁, hinv₁, hall⟩ := Buffer.exists_content (ascii "GET / HTTP/1.1\r\n\r\nG")
  have hchunks : b₁.content = [ascii "GET / HTTP/1.1\r", ascii "\n\r\nG"].flatten := hall.trans (by decide)
  obtain ⟨ok, c, b', b₁', hparts, hparse, hcontent⟩ := parseChunks_eq_parse hinv hempty hinv₁ hchunks
  exact ⟨b₁, ok, c, b', b₁', b, hall, hparts, hparse, hcontent⟩

/-! ### Where the header lines end -/

/-- The complete lines, behind what was read of the first. -/
def linesFrom (line : Bytes) : Bytes → List Bytes
  | 13 :: 10 :: rest => line :: linesFrom [] rest
  | c :: rest => linesFrom (line ++ [c]) rest
  | [] => []

def lines (content : Bytes) : List Bytes := linesFrom [] content

/-- The first line without a colon behind the request line. -/
def headerEnd (content : Bytes) : Option Bytes := ((lines content).drop 1).find? fun line => !line.contains (chr ':')

/-- The request is a request line, header lines and the empty line, and `rest` is behind it. -/
def EndsAtEmptyLine (content rest : Bytes) : Prop :=
  ∃ line headers, IsLine line ∧ (procReq .create line).2 = true ∧ (∀ header ∈ headers, IsHeader header) ∧
    content = line ++ Buffer.crlf ++ (joined headers ++ Buffer.crlf ++ rest)

theorem linesFrom_line {line : Bytes} (hline : IsLine line) (first rest : Bytes) :
    linesFrom first (line ++ Buffer.crlf ++ rest) = (first ++ line) :: lines rest := by
  induction line generalizing first with
  | nil => simp [linesFrom, lines, Buffer.crlf]
  | cons x line ih =>
    rw [IsLine, List.infix_cons_iff, not_or] at hline
    have hhead : ∀ tail, x = 13 → line ++ Buffer.crlf ++ rest ≠ 10 :: tail := by
      rintro tail rfl htail
      cases line with
      | nil => simp [Buffer.crlf] at htail
      | cons y line =>
        obtain ⟨rfl, _⟩ := List.cons.inj htail
        exact hline.1 ⟨line, rfl⟩
    rw [List.cons_append, List.cons_append, linesFrom, ih hline.2]
    · simp
    · exact hhead

theorem lines_joined {headers : List Bytes} (hheaders : ∀ header ∈ headers, IsHeader header) (rest : Bytes) :
    lines (joined headers ++ rest) = headers ++ lines rest := by
  induction headers with
  | nil => rfl
  | cons header headers ih =>
    obtain ⟨hhead, htail⟩ := List.forall_mem_cons.mp hheaders
    rw [joined_cons, List.append_assoc, lines, linesFrom_line hhead.isLine, ih htail]
    rfl

/-- Header lines have a colon: the line behind them is the first that has none. -/
theorem headerEnd_eq {line last : Bytes} {headers : List Bytes} (hline : IsLine line)
    (hheaders : ∀ header ∈ headers, IsHeader header) (hlast : IsLine last) (hcolon : chr ':' ∉ last) (rest : Bytes) :
    headerEnd (line ++ Buffer.crlf ++ (joined headers ++ (last ++ Buffer.crlf ++ rest))) = some last := by
  have hnone : headers.find? (fun header => !header.contains (chr ':')) = none := by
    rw [List.find?_eq_none]
    intro header hmem
    simpa using (hheaders header hmem).colon
  rw [headerEnd, lines, linesFrom_line hline, List.drop_one, List.tail_cons, lines_joined hheaders,
    List.find?_append, hnone, lines, linesFrom_line hlast]
  simp [hcolon]

/-- What a finished request consumed. -/
theorem Parses.finished (h : Parses c content ok c' rest) (hdone : c'.done = true) (hstate : c.state = .expHeader) :
    ∃ headers last, (∀ header ∈ headers, IsHeader header) ∧ IsLine last ∧ chr ':' ∉ last ∧
      content = joined headers ++ (last ++ Buffer.crlf ++ rest) := by
  induction h with
  | incomplete hstate' => simp [done, hstate] at hdone
  | reject hstate' | request hstate' => simp [hstate] at hstate'
  | header hstate' hline hcolon hnext ih =>
    obtain ⟨headers, last, hheaders, hlast, hnone, rfl⟩ := ih hdone rfl
    refine ⟨_ :: headers, last, List.forall_mem_cons.mpr ⟨⟨hline, hcolon⟩, hheaders⟩, hlast, hnone, ?_⟩
    rw [joined_cons, List.append_assoc (_ ++ Buffer.crlf)]
  | finish hstate' hline hcolon => exact ⟨[], _, by simp, hline, hcolon, rfl⟩

theorem Parses.finished_create (h : Parses create content ok c' rest) (hdone : c'.done = true) :
    ∃ line headers last, IsLine line ∧ (procReq .create line).2 = true ∧ (∀ header ∈ headers, IsHeader header) ∧
      IsLine last ∧ chr ':' ∉ last ∧
      content = line ++ Buffer.crlf ++ (joined headers ++ (last ++ Buffer.crlf ++ rest)) := by
  cases h with
  | incomplete | reject => simp [done, create] at hdone
  | header hstate | finish hstate => simp [create] at hstate
  | request hstate hline hok hnext =>
    obtain ⟨headers, last, hheaders, hlast, hcolon, rfl⟩ := hnext.finished hdone rfl
    exact ⟨_, headers, last, hline, hok, hheaders, hlast, hcolon, rfl⟩

theorem headerEnd_of_endsAtEmptyLine (h : EndsAtEmptyLine content rest) : headerEnd content = some [] := by
  obtain ⟨line, headers, hline, _, hheaders, rfl⟩ := h
  rw [List.append_assoc (joined headers)]
  have hempty : IsLine [] := by decide
  exact headerEnd_eq hline hheaders hempty List.not_mem_nil rest

/-- **Where a request ends.** A request that is parsed ends at the empty line exactly if no
other line without a colon comes before it. -/
theorem ends_at_empty_line_iff {b b' : Buffer} (hinv : b.Inv) (hparse : create.parse b = some (ok, c, b'))
    (hdone : c.done = true) : EndsAtEmptyLine b.content b'.content ↔ headerEnd b.content = some [] := by
  obtain ⟨ok₁, c₁, rest, hparses⟩ := exists_parses (c := create) (.inl rfl) b.content
  obtain ⟨b₁, hparse₁, _, rfl⟩ := hparses.parse hinv rfl
  rw [hparse] at hparse₁
  obtain ⟨rfl, rfl, rfl⟩ : ok = ok₁ ∧ c = c₁ ∧ b' = b₁ := by simpa using hparse₁
  refine ⟨headerEnd_of_endsAtEmptyLine, fun hempty => ?_⟩
  obtain ⟨line, headers, last, hline, hok, hheaders, hlast, hcolon, hcontent⟩ := hparses.finished_create hdone
  rw [hcontent, headerEnd_eq hline hheaders hlast hcolon] at hempty
  obtain rfl := Option.some.inj hempty
  exact ⟨line, headers, hline, hok, hheaders, by rw [hcontent, List.append_assoc (joined headers)]; rfl⟩

/-- A line without a colon between the request line and a header. -/
def malformed : Bytes := ascii "GET / HTTP/1.1\r\nfoo\r\nHost: a\r\n\r\n"

theorem ends_at_empty_line_iff_plain :
    ∃ b c b', b.content = ascii "GET / HTTP/1.1\r\nHost: a\r\n\r\n" ∧ create.parse b = some (true, c, b') ∧
      EndsAtEmptyLine b.content b'.content := by
  obtain ⟨b, hinv, hcontent⟩ := Buffer.exists_content (ascii "GET / HTTP/1.1\r\nHost: a\r\n\r\n")
  have hwhole : b.content = ascii "GET / HTTP/1.1" ++ Buffer.crlf ++
      (joined [ascii "Host: a"] ++ Buffer.crlf ++ []) := hcontent.trans (by decide)
  obtain ⟨b', _, _, hparse⟩ := parse_whole hinv (by decide)
    (List.forall_mem_singleton.mpr ⟨by decide, by decide⟩) (by decide) hwhole
  exact ⟨b, _, b', hcontent, hparse, (ends_at_empty_line_iff hinv hparse rfl).mpr (by rw [hcontent]; decide)⟩

/-- It ends the request, and the header behind it is left as if it were the next one. -/
theorem malformed_ends_request :
    ∃ b c b', b.content = malformed ∧ create.parse b = some (true, c, b') ∧ c.done = true ∧
      b'.content = ascii "Host: a\r\n\r\n" ∧ ¬ EndsAtEmptyLine b.content b'.content := by
  obtain ⟨b, hinv, hcontent⟩ := Buffer.exists_content malformed
  have hend : malformed = ascii "GET / HTTP/1.1" ++ Buffer.crlf ++
      (ascii "foo" ++ Buffer.crlf ++ ascii "Host: a\r\n\r\n") := by decide
  have hparses : Parses create malformed true ⟨.done, (procReq .create (ascii "GET / HTTP/1.1")).1⟩
      (ascii "Host: a\r\n\r\n") := by
    rw [hend]
    exact .request rfl (by decide) (by decide) (.finish rfl (by decide) (by decide))
  obtain ⟨b', hparse, _, hrest⟩ := hparses.parse hinv hcontent
  refine ⟨b, _, b', hcontent, hparse, rfl, hrest, fun hempty => ?_⟩
  have hnil := headerEnd_of_endsAtEmptyLine hempty
  rw [hcontent] at hnil
  exact absurd hnil (by decide)

end HTTPContext
end Chtho.Net
