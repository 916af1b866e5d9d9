import Chtho.Net.Http.RoundTrip

/-! Where one response ends and the next begins.

`readResponse` is a client that knows HTTP only: a status line, header lines up to the empty
line, and as many bytes of body as the header `Content-Length` says. What `appendToBuf`
writes for a connection that stays open is read back by it, whatever is in the body and
whatever follows (`readResponse_text`). The length goes through the array of 32 bytes in
`appendToBuf`; for a body shorter than 10^9 bytes it fits. The status message and the headers
go through the `int` of a `StringPiece`: each has to be shorter than 2^31 bytes. -/
namespace Chtho.Net.HTTPResponse
open Lib HTTPContext

/-! ### The client -/

/-- What the client reads of a response. -/
structure Message where
  status : Nat
  statusMsg : Bytes
  headers : List (Bytes × Bytes)
  body : Bytes
deriving DecidableEq, Repr

/-- A line up to its end, and what is behind it. -/
def readLine (bytes : Bytes) : Option (Bytes × Bytes) :=
  (search Buffer.crlf bytes).map fun n => (bytes.take n, bytes.drop (n + 2))

/-- The status and its message. -/
def readStatusLine (line : Bytes) : Option (Nat × Bytes) :=
  if line.take 9 = ascii "HTTP/1.1 " then
    let rest := line.drop 9
    let space := rest.idxOf (chr ' ')
    if space = rest.length then none
    else (readDecimal (rest.take space)).map fun status => (status, rest.drop (space + 1))
  else none

/-- A name up to the colon, and the value behind the blanks that follow it. -/
def readHeader (line : Bytes) : Option (Bytes × Bytes) :=
  let colon := line.idxOf (chr ':')
  if colon = line.length then none
  else some (line.take colon, (line.drop (colon + 1)).dropWhile (· = chr ' '))

/-- The headers up to the empty line. -/
def readHeaders : Nat → Bytes → Option (List (Bytes × Bytes) × Bytes)
  | 0, _ => none
  | fuel + 1, bytes => do
    let (line, rest) ← readLine bytes
    if line = [] then some ([], rest)
    else
      let header ← readHeader line
      let (headers, rest) ← readHeaders fuel rest
      some (header :: headers, rest)

/-- There has to be one length. -/
def contentLength (headers : List (Bytes × Bytes)) : Option Nat :=
  match headers.filter (·.1 = ascii "Content-Length") with
  | [header] => readDecimal header.2
  | _ => none

def readResponse (bytes : Bytes) : Option (Message × Bytes) := do
  let (line, rest) ← readLine bytes
  let (status, statusMsg) ← readStatusLine line
  let (headers, rest) ← readHeaders (rest.length + 1) rest
  let length ← contentLength headers
  if length ≤ rest.length then some (⟨status, statusMsg, headers, rest.take length⟩, rest.drop length) else none

/-- One response after the other, until nothing is left. -/
def readResponses : Nat → Bytes → Option (List Message)
  | 0, _ => none
  | fuel + 1, bytes =>
    if bytes = [] then some []
    else do
      let (message, rest) ← readResponse bytes
      let messages ← readResponses fuel rest
      some (message :: messages)

/-! ### What is sent -/

/-- The headers of a response on a connection that stays open. -/
def sentHeaders (r : HTTPResponse) : List (Bytes × Bytes) :=
  (ascii "Content-Length", decimal r.body.length) :: (ascii "Connection", ascii "Keep-Alive") :: r.headers.entries

def message (r : HTTPResponse) : Message := ⟨r.status.code, r.statusMsg, r.sentHeaders, r.body⟩

structure PlainHeader (name value : Bytes) : Prop where
  colon : chr ':' ∉ name
  nameEnd : NoLineEnd name
  valueEnd : NoLineEnd value
  first : value.head? ≠ some (chr ' ')

structure Framed (r : HTTPResponse) : Prop where
  keepAlive : r.close = false
  statusMsg : NoLineEnd r.statusMsg
  headers : ∀ header ∈ r.headers.entries, PlainHeader header.1 header.2
  /-- The generated headers are not given a second time. -/
  generated : ∀ header ∈ r.headers.entries, header.1 ≠ ascii "Content-Length" ∧ header.1 ≠ ascii "Connection"
  body : r.body.length < 10 ^ 9

def statusLine (r : HTTPResponse) : Bytes := ascii "HTTP/1.1 " ++ decimal r.status.code ++ chr ' ' :: r.statusMsg

theorem snprintf_eq {text : Bytes} (h : text.length < 32) : snprintf text = text :=
  Lib.snprintf_eq h

/-- The array is large enough for both texts that go through it. -/
theorem snprintf_status (s : HTTPStatus) :
    snprintf (ascii "HTTP/1.1 " ++ decimal s.code ++ ascii " ") = ascii "HTTP/1.1 " ++ decimal s.code ++ ascii " " := by
  cases s <;> decide

theorem snprintf_contentLength {n : Nat} (h : n < 10 ^ 9) :
    snprintf (ascii "Content-Length: " ++ decimal n ++ ascii "\r\n") =
      ascii "Content-Length: " ++ decimal n ++ ascii "\r\n" := by
  have hdigits : (decimalDigits n).length ≤ 9 := (length_decimalDigits_le (by decide)).mpr h
  apply snprintf_eq
  rw [decimal_natCast, List.length_append, List.length_append]
  have hname : (ascii "Content-Length: ").length = 16 := by decide
  have hend : (ascii "\r\n").length = 2 := by decide
  omega

/-- A response by its lines. -/
theorem text_eq {r : HTTPResponse} (h : Framed r) :
    r.text = statusLine r ++ Buffer.crlf ++ (joined (r.sentHeaders.map headerLine) ++ Buffer.crlf ++ r.body) := by
  have hentries (es : List (Bytes × Bytes)) :
      (es.flatMap fun header => [header.1, ascii ": ", header.2, ascii "\r\n"]).flatten = joined (es.map headerLine) := by
    induction es with
    | nil => rfl
    | cons e es ih =>
      rw [List.flatMap_cons, List.flatten_append, ih, List.map_cons, joined_cons]
      simp [headerLine, Buffer.crlf, ascii, chr]
  unfold text pieces
  rw [h.keepAlive, snprintf_status, snprintf_contentLength h.body, List.flatten_append, List.flatten_append, hentries]
  simp [statusLine, sentHeaders, headerLine, joined, Buffer.crlf, ascii, chr]

/-! ### What is read -/

theorem readLine_line {line : Bytes} (h : IsLine line) (rest : Bytes) :
    readLine (line ++ Buffer.crlf ++ rest) = some (line, rest) := by
  have hsearch : search Buffer.crlf (line ++ Buffer.crlf ++ rest) = some line.length := by
    rw [List.append_assoc]
    exact search_pair (by decide) h rest
  rw [readLine, hsearch, Option.map_some, ← List.drop_drop, List.append_assoc, List.take_left, List.drop_left]
  rfl

theorem isLine_statusLine {r : HTTPResponse} (h : Framed r) : IsLine (statusLine r) := by
  apply isLine_of_notMem
  rw [statusLine, decimal_natCast]
  simp only [List.mem_append, List.mem_cons, not_or]
  exact ⟨⟨by decide, notMem_decimalDigits (by decide) _⟩, by decide, h.statusMsg.1⟩

theorem readStatusLine_statusLine (r : HTTPResponse) :
    readStatusLine (statusLine r) = some (r.status.code, r.statusMsg) := by
  have hspace : chr ' ' ∉ decimalDigits r.status.code := notMem_decimalDigits (by decide) _
  obtain ⟨hidx, hne, htake, hdrop⟩ := first_separator hspace r.statusMsg
  have hname : (statusLine r).take 9 = ascii "HTTP/1.1 " := by
    rw [statusLine, List.append_assoc]
    exact List.take_left' rfl
  have hrest : (statusLine r).drop 9 = decimalDigits r.status.code ++ chr ' ' :: r.statusMsg := by
    rw [statusLine, decimal_natCast, List.append_assoc]
    exact List.drop_left' rfl
  rw [readStatusLine, if_pos hname]
  simp only [hrest, hidx, if_neg hne, htake, readDecimal_decimalDigits, Option.map_some, hdrop]

theorem plainHeader_generated (n : Nat) :
    PlainHeader (ascii "Content-Length") (decimal n) ∧ PlainHeader (ascii "Connection") (ascii "Keep-Alive") := by
  rw [decimal_natCast]
  refine ⟨⟨by decide, ⟨by decide, by decide⟩, ⟨?_, ?_⟩, ?_⟩, by decide, ⟨by decide, by decide⟩,
    ⟨by decide, by decide⟩, by decide⟩
  · exact notMem_decimalDigits (by decide) n
  · exact notMem_decimalDigits (by decide) n
  · exact fun hhead => notMem_decimalDigits (by decide) n (List.mem_of_mem_head? hhead)

theorem plainHeader_sentHeaders {r : HTTPResponse} (h : Framed r) :
    ∀ header ∈ r.sentHeaders, PlainHeader header.1 header.2 := by
  obtain ⟨hlength, hconnection⟩ := plainHeader_generated r.body.length
  exact List.forall_mem_cons.mpr ⟨hlength, List.forall_mem_cons.mpr ⟨hconnection, h.headers⟩⟩

theorem isLine_headerLine {name value : Bytes} (h : PlainHeader name value) : IsLine (headerLine (name, value)) := by
  apply isLine_of_notMem
  rw [headerLine]
  simp only [List.mem_append, List.mem_cons, not_or]
  exact ⟨h.nameEnd.1, by decide, by decide, h.valueEnd.1⟩

theorem readHeader_headerLine {name value : Bytes} (h : PlainHeader name value) :
    readHeader (headerLine (name, value)) = some (name, value) := by
  obtain ⟨hidx, hne, htake, hdrop⟩ := first_separator h.colon (chr ' ' :: value)
  have hvalue : value.dropWhile (fun b => decide (b = chr ' ')) = value := by
    cases value with
    | nil => rfl
    | cons b value =>
      have hb : b ≠ chr ' ' := fun heq => h.first (congrArg some heq)
      rw [List.dropWhile_cons, decide_eq_false hb, if_neg Bool.false_ne_true]
  unfold readHeader headerLine
  simp only [hidx, if_neg hne, htake, hdrop]
  rw [List.dropWhile_cons, decide_eq_true rfl, if_pos rfl, hvalue]

theorem readHeaders_joined {headers : List (Bytes × Bytes)} (h : ∀ header ∈ headers, PlainHeader header.1 header.2)
    (rest : Bytes) {fuel : Nat} (hfuel : (joined (headers.map headerLine) ++ Buffer.crlf ++ rest).length < fuel) :
    readHeaders fuel (joined (headers.map headerLine) ++ Buffer.crlf ++ rest) = some (headers, rest) := by
  induction headers generalizing fuel with
  | nil =>
    obtain ⟨fuel, rfl⟩ := Nat.exists_eq_succ_of_ne_zero (Nat.ne_of_gt (Nat.zero_lt_of_lt hfuel))
    have hempty : IsLine [] := by decide
    have hread := readLine_line hempty rest
    rw [List.map_nil, joined_nil, readHeaders, hread]
    rfl
  | cons header headers ih =>
    obtain ⟨fuel, rfl⟩ := Nat.exists_eq_succ_of_ne_zero (Nat.ne_of_gt (Nat.zero_lt_of_lt hfuel))
    obtain ⟨hhead, htail⟩ := List.forall_mem_cons.mp h
    rw [List.map_cons, joined_cons, List.append_assoc (_ ++ Buffer.crlf), List.append_assoc (_ ++ Buffer.crlf)] at hfuel ⊢
    have hread := readLine_line (isLine_headerLine hhead) (joined (headers.map headerLine) ++ Buffer.crlf ++ rest)
    have hne : headerLine header ≠ [] := by simp [headerLine]
    have hrest := ih htail (length_behind_line rfl hfuel)
    rw [readHeaders, hread]
    simp only [Option.bind_eq_bind, Option.bind_some, if_neg hne, readHeader_headerLine hhead, hrest]

theorem contentLength_sentHeaders {r : HTTPResponse} (h : Framed r) : contentLength r.sentHeaders = some r.body.length := by
  have hnone : r.headers.entries.filter (fun header => decide (header.1 = ascii "Content-Length")) = [] := by
    rw [List.filter_eq_nil_iff]
    intro header hmem
    simpa using (h.generated header hmem).1
  have hconnection : ascii "Connection" ≠ ascii "Content-Length" := by decide
  have hfilter : r.sentHeaders.filter (fun header => decide (header.1 = ascii "Content-Length")) =
      [(ascii "Content-Length", decimal r.body.length)] := by
    rw [sentHeaders, List.filter_cons_of_pos (by simp), List.filter_cons_of_neg (by simpa using hconnection), hnone]
  rw [contentLength, hfilter, decimal_natCast]
  exact readDecimal_decimalDigits _

/-- A response is read back, and what is behind it is left. -/
theorem readResponse_text {r : HTTPResponse} (h : Framed r) (rest : Bytes) :
    readResponse (r.text ++ rest) = some (r.message, rest) := by
  have hline := readLine_line (isLine_statusLine h)
    (joined (r.sentHeaders.map headerLine) ++ Buffer.crlf ++ (r.body ++ rest))
  have htext : r.text ++ rest = statusLine r ++ Buffer.crlf ++
      (joined (r.sentHeaders.map headerLine) ++ Buffer.crlf ++ (r.body ++ rest)) := by
    rw [text_eq h, List.append_assoc, List.append_assoc, List.append_assoc, List.append_assoc, List.append_assoc]
  have hheaders := readHeaders_joined (plainHeader_sentHeaders h) (r.body ++ rest) (Nat.lt_succ_self _)
  have hle : r.body.length ≤ (r.body ++ rest).length := by
    rw [List.length_append]
    exact Nat.le_add_right _ _
  rw [htext, readResponse, hline]
  simp only [Option.bind_eq_bind, Option.bind_some, readStatusLine_statusLine, hheaders, contentLength_sentHeaders h,
    if_pos hle, List.take_left, List.drop_left]
  rfl

theorem text_ne_nil {r : HTTPResponse} (h : Framed r) : r.text ≠ [] := by
  rw [text_eq h]
  simp [Buffer.crlf]

theorem readResponses_texts {rs : List HTTPResponse} (hrs : ∀ r ∈ rs, Framed r) {fuel : Nat}
    (hfuel : (rs.flatMap text).length < fuel) :
    readResponses fuel (rs.flatMap text) = some (rs.map message) := by
  induction rs generalizing fuel with
  | nil =>
    obtain ⟨fuel, rfl⟩ := Nat.exists_eq_succ_of_ne_zero (Nat.ne_of_gt (Nat.zero_lt_of_lt hfuel))
    rfl
  | cons r rs ih =>
    obtain ⟨fuel, rfl⟩ := Nat.exists_eq_succ_of_ne_zero (Nat.ne_of_gt (Nat.zero_lt_of_lt hfuel))
    obtain ⟨hhead, htail⟩ := List.forall_mem_cons.mp hrs
    have hpos := List.length_pos_iff.mpr (text_ne_nil hhead)
    have hne : r.text ++ rs.flatMap text ≠ [] := List.append_ne_nil_of_left_ne_nil (text_ne_nil hhead) _
    rw [List.flatMap_cons, List.length_append] at hfuel
    rw [List.flatMap_cons, readResponses, if_neg hne, readResponse_text hhead]
    have hrest : readResponses fuel (rs.flatMap text) = _ := ih htail (by omega)
    simp [hrest]

theorem appendToBufs_spec {b : Buffer} (hinv : b.Inv) {rs : List HTTPResponse} (hshort : ∀ r ∈ rs, r.Short) :
    ∃ b', rs.foldlM (fun b r => r.appendToBuf b) b = some b' ∧ b'.Inv ∧ b'.content = b.content ++ rs.flatMap text := by
  induction rs generalizing b with
  | nil => exact ⟨b, rfl, hinv, (List.append_nil _).symm⟩
  | cons r rs ih =>
    obtain ⟨hr, hrs⟩ := List.forall_mem_cons.mp hshort
    obtain ⟨b₁, h₁, hinv₁, hcontent₁⟩ := appendToBuf_spec hinv hr.written_eq
    obtain ⟨b', hrest, hinv', hcontent'⟩ := ih hinv₁ hrs
    refine ⟨b', ?_, hinv', ?_⟩
    · simp [h₁, hrest]
    · rw [hcontent', hcontent₁, List.append_assoc, List.flatMap_cons]

/-- **Responses are self-delimiting.** Whatever responses are appended to a buffer for a
connection that stays open, a client reads back all of them, and nothing else, if their parts
are short. -/
theorem readResponses_appendToBuf {rs : List HTTPResponse} (hrs : ∀ r ∈ rs, Framed r) (hshort : ∀ r ∈ rs, r.Short)
    {b : Buffer} (hinv : b.Inv) (hempty : b.content = []) :
    ∃ b', rs.foldlM (fun b r => r.appendToBuf b) b = some b' ∧ b'.content = rs.flatMap text ∧
      readResponses (b'.content.length + 1) b'.content = some (rs.map message) := by
  obtain ⟨b', happend, _, hcontent⟩ := appendToBufs_spec hinv hshort
  rw [hempty, List.nil_append] at hcontent
  refine ⟨b', happend, hcontent, ?_⟩
  rw [hcontent]
  exact readResponses_texts hrs (Nat.lt_succ_self _)

/-- A response without a body, and one with an empty line in its body. -/
def noContent : HTTPResponse := ⟨.ok200, false, [], .empty, []⟩

def withBody : HTTPResponse :=
  ⟨.ok200, false, ascii "OK", OrdMap.empty.insert (ascii "Server") (ascii "chtho"), ascii "a\r\n\r\nHTTP/1.1 "⟩

theorem framed_noContent : Framed noContent := by
  refine ⟨rfl, ⟨by decide, by decide⟩, ?_, ?_, by decide⟩
  all_goals
    intro header hmem
    cases hmem

theorem framed_withBody : Framed withBody := by
  have hentries : withBody.headers.entries = [(ascii "Server", ascii "chtho")] := rfl
  refine ⟨rfl, ⟨by decide, by decide⟩, ?_, ?_, by decide⟩
  all_goals rw [hentries, List.forall_mem_singleton]
  · exact ⟨by decide, ⟨by decide, by decide⟩, ⟨by decide, by decide⟩, by decide⟩
  · exact ⟨by decide, by decide⟩

theorem short_noContent : noContent.Short := ⟨by decide, fun header hmem => (by cases hmem), by decide⟩

theorem short_withBody : withBody.Short := by
  have hentries : withBody.headers.entries = [(ascii "Server", ascii "chtho")] := rfl
  refine ⟨by decide, ?_, by decide⟩
  rw [hentries, List.forall_mem_singleton]
  exact ⟨by decide, by decide⟩

theorem readResponses_appendToBuf_two :
    ∃ b b', [withBody, noContent].foldlM (fun b r => r.appendToBuf b) b = some b' ∧
      readResponses (b'.content.length + 1) b'.content = some [withBody.message, noContent.message] := by
  obtain ⟨b, hinv, hempty⟩ := Buffer.exists_content []
  have hframed : ∀ r ∈ [withBody, noContent], Framed r :=
    List.forall_mem_cons.mpr ⟨framed_withBody, List.forall_mem_singleton.mpr framed_noContent⟩
  have hshort : ∀ r ∈ [withBody, noContent], r.Short :=
    List.forall_mem_cons.mpr ⟨short_withBody, List.forall_mem_singleton.mpr short_noContent⟩
  obtain ⟨b', happend, _, hread⟩ := readResponses_appendToBuf hframed hshort hinv hempty
  exact ⟨b, b', happend, hread⟩

/-- A status message of 2^31 bytes. -/
def longMsg : HTTPResponse := ⟨.ok200, false, List.replicate (2 ^ 31) (chr 'A'), .empty, []⟩

/-- As an `int` its length is negative, and nothing is written. -/
theorem written_longMsg : longMsg.written = none := by
  have hlength : longMsg.statusMsg.length = 2 ^ 31 := List.length_replicate
  have hnone : (StringPiece.ofString longMsg.statusMsg).bytes = none :=
    StringPiece.bytes_ofString_eq_none (Nat.le_of_eq hlength.symm) (by rw [hlength]; decide)
  cases hwritten : longMsg.written with
  | none => rfl
  | some text =>
    obtain ⟨_, _, _, hrest, _⟩ := StringPiece.concat_cons_eq_some.mp hwritten
    obtain ⟨data, _, hdata, _⟩ := StringPiece.concat_cons_eq_some.mp hrest
    rw [hnone] at hdata
    cases hdata

/-- Of a response like any other, but for its length, a client reads nothing. -/
theorem readResponses_longMsg :
    Framed longMsg ∧ ∃ b : Buffer, b.Inv ∧ b.content = [] ∧
      ¬ ∃ b', [longMsg].foldlM (fun b r => r.appendToBuf b) b = some b' ∧
        readResponses (b'.content.length + 1) b'.content = some [longMsg.message] := by
  obtain ⟨b, hinv, hempty⟩ := Buffer.exists_content []
  refine ⟨⟨rfl, ⟨?_, ?_⟩, ?_, ?_, by decide⟩, b, hinv, hempty, ?_⟩
  · intro hmem
    exact absurd (List.eq_of_mem_replicate hmem) (by decide)
  · intro hmem
    exact absurd (List.eq_of_mem_replicate hmem) (by decide)
  · intro header hmem
    cases hmem
  · intro header hmem
    cases hmem
  · rintro ⟨b', happend, _⟩
    rw [List.foldlM_cons, appendToBuf_eq_none b written_longMsg] at happend
    cases happend

end Chtho.Net.HTTPResponse
