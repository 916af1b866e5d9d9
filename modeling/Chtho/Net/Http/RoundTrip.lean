import Chtho.Net.Http.Context

/-! A request that is rendered and parsed is the same request.

A text is taken apart at separators: the line end, the blanks of the request line, the
question mark, the colon. `first_separator` says where one is found, if what is before it
has none; the conditions on the parts of a request (`Renderable`) are what is needed for this.
Behind the empty line nothing is read. -/
namespace Chtho.Net.HTTPContext
open Lib HTTPRequest

def methodName : Method → Bytes
  | .invalid => []
  | .get => ascii "GET"
  | .post => ascii "POST"
  | .head => ascii "HEAD"
  | .put => ascii "PUT"
  | .delete => ascii "DELETE"

def versionName : Version → Bytes
  | .unknown => []
  | .http10 => ascii "HTTP/1.0"
  | .http11 => ascii "HTTP/1.1"

def requestLine (q : HTTPRequest) : Bytes :=
  methodName q.method ++ chr ' ' :: ((q.path ++ q.query) ++ chr ' ' :: versionName q.version)

def headerLine (header : Bytes × Bytes) : Bytes := header.1 ++ chr ':' :: (chr ' ' :: header.2)

/-- The request as a client sends it. -/
def render (q : HTTPRequest) : Bytes :=
  requestLine q ++ Buffer.crlf ++ (joined (q.headers.entries.map headerLine) ++ Buffer.crlf)

/-- The bytes that end a line. -/
def NoLineEnd (text : Bytes) : Prop := 13 ∉ text ∧ 10 ∉ text

structure RenderableHeader (name value : Bytes) : Prop where
  colon : chr ':' ∉ name
  nameEnd : NoLineEnd name
  valueEnd : NoLineEnd value
  /-- The value neither starts nor ends with a blank. -/
  first : ∀ c ∈ value.head?, isspace c = false
  last : ∀ c ∈ value.getLast?, isspace c = false

structure Renderable (q : HTTPRequest) : Prop where
  method : q.method ≠ .invalid
  version : q.version ≠ .unknown
  pathEnd : NoLineEnd q.path
  path : chr ' ' ∉ q.path ∧ chr '?' ∉ q.path
  queryEnd : NoLineEnd q.query
  query : chr ' ' ∉ q.query
  /-- The query is empty or starts with its question mark. -/
  question : ∀ c ∈ q.query.head?, c = chr '?'
  headers : ∀ header ∈ q.headers.entries, RenderableHeader header.1 header.2

/-! ### Lines -/

/-- Without a carriage return there is no line end. -/
theorem isLine_of_notMem {line : Bytes} (h : 13 ∉ line) : IsLine line :=
  fun hcrlf => h (hcrlf.subset List.mem_cons_self)

/-! ### The request line -/

theorem methodOf_methodName {m : Method} (h : m ≠ .invalid) : methodOf (methodName m) = m := by
  cases m with
  | invalid => exact absurd rfl h
  | get | post | head | put | delete => decide

theorem methodName_plain (m : Method) : chr ' ' ∉ methodName m ∧ 13 ∉ methodName m := by
  cases m <;> decide

theorem versionName_plain (v : Version) : 13 ∉ versionName v := by
  cases v <;> decide

theorem procVersion_versionName (q : HTTPRequest) {v : Version} (h : v ≠ .unknown) :
    procVersion q (versionName v) = ({q with version := v}, true) := by
  cases v with
  | unknown => exact absurd rfl h
  | http10 | http11 => rfl

/-- The target is divided at its question mark. -/
theorem procTarget_append (q : HTTPRequest) {path query : Bytes} (hpath : chr '?' ∉ path)
    (hquestion : ∀ c ∈ query.head?, c = chr '?') (hempty : q.query = []) :
    procTarget q (path ++ query) = {q with path := path, query := query} := by
  unfold procTarget
  cases query with
  | nil =>
    rw [List.append_nil, if_neg (not_not_intro (List.idxOf_eq_length_iff.mpr hpath)), ← hempty]
  | cons c query =>
    obtain rfl := hquestion c rfl
    obtain ⟨hidx, hne, htake, _⟩ := first_separator hpath query
    simp only [hidx, if_pos hne, htake, List.drop_left]

theorem procReq_requestLine {q : HTTPRequest} (h : Renderable q) :
    procReq .create (requestLine q) = ({q with headers := .empty}, true) := by
  have htarget : chr ' ' ∉ q.path ++ q.query := by
    rw [List.mem_append, not_or]
    exact ⟨h.path.1, h.query⟩
  obtain ⟨hidx, hne, htake, hdrop⟩ := first_separator (methodName_plain q.method).1
    ((q.path ++ q.query) ++ chr ' ' :: versionName q.version)
  obtain ⟨hidx', hne', htake', hdrop'⟩ := first_separator htarget (versionName q.version)
  have hmethod : HTTPRequest.create.setMethod (methodName q.method) =
      ({HTTPRequest.create with method := q.method}, true) := by
    rw [setMethod, methodOf_methodName h.method, decide_eq_true h.method]
  unfold procReq requestLine
  simp only [hidx, if_neg hne, htake, hmethod, Bool.not_true, Bool.false_eq_true, if_false, hdrop, hidx', if_neg hne',
    htake', hdrop']
  rw [procTarget_append _ h.path.2 h.question rfl, procVersion_versionName _ h.version]
  rfl

theorem isLine_requestLine {q : HTTPRequest} (h : Renderable q) : IsLine (requestLine q) := by
  apply isLine_of_notMem
  unfold requestLine
  simp only [List.mem_append, List.mem_cons, not_or]
  exact ⟨(methodName_plain q.method).2, by decide, ⟨h.pathEnd.1, h.queryEnd.1⟩, by decide, versionName_plain q.version⟩

/-! ### The header lines -/

/-- The blank behind the colon goes, and the value has none to lose. -/
theorem headerValue_blank {name value : Bytes} (h : RenderableHeader name value) :
    headerValue (chr ' ' :: value) = value := by
  have hfirst : value.dropWhile isspace = value := by
    cases value with
    | nil => rfl
    | cons c value => rw [List.dropWhile_cons, h.first c rfl, if_neg Bool.false_ne_true]
  have hlast : value.rdropWhile isspace = value := by
    rw [List.rdropWhile_eq_self_iff]
    intro hne
    rw [h.last _ (List.getLast?_eq_getLast_of_ne_nil hne)]
    exact Bool.false_ne_true
  have hblank : isspace (chr ' ') = true := by decide
  rw [headerValue, List.dropWhile_cons, if_pos hblank, hfirst, hlast]

theorem addHeader_headerLine (q : HTTPRequest) {name value : Bytes} (h : RenderableHeader name value) :
    q.addHeader (headerLine (name, value)) ((headerLine (name, value)).idxOf (chr ':')) =
      {q with headers := q.headers.insert name value} := by
  obtain ⟨hidx, _, htake, hdrop⟩ := first_separator h.colon (chr ' ' :: value)
  unfold addHeader headerLine
  rw [hidx, htake, hdrop, headerValue_blank h]

theorem isHeader_headerLine {name value : Bytes} (h : RenderableHeader name value) :
    IsHeader (headerLine (name, value)) where
  isLine := by
    apply isLine_of_notMem
    unfold headerLine
    simp only [List.mem_append, List.mem_cons, not_or]
    exact ⟨h.nameEnd.1, by decide, by decide, h.valueEnd.1⟩
  colon := by simp [headerLine]

theorem addHeaders_map (es : List (Bytes × Bytes)) (h : ∀ header ∈ es, RenderableHeader header.1 header.2)
    (q : HTTPRequest) :
    addHeaders q (es.map headerLine) = {q with headers := es.foldl (fun m e => m.insert e.1 e.2) q.headers} := by
  induction es generalizing q with
  | nil => rfl
  | cons e es ih =>
    obtain ⟨hhead, htail⟩ := List.forall_mem_cons.mp h
    have hadd := addHeader_headerLine q hhead
    have hrest := ih htail {q with headers := q.headers.insert e.1 e.2}
    rw [addHeaders] at hrest ⊢
    rw [List.map_cons, List.foldl_cons, hadd]
    exact hrest

/-- **A request survives rendering and parsing**, and what is behind it in the buffer stays
there. -/
theorem parse_render {q : HTTPRequest} (h : Renderable q) {b : Buffer} (hb : b.Inv) {rest : Bytes}
    (hcontent : b.content = render q ++ rest) :
    ∃ b', create.parse b = some (true, ⟨.done, q⟩, b') ∧ b'.Inv ∧ b'.content = rest := by
  have hheaders : ∀ line ∈ q.headers.entries.map headerLine, IsHeader line := by
    intro line hmem
    obtain ⟨header, hheader, rfl⟩ := List.mem_map.mp hmem
    exact isHeader_headerLine (h.headers header hheader)
  have hreq := procReq_requestLine h
  rw [render, List.append_assoc (requestLine q ++ Buffer.crlf)] at hcontent
  obtain ⟨b', hinv, hrest, hparse⟩ := parse_whole hb (isLine_requestLine h) hheaders (by rw [hreq]) hcontent
  refine ⟨b', ?_, hinv, hrest⟩
  have hmap : addHeaders {q with headers := .empty} (q.headers.entries.map headerLine) = q := by
    rw [addHeaders_map _ h.headers, OrdMap.foldl_insert_entries]
  rw [hparse, hreq, hmap]

/-- A request with an empty header value and one with colons in it. -/
def searchRequest : HTTPRequest where
  method := .get
  version := .http11
  path := ascii "/search"
  query := ascii "?q=a?b"
  headers := (OrdMap.empty.insert (ascii "Host") (ascii "h:8080")).insert (ascii "Accept") []

theorem renderable_searchRequest : Renderable searchRequest where
  method := by decide
  version := by decide
  pathEnd := ⟨by decide, by decide⟩
  path := by decide
  queryEnd := ⟨by decide, by decide⟩
  query := by decide
  question := by
    rintro c ⟨⟩
    decide
  headers := by
    have hentries : searchRequest.headers.entries = [(ascii "Accept", []), (ascii "Host", ascii "h:8080")] := by decide
    rw [hentries, List.forall_mem_cons, List.forall_mem_singleton]
    constructor
    · refine ⟨by decide, ⟨by decide, by decide⟩, ⟨by decide, by decide⟩, ?_, ?_⟩
      all_goals rintro c ⟨⟩
    · refine ⟨by decide, ⟨by decide, by decide⟩, ⟨by decide, by decide⟩, ?_, ?_⟩
      all_goals
        rintro c ⟨⟩
        decide

/-- What is behind the request starts like a line end. -/
theorem parse_render_searchRequest :
    ∃ b b', b.content = render searchRequest ++ [10, 71] ∧ create.parse b = some (true, ⟨.done, searchRequest⟩, b') ∧
      b'.content = [10, 71] := by
  obtain ⟨b, hinv, hcontent⟩ := Buffer.exists_content (render searchRequest ++ [10, 71])
  obtain ⟨b', hparse, _, hrest⟩ := parse_render renderable_searchRequest hinv hcontent
  exact ⟨b, b', hcontent, hparse, hrest⟩

end Chtho.Net.HTTPContext
