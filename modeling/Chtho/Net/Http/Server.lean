import Chtho.Net.Http.Context
import Chtho.Net.TcpConnection

/-! `HTTPServer`: what it makes of the bytes that arrive on one connection.

The connection is seen through `send` and `shutdown`: `sent` is what was passed to
`sendInLoop`, and both act only in the state `connected`. `onMsg` makes a new
`HTTPContext` each time, so what a call has parsed of an incomplete request is lost,
although its lines have been taken off the input buffer. A request therefore survives
being cut into segments only if no segment but the last completes its request line. -/
namespace Chtho.Net
open Lib

/-- A connection as the server uses it, in the loop thread. -/
structure HTTPConn where
  state : TcpConnection.State
  sent : Bytes
deriving DecidableEq, Repr

namespace HTTPConn

def send (c : HTTPConn) (msg : Bytes) : HTTPConn :=
  if c.state = .connected then {c with sent := c.sent ++ msg} else c

def shutdown (c : HTTPConn) : HTTPConn :=
  if c.state = .connected then {c with state := .disconnecting} else c

end HTTPConn

namespace HTTPServer

abbrev HTTPCB := HTTPRequest → HTTPResponse → HTTPResponse

def defaultHTTPCB : HTTPCB := fun _ resp =>
  {resp with status := .notFound404, statusMsg := ascii "Not Found", close := true}

def badRequest : Bytes := ascii "HTTP/1.1 400 Bad Request\r\n\r\n"

/-- Whether a request asks for the connection to be closed. -/
def wantsClose (req : HTTPRequest) : Bool :=
  let c := req.getHeader (ascii "Connection")
  c = ascii "close" || (req.version = .http10 && c ≠ ascii "Keep-Alive")

/-- What the callback makes of a request. -/
def reply (httpCB : HTTPCB) (req : HTTPRequest) : HTTPResponse := httpCB req (.create (wantsClose req))

def onReq (httpCB : HTTPCB) (conn : HTTPConn) (req : HTTPRequest) : Option HTTPConn := do
  let resp := reply httpCB req
  let buf ← Buffer.create Buffer.kInit
  let buf ← resp.appendToBuf buf
  let conn := conn.send buf.content
  some (if resp.close then conn.shutdown else conn)

def onMsg (httpCB : HTTPCB) (conn : HTTPConn) (buf : Buffer) : Option (HTTPConn × Buffer) := do
  let (ok, context, buf) ← HTTPContext.create.parse buf
  let conn := if !ok then (conn.send badRequest).shutdown else conn
  if context.done then
    let conn ← onReq httpCB conn context.request
    some (conn, buf)
  else some (conn, buf)

/-- A segment arrives. -/
def receive (httpCB : HTTPCB) (s : HTTPConn × Buffer) (seg : Bytes) : Option (HTTPConn × Buffer) := do
  let buf ← s.2.append seg
  onMsg httpCB s.1 buf

def serve (httpCB : HTTPCB) (s : HTTPConn × Buffer) (segs : List Bytes) : Option (HTTPConn × Buffer) :=
  segs.foldlM (receive httpCB) s

/-! ### One message, by what the buffer holds -/

open HTTPContext

/-- The connection when a text was sent in answer to a request. -/
def answerWith (httpCB : HTTPCB) (conn : HTTPConn) (req : HTTPRequest) (text : Bytes) : HTTPConn :=
  if (reply httpCB req).close then (conn.send text).shutdown else conn.send text

/-- The connection after the answer to a request. -/
def answer (httpCB : HTTPCB) (conn : HTTPConn) (req : HTTPRequest) : HTTPConn :=
  answerWith httpCB conn req (reply httpCB req).text

/-- A response that cannot be written ends the call. -/
theorem onReq_eq (httpCB : HTTPCB) (conn : HTTPConn) (req : HTTPRequest) :
    onReq httpCB conn req = (reply httpCB req).written.map (answerWith httpCB conn req) := by
  obtain ⟨b, hb, hinv, hnil⟩ := Buffer.create_spec Buffer.kInit
  rw [onReq, hb, Option.bind_eq_bind, Option.bind_some]
  cases hwritten : (reply httpCB req).written with
  | none =>
    rw [HTTPResponse.appendToBuf_eq_none b hwritten]
    rfl
  | some text =>
    obtain ⟨b', hb', _, hcontent⟩ := HTTPResponse.appendToBuf_spec hinv hwritten
    rw [hnil, List.nil_append] at hcontent
    rw [hb', Option.bind_some, hcontent]
    rfl

theorem onReq_short (httpCB : HTTPCB) (conn : HTTPConn) {req : HTTPRequest} (h : (reply httpCB req).Short) :
    onReq httpCB conn req = some (answer httpCB conn req) := by
  rw [onReq_eq, h.written_eq]
  rfl

/-- The connection after a refusal. -/
def refuse (conn : HTTPConn) : HTTPConn := (conn.send badRequest).shutdown

/-- A second refusal says nothing. -/
theorem refuse_refuse (conn : HTTPConn) : refuse (refuse conn) = refuse conn := by
  unfold refuse HTTPConn.send HTTPConn.shutdown
  by_cases hc : conn.state = .connected <;> simp [hc]

variable (httpCB : HTTPCB) (conn : HTTPConn) {b : Buffer}

theorem onMsg_incomplete (h : IsLine b.content) : onMsg httpCB conn b = some (conn, b) := by
  have hloop := parseLoop_incomplete b.readableBytes (l := ⟨true, true, HTTPContext.create, b⟩) (.inl rfl) h
  have hdone : HTTPContext.create.done = false := rfl
  simp [onMsg, parse, hloop, hdone]

theorem onMsg_reject (h : b.Inv) {line rest : Bytes} (hline : IsLine line)
    (hcontent : b.content = line ++ Buffer.crlf ++ rest) (hbad : (procReq .create line).2 = false) :
    onMsg httpCB conn b = some (refuse conn, b) := by
  have hloop := parseLoop_reject b.readableBytes (l := ⟨true, true, HTTPContext.create, b⟩) rfl h hline hcontent hbad
  simp [onMsg, parse, hloop, HTTPContext.done, refuse]

/-! ### Requests -/

/-- The text of a complete request without a body. -/
structure RequestText where
  line : Bytes
  headers : List Bytes
  isLine : IsLine line
  isHeader : ∀ header ∈ headers, IsHeader header

def RequestText.bytes (r : RequestText) : Bytes := r.line ++ Buffer.crlf ++ (joined r.headers ++ Buffer.crlf)

/-- The request that the parser makes of it. -/
def RequestText.request (r : RequestText) : HTTPRequest := addHeaders (procReq .create r.line).1 r.headers

variable (r : RequestText)

/-- A whole request is at the front of the buffer: it is answered, and what is behind it
stays. -/
theorem onMsg_front (h : b.Inv) {rest : Bytes} (hcontent : b.content = r.bytes ++ rest)
    (hok : (procReq .create r.line).2 = true) :
    ∃ b', b'.Inv ∧ b'.content = rest ∧ onMsg httpCB conn b = (onReq httpCB conn r.request).map (·, b') := by
  rw [RequestText.bytes, List.append_assoc (r.line ++ Buffer.crlf)] at hcontent
  obtain ⟨b', hinv, hrest, hparse⟩ := parse_whole h r.isLine r.isHeader hok hcontent
  refine ⟨b', hinv, hrest, ?_⟩
  rw [onMsg, hparse, Option.bind_eq_bind, Option.bind_some]
  simp only [HTTPContext.done, decide_true, if_true, Bool.not_true, Bool.false_eq_true, if_false]
  exact Option.map_eq_bind.symm

/-- The request line is there, but not the whole request: complete lines are consumed,
and nothing is answered. -/
theorem onMsg_begun (h : b.Inv) {rest : Bytes} (hne : rest ≠ []) (hcontent : b.content ++ rest = r.bytes)
    (hlen : r.line.length + 2 ≤ b.content.length) (hok : (procReq .create r.line).2 = true) :
    ∃ headers b', headers <:+ r.headers ∧ b'.Inv ∧ IsLine b'.content ∧
      b'.content ++ rest = joined headers ++ Buffer.crlf ∧ onMsg httpCB conn b = some (conn, b') := by
  obtain ⟨p, hp⟩ : r.line ++ Buffer.crlf <+: b.content :=
    List.prefix_of_prefix_length_le ⟨_, rfl⟩ ⟨rest, hcontent⟩ (by simpa [Buffer.crlf] using hlen)
  have hrest : p ++ rest = joined r.headers ++ Buffer.crlf := by
    rw [← hp, RequestText.bytes, List.append_assoc] at hcontent
    exact List.append_cancel_left hcontent
  obtain ⟨b₁, hinv₁, hcontent₁, hloop₁⟩ := parseLoop_request b.readableBytes
    (l := ⟨true, true, HTTPContext.create, b⟩) rfl rfl h r.isLine hp.symm hok
  have hfuel : b₁.content.length < b.readableBytes := by
    rw [hcontent₁]
    exact length_behind_line hp.symm (Nat.lt_succ_of_le (Nat.le_of_eq (Buffer.length_content h)))
  obtain ⟨headers, c', b', hsuffix, hinv', hline', hcontent', hstate', hloop₂⟩ := parseLoop_headers_incomplete r.isHeader
    (l := ⟨true, true, ⟨.expHeader, (procReq .create r.line).1⟩, b₁⟩) rfl rfl hinv₁ hne (hcontent₁ ▸ hrest) hfuel
  have hloop := hloop₁.trans hloop₂
  refine ⟨headers, b', hsuffix, hinv', hline', hcontent', ?_⟩
  simp [onMsg, parse, hloop, HTTPContext.done, hstate']

/-! ### Header lines are no request lines -/

theorem methodOf_of_colon {m : Bytes} (h : chr ':' ∈ m) : HTTPRequest.methodOf m = .invalid := by
  have hne : ∀ name : Bytes, chr ':' ∉ name → m ≠ name := by
    rintro name hname rfl
    exact hname h
  unfold HTTPRequest.methodOf
  rw [if_neg (hne _ (by decide)), if_neg (hne _ (by decide)), if_neg (hne _ (by decide)), if_neg (hne _ (by decide)),
    if_neg (hne _ (by decide))]

/-- A header whose name has no blank is rejected as a request line: its method, if it
has one, would contain the colon. -/
theorem procReq_header (q : HTTPRequest) {name value : Bytes} (hname : chr ' ' ∉ name) :
    (procReq q (name ++ chr ':' :: value)).2 = false := by
  have hspace : (name ++ chr ':' :: value).idxOf (chr ' ') = name.length + (value.idxOf (chr ' ') + 1) := by
    rw [List.idxOf_append_of_notMem hname, List.idxOf_cons_ne _ (by decide)]
  have hmethod : HTTPRequest.methodOf
      ((name ++ chr ':' :: value).take (name.length + (value.idxOf (chr ' ') + 1))) = .invalid := by
    apply methodOf_of_colon
    rw [List.take_length_add_append]
    simp
  unfold procReq
  simp only [hspace, HTTPRequest.setMethod, hmethod]
  split <;> rfl

theorem split_at {line : Bytes} {x : UInt8} (h : x ∈ line) :
    line = line.take (line.idxOf x) ++ x :: line.drop (line.idxOf x + 1) := by
  have hlt := List.idxOf_lt_length_iff.mpr h
  conv_lhs => rw [← List.take_append_drop (line.idxOf x) line, List.drop_eq_getElem_cons hlt, List.getElem_idxOf]

/-- Header names are tokens: there is no blank in them. -/
def TokenNames (headers : List Bytes) : Prop :=
  ∀ header ∈ headers, chr ' ' ∉ header.take (header.idxOf (chr ':'))

instance (headers : List Bytes) : Decidable (TokenNames headers) := inferInstanceAs (Decidable (∀ _ ∈ headers, _))

/-- What is left of a request behind its request line begins with a line that is
rejected as one. -/
theorem rejected_behind_line {headers : List Bytes} (hheaders : ∀ header ∈ headers, IsHeader header)
    (hnames : TokenNames headers) :
    ∃ line rest, IsLine line ∧ joined headers ++ Buffer.crlf = line ++ Buffer.crlf ++ rest ∧
      (procReq .create line).2 = false := by
  cases headers with
  | nil => exact ⟨[], [], by decide, by simp, rfl⟩
  | cons header headers =>
    obtain ⟨hline, hcolon⟩ := hheaders header List.mem_cons_self
    refine ⟨header, joined headers ++ Buffer.crlf, hline, by simp, ?_⟩
    rw [split_at hcolon]
    exact procReq_header _ (hnames header List.mem_cons_self)

/-! ### Runs of segments -/

theorem receive_eq (h : b.Inv) (seg : Bytes) :
    ∃ b', b'.Inv ∧ b'.content = b.content ++ seg ∧ receive httpCB (conn, b) seg = onMsg httpCB conn b' := by
  obtain ⟨b', hb', hinv, hcontent⟩ := Buffer.append_spec h seg
  exact ⟨b', hinv, hcontent, by simp [receive, hb']⟩

/-- As long as no line is complete, nothing happens. -/
theorem serve_waiting (h : b.Inv) (segs : List Bytes) {line rest : Bytes} (hline : IsLine line)
    (hpre : b.content ++ segs.flatten <+: line ++ Buffer.crlf ++ rest)
    (hlen : (b.content ++ segs.flatten).length < line.length + 2) :
    ∃ b', b'.Inv ∧ b'.content = b.content ++ segs.flatten ∧ serve httpCB (conn, b) segs = some (conn, b') := by
  induction segs generalizing b with
  | nil => exact ⟨b, h, by simp, rfl⟩
  | cons seg segs ih =>
    obtain ⟨b₁, hinv₁, hcontent₁, hreceive⟩ := receive_eq httpCB conn h seg
    have hall : b₁.content ++ segs.flatten = b.content ++ (seg :: segs).flatten := by simp [hcontent₁]
    have hshort : b₁.content.length < line.length + 2 := by
      rw [← hall, List.length_append] at hlen
      omega
    have hpart : IsLine b₁.content :=
      isLine_of_beginning hline ((List.prefix_append _ _).trans (hall ▸ hpre)) hshort
    obtain ⟨b', hinv', hcontent', hserve⟩ := ih hinv₁ (hall ▸ hpre) (hall ▸ hlen)
    refine ⟨b', hinv', hcontent'.trans hall, ?_⟩
    rw [serve, List.foldlM_cons, hreceive, onMsg_incomplete httpCB conn hpart]
    exact hserve

/-- After a refusal, nothing more happens. -/
theorem serve_refused (h : b.Inv) (segs : List Bytes) {line rest : Bytes} (hline : IsLine line)
    (hcontent : b.content = line ++ Buffer.crlf ++ rest) (hbad : (procReq .create line).2 = false) :
    ∃ b', serve httpCB (refuse conn, b) segs = some (refuse conn, b') := by
  induction segs generalizing b rest with
  | nil => exact ⟨b, rfl⟩
  | cons seg segs ih =>
    obtain ⟨b₁, hinv₁, hcontent₁, hreceive⟩ := receive_eq httpCB (refuse conn) h seg
    rw [hcontent, List.append_assoc] at hcontent₁
    obtain ⟨b', hserve⟩ := ih hinv₁ hcontent₁
    refine ⟨b', ?_⟩
    rw [serve, List.foldlM_cons, hreceive, onMsg_reject httpCB _ hinv₁ hline hcontent₁ hbad, refuse_refuse]
    exact hserve

/-- A line that is rejected is refused once it is complete, however it arrives. -/
theorem serve_rejected (h : b.Inv) (segs : List Bytes) {line rest : Bytes} (hline : IsLine line)
    (hpart : IsLine b.content) (hall : b.content ++ segs.flatten = line ++ Buffer.crlf ++ rest)
    (hbad : (procReq .create line).2 = false) :
    ∃ b', serve httpCB (conn, b) segs = some (refuse conn, b') := by
  induction segs generalizing b with
  | nil =>
    rw [List.flatten_nil, List.append_nil] at hall
    exact absurd ⟨line, rest, hall.symm⟩ hpart
  | cons seg segs ih =>
    obtain ⟨b₁, hinv₁, hcontent₁, hreceive⟩ := receive_eq httpCB conn h seg
    have hall₁ : b₁.content ++ segs.flatten = line ++ Buffer.crlf ++ rest := by
      rw [hcontent₁, ← hall]
      simp
    rw [serve, List.foldlM_cons, hreceive]
    by_cases hshort : b₁.content.length < line.length + 2
    · have hpart₁ := isLine_of_beginning hline ⟨_, hall₁⟩ hshort
      rw [onMsg_incomplete httpCB conn hpart₁]
      exact ih hinv₁ hpart₁ hall₁
    · obtain ⟨p, hp⟩ : line ++ Buffer.crlf <+: b₁.content :=
        List.prefix_of_prefix_length_le ⟨_, rfl⟩ ⟨_, hall₁⟩ (by simp [Buffer.crlf]; omega)
      rw [onMsg_reject httpCB conn hinv₁ hline hp.symm hbad]
      exact serve_refused httpCB conn hinv₁ segs hline hp.symm hbad

/-- No segment but the last completes the request line. -/
def Late (segs : List Bytes) : Prop := segs.dropLast.flatten.length < r.line.length + 2

instance (segs : List Bytes) : Decidable (Late r segs) := inferInstanceAs (Decidable (_ < _))

theorem serve_singleton (s : HTTPConn × Buffer) (seg : Bytes) : serve httpCB s [seg] = receive httpCB s seg := by
  rw [serve, List.foldlM_cons]
  exact Option.bind_fun_some _

theorem serve_append (s : HTTPConn × Buffer) (segs segs' : List Bytes) :
    serve httpCB s (segs ++ segs') = serve httpCB s segs >>= fun s => serve httpCB s segs' :=
  List.foldlM_append

/-- A list of segments as long as `n` has one that reaches `n`. -/
theorem exists_crossing {segs : List Bytes} {n : Nat} (hn : 0 < n) (hlen : n ≤ segs.flatten.length) :
    ∃ pre seg post, segs = pre ++ seg :: post ∧ pre.flatten.length < n ∧ n ≤ (pre.flatten ++ seg).length := by
  induction segs generalizing n with
  | nil =>
    rw [List.flatten_nil, List.length_nil] at hlen
    omega
  | cons seg segs ih =>
    by_cases hseg : n ≤ seg.length
    · exact ⟨[], seg, segs, rfl, hn, hseg⟩
    · rw [List.flatten_cons, List.length_append] at hlen
      obtain ⟨pre, seg', post, rfl, hlt, hle⟩ := ih (Nat.sub_pos_of_lt (Nat.lt_of_not_le hseg))
        (Nat.sub_le_iff_le_add'.mpr hlen)
      refine ⟨seg :: pre, seg', post, rfl, ?_, ?_⟩
      · rw [List.flatten_cons, List.length_append]
        omega
      · rw [List.flatten_cons, List.append_assoc, List.length_append]
        omega

variable {r} (h : b.Inv) (hempty : b.content = [])
include h hempty

/-- The last segment completes the request: it is answered, and nothing is left. -/
theorem serve_late_left (hok : (procReq .create r.line).2 = true) {segs : List Bytes} (hcut : segs.flatten = r.bytes)
    (hlate : Late r segs) :
    ∃ b', b'.Inv ∧ b'.content = [] ∧ serve httpCB (conn, b) segs = (onReq httpCB conn r.request).map (·, b') := by
  have hne : segs ≠ [] := by
    rintro rfl
    simp [RequestText.bytes, Buffer.crlf] at hcut
  rw [← List.dropLast_concat_getLast hne] at hcut ⊢
  generalize segs.getLast hne = seg at hcut ⊢
  rw [List.flatten_append, List.flatten_singleton] at hcut
  obtain ⟨b₁, hinv₁, hcontent₁, hserve⟩ := serve_waiting httpCB conn h segs.dropLast r.isLine
    (by rw [hempty]; exact ⟨seg, hcut⟩) (by rw [hempty]; exact hlate)
  obtain ⟨b₂, hinv₂, hcontent₂, hreceive⟩ := receive_eq httpCB conn hinv₁ seg
  rw [hcontent₁, hempty, List.nil_append, hcut, ← List.append_nil r.bytes] at hcontent₂
  obtain ⟨b', hinv', hleft, hmsg⟩ := onMsg_front httpCB conn r hinv₂ hcontent₂ hok
  refine ⟨b', hinv', hleft, ?_⟩
  rw [serve_append, hserve, Option.bind_eq_bind, Option.bind_some, serve_singleton, hreceive, hmsg]

theorem serve_late (hok : (procReq .create r.line).2 = true) {segs : List Bytes} (hcut : segs.flatten = r.bytes)
    (hlate : Late r segs) : (serve httpCB (conn, b) segs).map Prod.fst = onReq httpCB conn r.request := by
  obtain ⟨b', _, _, hserve⟩ := serve_late_left httpCB conn h hempty hok hcut hlate
  rw [hserve]
  cases onReq httpCB conn r.request <;> simp only [Option.map_none, Option.map_some]

theorem serve_early (hok : (procReq .create r.line).2 = true) (hnames : TokenNames r.headers) {segs : List Bytes}
    (hcut : segs.flatten = r.bytes) (hne : ∀ seg ∈ segs, seg ≠ []) (hearly : ¬ Late r segs) :
    ∃ b', serve httpCB (conn, b) segs = some (refuse conn, b') := by
  obtain ⟨pre, seg, post, hdrop, hlt, hle⟩ := exists_crossing (Nat.succ_pos _) (Nat.le_of_not_lt hearly)
  have hsegs : segs ≠ [] := by
    rintro rfl
    simp at hdrop
  -- `seg` completes the request line, and behind it comes at least the last segment
  have hsplit : segs = pre ++ seg :: (post ++ [segs.getLast hsegs]) := by
    conv_lhs => rw [← List.dropLast_concat_getLast hsegs, hdrop]
    simp
  have hlast := hne _ (List.getLast_mem hsegs)
  generalize segs.getLast hsegs = last at hsplit hlast
  subst hsplit
  have hrest : (post ++ [last]).flatten ≠ [] := by simp [hlast]
  have hall : pre.flatten ++ seg ++ (post ++ [last]).flatten = r.bytes := by
    rw [← hcut]
    simp
  obtain ⟨b₁, hinv₁, hcontent₁, hserve⟩ := serve_waiting httpCB conn h pre r.isLine
    (by rw [hempty]; exact ⟨_, (List.append_assoc _ _ _).symm.trans hall⟩) (by rw [hempty]; exact hlt)
  obtain ⟨b₂, hinv₂, hcontent₂, hreceive⟩ := receive_eq httpCB conn hinv₁ seg
  rw [hcontent₁, hempty, List.nil_append] at hcontent₂
  obtain ⟨headers, b₃, hsuffix, hinv₃, hpart, hcontent₃, hmsg⟩ := onMsg_begun httpCB conn r hinv₂ hrest
    (hcontent₂ ▸ hall) (hcontent₂ ▸ hle) hok
  obtain ⟨line, rest, hline, hlines, hbad⟩ := rejected_behind_line
    (fun header hheader => r.isHeader header (hsuffix.subset hheader))
    (fun header hheader => hnames header (hsuffix.subset hheader))
  obtain ⟨b', hrefused⟩ := serve_rejected httpCB conn hinv₃ _ hline hpart (hcontent₃.trans hlines) hbad
  refine ⟨b', ?_⟩
  rw [serve_append, hserve, ← hrefused]
  simp [serve, hreceive, hmsg]

omit h hempty

/-- A new connection. -/
def opened : HTTPConn := ⟨.connected, []⟩

theorem sent_refuse_opened : (refuse opened).sent = badRequest := rfl

theorem sent_answerWith_opened (req : HTTPRequest) (text : Bytes) : (answerWith httpCB opened req text).sent = text := by
  unfold answerWith
  split <;> simp [HTTPConn.shutdown, HTTPConn.send, opened]

/-- Every response says something about the connection; the refusal does not. -/
theorem onReq_ne_refuse (req : HTTPRequest) : onReq httpCB opened req ≠ some (refuse opened) := by
  rw [onReq_eq]
  cases hwritten : (reply httpCB req).written with
  | none => exact nofun
  | some text =>
    intro heq
    have hsent := congrArg HTTPConn.sent (Option.some.inj heq)
    rw [sent_answerWith_opened, sent_refuse_opened] at hsent
    have hmem : chr 'C' ∈ text := by
      cases hclose : (reply httpCB req).close with
      | true =>
        have hpiece : ascii "Connection: close\r\n" ∈ (reply httpCB req).pieces := by
          simp [HTTPResponse.pieces, hclose]
        exact StringPiece.mem_concat hwritten hpiece (by decide) (by decide)
      | false =>
        have hpiece : ascii "Connection: Keep-Alive\r\n" ∈ (reply httpCB req).pieces := by
          simp [HTTPResponse.pieces, hclose]
        exact StringPiece.mem_concat hwritten hpiece (by decide) (by decide)
    rw [hsent] at hmem
    exact absurd hmem (by decide)

/-- A request line that is rejected is refused, whole or cut. -/
theorem serve_bad (hbad : (procReq .create r.line).2 = false) {segs : List Bytes} (hcut : segs.flatten = r.bytes)
    (h : b.Inv) (hempty : b.content = []) : ∃ b', serve httpCB (conn, b) segs = some (refuse conn, b') :=
  serve_rejected httpCB conn h segs r.isLine (by rw [hempty]; decide) (by rw [hempty]; exact hcut) hbad

/-- One segment is late. -/
theorem late_whole : Late r [r.bytes] := Nat.succ_pos _

/-- What a new connection comes to: the bytes that are sent and the decision to shut down, or
nothing if a call of `onMsg` throws. -/
def outcome (b : Buffer) (segs : List Bytes) : Option HTTPConn := (serve httpCB (opened, b) segs).map Prod.fst

theorem outcome_of_bad (hbad : (procReq .create r.line).2 = false) {segs : List Bytes} (hcut : segs.flatten = r.bytes)
    (h : b.Inv) (hempty : b.content = []) : outcome httpCB b segs = some (refuse opened) := by
  obtain ⟨b', hserve⟩ := serve_bad httpCB opened hbad hcut h hempty
  rw [outcome, hserve]
  rfl

theorem outcome_of_early (hok : (procReq .create r.line).2 = true) (hnames : TokenNames r.headers) {segs : List Bytes}
    (hcut : segs.flatten = r.bytes) (hne : ∀ seg ∈ segs, seg ≠ []) (hearly : ¬ Late r segs) (h : b.Inv)
    (hempty : b.content = []) : outcome httpCB b segs = some (refuse opened) := by
  obtain ⟨b', hserve⟩ := serve_early httpCB opened h hempty hok hnames hcut hne hearly
  rw [outcome, hserve]
  rfl

/-- **Segmentation matters once the request line is complete.** If no segment of a request
but the last completes the request line, or the request line is one that is rejected,
the server sends the same bytes and takes the same decision to shut down as for the
whole request. If header names have no blanks in them, it does so only then. The call returns
if the response is short. -/
theorem same_answer_iff_late {segs : List Bytes} (hcut : segs.flatten = r.bytes) (hne : ∀ seg ∈ segs, seg ≠ [])
    (h : b.Inv) (hempty : b.content = []) :
    ((procReq .create r.line).2 = false ∨ Late r segs → outcome httpCB b segs = outcome httpCB b [r.bytes]) ∧
    (TokenNames r.headers →
      (outcome httpCB b segs = outcome httpCB b [r.bytes] ↔ (procReq .create r.line).2 = false ∨ Late r segs)) ∧
    ((reply httpCB r.request).Short →
      (outcome httpCB b [r.bytes]).isSome ∧ (TokenNames r.headers → (outcome httpCB b segs).isSome)) := by
  have hwhole : [r.bytes].flatten = r.bytes := List.flatten_singleton
  cases hok : (procReq .create r.line).2 with
  | false =>
    have hsame : outcome httpCB b segs = outcome httpCB b [r.bytes] := by
      rw [outcome_of_bad httpCB hok hcut h hempty, outcome_of_bad httpCB hok hwhole h hempty]
    have hreturns : (outcome httpCB b [r.bytes]).isSome := by
      rw [outcome_of_bad httpCB hok hwhole h hempty]
      rfl
    exact ⟨fun _ => hsame, fun _ => iff_of_true hsame (.inl rfl), fun _ => ⟨hreturns, fun _ => hsame ▸ hreturns⟩⟩
  | true =>
    have hanswer : outcome httpCB b [r.bytes] = onReq httpCB opened r.request :=
      serve_late httpCB opened h hempty hok hwhole late_whole
    have hreturns (hshort : (reply httpCB r.request).Short) : (outcome httpCB b [r.bytes]).isSome := by
      rw [hanswer, onReq_short httpCB opened hshort]
      rfl
    by_cases hlate : Late r segs
    · have hsame : outcome httpCB b segs = outcome httpCB b [r.bytes] :=
        (serve_late httpCB opened h hempty hok hcut hlate).trans hanswer.symm
      exact ⟨fun _ => hsame, fun _ => iff_of_true hsame (.inr hlate),
        fun hshort => ⟨hreturns hshort, fun _ => hsame ▸ hreturns hshort⟩⟩
    · have hrefused (hnames : TokenNames r.headers) := outcome_of_early httpCB hok hnames hcut hne hlate h hempty
      refine ⟨fun hcond => absurd (hcond.resolve_left nofun) hlate, fun hnames => ?_, fun hshort => ?_⟩
      · refine iff_of_false (fun hsame => ?_) (not_or_intro nofun hlate)
        rw [hrefused hnames, hanswer] at hsame
        exact onReq_ne_refuse httpCB r.request hsame.symm
      · refine ⟨hreturns hshort, fun hnames => ?_⟩
        rw [hrefused hnames]
        rfl

theorem short_default (req : HTTPRequest) : (reply defaultHTTPCB req).Short :=
  ⟨show (ascii "Not Found").length < 2 ^ 31 by decide, fun header hmem => (by cases hmem),
    show ([] : Bytes).length < 2 ^ 31 by decide⟩

def getRequest : RequestText where
  line := ascii "GET / HTTP/1.1"
  headers := [ascii "Host: a"]
  isLine := by decide
  isHeader := List.forall_mem_singleton.mpr ⟨by decide, by decide⟩

/-- Cut inside the request line, the request is answered as a whole one is. -/
theorem same_answer_getRequest :
    ∃ b conn, Buffer.create Buffer.kInit = some b ∧ outcome defaultHTTPCB b [getRequest.bytes] = some conn ∧
      outcome defaultHTTPCB b [ascii "GET / HT", ascii "TP/1.1\r\nHost: a\r\n\r\n"] = some conn := by
  obtain ⟨b, hb, hinv, hempty⟩ := Buffer.create_spec Buffer.kInit
  have hcut : [ascii "GET / HT", ascii "TP/1.1\r\nHost: a\r\n\r\n"].flatten = getRequest.bytes := by decide
  obtain ⟨_, hiff, hreturns⟩ := same_answer_iff_late defaultHTTPCB hcut (by decide) hinv hempty
  have hsame := (hiff (by decide)).mpr (.inr (by decide))
  obtain ⟨conn, hconn⟩ := Option.isSome_iff_exists.mp (hreturns (short_default _)).1
  exact ⟨b, conn, hb, hconn, hsame.trans hconn⟩

/-- Cut behind the request line, it is refused. -/
theorem refused_behind_request_line :
    ∃ b whole cut, Buffer.create Buffer.kInit = some b ∧
      outcome defaultHTTPCB b [getRequest.bytes] = some whole ∧
      outcome defaultHTTPCB b [ascii "GET / HTTP/1.1\r\n", ascii "Host: a\r\n\r\n"] = some cut ∧
      cut.sent = badRequest ∧ cut ≠ whole := by
  obtain ⟨b, hb, hinv, hempty⟩ := Buffer.create_spec Buffer.kInit
  have hcut : [ascii "GET / HTTP/1.1\r\n", ascii "Host: a\r\n\r\n"].flatten = getRequest.bytes := by decide
  have hwhole : outcome defaultHTTPCB b [getRequest.bytes] = onReq defaultHTTPCB opened getRequest.request :=
    serve_late defaultHTTPCB opened hinv hempty (by decide) List.flatten_singleton late_whole
  have hanswer := onReq_short defaultHTTPCB opened (short_default getRequest.request)
  refine ⟨b, _, _, hb, hwhole.trans hanswer,
    outcome_of_early defaultHTTPCB (by decide) (by decide) hcut (by decide) (by decide) hinv hempty, sent_refuse_opened, ?_⟩
  intro heq
  exact onReq_ne_refuse defaultHTTPCB getRequest.request (hanswer.trans (congrArg some heq.symm))

end HTTPServer
end Chtho.Net
