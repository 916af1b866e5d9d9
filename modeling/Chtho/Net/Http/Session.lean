import Chtho.Net.Http.Pipeline
import Chtho.Net.Http.Framing

/-! Many requests on one connection.

They come as one stream, cut anywhere. A call of `onMsg` answers one request at most, so requests
pile up in the input buffer; and a cut behind a request line loses the request, and with it
the connection. What is sent is in any case the answers to the first requests, in order, and
perhaps a refusal behind them. If each request comes in segments of its own, all but the last
inside the request line, then all are answered, and the client reads one response for each. -/
namespace Chtho.Net.HTTPServer
open Lib HTTPContext

variable {httpCB : HTTPCB} {conn : HTTPConn} {b : Buffer}

/-! ### What is sent -/

/-- The connection when requests were answered one after the other. -/
def answers (httpCB : HTTPCB) (conn : HTTPConn) (reqs : List HTTPRequest) : HTTPConn := reqs.foldl (answer httpCB) conn

/-- The responses up to the first that closes the connection. -/
def upToClose : List HTTPResponse → List HTTPResponse
  | [] => []
  | resp :: resps => if resp.close then [resp] else resp :: upToClose resps

/-- The bytes that answer requests on a new connection. -/
def responses (httpCB : HTTPCB) (reqs : List HTTPRequest) : Bytes :=
  (upToClose (reqs.map (reply httpCB))).flatMap HTTPResponse.text

theorem answer_open (hconn : conn.state = .connected) {req : HTTPRequest} (hclose : (reply httpCB req).close = false) :
    answer httpCB conn req = {conn with sent := conn.sent ++ (reply httpCB req).text} := by
  rw [answer, answerWith, hclose, if_neg Bool.false_ne_true, HTTPConn.send, if_pos hconn]

theorem answer_close (hconn : conn.state = .connected) {req : HTTPRequest} (hclose : (reply httpCB req).close = true) :
    answer httpCB conn req = ⟨.disconnecting, conn.sent ++ (reply httpCB req).text⟩ := by
  rw [answer, answerWith, hclose, if_pos rfl, HTTPConn.send, if_pos hconn, HTTPConn.shutdown, if_pos hconn]

/-- Behind a shutdown nothing is said. -/
theorem answers_closed (hconn : conn.state ≠ .connected) (reqs : List HTTPRequest) :
    answers httpCB conn reqs = conn := by
  induction reqs with
  | nil => rfl
  | cons req reqs ih =>
    have hanswer : answer httpCB conn req = conn := by
      simp only [answer, answerWith, HTTPConn.send, HTTPConn.shutdown, if_neg hconn, ite_self]
    rw [answers, List.foldl_cons, hanswer]
    exact ih

theorem sent_answers (hconn : conn.state = .connected) (reqs : List HTTPRequest) :
    (answers httpCB conn reqs).sent = conn.sent ++ responses httpCB reqs := by
  induction reqs generalizing conn with
  | nil => exact (List.append_nil _).symm
  | cons req reqs ih =>
    rw [answers, List.foldl_cons, responses, List.map_cons, upToClose]
    cases hclose : (reply httpCB req).close with
    | true =>
      have hclosed : (answer httpCB conn req).state ≠ .connected := by
        rw [answer_close hconn hclose]
        exact TcpConnection.State.noConfusion
      have hrest : reqs.foldl (answer httpCB) (answer httpCB conn req) = answer httpCB conn req :=
        answers_closed hclosed reqs
      rw [hrest, answer_close hconn hclose, if_pos rfl, List.flatMap_singleton]
    | false =>
      rw [answer_open hconn hclose, if_neg Bool.false_ne_true, List.flatMap_cons, ← List.append_assoc]
      exact ih hconn

/-- A refusal says something once, and only on an open connection. -/
theorem sent_refuse (conn : HTTPConn) :
    (refuse conn).state ≠ .connected ∧
      ((refuse conn).sent = conn.sent ∨ (refuse conn).sent = conn.sent ++ badRequest) := by
  unfold refuse HTTPConn.send HTTPConn.shutdown
  by_cases hconn : conn.state = .connected
  all_goals simp [hconn]

/-! ### A request that is lost -/

/-- The line in front is one that is rejected, and not all of it need be there. Behind what
was sent on `conn` comes at most the refusal. -/
inductive Doomed (conn : HTTPConn) (future : Bytes) : HTTPConn × Buffer → Prop where
  | lost {b : Buffer} {line rest : Bytes} (hinv : b.Inv) (hline : IsLine line) (hbad : (procReq .create line).2 = false)
      (hcontent : b.content ++ future = line ++ Buffer.crlf ++ rest) : Doomed conn future (conn, b)
  /-- The line that was refused stays in front. -/
  | refused {b : Buffer} {line rest : Bytes} (hinv : b.Inv) (hline : IsLine line)
      (hbad : (procReq .create line).2 = false) (hcontent : b.content = line ++ Buffer.crlf ++ rest) :
      Doomed conn future (refuse conn, b)

variable {future seg : Bytes} {s : HTTPConn × Buffer}

theorem Doomed.onMsg (httpCB : HTTPCB) (conn : HTTPConn) {line rest : Bytes} (hinv : b.Inv) (hline : IsLine line)
    (hbad : (procReq .create line).2 = false) (hcontent : b.content ++ future = line ++ Buffer.crlf ++ rest) :
    ∃ s', onMsg httpCB conn b = some s' ∧ Doomed conn future s' := by
  by_cases hshort : b.content.length < line.length + 2
  · have hpart : IsLine b.content := isLine_of_beginning hline ⟨future, hcontent⟩ hshort
    exact ⟨_, onMsg_incomplete httpCB conn hpart, .lost hinv hline hbad hcontent⟩
  · obtain ⟨rest', hfront⟩ : line ++ Buffer.crlf <+: b.content :=
      List.prefix_of_prefix_length_le ⟨_, rfl⟩ ⟨_, hcontent⟩ (by simp [Buffer.crlf]; omega)
    exact ⟨_, onMsg_reject httpCB conn hinv hline hfront.symm hbad, .refused hinv hline hbad hfront.symm⟩

theorem Doomed.receive (httpCB : HTTPCB) (h : Doomed conn (seg ++ future) s) :
    ∃ s', receive httpCB s seg = some s' ∧ Doomed conn future s' := by
  cases h with
  | @lost b line rest hinv hline hbad hcontent =>
    obtain ⟨b₁, hinv₁, hcontent₁, hreceive⟩ := receive_eq httpCB conn hinv seg
    rw [← List.append_assoc, ← hcontent₁] at hcontent
    rw [hreceive]
    exact Doomed.onMsg httpCB conn hinv₁ hline hbad hcontent
  | @refused b line rest hinv hline hbad hcontent =>
    obtain ⟨b₁, hinv₁, hcontent₁, hreceive⟩ := receive_eq httpCB (refuse conn) hinv seg
    rw [hcontent, List.append_assoc] at hcontent₁
    have hmsg := onMsg_reject httpCB (refuse conn) hinv₁ hline hcontent₁ hbad
    rw [refuse_refuse] at hmsg
    exact ⟨_, hreceive.trans hmsg, .refused hinv₁ hline hbad hcontent₁⟩

theorem Doomed.serve (httpCB : HTTPCB) {segs : List Bytes} (h : Doomed conn (segs.flatten ++ future) s) :
    ∃ s', serve httpCB s segs = some s' ∧ Doomed conn future s' := by
  induction segs generalizing s with
  | nil => exact ⟨s, rfl, h⟩
  | cons seg segs ih =>
    rw [List.flatten_cons, List.append_assoc] at h
    obtain ⟨s₁, hreceive, h₁⟩ := h.receive httpCB
    obtain ⟨s', hserve, h'⟩ := ih h₁
    refine ⟨s', ?_, h'⟩
    rw [HTTPServer.serve, List.foldlM_cons, hreceive]
    exact hserve

theorem Doomed.sent (h : Doomed conn future s) : s.1 = conn ∨ s.1 = refuse conn := by
  cases h with
  | lost => exact .inl rfl
  | refused => exact .inr rfl

/-! ### A stream that is cut anywhere -/

/-- The bytes of the first `k` requests. -/
def firstBytes (rs : List RequestText) (k : Nat) : Bytes := (rs.take k).flatMap RequestText.bytes

/-- The connection when the first `k` requests were answered. -/
def answered (httpCB : HTTPCB) (rs : List RequestText) (k : Nat) : HTTPConn :=
  answers httpCB opened ((rs.take k).map RequestText.request)

/-- What is sent to answer the first `k` requests. -/
def firstResponses (httpCB : HTTPCB) (rs : List RequestText) (k : Nat) : Bytes :=
  responses httpCB ((rs.take k).map RequestText.request)

variable {rs : List RequestText} {k : Nat} {arrived : Bytes}

theorem sent_answered (httpCB : HTTPCB) (rs : List RequestText) (k : Nat) :
    (answered httpCB rs k).sent = firstResponses httpCB rs k := sent_answers rfl _

theorem take_next {r : RequestText} (hnext : rs[k]? = some r) : rs.take (k + 1) = rs.take k ++ [r] := by
  rw [List.take_add_one, hnext]
  rfl

/-- One more is answered. -/
theorem answer_answered {r : RequestText} (hnext : rs[k]? = some r) :
    answer httpCB (answered httpCB rs k) r.request = answered httpCB rs (k + 1) := by
  rw [answered, answered, take_next hnext, List.map_append, answers, answers, List.foldl_append]
  rfl

theorem firstBytes_succ {r : RequestText} (hnext : rs[k]? = some r) :
    firstBytes rs (k + 1) = firstBytes rs k ++ r.bytes := by
  rw [firstBytes, firstBytes, take_next hnext, List.flatMap_append, List.flatMap_singleton]

/-- What is still to come of the stream, behind the first requests. -/
theorem stream_behind (hstream : firstBytes rs k ++ future = rs.flatMap RequestText.bytes) :
    future = (rs.drop k).flatMap RequestText.bytes := by
  conv_rhs at hstream => rw [← List.take_append_drop k rs, List.flatMap_append]
  exact List.append_cancel_left hstream

/-- Where the server is in the stream: it has answered the first `k` requests, and it has what else
arrived in the buffer or has lost it. -/
inductive Status where
  | serving (k : Nat)
  | lost (k : Nat)
deriving DecidableEq, Repr

/-- How many requests are answered. -/
def Status.answered : Status → Nat
  | .serving k | .lost k => k

/-- A segment has come, with which `n` bytes have arrived altogether. The next request waits for the
rest of its line, and is answered if then all of it is there and the line is accepted. -/
def advance (rs : List RequestText) (n : Nat) : Status → Status
  | .lost k => .lost k
  | .serving k =>
    match rs[k]? with
    | none => .serving k
    | some r =>
      let here := n - (firstBytes rs k).length
      if here < r.line.length + 2 then .serving k
      else if (procReq .create r.line).2 = true ∧ r.bytes.length ≤ here then .serving (k + 1)
      else .lost k

/-- After segments that come behind `n` bytes. -/
def advanceAll (rs : List RequestText) : Nat → Status → List Bytes → Status
  | _, st, [] => st
  | n, st, seg :: segs => advanceAll rs (n + seg.length) (advance rs (n + seg.length) st) segs

/-- What segments come to, by their lengths. -/
def status (rs : List RequestText) (segs : List Bytes) : Status := advanceAll rs 0 (.serving 0) segs

theorem answered_advance_le (rs : List RequestText) (n : Nat) (st : Status) :
    (advance rs n st).answered ≤ st.answered + 1 := by
  cases st with
  | lost k => exact Nat.le_succ k
  | serving k =>
    cases hnext : rs[k]? with
    | none =>
      simp only [advance, hnext]
      exact Nat.le_succ k
    | some r =>
      simp only [advance, hnext]
      split
      · exact Nat.le_succ k
      · split
        · exact Nat.le_refl _
        · exact Nat.le_succ k

theorem answered_advanceAll_le (rs : List RequestText) (n : Nat) (st : Status) (segs : List Bytes) :
    (advanceAll rs n st segs).answered ≤ st.answered + segs.length := by
  induction segs generalizing n st with
  | nil => exact Nat.le_refl _
  | cons seg segs ih =>
    have hrest := ih (n + seg.length) (advance rs (n + seg.length) st)
    have hfirst := answered_advance_le rs (n + seg.length) st
    rw [advanceAll, List.length_cons]
    omega

/-- The server when bytes have arrived and others are still to come. -/
inductive Phase (httpCB : HTTPCB) (rs : List RequestText) (arrived future : Bytes) :
    Status → HTTPConn × Buffer → Prop where
  | serving {k : Nat} {b : Buffer} (hinv : b.Inv) (hcontent : firstBytes rs k ++ b.content = arrived) :
      Phase httpCB rs arrived future (.serving k) (answered httpCB rs k, b)
  | lost {k : Nat} {s : HTTPConn × Buffer} (harrived : firstBytes rs k <+: arrived)
      (hdoomed : Doomed (answered httpCB rs k) future s) : Phase httpCB rs arrived future (.lost k) s

/-- The next request arrives, or a part of it. -/
theorem Phase.onMsg {r : RequestText} (hinv : b.Inv) (hnames : TokenNames r.headers)
    (hshort : (reply httpCB r.request).Short) {rest : Bytes} (harrived : firstBytes rs k ++ b.content = arrived)
    (hnext : rs[k]? = some r) (hcontent : b.content ++ future = r.bytes ++ rest) :
    ∃ s', onMsg httpCB (answered httpCB rs k) b = some s' ∧
      Phase httpCB rs arrived future (advance rs arrived.length (.serving k)) s' := by
  have hpre : firstBytes rs k <+: arrived := ⟨_, harrived⟩
  have hhere : arrived.length - (firstBytes rs k).length = b.content.length := by
    rw [← harrived, List.length_append, Nat.add_sub_cancel_left]
  have hlines : b.content ++ future = r.line ++ Buffer.crlf ++ (joined r.headers ++ Buffer.crlf ++ rest) := by
    rw [hcontent, RequestText.bytes, List.append_assoc (r.line ++ Buffer.crlf)]
  simp only [advance, hnext, hhere]
  by_cases hline : b.content.length < r.line.length + 2
  · have hpart : IsLine b.content := isLine_of_beginning r.isLine ⟨future, hlines⟩ hline
    rw [if_pos hline]
    exact ⟨_, onMsg_incomplete httpCB _ hpart, .serving hinv harrived⟩
  rw [if_neg hline]
  cases hok : (procReq .create r.line).2 with
  | false =>
    obtain ⟨s', hmsg, hdoomed⟩ := Doomed.onMsg httpCB (answered httpCB rs k) hinv r.isLine hok hlines
    rw [if_neg fun hcond => Bool.false_ne_true hcond.1]
    exact ⟨s', hmsg, .lost hpre hdoomed⟩
  | true =>
    by_cases hall : r.bytes.length ≤ b.content.length
    · -- the request is there, and is answered
      obtain ⟨behind, hfront⟩ : r.bytes <+: b.content := List.prefix_of_prefix_length_le ⟨_, rfl⟩ ⟨_, hcontent⟩ hall
      obtain ⟨b', hinv', hbehind, hmsg⟩ := onMsg_front httpCB (answered httpCB rs k) r hinv hfront.symm hok
      rw [onReq_short httpCB _ hshort, Option.map_some, answer_answered hnext] at hmsg
      rw [if_pos ⟨rfl, hall⟩]
      refine ⟨_, hmsg, .serving hinv' ?_⟩
      rw [firstBytes_succ hnext, List.append_assoc, hbehind, hfront, harrived]
    · -- the request line is there, and is lost
      obtain ⟨missing, hmissing⟩ : b.content <+: r.bytes :=
        List.prefix_of_prefix_length_le ⟨_, rfl⟩ ⟨_, hcontent.symm⟩ (Nat.le_of_not_le hall)
      have hne : missing ≠ [] := by
        rintro rfl
        rw [← hmissing, List.append_nil] at hall
        exact hall (Nat.le_refl _)
      obtain ⟨headers, b', hsuffix, hinv', _, hcontent', hmsg⟩ := onMsg_begun httpCB
        (answered httpCB rs k) r hinv hne hmissing (Nat.le_of_not_lt hline) hok
      obtain ⟨line, rest', hline', hjoined, hbad⟩ := rejected_behind_line
        (fun header hheader => r.isHeader header (hsuffix.subset hheader))
        (fun header hheader => hnames header (hsuffix.subset hheader))
      have hfuture : future = missing ++ rest := by
        rw [← hmissing, List.append_assoc] at hcontent
        exact List.append_cancel_left hcontent
      have hlost : b'.content ++ future = line ++ Buffer.crlf ++ (rest' ++ rest) := by
        rw [hfuture, ← List.append_assoc, hcontent', hjoined, List.append_assoc]
      rw [if_neg fun hcond => hall hcond.2]
      exact ⟨_, hmsg, .lost hpre (.lost hinv' hline' hbad hlost)⟩

variable {st : Status} (hnames : ∀ r ∈ rs, TokenNames r.headers)
  (hshort : ∀ r ∈ rs, (reply httpCB r.request).Short)
include hnames hshort

theorem Phase.receive (hstream : arrived ++ (seg ++ future) = rs.flatMap RequestText.bytes)
    (h : Phase httpCB rs arrived (seg ++ future) st s) :
    ∃ s', receive httpCB s seg = some s' ∧
      Phase httpCB rs (arrived ++ seg) future (advance rs (arrived ++ seg).length st) s' := by
  cases h with
  | @serving k b hinv hcontent =>
    obtain ⟨b₁, hinv₁, hcontent₁, hreceive⟩ := receive_eq httpCB (answered httpCB rs k) hinv seg
    rw [hreceive]
    have harrived : firstBytes rs k ++ b₁.content = arrived ++ seg := by
      rw [hcontent₁, ← List.append_assoc, hcontent]
    have hbehind : b₁.content ++ future = (rs.drop k).flatMap RequestText.bytes := by
      apply stream_behind
      rw [← List.append_assoc, harrived, List.append_assoc, hstream]
    cases hnext : rs[k]? with
    | none =>
      -- all are answered
      rw [List.drop_eq_nil_of_le (List.getElem?_eq_none_iff.mp hnext), List.flatMap_nil,
        List.append_eq_nil_iff] at hbehind
      have hpart : IsLine b₁.content := by
        rw [hbehind.1]
        decide
      simp only [advance, hnext]
      exact ⟨_, onMsg_incomplete httpCB _ hpart, .serving hinv₁ harrived⟩
    | some r =>
      obtain ⟨hlt, hget⟩ := List.getElem?_eq_some_iff.mp hnext
      rw [List.drop_eq_getElem_cons hlt, hget, List.flatMap_cons] at hbehind
      have hmem := List.mem_of_getElem? hnext
      exact Phase.onMsg hinv₁ (hnames r hmem) (hshort r hmem) harrived hnext hbehind
  | lost harrived hdoomed =>
    obtain ⟨s', hreceive, hdoomed'⟩ := hdoomed.receive httpCB
    exact ⟨s', hreceive, .lost (harrived.trans (List.prefix_append arrived seg)) hdoomed'⟩

theorem Phase.serve {segs : List Bytes}
    (hstream : arrived ++ (segs.flatten ++ future) = rs.flatMap RequestText.bytes)
    (h : Phase httpCB rs arrived (segs.flatten ++ future) st s) :
    ∃ s', serve httpCB s segs = some s' ∧
      Phase httpCB rs (arrived ++ segs.flatten) future (advanceAll rs arrived.length st segs) s' := by
  induction segs generalizing arrived st s with
  | nil =>
    rw [List.flatten_nil, List.append_nil]
    exact ⟨s, rfl, h⟩
  | cons seg segs ih =>
    rw [List.flatten_cons, List.append_assoc] at hstream h
    obtain ⟨s₁, hreceive, h₁⟩ := h.receive hnames hshort hstream
    rw [← List.append_assoc] at hstream
    obtain ⟨s', hserve, h'⟩ := ih hstream h₁
    rw [List.length_append] at h'
    refine ⟨s', ?_, ?_⟩
    · rw [HTTPServer.serve, List.foldlM_cons, hreceive]
      exact hserve
    · rw [List.flatten_cons, ← List.append_assoc]
      exact h'

omit hnames hshort

/-- What a doomed connection has sent, and will have sent whatever else arrives of the stream. -/
theorem Doomed.sent_answered (h : Doomed (answered httpCB rs k) future s) :
    s.1.sent = firstResponses httpCB rs k ∨
      s.1.sent = firstResponses httpCB rs k ++ badRequest ∧ s.1.state ≠ .connected := by
  have hsent := HTTPServer.sent_answered httpCB rs k
  rcases h.sent with heq | heq
  · exact .inl (heq ▸ hsent)
  · obtain ⟨hstate, hrefused | hrefused⟩ := sent_refuse (answered httpCB rs k)
    · exact .inl (heq ▸ hrefused.trans hsent)
    · rw [hsent, ← heq] at hrefused
      exact .inr ⟨hrefused, heq ▸ hstate⟩

/-- **Answers come in order.** However a stream of requests is cut into segments, and after however
many of them, as many requests are answered as `status` says: the first ones, one for each segment
at most, none before all of it has arrived. What is sent is their responses in order, up to the
first that closes the connection. While the server is serving, everything else that arrived is in
the input buffer; once it has lost a request no other of the stream will be answered, and at most
a refusal shuts the connection down. -/
theorem answered_in_order {segs : List Bytes} (hnames : ∀ r ∈ rs, TokenNames r.headers)
    (hshort : ∀ r ∈ rs, (reply httpCB r.request).Short) (hstream : segs.flatten <+: rs.flatMap RequestText.bytes)
    (hinv : b.Inv) (hempty : b.content = []) :
    (status rs segs).answered ≤ segs.length ∧ firstBytes rs (status rs segs).answered <+: segs.flatten ∧
      (∀ k, status rs segs = .serving k → ∃ conn b', serve httpCB (opened, b) segs = some (conn, b') ∧
        conn.sent = firstResponses httpCB rs k ∧ firstBytes rs k ++ b'.content = segs.flatten) ∧
      ∀ k, status rs segs = .lost k → ∀ more, (segs ++ more).flatten <+: rs.flatMap RequestText.bytes →
        ∃ conn b', serve httpCB (opened, b) (segs ++ more) = some (conn, b') ∧
          (conn.sent = firstResponses httpCB rs k ∨
            conn.sent = firstResponses httpCB rs k ++ badRequest ∧ conn.state ≠ .connected) := by
  obtain ⟨future, hfuture⟩ := hstream
  have hbegun : Phase httpCB rs [] (segs.flatten ++ future) (.serving 0) (opened, b) := .serving hinv hempty
  obtain ⟨s, hserve, hphase⟩ := hbegun.serve hnames hshort hfuture
  have hle : (status rs segs).answered ≤ 0 + segs.length := answered_advanceAll_le rs 0 (.serving 0) segs
  refine ⟨by omega, ?_⟩
  change Phase httpCB rs segs.flatten future (status rs segs) s at hphase
  generalize status rs segs = st at hphase
  cases hphase with
  | @serving k b' _ hcontent =>
    refine ⟨⟨_, hcontent⟩, fun k' hk => ?_, nofun⟩
    obtain rfl := Status.serving.inj hk
    exact ⟨_, b', hserve, sent_answered httpCB rs k, hcontent⟩
  | @lost k s harrived hdoomed =>
    refine ⟨harrived, nofun, fun k' hk more hmore => ?_⟩
    obtain rfl := Status.lost.inj hk
    obtain ⟨future', hfuture'⟩ := hmore
    have hsplit : future = more.flatten ++ future' := by
      rw [← hfuture, List.flatten_append, List.append_assoc] at hfuture'
      exact (List.append_cancel_left hfuture').symm
    rw [hsplit] at hdoomed
    obtain ⟨⟨conn, b'⟩, hserve', hdoomed'⟩ := hdoomed.serve httpCB
    refine ⟨conn, b', ?_, hdoomed'.sent_answered⟩
    rw [serve_append, hserve]
    exact hserve'

/-- Two requests, cut inside the second one: in the first segment it waits behind the other, and with
the second it is answered. -/
theorem answered_in_order_two :
    status [getRequest, getRequest] [getRequest.bytes ++ ascii "GET / HTTP/1.1\r\nHo", ascii "st: a\r\n\r\n"] =
      .serving 2 ∧
    ∃ b conn b', Buffer.create Buffer.kInit = some b ∧
      serve found (opened, b) [getRequest.bytes ++ ascii "GET / HTTP/1.1\r\nHo", ascii "st: a\r\n\r\n"] =
        some (conn, b') ∧
      conn.sent = firstResponses found [getRequest, getRequest] 2 ∧
      firstBytes [getRequest, getRequest] 2 ++ b'.content = getRequest.bytes ++ getRequest.bytes := by
  obtain ⟨b, hb, hinv, hempty⟩ := Buffer.create_spec Buffer.kInit
  have hstatus : status [getRequest, getRequest]
      [getRequest.bytes ++ ascii "GET / HTTP/1.1\r\nHo", ascii "st: a\r\n\r\n"] = .serving 2 := by decide
  have hnames : ∀ r ∈ [getRequest, getRequest], TokenNames r.headers := by decide
  have hstream : [getRequest.bytes ++ ascii "GET / HTTP/1.1\r\nHo", ascii "st: a\r\n\r\n"].flatten <+:
      [getRequest, getRequest].flatMap RequestText.bytes := by decide
  obtain ⟨_, _, hserving, _⟩ := answered_in_order hnames (fun r _ => short_found r.request) hstream hinv hempty
  obtain ⟨conn, b', hserve, hsent, hcontent⟩ := hserving 2 hstatus
  exact ⟨hstatus, b, conn, b', hb, hserve, hsent, hcontent.trans (by decide)⟩

/-- Cut in the same place, but in a segment of its own, the second request is lost. -/
example : status [getRequest, getRequest]
    [getRequest.bytes, ascii "GET / HTTP/1.1\r\nHo", ascii "st: a\r\n\r\n"] = .lost 1 := by decide

/-! ### A client that does not wait -/

theorem serve_batches (httpCB : HTTPCB) {batches : List (List RequestText)} (hne : ∀ batch ∈ batches, batch ≠ [])
    (queue : List RequestText) (hok : ∀ r ∈ queue ++ batches.flatten, (procReq .create r.line).2 = true)
    (hshort : ∀ r ∈ queue ++ batches.flatten, (reply httpCB r.request).Short) (conn : HTTPConn) (hinv : b.Inv)
    (hcontent : b.content = queue.flatMap RequestText.bytes) :
    ∃ b', b'.Inv ∧ b'.content = ((queue ++ batches.flatten).drop batches.length).flatMap RequestText.bytes ∧
      serve httpCB (conn, b) (batches.map (List.flatMap RequestText.bytes)) =
        some (answers httpCB conn (((queue ++ batches.flatten).take batches.length).map RequestText.request), b') := by
  induction batches generalizing queue conn b with
  | nil =>
    refine ⟨b, hinv, ?_, rfl⟩
    rw [List.flatten_nil, List.append_nil, List.length_nil, List.drop_zero, hcontent]
  | cons batch batches ih =>
    obtain ⟨hhead, htail⟩ := List.forall_mem_cons.mp hne
    obtain ⟨b₁, hinv₁, hcontent₁, hreceive⟩ := receive_eq httpCB conn hinv (batch.flatMap RequestText.bytes)
    rw [hcontent, ← List.flatMap_append] at hcontent₁
    -- the batch is not empty, so there is one to answer
    obtain ⟨r, waiting, hfront⟩ := List.exists_cons_of_ne_nil (List.append_ne_nil_of_right_ne_nil queue hhead)
    have hqueued : queue ++ (batch :: batches).flatten = r :: (waiting ++ batches.flatten) := by
      rw [List.flatten_cons, ← List.append_assoc, hfront, List.cons_append]
    rw [hfront] at hcontent₁
    rw [hqueued, List.forall_mem_cons] at hok hshort
    obtain ⟨b₂, hinv₂, hcontent₂, hmsg⟩ := onMsg_front httpCB conn r hinv₁ (hcontent₁.trans List.flatMap_cons) hok.1
    rw [onReq_short httpCB conn hshort.1, Option.map_some] at hmsg
    obtain ⟨b', hinv', hcontent', hserve⟩ :=
      ih htail waiting hok.2 hshort.2 (answer httpCB conn r.request) hinv₂ hcontent₂
    rw [hqueued, List.length_cons, List.drop_succ_cons, List.take_succ_cons]
    refine ⟨b', hinv', hcontent', ?_⟩
    rw [List.map_cons, serve, List.foldlM_cons, hreceive, hmsg]
    exact hserve

/-- **One answer for each segment.** When complete requests arrive several at a time, each segment has
exactly one of them answered, up to the first response that closes the connection: after so many
segments as many requests were taken up, the first ones, and what is sent is their responses up to
that one; the others wait in the input buffer until the client sends more. -/
theorem one_answer_per_segment {batches : List (List RequestText)} (hne : ∀ batch ∈ batches, batch ≠ [])
    (hok : ∀ r ∈ batches.flatten, (procReq .create r.line).2 = true)
    (hshort : ∀ r ∈ batches.flatten, (reply httpCB r.request).Short) (hinv : b.Inv) (hempty : b.content = []) :
    ∃ conn b', serve httpCB (opened, b) (batches.map (List.flatMap RequestText.bytes)) = some (conn, b') ∧
      conn.sent = firstResponses httpCB batches.flatten batches.length ∧
      b'.content = (batches.flatten.drop batches.length).flatMap RequestText.bytes := by
  obtain ⟨b', _, hcontent, hserve⟩ := serve_batches httpCB hne [] hok hshort opened hinv hempty
  exact ⟨_, b', hserve, sent_answers rfl _, hcontent⟩

/-- Three requests in two segments: one waits. -/
theorem one_answer_per_segment_three :
    ∃ b conn b', Buffer.create Buffer.kInit = some b ∧
      serve found (opened, b) [getRequest.bytes ++ getRequest.bytes, getRequest.bytes] = some (conn, b') ∧
      conn.sent = responses found [getRequest.request, getRequest.request] ∧ b'.content = getRequest.bytes := by
  obtain ⟨b, hb, hinv, hempty⟩ := Buffer.create_spec Buffer.kInit
  have hne : ∀ batch ∈ [[getRequest, getRequest], [getRequest]], batch ≠ [] := by simp
  have hok : ∀ r ∈ [[getRequest, getRequest], [getRequest]].flatten, (procReq .create r.line).2 = true := by decide
  obtain ⟨conn, b', hserve, hsent, hcontent⟩ :=
    one_answer_per_segment hne hok (fun r _ => short_found r.request) hinv hempty
  exact ⟨b, conn, b', hb, hserve, hsent, hcontent⟩

/-! ### A client that is answered -/

/-- A request, and how it reaches the server: cut inside its request line, and perhaps at its end. -/
structure Exchange where
  request : HTTPRequest
  segs : List Bytes
  renderable : Renderable request
  cut : segs.flatten = render request
  late : segs.dropLast.flatten.length < (requestLine request).length + 2

namespace Exchange
variable (e : Exchange)

def text : RequestText where
  line := requestLine e.request
  headers := e.request.headers.entries.map headerLine
  isLine := isLine_requestLine e.renderable
  isHeader := by
    intro line hline
    obtain ⟨header, hheader, rfl⟩ := List.mem_map.mp hline
    exact isHeader_headerLine (e.renderable.headers header hheader)

theorem accepted : (procReq .create e.text.line).2 = true := by
  have hline : procReq .create e.text.line = _ := procReq_requestLine e.renderable
  rw [hline]

/-- The server takes it for what it is. -/
theorem request_text : e.text.request = e.request := by
  have hline : procReq .create e.text.line = _ := procReq_requestLine e.renderable
  have hheaders := addHeaders_map e.request.headers.entries e.renderable.headers {e.request with headers := .empty}
  rw [OrdMap.foldl_insert_entries] at hheaders
  rw [RequestText.request, hline]
  exact hheaders

end Exchange

theorem serve_exchanges (conn : HTTPConn) {es : List Exchange} (hshort : ∀ e ∈ es, (reply httpCB e.request).Short)
    (hinv : b.Inv) (hempty : b.content = []) :
    ∃ b', b'.Inv ∧ b'.content = [] ∧
      serve httpCB (conn, b) (es.flatMap Exchange.segs) = some (answers httpCB conn (es.map Exchange.request), b') := by
  induction es generalizing conn b with
  | nil => exact ⟨b, hinv, hempty, rfl⟩
  | cons e es ih =>
    obtain ⟨hhead, htail⟩ := List.forall_mem_cons.mp hshort
    obtain ⟨b₁, hinv₁, hempty₁, hfirst⟩ := serve_late_left httpCB conn hinv hempty e.accepted e.cut e.late
    rw [e.request_text, onReq_short httpCB conn hhead, Option.map_some] at hfirst
    obtain ⟨b', hinv', hempty', hserve⟩ := ih (answer httpCB conn e.request) htail hinv₁ hempty₁
    refine ⟨b', hinv', hempty', ?_⟩
    rw [List.flatMap_cons, serve_append, hfirst]
    exact hserve

theorem upToClose_eq_self {resps : List HTTPResponse} (h : ∀ resp ∈ resps, resp.close = false) :
    upToClose resps = resps := by
  induction resps with
  | nil => rfl
  | cons resp resps ih =>
    obtain ⟨hhead, htail⟩ := List.forall_mem_cons.mp h
    rw [upToClose, hhead, if_neg Bool.false_ne_true, ih htail]

theorem sent_exchanges {es : List Exchange} (hframed : ∀ e ∈ es, HTTPResponse.Framed (reply httpCB e.request)) :
    (answers httpCB opened (es.map Exchange.request)).sent = es.flatMap fun e => (reply httpCB e.request).text := by
  have hsent : (answers httpCB opened (es.map Exchange.request)).sent = _ := sent_answers rfl _
  have hopen : ∀ resp ∈ (es.map Exchange.request).map (reply httpCB), resp.close = false := by
    intro resp hresp
    rw [List.map_map] at hresp
    obtain ⟨e, he, rfl⟩ := List.mem_map.mp hresp
    exact (hframed e he).keepAlive
  rw [hsent, responses, upToClose_eq_self hopen, List.flatMap_map, List.flatMap_map]
  rfl

/-- The client reads one response for each. -/
theorem readResponses_exchanges {es : List Exchange}
    (hframed : ∀ e ∈ es, HTTPResponse.Framed (reply httpCB e.request)) :
    HTTPResponse.readResponses ((es.flatMap fun e => (reply httpCB e.request).text).length + 1)
      (es.flatMap fun e => (reply httpCB e.request).text) = some (es.map fun e => (reply httpCB e.request).message) := by
  have hresps : ∀ resp ∈ es.map (fun e => reply httpCB e.request), HTTPResponse.Framed resp := by
    intro resp hresp
    obtain ⟨e, he, rfl⟩ := List.mem_map.mp hresp
    exact hframed e he
  have hread := HTTPResponse.readResponses_texts hresps (Nat.lt_succ_self _)
  rw [List.flatMap_map, List.map_map] at hread
  exact hread

end Chtho.Net.HTTPServer
