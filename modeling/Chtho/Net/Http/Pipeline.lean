import Chtho.Net.Http.Server

/-! Several requests at once.

One read can bring any number of requests. `onMsg` parses one request and answers it;
what is behind it stays in the input buffer, and nothing looks at it before the next bytes
arrive. So of requests that arrive together, only the first is answered. -/
namespace Chtho.Net.HTTPServer
open Lib HTTPContext

/-- A request that is accepted and leaves the connection open. -/
structure KeepAlive (r : RequestText) : Prop where
  ok : (procReq .create r.line).2 = true
  version : r.request.version = .http11
  keep : wantsClose r.request = false

/-- What is sent in answer to a request. -/
def response (httpCB : HTTPCB) (r : RequestText) : Bytes := (reply httpCB r.request).text

/-- A complete request is at the front of the content of a buffer. -/
def HasRequest (content : Bytes) : Prop :=
  ∃ r : RequestText, (procReq .create r.line).2 = true ∧ r.bytes <+: content

/-- Every request is answered, in order, and none is left. -/
def AllAnswered (httpCB : HTTPCB) (conn : HTTPConn) (b : Buffer) (rs : List RequestText) : Prop :=
  ∃ conn' b', onMsg httpCB conn b = some (conn', b') ∧ conn'.sent = conn.sent ++ rs.flatMap (response httpCB) ∧
    ¬ HasRequest b'.content

/-- The callback does not close a connection that was to be kept. -/
def KeepsOpen (httpCB : HTTPCB) : Prop := ∀ req resp, resp.close = false → (httpCB req resp).close = false

variable {httpCB : HTTPCB} {conn : HTTPConn} {b : Buffer}

theorem not_hasRequest_nil : ¬ HasRequest [] := by
  rintro ⟨r, _, hpre⟩
  have hnil := List.prefix_nil.mp hpre
  simp [RequestText.bytes, Buffer.crlf] at hnil

theorem hasRequest_of_keepAlive {r : RequestText} (h : KeepAlive r) (rest : Bytes) :
    HasRequest (r.bytes ++ rest) := ⟨r, h.ok, List.prefix_append ..⟩

/-- The answer to a request on an open connection. -/
theorem answerWith_keepAlive (hcb : KeepsOpen httpCB) (hconn : conn.state = .connected) {r : RequestText}
    (h : KeepAlive r) (text : Bytes) :
    answerWith httpCB conn r.request text = {conn with sent := conn.sent ++ text} := by
  have hclose : (reply httpCB r.request).close = false := hcb _ _ h.keep
  rw [answerWith, hclose, if_neg Bool.false_ne_true, HTTPConn.send, if_pos hconn]

/-- What a call makes of a request in front, and of what is behind it. -/
theorem onMsg_keepAlive (hcb : KeepsOpen httpCB) (hconn : conn.state = .connected) (h : b.Inv) {r : RequestText}
    (hr : KeepAlive r) {rest : Bytes} (hcontent : b.content = r.bytes ++ rest) :
    ∃ b', b'.content = rest ∧ onMsg httpCB conn b = (reply httpCB r.request).written.map fun text =>
      ({conn with sent := conn.sent ++ text}, b') := by
  obtain ⟨b', _, hrest, hmsg⟩ := onMsg_front httpCB conn r h hcontent hr.ok
  refine ⟨b', hrest, ?_⟩
  rw [hmsg, onReq_eq]
  cases (reply httpCB r.request).written with
  | none => rfl
  | some text => exact congrArg (fun conn => some (conn, b')) (answerWith_keepAlive hcb hconn hr text)

/-- One request is answered if its response is written whole. -/
theorem allAnswered_singleton_iff (hcb : KeepsOpen httpCB) (hconn : conn.state = .connected) (h : b.Inv)
    {r : RequestText} (hr : KeepAlive r) (hcontent : b.content = r.bytes) :
    AllAnswered httpCB conn b [r] ↔ (reply httpCB r.request).Short := by
  obtain ⟨b', hrest, hmsg⟩ := onMsg_keepAlive hcb hconn h hr (hcontent.trans (List.append_nil _).symm)
  rw [← HTTPResponse.written_eq_text_iff]
  constructor
  · rintro ⟨conn', b'', hmsg', hsent, -⟩
    obtain ⟨text, hwritten, heq⟩ := Option.map_eq_some_iff.mp (hmsg.symm.trans hmsg')
    obtain ⟨rfl, rfl⟩ := Prod.mk.inj heq
    rw [List.flatMap_singleton] at hsent
    rw [hwritten, List.append_cancel_left hsent]
    rfl
  · intro hwritten
    rw [hwritten] at hmsg
    refine ⟨_, b', hmsg, ?_, ?_⟩
    · rw [List.flatMap_singleton]
      rfl
    · rw [hrest]
      exact not_hasRequest_nil

/-- One call leaves the second request where it is. -/
theorem not_allAnswered (h : b.Inv) {r r' : RequestText} (hr : KeepAlive r) (hr' : KeepAlive r') {rest : Bytes}
    (hcontent : b.content = r.bytes ++ (r'.bytes ++ rest)) (rs : List RequestText) :
    ¬ AllAnswered httpCB conn b rs := by
  obtain ⟨b', _, hrest, hmsg⟩ := onMsg_front httpCB conn r h hcontent hr.ok
  rintro ⟨conn'', b'', hmsg'', _, hnone⟩
  obtain ⟨_, _, heq⟩ := Option.map_eq_some_iff.mp (hmsg.symm.trans hmsg'')
  obtain ⟨_, rfl⟩ := Prod.mk.inj heq
  rw [hrest] at hnone
  exact hnone (hasRequest_of_keepAlive hr' rest)

/-- **Pipelined requests are answered if there is at most one.** For requests that keep
the connection open, alone in the input buffer, one call of `onMsg` answers all of them
and leaves none exactly if there is no second one, and the response to the first can be
written. -/
theorem pipelined_answered_iff (hcb : KeepsOpen httpCB) (hconn : conn.state = .connected) (h : b.Inv)
    (rs : List RequestText) (hrs : ∀ r ∈ rs, KeepAlive r) (hcontent : b.content = rs.flatMap RequestText.bytes) :
    AllAnswered httpCB conn b rs ↔ rs.length ≤ 1 ∧ ∀ r ∈ rs, (reply httpCB r.request).Short := by
  match rs with
  | [] =>
    have hline : IsLine b.content := by
      rw [hcontent]
      decide
    refine iff_of_true ⟨conn, b, onMsg_incomplete httpCB conn hline, ?_, ?_⟩ ⟨Nat.zero_le _, nofun⟩
    · exact (List.append_nil _).symm
    · rw [hcontent]
      exact not_hasRequest_nil
  | [r] =>
    rw [List.flatMap_singleton] at hcontent
    rw [allAnswered_singleton_iff hcb hconn h (hrs r List.mem_cons_self) hcontent, List.forall_mem_singleton]
    exact (and_iff_right (Nat.le_refl _)).symm
  | r :: r' :: rs =>
    refine iff_of_false ?_ fun hcond => absurd hcond.1 (by simp)
    exact not_allAnswered h (hrs r (by simp)) (hrs r' (by simp)) hcontent _

/-- A callback that finds everything. -/
def found : HTTPCB := fun _ resp => {resp with status := .ok200, statusMsg := ascii "OK"}

theorem keepsOpen_found : KeepsOpen found := fun _ _ hclose => hclose

theorem short_found (req : HTTPRequest) : (reply found req).Short :=
  ⟨show (ascii "OK").length < 2 ^ 31 by decide, fun header hmem => (by cases hmem),
    show ([] : Bytes).length < 2 ^ 31 by decide⟩

theorem keepAlive_getRequest : KeepAlive getRequest := ⟨by decide, by decide, by decide⟩

theorem pipelined_answered_iff_single :
    ∃ b, b.content = getRequest.bytes ∧ AllAnswered found opened b [getRequest] := by
  obtain ⟨b, hinv, hcontent⟩ := Buffer.exists_content getRequest.bytes
  have hsingle : b.content = [getRequest].flatMap RequestText.bytes :=
    hcontent.trans (List.flatMap_singleton ..).symm
  have hopened : opened.state = .connected := rfl
  have hiff := pipelined_answered_iff keepsOpen_found hopened hinv [getRequest]
    (List.forall_mem_singleton.mpr keepAlive_getRequest) hsingle
  exact ⟨b, hcontent, hiff.mpr ⟨Nat.le_refl _, List.forall_mem_singleton.mpr (short_found _)⟩⟩

/-- Of two requests, the second stays in the buffer. -/
theorem second_request_left :
    ∃ b conn' b', b.content = getRequest.bytes ++ getRequest.bytes ∧
      onMsg found opened b = some (conn', b') ∧ conn'.sent = response found getRequest ∧
      b'.content = getRequest.bytes ∧ ¬ AllAnswered found opened b [getRequest, getRequest] := by
  obtain ⟨b, hinv, hcontent⟩ := Buffer.exists_content (getRequest.bytes ++ getRequest.bytes)
  have hopened : opened.state = .connected := rfl
  obtain ⟨b', hrest, hmsg⟩ := onMsg_keepAlive keepsOpen_found hopened hinv keepAlive_getRequest hcontent
  rw [(short_found _).written_eq, Option.map_some] at hmsg
  refine ⟨b, _, b', hcontent, hmsg, rfl, hrest, ?_⟩
  rw [← List.append_nil getRequest.bytes, List.append_assoc, List.nil_append] at hcontent
  exact not_allAnswered hinv keepAlive_getRequest keepAlive_getRequest hcontent _

end Chtho.Net.HTTPServer
