import Chtho.Net.Http.OverTcp
import Chtho.Net.Http.Session

/-! What a client gets over TCP.

`OverTcp` says that the server passes on over TCP what it answers on the connection it was written
for, and `Session` says what that is for a client that renders its requests. So the bytes the
kernel was handed, whatever it took at a time, are those of the responses. -/
namespace Chtho.Net.HTTPServer.OverTcp
open Lib TcpConnection HTTPContext

variable {httpCB : HTTPCB} {obs : List Event} {c c₀ : TcpConnection} {as : List Action} {input : Buffer}

theorem established_inputBuf {fd : Nat} (h : established fd = some c) : c.inputBuf.Inv ∧ c.inputBuf.content = [] := by
  obtain ⟨b, hb, hinv, hnil⟩ := Buffer.create_spec Buffer.kInit
  simp only [established, TcpConnection.create, hb, connEstablished, Option.bind_eq_bind, Option.bind_some, assert_bind,
    if_true, Option.some.injEq] at h
  subst h
  exact ⟨hinv, hnil⟩

/-- If nothing is dropped, the answers go to the kernel or wait for it. -/
theorem Sound.delivered (h : Sound httpCB input obs c) (hkept : kept obs = sent obs) :
    ∃ conn b, serve httpCB (opened, input) (segments obs) = some (conn, b) ∧ b.content = c.inputBuf.content ∧
      handedBytes obs ++ c.outputBuf.content = conn.sent := by
  obtain ⟨conn, b, hserved, h⟩ := h
  refine ⟨conn, b, hserved.serve, hserved.same, ?_⟩
  rcases h with hrel | hdown
  · rw [hrel.stream, hkept, hrel.sent]
  · rw [hdown.stream, hkept, hdown.sent]

/-- **From request to response.** In every run in which `readv` brings the requests of a client, each
as it is rendered and in segments of its own that cut it in its request line only, the callback
keeps the connection open with responses whose parts are short, and no answer is dropped: what the kernel was handed and what waits in
the output buffer are together the responses to just these requests, and nothing is left in the
input buffer. When nothing waits, the client reads from what the kernel was handed, in order, the
status, the headers and the body that the callback gave for each. -/
theorem exchanges_delivered {fd : Nat} (h₀ : established fd = some c₀) (h : (machine httpCB).Run c₀ as obs c)
    {es : List Exchange} (hsegs : segments obs = es.flatMap Exchange.segs)
    (hframed : ∀ e ∈ es, HTTPResponse.Framed (reply httpCB e.request))
    (hshort : ∀ e ∈ es, (reply httpCB e.request).Short) (hkept : kept obs = sent obs) :
    handedBytes obs ++ c.outputBuf.content = es.flatMap (fun e => (reply httpCB e.request).text) ∧
      c.inputBuf.content = [] ∧
      (c.outputBuf.content = [] →
        HTTPResponse.readResponses ((handedBytes obs).length + 1) (handedBytes obs) =
          some (es.map fun e => (reply httpCB e.request).message)) := by
  obtain ⟨hinv, hempty⟩ := established_inputBuf h₀
  obtain ⟨conn, b, hserve, hsame, hdelivered⟩ := (sound_run h₀ h).delivered hkept
  obtain ⟨b', _, hempty', hexchanges⟩ := serve_exchanges opened hshort hinv hempty
  rw [hsegs, hexchanges] at hserve
  obtain ⟨rfl, rfl⟩ := Prod.mk.inj (Option.some.inj hserve)
  rw [sent_exchanges hframed] at hdelivered
  refine ⟨hdelivered, hsame.symm.trans hempty', fun hwritten => ?_⟩
  rw [hwritten, List.append_nil] at hdelivered
  rw [hdelivered]
  exact readResponses_exchanges hframed

/-- The request of a search, in one segment and in two. -/
def searchWhole : Exchange where
  request := searchRequest
  segs := [render searchRequest]
  renderable := renderable_searchRequest
  cut := List.flatten_singleton
  late := Nat.succ_pos _

def searchCut : Exchange where
  request := searchRequest
  segs := [(render searchRequest).take 20, (render searchRequest).drop 20]
  renderable := renderable_searchRequest
  cut := by decide
  late := by decide

theorem framed_found : HTTPResponse.Framed (reply found searchRequest) := by
  refine ⟨by decide, ⟨by decide, by decide⟩, ?_, ?_, by decide⟩
  all_goals
    intro header hmem
    cases hmem

/-- Two requests, and a first response that `::write` takes in two pieces. -/
def twoSearches : List Action :=
  [.handleRead (.data (render searchRequest)) (.wrote 30), .handleWrite (.wrote 1000),
    .handleRead (.data ((render searchRequest).take 20)) (.wrote 0),
    .handleRead (.data ((render searchRequest).drop 20)) (.wrote 1000)]

theorem exchanges_delivered_twoSearches :
    ∃ c₀ obs c, established 9 = some c₀ ∧ (machine found).Run c₀ twoSearches obs c ∧ c.outputBuf.content = [] ∧
      HTTPResponse.readResponses ((handedBytes obs).length + 1) (handedBytes obs) =
        some [(reply found searchRequest).message, (reply found searchRequest).message] := by
  obtain ⟨c₀, obs, c, h₀, h, hsegs, hkept, hwritten⟩ : ∃ c₀ obs c, established 9 = some c₀ ∧
      (machine found).Run c₀ twoSearches obs c ∧ segments obs = [searchWhole, searchCut].flatMap Exchange.segs ∧
        kept obs = sent obs ∧ c.outputBuf.content = [] := Machine.Run.exists_of_start (by decide +kernel)
  have hframed : ∀ e ∈ [searchWhole, searchCut], HTTPResponse.Framed (reply found e.request) :=
    List.forall_mem_cons.mpr ⟨framed_found, List.forall_mem_singleton.mpr framed_found⟩
  obtain ⟨_, _, hread⟩ := exchanges_delivered h₀ h hsegs hframed (fun e _ => short_found e.request) hkept
  exact ⟨c₀, obs, c, h₀, h, hwritten, hread hwritten⟩

end Chtho.Net.HTTPServer.OverTcp
