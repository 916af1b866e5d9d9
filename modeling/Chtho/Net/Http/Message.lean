import Mathlib.Data.List.DropRight
import Mathlib.Data.List.Lex
import Chtho.Lib.OrdMap
import Chtho.Net.StringPiece

/-! `HTTPRequest` and `HTTPResponse`.

Of a request the receive time is left out: it is set and never read. Ranges of
characters are lists of bytes, and both classes keep their headers in a `std::map`. -/
namespace Chtho.Net
open Lib

/-- `isspace` in the C locale. -/
def isspace (c : UInt8) : Bool := c = 32 || (9 ≤ c && c ≤ 13)

namespace HTTPRequest

inductive Method where
  | invalid
  | get
  | post
  | head
  | put
  | delete
deriving DecidableEq, Repr

inductive Version where
  | unknown
  | http10
  | http11
deriving DecidableEq, Repr

end HTTPRequest

structure HTTPRequest where
  method : HTTPRequest.Method
  version : HTTPRequest.Version
  path : Bytes
  query : Bytes
  headers : OrdMap Bytes Bytes

namespace HTTPRequest

def create : HTTPRequest := ⟨.invalid, .unknown, [], [], .empty⟩

def methodOf (m : Bytes) : Method :=
  if m = ascii "GET" then .get
  else if m = ascii "POST" then .post
  else if m = ascii "HEAD" then .head
  else if m = ascii "PUT" then .put
  else if m = ascii "DELETE" then .delete
  else .invalid

def setMethod (q : HTTPRequest) (m : Bytes) : HTTPRequest × Bool :=
  ({q with method := methodOf m}, methodOf m ≠ .invalid)

/-- The value of a header from behind the colon on: blanks around it are dropped. -/
def headerValue (val : Bytes) : Bytes := (val.dropWhile isspace).rdropWhile isspace

/-- `addHeader` of a line with the position of its colon. -/
def addHeader (q : HTTPRequest) (line : Bytes) (colon : Nat) : HTTPRequest :=
  {q with headers := q.headers.insert (line.take colon) (headerValue (line.drop (colon + 1)))}

/-- A missing header is an empty one. -/
def getHeader (q : HTTPRequest) (key : Bytes) : Bytes := (q.headers.find? key).getD []

end HTTPRequest

inductive HTTPStatus where
  | unknown
  | ok200
  | movedPermanently301
  | badRequest400
  | notFound404
deriving DecidableEq, Repr

def HTTPStatus.code : HTTPStatus → Nat
  | .unknown => 0
  | .ok200 => 200
  | .movedPermanently301 => 301
  | .badRequest400 => 400
  | .notFound404 => 404

structure HTTPResponse where
  status : HTTPStatus
  close : Bool
  statusMsg : Bytes
  headers : OrdMap Bytes Bytes
  body : Bytes

namespace HTTPResponse

def create (close : Bool) : HTTPResponse := ⟨.unknown, close, [], .empty, []⟩

/-- The text `snprintf` leaves in the array `buf` of 32 bytes: the last is for its NUL byte. -/
def snprintf (text : Bytes) : Bytes := text.take (32 - 1)

/-- What `appendToBuf` appends, piece by piece. -/
def pieces (r : HTTPResponse) : List Bytes :=
  [snprintf (ascii "HTTP/1.1 " ++ decimal r.status.code ++ ascii " "), r.statusMsg, ascii "\r\n"] ++
    (if r.close then [ascii "Connection: close\r\n"]
      else [snprintf (ascii "Content-Length: " ++ decimal r.body.length ++ ascii "\r\n"),
        ascii "Connection: Keep-Alive\r\n"]) ++
    r.headers.entries.flatMap (fun header => [header.1, ascii ": ", header.2, ascii "\r\n"]) ++
    [ascii "\r\n", r.body]

def appendToBuf (r : HTTPResponse) (out : Buffer) : Option Buffer := r.pieces.foldlM Buffer.appendString out

/-- The whole text of a response. -/
def text (r : HTTPResponse) : Bytes := r.pieces.flatten

/-- What reaches the buffer of it. -/
def written (r : HTTPResponse) : Option Bytes := StringPiece.concat r.pieces

/-- The parts that were set are no longer than an `int` can say. -/
structure Short (r : HTTPResponse) : Prop where
  statusMsg : r.statusMsg.length < 2 ^ 31
  headers : ∀ header ∈ r.headers.entries, header.1.length < 2 ^ 31 ∧ header.2.length < 2 ^ 31
  body : r.body.length < 2 ^ 31

theorem length_snprintf_lt (text : Bytes) : (snprintf text).length < 2 ^ 31 := by
  rw [snprintf, List.length_take]
  omega

theorem short_iff (r : HTTPResponse) : r.Short ↔ ∀ s ∈ r.pieces, s.length < 2 ^ 31 := by
  have hclose : ∀ s ∈ (if r.close then [ascii "Connection: close\r\n"]
      else [snprintf (ascii "Content-Length: " ++ decimal r.body.length ++ ascii "\r\n"),
        ascii "Connection: Keep-Alive\r\n"]), s.length < 2 ^ 31 := by
    split
    · exact List.forall_mem_singleton.mpr (by decide)
    · exact List.forall_mem_cons.mpr ⟨length_snprintf_lt _, List.forall_mem_singleton.mpr (by decide)⟩
  constructor
  · intro h s hs
    simp only [pieces, List.mem_append, List.mem_flatMap, List.mem_cons, List.not_mem_nil, or_false] at hs
    rcases hs with (((rfl | rfl | rfl) | hs) | ⟨header, hheader, hs⟩) | rfl | rfl
    · exact length_snprintf_lt _
    · exact h.statusMsg
    · decide
    · exact hclose s hs
    · obtain ⟨hname, hvalue⟩ := h.headers header hheader
      rcases hs with rfl | rfl | rfl | rfl
      · exact hname
      · decide
      · exact hvalue
      · decide
    · decide
    · exact h.body
  · intro h
    refine ⟨h _ (by simp [pieces]), fun header hheader => ⟨h _ ?_, h _ ?_⟩, h _ (by simp [pieces])⟩
    all_goals
      simp only [pieces, List.mem_append, List.mem_flatMap]
      exact .inl (.inr ⟨header, hheader, by simp⟩)

/-- A response is written whole if and only if its parts are short. -/
theorem written_eq_text_iff (r : HTTPResponse) : r.written = some r.text ↔ r.Short :=
  StringPiece.concat_eq_flatten_iff.trans (short_iff r).symm

theorem Short.written_eq {r : HTTPResponse} (h : r.Short) : r.written = some r.text := (written_eq_text_iff r).mpr h

theorem appendToBuf_spec {b : Buffer} (h : b.Inv) {r : HTTPResponse} {text : Bytes} (hwritten : r.written = some text) :
    ∃ b', r.appendToBuf b = some b' ∧ b'.Inv ∧ b'.content = b.content ++ text :=
  Buffer.appendStrings_spec h hwritten

theorem appendToBuf_eq_none (b : Buffer) {r : HTTPResponse} (hwritten : r.written = none) : r.appendToBuf b = none :=
  Buffer.appendStrings_eq_none b hwritten

end HTTPResponse
end Chtho.Net
