import Chtho.Net.Http.Incremental
import Chtho.Net.Http.RoundTrip

/-! The request lines `parse` accepts.

`procReq` looks for two blanks, compares what is before the first with the five methods, and
what is behind the second, by its length, its first seven bytes and its last, with the two
versions. `procReq_iff` says that these are the lines of the grammar and no others: a line is
taken apart at the separators that are found (`procReq_spec`). The lines behind a request line
that is accepted do not touch what it set (`Parses.keeps_request`). -/
namespace Chtho.Net.HTTPContext
open Lib HTTPRequest

/-- The texts of the methods. -/
def methods : List Bytes := [ascii "GET", ascii "POST", ascii "HEAD", ascii "PUT", ascii "DELETE"]

/-- A line of the grammar: a method, a target and the last digit of the version. -/
structure IsRequestLine (line method target : Bytes) (d : UInt8) : Prop where
  line : line = method ++ ascii " " ++ target ++ ascii " HTTP/1." ++ [d]
  method : method ∈ methods
  target : chr ' ' ∉ target
  version : d = chr '0' ∨ d = chr '1'

/-- The version of its last digit. -/
def versionOf (d : UInt8) : Version := if d = chr '1' then .http11 else .http10

/-- The target is kept in two parts, and the second starts at the first question mark. -/
structure Holds (q : HTTPRequest) (method target : Bytes) (d : UInt8) : Prop where
  method : q.method = methodOf method
  target : q.path ++ q.query = target
  path : chr '?' ∉ q.path
  question : ∀ c ∈ q.query.head?, c = chr '?'
  version : q.version = versionOf d

/-! ### The parts of a line -/

theorem methodOf_ne_invalid_iff (m : Bytes) : methodOf m ≠ .invalid ↔ m ∈ methods := by
  unfold methodOf methods
  constructor
  · intro h
    by_contra hmem
    simp only [List.mem_cons, List.not_mem_nil, or_false, not_or] at hmem
    obtain ⟨hget, hpost, hhead, hput, hdelete⟩ := hmem
    simp [hget, hpost, hhead, hput, hdelete] at h
  · intro h
    simp only [List.mem_cons, List.not_mem_nil, or_false] at h
    rcases h with rfl | rfl | rfl | rfl | rfl
    all_goals decide

theorem blank_notMem_methods {m : Bytes} (h : m ∈ methods) : chr ' ' ∉ m := by
  simp only [methods, List.mem_cons, List.not_mem_nil, or_false] at h
  rcases h with rfl | rfl | rfl | rfl | rfl
  all_goals decide

/-- The two versions, and nothing else. -/
theorem procVersion_iff (q : HTTPRequest) (version : Bytes) :
    (procVersion q version).2 = true ↔ ∃ d, (d = chr '0' ∨ d = chr '1') ∧ version = ascii "HTTP/1." ++ [d] := by
  constructor
  · intro h
    unfold procVersion at h
    split at h
    · cases h
    split at h
    · cases h
    case isFalse.isFalse hlen hseven =>
      rw [ne_eq, not_not] at hseven
      have hwhole := List.take_append_drop 7 version
      rw [hseven] at hwhole
      split at h
      · case isTrue hone => exact ⟨chr '1', .inr rfl, by rw [← hwhole, hone]; rfl⟩
      split at h
      · case isTrue hzero => exact ⟨chr '0', .inl rfl, by rw [← hwhole, hzero]; rfl⟩
      · cases h
  · rintro ⟨d, rfl | rfl, rfl⟩
    all_goals rfl

theorem procVersion_request (q : HTTPRequest) {d : UInt8} (h : d = chr '0' ∨ d = chr '1') :
    (procVersion q (ascii "HTTP/1." ++ [d])).1 = {q with version := versionOf d} := by
  rcases h with rfl | rfl
  all_goals rfl

/-- The target is divided, if there was no query before. -/
theorem procTarget_spec (q : HTTPRequest) (target : Bytes) (hquery : q.query = []) :
    ∃ path query, procTarget q target = {q with path := path, query := query} ∧ path ++ query = target ∧
      chr '?' ∉ path ∧ ∀ c ∈ query.head?, c = chr '?' := by
  by_cases hquestion : chr '?' ∈ target
  · obtain ⟨path, query, rfl, hpath⟩ := List.eq_append_cons_of_mem hquestion
    refine ⟨path, chr '?' :: query, ?_, rfl, hpath, by simp⟩
    exact procTarget_append q hpath (by simp) hquery
  · refine ⟨target, [], ?_, List.append_nil _, hquestion, by simp⟩
    have hnone : ∀ c ∈ ([] : Bytes).head?, c = chr '?' := by simp
    have happend := procTarget_append q hquestion hnone hquery
    rwa [List.append_nil] at happend

/-! ### The line -/

/-- A line with two blanks is taken apart at them. -/
theorem procReq_spec (q : HTTPRequest) {method target version : Bytes} (hmethod : chr ' ' ∉ method)
    (htarget : chr ' ' ∉ target) :
    procReq q (method ++ chr ' ' :: (target ++ chr ' ' :: version)) =
      if methodOf method = .invalid then ({q with method := .invalid}, false)
      else procVersion (procTarget {q with method := methodOf method} target) version := by
  obtain ⟨hidx, hne, htake, hdrop⟩ := first_separator hmethod (target ++ chr ' ' :: version)
  obtain ⟨hidx', hne', htake', hdrop'⟩ := first_separator htarget version
  unfold procReq
  simp only [hidx, if_neg hne, htake, hdrop, hidx', if_neg hne', htake', hdrop', setMethod]
  by_cases hinvalid : methodOf method = .invalid
  · simp [hinvalid]
  · simp [hinvalid]

/-- A line that is accepted has two blanks. -/
theorem exists_blanks {q : HTTPRequest} {line : Bytes} (h : (procReq q line).2 = true) :
    ∃ method target version, line = method ++ chr ' ' :: (target ++ chr ' ' :: version) ∧
      chr ' ' ∉ method ∧ chr ' ' ∉ target := by
  by_cases hfirst : chr ' ' ∈ line
  · obtain ⟨method, rest, rfl, hmethod⟩ := List.eq_append_cons_of_mem hfirst
    by_cases hsecond : chr ' ' ∈ rest
    · obtain ⟨target, version, rfl, htarget⟩ := List.eq_append_cons_of_mem hsecond
      exact ⟨method, target, version, rfl, hmethod, htarget⟩
    · obtain ⟨hidx, hne, htake, hdrop⟩ := first_separator hmethod rest
      unfold procReq at h
      simp only [hidx, if_neg hne, htake, hdrop, if_pos (List.idxOf_eq_length_iff.mpr hsecond)] at h
      split at h <;> cases h
  · unfold procReq at h
    rw [if_pos (List.idxOf_eq_length_iff.mpr hfirst)] at h
    cases h

theorem IsRequestLine.eq {line method target : Bytes} {d : UInt8} (h : IsRequestLine line method target d) :
    line = method ++ chr ' ' :: (target ++ chr ' ' :: (ascii "HTTP/1." ++ [d])) := by
  have hblank : ascii " HTTP/1." = chr ' ' :: ascii "HTTP/1." := rfl
  rw [h.line, hblank]
  simp [ascii]

/-- **The grammar of the request line.** -/
theorem procReq_iff (q : HTTPRequest) (line : Bytes) :
    (procReq q line).2 = true ↔ ∃ method target d, IsRequestLine line method target d := by
  constructor
  · intro h
    obtain ⟨method, target, version, rfl, hmethod, htarget⟩ := exists_blanks h
    rw [procReq_spec q hmethod htarget] at h
    split at h
    · cases h
    case isFalse hvalid =>
      obtain ⟨d, hd, rfl⟩ := (procVersion_iff _ _).mp h
      refine ⟨method, target, d, ?_, (methodOf_ne_invalid_iff method).mp hvalid, htarget, hd⟩
      have hblank : ascii " HTTP/1." = chr ' ' :: ascii "HTTP/1." := rfl
      rw [hblank]
      simp [ascii]
  · rintro ⟨method, target, d, h⟩
    rw [h.eq, procReq_spec q (blank_notMem_methods h.method) h.target,
      if_neg ((methodOf_ne_invalid_iff method).mpr h.method)]
    exact (procVersion_iff _ _).mpr ⟨d, h.version, rfl⟩

/-- What is kept of a line that is accepted. -/
theorem procReq_holds {q : HTTPRequest} (hquery : q.query = []) {line method target : Bytes} {d : UInt8}
    (h : IsRequestLine line method target d) : Holds (procReq q line).1 method target d := by
  obtain ⟨path, query, heq, hsplit, hpath, hquestion⟩ :=
    procTarget_spec {q with method := methodOf method} target hquery
  rw [h.eq, procReq_spec q (blank_notMem_methods h.method) h.target,
    if_neg ((methodOf_ne_invalid_iff method).mpr h.method), procVersion_request _ h.version, heq]
  exact ⟨rfl, hsplit, hpath, hquestion, rfl⟩

/-! ### The lines behind it -/

/-- They only add headers, and none of them is rejected. -/
theorem Parses.keeps_request {c c' : HTTPContext} {content rest : Bytes} {ok : Bool} (h : Parses c content ok c' rest)
    (hstate : c.state = .expHeader) :
    ok = true ∧ c'.request = {c.request with headers := c'.request.headers} := by
  induction h with
  | incomplete => exact ⟨rfl, rfl⟩
  | reject hreq | request hreq => simp [hstate] at hreq
  | header _ _ _ _ ih =>
    obtain ⟨hok, hrequest⟩ := ih rfl
    exact ⟨hok, hrequest⟩
  | finish => exact ⟨rfl, rfl⟩

theorem Holds.of_headers {q q' : HTTPRequest} {method target : Bytes} {d : UInt8} (h : Holds q method target d)
    (heq : q' = {q with headers := q'.headers}) : Holds q' method target d := by
  rw [heq]
  exact ⟨h.method, h.target, h.path, h.question, h.version⟩

/-- **The request line is parsed by its grammar.** A fresh context and a buffer that holds a
line and its end: `parse` returns true exactly for a line of the grammar, with its parts in
the request; otherwise the context still waits for it and nothing is retrieved. -/
theorem parse_requestLine {b : Buffer} (hinv : b.Inv) {line rest : Bytes} (hline : IsLine line)
    (hcontent : b.content = line ++ Buffer.crlf ++ rest) :
    ∃ ok c b', create.parse b = some (ok, c, b') ∧
      (ok = true ↔ ∃ method target d, IsRequestLine line method target d) ∧
      (∀ method target d, IsRequestLine line method target d → Holds c.request method target d) ∧
      (ok = false → c.state = .expReq ∧ b' = b) := by
  cases hreq : (procReq HTTPRequest.create line).2 with
  | false =>
    have hnone : ¬ ∃ method target d, IsRequestLine line method target d := by
      rw [← procReq_iff HTTPRequest.create, hreq]
      exact Bool.false_ne_true
    have hloop := parseLoop_reject b.readableBytes (l := ⟨true, true, create, b⟩) rfl hinv hline hcontent hreq
    refine ⟨false, ⟨.expReq, (procReq HTTPRequest.create line).1⟩, b, ?_, ?_, ?_, fun _ => ⟨rfl, rfl⟩⟩
    · rw [parse, hloop]
      rfl
    · exact iff_of_false Bool.false_ne_true hnone
    · intro method target d h
      exact absurd ⟨method, target, d, h⟩ hnone
  | true =>
    obtain ⟨ok, c, rest', hnext⟩ :=
      exists_parses (c := ⟨.expHeader, (procReq HTTPRequest.create line).1⟩) (.inr rfl) rest
    obtain ⟨hok, hrequest⟩ := hnext.keeps_request rfl
    have hparses : Parses create (line ++ Buffer.crlf ++ rest) ok c rest' := .request rfl hline hreq hnext
    obtain ⟨b', hparse, _, _⟩ := hparses.parse hinv hcontent
    refine ⟨ok, c, b', hparse, ?_, ?_, ?_⟩
    · exact iff_of_true hok ((procReq_iff _ _).mp hreq)
    · intro method target d h
      exact (procReq_holds rfl h).of_headers hrequest
    · intro hfalse
      rw [hok] at hfalse
      cases hfalse

/-- An empty target, and the version with the wrong case. -/
theorem parse_requestLine_samples :
    (∃ b c b', b.content = ascii "PUT  HTTP/1.0\r\n" ∧ create.parse b = some (true, c, b') ∧
      Holds c.request (ascii "PUT") [] (chr '0')) ∧
    (∃ b c, b.content = ascii "PUT  http/1.0\r\n" ∧ create.parse b = some (false, c, b)) := by
  constructor
  · obtain ⟨b, hinv, hcontent⟩ := Buffer.exists_content (ascii "PUT  HTTP/1.0\r\n")
    have hlegal : IsRequestLine (ascii "PUT  HTTP/1.0") (ascii "PUT") [] (chr '0') :=
      ⟨by decide, by decide, by decide, .inl rfl⟩
    have hline : b.content = ascii "PUT  HTTP/1.0" ++ Buffer.crlf ++ [] := hcontent.trans (by decide)
    obtain ⟨ok, c, b', hparse, hok, hholds, _⟩ := parse_requestLine hinv (by decide) hline
    obtain rfl := hok.mpr ⟨_, _, _, hlegal⟩
    exact ⟨b, c, b', hcontent, hparse, hholds _ _ _ hlegal⟩
  · obtain ⟨b, hinv, hcontent⟩ := Buffer.exists_content (ascii "PUT  http/1.0\r\n")
    have hline : b.content = ascii "PUT  http/1.0" ++ Buffer.crlf ++ [] := hcontent.trans (by decide)
    obtain ⟨ok, c, b', hparse, hok, _, hreject⟩ := parse_requestLine hinv (by decide) hline
    have hfalse : ok = false := by
      rw [← Bool.not_eq_true, hok, ← procReq_iff HTTPRequest.create]
      decide
    obtain ⟨_, rfl⟩ := hreject hfalse
    exact ⟨b', c, hcontent, hfalse ▸ hparse⟩

end Chtho.Net.HTTPContext
