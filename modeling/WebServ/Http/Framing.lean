import WebServ.Http.Head
import WebServ.Http.SizeLine

/-! # Message framing

A head announces a body by its length or by the chunked coding. Whatever the body
holds and whatever follows it, the parser takes exactly the announced bytes, and
refuses them when they are more than the limit.
-/
namespace WebServ.HTTPRequest
open Search Chunked

/-- A chunked body as senders write it: size lines, non-empty blocks, trailers. -/
structure WellFormed (body : Body) : Prop where
  chunks : ∀ k ∈ body.chunks, SizeText k.data.length k.line ∧ k.data ≠ []
  last : SizeText 0 body.last
  trailers : ∀ t ∈ body.trailers, t ≠ [] ∧ IsLine t

/-- The head `r` announces the body `b`, and the bytes that carry it. -/
inductive Announces (r : HTTPRequest) (b : Bytes) : Bytes → Prop
  | length : r.announcesChunked = false → r.getHeaderValue (ascii "Content-Length") ≠ [] →
      (∀ c ∈ r.getHeaderValue (ascii "Content-Length"), (decDigit c).isSome) →
      decValue (r.getHeaderValue (ascii "Content-Length")) = b.length → b.length < 2 ^ 63 →
      Announces r b b
  | chunked (body : Body) : r.announcesChunked = true → WellFormed body → body.content = b →
      Announces r b body.encode

theorem WellFormed.valid {body : Body} (h : WellFormed body) : body.Valid chunkSizeOf where
  chunks k hk := ⟨(h.chunks k hk).1.isLine, (h.chunks k hk).1.chunkSizeOf_eq, (h.chunks k hk).2⟩
  last_line := h.last.isLine
  last_size := h.last.chunkSizeOf_eq
  trailers := h.trailers

theorem chunkData_length_le_of_append {p ks : List Chunk} (h : p <+: ks) :
    (chunkData p).length ≤ (chunkData ks).length := by
  obtain ⟨s, rfl⟩ := h
  simp

/-- Where a parse ends is decided by any stuck state it reaches. -/
theorem parse_of_complete {r r' : HTTPRequest} {q : Bytes} (h : machine.Steps (r.push q) r')
    (hs : r'.state = .parssingComplete) : r.parse q = (true, r') := by
  have hrun : machine.feed r q = r' := h.run_eq_of_stuck (step_eq_none_of_terminal (Or.inl hs))
  simp [parse_eq_feed, hrun, hs]

theorem parse_of_error {r r' : HTTPRequest} {q : Bytes} (h : machine.Steps (r.push q) r')
    (hs : r'.state = .parssingError) : r.parse q = (false, r') := by
  have hrun : machine.feed r q = r' := h.run_eq_of_stuck (step_eq_none_of_terminal (Or.inr hs))
  simp [parse_eq_feed, hrun, hs]

/-- The parser once a head that announces a length was read. -/
theorem endHeaders_length {r : HTTPRequest} (hte : r.announcesChunked = false)
    (hv : r.getHeaderValue (ascii "Content-Length") ≠ []) :
    r.endHeaders = { r with isChunked := false, state := .parssingBody } := by
  rw [endHeaders, if_pos (hasBody_of_contentLength hv), hte]

theorem endHeaders_chunked {r : HTTPRequest} (hte : r.announcesChunked = true) :
    r.endHeaders = { r with isChunked := true, state := .parssingBody } := by
  rw [endHeaders, if_pos (hasBody_of_announcesChunked hte), hte]

section
variable {limit : ℕ} {head : Bytes} {r : HTTPRequest} (h : HeadAccepted limit head r)
include h

/-- As much of a counted body within the limit is taken as there is, and the rest stays. -/
theorem HeadAccepted.feed_length (sent : Bytes) (hte : r.announcesChunked = false)
    (hv : r.getHeaderValue (ascii "Content-Length") ≠ []) (hfit : limit = 0 ∨ r.contentLength ≤ limit) :
    machine.feed (fresh limit) (head ++ sent) = { r with
      isChunked := false
      state := if r.contentLength ≤ sent.length then .parssingComplete else .parssingBody
      body := sent.take r.contentLength
      buffer := sent.drop r.contentLength } := by
  have hmax : r.maxBodySize = limit := h.sameBody.maxBodySize
  have hbody : r.body = [] := h.sameBody.body
  have hsteps := h.steps sent
  rw [endHeaders_length hte hv] at hsteps
  have hno : ¬ (r.maxBodySize > 0 ∧ r.contentLength > r.maxBodySize) := by
    rw [hmax]
    omega
  have htake := length_steps
    (r := push { r with isChunked := false, state := .parssingBody } sent) rfl rfl hv hno
    (sent.take r.contentLength) (sent.drop r.contentLength) (by simp [h.whole]) (by
      change r.body.length + _ ≤ r.contentLength
      rw [hbody, List.length_take, List.length_nil]
      omega)
  have hall := hsteps.trans htake
  have hfeed {r' : HTTPRequest} (hr : machine.Steps ((fresh limit).push (head ++ sent)) r') (hstuck : r'.step = none) :
      machine.feed (fresh limit) (head ++ sent) = r' := hr.run_eq_of_stuck hstuck
  have hfront : r.body ++ sent.take r.contentLength = sent.take r.contentLength := by rw [hbody, List.nil_append]
  by_cases hlen : r.contentLength ≤ sent.length
  · have hdone := step_length_done
      (r := { push { r with isChunked := false, state := .parssingBody } sent with
        body := r.body ++ sent.take r.contentLength, buffer := sent.drop r.contentLength }) rfl rfl hv hno (by
        change r.contentLength ≤ (r.body ++ sent.take r.contentLength).length
        rw [hfront, List.length_take]
        omega)
    rw [hfeed (hall.trans (Machine.Steps.single hdone)) (step_eq_none_of_terminal (Or.inl rfl)), if_pos hlen]
    simp only [push, hfront]
  · have hwait := step_length_wait
      (r := { push { r with isChunked := false, state := .parssingBody } sent with
        body := r.body ++ sent.take r.contentLength, buffer := sent.drop r.contentLength }) rfl rfl hv hno (by
        change ¬ r.contentLength ≤ (r.body ++ sent.take r.contentLength).length
        rw [hfront, List.length_take]
        omega) (List.drop_eq_nil_of_le (by omega))
    rw [hfeed hall hwait, if_neg hlen]
    simp only [push, hfront]

/-- A counted body within the limit is taken as it is. -/
theorem HeadAccepted.length_accepted {b : Bytes} (rest : Bytes) (hte : r.announcesChunked = false)
    (hv : r.getHeaderValue (ascii "Content-Length") ≠ []) (hlen : r.contentLength = b.length)
    (hfit : limit = 0 ∨ b.length ≤ limit) :
    ∃ r', (fresh limit).parse (head ++ b ++ rest) = (true, r') ∧ r'.body = b ∧ r'.buffer = rest := by
  have hwhole : r.contentLength ≤ (b ++ rest).length := by
    rw [hlen, List.length_append]
    omega
  have hfeed := h.feed_length (b ++ rest) hte hv (by omega)
  rw [if_pos hwhole, hlen, List.take_left, List.drop_left] at hfeed
  refine ⟨machine.feed (fresh limit) (head ++ (b ++ rest)), ?_, congrArg body hfeed, congrArg buffer hfeed⟩
  rw [List.append_assoc, parse_eq_feed, hfeed]
  rfl

/-- A length above the limit leaves everything behind the head in the buffer. -/
theorem HeadAccepted.feed_over (rest : Bytes) (hte : r.announcesChunked = false)
    (hv : r.getHeaderValue (ascii "Content-Length") ≠ []) (hlim : 0 < limit) (hlen : limit < r.contentLength) :
    machine.feed (fresh limit) (head ++ rest) =
      fail { r.endHeaders with buffer := rest, bodyTooLarge := true } := by
  have hmax : r.maxBodySize = limit := h.sameBody.maxBodySize
  have hsteps := h.steps rest
  have hbuf : r.buffer ++ rest = rest := by rw [h.whole, List.nil_append]
  rw [endHeaders_length hte hv] at hsteps ⊢
  have hfail := step_length_over
    (r := push { r with isChunked := false, state := .parssingBody } rest) rfl rfl hv (by
      change r.maxBodySize > 0 ∧ r.contentLength > r.maxBodySize
      rw [hmax]
      exact ⟨hlim, hlen⟩)
  have hstop {s : HTTPRequest} (hs : machine.Steps ((fresh limit).push (head ++ rest)) s)
      (herror : s.state = .parssingError) : machine.feed (fresh limit) (head ++ rest) = s :=
    hs.run_eq_of_stuck (step_eq_none_of_terminal (Or.inr herror))
  rw [hstop (hsteps.trans (Machine.Steps.single hfail)) rfl]
  simp only [push, hbuf]

/-- A counted body above the limit is refused before any of it is stored. -/
theorem HeadAccepted.length_refused (rest : Bytes) (hte : r.announcesChunked = false)
    (hv : r.getHeaderValue (ascii "Content-Length") ≠ []) (hlim : 0 < limit)
    (hlen : limit < r.contentLength) :
    ∃ r', (fresh limit).parse (head ++ rest) = (false, r') ∧ r'.isError ∧ r'.isBodyTooLarge := by
  refine ⟨fail { r.endHeaders with buffer := rest, bodyTooLarge := true }, ?_, rfl, rfl⟩
  rw [parse_eq_feed, h.feed_over rest hte hv hlim hlen]
  rfl

/-- After the head the chunk decoder runs from its first phase on an empty body. -/
theorem HeadAccepted.chunk_steps (hte : r.announcesChunked = true) (q : Bytes) {c : Config}
    (hc : (Chunked.machine chunkSizeOf (admits limit)).Steps ⟨.size, 0, [], q, .running⟩ c) :
    machine.Steps ((fresh limit).push (head ++ q)) (r.endHeaders.withChunk c) := by
  have hsame := h.sameBody
  have hmax : r.maxBodySize = limit := hsame.maxBodySize
  have hsteps := h.steps q
  rw [endHeaders_chunked hte] at hsteps ⊢
  have hconf : chunkConfig (push { r with isChunked := true, state := .parssingBody } q) =
      ⟨.size, 0, [], q, .running⟩ := by
    have hcs : r.chunkedState = .chunkSize := hsame.chunkedState
    have hcr : r.chunkRemaining = 0 := hsame.chunkRemaining
    have hb : r.body = [] := hsame.body
    simp [chunkConfig, push, hcs, hcr, hb, h.whole, ChunkedState.phase]
  have hrun := steps_withChunk
    (r := push { r with isChunked := true, state := .parssingBody } q) (c := c) rfl rfl (by
      rw [hconf]
      change (Chunked.machine chunkSizeOf (admits r.maxBodySize)).Steps _ _
      rw [hmax]
      exact hc)
  exact hsteps.trans hrun

end

/-- The parser takes the announced body exactly, or refuses it for its size: blanks,
extensions, trailers and the bytes of the body itself do not disturb the framing. -/
theorem framing_round_trip (limit : ℕ) (head b enc rest : Bytes) (r : HTTPRequest)
    (hhead : HeadAccepted limit head r) (hann : Announces r b enc) :
    ((limit = 0 ∨ b.length ≤ limit) →
      ∃ r', (fresh limit).parse (head ++ enc ++ rest) = (true, r') ∧ r'.body = b ∧ r'.buffer = rest) ∧
    (0 < limit ∧ limit < b.length →
      ∃ r', (fresh limit).parse (head ++ enc ++ rest) = (false, r') ∧ r'.isError ∧ r'.isBodyTooLarge) := by
  cases hann with
  | length hte hv hdigits hval hbound =>
    have hlen : r.contentLength = b.length := by
      rw [contentLength, atol_digits hv hdigits (by omega), hval, toSizeT_natCast (by omega)]
    constructor
    · intro hfit
      exact hhead.length_accepted rest hte hv hlen hfit
    · rintro ⟨hlim, hover⟩
      rw [List.append_assoc]
      exact hhead.length_refused (b ++ rest) hte hv hlim (by omega)
  | chunked body hte hwf hcontent =>
    have hvalid := hwf.valid
    rw [List.append_assoc]
    constructor
    · intro hfit
      have hadmit : ∀ p, p <+: body.chunks → p ≠ [] → admits limit ([] ++ chunkData p) := by
        intro p hp _
        have hle := chunkData_length_le_of_append hp
        have hb : (chunkData body.chunks).length = b.length := by rw [← hcontent]; rfl
        simp only [admits, List.nil_append, decide_eq_true_eq]
        omega
      have hall := hhead.chunk_steps hte _ (body_steps hvalid 0 [] rest hadmit)
      exact ⟨_, parse_of_complete hall rfl, by simpa [withChunk] using hcontent, rfl⟩
    · rintro ⟨hlim, hover⟩
      have hrefuse : ¬ admits limit ([] ++ chunkData body.chunks) = true := by
        have hb : (chunkData body.chunks).length = b.length := by rw [← hcontent]; rfl
        simp only [admits, List.nil_append, decide_eq_true_eq]
        omega
      obtain ⟨c, hc, hs⟩ := chunks_overflow hvalid.chunks (m := 0)
        (body.last ++ crlf ++ (encodeTrailers body.trailers ++ crlf) ++ rest) (by simp [admits]) hrefuse
      have hsplit : body.encode ++ rest = encodeChunks body.chunks ++
          (body.last ++ crlf ++ (encodeTrailers body.trailers ++ crlf) ++ rest) := by
        simp [Body.encode, List.append_assoc]
      rw [hsplit]
      have hall := hhead.chunk_steps hte _ hc
      have herr : (r.endHeaders.withChunk c).state = .parssingError := by
        simp [withChunk, hs, ofStatus]
      refine ⟨_, parse_of_error hall herr, ?_, ?_⟩
      · simp [isError, herr]
      · simp [isBodyTooLarge, withChunk, hs]

/-- A post in two chunks with a limit of four bytes, and the start of the next request. -/
theorem framing_round_trip_post :
    ∃ r', (fresh 4).parse (ascii "POST / H\r\nTransfer-Encoding: Chunked\r\n\r\n" ++
        ascii "2 ;x\r\n\r\n\r\n\t01\r\n0\r\n0\r\nt\r\n\r\n" ++ ascii "GET") = (true, r') ∧
      r'.body = ascii "\r\n0" ∧ r'.buffer = ascii "GET" := by
  have hhead : (parseHead ((fresh 4).push (ascii "POST / H\r\nTransfer-Encoding: Chunked\r\n\r\n"))).any
      (fun r => r.buffer = [] ∧ r.announcesChunked = true) := by decide +kernel
  obtain ⟨r, hr, hprop⟩ := (Option.any_eq_true _ _).mp hhead
  simp only [decide_eq_true_eq] at hprop
  have hwf : WellFormed ⟨[⟨ascii "2 ;x", ascii "\r\n"⟩, ⟨ascii "\t01", ascii "0"⟩], ascii "0", [ascii "t"]⟩ := by
    refine ⟨?_, ?_, by simp only [List.mem_singleton, forall_eq]; decide⟩
    · intro k hk
      simp only [List.mem_cons, List.not_mem_nil, or_false] at hk
      rcases hk with rfl | rfl
      · exact ⟨⟨[], ascii "2", ascii " ", ascii ";x", by decide, by decide +kernel, by decide +kernel, by decide,
          by decide +kernel, by decide, by decide, by decide, Or.inr ⟨ascii "x", by decide⟩⟩, by decide⟩
      · exact ⟨⟨ascii "\t", ascii "01", [], [], by decide, by decide +kernel, by decide +kernel, by decide,
          by decide +kernel, by decide, by decide, by decide, Or.inl rfl⟩, by decide⟩
    · exact ⟨[], ascii "0", [], [], by decide, by decide +kernel, by decide +kernel, by decide,
        by decide +kernel, by decide, by decide, by decide, Or.inl rfl⟩
  exact (framing_round_trip 4 _ _ _ (ascii "GET") r ⟨hr, hprop.1⟩ (.chunked _ hprop.2 hwf rfl)).1
    (Or.inr (by decide))
end WebServ.HTTPRequest
