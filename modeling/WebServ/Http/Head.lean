import WebServ.Http.Incremental

/-! # The head of a message

The request line and the header lines are read from their own bytes: what follows
the empty line is left in the buffer and does not influence how they are read.
-/
namespace WebServ.HTTPRequest
open Search

/-- The header phase of `parse`, when it succeeds. -/
def parseHead (r : HTTPRequest) : Option HTTPRequest :=
  match r.parseRequestLine with
  | (false, _) => none
  | (true, r') =>
    match parseHeaders { r' with state := .parssingHeaders } with
    | (false, _) => none
    | (true, r') => some r'

/-- A fresh request with a body limit. -/
abbrev fresh (limit : ℕ) : HTTPRequest := setMaxBodySize {} limit

/-- `head` is read as a whole by the header phase, which ends in `r`. -/
structure HeadAccepted (limit : ℕ) (head : Bytes) (r : HTTPRequest) : Prop where
  parsed : parseHead ((fresh limit).push head) = some r
  whole : r.buffer = []

/-- The fields that only the body phase changes. -/
structure SameBody (r r' : HTTPRequest) : Prop where
  chunkedState : r'.chunkedState = r.chunkedState
  chunkRemaining : r'.chunkRemaining = r.chunkRemaining
  body : r'.body = r.body
  maxBodySize : r'.maxBodySize = r.maxBodySize
  bodyTooLarge : r'.bodyTooLarge = r.bodyTooLarge

theorem SameBody.refl (r : HTTPRequest) : SameBody r r := ⟨rfl, rfl, rfl, rfl, rfl⟩

theorem SameBody.trans {r s t : HTTPRequest} (h : SameBody r s) (h' : SameBody s t) : SameBody r t :=
  ⟨h'.chunkedState.trans h.chunkedState, h'.chunkRemaining.trans h.chunkRemaining,
    h'.body.trans h.body, h'.maxBodySize.trans h.maxBodySize, h'.bodyTooLarge.trans h.bodyTooLarge⟩

theorem parseRequestLine_sameBody (r : HTTPRequest) : SameBody r r.parseRequestLine.2 := by
  unfold parseRequestLine
  split
  · exact SameBody.refl r
  · dsimp only
    split
    · exact ⟨rfl, rfl, rfl, rfl, rfl⟩
    · split
      · exact ⟨rfl, rfl, rfl, rfl, rfl⟩
      · split <;> exact ⟨rfl, rfl, rfl, rfl, rfl⟩

theorem parseHeaders_sameBody (r : HTTPRequest) : SameBody r r.parseHeaders.2 := by
  fun_induction parseHeaders r with
  | case1 r hcut => exact SameBody.refl r
  | case2 r rest hcut => exact ⟨rfl, rfl, rfl, rfl, rfl⟩
  | case3 r line rest hcut hl hf => exact ⟨rfl, rfl, rfl, rfl, rfl⟩
  | case4 r line rest hcut hl colon hf ih => exact ⟨ih.1, ih.2, ih.3, ih.4, ih.5⟩

/-- The request line takes a front part of the buffer, and any rest may follow it. -/
theorem parseRequestLine_split {r r' : HTTPRequest} (h : r.parseRequestLine = (true, r')) :
    ∃ front, r.buffer = front ++ r'.buffer ∧
      ∀ q, parseRequestLine { r with buffer := front ++ q } = (true, { r' with buffer := q }) := by
  cases hcut : cutLine crlf r.buffer with
  | none => simp [parseRequestLine, hcut] at h
  | some p =>
    obtain ⟨line, rest⟩ := p
    obtain ⟨hbuf, -, -⟩ := parseRequestLine_frame hcut h
    refine ⟨line ++ crlf, by rw [hbuf]; exact cutLine_eq_some hcut, fun q => ?_⟩
    have hline := Chunked.cutLine_crlf q (cutLine_no_eol hcut crlf_ne_nil)
    unfold parseRequestLine at h ⊢
    simp only [hcut] at h
    simp only [hline]
    cases hf : find (ascii " ") line with
    | none => simp [hf] at h
    | some first =>
      simp only [hf] at h ⊢
      cases hs : findFrom (ascii " ") line (first + 1) with
      | none => simp [hs] at h
      | some second =>
        simp only [hs] at h ⊢
        split at h
        · cases h
        · next he =>
          cases h
          simp only [if_neg he]

theorem parseHeaders_split {r r' : HTTPRequest} (h : r.parseHeaders = (true, r')) :
    r'.state = r.state ∧ ∃ front, r.buffer = front ++ r'.buffer ∧
      ∀ q, parseHeaders { r with buffer := front ++ q } = (true, { r' with buffer := q }) := by
  fun_induction parseHeaders r with
  | case1 r hcut => cases h
  | case2 r rest hcut =>
    cases h
    refine ⟨rfl, crlf, by simpa using cutLine_eq_some hcut, fun q => ?_⟩
    have hline := Chunked.cutLine_crlf q (cutLine_no_eol hcut crlf_ne_nil)
    unfold parseHeaders
    simp only [List.nil_append] at hline
    split
    · next he => rw [hline] at he; cases he
    · next he => rw [hline] at he; cases he; simp
  | case3 r line rest hcut hl hf => cases h
  | case4 r line rest hcut hl colon hf ih =>
    obtain ⟨hs, front, hrest, hq⟩ := ih h
    refine ⟨hs, line ++ crlf ++ front, ?_, fun q => ?_⟩
    · rw [cutLine_eq_some hcut, List.append_assoc (line ++ crlf)]
      exact congrArg (line ++ crlf ++ ·) hrest
    · have hline := Chunked.cutLine_crlf (front ++ q) (cutLine_no_eol hcut crlf_ne_nil)
      rw [← List.append_assoc] at hline
      unfold parseHeaders
      split
      · next he => rw [hline] at he; cases he
      · next he =>
        rw [hline] at he
        cases he
        rw [if_neg hl, hf]
        exact hq q

/-- A head is read when its request line is, and its headers behind it. -/
theorem parseHead_eq_some {r r' : HTTPRequest} (h : parseHead r = some r') : ∃ r1, r.parseRequestLine = (true, r1) ∧
    parseHeaders { r1 with state := .parssingHeaders } = (true, r') := by
  unfold parseHead at h
  rcases hline : r.parseRequestLine with ⟨_ | _, r1⟩
  · simp [hline] at h
  simp only [hline] at h
  rcases hhead : parseHeaders { r1 with state := .parssingHeaders } with ⟨_ | _, r2⟩
  · simp [hhead] at h
  simp only [hhead, Option.some.injEq] at h
  subst h
  exact ⟨r1, rfl, hhead⟩

/-- A head that is read ends at a definite byte of the input, whatever follows. -/
theorem parseHead_split {r r' : HTTPRequest} (h : parseHead r = some r') :
    r'.state = .parssingHeaders ∧ SameBody r r' ∧ ∃ front, r.buffer = front ++ r'.buffer ∧
      ∀ q, parseHead { r with buffer := front ++ q } = some { r' with buffer := q } := by
  obtain ⟨r1, hline, hhead⟩ := parseHead_eq_some h
  have hsame1 := parseRequestLine_sameBody r
  have hsame2 := parseHeaders_sameBody { r1 with state := .parssingHeaders }
  rw [hline] at hsame1
  rw [hhead] at hsame2
  obtain ⟨front1, hbuf1, hq1⟩ := parseRequestLine_split hline
  obtain ⟨hs, front2, hbuf2, hq2⟩ := parseHeaders_split hhead
  refine ⟨hs, SameBody.trans hsame1 ⟨hsame2.1, hsame2.2, hsame2.3, hsame2.4, hsame2.5⟩,
    front1 ++ front2, ?_, fun q => ?_⟩
  · rw [hbuf1, List.append_assoc]
    exact congrArg (front1 ++ ·) hbuf2
  · rw [List.append_assoc, parseHead, hq1 (front2 ++ q)]
    dsimp only
    rw [hq2 q]

/-- The machine goes through a head that is read to the choice of the framing. -/
theorem parseHead_steps {r r' : HTTPRequest} (hs : r.state = .parssingRequestLine)
    (h : parseHead r = some r') : machine.Steps r r'.endHeaders := by
  obtain ⟨r1, he, he'⟩ := parseHead_eq_some h
  have hline := (parseRequestLine_steps hs).1
  have hhead := (parseHeaders_steps (r := { r1 with state := .parssingHeaders }) rfl).1
  simp only [he, ↓reduceIte] at hline
  simp only [he', ↓reduceIte] at hhead
  exact hline.trans hhead

/-- Without a head that is read the parser waits or fails before any body byte. -/
theorem feed_of_parseHead_none {r : HTTPRequest} {q : Bytes} (hs : r.state = .parssingRequestLine)
    (h : parseHead (r.push q) = none) : SameBody r (machine.feed r q) ∧ (machine.feed r q).Waiting := by
  have hline := parseRequestLine_steps (r := r.push q) hs
  have hsame := parseRequestLine_sameBody (r.push q)
  unfold parseHead at h
  rcases he : (r.push q).parseRequestLine with ⟨_ | _, r1⟩
  · rw [he] at hline hsame
    have hrun : machine.feed r q = r1 := hline.1.run_eq_of_stuck (hline.2 rfl).1
    rw [hrun]
    exact ⟨⟨hsame.1, hsame.2, hsame.3, hsame.4, hsame.5⟩, hline.2 rfl⟩
  · simp only [he] at h hline hsame
    have hhead := parseHeaders_steps (r := { r1 with state := .parssingHeaders }) rfl
    have hsame2 := parseHeaders_sameBody { r1 with state := .parssingHeaders }
    rcases he2 : parseHeaders { r1 with state := .parssingHeaders } with ⟨_ | _, r2⟩
    · rw [he2] at hhead hsame2
      have hrun : machine.feed r q = r2 :=
        (Machine.Steps.trans hline.1 hhead.1).run_eq_of_stuck (hhead.2 rfl).1
      rw [hrun]
      have hall : SameBody (r.push q) r2 :=
        SameBody.trans hsame ⟨hsame2.1, hsame2.2, hsame2.3, hsame2.4, hsame2.5⟩
      exact ⟨⟨hall.1, hall.2, hall.3, hall.4, hall.5⟩, hhead.2 rfl⟩
    · simp [he2] at h

theorem HeadAccepted.sameBody {limit : ℕ} {head : Bytes} {r : HTTPRequest}
    (h : HeadAccepted limit head r) : SameBody (fresh limit) r := by
  obtain ⟨-, hsame, -⟩ := parseHead_split h.parsed
  exact ⟨hsame.1, hsame.2, hsame.3, hsame.4, hsame.5⟩

/-- An accepted head with anything behind it. -/
theorem HeadAccepted.steps {limit : ℕ} {head : Bytes} {r : HTTPRequest}
    (h : HeadAccepted limit head r) (q : Bytes) :
    machine.Steps ((fresh limit).push (head ++ q)) (r.endHeaders.push q) := by
  have hsteps := (parseHead_steps (r := (fresh limit).push head) rfl h.parsed).push q
  simpa [push, List.append_assoc] using hsteps

/-- Input that gets past the header phase starts with an accepted head. -/
theorem headAccepted_of_parseHead {limit : ℕ} {input : Bytes} {r : HTTPRequest}
    (h : parseHead ((fresh limit).push input) = some r) :
    ∃ head, HeadAccepted limit head { r with buffer := [] } ∧ input = head ++ r.buffer := by
  obtain ⟨-, -, front, hbuf, hq⟩ := parseHead_split h
  refine ⟨front, ⟨?_, rfl⟩, hbuf⟩
  have hnil := hq []
  rw [List.append_nil] at hnil
  exact hnil

theorem announcesChunked_congr {r r' : HTTPRequest} (h : r'.headers = r.headers) :
    r'.announcesChunked = r.announcesChunked := by
  simp only [announcesChunked, getHeaderValue, h]

/-- A header that makes the body chunked also makes the parser expect a body. -/
theorem hasBody_of_announcesChunked {r : HTTPRequest} (h : r.announcesChunked) : r.hasBody := by
  have hkey : (ascii "Transfer-Encoding").map toLower = ascii "transfer-encoding" := by decide
  unfold announcesChunked getHeaderValue at h
  rw [hkey] at h
  unfold hasBody
  cases hv : r.headers[ascii "transfer-encoding"]? with
  | none =>
    rw [hv] at h
    exact absurd h (by decide)
  | some value =>
    rw [hv] at h
    simp only [Option.getD_some] at h
    simp [h]

theorem hasBody_of_contentLength {r : HTTPRequest}
    (h : r.getHeaderValue (ascii "Content-Length") ≠ []) : r.hasBody := by
  have hkey : (ascii "Content-Length").map toLower = ascii "content-length" := by decide
  unfold getHeaderValue at h
  rw [hkey] at h
  unfold hasBody
  cases hv : r.headers[ascii "content-length"]? with
  | none => simp [hv] at h
  | some value =>
    cases r.headers[ascii "transfer-encoding"]? with
    | none => rfl
    | some te => by_cases hc : contains (ascii "chunked") (te.map toLower) <;> simp [hc]

end WebServ.HTTPRequest
