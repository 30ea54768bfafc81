import WebServ.Http.Framing
import WebServ.Lib.ChunkedHistory

/-! # The body limit

A counted body is compared with the limit before any of it is stored. A chunked
one is compared at the end of each chunk only, so that the bytes of an unfinished
chunk may exceed the limit: this is the one way in which they can.
-/
namespace WebServ.HTTPRequest
open Search Chunked

/-- Complete chunks within the limit, then a chunk that is still unfinished when its
bytes exceed what the limit leaves. -/
def Overrun (limit : ℕ) (input : Bytes) : Prop :=
  ∃ head r ks line n d, HeadAccepted limit head r ∧ r.announcesChunked = true ∧
    (∀ k ∈ ks, k.Valid chunkSizeOf) ∧ IsLine line ∧ chunkSizeOf line = some n ∧
    input = head ++ (encodeChunks ks ++ (line ++ crlf ++ d)) ∧
    (chunkData ks).length ≤ limit ∧ limit < (chunkData ks).length + d.length ∧ d.length < n

/-- The state after a chunked head and any bytes is the decoder's on these bytes. -/
theorem HeadAccepted.feed_chunked {limit : ℕ} {head : Bytes} {r : HTTPRequest}
    (h : HeadAccepted limit head r) (hte : r.announcesChunked = true) (q : Bytes) {c : Config}
    (hc : (Chunked.machine chunkSizeOf (admits limit)).Steps ⟨.size, 0, [], q, .running⟩ c)
    (hstuck : Chunked.step chunkSizeOf (admits limit) c = none) :
    machine.feed (fresh limit) (head ++ q) = r.endHeaders.withChunk c := by
  refine (h.chunk_steps hte q hc).run_eq_of_stuck (step_withChunk_eq_none ?_ ?_)
  · rw [endHeaders_chunked hte]
  · rw [endHeaders_chunked hte]
    change Chunked.step chunkSizeOf (admits r.maxBodySize) c = none
    rwa [show r.maxBodySize = limit from h.sameBody.maxBodySize]

/-! ## Counted bodies -/

/-- Past the header phase of a message that is not chunked, within the limit. -/
def Counted (limit : ℕ) (r : HTTPRequest) : Prop :=
  r.maxBodySize = limit ∧ r.body.length ≤ limit ∧
    (r.state = .parssingBody ∧ r.isChunked = false ∨ r.Terminal)

theorem Counted.step {limit : ℕ} (hlim : 0 < limit) {r r' : HTTPRequest} (h : Counted limit r)
    (hstep : r.step = some r') : Counted limit r' := by
  obtain ⟨hmax, hlen, ⟨hs, hch⟩ | ht⟩ := h
  · have hlength : r.step = r.lengthStep := by simp [HTTPRequest.step, hs, hch]
    rw [hlength, lengthStep] at hstep
    split at hstep
    · cases hstep
      exact ⟨hmax, hlen, Or.inr (Or.inl rfl)⟩
    · split at hstep
      · cases hstep
        exact ⟨hmax, hlen, Or.inr (Or.inr rfl)⟩
      · next hfit =>
        split at hstep
        · cases hstep
          exact ⟨hmax, hlen, Or.inr (Or.inl rfl)⟩
        · next hmore =>
          split at hstep
          · cases hstep
          · cases hstep
            refine ⟨hmax, ?_, Or.inl ⟨hs, hch⟩⟩
            simp only [List.length_append, List.length_singleton]
            omega
  · rw [step_eq_none_of_terminal ht] at hstep
    cases hstep

/-- Where a head without chunked coding leaves the parser. -/
theorem HeadAccepted.counted {limit : ℕ} {head : Bytes} {r : HTTPRequest}
    (h : HeadAccepted limit head r) (hte : r.announcesChunked = false) (q : Bytes) :
    Counted limit (r.endHeaders.push q) := by
  have hsame := h.sameBody
  have hmax : r.maxBodySize = limit := hsame.maxBodySize
  have hbody : r.body = [] := hsame.body
  unfold endHeaders
  split
  · exact ⟨hmax, by simp [push, hbody], Or.inl ⟨rfl, hte⟩⟩
  · exact ⟨hmax, by simp [push, hbody], Or.inr (Or.inl rfl)⟩

theorem Counted.steps {limit : ℕ} (hlim : 0 < limit) {r r' : HTTPRequest} (h : Counted limit r)
    (hsteps : machine.Steps r r') : Counted limit r' := by
  induction hsteps with
  | refl => exact h
  | tail _ hstep ih => exact ih.step hlim hstep

/-! ## Chunked bodies -/

/-- A decoder that waits for input has stored more than the limit only inside a chunk. -/
theorem chunked_body_le {limit : ℕ} (hlim : 0 < limit) {q : Bytes} {c : Config}
    (hc : (Chunked.machine chunkSizeOf (admits limit)).Steps ⟨.size, 0, [], q, .running⟩ c)
    (hstuck : Chunked.step chunkSizeOf (admits limit) c = none)
    (hok : c.status = .running ∨ c.status = .finished) :
    c.out.length ≤ limit ∨ ∃ ks line n d, (∀ k ∈ ks, k.Valid chunkSizeOf) ∧ IsLine line ∧
      chunkSizeOf line = some n ∧ q = encodeChunks ks ++ (line ++ crlf ++ d) ∧
      (chunkData ks).length ≤ limit ∧ limit < (chunkData ks).length + d.length ∧ d.length < n := by
  let s : Start := ⟨.size, 0, []⟩
  have hist : History chunkSizeOf (admits limit) s q c := Steps.history hc
  have hadmit : ∀ out : Bytes, out = [] ∨ admits limit out = true → out.length ≤ limit := by
    rintro out (rfl | hout)
    · simp
    · have := admits_iff.mp hout
      omega
  -- only the trailers can be finished
  have hrunning (hphase : c.phase ≠ .trailers) : c.status = .running := by
    rcases hok with hr | hf
    · exact hr
    · exact absurd (trailers_of_finished (s := s) hc hf) hphase
  cases hp : c.phase with
  | size =>
    left
    have hrun := hrunning (by simp [hp])
    simp only [History, hp] at hist
    obtain ⟨_, -, hs⟩ := hist hrun
    exact hadmit _ hs.admitted
  | dataCrlf =>
    left
    have hrun := hrunning (by simp [hp])
    simp only [History, hp] at hist
    rcases hist hrun with ⟨hphase, -, -⟩ | ⟨-, -, -, -, -, -, hfit⟩
    · cases hphase
    · exact hadmit _ (Or.inr hfit)
  | trailers =>
    left
    simp only [History, hp] at hist
    exact hadmit _ hist
  | data =>
    have hrun := hrunning (by simp [hp])
    simp only [History, hp] at hist
    obtain ⟨read, out, d, hblock, hin, hout⟩ := hist
    -- a decoder waiting for data has used up the buffer and misses some bytes
    have hwait : 0 < c.remaining ∧ c.buf = [] := by
      simp only [Chunked.step, if_pos hrun, hp, dataStep] at hstuck
      split at hstuck
      · cases hstuck
      · next hrem hbuf => exact ⟨by omega, hbuf⟩
      · cases hstuck
    generalize hn : d.length + c.remaining = n at hblock
    cases hblock with
    | first hphase => cases hphase
    | @next read out line n hs hl hsz hne =>
      have hle := hadmit _ hs.admitted
      obtain ⟨⟨p, d0, ks, hlead, hks, rfl, rfl⟩, -⟩ := hs
      cases hlead
      simp only [s, List.nil_append, List.append_nil] at hle hin hout
      by_cases hbig : c.out.length ≤ limit
      · exact Or.inl hbig
      · right
        refine ⟨ks, line, n, d, hks, hl, hsz, ?_, hle, ?_, by omega⟩
        · rw [hin, hwait.2]
          simp [List.append_assoc]
        · rw [hout, List.length_append] at hbig
          omega

/-- An unfinished chunk is stored as far as it arrived. -/
theorem overrun_steps {limit : ℕ} {ks : List Chunk} (hks : ∀ k ∈ ks, k.Valid chunkSizeOf)
    {line d : Bytes} {n : ℕ} (hl : IsLine line) (hn : chunkSizeOf line = some n)
    (hle : (chunkData ks).length ≤ limit) (hd : d.length < n) :
    (Chunked.machine chunkSizeOf (admits limit)).Steps
      ⟨.size, 0, [], encodeChunks ks ++ (line ++ crlf ++ d), .running⟩
      ⟨.data, n - d.length, chunkData ks ++ d, [], .running⟩ := by
  have hadmit : ∀ p, p <+: ks → p ≠ [] → admits limit ([] ++ chunkData p) := by
    intro p hp _
    have hlen := chunkData_length_le_of_append hp
    simp only [admits, List.nil_append, decide_eq_true_eq]
    omega
  have hchunks := chunks_steps hks (m := 0) (line ++ crlf ++ d) hadmit
  have hsize := size_step (admits limit) hl hn (if ks = [] then 0 else 0) ([] ++ chunkData ks) d
  rw [if_neg (show n ≠ 0 by omega)] at hsize
  have hdata := data_steps chunkSizeOf (admits limit) ([] ++ chunkData ks) d [] (n - d.length)
  rw [show d.length + (n - d.length) = n by omega, List.append_nil] at hdata
  exact hchunks.trans (Machine.Steps.head hsize hdata)

/-! ## The invariant and its exception -/

theorem feed_overrun {limit : ℕ} {input : Bytes} (h : Overrun limit input) :
    (machine.feed (fresh limit) input).isError = false ∧
      limit < (machine.feed (fresh limit) input).body.length := by
  obtain ⟨head, r, ks, line, n, d, hhead, hte, hks, hl, hn, rfl, hle, hgt, hd⟩ := h
  have hwait : Chunked.step chunkSizeOf (admits limit)
      ⟨.data, n - d.length, chunkData ks ++ d, [], .running⟩ = none := by
    obtain ⟨k, hk⟩ : ∃ k, n - d.length = k + 1 := ⟨n - d.length - 1, by omega⟩
    rw [hk]
    rfl
  rw [hhead.feed_chunked hte _ (overrun_steps hks hl hn hle hd) hwait]
  constructor
  · rfl
  · simpa [withChunk] using hgt

theorem feed_body_le {limit : ℕ} (hlim : 0 < limit) (input : Bytes)
    (hok : (machine.feed (fresh limit) input).isError = false) :
    (machine.feed (fresh limit) input).body.length ≤ limit ∨ Overrun limit input := by
  cases hparse : parseHead ((fresh limit).push input) with
  | none =>
    left
    have hsame := (feed_of_parseHead_none (r := fresh limit) rfl hparse).1
    rw [show (machine.feed (fresh limit) input).body = [] from hsame.body]
    simp
  | some r1 =>
    obtain ⟨head, hhead, hin⟩ := headAccepted_of_parseHead hparse
    generalize hr : ({ r1 with buffer := [] } : HTTPRequest) = r at hhead
    generalize r1.buffer = q at hin
    subst hin
    have hsame := hhead.sameBody
    have hbody : r.body = [] := hsame.body
    by_cases hte : r.announcesChunked = true
    · -- a chunked body: the decoder's own run
      have hc := (Chunked.machine chunkSizeOf (admits limit)).steps_run ⟨.size, 0, [], q, .running⟩
      have hstuck := (Chunked.machine chunkSizeOf (admits limit)).step_run ⟨.size, 0, [], q, .running⟩
      have hfeed := hhead.feed_chunked hte q hc hstuck
      generalize (Chunked.machine chunkSizeOf (admits limit)).run ⟨.size, 0, [], q, .running⟩ = c
        at hc hstuck hfeed
      rw [hfeed] at hok ⊢
      have hstatus : c.status = .running ∨ c.status = .finished := by
        cases hs : c.status <;> simp_all [isError, withChunk, ofStatus]
      rcases chunked_body_le hlim hc hstuck hstatus with hle | ⟨ks, line, n, d, hks, hl, hn, rfl, hrest⟩
      · exact Or.inl hle
      · exact Or.inr ⟨head, r, ks, line, n, d, hhead, hte, hks, hl, hn, rfl, hrest⟩
    · -- no body, or a counted one
      left
      have hsteps := (hhead.steps q).trans (machine.steps_run (r.endHeaders.push q))
      have hfeed : machine.feed (fresh limit) (head ++ q) = machine.run (r.endHeaders.push q) :=
        hsteps.run_eq_of_stuck (machine.step_run _)
      have hcount := hhead.counted (by simpa using hte) q
      rw [hfeed]
      exact (hcount.steps hlim (machine.steps_run _)).2.1

theorem parsePieces_state (limit : ℕ) (ps : List Bytes) :
    ((fresh limit).parsePieces ps).2 = machine.feed (fresh limit) ps.flatten := by
  cases ps with
  | nil =>
    have hstuck : step ((fresh limit).push []) = none := rfl
    exact (Machine.run_of_none hstuck).symm
  | cons p ps => rw [parsePieces_eq_feedAll, Machine.feedAll_eq_feed]

/-- The body stays within the limit in every state that is not an error exactly in the
runs that never pause inside a chunk whose bytes already exceed it. -/
theorem body_limit_iff (limit : ℕ) (hlim : 0 < limit) (pieces : List Bytes) :
    (∀ ps, ps <+: pieces → ((fresh limit).parsePieces ps).2.isError = false →
      ((fresh limit).parsePieces ps).2.body.length ≤ limit) ↔
    ∀ ps, ps <+: pieces → ¬ Overrun limit ps.flatten := by
  constructor
  · intro h ps hps hover
    obtain ⟨hok, hgt⟩ := feed_overrun hover
    have hle := h ps hps
    rw [parsePieces_state] at hle
    exact absurd (hle hok) (by omega)
  · intro h ps hps hok
    rw [parsePieces_state] at hok ⊢
    rcases feed_body_le hlim ps.flatten hok with hle | hover
    · exact hle
    · exact absurd hover (h ps hps)

/-- Two pieces of a post of five bytes at most, cut inside its only chunk. -/
theorem body_limit_iff_five :
    let pieces := [ascii "POST / H\r\nTransfer-Encoding: chunked\r\n\r\nff", ascii "\r\n0123"]
    (∀ ps, ps <+: pieces → ((fresh 5).parsePieces ps).2.isError = false →
      ((fresh 5).parsePieces ps).2.body.length ≤ 5) ↔ ∀ ps, ps <+: pieces → ¬ Overrun 5 ps.flatten :=
  body_limit_iff 5 (by decide) _

/-- Ten bytes of an unfinished chunk are stored although five are allowed. -/
theorem body_limit_exceeded : ¬ ∀ limit, 0 < limit → ∀ pieces ps : List Bytes, ps <+: pieces →
    ((fresh limit).parsePieces ps).2.isError = false →
    ((fresh limit).parsePieces ps).2.body.length ≤ limit := by
  intro h
  have hfive := h 5 (by decide)
    [ascii "POST / H\r\nTransfer-Encoding: chunked\r\n\r\nff\r\n0123456789"] _ List.prefix_rfl
  revert hfive
  decide +kernel

end WebServ.HTTPRequest
