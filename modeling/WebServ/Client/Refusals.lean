import WebServ.Client.HandOver

/-! # What the decoder refuses

The decoder has no state for an error. A size line that it refuses is dropped, and the
next call goes on behind it; only a block without its end mark stays where it is. What
the request parser leaves to the decoder is never refused.
-/
namespace WebServ.Client
open Search Chunked HTTPRequest

/-- The bytes fill a block, and something else than its end mark follows. -/
def LacksEndMark (d : ChunkDecoder) (bytes : Bytes) : Prop :=
  ((Chunked.machine decoderSizeOf anyOutput).run ((d.config []).push bytes)).phase = .dataCrlf

/-- The decoder holds something else where an end mark is due. -/
def ChunkDecoder.Halted (d : ChunkDecoder) : Prop :=
  d.state = .chunkDecDataCrlf ∧ ∃ a b rest, d.buf = a :: b :: rest ∧ [a, b] ≠ crlf

/-- More bytes do not help. -/
theorem ChunkDecoder.Halted.call {d : ChunkDecoder} (h : d.Halted) (bytes : Bytes) :
    (decodeChunkedForCgi d bytes).ok = false ∧ (decodeChunkedForCgi d bytes).decoder.Halted := by
  rcases d with ⟨state, remaining, buf⟩
  obtain ⟨rfl, a, b, rest, rfl, hab⟩ := h
  have hcall : decodeChunkedForCgi ⟨.chunkDecDataCrlf, remaining, a :: b :: rest⟩ bytes =
      ⟨false, [], false, ⟨.chunkDecDataCrlf, remaining, a :: b :: (rest ++ bytes)⟩⟩ := by
    rw [decodeChunkedForCgi, decodeLoop]
    simp [hab]
  rw [hcall]
  exact ⟨rfl, rfl, a, b, rest ++ bytes, rfl, hab⟩

/-- A call fails where the machine does: in a size line, or at an end mark. -/
theorem decodeLoop_refused {d : ChunkDecoder} {out : Bytes} (hno : (decodeLoop d out).ok = false) :
    ((Chunked.machine decoderSizeOf anyOutput).run (d.config out)).phase = (decodeLoop d out).decoder.state.phase ∧
      ((decodeLoop d out).decoder.state = .chunkDecSize ∨ (decodeLoop d out).decoder.Halted) := by
  have hstops {c e : Config} (h : Chunked.step decoderSizeOf anyOutput c = some e) (he : e.status = .malformed) :
      (Chunked.machine decoderSizeOf anyOutput).run c = e :=
    (Machine.Steps.single h).run_eq_of_stuck (by simp [Chunked.step, he])
  fun_induction decodeLoop d out with
  | case1 | case2 | case6 | case9 | case10 | case11 | case13 => cases hno
  | case3 d out hb hs line rest hc hsize =>
    rw [hstops (size_refused out hs hc hsize) rfl, hs]
    exact ⟨rfl, Or.inl rfl⟩
  | case4 d out hb hs line rest hc size hsize ih =>
    rw [(size_turn out hs hc hsize).run_eq]
    exact ih hno
  | case5 d out hb hs avail decoded hz ih =>
    rw [(data_turn out hs hz).run_eq]
    exact ih hno
  | case7 d out hb hs a b rest hc hab ih =>
    rw [(mark_turn out hs hc hab).run_eq]
    exact ih hno
  | case8 d out hb hs a b rest hc hab =>
    rw [hstops (mark_refused out hs hc hab) rfl]
    exact ⟨rfl, Or.inr ⟨hs, a, b, rest, hc, hab⟩⟩
  | case12 d out hb hs line rest hc hl ih =>
    rw [(trailer_turn out hs hc hl).run_eq]
    exact ih hno

theorem LacksEndMark.halted {d : ChunkDecoder} {bytes : Bytes} (h : LacksEndMark d bytes)
    (hno : (decodeChunkedForCgi d bytes).ok = false) : (decodeChunkedForCgi d bytes).decoder.Halted := by
  obtain ⟨hphase, hsize | hhalted⟩ := decodeLoop_refused hno
  · have hmark : ((Chunked.machine decoderSizeOf anyOutput).run
        (ChunkDecoder.config { d with buf := d.buf ++ bytes } [])).phase = .dataCrlf := h
    rw [hmark, hsize] at hphase
    cases hphase
  · exact hhalted

/-! ## What the parser leaves behind -/

/-- What the parser's state tells of the chunked coding. -/
structure Framed (r : HTTPRequest) : Prop where
  head : r.state = .parssingRequestLine ∨ r.state = .parssingHeaders → r.chunkedState = .chunkSize
  body : r.state = .parssingBody → r.isChunked = r.announcesChunked
  complete : r.state = .parssingComplete → r.announcesChunked = true → r.chunkedState = .chunkTrailers

theorem Framed.start : Framed {} := by
  constructor <;> simp

theorem Framed.setMaxBodySize {r : HTTPRequest} (h : Framed r) (size : ℕ) : Framed (r.setMaxBodySize size) :=
  ⟨h.head, h.body, h.complete⟩

theorem Framed.of_error {r : HTTPRequest} (h : r.state = .parssingError) : Framed r := by
  constructor <;> simp [h]

theorem Framed.of_head {r : HTTPRequest} (h : r.state = .parssingHeaders) (hsize : r.chunkedState = .chunkSize) :
    Framed r := by
  constructor <;> simp [h, hsize]

theorem Framed.of_body {r : HTTPRequest} (h : r.state = .parssingBody) (hch : r.isChunked = r.announcesChunked) :
    Framed r := by
  constructor <;> simp [h, hch]

theorem Framed.of_complete {r : HTTPRequest} (h : r.state = .parssingComplete)
    (hend : r.announcesChunked = true → r.chunkedState = .chunkTrailers) : Framed r where
  head hs := by simp [h] at hs
  body hs := by simp [h] at hs
  complete _ := hend

theorem Framed.endHeaders {r : HTTPRequest} : Framed r.endHeaders := by
  unfold HTTPRequest.endHeaders
  split
  · exact .of_body rfl (announcesChunked_congr rfl).symm
  · next hbody => exact .of_complete rfl (fun hte => absurd (hasBody_of_announcesChunked hte) hbody)

theorem Framed.step {r r' : HTTPRequest} (h : Framed r) (hstep : r.step = some r') : Framed r' := by
  unfold HTTPRequest.step at hstep
  split at hstep
  · next hs =>
    obtain ⟨⟨line, rest⟩, hcut, hr'⟩ := Option.map_eq_some_iff.mp hstep
    cases hp : r.parseRequestLine with
    | mk ok parsed =>
      obtain ⟨-, hsize, herr⟩ := parseRequestLine_frame hcut hp
      rw [hp] at hr'
      cases ok with
      | true =>
        subst hr'
        exact .of_head rfl (hsize.trans (h.head (Or.inl hs)))
      | false =>
        subst hr'
        exact .of_error (herr rfl)
  · next hs =>
    obtain ⟨⟨line, rest⟩, -, rfl⟩ := Option.map_eq_some_iff.mp hstep
    dsimp only
    split
    · exact .endHeaders
    · split
      · exact .of_error rfl
      · exact .of_head hs (h.head (Or.inr hs))
  · next hs =>
    have hte := h.body hs
    split at hstep
    · next hch =>
      obtain ⟨c, hc, rfl⟩ := Option.map_eq_some_iff.mp hstep
      cases hstatus : c.status with
      | running => exact .of_body (by simp [withChunk, hstatus, ofStatus]) (hte.trans (announcesChunked_congr rfl).symm)
      | finished =>
        refine .of_complete (by simp [withChunk, hstatus, ofStatus]) (fun _ => ?_)
        rw [withChunk, trailers_of_step hc hstatus]
        rfl
      | malformed => exact .of_error (by simp [withChunk, hstatus, ofStatus])
      | overflow => exact .of_error (by simp [withChunk, hstatus, ofStatus])
    · next hch =>
      have hplain : r.announcesChunked = false := by simpa [hte] using hch
      have hdone : Framed { r with state := .parssingComplete } :=
        .of_complete rfl (fun h => absurd (hplain.symm.trans h) (by simp))
      unfold lengthStep at hstep
      split at hstep
      · cases hstep
        exact hdone
      · split at hstep
        · cases hstep
          exact .of_error rfl
        · split at hstep
          · cases hstep
            exact hdone
          · split at hstep
            · cases hstep
            · cases hstep
              exact .of_body hs (hte.trans (announcesChunked_congr rfl).symm)
  · cases hstep
  · cases hstep

theorem Framed.steps {r r' : HTTPRequest} (h : Framed r) (hsteps : HTTPRequest.machine.Steps r r') : Framed r' := by
  induction hsteps with
  | refl => exact h
  | tail _ hstep ih => exact ih.step hstep

theorem Framed.parse {r : HTTPRequest} (h : Framed r) (bytes : Bytes) : Framed (r.parse bytes).2 := by
  have hpush : Framed (r.push bytes) := ⟨h.head, h.body, h.complete⟩
  rw [parse_eq_feed]
  exact hpush.steps (HTTPRequest.machine.steps_run _)

/-- The call of the decoder with what the parser has read and not used. -/
def leftoverCall (request : HTTPRequest) : Decoded :=
  decodeChunkedForCgi (initCgiChunkDecoder request.getChunkedState request.chunkRemaining) request.buffer

/-- A parser that waits, or is done, leaves nothing that the decoder refuses. -/
theorem Framed.leftover_accepted {r : HTTPRequest} (h : Framed r) (hstuck : r.step = none)
    (herror : r.state ≠ .parssingError) (hte : r.announcesChunked = true) : (leftoverCall r).ok = true := by
  have hdone := initCgiChunkDecoder_not_done r.getChunkedState r.chunkRemaining
  have hconf := initCgiChunkDecoder_config r []
  unfold leftoverCall
  generalize initCgiChunkDecoder r.getChunkedState r.chunkRemaining = d at hdone hconf ⊢
  have hfollows := decodeLoop_follows { d with buf := d.buf ++ r.buffer } [] hdone
  have hpush : ChunkDecoder.config { d with buf := d.buf ++ r.buffer } [] =
      ⟨HTTPRequest.ChunkedState.phase r.chunkedState, r.chunkRemaining, [], r.buffer, .running⟩ := by
    change (d.config []).push r.buffer = _
    rw [hconf]
    rfl
  rw [hpush] at hfollows
  by_contra hno
  obtain ⟨c, hsteps, hmalformed, -⟩ := hfollows.fails (by simpa [decodeChunkedForCgi] using hno)
  -- a machine that cannot move does not fail
  have hwaits (hstep : Chunked.step decoderSizeOf anyOutput
      ⟨HTTPRequest.ChunkedState.phase r.chunkedState, r.chunkRemaining, [], r.buffer, .running⟩ = none) : False := by
    have hend := hsteps.run_eq_of_stuck (by simp [Chunked.step, hmalformed])
    rw [Machine.run_of_none hstep] at hend
    rw [← hend] at hmalformed
    cases hmalformed
  have hnoLine (hsize : r.chunkedState = .chunkSize) (hcut : cutLine crlf r.buffer = none) : False := by
    apply hwaits
    simp [Chunked.step, hsize, HTTPRequest.ChunkedState.phase, sizeStep, hcut]
  cases hs : r.state with
  | parssingRequestLine =>
    simp only [HTTPRequest.step, hs] at hstuck
    exact hnoLine (h.head (Or.inl hs)) (Option.map_eq_none_iff.mp hstuck)
  | parssingHeaders =>
    simp only [HTTPRequest.step, hs] at hstuck
    exact hnoLine (h.head (Or.inr hs)) (Option.map_eq_none_iff.mp hstuck)
  | parssingBody =>
    simp only [HTTPRequest.step, hs, (h.body hs).trans hte, if_true] at hstuck
    exact hwaits (step_eq_none_congr (Option.map_eq_none_iff.mp hstuck))
  | parssingComplete =>
    exact (steps_of_trailers hsteps (by rw [h.complete hs hte]; rfl) (by simp)).2 hmalformed
  | parssingError => exact herror hs

end WebServ.Client
