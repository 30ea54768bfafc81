import WebServ.Client.DecoderAgreement
import WebServ.Http.BodyLimit

/-! # A chunked body between two decoders

The request parser reads a body up to some byte; from there the decoder of the
connection goes on. On a plain body, without blanks around the sizes, both take the
same steps, so that together they decode it, wherever it is cut.
-/
namespace WebServ.Client
open Search Chunked HTTPRequest

/-- The reader of the format itself: a hexadecimal number below `2 ^ 64`, and an extension. -/
def plainSizeOf (line : Bytes) : Option ℕ :=
  let text := stripExtension line
  if text ≠ [] ∧ IsHex text ∧ hexValue text < 2 ^ 64 then some (hexValue text) else none

theorem chunkSizeOf_of_plain (line : Bytes) (n : ℕ) (h : plainSizeOf line = some n) :
    chunkSizeOf line = some n := by
  simp only [plainSizeOf, Option.ite_none_right_eq_some, Option.some.injEq] at h
  obtain ⟨⟨hne, hhex, hlt⟩, rfl⟩ := h
  rw [chunkSizeOf, trim_hex hne hhex, Option.bind_some, parseHexString_eq, if_pos hhex, Nat.mod_eq_of_lt hlt]

theorem decoderSizeOf_of_plain (line : Bytes) (n : ℕ) (h : plainSizeOf line = some n) :
    decoderSizeOf line = some n := by
  simp only [plainSizeOf, Option.ite_none_right_eq_some, Option.some.injEq] at h
  obtain ⟨⟨hne, hhex, hlt⟩, rfl⟩ := h
  rw [decoderSizeOf_eq, if_pos hhex, Nat.mod_eq_of_lt hlt]

/-- The state in which a body is decoded, and nothing follows it. -/
def bodyEnd (body : Body) : Config := ⟨.trailers, 0, body.content, [], .finished⟩

theorem run_bodyEnd (sizeOf : Bytes → Option ℕ) (body : Body) :
    (Chunked.machine sizeOf anyOutput).run (bodyEnd body) = bodyEnd body :=
  Machine.run_of_none (by simp [Chunked.step, bodyEnd])

theorem push_append (c : Config) (p q : Bytes) : (c.push p).push q = c.push (p ++ q) := by
  simp [Config.push]

/-- A decoder that has failed or finished only collects bytes. -/
theorem run_push_of_not_running (sizeOf : Bytes → Option ℕ) {c : Config} (hs : c.status ≠ .running)
    (rest : Bytes) : (Chunked.machine sizeOf anyOutput).run (c.push rest) = c.push rest :=
  Machine.run_of_none (by simp [Chunked.step, Config.push, hs])

/-! ## The cut -/

section
variable {body : Body} (hb : body.Valid plainSizeOf)
include hb

/-- The reader of the format decodes the whole body. -/
theorem run_body : (Chunked.machine plainSizeOf anyOutput).run ⟨.size, 0, [], body.encode, .running⟩ =
    bodyEnd body := by
  have hsteps := body_steps hb 0 [] [] (fun _ _ _ => show anyOutput _ = true from rfl)
  rw [List.append_nil] at hsteps
  exact hsteps.run_eq_of_stuck (by simp [Chunked.step])

/-- Where the parser waits inside a plain body, the decoder goes on to its end; it has
come to the end itself exactly when nothing is left. -/
theorem run_of_cut {sent rest : Bytes} (hcut : sent ++ rest = body.encode) {limit : ℕ} {c : Config}
    (hc : (Chunked.machine chunkSizeOf (admits limit)).run ⟨.size, 0, [], sent, .running⟩ = c)
    (hs : c.status = .running ∨ c.status = .finished) :
    (Chunked.machine decoderSizeOf anyOutput).run (c.push rest) = bodyEnd body ∧
      (c.status = .finished ↔ rest = []) := by
  let start : Config := ⟨.size, 0, [], sent, .running⟩
  have hpush : start.push rest = ⟨.size, 0, [], body.encode, .running⟩ := by
    simp [start, Config.push, hcut]
  -- the reader of the format pauses at the same place as the parser
  obtain ⟨e, he⟩ : ∃ e, (Chunked.machine plainSizeOf anyOutput).run start = e := ⟨_, rfl⟩
  have hend : (Chunked.machine plainSizeOf anyOutput).run (e.push rest) = bodyEnd body := by
    rw [← run_body hb, ← hpush, ← he]
    exact Machine.run_push_run _ start rest
  have hes : e.status = .running ∨ e.status = .finished := by
    by_cases hr : e.status = .running
    · exact Or.inl hr
    · rw [run_push_of_not_running plainSizeOf hr] at hend
      exact Or.inr (congrArg Config.status hend)
  have hstuck := (Chunked.machine plainSizeOf anyOutput).step_run start
  have hplain := (Chunked.machine plainSizeOf anyOutput).steps_run start
  rw [he] at hstuck hplain
  have hparser : (Chunked.machine chunkSizeOf anyOutput).run start = e :=
    (Steps.of_accepted chunkSizeOf_of_plain hplain hes).run_eq_of_stuck ((step_none_congr e).mp hstuck)
  have hpause : (Chunked.machine chunkSizeOf anyOutput).run start = c := by
    have hsteps := (Chunked.machine chunkSizeOf (admits limit)).steps_run start
    have hstop := (Chunked.machine chunkSizeOf (admits limit)).step_run start
    rw [hc] at hsteps hstop
    exact (Steps.of_accepted (fun _ _ h => h) hsteps hs).run_eq_of_stuck ((step_none_congr c).mp hstop)
  obtain rfl : e = c := hparser.symm.trans hpause
  constructor
  · have hall : (Chunked.machine decoderSizeOf anyOutput).Steps (start.push rest) (bodyEnd body) := by
      have h := (Chunked.machine plainSizeOf anyOutput).steps_run (start.push rest)
      rw [hpush, run_body hb, ← hpush] at h
      exact Steps.of_accepted decoderSizeOf_of_plain h (Or.inr rfl)
    have hstep := Steps.of_accepted decoderSizeOf_of_plain hplain hes
    have hrun := (hstep.push rest).run_eq
    rw [hall.run_eq, run_bodyEnd] at hrun
    exact hrun.symm
  · constructor
    · intro hf
      rw [run_push_of_not_running plainSizeOf (by simp [hf])] at hend
      exact (List.append_eq_nil_iff.mp (congrArg Config.buf hend)).2
    · rintro rfl
      have hnil : e.push [] = e := by simp [Config.push]
      rw [hnil, Machine.run_of_none hstuck] at hend
      exact congrArg Config.status hend

end

/-- A request on whose chunked body the parser works, or has worked; `rest` of it is still to come. -/
structure CutBody (body : Body) (rest : Bytes) (request : HTTPRequest) : Prop where
  wellFormed : body.Valid plainSizeOf
  parsed : ∃ limit head r sent pieces, HeadAccepted limit head r ∧ r.announcesChunked = true ∧
    sent ++ rest = body.encode ∧ pieces ≠ [] ∧ pieces.flatten = head ++ sent ∧
    request = ((fresh limit).parsePieces pieces).2
  noError : request.isError = false

/-- Where the parser stands in the body: what it waits with and has decoded are the same
for the decoder that goes on. -/
theorem CutBody.paused {body : Body} {rest : Bytes} {request : HTTPRequest} (h : CutBody body rest request) :
    ∃ c : Config, request.announcesChunked = true ∧ request.body = c.out ∧ request.buffer = c.buf ∧
      chunkStart request = ⟨c.phase, c.remaining, []⟩ ∧
      (Chunked.machine decoderSizeOf anyOutput).run (c.push rest) = bodyEnd body ∧
      (c.status = .running ∧ rest ≠ [] ∨ c = bodyEnd body ∧ rest = []) := by
  obtain ⟨limit, head, r, sent, pieces, hhead, hte, hcut, hne, hpieces, hreq⟩ := h.parsed
  obtain ⟨p, ps, rfl⟩ := List.exists_cons_of_ne_nil hne
  rw [parsePieces_eq_parse, hpieces, parse_eq_feed] at hreq
  obtain ⟨c, hc⟩ : ∃ c, (Chunked.machine chunkSizeOf (admits limit)).run ⟨.size, 0, [], sent, .running⟩ = c :=
    ⟨_, rfl⟩
  have hsteps := (Chunked.machine chunkSizeOf (admits limit)).steps_run ⟨.size, 0, [], sent, .running⟩
  have hstuck := (Chunked.machine chunkSizeOf (admits limit)).step_run ⟨.size, 0, [], sent, .running⟩
  rw [hc] at hsteps hstuck
  have hrequest : request = r.endHeaders.withChunk c :=
    hreq.trans (hhead.feed_chunked hte sent hsteps hstuck)
  have hs : c.status = .running ∨ c.status = .finished := by
    have hok := h.noError
    rw [hrequest] at hok
    cases hst : c.status with
    | running => exact Or.inl rfl
    | finished => exact Or.inr rfl
    | malformed => simp [isError, withChunk, hst, ofStatus] at hok
    | overflow => simp [isError, withChunk, hst, ofStatus] at hok
  obtain ⟨hrun, hdone⟩ := run_of_cut h.wellFormed hcut hc hs
  refine ⟨c, ?_, by rw [hrequest]; rfl, by rw [hrequest]; rfl, ?_, hrun, ?_⟩
  · rw [hrequest, ← hte, endHeaders_chunked hte]
    exact announcesChunked_congr rfl
  · rw [hrequest]
    simp [chunkStart, withChunk]
  · rcases hs with hs | hs
    · exact Or.inl ⟨hs, fun hnil => by simp [hdone.mpr hnil] at hs⟩
    · have hnil := hdone.mp hs
      rw [run_push_of_not_running decoderSizeOf (by simp [hs]), hnil] at hrun
      exact Or.inr ⟨by simpa [Config.push] using hrun, hnil⟩

/-- The decoder starts where the parser stands. -/
theorem initCgiChunkDecoder_config (request : HTTPRequest) (out : Bytes) :
    (initCgiChunkDecoder request.getChunkedState request.chunkRemaining).config out =
      ⟨(chunkStart request).phase, (chunkStart request).remaining, out, [], .running⟩ := by
  cases hc : request.chunkedState <;>
    simp [getChunkedState, hc, initCgiChunkDecoder, ChunkDecoder.config, chunkStart, ChunkedDecState.phase,
      HTTPRequest.ChunkedState.phase]

theorem initCgiChunkDecoder_not_done (state remaining : ℕ) :
    (initCgiChunkDecoder state remaining).state ≠ .chunkDecDone := by
  unfold initCgiChunkDecoder
  dsimp only
  split <;> simp

/-! ## The rest of the body -/

/-- With a part of the rest of a body the decoder comes to its end or waits for more;
it ends exactly with the last byte. -/
theorem decode_progress {body : Body} {d : ChunkDecoder} {out piece rest : Bytes}
    (hd : d.state ≠ .chunkDecDone)
    (hrun : (Chunked.machine decoderSizeOf anyOutput).run ((d.config out).push (piece ++ rest)) = bodyEnd body) :
    let r := decodeChunkedForCgi d piece
    r.ok = true ∧ (r.eof = true → r.decoder.buf = [] ∧ rest = [] ∧ out ++ r.decoded = body.content) ∧
      (r.eof = false → rest ≠ [] ∧ r.decoder.state ≠ .chunkDecDone ∧
        (Chunked.machine decoderSizeOf anyOutput).run ((r.decoder.config (out ++ r.decoded)).push rest) =
          bodyEnd body) := by
  intro r
  have hfollows : Follows (ChunkDecoder.config { d with buf := d.buf ++ piece } []) r :=
    decodeLoop_follows _ _ hd
  have hconf : (ChunkDecoder.config { d with buf := d.buf ++ piece } []).behind out =
      (d.config out).push piece := by
    simp [ChunkDecoder.config, Config.behind, Config.push]
  -- a state reached on the piece, with the rest behind it, runs to the end
  have hreach {c : Config} (h : (Chunked.machine decoderSizeOf anyOutput).Steps
      (ChunkDecoder.config { d with buf := d.buf ++ piece } []) c) :
      (Chunked.machine decoderSizeOf anyOutput).run ((c.behind out).push rest) = bodyEnd body := by
    have hsteps := Steps.behind out h
    rw [hconf] at hsteps
    rw [← (hsteps.push rest).run_eq]
    change (Chunked.machine decoderSizeOf anyOutput).run (((d.config out).push piece).push rest) = _
    rw [push_append, hrun]
  have hok : r.ok = true := by
    by_contra hn
    obtain ⟨c, hc, hm, -⟩ := hfollows.fails (by simpa using hn)
    have hrun' := hreach hc
    rw [run_push_of_not_running decoderSizeOf (by simp [Config.behind, hm])] at hrun'
    have hst := congrArg Config.status hrun'
    simp [Config.push, Config.behind, bodyEnd, hm] at hst
  refine ⟨hok, fun heof => ?_, fun heof => ?_⟩
  · obtain ⟨-, hdone, hsteps⟩ := hfollows.ends heof
    have hrun' := hreach hsteps
    rw [run_push_of_not_running decoderSizeOf (by simp [Config.behind, ChunkDecoder.config, hdone])] at hrun'
    have hempty := List.append_eq_nil_iff.mp (congrArg Config.buf hrun')
    exact ⟨hempty.1, hempty.2, congrArg Config.out hrun'⟩
  · obtain ⟨hsteps, hnd, hstatus, -⟩ := hfollows.waits hok heof
    have hrun' := hreach hsteps
    refine ⟨?_, hnd, hrun'⟩
    rintro rfl
    have hnil : ((r.decoder.config r.decoded).behind out).push [] = (r.decoder.config r.decoded).behind out := by
      simp [Config.push]
    rw [hnil, run_behind] at hrun'
    have hst := congrArg Config.status hrun'
    simp [Config.behind, bodyEnd, hstatus] at hst

end WebServ.Client
