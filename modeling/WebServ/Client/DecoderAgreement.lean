import WebServ.Client.ChunkDecoder
import WebServ.Http.Head
import WebServ.Http.SizeLine

/-! # The two chunk decoders

The request parser trims the text of a size line and refuses an empty one; the
decoder of the connection does neither. They agree on a stream exactly when no
size line in it shows that difference.
-/
namespace WebServ.Client
open Search Chunked HTTPRequest

/-- The text in front of the extension is empty, or a number with blanks around it. -/
def OddSizeLine (line : Bytes) : Prop :=
  stripExtension line = [] ∨
    ∃ t, trim blanks (stripExtension line) = some t ∧ t ≠ stripExtension line ∧ IsHex t

theorem decoderSizeOf_eq (line : Bytes) : decoderSizeOf line =
    if IsHex (stripExtension line) then some (hexValue (stripExtension line) % 2 ^ 64) else none :=
  readSize_eq _

/-- A line is read in two ways only when one of the readers refuses it. -/
theorem size_compatible (line : Bytes) :
    chunkSizeOf line = decoderSizeOf line ∨ chunkSizeOf line = none ∨ decoderSizeOf line = none := by
  rw [decoderSizeOf_eq, chunkSizeOf]
  generalize stripExtension line = t
  by_cases hne : t = []
  · right; left
    rw [hne]
    rfl
  · by_cases hhex : IsHex t
    · left
      rw [trim_hex hne hhex, Option.bind_some, parseHexString_eq]
    · right; right
      rw [if_neg hhex]

theorem size_eq_iff (line : Bytes) : chunkSizeOf line = decoderSizeOf line ↔ ¬ OddSizeLine line := by
  rw [decoderSizeOf_eq, chunkSizeOf, OddSizeLine]
  generalize stripExtension line = t
  by_cases hne : t = []
  · subst hne
    have hnone : trim blanks ([] : Bytes) = none := rfl
    simp [hnone, IsHex]
  by_cases hhex : IsHex t
  · simp [trim_hex hne hhex, parseHexString_eq, hne]
  · cases htrim : trim blanks t with
    | none => simp [hhex, hne]
    | some u =>
      rw [Option.bind_some, parseHexString_eq, if_neg hhex]
      by_cases hu : IsHex u
      · have hut : u ≠ t := fun he => hhex (he ▸ hu)
        simp [hu, hut]
      · simp [hu, hne]

/-- The request parser on the rest of a chunked body: its verdict and the bytes it adds. -/
def parserOutcome (r : HTTPRequest) (stream : Bytes) : Verdict × Bytes :=
  let r' := (r.parse stream).2
  (if r'.isError then .error
    else if r'.state = .parssingComplete then .finished r'.buffer else .needMore,
    r'.body.drop r.body.length)

/-- The decoder of the connection on the same bytes. -/
def decoderOutcome (d : ChunkDecoder) (stream : Bytes) : Verdict × Bytes :=
  ((decodeChunkedForCgi d stream).verdict, (decodeChunkedForCgi d stream).decoded)

/-- The parser waits inside a chunked body without a limit, and the decoder was
started in the phase the parser is in. -/
structure Corresponding (r : HTTPRequest) (d : ChunkDecoder) : Prop where
  inBody : r.state = .parssingBody
  chunked : r.isChunked = true
  noLimit : r.maxBodySize = 0
  emptyBuffer : r.buffer = []
  decoder : d = initCgiChunkDecoder r.getChunkedState r.chunkRemaining

/-- The place in a chunked body at which the parser stands. -/
def chunkStart (r : HTTPRequest) : Start := ⟨HTTPRequest.ChunkedState.phase r.chunkedState, r.chunkRemaining, []⟩

theorem admits_zero : admits 0 = anyOutput := by
  funext out
  simp [admits, anyOutput]

theorem parserOutcome_eq {r : HTTPRequest} {d : ChunkDecoder} (h : Corresponding r d)
    (stream : Bytes) : parserOutcome r stream = decodeAll chunkSizeOf (chunkStart r) stream := by
  have hconf : chunkConfig (r.push stream) = ((chunkStart r).config stream).behind r.body := by
    simp [chunkConfig, HTTPRequest.push, h.emptyBuffer, chunkStart, Start.config, Config.behind]
  have hrun := run_withChunk (r := r.push stream) h.inBody h.chunked
  rw [show (r.push stream).maxBodySize = 0 from h.noLimit, admits_zero, hconf, run_behind] at hrun
  have hparse : (r.parse stream).2 = HTTPRequest.machine.run (r.push stream) := by
    rw [parse_eq_feed]
    rfl
  simp only [parserOutcome, hparse, hrun, decodeAll]
  generalize (Chunked.machine chunkSizeOf anyOutput).run ((chunkStart r).config stream) = c
  rcases c with ⟨phase, remaining, out, buf, status⟩
  cases status <;> simp [withChunk, Config.behind, isError, ofStatus, Config.verdict]

theorem decoderOutcome_eq {r : HTTPRequest} {d : ChunkDecoder} (h : Corresponding r d)
    (stream : Bytes) : decoderOutcome d stream = decodeAll decoderSizeOf (chunkStart r) stream := by
  rcases h with ⟨-, -, -, -, rfl⟩
  have hconf : ChunkDecoder.config { initCgiChunkDecoder r.getChunkedState r.chunkRemaining with
      buf := [] ++ stream } [] = (chunkStart r).config stream := by
    cases hc : r.chunkedState <;>
      simp [getChunkedState, hc, initCgiChunkDecoder, ChunkDecoder.config, chunkStart, Start.config,
        ChunkedDecState.phase, HTTPRequest.ChunkedState.phase]
  have hd : (initCgiChunkDecoder r.getChunkedState r.chunkRemaining).state ≠ .chunkDecDone := by
    cases hc : r.chunkedState <;> simp [getChunkedState, hc, initCgiChunkDecoder]
  have hout := decodeLoop_outcome
    { initCgiChunkDecoder r.getChunkedState r.chunkRemaining with buf := [] ++ stream } [] hd
  rw [hconf] at hout
  exact Prod.ext hout.1.symm hout.2.symm

/-- The decoders agree on a stream exactly when none of the size lines the parser comes
to is odd. -/
theorem decoders_agree_iff (r : HTTPRequest) (d : ChunkDecoder) (h : Corresponding r d)
    (stream : Bytes) : parserOutcome r stream = decoderOutcome d stream ↔
      ∀ line, ReachesLine chunkSizeOf (chunkStart r) stream line → ¬ OddSizeLine line := by
  rw [parserOutcome_eq h, decoderOutcome_eq h, decodeAll_eq_iff size_compatible]
  constructor
  · intro hall line hreach
    exact (size_eq_iff line).mp (hall line hreach)
  · intro hall line hreach
    exact (size_eq_iff line).mpr (hall line hreach)

/-- A chunk, the last size line and the end, read after the head of a post. -/
theorem decoders_agree_post :
    let r := ((fresh 0).parse (ascii "POST / H\r\nTransfer-Encoding: chunked\r\n\r\n")).2
    parserOutcome r (ascii "2\r\nab\r\n0\r\n\r\n") =
        decoderOutcome (initCgiChunkDecoder 0 0) (ascii "2\r\nab\r\n0\r\n\r\n") ↔
      ∀ line, ReachesLine chunkSizeOf (chunkStart r) (ascii "2\r\nab\r\n0\r\n\r\n") line →
        ¬ OddSizeLine line :=
  decoders_agree_iff _ _ ⟨by decide +kernel, by decide +kernel, by decide +kernel, by decide +kernel,
    by decide +kernel⟩ _

/-- A size with a blank before it is five for the parser and an error for the decoder. -/
theorem decoders_disagree : ¬ ∀ r d, Corresponding r d → ∀ stream,
    parserOutcome r stream = decoderOutcome d stream := by
  intro h
  have hblank := h ((fresh 0).parse (ascii "POST / H\r\nTransfer-Encoding: chunked\r\n\r\n")).2
    (initCgiChunkDecoder 0 0) ⟨by decide +kernel, by decide +kernel, by decide +kernel,
      by decide +kernel, by decide +kernel⟩ (ascii " 5\r\nhello\r\n")
  revert hblank
  decide +kernel

end WebServ.Client
