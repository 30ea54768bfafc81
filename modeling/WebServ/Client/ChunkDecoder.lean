import WebServ.Http.Request
import WebServ.Lib.ChunkedReaders

/-! # The chunk decoder of a connection

Once a request was handed to a CGI, the connection itself undoes the chunked
coding of the bytes that still arrive. The decoder starts in the phase the
request parser had reached, and is a machine of the same kind.
-/
namespace WebServ.Client
open Search Chunked

inductive ChunkedDecState
  | chunkDecSize | chunkDecData | chunkDecDataCrlf | chunkDecTrailers | chunkDecDone
deriving DecidableEq, Repr

structure ChunkDecoder where
  state : ChunkedDecState := .chunkDecSize
  remaining : ℕ := 0
  buf : Bytes := []
deriving DecidableEq, Repr

/-- What a call returns: its result, the bytes decoded, whether the body ended. -/
structure Decoded where
  ok : Bool
  decoded : Bytes
  eof : Bool
  decoder : ChunkDecoder
deriving DecidableEq, Repr

def initCgiChunkDecoder (state remaining : ℕ) : ChunkDecoder :=
  let state := match state with
    | 1 => .chunkDecData
    | 2 => .chunkDecDataCrlf
    | 3 => .chunkDecTrailers
    | _ => .chunkDecSize
  { state, remaining, buf := [] }

/-- The value of a size text, modulo `2 ^ 64`; the empty text counts as zero. -/
def readSize (line : Bytes) : Option ℕ :=
  line.foldlM (fun size c => (hexDigit c).map (fun d => (size * 16 + d) % 2 ^ 64)) 0

def afterSize (size : ℕ) : ChunkedDecState :=
  if size = 0 then .chunkDecTrailers else .chunkDecData

/-- The loop of the decoder, with the bytes decoded so far. -/
def decodeLoop (d : ChunkDecoder) (decoded : Bytes) : Decoded :=
  if _hb : d.buf = [] then ⟨true, decoded, false, d⟩
  else
    match _hs : d.state with
    | .chunkDecSize =>
      match _hc : cutLine crlf d.buf with
      | none => ⟨true, decoded, false, d⟩
      | some (line, rest) =>
        match readSize (before (ascii ";") line) with
        | none => ⟨false, decoded, false, { d with buf := rest }⟩
        | some size => decodeLoop ⟨afterSize size, size, rest⟩ decoded
    | .chunkDecData =>
      let avail := min d.buf.length d.remaining
      let decoded := decoded ++ d.buf.take avail
      if d.remaining - avail = 0 then decodeLoop ⟨.chunkDecDataCrlf, 0, d.buf.drop avail⟩ decoded
      else ⟨true, decoded, false, ⟨.chunkDecData, d.remaining - avail, d.buf.drop avail⟩⟩
    | .chunkDecDataCrlf =>
      match _hc : d.buf with
      | a :: b :: rest =>
        if [a, b] = crlf then decodeLoop ⟨.chunkDecSize, d.remaining, rest⟩ decoded
        else ⟨false, decoded, false, d⟩
      | _ => ⟨true, decoded, false, d⟩
    | .chunkDecTrailers =>
      match _hc : cutLine crlf d.buf with
      | none => ⟨true, decoded, false, d⟩
      | some (line, rest) =>
        if line = [] then ⟨true, decoded, true, ⟨.chunkDecDone, d.remaining, rest⟩⟩
        else decodeLoop ⟨.chunkDecTrailers, d.remaining, rest⟩ decoded
    | .chunkDecDone => ⟨true, decoded, true, d⟩
termination_by 2 * d.buf.length + (if d.state = .chunkDecData then 1 else 0)
decreasing_by
  · have hlen := cutLine_length _hc
    simp only [crlf, List.length_cons, List.length_nil] at hlen
    split <;> split <;> omega
  · simp only [_hs, List.length_drop, if_true, if_false]
    omega
  · simp only [_hc, List.length_cons, if_false]
    omega
  · have hlen := cutLine_length _hc
    simp only [crlf, List.length_cons, List.length_nil] at hlen
    simp
    omega

def decodeChunkedForCgi (d : ChunkDecoder) (data : Bytes) : Decoded :=
  decodeLoop { d with buf := d.buf ++ data } []

theorem afterSize_ne_done (size : ℕ) : afterSize size ≠ .chunkDecDone := by
  unfold afterSize
  split <;> simp

/-! ## The decoder as a machine -/

/-- What a size line announces, when the decoder accepts it. -/
def decoderSizeOf (line : Bytes) : Option ℕ := readSize (before (ascii ";") line)

def ChunkedDecState.phase : ChunkedDecState → Phase
  | .chunkDecSize => .size
  | .chunkDecData => .data
  | .chunkDecDataCrlf => .dataCrlf
  | .chunkDecTrailers => .trailers
  | .chunkDecDone => .trailers

def ChunkDecoder.config (d : ChunkDecoder) (out : Bytes) : Config :=
  ⟨d.state.phase, d.remaining, out, d.buf, if d.state = .chunkDecDone then .finished else .running⟩

def Decoded.verdict (r : Decoded) : Verdict :=
  if r.ok then (if r.eof then .finished r.decoder.buf else .needMore) else .error

theorem readSize_eq (t : Bytes) :
    readSize t = if IsHex t then some (hexValue t % 2 ^ 64) else none := by
  have hloop : ∀ (t : Bytes) (v : ℕ),
      t.foldlM (fun size c => (hexDigit c).map (fun d => (size * 16 + d) % 2 ^ 64)) (v % 2 ^ 64) =
        if IsHex t then some (readDigits 16 hexDigit v t % 2 ^ 64) else none := by
    intro t
    induction t with
    | nil => intro v; simp [IsHex, readDigits]
    | cons c t ih =>
      intro v
      cases hc : hexDigit c with
      | none => simp [IsHex, hc]
      | some d =>
        have hv : (v % 2 ^ 64 * 16 + d) % 2 ^ 64 = (v * 16 + d) % 2 ^ 64 := by omega
        have hhex : IsHex (c :: t) ↔ IsHex t := by simp [IsHex, hc]
        have hread : readDigits 16 hexDigit v (c :: t) = readDigits 16 hexDigit (v * 16 + d) t := by
          simp [readDigits, hc]
        simp only [List.foldlM_cons, hc, Option.map_some, Option.bind_eq_bind, Option.bind_some, hv, hhex,
          hread]
        exact ih (v * 16 + d)
  exact hloop t 0

/-- A call makes steps of the machine and stops where it waits, ends or fails. -/
structure Follows (c : Config) (r : Decoded) : Prop where
  waits : r.ok = true → r.eof = false →
    (machine decoderSizeOf anyOutput).Steps c (r.decoder.config r.decoded) ∧
    r.decoder.state ≠ .chunkDecDone ∧
    ((machine decoderSizeOf anyOutput).run (r.decoder.config r.decoded)).status = .running ∧
    ((machine decoderSizeOf anyOutput).run (r.decoder.config r.decoded)).out = r.decoded
  ends : r.eof = true → r.ok = true ∧ r.decoder.state = .chunkDecDone ∧
    (machine decoderSizeOf anyOutput).Steps c (r.decoder.config r.decoded)
  fails : r.ok = false → ∃ c', (machine decoderSizeOf anyOutput).Steps c c' ∧
    c'.status = .malformed ∧ c'.out = r.decoded

theorem Follows.trans {c c' : Config} {r : Decoded} (hr : Follows c' r)
    (h : (machine decoderSizeOf anyOutput).Steps c c') : Follows c r where
  waits hok heof := ⟨h.trans (hr.waits hok heof).1, (hr.waits hok heof).2⟩
  ends heof := ⟨(hr.ends heof).1, (hr.ends heof).2.1, h.trans (hr.ends heof).2.2⟩
  fails hok := by
    obtain ⟨c'', hsteps, hrest⟩ := hr.fails hok
    exact ⟨c'', h.trans hsteps, hrest⟩

/-- Waiting in a state without a step. -/
theorem Follows.stuck {d : ChunkDecoder} {out : Bytes} (hd : d.state ≠ .chunkDecDone)
    (h : step decoderSizeOf anyOutput (d.config out) = none) :
    Follows (d.config out) ⟨true, out, false, d⟩ where
  waits _ _ := by
    have hrun : (machine decoderSizeOf anyOutput).run (d.config out) = d.config out :=
      Machine.run_of_none h
    refine ⟨Machine.Steps.refl _, hd, ?_, ?_⟩
    · rw [hrun]
      exact if_neg hd
    · rw [hrun]
      rfl
  ends := nofun
  fails := nofun

theorem Follows.failed {c e : Config} {out : Bytes} {d : ChunkDecoder}
    (h : step decoderSizeOf anyOutput c = some e) (hs : e.status = .malformed) (ho : e.out = out) :
    Follows c ⟨false, out, false, d⟩ where
  waits := nofun
  ends := nofun
  fails _ := ⟨e, Machine.Steps.single h, hs, ho⟩

/-- With an empty buffer nothing is decoded any more. -/
theorem Follows.empty {d : ChunkDecoder} {out : Bytes} (hd : d.state ≠ .chunkDecDone)
    (hb : d.buf = []) : Follows (d.config out) ⟨true, out, false, d⟩ := by
  have hcut : cutLine crlf ([] : Bytes) = none := by decide
  rcases d with ⟨state, remaining, buf⟩
  dsimp only at hb hd
  subst hb
  cases state with
  | chunkDecSize =>
    exact Follows.stuck hd (by simp [step, ChunkDecoder.config, ChunkedDecState.phase, sizeStep, hcut])
  | chunkDecData =>
    rcases remaining with _ | n
    · -- a count of zero lets the machine look for the end mark at once
      have hstep : step decoderSizeOf anyOutput ⟨.data, 0, out, [], .running⟩ =
          some ⟨.dataCrlf, 0, out, [], .running⟩ := rfl
      have hstuck : step decoderSizeOf anyOutput ⟨.dataCrlf, 0, out, [], .running⟩ = none := rfl
      have hrun : (machine decoderSizeOf anyOutput).run ⟨.data, 0, out, [], .running⟩ =
          ⟨.dataCrlf, 0, out, [], .running⟩ :=
        (Machine.Steps.single hstep).run_eq_of_stuck hstuck
      have hconf : ChunkDecoder.config ⟨.chunkDecData, 0, []⟩ out = ⟨.data, 0, out, [], .running⟩ := rfl
      rw [hconf]
      refine ⟨fun _ _ => ⟨Machine.Steps.refl _, hd, ?_, ?_⟩, by simp, by simp⟩
      · rw [hconf, hrun]
      · rw [hconf, hrun]
    · exact Follows.stuck hd rfl
  | chunkDecDataCrlf => exact Follows.stuck hd rfl
  | chunkDecTrailers =>
    exact Follows.stuck hd (by simp [step, ChunkDecoder.config, ChunkedDecState.phase, trailerStep, hcut])
  | chunkDecDone => exact absurd rfl hd

/-- A block of data is taken as far as it arrived. -/
theorem data_config_steps {d : ChunkDecoder} (hs : d.state = .chunkDecData) (out : Bytes) :
    let avail := min d.buf.length d.remaining
    (machine decoderSizeOf anyOutput).Steps (d.config out)
      (ChunkDecoder.config ⟨.chunkDecData, d.remaining - avail, d.buf.drop avail⟩
        (out ++ d.buf.take avail)) := by
  intro avail
  have hlen : (d.buf.take avail).length = avail := by
    simp only [List.length_take, avail]
    omega
  have hdata := data_steps decoderSizeOf anyOutput out (d.buf.take avail) (d.buf.drop avail)
    (d.remaining - avail)
  rw [hlen, List.take_append_drop, show avail + (d.remaining - avail) = d.remaining by omega] at hdata
  simpa [ChunkDecoder.config, ChunkedDecState.phase, hs] using hdata

/-! ## Turns of the loop -/

section
variable {d : ChunkDecoder} (out : Bytes)

theorem size_turn (hs : d.state = .chunkDecSize) {line rest : Bytes} (hc : cutLine crlf d.buf = some (line, rest))
    {size : ℕ} (hsize : readSize (before (ascii ";") line) = some size) :
    (machine decoderSizeOf anyOutput).Steps (d.config out) (ChunkDecoder.config ⟨afterSize size, size, rest⟩ out) := by
  apply Machine.Steps.single
  cases size <;>
    simp [step, ChunkDecoder.config, ChunkedDecState.phase, hs, sizeStep, hc, decoderSizeOf, hsize, afterSize]

theorem data_turn (hs : d.state = .chunkDecData) (hz : d.remaining - min d.buf.length d.remaining = 0) :
    let avail := min d.buf.length d.remaining
    (machine decoderSizeOf anyOutput).Steps (d.config out)
      (ChunkDecoder.config ⟨.chunkDecDataCrlf, 0, d.buf.drop avail⟩ (out ++ d.buf.take avail)) := by
  intro avail
  have hend : step decoderSizeOf anyOutput
      (ChunkDecoder.config ⟨.chunkDecData, d.remaining - avail, d.buf.drop avail⟩ (out ++ d.buf.take avail)) =
      some (ChunkDecoder.config ⟨.chunkDecDataCrlf, 0, d.buf.drop avail⟩ (out ++ d.buf.take avail)) := by
    rw [hz]
    rfl
  exact (data_config_steps hs out).trans (Machine.Steps.single hend)

theorem mark_turn (hs : d.state = .chunkDecDataCrlf) {a b : UInt8} {rest : Bytes} (hb : d.buf = a :: b :: rest)
    (hab : [a, b] = crlf) : (machine decoderSizeOf anyOutput).Steps (d.config out)
      (ChunkDecoder.config ⟨.chunkDecSize, d.remaining, rest⟩ out) := by
  apply Machine.Steps.single
  simp [step, ChunkDecoder.config, ChunkedDecState.phase, hs, dataCrlfStep, hb, hab]

theorem trailer_turn (hs : d.state = .chunkDecTrailers) {line rest : Bytes}
    (hc : cutLine crlf d.buf = some (line, rest)) (hl : line ≠ []) :
    (machine decoderSizeOf anyOutput).Steps (d.config out)
      (ChunkDecoder.config ⟨.chunkDecTrailers, d.remaining, rest⟩ out) := by
  apply Machine.Steps.single
  simp [step, ChunkDecoder.config, ChunkedDecState.phase, hs, trailerStep, hc, hl]

/-- A size line that is no number. -/
theorem size_refused (hs : d.state = .chunkDecSize) {line rest : Bytes}
    (hc : cutLine crlf d.buf = some (line, rest)) (hsize : readSize (before (ascii ";") line) = none) :
    step decoderSizeOf anyOutput (d.config out) = some ⟨.size, d.remaining, out, rest, .malformed⟩ := by
  simp [step, ChunkDecoder.config, ChunkedDecState.phase, hs, sizeStep, hc, decoderSizeOf, hsize]

/-- A block with something else behind it. -/
theorem mark_refused (hs : d.state = .chunkDecDataCrlf) {a b : UInt8} {rest : Bytes} (hb : d.buf = a :: b :: rest)
    (hab : [a, b] ≠ crlf) :
    step decoderSizeOf anyOutput (d.config out) = some { d.config out with status := .malformed } := by
  simp [step, ChunkDecoder.config, ChunkedDecState.phase, hs, dataCrlfStep, hb, hab]

end

theorem decodeLoop_follows (d : ChunkDecoder) (out : Bytes) (hd : d.state ≠ .chunkDecDone) :
    Follows (d.config out) (decodeLoop d out) := by
  fun_induction decodeLoop d out with
  | case1 d out hb => exact Follows.empty hd hb
  | case2 d out hb hs hc =>
    exact Follows.stuck hd (by
      simp [step, ChunkDecoder.config, ChunkedDecState.phase, hs, sizeStep, hc])
  | case3 d out hb hs line rest hc hsize => exact Follows.failed (size_refused out hs hc hsize) rfl rfl
  | case4 d out hb hs line rest hc size hsize ih =>
    exact (ih (afterSize_ne_done size)).trans (size_turn out hs hc hsize)
  | case5 d out hb hs avail decoded hz ih => exact (ih (by simp)).trans (data_turn out hs hz)
  | case6 d out hb hs avail decoded hz =>
    have hdata := data_config_steps hs out
    obtain ⟨n, hn⟩ : ∃ n, d.remaining - avail = n + 1 := ⟨d.remaining - avail - 1, by omega⟩
    have hdrop : d.buf.drop avail = [] := by
      rw [List.drop_eq_nil_iff]
      omega
    refine (Follows.stuck (by simp) ?_).trans hdata
    rw [hn, hdrop]
    rfl
  | case7 d out hb hs a b rest hc hab ih => exact (ih (by simp)).trans (mark_turn out hs hc hab)
  | case8 d out hb hs a b rest hc hab => exact Follows.failed (mark_refused out hs hc hab) rfl rfl
  | case9 d out hb hs hc =>
    refine Follows.stuck hd ?_
    simp only [step, ChunkDecoder.config, ChunkedDecState.phase, hs, reduceCtorEq, ↓reduceIte, dataCrlfStep]
  | case10 d out hb hs hc =>
    exact Follows.stuck hd (by
      simp [step, ChunkDecoder.config, ChunkedDecState.phase, hs, trailerStep, hc])
  | case11 d out hb hs rest hc =>
    refine ⟨by simp, fun _ => ⟨rfl, rfl, Machine.Steps.single ?_⟩, by simp⟩
    simp [step, ChunkDecoder.config, ChunkedDecState.phase, hs, trailerStep, hc]
  | case12 d out hb hs line rest hc hl ih => exact (ih (by simp)).trans (trailer_turn out hs hc hl)
  | case13 d out hb hs => exact absurd hs hd

/-- One call computes the verdict and the output of the machine. -/
theorem decodeLoop_outcome (d : ChunkDecoder) (out : Bytes) (hd : d.state ≠ .chunkDecDone) :
    let c := (machine decoderSizeOf anyOutput).run (d.config out)
    c.verdict = (decodeLoop d out).verdict ∧ c.out = (decodeLoop d out).decoded := by
  intro c
  have hfollows := decodeLoop_follows d out hd
  generalize decodeLoop d out = r at hfollows
  rcases hok : r.ok with _ | _
  · obtain ⟨c', hsteps, hs, ho⟩ := hfollows.fails hok
    have hrun : c = c' := hsteps.run_eq_of_stuck (by simp [step, hs])
    rw [hrun]
    exact ⟨by simp [Config.verdict, hs, Decoded.verdict, hok], ho⟩
  · rcases heof : r.eof with _ | _
    · obtain ⟨hsteps, -, hs, ho⟩ := hfollows.waits hok heof
      rw [← hsteps.run_eq] at hs ho
      exact ⟨by simp [Config.verdict, c, hs, Decoded.verdict, hok, heof], ho⟩
    · obtain ⟨-, hdone, hsteps⟩ := hfollows.ends heof
      have hrun : c = r.decoder.config r.decoded :=
        hsteps.run_eq_of_stuck (by simp [step, ChunkDecoder.config, hdone])
      rw [hrun]
      exact ⟨by simp [Config.verdict, ChunkDecoder.config, hdone, Decoded.verdict, hok, heof], rfl⟩

end WebServ.Client
