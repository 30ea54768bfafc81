import WebServ.Http.Request
import WebServ.Lib.Chunked

/-! # The request parser as a machine on a growing buffer

One step consumes a line, a byte of the body, or nothing when it only changes the
phase. `parse` is shown to append and then run this machine to quiescence, so its
result inherits the machine's indifference to how the input is cut.
-/
namespace WebServ.HTTPRequest
open Search

def push (r : HTTPRequest) (q : Bytes) : HTTPRequest := { r with buffer := r.buffer ++ q }

@[simp] theorem push_state (r : HTTPRequest) (q : Bytes) : (r.push q).state = r.state := rfl
@[simp] theorem push_buffer (r : HTTPRequest) (q : Bytes) : (r.push q).buffer = r.buffer ++ q := rfl

/-! ## The chunk decoder inside the request -/

/-- What a size line announces, when it is accepted. -/
def chunkSizeOf (line : Bytes) : Option ℕ := (trim blanks (stripExtension line)).bind parseHexString

/-- The check made after each complete chunk. -/
def admits (limit : ℕ) (out : Bytes) : Bool := limit = 0 ∨ out.length ≤ limit

theorem admits_iff {limit : ℕ} {out : Bytes} :
    admits limit out = true ↔ ¬ (limit > 0 ∧ out.length > limit) := by
  simp only [admits, decide_eq_true_eq]
  omega

def ChunkedState.phase : ChunkedState → Chunked.Phase
  | .chunkSize => .size
  | .chunkData => .data
  | .chunkDataCrlf => .dataCrlf
  | .chunkTrailers => .trailers

def ofPhase : Chunked.Phase → ChunkedState
  | .size => .chunkSize
  | .data => .chunkData
  | .dataCrlf => .chunkDataCrlf
  | .trailers => .chunkTrailers

def ofStatus : Chunked.Status → ParseState
  | .running => .parssingBody
  | .finished => .parssingComplete
  | .malformed => .parssingError
  | .overflow => .parssingError

@[simp] theorem ofPhase_phase (s : ChunkedState) : ofPhase (ChunkedState.phase s) = s := by
  cases s <;> rfl
theorem phase_eq_data_iff (s : ChunkedState) : ChunkedState.phase s = .data ↔ s = .chunkData := by
  cases s <;> decide
@[simp] theorem phase_ofPhase (p : Chunked.Phase) : ChunkedState.phase (ofPhase p) = p := by
  cases p <;> rfl

def chunkConfig (r : HTTPRequest) : Chunked.Config :=
  ⟨ChunkedState.phase r.chunkedState, r.chunkRemaining, r.body, r.buffer, .running⟩

def withChunk (r : HTTPRequest) (c : Chunked.Config) : HTTPRequest :=
  { r with
    chunkedState := ofPhase c.phase
    chunkRemaining := c.remaining
    body := c.out
    buffer := c.buf
    state := ofStatus c.status
    bodyTooLarge := r.bodyTooLarge || c.status = .overflow }

/-! ## Steps -/

def requestLineStep (r : HTTPRequest) : Option HTTPRequest :=
  (cutLine crlf r.buffer).map fun _ =>
    match r.parseRequestLine with
    | (true, r') => { r' with state := .parssingHeaders }
    | (false, r') => r'

/-- What the main loop does once the empty header line was read. -/
def endHeaders (r : HTTPRequest) : HTTPRequest :=
  if r.hasBody then { r with isChunked := r.announcesChunked, state := .parssingBody }
  else { r with state := .parssingComplete }

def headerStep (r : HTTPRequest) : Option HTTPRequest :=
  (cutLine crlf r.buffer).map fun (line, rest) =>
    if line = [] then endHeaders { r with buffer := rest }
    else
      match find (ascii ":") line with
      | none => fail { r with buffer := rest }
      | some colon =>
        storeHeader { r with buffer := rest } (line.take colon) (line.drop (colon + 1))

def lengthStep (r : HTTPRequest) : Option HTTPRequest :=
  if r.getHeaderValue (ascii "Content-Length") = [] then some { r with state := .parssingComplete }
  else if r.maxBodySize > 0 ∧ r.contentLength > r.maxBodySize then
    some (fail { r with bodyTooLarge := true })
  else if r.contentLength ≤ r.body.length then some { r with state := .parssingComplete }
  else
    match r.buffer with
    | [] => none
    | b :: rest => some { r with body := r.body ++ [b], buffer := rest }

def chunkedStep (r : HTTPRequest) : Option HTTPRequest :=
  (Chunked.step chunkSizeOf (admits r.maxBodySize) r.chunkConfig).map r.withChunk

def step (r : HTTPRequest) : Option HTTPRequest :=
  match r.state with
  | .parssingRequestLine => r.requestLineStep
  | .parssingHeaders => r.headerStep
  | .parssingBody => if r.isChunked then r.chunkedStep else r.lengthStep
  | .parssingComplete => none
  | .parssingError => none

def Terminal (r : HTTPRequest) : Prop := r.state = .parssingComplete ∨ r.state = .parssingError

instance (r : HTTPRequest) : Decidable r.Terminal := inferInstanceAs (Decidable (_ ∨ _))

def weight (r : HTTPRequest) : ℕ :=
  3 * r.buffer.length + (if r.chunkedState = .chunkData then 1 else 0) + (if r.Terminal then 0 else 1)

theorem parseRequestLine_frame {r r' : HTTPRequest} {b : Bool} {line rest : Bytes}
    (hcut : cutLine crlf r.buffer = some (line, rest)) (h : r.parseRequestLine = (b, r')) :
    r'.buffer = rest ∧ r'.chunkedState = r.chunkedState ∧ (b = false → r'.state = .parssingError) := by
  unfold parseRequestLine at h
  simp only [hcut] at h
  split at h
  · cases h; simp [fail]
  · split at h
    · cases h; simp [fail]
    · split at h <;> cases h <;> simp [fail]

/-- The request line is read from its own bytes: input behind it does not matter. -/
theorem parseRequestLine_push {r r' : HTTPRequest} {b : Bool} (q : Bytes) {p : Bytes × Bytes}
    (hcut : cutLine crlf r.buffer = some p) (h : r.parseRequestLine = (b, r')) :
    (r.push q).parseRequestLine = (b, r'.push q) := by
  unfold parseRequestLine at h ⊢
  rw [push_buffer, cutLine_append q hcut]
  simp only [hcut] at h ⊢
  split at h
  · next hf => cases h; simp only [hf]; rfl
  · next hf =>
    simp only [hf]
    split at h
    · next hs => cases h; simp only [hs]; rfl
    · next hs =>
      simp only [hs]
      split at h
      · next he => cases h; rw [if_pos he]; rfl
      · next he => cases h; rw [if_neg he]; rfl

theorem endHeaders_push (r : HTTPRequest) (q : Bytes) : (r.push q).endHeaders = r.endHeaders.push q := by
  unfold endHeaders
  have hb : (r.push q).hasBody = r.hasBody := rfl
  rw [hb]
  split <;> rfl

theorem chunkConfig_push (r : HTTPRequest) (q : Bytes) : (r.push q).chunkConfig = r.chunkConfig.push q := rfl

theorem withChunk_push (r : HTTPRequest) (c : Chunked.Config) (q : Bytes) :
    (r.push q).withChunk (c.push q) = (r.withChunk c).push q := rfl

theorem requestLineStep_push {r r' : HTTPRequest} (q : Bytes) (h : r.requestLineStep = some r') :
    (r.push q).requestLineStep = some (r'.push q) := by
  obtain ⟨p, hcut, rfl⟩ := Option.map_eq_some_iff.mp h
  rw [requestLineStep, push_buffer, cutLine_append q hcut, Option.map_some]
  rcases hp : r.parseRequestLine with ⟨b, r'⟩
  rw [parseRequestLine_push q hcut hp]
  cases b <;> rfl

theorem headerStep_push {r r' : HTTPRequest} (q : Bytes) (h : r.headerStep = some r') :
    (r.push q).headerStep = some (r'.push q) := by
  obtain ⟨⟨line, rest⟩, hcut, rfl⟩ := Option.map_eq_some_iff.mp h
  rw [headerStep, push_buffer, cutLine_append q hcut, Option.map_some]
  dsimp only
  split
  · exact congrArg some (endHeaders_push { r with buffer := rest } q)
  · split <;> rfl

theorem lengthStep_push {r r' : HTTPRequest} (q : Bytes) (h : r.lengthStep = some r') :
    (r.push q).lengthStep = some (r'.push q) := by
  have hv : (r.push q).getHeaderValue (ascii "Content-Length") = r.getHeaderValue (ascii "Content-Length") := rfl
  have hl : (r.push q).contentLength = r.contentLength := rfl
  have hm : (r.push q).maxBodySize = r.maxBodySize := rfl
  have hb : (r.push q).body = r.body := rfl
  unfold lengthStep at h ⊢
  rw [hv, hl, hm, hb]
  split at h
  · next h1 => cases h; rw [if_pos h1]; rfl
  · next h1 =>
    rw [if_neg h1]
    split at h
    · next h2 => cases h; rw [if_pos h2]; rfl
    · next h2 =>
      rw [if_neg h2]
      split at h
      · next h3 => cases h; rw [if_pos h3]; rfl
      · next h3 =>
        rw [if_neg h3]
        split at h
        · cases h
        · next hbuf => cases h; rw [push_buffer, hbuf]; rfl

theorem chunkedStep_push {r r' : HTTPRequest} (q : Bytes) (h : r.chunkedStep = some r') :
    (r.push q).chunkedStep = some (r'.push q) := by
  obtain ⟨c, hc, rfl⟩ := Option.map_eq_some_iff.mp h
  have hm : (r.push q).maxBodySize = r.maxBodySize := rfl
  rw [chunkedStep, hm, chunkConfig_push, Chunked.step_push q hc, Option.map_some, withChunk_push]

theorem step_push {r r' : HTTPRequest} (q : Bytes) (h : r.step = some r') :
    (r.push q).step = some (r'.push q) := by
  have hc : (r.push q).isChunked = r.isChunked := rfl
  unfold step at h ⊢
  rw [push_state, hc]
  split at h
  · exact requestLineStep_push q h
  · exact headerStep_push q h
  · split at h
    · next hch => rw [if_pos hch]; exact chunkedStep_push q h
    · next hch => rw [if_neg hch]; exact lengthStep_push q h
  · cases h
  · cases h

theorem not_terminal_of_step {r r' : HTTPRequest} (h : r.step = some r') : ¬ r.Terminal := by
  rintro (hs | hs) <;> simp [step, hs] at h

theorem withChunk_weight (r : HTTPRequest) (c : Chunked.Config) :
    (r.withChunk c).weight = c.weight := by
  rcases c with ⟨phase, remaining, out, buf, status⟩
  cases phase <;> cases status <;> rfl

theorem chunkConfig_weight {r : HTTPRequest} (hs : r.state = .parssingBody) :
    r.chunkConfig.weight = r.weight := by
  have ht : ¬ r.Terminal := by simp [Terminal, hs]
  simp only [weight, if_neg ht, Chunked.Config.weight, chunkConfig, phase_eq_data_iff, ↓reduceIte]

theorem step_weight_lt {r r' : HTTPRequest} (h : r.step = some r') : r'.weight < r.weight := by
  have ht := not_terminal_of_step h
  have hterm : ∀ s : HTTPRequest, (if s.Terminal then 0 else 1) ≤ 1 := by
    intro s
    split <;> omega
  unfold step at h
  split at h
  · obtain ⟨⟨line, rest⟩, hcut, rfl⟩ := Option.map_eq_some_iff.mp h
    have hlen := cutLine_length hcut
    simp only [crlf, List.length_cons, List.length_nil] at hlen
    rcases hp : r.parseRequestLine with ⟨b, r'⟩
    obtain ⟨hbuf, hch, -⟩ := parseRequestLine_frame hcut hp
    cases b
    · have := hterm r'
      simp only [weight, if_neg ht, hbuf, hch]
      omega
    · have := hterm { r' with state := .parssingHeaders }
      simp only [weight, if_neg ht, hbuf, hch] at this ⊢
      omega
  · obtain ⟨⟨line, rest⟩, hcut, rfl⟩ := Option.map_eq_some_iff.mp h
    have hlen := cutLine_length hcut
    simp only [crlf, List.length_cons, List.length_nil] at hlen
    have hkeep : ∀ s : HTTPRequest, s.buffer = rest → s.chunkedState = r.chunkedState →
        s.weight < r.weight := by
      intro s hb hc
      have := hterm s
      simp only [weight, if_neg ht, hb, hc]
      omega
    dsimp only
    split
    · unfold endHeaders
      split <;> exact hkeep _ rfl rfl
    · split <;> exact hkeep _ rfl rfl
  · next hs =>
    split at h
    · obtain ⟨c, hc, rfl⟩ := Option.map_eq_some_iff.mp h
      rw [withChunk_weight, ← chunkConfig_weight hs]
      exact Chunked.step_weight_lt hc
    · unfold lengthStep at h
      have hdone : ∀ s : HTTPRequest, s.Terminal → s.buffer = r.buffer →
          s.chunkedState = r.chunkedState → s.weight < r.weight := by
        intro s hst hb hc
        simp only [weight, if_neg ht, if_pos hst, hb, hc]
        omega
      split at h
      · cases h; exact hdone _ (Or.inl rfl) rfl rfl
      · split at h
        · cases h; exact hdone _ (Or.inr rfl) rfl rfl
        · split at h
          · cases h; exact hdone _ (Or.inl rfl) rfl rfl
          · split at h
            · cases h
            · next hbuf =>
              cases h
              simp only [weight, Terminal, hs, hbuf, List.length_cons, reduceCtorEq, or_self, ↓reduceIte]
              omega
  · cases h
  · cases h

/-- The request parser as a machine. -/
@[reducible] def machine : Machine HTTPRequest UInt8 where
  step := step
  push := push
  weight := weight
  push_nil r := by simp [push]
  push_push r p q := by simp [push]
  weight_lt := step_weight_lt
  step_push := step_push

/-! ## `parse` runs the machine -/

theorem step_eq_none_of_terminal {r : HTTPRequest} (h : r.Terminal) : r.step = none := by
  rcases h with hs | hs <;> simp [step, hs]

/-- No step is possible and the message is not complete: more input, or an error. -/
def Waiting (r : HTTPRequest) : Prop := r.step = none ∧ r.state ≠ .parssingComplete

theorem waiting_of_error {r : HTTPRequest} (h : r.state = .parssingError) : r.Waiting :=
  ⟨step_eq_none_of_terminal (Or.inr h), by simp [h]⟩

theorem waiting_fail (r : HTTPRequest) : r.fail.Waiting := waiting_of_error rfl

/-- A decoder run inside the body phase is a run of the whole parser. -/
theorem steps_withChunk {r : HTTPRequest} (hs : r.state = .parssingBody) (hch : r.isChunked)
    {c : Chunked.Config}
    (h : (Chunked.machine chunkSizeOf (admits r.maxBodySize)).Steps r.chunkConfig c) :
    machine.Steps r (r.withChunk c) := by
  induction h with
  | refl =>
    have hself : r.withChunk r.chunkConfig = r := by
      simp [withChunk, chunkConfig, ofStatus, ← hs]
    rw [hself]
  | @tail c c' _ hstep ih =>
    have hrun := Chunked.running_of_step hstep
    refine ih.trans (Machine.Steps.single ?_)
    have hconf : (r.withChunk c).chunkConfig = c := by
      rcases c with ⟨phase, remaining, out, buf, status⟩
      subst hrun
      simp [chunkConfig, withChunk]
    have hback : (r.withChunk c).withChunk c' = r.withChunk c' := by
      simp [withChunk, hrun]
    have hbody : (r.withChunk c).state = .parssingBody := by simp [withChunk, hrun, ofStatus]
    have hch' : (r.withChunk c).isChunked = true := hch
    have hm : (r.withChunk c).maxBodySize = r.maxBodySize := rfl
    change (r.withChunk c).step = _
    simp only [step, hbody, hch', ↓reduceIte, chunkedStep, hconf, hm]
    change Chunked.step _ _ c = _ at hstep
    rw [hstep, Option.map_some, hback]

theorem step_withChunk_eq_none {r : HTTPRequest} {c : Chunked.Config} (hch : r.isChunked = true)
    (hc : Chunked.step chunkSizeOf (admits r.maxBodySize) c = none) : (r.withChunk c).step = none := by
  rcases c with ⟨phase, remaining, out, buf, status⟩
  cases status with
  | running =>
    have hstep : (r.withChunk ⟨phase, remaining, out, buf, .running⟩).step =
        (Chunked.step chunkSizeOf (admits r.maxBodySize) ⟨phase, remaining, out, buf, .running⟩).map
          (r.withChunk ⟨phase, remaining, out, buf, .running⟩).withChunk := by
      simp [step, withChunk, ofStatus, hch, chunkedStep, chunkConfig]
    rw [hstep, hc, Option.map_none]
  | finished => exact step_eq_none_of_terminal (Or.inl rfl)
  | malformed => exact step_eq_none_of_terminal (Or.inr rfl)
  | overflow => exact step_eq_none_of_terminal (Or.inr rfl)

/-- Inside a chunked body the parser runs as the decoder does. -/
theorem run_withChunk {r : HTTPRequest} (hs : r.state = .parssingBody) (hch : r.isChunked = true) :
    machine.run r =
      r.withChunk ((Chunked.machine chunkSizeOf (admits r.maxBodySize)).run r.chunkConfig) := by
  refine (steps_withChunk hs hch ((Chunked.machine _ _).steps_run _)).run_eq_of_stuck ?_
  exact step_withChunk_eq_none hch ((Chunked.machine _ _).step_run _)

/-- A chunk routine that reports progress has made steps and stays in the body;
one that reports none leaves the parser stuck. -/
def Advances (r : HTTPRequest) (res : Bool × HTTPRequest) : Prop :=
  machine.Steps r res.2 ∧
  (res.1 = true → res.2.state = .parssingBody ∧ res.2.isChunked = true) ∧
  (res.1 = false → res.2.Waiting)

/-- A size that cannot be read ends the body. -/
theorem chunkSize_refused {r : HTTPRequest}
    (hstep : r.step = (Chunked.sizeStep chunkSizeOf r.chunkConfig).map r.withChunk) {line rest : Bytes}
    (hcut : cutLine crlf r.buffer = some (line, rest)) (hsize : chunkSizeOf line = none) :
    Advances r (false, { r with buffer := rest }.fail) := by
  have hc : Chunked.sizeStep chunkSizeOf r.chunkConfig =
      some { r.chunkConfig with buf := rest, status := .malformed } := by
    simp [Chunked.sizeStep, chunkConfig, hcut, hsize]
  have hfail : r.withChunk { r.chunkConfig with buf := rest, status := .malformed } =
      { r with buffer := rest }.fail := by
    simp [withChunk, chunkConfig, fail, ofStatus]
  have hone : r.step = some { r with buffer := rest }.fail := by
    rw [hstep, hc, Option.map_some, hfail]
  exact ⟨Machine.Steps.single hone, by simp, fun _ => waiting_fail _⟩

theorem parseChunkSize_advances {r : HTTPRequest} (hs : r.state = .parssingBody) (hch : r.isChunked)
    (hp : r.chunkedState = .chunkSize) : Advances r r.parseChunkSize := by
  have hstep : r.step = (Chunked.sizeStep chunkSizeOf r.chunkConfig).map r.withChunk := by
    simp only [step, hs, hch, ↓reduceIte, chunkedStep, Chunked.step, chunkConfig, hp, ChunkedState.phase]
  unfold parseChunkSize
  cases hcut : cutLine crlf r.buffer with
  | none =>
    refine ⟨Machine.Steps.refl _, by simp, fun _ => ⟨?_, by simp [hs]⟩⟩
    simp [hstep, Chunked.sizeStep, chunkConfig, hcut]
  | some p =>
    obtain ⟨line, rest⟩ := p
    dsimp only
    cases ht : trim blanks (stripExtension line) with
    | none => exact chunkSize_refused hstep hcut (by simp [chunkSizeOf, ht])
    | some text =>
      dsimp only
      cases hx : parseHexString text with
      | none => exact chunkSize_refused hstep hcut (by simp [chunkSizeOf, ht, hx])
      | some n =>
        have hsz : chunkSizeOf line = some n := by simp [chunkSizeOf, ht, hx]
        have hc : Chunked.sizeStep chunkSizeOf r.chunkConfig = some { r.chunkConfig with
            buf := rest, remaining := n, phase := if n = 0 then .trailers else .data } := by
          cases n <;> simp [Chunked.sizeStep, chunkConfig, hcut, hsz]
        refine ⟨Machine.Steps.single (hstep.trans ?_), fun _ => ⟨hs, hch⟩, by simp⟩
        rw [hc]
        cases n <;> simp [withChunk, chunkConfig, ofStatus, ofPhase, hs]

theorem parseChunkData_advances {r : HTTPRequest} (hs : r.state = .parssingBody) (hch : r.isChunked)
    (hp : r.chunkedState = .chunkData) : Advances r r.parseChunkData := by
  unfold parseChunkData
  by_cases hlen : r.buffer.length ≥ r.chunkRemaining
  · -- the whole block is there: take it, then pass the admission check
    have htake : (r.buffer.take r.chunkRemaining).length + 0 = r.chunkRemaining := by
      simp; omega
    have hdata := Chunked.data_steps chunkSizeOf (admits r.maxBodySize) r.body
      (r.buffer.take r.chunkRemaining) (r.buffer.drop r.chunkRemaining) 0
    rw [htake, List.take_append_drop] at hdata
    have hconf : r.chunkConfig = ⟨.data, r.chunkRemaining, r.body, r.buffer, .running⟩ := by
      simp [chunkConfig, hp, ChunkedState.phase]
    rw [← hconf] at hdata
    have hcheck : Chunked.step chunkSizeOf (admits r.maxBodySize)
        ⟨.data, 0, r.body ++ r.buffer.take r.chunkRemaining, r.buffer.drop r.chunkRemaining, .running⟩ =
        some ⟨.dataCrlf, 0, r.body ++ r.buffer.take r.chunkRemaining, r.buffer.drop r.chunkRemaining,
          if admits r.maxBodySize (r.body ++ r.buffer.take r.chunkRemaining) then .running else .overflow⟩ := rfl
    have hall := steps_withChunk hs hch (hdata.trans (Machine.Steps.single hcheck))
    rw [if_pos hlen]
    dsimp only
    split
    · next hbig =>
      have hadm : admits r.maxBodySize (r.body ++ r.buffer.take r.chunkRemaining) = false :=
        Bool.eq_false_iff.mpr (fun h => admits_iff.mp h hbig)
      refine ⟨?_, by simp, fun _ => waiting_fail _⟩
      rw [hadm] at hall
      simpa [withChunk, ofStatus, ofPhase, fail] using hall
    · next hfit =>
      have hadm : admits r.maxBodySize (r.body ++ r.buffer.take r.chunkRemaining) = true :=
        admits_iff.mpr hfit
      refine ⟨?_, fun _ => ⟨hs, hch⟩, by simp⟩
      rw [hadm] at hall
      simpa [withChunk, ofStatus, ofPhase, ← hs] using hall
  · -- the block is cut short: all that is there is taken
    have hdata := Chunked.data_steps chunkSizeOf (admits r.maxBodySize) r.body r.buffer []
      (r.chunkRemaining - r.buffer.length)
    have hrem : r.buffer.length + (r.chunkRemaining - r.buffer.length) = r.chunkRemaining := by omega
    have hconf : r.chunkConfig = ⟨.data, r.chunkRemaining, r.body, r.buffer, .running⟩ := by
      simp [chunkConfig, hp, ChunkedState.phase]
    rw [hrem, List.append_nil, ← hconf] at hdata
    have hall := steps_withChunk hs hch hdata
    rw [if_neg hlen]
    refine ⟨?_, by simp, fun _ => ⟨?_, by simp [hs]⟩⟩
    · simpa [withChunk, ofStatus, ofPhase, ← hs, ← hp] using hall
    · obtain ⟨n, hn⟩ : ∃ n, r.chunkRemaining - r.buffer.length = n + 1 :=
        Nat.exists_eq_add_one_of_ne_zero (by omega)
      simp [step, hs, hch, chunkedStep, Chunked.step, chunkConfig, hp, ChunkedState.phase,
        Chunked.dataStep, hn]

theorem parseChunkDataCrlf_advances {r : HTTPRequest} (hs : r.state = .parssingBody) (hch : r.isChunked)
    (hp : r.chunkedState = .chunkDataCrlf) : Advances r r.parseChunkDataCrlf := by
  have hstep : r.step = (Chunked.dataCrlfStep r.chunkConfig).map r.withChunk := by
    simp only [step, hs, hch, ↓reduceIte, chunkedStep, Chunked.step, chunkConfig, hp, ChunkedState.phase]
  unfold parseChunkDataCrlf
  split
  · next a b rest hb =>
    by_cases hab : [a, b] = crlf
    · rw [if_pos hab]
      refine ⟨Machine.Steps.single (hstep.trans ?_), fun _ => ⟨hs, hch⟩, by simp⟩
      simp [Chunked.dataCrlfStep, chunkConfig, hb, hab, withChunk, ofStatus, ofPhase, hs]
    · rw [if_neg hab]
      refine ⟨Machine.Steps.single (hstep.trans ?_), by simp, fun _ => waiting_fail _⟩
      simp [Chunked.dataCrlfStep, chunkConfig, hb, hab, withChunk, ofStatus, fail]
  · next hb =>
    refine ⟨Machine.Steps.refl _, by simp, fun _ => ⟨?_, by simp [hs]⟩⟩
    rw [hstep]
    unfold Chunked.dataCrlfStep
    split
    · next a b rest he => exact absurd he (hb a b rest)
    · rfl

/-- A body routine that reports completion leaves only the phase change to do. -/
def Finishes (r : HTTPRequest) (res : Bool × HTTPRequest) : Prop :=
  machine.Steps r (if res.1 then { res.2 with state := .parssingComplete } else res.2) ∧
  (res.1 = false → res.2.Waiting)

theorem Advances.finishes {r r' : HTTPRequest} {res : Bool × HTTPRequest}
    (h : Advances r (true, r')) (hf : Finishes r' res) : Finishes r res :=
  ⟨h.1.trans hf.1, hf.2⟩

theorem parseChunkTrailers_finishes {r : HTTPRequest} (hs : r.state = .parssingBody)
    (hch : r.isChunked) (hp : r.chunkedState = .chunkTrailers) : Finishes r r.parseChunkTrailers := by
  have hstep : ∀ s : HTTPRequest, s.state = .parssingBody → s.isChunked → s.chunkedState = .chunkTrailers →
      s.step = (Chunked.trailerStep s.chunkConfig).map s.withChunk := by
    intro s h1 h2 h3
    simp only [step, h1, h2, ↓reduceIte, chunkedStep, Chunked.step, chunkConfig, h3, ChunkedState.phase]
  induction hn : r.buffer.length using Nat.strongRecOn generalizing r with
  | ind n ih =>
    unfold parseChunkTrailers
    split
    · next hcut =>
      refine ⟨Machine.Steps.refl _, fun _ => ⟨?_, by simp [hs]⟩⟩
      simp [hstep r hs hch hp, Chunked.trailerStep, chunkConfig, hcut]
    · next line rest hcut =>
      have hlen := cutLine_length hcut
      simp only [crlf, List.length_cons, List.length_nil] at hlen
      have hone := hstep r hs hch hp
      simp only [Chunked.trailerStep, chunkConfig, hcut, Option.map_some] at hone
      split
      · next hl =>
        refine ⟨Machine.Steps.single (hone.trans ?_), by simp⟩
        simp [hl, withChunk, ofStatus, hp, ChunkedState.phase, ofPhase]
      · next hl =>
        have hrec := ih rest.length (by omega) (r := { r with buffer := rest }) hs hch hp rfl
        refine ⟨Machine.Steps.head (hone.trans ?_) hrec.1, hrec.2⟩
        simp [hl, withChunk, ofStatus, hp, ChunkedState.phase, ofPhase, ← hs]

theorem parseChunkedBody_finishes {r : HTTPRequest} (hs : r.state = .parssingBody)
    (hch : r.isChunked) : Finishes r r.parseChunkedBody := by
  fun_induction parseChunkedBody r with
  | case1 r hp r' he ih =>
    have h := parseChunkSize_advances hs hch hp
    rw [he] at h
    exact h.finishes (ih (h.2.1 rfl).1 (h.2.1 rfl).2)
  | case2 r hp r' he =>
    have h := parseChunkSize_advances hs hch hp
    rw [he] at h
    exact ⟨h.1, h.2.2⟩
  | case3 r hp r' he ih =>
    have h := parseChunkData_advances hs hch hp
    rw [he] at h
    exact h.finishes (ih (h.2.1 rfl).1 (h.2.1 rfl).2)
  | case4 r hp r' he =>
    have h := parseChunkData_advances hs hch hp
    rw [he] at h
    exact ⟨h.1, h.2.2⟩
  | case5 r hp r' he ih =>
    have h := parseChunkDataCrlf_advances hs hch hp
    rw [he] at h
    exact h.finishes (ih (h.2.1 rfl).1 (h.2.1 rfl).2)
  | case6 r hp r' he =>
    have h := parseChunkDataCrlf_advances hs hch hp
    rw [he] at h
    exact ⟨h.1, h.2.2⟩
  | case7 r hp => exact parseChunkTrailers_finishes hs hch hp

/-- Counted bytes are taken one by one by the machine. -/
theorem length_steps {r : HTTPRequest} (hs : r.state = .parssingBody) (hch : r.isChunked = false)
    (hv : r.getHeaderValue (ascii "Content-Length") ≠ [])
    (hm : ¬ (r.maxBodySize > 0 ∧ r.contentLength > r.maxBodySize)) (d rest : Bytes)
    (hb : r.buffer = d ++ rest) (hd : r.body.length + d.length ≤ r.contentLength) :
    machine.Steps r { r with body := r.body ++ d, buffer := rest } := by
  induction d generalizing r with
  | nil =>
    have hself : ({ r with body := r.body ++ [], buffer := rest } : HTTPRequest) = r := by
      simp [← show r.buffer = rest by simpa using hb]
    rw [hself]
  | cons b d ih =>
    simp only [List.length_cons] at hd
    have hstep : r.step = some { r with body := r.body ++ [b], buffer := d ++ rest } := by
      simp only [step, hs, hch, Bool.false_eq_true, ↓reduceIte, lengthStep, if_neg hv, if_neg hm,
        if_neg (show ¬ r.contentLength ≤ r.body.length by omega), hb, List.cons_append]
    have hrec := ih (r := { r with body := r.body ++ [b], buffer := d ++ rest }) hs hch hv hm rfl (by
      simp only [List.length_append, List.length_singleton]
      change _ ≤ r.contentLength
      omega)
    refine Machine.Steps.head hstep ?_
    simpa [List.append_assoc] using hrec

/-- A counted body is complete as soon as its length is reached. -/
theorem step_length_done {r : HTTPRequest} (hs : r.state = .parssingBody) (hch : r.isChunked = false)
    (hv : r.getHeaderValue (ascii "Content-Length") ≠ [])
    (hm : ¬ (r.maxBodySize > 0 ∧ r.contentLength > r.maxBodySize))
    (hl : r.contentLength ≤ r.body.length) : r.step = some { r with state := .parssingComplete } := by
  simp only [step, hs, hch, Bool.false_eq_true, ↓reduceIte, lengthStep, if_neg hv, if_neg hm, if_pos hl]

/-- A length above the limit is refused whatever the body holds. -/
theorem step_length_over {r : HTTPRequest} (hs : r.state = .parssingBody) (hch : r.isChunked = false)
    (hv : r.getHeaderValue (ascii "Content-Length") ≠ [])
    (hm : r.maxBodySize > 0 ∧ r.contentLength > r.maxBodySize) :
    r.step = some (fail { r with bodyTooLarge := true }) := by
  simp only [step, hs, hch, Bool.false_eq_true, ↓reduceIte, lengthStep, if_neg hv, if_pos hm]

theorem step_length_wait {r : HTTPRequest} (hs : r.state = .parssingBody) (hch : r.isChunked = false)
    (hv : r.getHeaderValue (ascii "Content-Length") ≠ [])
    (hm : ¬ (r.maxBodySize > 0 ∧ r.contentLength > r.maxBodySize))
    (hl : ¬ r.contentLength ≤ r.body.length) (hb : r.buffer = []) : r.step = none := by
  simp only [step, hs, hch, Bool.false_eq_true, ↓reduceIte, lengthStep, if_neg hv, if_neg hm, if_neg hl, hb]

theorem parseBody_finishes {r : HTTPRequest} (hs : r.state = .parssingBody) :
    Finishes r r.parseBody := by
  unfold parseBody
  by_cases hch : r.isChunked
  · rw [if_pos hch]
    exact parseChunkedBody_finishes hs hch
  rw [if_neg hch]
  have hcf : r.isChunked = false := by simpa using hch
  have hstep : r.step = r.lengthStep := by simp [step, hs, hcf]
  by_cases hv : r.getHeaderValue (ascii "Content-Length") = []
  · rw [if_pos hv]
    exact ⟨Machine.Steps.single (hstep.trans (by simp [lengthStep, hv])), by simp⟩
  rw [if_neg hv]
  dsimp only
  by_cases hm : r.maxBodySize > 0 ∧ r.contentLength > r.maxBodySize
  · rw [if_pos hm]
    exact ⟨Machine.Steps.single (hstep.trans (by simp only [lengthStep, if_neg hv, if_pos hm]; rfl)),
      fun _ => waiting_fail _⟩
  rw [if_neg hm]
  by_cases hl : r.contentLength > r.body.length
  · rw [if_pos hl]
    by_cases hn : r.buffer.length ≥ r.contentLength - r.body.length
    · -- the counted bytes are all there
      rw [if_pos hn]
      have htake : (r.buffer.take (r.contentLength - r.body.length)).length =
          r.contentLength - r.body.length := by simp; omega
      have hsteps := length_steps hs hcf hv hm (r.buffer.take (r.contentLength - r.body.length))
        (r.buffer.drop (r.contentLength - r.body.length)) (List.take_append_drop _ _).symm (by omega)
      refine ⟨hsteps.trans (Machine.Steps.single (step_length_done hs hcf hv hm ?_)), by simp⟩
      change r.contentLength ≤ _
      rw [List.length_append, htake]
      omega
    · -- some are missing: take what there is and wait
      rw [if_neg hn]
      refine ⟨length_steps hs hcf hv hm r.buffer [] (by simp) (by omega), fun _ => ⟨?_, by simp [hs]⟩⟩
      refine step_length_wait hs hcf hv hm ?_ rfl
      change ¬ r.contentLength ≤ (r.body ++ r.buffer).length
      rw [List.length_append]
      omega
  · rw [if_neg hl]
    exact ⟨Machine.Steps.single (step_length_done hs hcf hv hm (by omega)), by simp⟩

theorem parseHeaders_steps {r : HTTPRequest} (hs : r.state = .parssingHeaders) :
    machine.Steps r (if r.parseHeaders.1 then r.parseHeaders.2.endHeaders else r.parseHeaders.2) ∧
    (r.parseHeaders.1 = false → r.parseHeaders.2.Waiting) := by
  induction hn : r.buffer.length using Nat.strongRecOn generalizing r with
  | ind n ih =>
    have hstep : r.step = r.headerStep := by simp [step, hs]
    unfold parseHeaders
    split
    · next hcut =>
      refine ⟨Machine.Steps.refl _, fun _ => ⟨?_, by simp [hs]⟩⟩
      simp [hstep, headerStep, hcut]
    · next line rest hcut =>
      have hlen := cutLine_length hcut
      simp only [crlf, List.length_cons, List.length_nil] at hlen
      rw [headerStep, hcut, Option.map_some] at hstep
      dsimp only at hstep
      split
      · next hl =>
        rw [if_pos hl] at hstep
        exact ⟨Machine.Steps.single hstep, by simp⟩
      · next hl =>
        rw [if_neg hl] at hstep
        split
        · next hf =>
          rw [hf] at hstep
          exact ⟨Machine.Steps.single hstep, fun _ => waiting_fail _⟩
        · next colon hf =>
          rw [hf] at hstep
          have hrec := ih rest.length (by omega)
            (r := storeHeader { r with buffer := rest } (line.take colon) (line.drop (colon + 1))) hs rfl
          exact ⟨Machine.Steps.head hstep hrec.1, hrec.2⟩

theorem parseRequestLine_steps {r : HTTPRequest} (hs : r.state = .parssingRequestLine) :
    machine.Steps r (if r.parseRequestLine.1 then { r.parseRequestLine.2 with state := .parssingHeaders }
      else r.parseRequestLine.2) ∧
    (r.parseRequestLine.1 = false → r.parseRequestLine.2.Waiting) := by
  have hstep : r.step = r.requestLineStep := by simp [step, hs]
  cases hcut : cutLine crlf r.buffer with
  | none =>
    have hnone : r.parseRequestLine = (false, r) := by simp [parseRequestLine, hcut]
    rw [hnone]
    exact ⟨Machine.Steps.refl _, fun _ => ⟨by simp [hstep, requestLineStep, hcut], by simp [hs]⟩⟩
  | some p =>
    rw [requestLineStep, hcut, Option.map_some] at hstep
    rcases hp : r.parseRequestLine with ⟨b, r'⟩
    obtain ⟨-, -, herr⟩ := parseRequestLine_frame hcut hp
    rw [hp] at hstep
    cases b with
    | true => exact ⟨Machine.Steps.single hstep, by simp⟩
    | false => exact ⟨Machine.Steps.single hstep, fun _ => waiting_of_error (herr rfl)⟩

/-- The main loop runs the machine until it is stuck, and tells whether the message is complete. -/
theorem parseLoop_spec (r : HTTPRequest) :
    machine.Steps r r.parseLoop.2 ∧ r.parseLoop.2.step = none ∧
      r.parseLoop.1 = decide (r.parseLoop.2.state = .parssingComplete) := by
  have hwait : ∀ s t : HTTPRequest, machine.Steps s t → t.Waiting →
      machine.Steps s t ∧ t.step = none ∧ false = decide (t.state = .parssingComplete) := by
    intro s t hsteps hw
    exact ⟨hsteps, hw.1, by simp [hw.2]⟩
  have hthen : ∀ s t : HTTPRequest, machine.Steps s t → ∀ b u, machine.Steps t u ∧ u.step = none ∧
      b = decide (u.state = .parssingComplete) → machine.Steps s u ∧ u.step = none ∧
      b = decide (u.state = .parssingComplete) := by
    intro s t hsteps b u hu
    exact ⟨hsteps.trans hu.1, hu.2⟩
  fun_induction parseLoop r with
  | case1 r hs r' he =>
    have h := parseRequestLine_steps hs
    rw [he] at h
    exact hwait _ _ h.1 (h.2 rfl)
  | case2 r hs r' he ih =>
    have h := parseRequestLine_steps hs
    rw [he] at h
    exact hthen _ _ h.1 _ _ ih
  | case3 r hs r' he =>
    have h := parseHeaders_steps hs
    rw [he] at h
    exact hwait _ _ h.1 (h.2 rfl)
  | case4 r hs r' he hb ih =>
    have h := parseHeaders_steps hs
    rw [he] at h
    simp only [endHeaders, if_pos hb, ↓reduceIte] at h
    exact hthen _ _ h.1 _ _ ih
  | case5 r hs r' he hb ih =>
    have h := parseHeaders_steps hs
    rw [he] at h
    simp only [endHeaders, if_neg hb, ↓reduceIte] at h
    exact hthen _ _ h.1 _ _ ih
  | case6 r hs r' he =>
    have h := parseBody_finishes hs
    rw [he] at h
    exact hwait _ _ h.1 (h.2 rfl)
  | case7 r hs r' he ih =>
    have h := parseBody_finishes hs
    rw [he] at h
    exact hthen _ _ h.1 _ _ ih
  | case8 r hs => exact ⟨Machine.Steps.refl _, step_eq_none_of_terminal (Or.inl hs), by simp [hs]⟩
  | case9 r hs => exact ⟨Machine.Steps.refl _, step_eq_none_of_terminal (Or.inr hs), by simp [hs]⟩

/-- One call of `parse` feeds its bytes to the machine. -/
theorem parse_eq_feed (r : HTTPRequest) (piece : Bytes) :
    r.parse piece = (decide ((machine.feed r piece).state = .parssingComplete), machine.feed r piece) := by
  obtain ⟨hsteps, hstuck, hflag⟩ := parseLoop_spec (r.push piece)
  have hrun : machine.feed r piece = (r.push piece).parseLoop.2 := hsteps.run_eq_of_stuck hstuck
  rw [hrun, ← hflag]
  rfl

theorem parsePieces_eq_feedAll (r : HTTPRequest) (p : Bytes) (ps : List Bytes) :
    r.parsePieces (p :: ps) =
      (decide ((machine.feedAll r (p :: ps)).state = .parssingComplete), machine.feedAll r (p :: ps)) := by
  have hfold : ∀ (qs : List Bytes) (s : HTTPRequest),
      qs.foldl (fun acc piece => acc.2.parse piece) (decide (s.state = .parssingComplete), s) =
        (decide ((machine.feedAll s qs).state = .parssingComplete), machine.feedAll s qs) := by
    intro qs
    induction qs with
    | nil => intro s; rfl
    | cons q qs ih =>
      intro s
      rw [List.foldl_cons, parse_eq_feed]
      exact ih _
  rw [parsePieces, List.foldl_cons, parse_eq_feed]
  exact hfold ps _

theorem parsePieces_eq_parse (r : HTTPRequest) (p : Bytes) (ps : List Bytes) :
    r.parsePieces (p :: ps) = r.parse (p :: ps).flatten := by
  rw [parsePieces_eq_feedAll, parse_eq_feed, Machine.feedAll_eq_feed]

/-- However the bytes are cut into pieces, the parser ends in the same state and
the last call returns the same boolean. -/
theorem parse_fragmentation (limit : ℕ) (p : Bytes) (ps : List Bytes) :
    (setMaxBodySize {} limit).parsePieces (p :: ps) =
      (setMaxBodySize {} limit).parse (p :: ps).flatten :=
  parsePieces_eq_parse _ p ps

end WebServ.HTTPRequest
