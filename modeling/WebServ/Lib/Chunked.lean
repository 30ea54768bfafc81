import WebServ.Lib.Bytes
import WebServ.Lib.Machine

/-! # The chunked transfer coding

A chunked body is a sequence of size lines and data blocks, a last size line of
value zero, trailer lines and an empty line. The decoder takes one byte of data
or one line at a time; how a size line is read and which outputs are admitted
are parameters, so that different readers of the format are instances.
-/
namespace WebServ.Chunked
open Search

inductive Phase
  | size | data | dataCrlf | trailers
deriving DecidableEq, Repr

inductive Status
  | running | finished | malformed | overflow
deriving DecidableEq, Repr

structure Config where
  phase : Phase
  remaining : ℕ
  out : Bytes
  buf : Bytes
  status : Status
deriving DecidableEq, Repr

namespace Config

def push (c : Config) (q : Bytes) : Config := { c with buf := c.buf ++ q }

def weight (c : Config) : ℕ :=
  3 * c.buf.length + (if c.phase = .data then 1 else 0) + (if c.status = .running then 1 else 0)

end Config

variable (sizeOf : Bytes → Option ℕ) (fits : Bytes → Bool)

def sizeStep (c : Config) : Option Config :=
  (cutLine crlf c.buf).map fun (line, rest) =>
    match sizeOf line with
    | none => { c with buf := rest, status := .malformed }
    | some 0 => { c with buf := rest, remaining := 0, phase := .trailers }
    | some (n + 1) => { c with buf := rest, remaining := n + 1, phase := .data }

/-- The admission check is made once a block of data is complete. -/
def dataStep (c : Config) : Option Config :=
  match c.remaining, c.buf with
  | 0, _ => some { c with phase := .dataCrlf, status := if fits c.out then .running else .overflow }
  | _ + 1, [] => none
  | n + 1, b :: rest => some { c with remaining := n, out := c.out ++ [b], buf := rest }

def dataCrlfStep (c : Config) : Option Config :=
  match c.buf with
  | a :: b :: rest =>
    some (if [a, b] = crlf then { c with phase := .size, buf := rest } else { c with status := .malformed })
  | _ => none

def trailerStep (c : Config) : Option Config :=
  (cutLine crlf c.buf).map fun (line, rest) =>
    { c with buf := rest, status := if line = [] then .finished else .running }

def step (c : Config) : Option Config :=
  if c.status = .running then
    match c.phase with
    | .size => sizeStep sizeOf c
    | .data => dataStep fits c
    | .dataCrlf => dataCrlfStep c
    | .trailers => trailerStep c
  else none

variable {sizeOf fits}

theorem running_of_step {c c' : Config} (h : step sizeOf fits c = some c') : c.status = .running := by
  by_contra hr
  simp [step, hr] at h

theorem step_weight_lt {c c' : Config} (h : step sizeOf fits c = some c') : c'.weight < c.weight := by
  have hr := running_of_step h
  rcases c with ⟨phase, remaining, out, buf, status⟩
  subst hr
  simp only [step, ↓reduceIte] at h
  cases phase with
  | size =>
    obtain ⟨⟨line, rest⟩, hcut, rfl⟩ := Option.map_eq_some_iff.mp h
    have hlen := cutLine_length hcut
    simp only [crlf, List.length_cons, List.length_nil] at hlen
    rcases hs : sizeOf line with _ | _ | n <;> simp [Config.weight, hs] <;> omega
  | data =>
    rcases remaining with _ | n
    · cases h
      by_cases hf : fits out
      · simp only [Config.weight, hf, if_true, reduceCtorEq, if_false]
        omega
      · simp only [Config.weight, hf, if_true, reduceCtorEq, if_false, Bool.false_eq_true]
        omega
    · rcases buf with _ | ⟨b, rest⟩
      · cases h
      · cases h
        simp [Config.weight]
  | dataCrlf =>
    rcases buf with _ | ⟨a, _ | ⟨b, rest⟩⟩
    · cases h
    · cases h
    · cases h
      by_cases hab : [a, b] = crlf
      · simp only [Config.weight, hab, List.length_cons, if_true, reduceCtorEq, if_false]
        omega
      · simp only [Config.weight, hab, List.length_cons, if_true, reduceCtorEq, if_false]
        omega
  | trailers =>
    obtain ⟨⟨line, rest⟩, hcut, rfl⟩ := Option.map_eq_some_iff.mp h
    have hlen := cutLine_length hcut
    simp only [crlf, List.length_cons, List.length_nil] at hlen
    by_cases hl : line = [] <;> simp [Config.weight, hl] <;> omega

theorem step_push {c c' : Config} (q : Bytes) (h : step sizeOf fits c = some c') :
    step sizeOf fits (c.push q) = some (c'.push q) := by
  have hr := running_of_step h
  rcases c with ⟨phase, remaining, out, buf, status⟩
  subst hr
  simp only [step, ↓reduceIte] at h
  simp only [step, Config.push, ↓reduceIte]
  cases phase with
  | size =>
    obtain ⟨⟨line, rest⟩, hcut, rfl⟩ := Option.map_eq_some_iff.mp h
    simp only [sizeStep, cutLine_append q hcut, Option.map_some]
    rcases sizeOf line with _ | _ | n <;> simp
  | data =>
    rcases remaining with _ | n
    · cases h; rfl
    · rcases buf with _ | ⟨b, rest⟩ <;> cases h
      rfl
  | dataCrlf =>
    rcases buf with _ | ⟨a, _ | ⟨b, rest⟩⟩ <;> cases h
    by_cases hab : [a, b] = crlf <;> simp [dataCrlfStep, hab]
  | trailers =>
    obtain ⟨⟨line, rest⟩, hcut, rfl⟩ := Option.map_eq_some_iff.mp h
    simp only [trailerStep, cutLine_append q hcut, Option.map_some]

/-- Output is only ever appended to. -/
theorem step_out_extends {c c' : Config} (h : step sizeOf fits c = some c') : c.out <+: c'.out := by
  have hr := running_of_step h
  rcases c with ⟨phase, remaining, out, buf, status⟩
  subst hr
  simp only [step, ↓reduceIte] at h
  cases phase with
  | size =>
    obtain ⟨⟨line, rest⟩, -, rfl⟩ := Option.map_eq_some_iff.mp h
    rcases hs : sizeOf line with _ | _ | n <;> simp [hs]
  | data =>
    rcases remaining with _ | n
    · cases h; simp
    · rcases buf with _ | ⟨b, rest⟩ <;> cases h
      simp
  | dataCrlf =>
    rcases buf with _ | ⟨a, _ | ⟨b, rest⟩⟩ <;> cases h
    by_cases hab : [a, b] = crlf <;> simp [hab]
  | trailers =>
    obtain ⟨⟨line, rest⟩, -, rfl⟩ := Option.map_eq_some_iff.mp h
    simp

variable (sizeOf fits) in
/-- The decoder as a machine on a growing buffer. -/
@[reducible] def machine : Machine Config UInt8 where
  step := step sizeOf fits
  push := Config.push
  weight := Config.weight
  push_nil _ := by simp [Config.push]
  push_push _ _ _ := by simp [Config.push]
  weight_lt := step_weight_lt
  step_push := step_push

/-! ## Encoded bodies -/

/-- A size line, without its end mark, and the block of data it announces. -/
structure Chunk where
  line : Bytes
  data : Bytes

def Chunk.encode (k : Chunk) : Bytes := k.line ++ crlf ++ (k.data ++ crlf)

structure Body where
  chunks : List Chunk
  last : Bytes
  trailers : List Bytes

def encodeChunks (ks : List Chunk) : Bytes := (ks.map Chunk.encode).flatten
def chunkData (ks : List Chunk) : Bytes := (ks.map Chunk.data).flatten
def encodeTrailers (ts : List Bytes) : Bytes := (ts.map (· ++ crlf)).flatten

def Body.encode (b : Body) : Bytes :=
  encodeChunks b.chunks ++ (b.last ++ crlf ++ (encodeTrailers b.trailers ++ crlf))

def Body.content (b : Body) : Bytes := chunkData b.chunks

def IsLine (l : Bytes) : Prop := ¬ crlf <:+: l

instance (l : Bytes) : Decidable (IsLine l) := inferInstanceAs (Decidable (¬ _))

variable (sizeOf) in
structure Chunk.Valid (k : Chunk) : Prop where
  line : IsLine k.line
  size : sizeOf k.line = some k.data.length
  nonempty : k.data ≠ []

variable (sizeOf) in
structure Body.Valid (b : Body) : Prop where
  chunks : ∀ k ∈ b.chunks, k.Valid sizeOf
  last_line : IsLine b.last
  last_size : sizeOf b.last = some 0
  trailers : ∀ t ∈ b.trailers, t ≠ [] ∧ IsLine t

@[simp] theorem encodeChunks_cons (k : Chunk) (ks : List Chunk) :
    encodeChunks (k :: ks) = k.encode ++ encodeChunks ks := rfl
@[simp] theorem chunkData_cons (k : Chunk) (ks : List Chunk) :
    chunkData (k :: ks) = k.data ++ chunkData ks := rfl
@[simp] theorem chunkData_append (ks ls : List Chunk) :
    chunkData (ks ++ ls) = chunkData ks ++ chunkData ls := by
  simp [chunkData]

theorem cutLine_crlf {l : Bytes} (r : Bytes) (hl : IsLine l) :
    cutLine crlf (l ++ crlf ++ r) = some (l, r) :=
  cutLine_pair_append (by decide) r hl

/-! ## What the decoder does on encoded pieces -/

variable (sizeOf fits) in
/-- Available data is taken up to the announced count. -/
theorem data_steps (out d r : Bytes) (n : ℕ) :
    (machine sizeOf fits).Steps ⟨.data, d.length + n, out, d ++ r, .running⟩
      ⟨.data, n, out ++ d, r, .running⟩ := by
  induction d generalizing out with
  | nil => simpa using Machine.Steps.refl _
  | cons b d ih =>
    refine Machine.Steps.head (t := ⟨.data, d.length + n, out ++ [b], d ++ r, .running⟩) ?_ ?_
    · rw [show (b :: d).length + n = d.length + n + 1 by simp; omega]
      rfl
    · simpa using ih (out ++ [b])

variable (fits) in
theorem size_step {line : Bytes} {n : ℕ} (hl : IsLine line) (hs : sizeOf line = some n)
    (m : ℕ) (out r : Bytes) :
    step sizeOf fits ⟨.size, m, out, line ++ crlf ++ r, .running⟩ =
      some ⟨if n = 0 then .trailers else .data, n, out, r, .running⟩ := by
  simp only [step, ↓reduceIte, sizeStep, cutLine_crlf r hl, Option.map_some, hs]
  cases n <;> rfl

variable (fits) in
theorem size_step_none {line : Bytes} (hl : IsLine line) (hs : sizeOf line = none) (m : ℕ)
    (out r : Bytes) : step sizeOf fits ⟨.size, m, out, line ++ crlf ++ r, .running⟩ =
      some ⟨.size, m, out, r, .malformed⟩ := by
  simp only [step, ↓reduceIte, sizeStep, cutLine_crlf r hl, Option.map_some, hs]

variable (fits) in
/-- One valid chunk is decoded, and then admitted or refused. -/
theorem chunk_steps {k : Chunk} (hk : k.Valid sizeOf) (m : ℕ) (out r : Bytes) :
    (machine sizeOf fits).Steps ⟨.size, m, out, k.encode ++ r, .running⟩
      (if fits (out ++ k.data) then ⟨.size, 0, out ++ k.data, r, .running⟩
        else ⟨.dataCrlf, 0, out ++ k.data, crlf ++ r, .overflow⟩) := by
  have hne : k.data.length ≠ 0 := by simpa using hk.nonempty
  have hsize := size_step fits hk.line hk.size m out (k.data ++ crlf ++ r)
  rw [if_neg hne] at hsize
  have hdata := data_steps sizeOf fits out k.data (crlf ++ r) 0
  rw [Nat.add_zero, ← List.append_assoc] at hdata
  have henc : k.encode ++ r = k.line ++ crlf ++ (k.data ++ crlf ++ r) := by
    simp [Chunk.encode, List.append_assoc]
  rw [henc]
  refine (Machine.Steps.head hsize hdata).trans ?_
  by_cases hf : fits (out ++ k.data)
  · rw [if_pos hf]
    refine Machine.Steps.head (t := ⟨.dataCrlf, 0, out ++ k.data, crlf ++ r, .running⟩) ?_ ?_
    · simp [step, dataStep, hf]
    · exact Machine.Steps.single (by simp [step, dataCrlfStep, crlf])
  · rw [if_neg hf]
    exact Machine.Steps.single (by simp [step, dataStep, hf])

/-- Valid chunks are decoded one after the other while every prefix is admitted. -/
theorem chunks_steps {ks : List Chunk} (hk : ∀ k ∈ ks, k.Valid sizeOf) {m : ℕ} {out : Bytes}
    (r : Bytes) (hf : ∀ p, p <+: ks → p ≠ [] → fits (out ++ chunkData p)) :
    (machine sizeOf fits).Steps ⟨.size, m, out, encodeChunks ks ++ r, .running⟩
      ⟨.size, if ks = [] then m else 0, out ++ chunkData ks, r, .running⟩ := by
  induction ks generalizing m out with
  | nil => simpa [encodeChunks, chunkData] using Machine.Steps.refl _
  | cons k ks ih =>
    have hfk : fits (out ++ k.data) := by
      simpa [chunkData] using hf [k] (by simp) (by simp)
    have hhead := chunk_steps fits (hk k (by simp)) m out (encodeChunks ks ++ r)
    rw [if_pos hfk] at hhead
    have hfs : ∀ p, p <+: ks → p ≠ [] → fits (out ++ k.data ++ chunkData p) := by
      intro p hp hne
      simpa [List.append_assoc] using hf (k :: p) (by simpa using hp) (by simp)
    have htail := ih (fun k' hk' => hk k' (by simp [hk'])) (m := 0) hfs
    rw [encodeChunks_cons, List.append_assoc]
    refine hhead.trans ?_
    simpa [List.append_assoc] using htail

/-- Chunks whose data is refused in the end are refused at some chunk. -/
theorem chunks_overflow {ks : List Chunk} (hk : ∀ k ∈ ks, k.Valid sizeOf) {m : ℕ} {out : Bytes}
    (r : Bytes) (hout : fits out) (hf : ¬ fits (out ++ chunkData ks)) :
    ∃ c, (machine sizeOf fits).Steps ⟨.size, m, out, encodeChunks ks ++ r, .running⟩ c ∧
      c.status = .overflow := by
  induction ks generalizing m out with
  | nil => simp [chunkData, hout] at hf
  | cons k ks ih =>
    have hhead := chunk_steps fits (hk k (by simp)) m out (encodeChunks ks ++ r)
    rw [encodeChunks_cons, List.append_assoc]
    by_cases hfk : fits (out ++ k.data)
    · rw [if_pos hfk] at hhead
      obtain ⟨c, hc, hs⟩ := ih (fun k' hk' => hk k' (by simp [hk'])) (m := 0) hfk
        (by simpa [List.append_assoc] using hf)
      exact ⟨c, hhead.trans hc, hs⟩
    · rw [if_neg hfk] at hhead
      exact ⟨_, hhead, rfl⟩

variable (sizeOf fits) in
theorem trailers_steps {ts : List Bytes} (ht : ∀ t ∈ ts, t ≠ [] ∧ IsLine t) (m : ℕ) (out r : Bytes) :
    (machine sizeOf fits).Steps ⟨.trailers, m, out, encodeTrailers ts ++ r, .running⟩
      ⟨.trailers, m, out, r, .running⟩ := by
  induction ts with
  | nil => simpa [encodeTrailers] using Machine.Steps.refl _
  | cons t ts ih =>
    obtain ⟨hne, hl⟩ := ht t (by simp)
    refine Machine.Steps.head ?_ (ih (fun t' ht' => ht t' (by simp [ht'])))
    have hcut := cutLine_crlf (encodeTrailers ts ++ r) hl
    simp only [step, ↓reduceIte, trailerStep, encodeTrailers, List.map_cons, List.flatten_cons,
      List.append_assoc] at hcut ⊢
    simp [hcut, hne]

variable (sizeOf fits) in
theorem end_step (m : ℕ) (out r : Bytes) :
    step sizeOf fits ⟨.trailers, m, out, crlf ++ r, .running⟩ =
      some ⟨.trailers, m, out, r, .finished⟩ := by
  have hcut := cutLine_crlf (l := []) r (by simp [IsLine, crlf])
  simp only [List.nil_append] at hcut
  simp [step, trailerStep, hcut]

variable (fits) in
/-- The last size line, the trailers and the empty line finish the body. -/
theorem tail_steps {b : Body} (hb : b.Valid sizeOf) (m : ℕ) (out r : Bytes) :
    (machine sizeOf fits).Steps
      ⟨.size, m, out, b.last ++ crlf ++ (encodeTrailers b.trailers ++ crlf) ++ r, .running⟩
      ⟨.trailers, 0, out, r, .finished⟩ := by
  have hsize := size_step fits hb.last_line hb.last_size m out
    (encodeTrailers b.trailers ++ (crlf ++ r))
  rw [if_pos rfl] at hsize
  have htr := trailers_steps sizeOf fits hb.trailers 0 out (crlf ++ r)
  have hend := end_step sizeOf fits 0 out r
  have hassoc : b.last ++ crlf ++ (encodeTrailers b.trailers ++ crlf) ++ r =
      b.last ++ crlf ++ (encodeTrailers b.trailers ++ (crlf ++ r)) := by
    simp [List.append_assoc]
  rw [hassoc]
  exact (Machine.Steps.head hsize htr).trans (Machine.Steps.single hend)

/-- Decoding undoes encoding, and stops exactly at the end of the body. -/
theorem body_steps {b : Body} (hb : b.Valid sizeOf) (m : ℕ) (out r : Bytes)
    (hf : ∀ p, p <+: b.chunks → p ≠ [] → fits (out ++ chunkData p)) :
    (machine sizeOf fits).Steps ⟨.size, m, out, b.encode ++ r, .running⟩
      ⟨.trailers, 0, out ++ b.content, r, .finished⟩ := by
  have hchunks := chunks_steps hb.chunks (m := m) (b.last ++ crlf ++ (encodeTrailers b.trailers ++ crlf) ++ r) hf
  have hassoc : b.encode ++ r = encodeChunks b.chunks ++
      (b.last ++ crlf ++ (encodeTrailers b.trailers ++ crlf) ++ r) := by
    simp [Body.encode, List.append_assoc]
  rw [hassoc]
  exact hchunks.trans (tail_steps fits hb _ _ _)

end WebServ.Chunked
