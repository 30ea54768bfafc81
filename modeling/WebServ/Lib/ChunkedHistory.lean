import WebServ.Lib.Chunked

/-! # What a chunk decoder has read

Every configuration a decoder can reach determines how the input it has consumed
splits into chunks, size lines and data. The split is stated from any of the four
phases, so that a decoder may take over in the middle of a body.
-/
namespace WebServ.Chunked
open Search

variable (sizeOf : Bytes → Option ℕ) (fits : Bytes → Bool)

/-- Input that completes the interrupted chunk, and the data in it. -/
inductive LeadIn : Phase → ℕ → Bytes → Bytes → Prop
  | size (n : ℕ) : LeadIn .size n [] []
  | data (d : Bytes) : LeadIn .data d.length (d ++ crlf) d
  | dataCrlf (n : ℕ) : LeadIn .dataCrlf n crlf []

/-- Where a decoder took over: its phase, its count and the output before it. -/
structure Start where
  phase : Phase
  remaining : ℕ
  out : Bytes

def Start.config (s : Start) (input : Bytes) : Config := ⟨s.phase, s.remaining, s.out, input, .running⟩

/-- The input before a size line and the output at that point. -/
structure AtSize (s : Start) (read out : Bytes) : Prop where
  split : ∃ p d ks, LeadIn s.phase s.remaining p d ∧ (∀ k ∈ ks, k.Valid sizeOf) ∧
    read = p ++ encodeChunks ks ∧ out = s.out ++ d ++ chunkData ks
  admitted : out = s.out ∨ fits out

/-- The input before a block of data, the output at that point and the block's length. -/
inductive AtBlock (s : Start) : Bytes → Bytes → ℕ → Prop
  | first : s.phase = .data → AtBlock s [] s.out s.remaining
  | next {read out line : Bytes} {n : ℕ} : AtSize sizeOf fits s read out → IsLine line →
      sizeOf line = some n → n ≠ 0 → AtBlock s (read ++ line ++ crlf) out n

/-- The history of a configuration on a given input. -/
def History (s : Start) (input : Bytes) (c : Config) : Prop :=
  match c.phase with
  | .size => c.status = .running → ∃ read, input = read ++ c.buf ∧ AtSize sizeOf fits s read c.out
  | .data => ∃ read out d, AtBlock sizeOf fits s read out (d.length + c.remaining) ∧
      input = read ++ d ++ c.buf ∧ c.out = out ++ d
  | .dataCrlf => c.status = .running →
      (s.phase = .dataCrlf ∧ input = c.buf ∧ c.out = s.out) ∨
      (∃ read out d, AtBlock sizeOf fits s read out d.length ∧ input = read ++ d ++ c.buf ∧
        c.out = out ++ d ∧ fits c.out)
  | .trailers => c.out = s.out ∨ fits c.out

variable {sizeOf fits}

theorem History.start (s : Start) (input : Bytes) : History sizeOf fits s input (s.config input) := by
  rcases s with ⟨phase, n, out⟩
  cases phase with
  | size =>
    intro _
    exact ⟨[], by simp [Start.config], ⟨[], [], [], .size n, by simp, by simp [encodeChunks], by
      simp [Start.config, chunkData]⟩, Or.inl rfl⟩
  | data => exact ⟨[], out, [], by simpa [Start.config] using AtBlock.first rfl, by simp [Start.config], by
      simp [Start.config]⟩
  | dataCrlf => exact fun _ => Or.inl ⟨rfl, rfl, rfl⟩
  | trailers => exact Or.inl rfl

/-- A finished block and its end mark make one more chunk. -/
theorem AtBlock.atSize {s : Start} {read out d : Bytes} (h : AtBlock sizeOf fits s read out d.length)
    (hf : fits (out ++ d)) : AtSize sizeOf fits s (read ++ d ++ crlf) (out ++ d) := by
  generalize hn : d.length = n at h
  cases h with
  | first hp =>
    refine ⟨⟨d ++ crlf, d, [], ?_, by simp, by simp [encodeChunks], by simp [chunkData]⟩, Or.inr hf⟩
    rw [hp, ← hn]
    exact .data d
  | @next read out line n hs hl hsz hne =>
    obtain ⟨⟨p, d0, ks, hlead, hks, rfl, rfl⟩, -⟩ := hs
    refine ⟨⟨p, d0, ks ++ [⟨line, d⟩], hlead, ?_, ?_, by simp [chunkData]⟩, Or.inr hf⟩
    · intro k hk
      rcases List.mem_append.mp hk with hk | hk
      · exact hks k hk
      · rw [List.mem_singleton.mp hk]
        exact ⟨hl, by rw [hsz, hn], by intro hd; simp only at hd; simp [hd] at hn; exact hne hn.symm⟩
    · simp [encodeChunks, Chunk.encode, List.append_assoc]

theorem History.step {s : Start} {input : Bytes} {c c' : Config} (h : History sizeOf fits s input c)
    (hc : step sizeOf fits c = some c') : History sizeOf fits s input c' := by
  have hr := running_of_step hc
  rcases c with ⟨phase, remaining, out, buf, status⟩
  subst hr
  simp only [Chunked.step, ↓reduceIte] at hc
  cases phase with
  | size =>
    obtain ⟨⟨line, rest⟩, hcut, rfl⟩ := Option.map_eq_some_iff.mp hc
    obtain ⟨read, hin, hs⟩ := h rfl
    have hbuf : buf = line ++ crlf ++ rest := cutLine_eq_some hcut
    have hline : IsLine line := cutLine_no_eol hcut crlf_ne_nil
    dsimp only at hin hs ⊢
    rcases hsz : sizeOf line with _ | _ | n
    · intro hrun
      simp at hrun
    · exact hs.admitted
    · refine ⟨read ++ line ++ crlf, out, [], ?_, ?_, by simp⟩
      · simpa using AtBlock.next hs hline hsz (by omega)
      · simp [hin, hbuf, List.append_assoc]
  | data =>
    obtain ⟨read, before, d, hb, hin, hout⟩ := h
    dsimp only at hb hin hout
    rcases remaining with _ | n
    · cases hc
      intro hrun
      have hf : fits out = true := by
        by_contra hf
        simp [hf] at hrun
      exact Or.inr ⟨read, before, d, by simpa using hb, hin, hout, hf⟩
    · rcases buf with _ | ⟨b, rest⟩ <;> cases hc
      refine ⟨read, before, d ++ [b], ?_, by simp [hin], by simp [hout]⟩
      rw [List.length_append, List.length_singleton]
      rwa [show d.length + 1 + n = d.length + (n + 1) by omega]
  | dataCrlf =>
    rcases buf with _ | ⟨a, _ | ⟨b, rest⟩⟩ <;> cases hc
    by_cases hab : [a, b] = crlf
    · rw [if_pos hab]
      intro _
      have hbuf : a :: b :: rest = crlf ++ rest := by rw [← hab]; rfl
      rcases h rfl with ⟨hp, hin, hout⟩ | ⟨read, before, d, hb, hin, hout, hf⟩
      · refine ⟨crlf, hin.trans hbuf, ⟨⟨crlf, [], [], ?_, by simp, by simp [encodeChunks], ?_⟩, Or.inl hout⟩⟩
        · rw [hp]; exact .dataCrlf _
        · simpa [chunkData] using hout
      · dsimp only at hin hout hf
        refine ⟨read ++ d ++ crlf, ?_, ?_⟩
        · rw [hin, hbuf]
          simp [List.append_assoc]
        · rw [hout] at hf ⊢
          exact hb.atSize hf
    · rw [if_neg hab]
      intro hrun
      simp at hrun
  | trailers =>
    obtain ⟨⟨line, rest⟩, hcut, rfl⟩ := Option.map_eq_some_iff.mp hc
    exact h

/-- Every configuration reached from the start has a history. -/
theorem Steps.history {s : Start} {input : Bytes} {c : Config}
    (h : (machine sizeOf fits).Steps (s.config input) c) : History sizeOf fits s input c := by
  induction h with
  | refl => exact History.start s input
  | tail _ hstep ih => exact ih.step hstep

theorem trailers_of_step {c c' : Config} (h : step sizeOf fits c = some c') (hf : c'.status = .finished) :
    c'.phase = .trailers := by
  have hr := running_of_step h
  rcases c with ⟨phase, remaining, out, buf, status⟩
  subst hr
  simp only [step, ↓reduceIte] at h
  cases phase with
  | size =>
    obtain ⟨⟨line, rest⟩, -, rfl⟩ := Option.map_eq_some_iff.mp h
    rcases hs : sizeOf line with _ | _ | n <;> simp [hs] at hf
  | data =>
    rcases remaining with _ | n
    · cases h
      by_cases hfit : fits out <;> simp [hfit] at hf
    · rcases buf with _ | ⟨b, rest⟩ <;> cases h
      cases hf
  | dataCrlf =>
    rcases buf with _ | ⟨a, _ | ⟨b, rest⟩⟩ <;> cases h
    by_cases hab : [a, b] = crlf <;> simp [hab] at hf
  | trailers =>
    obtain ⟨⟨line, rest⟩, -, rfl⟩ := Option.map_eq_some_iff.mp h
    rfl

/-- Only the trailers end a body. -/
theorem trailers_of_finished {s : Start} {input : Bytes} {c : Config}
    (h : (machine sizeOf fits).Steps (s.config input) c) (hf : c.status = .finished) :
    c.phase = .trailers := by
  cases h with
  | refl => cases hf
  | tail _ hstep => exact trailers_of_step hstep hf

/-- Among the trailers nothing is refused. -/
theorem steps_of_trailers {c c' : Config} (h : (machine sizeOf fits).Steps c c')
    (hp : c.phase = .trailers) (hs : c.status ≠ .malformed) : c'.phase = .trailers ∧ c'.status ≠ .malformed := by
  induction h with
  | refl => exact ⟨hp, hs⟩
  | @tail b c' _ hstep ih =>
    have hr := running_of_step hstep
    change step _ _ b = _ at hstep
    simp only [step, hr, ih.1, if_true] at hstep
    obtain ⟨⟨line, rest⟩, -, rfl⟩ := Option.map_eq_some_iff.mp hstep
    refine ⟨ih.1, ?_⟩
    dsimp only
    split <;> simp

/-- Whether a running machine waits does not depend on how it reads sizes, nor on its output. -/
theorem step_eq_none_congr {sizeOf sizeOf' : Bytes → Option ℕ} {fits fits' : Bytes → Bool} {phase : Phase}
    {remaining : ℕ} {out out' buf : Bytes}
    (h : step sizeOf fits ⟨phase, remaining, out, buf, .running⟩ = none) :
    step sizeOf' fits' ⟨phase, remaining, out', buf, .running⟩ = none := by
  simp only [step, if_true] at h ⊢
  cases phase with
  | size => simpa [sizeStep] using h
  | data =>
    rcases remaining with _ | n
    · cases h
    · rcases buf with _ | ⟨b, rest⟩
      · rfl
      · cases h
  | dataCrlf =>
    rcases buf with _ | ⟨a, _ | ⟨b, rest⟩⟩
    · rfl
    · rfl
    · cases h
  | trailers => simpa [trailerStep] using h

end WebServ.Chunked
