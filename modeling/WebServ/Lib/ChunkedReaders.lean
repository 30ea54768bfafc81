import WebServ.Lib.ChunkedHistory

/-! # Two readers of one chunked stream

Readers differ in how they read a size line. Readers that never read one line as
two different sizes give the same verdict and the same output exactly when they
read every size line the first of them reaches alike.
-/
namespace WebServ.Chunked
open Search

inductive Verdict
  | needMore
  | finished (rest : Bytes)
  | error
deriving DecidableEq, Repr

def Config.verdict (c : Config) : Verdict :=
  match c.status with
  | .running => .needMore
  | .finished => .finished c.buf
  | .malformed => .error
  | .overflow => .error

def anyOutput (_ : Bytes) : Bool := true

/-- The verdict on a stream and the bytes decoded up to it, without a limit. -/
def decodeAll (sizeOf : Bytes → Option ℕ) (s : Start) (input : Bytes) : Verdict × Bytes :=
  let c := (machine sizeOf anyOutput).run (s.config input)
  (c.verdict, c.out)

def Config.behind (o : Bytes) (c : Config) : Config := { c with out := o ++ c.out }

theorem step_behind (sizeOf : Bytes → Option ℕ) (o : Bytes) (c : Config) :
    step sizeOf anyOutput (c.behind o) = (step sizeOf anyOutput c).map (Config.behind o) := by
  rcases c with ⟨phase, remaining, out, buf, status⟩
  cases status with
  | running =>
    cases phase with
    | size =>
      simp only [step, Config.behind, ↓reduceIte, sizeStep, Option.map_map]
      refine congrArg (fun f => Option.map f (cutLine crlf buf)) ?_
      funext p
      obtain ⟨line, rest⟩ := p
      rcases hs : sizeOf line with _ | _ | n <;> simp [hs, Config.behind]
    | data =>
      rcases remaining with _ | n
      · rfl
      · rcases buf with _ | ⟨b, rest⟩ <;> simp [step, dataStep, Config.behind]
    | dataCrlf =>
      rcases buf with _ | ⟨a, _ | ⟨b, rest⟩⟩
      · rfl
      · rfl
      · by_cases hab : [a, b] = crlf <;> simp [step, dataCrlfStep, Config.behind, hab]
    | trailers =>
      simp only [step, Config.behind, ↓reduceIte, trailerStep, Option.map_map]
      rfl
  | finished => rfl
  | malformed => rfl
  | overflow => rfl

theorem Steps.behind {sizeOf : Bytes → Option ℕ} {c c' : Config} (o : Bytes)
    (h : (machine sizeOf anyOutput).Steps c c') :
    (machine sizeOf anyOutput).Steps (c.behind o) (c'.behind o) := by
  induction h with
  | refl => exact Machine.Steps.refl _
  | @tail b b' _ hstep ih =>
    refine ih.trans (Machine.Steps.single ?_)
    change step _ _ b = _ at hstep
    change step _ _ (b.behind o) = _
    rw [step_behind, hstep, Option.map_some]

/-- Output that was there before does not influence what is decoded. -/
theorem run_behind (sizeOf : Bytes → Option ℕ) (o : Bytes) (c : Config) :
    (machine sizeOf anyOutput).run (c.behind o) = ((machine sizeOf anyOutput).run c).behind o := by
  refine (Steps.behind o ((machine sizeOf anyOutput).steps_run c)).run_eq_of_stuck ?_
  change step _ _ _ = none
  rw [step_behind]
  exact congrArg (Option.map (Config.behind o)) ((machine sizeOf anyOutput).step_run c)

/-- A size line the decoder comes to: all chunks before it are valid. -/
def ReachesLine (sizeOf : Bytes → Option ℕ) (s : Start) (input line : Bytes) : Prop :=
  ∃ p d ks rest, LeadIn s.phase s.remaining p d ∧ (∀ k ∈ ks, k.Valid sizeOf) ∧ IsLine line ∧
    input = p ++ (encodeChunks ks ++ (line ++ crlf ++ rest))

variable {A B : Bytes → Option ℕ}

theorem lead_steps (sizeOf : Bytes → Option ℕ) {s : Start} {p d : Bytes}
    (h : LeadIn s.phase s.remaining p d) (r : Bytes) :
    (machine sizeOf anyOutput).Steps (s.config (p ++ r))
      ⟨.size, if s.phase = .data then 0 else s.remaining, s.out ++ d, r, .running⟩ := by
  rcases s with ⟨phase, n, out⟩
  cases h with
  | size => simpa [Start.config] using Machine.Steps.refl _
  | data =>
    have hdata := data_steps sizeOf anyOutput out d (crlf ++ r) 0
    simp only [Nat.add_zero] at hdata
    simp only [Start.config, List.append_assoc, ↓reduceIte]
    refine hdata.trans (Machine.Steps.head (t := ⟨.dataCrlf, 0, out ++ d, crlf ++ r, .running⟩) rfl ?_)
    exact Machine.Steps.single (by simp [step, dataCrlfStep, crlf])
  | dataCrlf => exact Machine.Steps.single (by simp [Start.config, step, dataCrlfStep, crlf])

/-- Valid input leads every reader that accepts it to the same size line. -/
theorem reach_steps (sizeOf : Bytes → Option ℕ) {s : Start} {p d : Bytes} {ks : List Chunk}
    (h : LeadIn s.phase s.remaining p d) (hks : ∀ k ∈ ks, k.Valid sizeOf) (r : Bytes) :
    (machine sizeOf anyOutput).Steps (s.config (p ++ (encodeChunks ks ++ r)))
      ⟨.size, if ks = [] then (if s.phase = .data then 0 else s.remaining) else 0,
        s.out ++ d ++ chunkData ks, r, .running⟩ :=
  (lead_steps sizeOf h _).trans (chunks_steps hks r (fun _ _ _ => rfl))

/-- Where a decoder waits depends neither on its reader nor on its limit. -/
theorem step_none_congr {f g : Bytes → Bool} (c : Config) : step A f c = none ↔ step B g c = none := by
  unfold step
  split
  · split
    · simp [sizeStep]
    · rcases c with ⟨phase, _ | n, out, _ | ⟨b, buf⟩, status⟩ <;> simp [dataStep]
    · rfl
    · rfl
  · rfl

/-- What a reader accepts is decoded alike by every reader that reads it alike. -/
theorem Steps.of_accepted {fits : Bytes → Bool} (hAB : ∀ line n, A line = some n → B line = some n)
    {c c' : Config} (h : (machine A fits).Steps c c') (hs : c'.status = .running ∨ c'.status = .finished) :
    (machine B anyOutput).Steps c c' := by
  induction h with
  | refl => exact Machine.Steps.refl _
  | @tail b b' _ hstep ih =>
    change step A fits b = some b' at hstep
    have hr := running_of_step hstep
    refine (ih (Or.inl hr)).trans (Machine.Steps.single ?_)
    change step B anyOutput b = some b'
    rw [← hstep]
    unfold step at hstep ⊢
    rw [if_pos hr] at hstep ⊢
    cases hp : b.phase with
    | size =>
      simp only [hp, sizeStep] at hstep
      obtain ⟨⟨line, rest⟩, hcut, he⟩ := Option.map_eq_some_iff.mp hstep
      cases hA : A line with
      | none =>
        subst he
        simp [hA] at hs
      | some n => simp only [hr, ↓reduceIte, sizeStep, hcut, Option.map_some, hA, hAB line n hA]
    | data =>
      simp only [hp, dataStep] at hstep
      split at hstep
      · next hrem =>
        cases hstep
        have hfit : fits b.out = true := by
          by_contra hn
          simp [hn] at hs
        simp [dataStep, hr, hrem, hfit, anyOutput]
      · cases hstep
      · next hrem hbuf => simp [dataStep, hr, hrem, hbuf]
    | dataCrlf => simp only [hr, ↓reduceIte]
    | trailers => simp only [hr, ↓reduceIte]

/-- Readers that read every line reached alike run alike. -/
theorem run_congr {s : Start} {input : Bytes} (h : ∀ line, ReachesLine A s input line → A line = B line) :
    (machine A anyOutput).run (s.config input) = (machine B anyOutput).run (s.config input) := by
  have hsteps : ∀ c, (machine A anyOutput).Steps (s.config input) c →
      (machine B anyOutput).Steps (s.config input) c := by
    intro c hc
    induction hc with
    | refl => exact Machine.Steps.refl _
    | @tail c c' hc hstep ih =>
      refine ih.trans (Machine.Steps.single ?_)
      have hist := Steps.history hc
      have hr := running_of_step hstep
      change step A anyOutput c = some c' at hstep
      change step B anyOutput c = some c'
      rw [← hstep]
      unfold step
      rw [if_pos hr, if_pos hr]
      cases hp : c.phase with
      | size =>
        simp only [History, hp] at hist
        obtain ⟨read, hin, ⟨p, d, ks, hlead, hks, rfl, -⟩, -⟩ := hist hr
        simp only [sizeStep]
        cases hcut : cutLine crlf c.buf with
        | none => rfl
        | some q =>
          obtain ⟨line, rest⟩ := q
          have hline : A line = B line := by
            refine h line ⟨p, d, ks, rest, hlead, hks, cutLine_no_eol hcut crlf_ne_nil, ?_⟩
            rw [hin, cutLine_eq_some hcut]
            simp [List.append_assoc]
          simp only [Option.map_some, hline]
      | data => rfl
      | dataCrlf => rfl
      | trailers => rfl
  have hend := hsteps _ ((machine A anyOutput).steps_run (s.config input))
  have hstuck : (machine B anyOutput).step ((machine A anyOutput).run (s.config input)) = none :=
    (step_none_congr _).mp ((machine A anyOutput).step_run (s.config input))
  exact (hend.run_eq_of_stuck hstuck).symm

/-- Among the lines reached that are read differently there is a first one. -/
theorem first_difference {ks : List Chunk} (hks : ∀ k ∈ ks, k.Valid A) {line : Bytes} (rest : Bytes)
    (hl : IsLine line) (hne : A line ≠ B line) :
    ∃ ls line' rest', (∀ k ∈ ls, k.Valid A ∧ k.Valid B) ∧ IsLine line' ∧ A line' ≠ B line' ∧
      encodeChunks ks ++ (line ++ crlf ++ rest) = encodeChunks ls ++ (line' ++ crlf ++ rest') := by
  induction ks with
  | nil => exact ⟨[], line, rest, by simp, hl, hne, rfl⟩
  | cons k ks ih =>
    have hk := hks k (by simp)
    by_cases he : A k.line = B k.line
    · obtain ⟨ls, line', rest', hls, hl', hne', heq⟩ := ih (fun k' hk' => hks k' (by simp [hk']))
      refine ⟨k :: ls, line', rest', ?_, hl', hne', ?_⟩
      · intro k' hk'
        rcases List.mem_cons.mp hk' with rfl | hk'
        · exact ⟨hk, hk.line, he ▸ hk.size, hk.nonempty⟩
        · exact hls k' hk'
      · rw [encodeChunks_cons, encodeChunks_cons, List.append_assoc, heq, ← List.append_assoc]
    · refine ⟨[], k.line, k.data ++ crlf ++ (encodeChunks ks ++ (line ++ crlf ++ rest)), by simp,
        hk.line, he, ?_⟩
      simp [encodeChunks, Chunk.encode, List.append_assoc]

/-- From the trailers no stream is malformed. -/
theorem trailers_verdict (sizeOf : Bytes → Option ℕ) {c c' : Config} (hp : c.phase = .trailers)
    (hs : c.status = .running) (h : (machine sizeOf anyOutput).Steps c c') :
    c'.verdict ≠ .error := by
  have hinv : c'.phase = .trailers ∧ (c'.status = .running ∨ c'.status = .finished) := by
    induction h with
    | refl => exact ⟨hp, Or.inl hs⟩
    | @tail b b' _ hstep ih =>
      have hr := running_of_step hstep
      change step _ _ b = _ at hstep
      simp only [step, if_pos hr, ih.1, trailerStep] at hstep
      obtain ⟨⟨line, rest⟩, -, rfl⟩ := Option.map_eq_some_iff.mp hstep
      by_cases hl : line = [] <;> simp [hl]
  rcases hinv.2 with h | h <;> simp [Config.verdict, h]

/-- Inside a non-empty block an error comes only after all of its data. -/
theorem data_verdict (sizeOf : Bytes → Option ℕ) {c c' : Config} (hp : c.phase = .data)
    (hs : c.status = .running) (hn : c.remaining ≠ 0) (h : (machine sizeOf anyOutput).Steps c c') :
    c'.verdict ≠ .error ∨ c.out.length < c'.out.length := by
  have hinv : (c'.phase = .data ∧ c'.status = .running ∧
      c.out.length + c.remaining = c'.out.length + c'.remaining) ∨ c.out.length < c'.out.length := by
    induction h with
    | refl => exact Or.inl ⟨hp, hs, rfl⟩
    | @tail b b' _ hstep ih =>
      have hr := running_of_step hstep
      change step _ _ b = _ at hstep
      have hle := (step_out_extends hstep).length_le
      rcases b with ⟨phase, remaining, out, buf, status⟩
      subst hr
      rcases ih with ⟨hb, -, hlen⟩ | hlt
      · dsimp only at hb hlen hle
        subst hb
        simp only [step, ↓reduceIte] at hstep
        rcases remaining with _ | n
        · cases hstep
          right
          simp only
          omega
        · rcases buf with _ | ⟨x, rest⟩ <;> cases hstep
          left
          simp only [List.length_append, List.length_singleton]
          exact ⟨trivial, trivial, by omega⟩
      · right
        dsimp only at hlt hle
        omega
  rcases hinv with ⟨-, hr, -⟩ | hlt
  · left
    simp [Config.verdict, hr]
  · exact Or.inr hlt

/-- A refused size line and an accepted one never lead to the same outcome. -/
theorem outcome_ne {s : Start} {input : Bytes} {m : ℕ} {out line rest : Bytes} {n : ℕ}
    (ha : (machine A anyOutput).Steps (s.config input) ⟨.size, m, out, line ++ crlf ++ rest, .running⟩)
    (hb : (machine B anyOutput).Steps (s.config input) ⟨.size, m, out, line ++ crlf ++ rest, .running⟩)
    (hl : IsLine line) (hA : A line = none) (hB : B line = some n) :
    decodeAll A s input ≠ decodeAll B s input := by
  have hrefuse : (machine A anyOutput).run (s.config input) = ⟨.size, m, out, rest, .malformed⟩ := by
    refine (ha.trans (Machine.Steps.single ?_)).run_eq_of_stuck (by simp [step])
    exact size_step_none anyOutput hl hA m out rest
  have hgo := (hb.trans (Machine.Steps.single (size_step anyOutput hl hB m out rest))).run_eq
  have hsteps := (machine B anyOutput).steps_run ⟨if n = 0 then .trailers else .data, n, out, rest, .running⟩
  rw [← hgo] at hsteps
  intro he
  simp only [decodeAll, hrefuse, Prod.mk.injEq] at he
  obtain ⟨hv, ho⟩ := he
  by_cases hn : n = 0
  · exact trailers_verdict B (by simp [hn]) rfl hsteps hv.symm
  · rcases data_verdict B (by simp [hn]) rfl hn hsteps with h | h
    · exact h hv.symm
    · rw [← ho] at h
      exact absurd h (lt_irrefl _)

/-- Compatible readers agree on a stream exactly when they agree on the size lines reached. -/
theorem decodeAll_eq_iff (hcompat : ∀ line, A line = B line ∨ A line = none ∨ B line = none)
    (s : Start) (input : Bytes) :
    decodeAll A s input = decodeAll B s input ↔ ∀ line, ReachesLine A s input line → A line = B line := by
  constructor
  · intro heq line hreach
    by_contra hne
    obtain ⟨p, d, ks, rest, hlead, hks, hl, hin⟩ := hreach
    obtain ⟨ls, line', rest', hls, hl', hne', hsplit⟩ := first_difference hks rest hl hne
    rw [hsplit] at hin
    have ha := reach_steps A hlead (fun k hk => (hls k hk).1) (line' ++ crlf ++ rest')
    have hb := reach_steps B hlead (fun k hk => (hls k hk).2) (line' ++ crlf ++ rest')
    rw [← hin] at ha hb
    rcases hcompat line' with h | h | h
    · exact hne' h
    · obtain ⟨n, hn⟩ := Option.ne_none_iff_exists'.mp (fun hB => hne' (h.trans hB.symm))
      exact outcome_ne ha hb hl' h hn heq
    · obtain ⟨n, hn⟩ := Option.ne_none_iff_exists'.mp (fun hA => hne' (hA.trans h.symm))
      exact outcome_ne hb ha hl' h hn heq.symm
  · intro h
    simp only [decodeAll, run_congr h]

end WebServ.Chunked
