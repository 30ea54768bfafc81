import WebServ.Registry.Order
import WebServ.Server.EventPass
import WebServ.Server.Ownership

/-! # Positions of clients and their pipes

When a handler drops the pipes of a client, the position of the client must not move
under it. In every run the pipes stand behind the client, so that the handlers
find what they look for at the positions they use.
-/
namespace WebServ
open World KeyedList

/-! ## Pipes behind their client -/

theorem World.Created.behind {w : World} (h : w.Created) : w.registry.Behind := by
  obtain ⟨-, hclients, -, -⟩ := h.start
  intro c f hf
  simp [Registry.stdin, Registry.stdout, World.registry, hclients] at hf

theorem AnyMove.behind {files : FileSystem} {v v' : View} (h : AnyMove files v v')
    (hs : v.2.Sound) (hx : v.2.registry.Exact)
    (hb : v.2.registry.Behind) (hn : ¬ v'.2.ClosedEarly) : v'.2.registry.Behind := by
  cases h with
  | calm h =>
    obtain ⟨early, hreaches, hearly⟩ := h.registry hs
    have hstep := hreaches.step hx.registered
    cases early with
    | true => exact absurd (hearly rfl) hn
    | false => exact hx.behind_step hb hstep
  | @stdinHangup w idx p c hp hc =>
    cases hg : w.getClient c with
    | some client =>
      obtain ⟨-, -, hsame⟩ := stdinHangup_parts hp hc hg
      rw [hsame hx.registered]
      exact hx.behind_hangUp hb hc (scripts_of_client hg)
    | none =>
      rw [stdinHangup_none hc hg]
      exact hx.behind_step hb ((strayStdin_reaches hp hc hg).step hx.registered)

theorem Reachable.behind {s : LoopState} (h : Reachable s) (hn : ¬ s.world.ClosedEarly) :
    s.world.registry.Behind := by
  have hinv := by
    refine h.invariant (I := fun v => ¬ v.2.ClosedEarly → v.2.registry.Exact ∧ v.2.registry.Behind) ?_ ?_
    · intro w hw _
      exact ⟨hw.exact, hw.behind⟩
    · intro files v v' hs hI hm hn'
      obtain ⟨hx, hb⟩ := hI (fun he => hn' (hm.closedEarly hs he))
      exact ⟨hm.exact hs hx hn', hm.behind hs hx hb hn'⟩
  rw [s.view_world] at hinv
  exact (hinv.1 hn).2

theorem Reachable.step {s : LoopState} (h : Reachable s) (a : Answers) : Reachable (s.step a) := by
  obtain ⟨configs, sockets, w, as, hcreate, rfl⟩ := h
  refine ⟨configs, sockets, w, as ++ [a], hcreate, ?_⟩
  simp [LoopState.run]

/-- As long as no pipe to a script was closed while it was registered, the pipes of a client
are polled behind it. -/
theorem pipes_polled_behind {s : LoopState} (h : Reachable s) (hn : ¬ s.world.ClosedEarly) {c f : Fd}
    {client : Client} (hg : s.world.getClient c = some client)
    (hf : client.cgiStdinFd = some f ∨ client.cgiStdoutFd = some f) : [c, f].Sublist s.world.fds := by
  apply h.behind hn
  rcases hf with hf | hf
  · exact Or.inl (s.world.stdin_eq_some.mpr ⟨client, hg, hf⟩)
  · exact Or.inr (s.world.stdout_eq_some.mpr ⟨client, hg, hf⟩)

theorem pipes_polled_behind_uploads : [4, 6].Sublist (scriptStart.run uploads).world.fds := by
  have hclient : ((scriptStart.run uploads).world.getClient 4).map Client.cgiStdinFd = some (some 6) := by
    decide +kernel
  obtain ⟨client, hg, hf⟩ := Option.map_eq_some_iff.mp hclient
  exact pipes_polled_behind (scriptStart_reachable uploads) (by decide +kernel) hg (Or.inl hf)

theorem Registry.Behind.pipesBehind {w : World} (h : w.registry.Behind) (hx : w.registry.Exact) {idx : ℕ}
    (hidx : idx < w.pollFds.length) : w.PipesBehind idx := by
  intro client hg f hf
  have hn : w.fds.Nodup := hx.registered.nodup
  refine Registry.notMem_take hn (h _ f ?_) (fds_getElem? hidx)
  rcases hf with hf | hf
  · exact Or.inr (w.stdout_eq_some.mpr ⟨client, hg, hf⟩)
  · exact Or.inl (w.stdin_eq_some.mpr ⟨client, hg, hf⟩)

/-! ## Positions in range -/

namespace LoopState

/-- A read does not drop the client it is for. -/
def KeepsReader (s : LoopState) (a : Answers) : Prop :=
  match s.point with
  | .input idx => s.world.readsClient idx = true → s.world.ReadKeeps a idx
  | _ => True

instance : (s : LoopState) → (a : Answers) → Decidable (s.KeepsReader a)
  | ⟨w, .input idx⟩, a => inferInstanceAs (Decidable (w.readsClient idx = true → w.ReadKeeps a idx))
  | ⟨_, .poll⟩, _ | ⟨_, .errors _⟩, _ | ⟨_, .output _⟩, _ | ⟨_, .timeouts _ _⟩, _ => instDecidableTrue
  | ⟨_, .stopped⟩, _ | ⟨_, .aborted⟩, _ => instDecidableTrue

theorem timeout_inRange {w : World} {now i : ℕ} (a : Answers) (hb : ∀ idx < w.pollFds.length, w.PipesBehind idx) :
    InRange (accesses ⟨w, .timeouts now i⟩ a) := by
  simp only [accesses, stepTraced]
  split
  · next hi =>
    refine .after hi ?_
    split
    · exact InRange.nil
    · split
      · exact InRange.nil
      · split
        · exact removeClient_inRange a.reaped _ hi (hb i hi)
        · exact InRange.nil
  · exact InRange.nil

/-- The next step keeps to the positions there are, and leaves the loop at one of them. -/
theorem accesses_inRange {s : LoopState} (h : Reachable s) (hn : ¬ s.world.ClosedEarly) (he : s.OnEntry)
    {a : Answers} (hk : s.KeepsReader a) : InRange (s.accesses a) ∧ (s.step a).OnEntry := by
  have hbehind (idx : ℕ) (hidx : idx < s.world.pollFds.length) : s.world.PipesBehind idx :=
    (h.behind hn).pipesBehind (h.exact hn) hidx
  obtain ⟨w, point⟩ := s
  cases point with
  | errors idx =>
    by_cases hidx : idx < w.pollFds.length
    · have hstep := step_errors a (hbehind idx hidx)
      exact ⟨hstep.1, hstep.2.1⟩
    · simp only [accesses, stepTraced, step, if_neg hidx]
      exact ⟨InRange.nil, trivial⟩
  | input idx =>
    have hstep := step_input a he (hbehind idx he) hk
    exact ⟨hstep.1, hstep.2.1⟩
  | output idx =>
    have hstep := step_output a he (hbehind idx he)
    exact ⟨hstep.1, hstep.2.1⟩
  | poll =>
    refine ⟨InRange.nil, ?_⟩
    simp only [step]
    split <;> trivial
  | timeouts now i =>
    refine ⟨timeout_inRange a hbehind, ?_⟩
    simp only [step]
    split <;> trivial
  | stopped => exact ⟨InRange.nil, trivial⟩
  | aborted => exact ⟨InRange.nil, trivial⟩

theorem run_inRange {s : LoopState} (h : Reachable s) (he : s.OnEntry) {as : List Answers}
    (hn : ¬ (s.run as).world.ClosedEarly) (hk : Throughout KeepsReader s as) :
    Throughout (fun s a => InRange (s.accesses a)) s as := by
  induction as generalizing s with
  | nil => trivial
  | cons a as ih =>
    have hearly : ¬ s.world.ClosedEarly := fun hc => hn ((s.closedEarly_run h.sound (a :: as)).2 hc)
    obtain ⟨hrange, hentry⟩ := accesses_inRange h hearly he hk.1
    exact ⟨hrange, ih (h.step a) hentry hn hk.2⟩

end LoopState

/-- In a run where no pipe to a script is closed while it is registered, the loop uses positions
in range as long as no read drops its client. -/
theorem positions_inRange {w : World} (hw : w.Created) {as : List Answers}
    (hn : ¬ (LoopState.run ⟨w, .poll⟩ as).world.ClosedEarly)
    (hk : LoopState.Throughout LoopState.KeepsReader ⟨w, .poll⟩ as) :
    LoopState.Throughout (fun s a => InRange (s.accesses a)) ⟨w, .poll⟩ as := by
  obtain ⟨configs, sockets, hcreate⟩ := hw
  exact LoopState.run_inRange ⟨configs, sockets, w, [], hcreate, rfl⟩ trivial hn hk

theorem positions_inRange_uploads :
    LoopState.Throughout (fun s a => InRange (s.accesses a)) scriptStart uploads :=
  positions_inRange ⟨[scriptServer], [.listening 3], rfl⟩ (by decide +kernel) (by decide +kernel)

end WebServ
