import WebServ.Server.PassEnds
import WebServ.Server.Positions

/-! # Connections that do nothing

After the pass the loop goes over the entries once more and removes the clients that
were not active for too long. A removal drops entries while the check goes over them,
and still no client is passed over.
-/
namespace WebServ
open World KeyedList

/-- The client was active within the time limit. -/
def Client.Fresh (client : Client) (now : ℕ) : Prop := now ≤ client.lastActivity + clientTimeout

/-- The check has come to the position `i`: clients that were not active left from the entries in
front of it, and nothing else happened to the clients. -/
structure World.Swept (w₀ : World) (now i : ℕ) (w : World) : Prop where
  exact : w.registry.Exact
  behind : w.registry.Behind
  old : ∀ c client, w.getClient c = some client → w₀.getClient c = some client
  kept : ∀ c client, w₀.getClient c = some client → client.Fresh now → w.getClient c = some client
  front : ∀ c ∈ w.fds.take i, ∀ client, w.getClient c = some client → client.Fresh now

namespace World
variable {w₀ w : World} {now i : ℕ}

theorem Swept.start (hx : w.registry.Exact) (hb : w.registry.Behind) (now : ℕ) : w.Swept now 0 w where
  exact := hx
  behind := hb
  old _ _ hg := hg
  kept _ _ hg _ := hg
  front := by simp

/-- An entry that has no client that is late stays. -/
theorem Swept.pass (h : w₀.Swept now i w) (hi : i < w.pollFds.length)
    (hfresh : ∀ client, w.getClient (w.entry i).fd = some client → client.Fresh now) : w₀.Swept now (i + 1) w where
  exact := h.exact
  behind := h.behind
  old := h.old
  kept := h.kept
  front := by
    intro c hc client hg
    rw [List.take_add_one, fds_getElem? hi] at hc
    rcases List.mem_append.mp hc with hc | hc
    · exact h.front c hc client hg
    · obtain rfl : c = (w.entry i).fd := by simpa using hc
      exact hfresh client hg

/-- What stands in front of a removed client stays. -/
theorem take_fds_removeClient (hb : w.PipesBehind i) (hi : i < w.pollFds.length) (reaped : Bool)
    (reason : RemoveReason) : (w.removeClient i reaped reason).fds.take i = w.fds.take i := by
  have hturn := removeClient_turn reaped reason hi hb
  rw [Turn] at hturn
  rw [← map_fst_reports, ← map_fst_reports]
  generalize (w.removeClient i reaped reason).reports = reports at hturn ⊢
  cases hturn with
  | dropsOwn hrest =>
    rw [List.map_append, List.take_left' (by rw [List.length_map, List.length_take, length_reports]; omega),
      List.map_take]

/-- A client that is late is removed. -/
theorem Swept.remove (h : w₀.Swept now i w) (hi : i < w.pollFds.length) {client : Client}
    (hg : w.getClient (w.entry i).fd = some client) (hlate : ¬ client.Fresh now) (reaped : Bool) :
    w₀.Swept now i (w.removeClient i reaped .timeout) := by
  obtain ⟨p, hp⟩ : ∃ p, w.pollFds[i]? = some p := ⟨_, List.getElem?_eq_getElem hi⟩
  have hstep := (removeClient_reaches hp (entry_eq hp ▸ hg) reaped .timeout).step h.exact.registered
  have hclient := (removeClient_changed w i reaped .timeout).client
  have hold {c : Fd} {client' : Client} (hg' : (w.removeClient i reaped .timeout).getClient c = some client') :
      w.getClient c = some client' := by
    rw [hclient] at hg'
    split at hg'
    · cases hg'
    · exact hg'
  refine ⟨h.exact.step hstep, h.exact.behind_step h.behind hstep, fun c client' hg' => h.old c client' (hold hg'),
    ?_, ?_⟩
  · intro c client' hg' hfresh
    have hgc := h.kept c client' hg' hfresh
    rw [hclient, if_neg]
    · exact hgc
    · rintro rfl
      rw [hg] at hgc
      obtain rfl := Option.some.inj hgc
      exact hlate hfresh
  · intro c hc client' hg'
    rw [take_fds_removeClient (h.behind.pipesBehind h.exact hi) hi] at hc
    exact h.front c hc client' (hold hg')

theorem Swept.step (h : w₀.Swept now i w) (hi : i < w.pollFds.length) (a : Answers) :
    w₀.Swept now (LoopState.timeoutStep w a now i).1 (LoopState.timeoutStep w a now i).2 ∧
      (LoopState.timeoutStep w a now i).2.pollFds.length - (LoopState.timeoutStep w a now i).1 <
        w.pollFds.length - i := by
  have hnext : w.pollFds.length - (i + 1) < w.pollFds.length - i := Nat.sub_succ_lt_self _ _ hi
  unfold LoopState.timeoutStep
  dsimp only
  split
  · next hl =>
    refine ⟨h.pass hi ?_, hnext⟩
    intro client hg
    have hone := (h.exact.registered.balanced (w.entry i).fd).2
    have hlisten : w.registry.listening (w.entry i).fd = true := hl
    simp only [Registry.roles, scripts_of_client hg, hlisten, Option.isSome_some, Bool.toNat_true] at hone
    omega
  · split
    · next hg =>
      refine ⟨h.pass hi ?_, hnext⟩
      intro client hg'
      rw [hg] at hg'
      cases hg'
    · next client hg =>
      split
      · next hlate =>
        exact ⟨h.remove hi hg (Nat.not_le_of_lt hlate) a.reaped,
          (removeClient_dropped w i a.reaped .timeout).left_lt hi⟩
      · next hfresh =>
        refine ⟨h.pass hi ?_, hnext⟩
        intro client' hg'
        obtain rfl : client = client' := Option.some.inj (hg.symm.trans hg')
        exact Nat.le_of_not_lt hfresh

/-- When the check is over, the clients are those that were active. -/
theorem Swept.over (h : w₀.Swept now i w) (hi : w.pollFds.length ≤ i) (c : Fd) (client : Client) :
    w.getClient c = some client ↔ w₀.getClient c = some client ∧ client.Fresh now := by
  refine ⟨?_, fun hg => h.kept c client hg.1 hg.2⟩
  intro hg
  refine ⟨h.old c client hg, h.front c ?_ client hg⟩
  rw [List.take_of_length_le (by simpa using hi)]
  exact h.exact.registered.client_polled (scripts_of_client hg)

end World

/-- The check for timeouts comes to its end. -/
theorem World.Swept.finish {w₀ : World} {now : ℕ} (answers : ℕ → Answers) {i : ℕ} {w : World}
    (h : w₀.Swept now i w) : ∃ m, (stateAfter LoopState.step ⟨w, .timeouts now i⟩ answers m).point = .poll ∧
      ∀ c client, (stateAfter LoopState.step ⟨w, .timeouts now i⟩ answers m).world.getClient c = some client ↔
        w₀.getClient c = some client ∧ client.Fresh now := by
  induction hk : w.pollFds.length - i using Nat.strong_induction_on generalizing i w answers with
  | h k ih =>
    by_cases hi : i < w.pollFds.length
    · obtain ⟨hswept, hlt⟩ := h.step hi (answers 0)
      obtain ⟨m, hm⟩ := ih _ (hk ▸ hlt) (fun n => answers (1 + n)) hswept rfl
      have hstep : LoopState.step ⟨w, .timeouts now i⟩ (answers 0) =
          ⟨(LoopState.timeoutStep w (answers 0) now i).2,
            .timeouts now (LoopState.timeoutStep w (answers 0) now i).1⟩ := if_pos hi
      refine ⟨1 + m, ?_⟩
      rw [stateAfter_add, show stateAfter LoopState.step ⟨w, .timeouts now i⟩ answers 1 = _ from hstep]
      exact hm
    · have hstep : LoopState.step ⟨w, .timeouts now i⟩ (answers 0) = ⟨w, .poll⟩ := if_neg hi
      refine ⟨1, ?_⟩
      rw [show stateAfter LoopState.step ⟨w, .timeouts now i⟩ answers 1 = _ from hstep]
      exact ⟨rfl, h.over (Nat.le_of_not_lt hi)⟩

/-- The check for timeouts ends with exactly the clients that were active within the limit, and
these are as they were. -/
theorem inactive_removed {s : LoopState} (h : Reachable s) (hn : ¬ s.world.ClosedEarly) {now : ℕ}
    (hp : s.point = .timeouts now 0) (answers : ℕ → Answers) :
    ∃ m, (s.run ((List.range m).map answers)).point = .poll ∧
      ∀ c client, (s.run ((List.range m).map answers)).world.getClient c = some client ↔
        s.world.getClient c = some client ∧ now ≤ client.lastActivity + clientTimeout := by
  obtain ⟨w, point⟩ := s
  obtain rfl : point = .timeouts now 0 := hp
  obtain ⟨m, hm⟩ := (Swept.start (h.exact hn) (h.behind hn) now).finish answers
  rw [stateAfter_eq_foldl] at hm
  exact ⟨m, hm⟩

/-- Two clients connect, and only the second one sends something. -/
def lingers : List Answers :=
  pass 3 [{ pollin := true }] { now := 10, accepts := [4, 5] } ++
    [{ poll := .ready [{}, {}, { pollin := true }] }] ++
    List.replicate 9 { now := 100, reads := [.data (ascii "GET / HTTP/1.1\r\n")] } ++ [{ now := 131 }]

theorem inactive_removed_lingers :
    ∃ m, (((scriptStart.run lingers).run ((List.range m).map fun _ => {})).world.getClient 4 = none) ∧
      (((scriptStart.run lingers).run ((List.range m).map fun _ => {})).world.getClient 5).isSome := by
  have hstart : (scriptStart.run lingers).point = .timeouts 131 0 ∧ ¬ (scriptStart.run lingers).world.ClosedEarly ∧
      ((scriptStart.run lingers).world.getClient 4).map Client.lastActivity = some 10 ∧
      ((scriptStart.run lingers).world.getClient 5).map Client.lastActivity = some 100 := by decide +kernel
  obtain ⟨hpoint, hn, hfirst, hsecond⟩ := hstart
  obtain ⟨m, -, hm⟩ := inactive_removed (scriptStart_reachable lingers) hn hpoint (fun _ => {})
  refine ⟨m, ?_, ?_⟩
  · rw [Option.eq_none_iff_forall_ne_some]
    intro client hg
    obtain ⟨hg', hfresh⟩ := (hm 4 client).mp hg
    rw [hg', Option.map_some, Option.some.injEq] at hfirst
    rw [hfirst] at hfresh
    exact absurd hfresh (by decide)
  · obtain ⟨client, hg, hlast⟩ := Option.map_eq_some_iff.mp hsecond
    have hfresh : 131 ≤ client.lastActivity + clientTimeout := by
      rw [hlast]
      decide
    exact Option.isSome_iff_exists.mpr ⟨client, (hm 5 client).mpr ⟨hg, hfresh⟩⟩

end WebServ
