import Mathlib

/-! # Systems that are fed without end

A system takes one input after the other from an endless supply. A rank that every
step lowers outside of a set of states brings the system into that set, again and again. A rank that
only some steps lower brings it there when such steps come again and again.
-/
namespace WebServ
variable {σ ι ρ : Type*} (step : σ → ι → σ)

/-- The state after the first `n` inputs. -/
def stateAfter (s : σ) (inputs : ℕ → ι) : ℕ → σ
  | 0 => s
  | n + 1 => step (stateAfter s inputs n) (inputs n)

variable {step}

theorem stateAfter_add (s : σ) (inputs : ℕ → ι) (m n : ℕ) :
    stateAfter step s inputs (m + n) = stateAfter step (stateAfter step s inputs m) (fun i => inputs (m + i)) n := by
  induction n with
  | zero => rfl
  | succ n ih =>
    rw [← Nat.add_assoc]
    simp only [stateAfter, ih]

/-- Finitely many inputs are enough to reach any of these states. -/
theorem stateAfter_eq_foldl (s : σ) (inputs : ℕ → ι) (n : ℕ) :
    stateAfter step s inputs n = ((List.range n).map inputs).foldl step s := by
  induction n with
  | zero => rfl
  | succ n ih => simp [stateAfter, ih, List.range_succ]

section
variable [LT ρ] [WellFoundedLT ρ] {goal : σ → Prop} {rank : σ → ρ}

/-- A rank that falls until the goal is reached. -/
theorem exists_of_rank (hstep : ∀ s i, ¬ goal s → goal (step s i) ∨ rank (step s i) < rank s) (s : σ)
    (inputs : ℕ → ι) : ∃ n, goal (stateAfter step s inputs n) := by
  induction hr : rank s using WellFoundedLT.induction generalizing s inputs with
  | ind r ih =>
    by_cases hs : goal s
    · exact ⟨0, hs⟩
    · rcases hstep s (inputs 0) hs with hgoal | hlt
      · exact ⟨1, hgoal⟩
      · obtain ⟨n, hn⟩ := ih _ (hr ▸ hlt) (step s (inputs 0)) (fun i => inputs (1 + i)) rfl
        refine ⟨1 + n, ?_⟩
        rw [stateAfter_add]
        exact hn

/-- The goal is reached after any number of inputs. -/
theorem recurs_of_rank (hstep : ∀ s i, ¬ goal s → goal (step s i) ∨ rank (step s i) < rank s) (s : σ)
    (inputs : ℕ → ι) (n : ℕ) : ∃ m ≥ n, goal (stateAfter step s inputs m) := by
  obtain ⟨k, hk⟩ := exists_of_rank hstep (stateAfter step s inputs n) (fun i => inputs (n + i))
  refine ⟨n + k, Nat.le_add_right n k, ?_⟩
  rw [stateAfter_add]
  exact hk

end

/-- A rank that never grows and falls at every chance: where chances come again and again, the goal is reached. -/
theorem exists_of_chances {goal : σ → Prop} {P : σ → ℕ → Prop} {ok chance : σ → ι → Prop}
    (hstep : ∀ s i n, P s n → ok s i → goal (step s i) ∨ ∃ m ≤ n, P (step s i) m ∧ (chance s i → m < n)) (s : σ)
    (inputs : ℕ → ι) {n : ℕ} (hP : P s n)
    (hok : ∀ k, (∀ m ≤ k, ∃ n, P (stateAfter step s inputs m) n) → ok (stateAfter step s inputs k) (inputs k))
    (hchance : (∀ m, ∃ n, P (stateAfter step s inputs m) n) →
      ∀ k, ∃ m ≥ k, chance (stateAfter step s inputs m) (inputs m)) :
    ∃ m, goal (stateAfter step s inputs m) := by
  by_contra hnever
  rw [not_exists] at hnever
  have hwaits (m : ℕ) : ∀ k ≤ m, ∃ n, P (stateAfter step s inputs k) n := by
    induction m with
    | zero =>
      intro k hk
      obtain rfl : k = 0 := Nat.le_zero.mp hk
      exact ⟨n, hP⟩
    | succ m ih =>
      intro k hk
      rcases Nat.le_succ_iff.mp hk with hk | rfl
      · exact ih k hk
      · obtain ⟨n, hn⟩ := ih m (le_refl m)
        obtain ⟨n', -, hn', -⟩ := (hstep _ _ n hn (hok m ih)).resolve_left (hnever (m + 1))
        exact ⟨n', hn'⟩
  have hnext {k n : ℕ} (h : P (stateAfter step s inputs k) n) :=
    (hstep _ _ n h (hok k (hwaits k))).resolve_left (hnever (k + 1))
  have hlater {k n : ℕ} (h : P (stateAfter step s inputs k) n) (m : ℕ) (hm : k ≤ m) :
      ∃ n' ≤ n, P (stateAfter step s inputs m) n' := by
    induction m, hm using Nat.le_induction with
    | base => exact ⟨n, le_refl n, h⟩
    | succ m _ ih =>
      obtain ⟨n', hle, hn'⟩ := ih
      obtain ⟨n'', hle', hn'', -⟩ := hnext hn'
      exact ⟨n'', hle'.trans hle, hn''⟩
  have hnone (n : ℕ) : ∀ k, ¬ P (stateAfter step s inputs k) n := by
    induction n using Nat.strong_induction_on with
    | h n ih =>
      intro k hk
      obtain ⟨m, hm, hc⟩ := hchance (fun m => hwaits m m (le_refl m)) k
      obtain ⟨n', hle, hn'⟩ := hlater hk m hm
      obtain ⟨n'', -, hn'', hlt⟩ := hnext hn'
      exact ih n'' (Nat.lt_of_lt_of_le (hlt hc) hle) (m + 1) hn''
  exact hnone n 0 hP

end WebServ
