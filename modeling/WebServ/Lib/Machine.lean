import Mathlib

/-! # Machines that read a growing buffer

A machine takes small deterministic steps on a state that holds unread input.
Its one law is locality: a step that was possible stays possible, with the same
effect, when more input is appended. Running to quiescence then does not depend
on the pieces in which the input arrived.
-/
namespace WebServ

/-- A deterministic machine with a buffer; `weight` bounds the steps left. -/
structure Machine (σ α : Type*) where
  step : σ → Option σ
  push : σ → List α → σ
  weight : σ → ℕ
  push_nil : ∀ s, push s [] = s
  push_push : ∀ s p q, push (push s p) q = push s (p ++ q)
  weight_lt : ∀ {s t}, step s = some t → weight t < weight s
  step_push : ∀ {s t} q, step s = some t → step (push s q) = some (push t q)

namespace Machine
variable {σ α : Type*} (m : Machine σ α)

/-- Runs until no step is possible. -/
def run (s : σ) : σ :=
  match _h : m.step s with
  | none => s
  | some t => run t
termination_by m.weight s
decreasing_by exact m.weight_lt _h

/-- Any number of steps. -/
def Steps : σ → σ → Prop := Relation.ReflTransGen (fun s t => m.step s = some t)

/-- Appends a piece of input and runs on. -/
def feed (s : σ) (piece : List α) : σ := m.run (m.push s piece)

def feedAll (s : σ) (pieces : List (List α)) : σ := pieces.foldl m.feed s

variable {m}

theorem run_of_none {s : σ} (h : m.step s = none) : m.run s = s := by
  unfold run
  split
  · rfl
  · next he => rw [h] at he; cases he

theorem run_of_some {s t : σ} (h : m.step s = some t) : m.run s = m.run t := by
  conv_lhs => unfold run
  split
  · next he => rw [h] at he; cases he
  · next he => rw [h] at he; cases he; rfl

@[refl] theorem Steps.refl (s : σ) : m.Steps s s := Relation.ReflTransGen.refl

theorem Steps.single {s t : σ} (h : m.step s = some t) : m.Steps s t :=
  Relation.ReflTransGen.single h

theorem Steps.trans {s t u : σ} (h : m.Steps s t) (h' : m.Steps t u) : m.Steps s u :=
  Relation.ReflTransGen.trans h h'

theorem Steps.head {s t u : σ} (h : m.step s = some t) (h' : m.Steps t u) : m.Steps s u :=
  Relation.ReflTransGen.head h h'

theorem Steps.run_eq {s t : σ} (h : m.Steps s t) : m.run s = m.run t := by
  induction h using Relation.ReflTransGen.head_induction_on with
  | refl => rfl
  | head hs _ ih => rw [run_of_some hs, ih]

/-- The state a run stops in is the only stuck state that can be reached. -/
theorem Steps.run_eq_of_stuck {s t : σ} (h : m.Steps s t) (ht : m.step t = none) : m.run s = t := by
  rw [h.run_eq, run_of_none ht]

theorem Steps.push {s t : σ} (q : List α) (h : m.Steps s t) : m.Steps (m.push s q) (m.push t q) := by
  induction h with
  | refl => exact Steps.refl _
  | tail _ hs ih => exact ih.trans (Steps.single (m.step_push q hs))

variable (m) in
theorem steps_run (s : σ) : m.Steps s (m.run s) := by
  induction hw : m.weight s using Nat.strongRecOn generalizing s with
  | ind w ih =>
    cases h : m.step s with
    | none => rw [run_of_none h]
    | some t =>
      rw [run_of_some h]
      exact Steps.head h (ih _ (hw ▸ m.weight_lt h) t rfl)

variable (m) in
theorem step_run (s : σ) : m.step (m.run s) = none := by
  induction hw : m.weight s using Nat.strongRecOn generalizing s with
  | ind w ih =>
    cases h : m.step s with
    | none => rw [run_of_none h, h]
    | some t =>
      rw [run_of_some h]
      exact ih _ (hw ▸ m.weight_lt h) t rfl

variable (m) in
/-- Running early does not change where the run ends. -/
theorem run_push_run (s : σ) (q : List α) : m.run (m.push (m.run s) q) = m.run (m.push s q) :=
  ((m.steps_run s).push q).run_eq.symm

variable (m) in
theorem feed_feed (s : σ) (p q : List α) : m.feed (m.feed s p) q = m.feed s (p ++ q) := by
  rw [feed, feed, run_push_run, m.push_push, feed]

@[simp] theorem feedAll_nil (s : σ) : m.feedAll s [] = s := rfl
@[simp] theorem feedAll_cons (s : σ) (p : List α) (ps : List (List α)) :
    m.feedAll s (p :: ps) = m.feedAll (m.feed s p) ps := rfl

/-- Fragments of an input act as the input itself, as soon as there is one. -/
theorem feedAll_eq_feed (s : σ) (p : List α) (ps : List (List α)) :
    m.feedAll s (p :: ps) = m.feed s (p :: ps).flatten := by
  induction ps generalizing s p with
  | nil => simp
  | cons q ps ih =>
    rw [feedAll_cons, ih, feed_feed]
    simp

end Machine
end WebServ
