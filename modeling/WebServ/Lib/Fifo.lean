import WebServ.Lib.OffsetBuffer
import WebServ.Lib.Runs

/-! # First in, first out

Several queues stand side by side. A run is recorded as the data that was put into the
queues and the data that was taken out of them. Offset buffers move as plain queues do.
-/
namespace WebServ

/-- Data is put behind what a queue holds, or taken from its front. -/
inductive QueueEvent (ι α : Type*)
  | appended (i : ι) (xs : List α)
  | consumed (i : ι) (xs : List α)

variable {ι α : Type*} [DecidableEq ι]

namespace QueueEvent

/-- What the event puts into the queue. -/
def appendedTo (i : ι) : QueueEvent ι α → List α
  | .appended j xs => if i = j then xs else []
  | .consumed _ _ => []

/-- What the event takes out of the queue. -/
def consumedFrom (i : ι) : QueueEvent ι α → List α
  | .appended _ _ => []
  | .consumed j xs => if i = j then xs else []

end QueueEvent
open QueueEvent

/-- A move of plain queues. -/
inductive FifoStep : (ι → List α) → List (QueueEvent ι α) → (ι → List α) → Prop
  | append (p : ι → List α) (i : ι) (xs : List α) :
      FifoStep p [.appended i xs] (Function.update p i (p i ++ xs))
  | consume {p : ι → List α} {i : ι} {xs ys : List α} (h : p i = xs ++ ys) :
      FifoStep p [.consumed i xs] (Function.update p i ys)

/-- What was taken out and then what is left is what was put in, in this order. -/
def InOrder (p : ι → List α) (r : List (QueueEvent ι α)) : Prop :=
  ∀ i, r.flatMap (consumedFrom i) ++ p i = r.flatMap (appendedTo i)

theorem FifoStep.inOrder {p p' : ι → List α} {r es : List (QueueEvent ι α)} (h : InOrder p r)
    (hs : FifoStep p es p') : InOrder p' (r ++ es) := by
  intro i
  have hi := h i
  cases hs with
  | append i₀ xs =>
    by_cases heq : i = i₀
    · subst heq
      simp [consumedFrom, appendedTo, ← hi]
    · simp [consumedFrom, appendedTo, heq, hi]
  | @consume i₀ xs ys hp =>
    by_cases heq : i = i₀
    · subst heq
      simp [consumedFrom, appendedTo, ← hi, hp]
    · simp [consumedFrom, appendedTo, heq, hi]

/-- Queues that start empty stay in order. -/
theorem Run.inOrder {p : ι → List α} {r : List (QueueEvent ι α)} (h : Run FifoStep (fun _ => []) r p) :
    InOrder p r := by
  have hstart : InOrder (fun _ : ι => ([] : List α)) [] := fun _ => rfl
  exact h.invariant (I := fun r p => InOrder p r) FifoStep.inOrder hstart

/-! ## Offset buffers -/

section
variable (b : ι → OffsetBuffer α) (i : ι)

theorem pending_update (b' : OffsetBuffer α) :
    (fun j => (Function.update b i b' j).pending) = Function.update (fun j => (b j).pending) i b'.pending := by
  funext j
  exact Function.apply_update (fun _ => OffsetBuffer.pending) b i b' j

theorem FifoStep.of_append (xs : List α) : FifoStep (fun j => (b j).pending) [.appended i xs]
    (fun j => (Function.update b i ((b i).append xs) j).pending) := by
  rw [pending_update, OffsetBuffer.pending_append]
  exact .append _ i xs

theorem FifoStep.of_consume (threshold : ℕ) {n : ℕ} (h : n ≤ (b i).size) :
    FifoStep (fun j => (b j).pending) [.consumed i ((b i).pending.take n)]
      (fun j => (Function.update b i ((b i).consume threshold n h) j).pending) := by
  rw [pending_update, OffsetBuffer.pending_consume]
  exact .consume (List.take_append_drop n _).symm

end
end WebServ
