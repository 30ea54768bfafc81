import Mathlib

/-! # Byte queues in one string

A queue is kept as a string and an offset: what stands before the offset was
consumed. The string is cut back once the offset reaches a threshold.
-/
namespace WebServ

structure OffsetBuffer (α : Type*) where
  data : List α
  offset : ℕ
  offset_le : offset ≤ data.length

namespace OffsetBuffer
variable {α : Type*}

def empty : OffsetBuffer α := ⟨[], 0, Nat.le_refl 0⟩

/-- What is still to be consumed, from the offset on. -/
def pending (b : OffsetBuffer α) : List α := b.data.drop b.offset

def size (b : OffsetBuffer α) : ℕ := b.data.length - b.offset

def isEmpty (b : OffsetBuffer α) : Bool := b.size = 0

def append (b : OffsetBuffer α) (xs : List α) : OffsetBuffer α :=
  ⟨b.data ++ xs, b.offset, by simp only [List.length_append]; have := b.offset_le; omega⟩

/-- Moves the offset; past the threshold the consumed part is cut off. -/
def consume (threshold : ℕ) (b : OffsetBuffer α) (n : ℕ) (h : n ≤ b.size) : OffsetBuffer α :=
  if b.offset + n ≥ threshold then ⟨b.data.drop (b.offset + n), 0, Nat.zero_le _⟩
  else ⟨b.data, b.offset + n, by have := b.offset_le; unfold size at h; omega⟩

@[simp] theorem pending_empty : (empty : OffsetBuffer α).pending = [] := rfl

@[simp] theorem length_pending (b : OffsetBuffer α) : b.pending.length = b.size := by
  simp [pending, size]

@[simp] theorem pending_append (b : OffsetBuffer α) (xs : List α) :
    (b.append xs).pending = b.pending ++ xs := by
  simp only [pending, append]
  exact List.drop_append_of_le_length b.offset_le

@[simp] theorem pending_consume (threshold : ℕ) (b : OffsetBuffer α) (n : ℕ) (h : n ≤ b.size) :
    (b.consume threshold n h).pending = b.pending.drop n := by
  unfold consume pending
  split
  · simp
  · simp

theorem length_consume_le (threshold : ℕ) {b : OffsetBuffer α} {n : ℕ} (h : n ≤ b.size) :
    (b.consume threshold n h).data.length ≤ b.data.length := by
  unfold consume
  split
  · simp
  · exact le_rfl

theorem size_append (b : OffsetBuffer α) (xs : List α) : (b.append xs).size = b.size + xs.length := by
  rw [← length_pending, pending_append, List.length_append, length_pending]

theorem size_consume (threshold : ℕ) (b : OffsetBuffer α) (n : ℕ) (h : n ≤ b.size) :
    (b.consume threshold n h).size = b.size - n := by
  rw [← length_pending, pending_consume, List.length_drop, length_pending]

theorem size_eq_zero_iff (b : OffsetBuffer α) : b.size = 0 ↔ b.pending = [] := by
  rw [← length_pending, List.length_eq_zero_iff]

@[simp] theorem isEmpty_iff (b : OffsetBuffer α) : b.isEmpty = true ↔ b.pending = [] := by
  simp [isEmpty, size_eq_zero_iff]

@[simp] theorem isEmpty_eq_false_iff (b : OffsetBuffer α) : b.isEmpty = false ↔ b.pending ≠ [] := by
  simp [isEmpty, size_eq_zero_iff]

end OffsetBuffer
end WebServ
