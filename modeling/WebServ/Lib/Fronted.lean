import WebServ.Lib.KeyedList

/-! # Lists with a fixed front

A list searched by a key starts with entries that are to stay, and their keys occur
nowhere behind them. Changes under other keys, by position or by search, leave the front
as it is.
-/
namespace WebServ.KeyedList
variable {κ β γ : Type*} [DecidableEq κ]

/-- The list starts with entries that look like those of `front`; behind them are other keys. -/
def Fronted (key : β → κ) (look : β → γ) (front l : List β) : Prop :=
  ∃ l₁ l₂, l = l₁ ++ l₂ ∧ l₁.map look = front.map look ∧ l₁.map key = front.map key ∧
    ∀ b ∈ l₂, key b ∉ front.map key

variable {key : β → κ} {look : β → γ} {front l : List β}

omit [DecidableEq κ]

theorem key_notMem_of_map {l' : List β} {ks : List κ} (h : l'.map key = l.map key) (hl : ∀ b ∈ l, key b ∉ ks) :
    ∀ b ∈ l', key b ∉ ks := by
  intro b hb
  obtain ⟨c, hc, hcb⟩ := List.mem_map.mp (h ▸ List.mem_map_of_mem hb)
  exact hcb ▸ hl c hc

theorem Fronted.self : Fronted key look l l := ⟨l, [], by simp⟩

/-- An entry under another key stands behind the front. -/
theorem Fronted.behind (h : Fronted key look front l) {i : ℕ} {b : β} (hb : l[i]? = some b)
    (hk : key b ∉ front.map key) : front.length ≤ i := by
  obtain ⟨l₁, l₂, rfl, -, hkeys, -⟩ := h
  have hlen : l₁.length = front.length := by simpa using congrArg List.length hkeys
  by_contra hlt
  rw [List.getElem?_append_left (by omega)] at hb
  exact hk (hkeys ▸ List.mem_map_of_mem (List.mem_of_getElem? hb))

theorem Fronted.append (h : Fronted key look front l) {b : β} (hk : key b ∉ front.map key) :
    Fronted key look front (l ++ [b]) := by
  obtain ⟨l₁, l₂, rfl, hlook, hkeys, hbehind⟩ := h
  refine ⟨l₁, l₂ ++ [b], List.append_assoc .., hlook, hkeys, ?_⟩
  intro c hc
  rcases List.mem_append.mp hc with hc | hc
  · exact hbehind c hc
  · rw [List.mem_singleton.mp hc]
    exact hk

theorem Fronted.eraseIdx (h : Fronted key look front l) {i : ℕ} (hi : front.length ≤ i) :
    Fronted key look front (l.eraseIdx i) := by
  obtain ⟨l₁, l₂, rfl, hlook, hkeys, hbehind⟩ := h
  have hlen : l₁.length = front.length := by simpa using congrArg List.length hkeys
  rw [List.eraseIdx_append_of_length_le (by omega)]
  exact ⟨l₁, _, rfl, hlook, hkeys, fun b hb => hbehind b (List.mem_of_mem_eraseIdx hb)⟩

/-- Every entry looks as before and has its key. -/
theorem Fronted.of_map {l' : List β} (h : Fronted key look front l) (hlook : l'.map look = l.map look)
    (hkey : l'.map key = l.map key) : Fronted key look front l' := by
  obtain ⟨l₁, l₂, rfl, hlook₁, hkeys, hbehind⟩ := h
  have hsplit := List.take_append_drop l₁.length l'
  refine ⟨l'.take l₁.length, l'.drop l₁.length, hsplit.symm, ?_, ?_, ?_⟩
  · rw [List.map_take, hlook, List.map_append, List.take_left' (by simp), hlook₁]
  · rw [List.map_take, hkey, List.map_append, List.take_left' (by simp), hkeys]
  · refine key_notMem_of_map ?_ hbehind
    rw [List.map_drop, hkey, List.map_append, List.drop_left' (by simp)]

theorem modify_append_right (f : β → β) (l₁ l₂ : List β) (j : ℕ) :
    (l₁ ++ l₂).modify (l₁.length + j) f = l₁ ++ l₂.modify j f := by
  induction l₁ with
  | nil => simp
  | cons a l₁ ih =>
    rw [List.cons_append, List.length_cons, Nat.add_right_comm, List.modify_succ_cons, ih, List.cons_append]

section
variable {f : β → β} (hf : ∀ b, key (f b) = key b)
include hf

theorem Fronted.modify (h : Fronted key look front l) {i : ℕ} (hi : front.length ≤ i) :
    Fronted key look front (l.modify i f) := by
  obtain ⟨l₁, l₂, rfl, hlook, hkeys, hbehind⟩ := h
  have hlen : l₁.length = front.length := by simpa using congrArg List.length hkeys
  obtain ⟨j, rfl⟩ := Nat.exists_eq_add_of_le (hlen ▸ hi)
  exact ⟨l₁, l₂.modify j f, modify_append_right f l₁ l₂ j, hlook, hkeys,
    key_notMem_of_map (map_key_modify hf j l₂) hbehind⟩

variable [DecidableEq κ]

theorem Fronted.updateFirst (h : Fronted key look front l) {k : κ} (hk : k ∉ front.map key) :
    Fronted key look front (KeyedList.updateFirst key k f l) := by
  obtain ⟨l₁, l₂, rfl, hlook, hkeys, hbehind⟩ := h
  rw [← hkeys] at hk
  have hsplit : KeyedList.updateFirst key k f (l₁ ++ l₂) = l₁ ++ KeyedList.updateFirst key k f l₂ := by
    clear hlook hkeys
    induction l₁ with
    | nil => rfl
    | cons a l₁ ih =>
      simp only [List.map_cons, List.mem_cons, not_or] at hk
      rw [List.cons_append, KeyedList.updateFirst, if_neg (Ne.symm hk.1), ih hk.2, List.cons_append]
  exact ⟨l₁, _, hsplit, hlook, hkeys, key_notMem_of_map (map_key_updateFirst hf l₂) hbehind⟩

end

theorem Fronted.eraseFirst [DecidableEq κ] (h : Fronted key look front l) {k : κ} (hk : k ∉ front.map key) :
    Fronted key look front (KeyedList.eraseFirst key k l) := by
  obtain ⟨l₁, l₂, rfl, hlook, hkeys, hbehind⟩ := h
  have hfree : ∀ b ∈ l₁, ¬ (decide (key b = k)) := by
    intro b hb hkb
    exact hk (of_decide_eq_true hkb ▸ hkeys ▸ List.mem_map_of_mem hb)
  exact ⟨l₁, l₂.eraseP _, List.eraseP_append_right l₂ hfree, hlook, hkeys,
    fun b hb => hbehind b (List.mem_of_mem_eraseP hb)⟩

end WebServ.KeyedList
