import Mathlib

/-! # Going over a list that changes on the way

A cursor visits the entries of a list by position. The turn of an entry may append
entries, drop entries behind the cursor, or drop the entry itself; the cursor moves
on only when the entry is kept. What lies in front of the cursor stays as it is.
-/
namespace WebServ.Sweep
variable {α : Type*} (new : α → Prop) {i : ℕ} {l l' : List α}

/-- Entries were appended. -/
def Grows (l l' : List α) : Prop := ∃ added, (∀ a ∈ added, new a) ∧ l' = l ++ added

/-- Entries behind the cursor were dropped. -/
def Drops (i : ℕ) (l l' : List α) : Prop := ∃ rest, rest.Sublist (l.drop (i + 1)) ∧ l' = l.take (i + 1) ++ rest

/-- The turn of the entry at `i`: whether the entry is kept, and the list after it. -/
inductive Turn (i : ℕ) (l : List α) : Bool → List α → Prop
  | grows {l' : List α} : Grows new l l' → Turn i l true l'
  | drops {l' : List α} : Drops i l l' → Turn i l true l'
  | dropsOwn {rest : List α} : rest.Sublist (l.drop (i + 1)) → Turn i l false (l.take i ++ rest)

variable {new}

theorem Grows.refl (l : List α) : Grows new l l := ⟨[], by simp, by simp⟩

theorem Grows.trans {l'' : List α} (h : Grows new l l') (h' : Grows new l' l'') : Grows new l l'' := by
  obtain ⟨added, hnew, rfl⟩ := h
  obtain ⟨more, hmore, rfl⟩ := h'
  refine ⟨added ++ more, ?_, List.append_assoc _ _ _⟩
  intro a ha
  rcases List.mem_append.mp ha with ha | ha
  · exact hnew a ha
  · exact hmore a ha

theorem Grows.single {a : α} (h : new a) : Grows new l (l ++ [a]) := ⟨[a], by simpa using h, rfl⟩

theorem Drops.refl (i : ℕ) (l : List α) : Drops i l l :=
  ⟨l.drop (i + 1), List.Sublist.refl _, (List.take_append_drop _ _).symm⟩

theorem Drops.trans {l'' : List α} (hi : i < l.length) (h : Drops i l l') (h' : Drops i l' l'') : Drops i l l'' := by
  obtain ⟨rest, hrest, rfl⟩ := h
  obtain ⟨rest', hrest', rfl⟩ := h'
  have hlen : (l.take (i + 1)).length = i + 1 := by
    rw [List.length_take]
    omega
  rw [List.drop_left' hlen] at hrest'
  exact ⟨rest', hrest'.trans hrest, by rw [List.take_left' hlen]⟩

theorem Drops.lt_length (h : Drops i l l') (hi : i < l.length) : i < l'.length := by
  obtain ⟨rest, hrest, rfl⟩ := h
  rw [List.length_append, List.length_take]
  omega

/-- Dropping the entry itself after others. -/
theorem Drops.dropOwn (h : Drops i l l') (hi : i < l.length) : Turn new i l false (l'.eraseIdx i) := by
  obtain ⟨rest, hrest, rfl⟩ := h
  have hlen : (l.take (i + 1)).length = i + 1 := by
    rw [List.length_take]
    omega
  have herase : (l.take (i + 1) ++ rest).eraseIdx i = l.take i ++ rest := by
    rw [List.eraseIdx_eq_take_drop_succ, List.drop_left' hlen, List.take_append_of_le_length (by omega),
      List.take_take, Nat.min_eq_left (by omega)]
  rw [herase]
  exact Turn.dropsOwn hrest

theorem Turn.refl (i : ℕ) (l : List α) : Turn new i l true l := Turn.grows (Grows.refl l)

theorem Turn.lt_length (h : Turn new i l true l') (hi : i < l.length) : i < l'.length := by
  cases h with
  | grows hg =>
    obtain ⟨added, hnew, rfl⟩ := hg
    rw [List.length_append]
    omega
  | drops hd => exact hd.lt_length hi

section
variable {p : α → Bool}

/-- As long as no entry of a kind is lost, those that wait are the ones that waited and new ones. -/
theorem Turn.kept_filter (h : Turn new i l true l') (hi : i < l.length) (hc : l.countP p ≤ l'.countP p) :
    ∃ added, (∀ a ∈ added, new a ∧ p a) ∧ (l'.drop (i + 1)).filter p = (l.drop (i + 1)).filter p ++ added ∧
      l'.countP p = l.countP p + added.length := by
  cases h with
  | grows hg =>
    obtain ⟨added, hnew, rfl⟩ := hg
    refine ⟨added.filter p, ?_, ?_, ?_⟩
    · intro a ha
      obtain ⟨hmem, hp⟩ := List.mem_filter.mp ha
      exact ⟨hnew a hmem, hp⟩
    · rw [List.drop_append_of_le_length (by omega), List.filter_append]
    · rw [List.countP_append, ← List.countP_eq_length_filter]
  | drops hd =>
    obtain ⟨rest, hrest, rfl⟩ := hd
    have hdrop : (l.take (i + 1) ++ rest).drop (i + 1) = rest := by
      apply List.drop_left'
      rw [List.length_take]
      omega
    have hsplit : l.countP p = (l.take (i + 1)).countP p + (l.drop (i + 1)).countP p := by
      rw [← List.countP_append, List.take_append_drop]
    rw [List.countP_append] at hc
    have heq : rest.filter p = (l.drop (i + 1)).filter p := by
      apply (hrest.filter p).eq_of_length_le
      rw [← List.countP_eq_length_filter, ← List.countP_eq_length_filter]
      omega
    refine ⟨[], by simp, ?_, ?_⟩
    · rw [hdrop, heq, List.append_nil]
    · rw [List.countP_append, hsplit, List.countP_eq_length_filter (l := rest), heq,
        ← List.countP_eq_length_filter]
      simp

theorem Turn.dropped_filter {a : α} (h : Turn new i l false l') (hi : l[i]? = some a)
    (hc : l.countP p ≤ l'.countP p) : p a = false ∧
      (l'.drop i).filter p = (l.drop (i + 1)).filter p ∧ l'.countP p = l.countP p := by
  obtain ⟨hlt, rfl⟩ := List.getElem?_eq_some_iff.mp hi
  cases h with
  | @dropsOwn rest hrest =>
    have hdrop : (l.take i ++ rest).drop i = rest := by
      apply List.drop_left'
      rw [List.length_take]
      omega
    have hsplit : l.countP p = (l.take i).countP p + ((l.drop (i + 1)).countP p + if p l[i] then 1 else 0) := by
      rw [← List.countP_cons, List.getElem_cons_drop, ← List.countP_append, List.take_append_drop]
    have hle := hrest.countP_le (p := p)
    rw [List.countP_append] at hc
    have hp : p l[i] = false := by
      by_contra hp
      rw [Bool.not_eq_false] at hp
      rw [if_pos hp] at hsplit
      omega
    rw [hp] at hsplit
    simp only [Bool.false_eq_true, if_false] at hsplit
    have heq : rest.filter p = (l.drop (i + 1)).filter p := by
      apply (hrest.filter p).eq_of_length_le
      rw [← List.countP_eq_length_filter, ← List.countP_eq_length_filter]
      omega
    refine ⟨hp, by rw [hdrop, heq], ?_⟩
    rw [List.countP_append]
    omega

end

/-- An entry behind the cursor that is still there is behind the cursor. -/
theorem Turn.stays {κ : Type*} {kept : Bool} (h : Turn new i l kept l') {key : α → κ} (hn : (l.map key).Nodup) {a : α}
    (ha : a ∈ l.drop (i + 1)) (ha' : key a ∈ l'.map key) : a ∈ l'.drop (if kept then i + 1 else i) := by
  have hrest {front rest : List α} {k : ℕ} (hfront : front.Sublist (l.take (i + 1))) (hk : front.length = k)
      (hrest : rest.Sublist (l.drop (i + 1))) (hmem : key a ∈ (front ++ rest).map key) :
      a ∈ (front ++ rest).drop k := by
    rw [List.drop_left' hk]
    rw [← List.take_append_drop (i + 1) l, List.map_append] at hn
    obtain ⟨-, hnback, hdisjoint⟩ := List.nodup_append.mp hn
    rw [List.map_append] at hmem
    rcases List.mem_append.mp hmem with hmem | hmem
    · exact absurd rfl (hdisjoint _ ((hfront.map key).subset hmem) _ (List.mem_map_of_mem ha))
    · obtain ⟨b, hb, hba⟩ := List.mem_map.mp hmem
      obtain rfl := List.inj_on_of_nodup_map hnback (hrest.subset hb) ha hba
      exact hb
  have hlen : i + 1 ≤ l.length := by
    have hpos := List.length_pos_of_mem ha
    rw [List.length_drop] at hpos
    omega
  cases h with
  | grows hg =>
    obtain ⟨added, -, rfl⟩ := hg
    rw [if_pos rfl, List.drop_append_of_le_length hlen]
    exact List.mem_append_left _ ha
  | drops hd =>
    obtain ⟨rest, hsub, rfl⟩ := hd
    exact hrest (List.Sublist.refl _) (by simp [hlen]) hsub ha'
  | @dropsOwn rest hsub =>
    refine hrest (List.take_sublist_take_left (Nat.le_succ i)) ?_ hsub ha'
    rw [List.length_take]
    exact Nat.min_eq_left (Nat.le_of_succ_le hlen)

end WebServ.Sweep
