import Mathlib

/-! # Lists searched by a key

A table is a list whose entries carry a key; it is searched from the front. When
no key occurs twice, changing or dropping the entry at a position is changing or
dropping the one entry with its key.
-/
namespace WebServ.KeyedList
variable {κ β : Type*} [DecidableEq κ] (key : β → κ)

def lookup (k : κ) (l : List β) : Option β := l.find? (fun b => key b = k)

/-- Changes the first entry with the key. -/
def updateFirst (k : κ) (f : β → β) : List β → List β
  | [] => []
  | b :: l => if key b = k then f b :: l else b :: updateFirst k f l

/-- Drops the first entry with the key. -/
def eraseFirst (k : κ) (l : List β) : List β := l.eraseP (fun b => key b = k)

variable {key}

@[simp] theorem lookup_nil (k : κ) : lookup key k [] = none := rfl

theorem lookup_cons (k : κ) (b : β) (l : List β) :
    lookup key k (b :: l) = if key b = k then some b else lookup key k l := by
  by_cases h : key b = k <;> simp [lookup, h]

theorem lookup_isSome_iff {k : κ} {l : List β} : (lookup key k l).isSome ↔ k ∈ l.map key := by
  simp [lookup, List.find?_isSome]

theorem lookup_eq_none_iff {k : κ} {l : List β} : lookup key k l = none ↔ k ∉ l.map key := by
  simp [lookup]

theorem lookup_of_mem {l : List β} (hn : (l.map key).Nodup) {b : β} (hb : b ∈ l) :
    lookup key (key b) l = some b := by
  induction l with
  | nil => cases hb
  | cons a l ih =>
    simp only [List.map_cons, List.nodup_cons] at hn
    rw [lookup_cons]
    rcases List.mem_cons.mp hb with rfl | hb
    · rw [if_pos rfl]
    · have hne : key a ≠ key b := fun he => hn.1 (he ▸ List.mem_map_of_mem hb)
      rw [if_neg hne]
      exact ih hn.2 hb

theorem lookup_append (k : κ) (l l' : List β) :
    lookup key k (l ++ l') = (lookup key k l).or (lookup key k l') := List.find?_append

/-! ## Changing an entry -/

/-- What a change does not touch stays the same in every entry. -/
theorem map_updateFirst {γ : Type*} {f : β → β} {g : β → γ} (hg : ∀ b, g (f b) = g b) (k : κ) (l : List β) :
    (updateFirst key k f l).map g = l.map g := by
  induction l with
  | nil => rfl
  | cons b l ih =>
    unfold updateFirst
    split
    · simp [hg]
    · simp [ih]

theorem map_modify {γ : Type*} {f : β → β} {g : β → γ} (hg : ∀ b, g (f b) = g b) (i : ℕ) (l : List β) :
    (l.modify i f).map g = l.map g := by
  induction l generalizing i with
  | nil => simp
  | cons b l ih =>
    cases i with
    | zero => simp [hg]
    | succ i => simp [ih]

/-- Entries of an updated list are entries of the list, or updated ones. -/
theorem mem_updateFirst {k : κ} {f : β → β} {l : List β} {b : β} (h : b ∈ updateFirst key k f l) :
    b ∈ l ∨ ∃ a ∈ l, key a = k ∧ b = f a := by
  induction l with
  | nil => cases h
  | cons a l ih =>
    unfold updateFirst at h
    split at h
    · next hk =>
      rcases List.mem_cons.mp h with rfl | h
      · exact Or.inr ⟨a, by simp, hk, rfl⟩
      · exact Or.inl (List.mem_cons_of_mem a h)
    · rcases List.mem_cons.mp h with rfl | h
      · exact Or.inl (List.mem_cons_self ..)
      · rcases ih h with h | ⟨d, hd, hk, hb⟩
        · exact Or.inl (List.mem_cons_of_mem a h)
        · exact Or.inr ⟨d, List.mem_cons_of_mem a hd, hk, hb⟩

theorem mem_modify {f : β → β} {l : List β} {i : ℕ} {b : β} (h : b ∈ l.modify i f) :
    b ∈ l ∨ ∃ a, l[i]? = some a ∧ b = f a := by
  obtain ⟨j, hj⟩ := List.mem_iff_getElem?.mp h
  rw [List.getElem?_modify] at hj
  obtain ⟨a, ha, rfl⟩ := Option.map_eq_some_iff.mp hj
  split
  · next hij => exact Or.inr ⟨a, hij ▸ ha, rfl⟩
  · exact Or.inl (List.mem_of_getElem? ha)

section Update
variable {k : κ} {f : β → β} (hf : ∀ b, key (f b) = key b)
include hf

theorem map_key_updateFirst (l : List β) : (updateFirst key k f l).map key = l.map key :=
  map_updateFirst hf k l

theorem lookup_updateFirst (k' : κ) (l : List β) : lookup key k' (updateFirst key k f l) =
    if k' = k then (lookup key k l).map f else lookup key k' l := by
  induction l with
  | nil => simp [updateFirst]
  | cons b l ih =>
    unfold updateFirst
    by_cases hb : key b = k
    · rw [if_pos hb, lookup_cons, hf, lookup_cons, lookup_cons, hb]
      by_cases hk : k' = k
      · simp [hk]
      · simp [hk, Ne.symm hk]
    · rw [if_neg hb, lookup_cons, ih, lookup_cons, lookup_cons, if_neg hb]
      by_cases hk : k' = k
      · simp [hk, hb]
      · simp [hk]

omit [DecidableEq κ] in
theorem map_key_modify (i : ℕ) (l : List β) : (l.modify i f).map key = l.map key := map_modify hf i l

end Update

/-- At a position whose key is not repeated, a change by position is one by key. -/
theorem modify_eq_updateFirst {l : List β} (hn : (l.map key).Nodup) {i : ℕ} {b : β}
    (hb : l[i]? = some b) (f : β → β) : l.modify i f = updateFirst key (key b) f l := by
  induction l generalizing i with
  | nil => simp at hb
  | cons a l ih =>
    simp only [List.map_cons, List.nodup_cons] at hn
    unfold updateFirst
    cases i with
    | zero =>
      obtain rfl : a = b := by simpa using hb
      simp
    | succ i =>
      simp only [List.getElem?_cons_succ] at hb
      have hne : key a ≠ key b := fun he => hn.1 (he ▸ List.mem_map_of_mem (List.mem_of_getElem? hb))
      rw [if_neg hne, List.modify_succ_cons, ih hn.2 hb]

/-! ## Dropping an entry -/

theorem map_key_eraseFirst (k : κ) (l : List β) : (eraseFirst key k l).map key = (l.map key).erase k := by
  induction l with
  | nil => rfl
  | cons b l ih =>
    by_cases hb : key b = k
    · simp [eraseFirst, hb]
    · have hb' : (key b == k) = false := by simpa using hb
      rw [List.map_cons, List.erase_cons, hb', eraseFirst, List.eraseP_cons_of_neg (by simpa using hb)]
      simpa [eraseFirst] using ih

theorem lookup_eraseFirst {l : List β} (hn : (l.map key).Nodup) (k k' : κ) :
    lookup key k' (eraseFirst key k l) = if k' = k then none else lookup key k' l := by
  induction l with
  | nil => simp [eraseFirst]
  | cons b l ih =>
    simp only [List.map_cons, List.nodup_cons] at hn
    by_cases hb : key b = k
    · have herase : eraseFirst key k (b :: l) = l := by simp [eraseFirst, hb]
      rw [herase, lookup_cons]
      by_cases hk : k' = k
      · rw [if_pos hk, hk, ← hb]
        exact lookup_eq_none_iff.mpr hn.1
      · rw [if_neg hk, if_neg (fun he => hk (he.symm.trans hb))]
    · have herase : eraseFirst key k (b :: l) = b :: eraseFirst key k l := by simp [eraseFirst, hb]
      rw [herase, lookup_cons, lookup_cons, ih hn.2]
      by_cases hk : k' = k
      · simp [hk, hb]
      · simp [hk]

theorem eraseIdx_eq_eraseFirst {l : List β} (hn : (l.map key).Nodup) {i : ℕ} {b : β}
    (hb : l[i]? = some b) : l.eraseIdx i = eraseFirst key (key b) l := by
  induction l generalizing i with
  | nil => simp at hb
  | cons a l ih =>
    simp only [List.map_cons, List.nodup_cons] at hn
    cases i with
    | zero =>
      obtain rfl : a = b := by simpa using hb
      simp [eraseFirst]
    | succ i =>
      simp only [List.getElem?_cons_succ] at hb
      have hne : key a ≠ key b := fun he => hn.1 (he ▸ List.mem_map_of_mem (List.mem_of_getElem? hb))
      rw [List.eraseIdx_cons_succ, ih hn.2 hb, eraseFirst, eraseFirst, List.eraseP_cons_of_neg (by simpa using hne)]

theorem eraseFirst_of_not_mem {k : κ} {l : List β} (h : k ∉ l.map key) : eraseFirst key k l = l := by
  refine List.eraseP_of_forall_not ?_
  intro b hb hk
  exact h (List.mem_map.mpr ⟨b, hb, by simpa using hk⟩)

/-- Where no key occurs twice, the other entries stay. -/
theorem eraseFirst_eq_filter {l : List β} (hn : (l.map key).Nodup) (k : κ) :
    eraseFirst key k l = l.filter (fun b => key b ≠ k) := by
  induction l with
  | nil => rfl
  | cons b l ih =>
    simp only [List.map_cons, List.nodup_cons] at hn
    by_cases hb : key b = k
    · have hrest : ∀ c ∈ l, key c ≠ k := by
        intro c hc hck
        exact hn.1 (hb.trans hck.symm ▸ List.mem_map_of_mem hc)
      have hkeep : l.filter (fun c => key c ≠ k) = l := by simpa using hrest
      rw [List.filter_cons_of_neg (by simp [hb]), hkeep]
      simp [eraseFirst, hb]
    · have hfirst : eraseFirst key k (b :: l) = b :: eraseFirst key k l := by simp [eraseFirst, hb]
      rw [hfirst, List.filter_cons_of_pos (by simpa using hb), ih hn.2]

end WebServ.KeyedList
