import Mathlib

/-! # Fields stored in a map

Fields are pairs of a name and a value, in the order in which they were written. Storing
them one after the other in a map keeps the last value of each name, so that nothing is
lost exactly when no name is written twice.
-/
namespace WebServ.FieldMap

variable {κ ν : Type*} [DecidableEq κ]

/-- The last value written for a name. -/
def lastOf (k : κ) (fields : List (κ × ν)) : Option ν :=
  (fields.reverse.find? (fun p => p.1 = k)).map Prod.snd

theorem lastOf_concat (k : κ) (fields : List (κ × ν)) (p : κ × ν) :
    lastOf k (fields ++ [p]) = if p.1 = k then some p.2 else lastOf k fields := by
  by_cases hk : p.1 = k <;> simp [lastOf, hk]

/-- Dropping names takes their values and leaves the others. -/
theorem lastOf_filter (k : κ) (kept : κ → Prop) [DecidablePred kept] (fields : List (κ × ν)) :
    lastOf k (fields.filter (fun p => kept p.1)) = if kept k then lastOf k fields else none := by
  induction fields using List.reverseRecOn with
  | nil => simp [lastOf]
  | append_singleton fields p ih =>
    rw [List.filter_append, List.filter_singleton, lastOf_concat]
    by_cases hp : kept p.1
    · rw [decide_eq_true hp, cond_true, lastOf_concat, ih]
      by_cases hk : p.1 = k
      · rw [if_pos hk, if_pos hk, if_pos (hk ▸ hp)]
      · rw [if_neg hk, if_neg hk]
    · rw [decide_eq_false hp, cond_false, List.append_nil, ih]
      by_cases hk : p.1 = k
      · rw [if_neg (hk ▸ hp), if_neg (hk ▸ hp)]
      · rw [if_neg hk]

theorem mem_of_lastOf {k : κ} {v : ν} {fields : List (κ × ν)} (h : lastOf k fields = some v) : (k, v) ∈ fields := by
  obtain ⟨p, hp, rfl⟩ := Option.map_eq_some_iff.mp h
  have hk : p.1 = k := by simpa using List.find?_some hp
  subst hk
  exact List.mem_reverse.mp (List.mem_of_find?_eq_some hp)

theorem lastOf_isSome {k : κ} {v : ν} {fields : List (κ × ν)} (h : (k, v) ∈ fields) :
    ∃ w, lastOf k fields = some w := by
  have hfind : (fields.reverse.find? (fun p => p.1 = k)).isSome := by
    rw [List.find?_isSome]
    exact ⟨(k, v), List.mem_reverse.mpr h, by simp⟩
  obtain ⟨p, hp⟩ := Option.isSome_iff_exists.mp hfind
  exact ⟨p.2, by rw [lastOf, hp, Option.map_some]⟩

variable [DecidableEq ν] [BEq κ] [LawfulBEq κ] [BEq ν] [LawfulBEq ν]

/-- With one value for each name, every field is written once exactly when no name is
written twice; `passed` are the names that count. -/
theorem kept_iff (passed : κ → Prop) [DecidablePred passed] (fields : List (κ × ν)) :
    (∀ p ∈ fields, passed p.1 → (if lastOf p.1 fields = some p.2 then 1 else 0) = fields.count p) ↔
      ((fields.filter (fun p => passed p.1)).map Prod.fst).Nodup := by
  have hfilter (p : κ × ν) (hpass : passed p.1) : (fields.filter (fun p => passed p.1)).count p = fields.count p :=
    List.count_filter (p := fun p : κ × ν => decide (passed p.1)) (decide_eq_true hpass)
  constructor
  · intro h
    -- each field of a name that counts is the last of that name
    have hlast (p : κ × ν) (hp : p ∈ fields) (hpass : passed p.1) : lastOf p.1 fields = some p.2 ∧ fields.count p = 1 := by
      have hcount := h p hp hpass
      have hpos : 0 < fields.count p := List.count_pos_iff.mpr hp
      split at hcount
      · next hl => exact ⟨hl, hcount.symm⟩
      · omega
    have hnodup : (fields.filter (fun p => passed p.1)).Nodup := by
      rw [List.nodup_iff_count_le_one]
      intro p
      by_cases hp : p ∈ fields.filter (fun p => passed p.1)
      · obtain ⟨hmem, hpass⟩ := List.mem_filter.mp hp
        rw [hfilter p (of_decide_eq_true hpass), (hlast p hmem (of_decide_eq_true hpass)).2]
      · rw [List.count_eq_zero_of_not_mem hp]
        exact Nat.zero_le 1
    apply hnodup.map_on
    intro p hp q hq heq
    obtain ⟨hp, hpass⟩ := List.mem_filter.mp hp
    obtain ⟨hq, hqass⟩ := List.mem_filter.mp hq
    have hvalue : some p.2 = some q.2 := by
      rw [← (hlast p hp (of_decide_eq_true hpass)).1, heq, (hlast q hq (of_decide_eq_true hqass)).1]
    exact Prod.ext heq (Option.some.inj hvalue)
  · intro hnodup p hp hpass
    have hmem : p ∈ fields.filter (fun p => passed p.1) := List.mem_filter.mpr ⟨hp, decide_eq_true hpass⟩
    obtain ⟨v, hv⟩ := lastOf_isSome (k := p.1) (v := p.2) hp
    have hq : (p.1, v) ∈ fields.filter (fun p => passed p.1) :=
      List.mem_filter.mpr ⟨mem_of_lastOf hv, decide_eq_true hpass⟩
    have heq : (p.1, v) = p := List.inj_on_of_nodup_map hnodup hq hmem rfl
    have hsnd : v = p.2 := congrArg Prod.snd heq
    have hcount := List.count_eq_one_of_mem hnodup.of_map hmem
    rw [hfilter p hpass] at hcount
    rw [hcount, hv, hsnd, if_pos rfl]

section
omit [DecidableEq ν] [BEq κ] [LawfulBEq κ] [BEq ν] [LawfulBEq ν]
variable {cmp : κ → κ → Ordering} [Std.TransCmp cmp] [Std.LawfulEqCmp cmp]

/-- Stores one field after the other. -/
def storeAll (fields : List (κ × ν)) (m : Std.ExtTreeMap κ ν cmp) : Std.ExtTreeMap κ ν cmp :=
  fields.foldl (fun m p => m.insert p.1 p.2) m

theorem getElem?_storeAll (fields : List (κ × ν)) (m : Std.ExtTreeMap κ ν cmp) (k : κ) :
    (storeAll fields m)[k]? = (lastOf k fields).or m[k]? := by
  induction fields using List.reverseRecOn with
  | nil => simp [storeAll, lastOf]
  | append_singleton fields p ih =>
    have hstore : storeAll (fields ++ [p]) m = (storeAll fields m).insert p.1 p.2 := by simp [storeAll]
    rw [hstore, Std.ExtTreeMap.getElem?_insert, ih, lastOf_concat]
    by_cases hk : p.1 = k
    · simp [hk]
    · have hne : cmp p.1 k ≠ .eq := fun he => hk (Std.LawfulEqCmp.eq_of_compare he)
      simp [hk, hne]

omit [DecidableEq κ] in
/-- A map lists each of its fields once. -/
theorem count_toList [DecidableEq ν] [BEq κ] [LawfulBEq κ] [BEq ν] [LawfulBEq ν] (m : Std.ExtTreeMap κ ν cmp) (p : κ × ν) :
    m.toList.count p = if m[p.1]? = some p.2 then 1 else 0 := by
  have hmem : p ∈ m.toList ↔ m[p.1]? = some p.2 :=
    Std.ExtTreeMap.mem_toList_iff_getElem?_eq_some (k := p.1) (v := p.2)
  have hnodup : m.toList.Nodup := by
    refine (Std.ExtTreeMap.distinct_keys_toList (t := m)).imp ?_
    rintro a b hne rfl
    exact hne Std.ReflCmp.compare_self
  by_cases hp : p ∈ m.toList
  · rw [if_pos (hmem.mp hp), List.count_eq_one_of_mem hnodup hp]
  · rw [if_neg (fun h => hp (hmem.mpr h)), List.count_eq_zero_of_not_mem hp]

end

end WebServ.FieldMap
