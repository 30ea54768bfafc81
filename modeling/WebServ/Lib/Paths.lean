import Mathlib

/-! # Paths

Texts that are cut into components at a separator. A path lies below a root when
it goes on with components that do not lead back up.
-/
namespace WebServ.Paths

variable {α : Type*} (sep : α)

/-- The components, each behind a separator. -/
def joined (components : List (List α)) : List α := components.flatMap (sep :: ·)

theorem joined_eq_intercalate {components : List (List α)} (h : components ≠ []) :
    joined sep components = sep :: [sep].intercalate components := by
  induction components with
  | nil => exact absurd rfl h
  | cons c cs ih =>
    cases cs with
    | nil => simp [joined]
    | cons d ds =>
      have htail := ih (List.cons_ne_nil d ds)
      rw [joined] at htail
      rw [joined, List.flatMap_cons, htail]
      simp [List.intercalate_cons_cons]

/-- The path is the root with components behind it, none of which is the name of the parent. -/
def Below (parent root path : List α) : Prop :=
  ∃ components, path = root ++ joined sep components ∧ ∀ c ∈ components, sep ∉ c ∧ c ≠ parent

variable [DecidableEq α]

theorem joined_splitOn (l : List α) : joined sep (l.splitOn sep) = sep :: l := by
  rw [joined_eq_intercalate sep (List.splitOn_ne_nil sep l), List.intercalate_splitOn]

/-- A component has no separator inside. -/
theorem not_mem_of_mem_splitOn {sep : α} {l c : List α} (h : c ∈ l.splitOn sep) : sep ∉ c := by
  induction l generalizing c with
  | nil =>
    obtain rfl : c = [] := by simpa using h
    exact List.not_mem_nil
  | cons x xs ih =>
    rw [List.splitOn_cons_eq_if_modifyHead] at h
    by_cases hx : x = sep
    · simp only [hx, beq_self_eq_true, if_true] at h
      rcases List.mem_cons.mp h with rfl | h
      · exact List.not_mem_nil
      · exact ih h
    · obtain ⟨d, ds, hd⟩ := List.exists_cons_of_ne_nil (List.splitOn_ne_nil sep xs)
      simp only [beq_iff_eq, hx, if_false, hd, List.modifyHead_cons] at h
      rcases List.mem_cons.mp h with rfl | h
      · intro hmem
        rcases List.mem_cons.mp hmem with heq | hmem
        · exact hx heq.symm
        · exact ih (hd ▸ List.mem_cons_self) hmem
      · exact ih (hd ▸ List.mem_cons_of_mem d h)

theorem below_append_iff (parent root : List α) (t : List α) :
    Below sep parent root (root ++ sep :: t) ↔ parent ∉ t.splitOn sep := by
  constructor
  · rintro ⟨components, hpath, hclean⟩ hmem
    have htail := List.append_cancel_left hpath
    have hne : components ≠ [] := by
      rintro rfl
      simp [joined] at htail
    rw [joined_eq_intercalate sep hne, List.cons.injEq] at htail
    rw [htail.2, List.splitOn_intercalate sep (fun c hc => (hclean c hc).1) hne] at hmem
    exact (hclean parent hmem).2 rfl
  · intro h
    refine ⟨t.splitOn sep, by rw [joined_splitOn], ?_⟩
    intro c hc
    constructor
    · exact not_mem_of_mem_splitOn hc
    · rintro rfl
      exact h hc

/-- A separator in front adds an empty component. -/
theorem mem_splitOn_cons_self {parent : List α} (h : parent ≠ []) (t : List α) :
    parent ∈ (sep :: t).splitOn sep ↔ parent ∈ t.splitOn sep := by
  rw [List.splitOn_cons_eq_if_modifyHead, if_pos (beq_self_eq_true sep), List.mem_cons]
  exact ⟨fun hor => hor.resolve_left h, Or.inr⟩

/-! ## Reading components from the left -/

section
variable (parent self : List α)

/-- A component that names something below. -/
def Proper (c : List α) : Prop := c ≠ [] ∧ c ≠ parent ∧ c ≠ self

/-- The parent takes the last component back; an empty one and the place itself add nothing. -/
def follow (kept : List (List α)) (c : List α) : List (List α) :=
  if c = parent then kept.dropLast else if c = self ∨ c = [] then kept else kept ++ [c]

/-- The components that are left when all are read. -/
def resolve (components : List (List α)) : List (List α) := components.foldl (follow parent self) []

theorem resolve_concat (cs : List (List α)) (c : List α) :
    resolve parent self (cs ++ [c]) = follow parent self (resolve parent self cs) c := by
  simp [resolve]

variable {parent self}

theorem mem_follow {kept : List (List α)} {c d : List α} (h : d ∈ follow parent self kept c) :
    d ∈ kept ∨ d = c ∧ Proper parent self c := by
  unfold follow at h
  split at h
  · exact Or.inl (List.dropLast_subset kept h)
  · next hparent =>
    split at h
    · exact Or.inl h
    · next hself =>
      rw [not_or] at hself
      rcases List.mem_append.mp h with h | h
      · exact Or.inl h
      · exact Or.inr ⟨List.mem_singleton.mp h, hself.2, hparent, hself.1⟩

/-- What is left was read, and names something. -/
theorem mem_resolve {cs : List (List α)} {d : List α} (h : d ∈ resolve parent self cs) :
    d ∈ cs ∧ Proper parent self d := by
  induction cs using List.reverseRecOn with
  | nil => cases h
  | append_singleton cs c ih =>
    rw [resolve_concat] at h
    rcases mem_follow h with h | ⟨rfl, hproper⟩
    · exact ⟨List.mem_append_left _ (ih h).1, (ih h).2⟩
    · exact ⟨by simp, hproper⟩

theorem follow_proper {kept : List (List α)} {c : List α} (h : Proper parent self c) :
    follow parent self kept c = kept ++ [c] := by
  obtain ⟨hne, hparent, hself⟩ := h
  rw [follow, if_neg hparent, if_neg]
  rintro (rfl | rfl)
  · exact hself rfl
  · exact hne rfl

theorem resolve_of_proper {cs : List (List α)} (h : ∀ c ∈ cs, Proper parent self c) :
    resolve parent self cs = cs := by
  induction cs using List.reverseRecOn with
  | nil => rfl
  | append_singleton cs c ih =>
    rw [resolve_concat, ih (fun d hd => h d (by simp [hd])), follow_proper (h c (by simp))]

theorem follow_nil (hparent : parent ≠ []) (kept : List (List α)) : follow parent self kept [] = kept := by
  rw [follow, if_neg hparent.symm, if_pos (Or.inr rfl)]

/-- Components that are left are read back from the path they make. -/
theorem resolve_splitOn_joined {sep : α} (hparent : parent ≠ []) {kept : List (List α)}
    (h : ∀ c ∈ kept, sep ∉ c ∧ Proper parent self c) :
    resolve parent self ((sep :: [sep].intercalate kept).splitOn sep) = kept := by
  have hcut (l : List α) : (sep :: l).splitOn sep = [] :: l.splitOn sep := by
    simpa using List.splitOn_append_cons_self (a := sep) [] l
  have hskip (cs : List (List α)) : resolve parent self ([] :: cs) = resolve parent self cs := by
    rw [resolve, List.foldl_cons, follow_nil hparent, resolve]
  rw [hcut, hskip]
  by_cases hne : kept = []
  · subst hne
    exact hskip []
  · rw [List.splitOn_intercalate sep (fun c hc => (h c hc).1) hne]
    exact resolve_of_proper (fun c hc => (h c hc).2)

end

end WebServ.Paths
