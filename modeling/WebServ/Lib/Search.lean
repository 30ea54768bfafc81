import Mathlib

/-! # Searching and cutting finite sequences

The operations a string class offers on its contents: position of a pattern,
first and last position outside a set, and the cut of a buffer at its first
end-of-line mark. Every position is the one counted from the front of the list.
-/
namespace WebServ.Search
variable {α : Type*} [DecidableEq α]

/-- The first position at which the pattern occurs. -/
def find (pat : List α) : List α → Option ℕ
  | [] => if pat = [] then some 0 else none
  | a :: s => if pat <+: a :: s then some 0 else (find pat s).map (· + 1)

/-- The first occurrence at or after a position. -/
def findFrom (pat s : List α) (pos : ℕ) : Option ℕ := (find pat (s.drop pos)).map (· + pos)

def contains (pat s : List α) : Bool := (find pat s).isSome

def findFirstNotOf (set s : List α) : Option ℕ := s.findIdx? (fun a => a ∉ set)

def findLastNotOf (set s : List α) : Option ℕ :=
  (findFirstNotOf set s.reverse).map (fun i => s.length - 1 - i)

/-- The text between the first and the last symbol outside the set. -/
def trim (set s : List α) : Option (List α) :=
  match findFirstNotOf set s, findLastNotOf set s with
  | some first, some last => some ((s.drop first).take (last - first + 1))
  | _, _ => none

/-- The text before the first occurrence, or all of it when there is none. -/
def before (pat s : List α) : List α :=
  match find pat s with
  | some pos => s.take pos
  | none => s

/-- Splits off the first line: the text before the mark and the text after it. -/
def cutLine (eol s : List α) : Option (List α × List α) :=
  (find eol s).map (fun pos => (s.take pos, s.drop (pos + eol.length)))

theorem prefix_of_find {pat s : List α} {i : ℕ} (h : find pat s = some i) : pat <+: s.drop i := by
  induction s generalizing i with
  | nil =>
    simp only [find] at h
    split at h <;> simp_all
  | cons a s ih =>
    simp only [find] at h
    split at h
    · next hp => cases h; simpa using hp
    · obtain ⟨j, hj, rfl⟩ := Option.map_eq_some_iff.mp h
      simpa using ih hj

theorem not_prefix_of_lt_find {pat s : List α} {i j : ℕ} (h : find pat s = some i) (hj : j < i) :
    ¬ pat <+: s.drop j := by
  induction s generalizing i j with
  | nil =>
    simp only [find] at h
    split at h
    · cases h; omega
    · cases h
  | cons a s ih =>
    simp only [find] at h
    split at h
    · cases h; omega
    · next hp =>
      obtain ⟨k, hk, rfl⟩ := Option.map_eq_some_iff.mp h
      cases j with
      | zero => simpa using hp
      | succ j => simpa using ih hk (by omega)

/-- A position where the pattern starts, with none before it, is the one found. -/
theorem find_eq_of_prefix {pat s : List α} {i : ℕ} (hi : pat <+: s.drop i) (hlen : i ≤ s.length)
    (hlt : ∀ j < i, ¬ pat <+: s.drop j) : find pat s = some i := by
  induction s generalizing i with
  | nil =>
    have hi0 : i = 0 := by simpa using hlen
    subst hi0
    simpa [find] using hi
  | cons a s ih =>
    cases i with
    | zero => simpa [find] using hi
    | succ i =>
      have h0 : ¬ pat <+: a :: s := by simpa using hlt 0 (by omega)
      have hrec : find pat s = some i := by
        refine ih (by simpa using hi) (by simpa using hlen) ?_
        intro j hj
        simpa using hlt (j + 1) (by omega)
      simp [find, h0, hrec]

/-- Positions where the pattern does not start are passed over. -/
theorem find_skip {pat s : List α} {n : ℕ} (hn : n ≤ s.length) (h : ∀ j < n, ¬ pat <+: s.drop j) :
    find pat s = (find pat (s.drop n)).map (· + n) := by
  induction n generalizing s with
  | zero => simp
  | succ n ih =>
    cases s with
    | nil => simp at hn
    | cons a s =>
      have hfirst : ¬ pat <+: a :: s := h 0 (Nat.succ_pos n)
      have hrest := ih (s := s) (by simpa using hn) (fun j hj => h (j + 1) (by omega))
      rw [find, if_neg hfirst, hrest, List.drop_succ_cons, Option.map_map]
      congr 1

theorem find_le_length {pat s : List α} {i : ℕ} (h : find pat s = some i) : i ≤ s.length := by
  induction s generalizing i with
  | nil =>
    simp only [find] at h
    split at h <;> simp_all
  | cons a s ih =>
    simp only [find] at h
    split at h
    · cases h; simp
    · obtain ⟨j, hj, rfl⟩ := Option.map_eq_some_iff.mp h
      simpa using ih hj

theorem find_add_length_le {pat s : List α} {i : ℕ} (h : find pat s = some i) :
    i + pat.length ≤ s.length := by
  have hp := (prefix_of_find h).length_le
  have hi := find_le_length h
  rw [List.length_drop] at hp
  omega

theorem find_isSome_of_prefix {pat s : List α} {i : ℕ} (hi : pat <+: s.drop i)
    (hlen : i ≤ s.length) : ∃ j ≤ i, find pat s = some j := by
  induction s generalizing i with
  | nil =>
    have hi0 : i = 0 := by simpa using hlen
    subst hi0
    exact ⟨0, le_rfl, by simpa [find] using hi⟩
  | cons a s ih =>
    by_cases h0 : pat <+: a :: s
    · exact ⟨0, by omega, by simp [find, h0]⟩
    · cases i with
      | zero => exact absurd (by simpa using hi) h0
      | succ i =>
        obtain ⟨j, hj, he⟩ := ih (by simpa using hi) (by simpa using hlen)
        exact ⟨j + 1, by omega, by simp [find, h0, he]⟩

theorem find_eq_none_iff {pat s : List α} : find pat s = none ↔ ¬ pat <:+: s := by
  constructor
  · rintro h ⟨l, r, rfl⟩
    have hp : pat <+: (l ++ pat ++ r).drop l.length := by simp [List.append_assoc]
    obtain ⟨j, -, he⟩ := find_isSome_of_prefix hp (by simp)
    rw [h] at he
    cases he
  · intro h
    cases he : find pat s with
    | none => rfl
    | some i =>
      refine absurd ?_ h
      exact (prefix_of_find he).isInfix.trans (List.drop_suffix i s).isInfix

/-- More text behind a found occurrence does not move it. -/
theorem find_append_of_some {pat s : List α} {i : ℕ} (t : List α) (h : find pat s = some i) :
    find pat (s ++ t) = some i := by
  have hlen := find_add_length_le h
  have hp := prefix_of_find h
  apply find_eq_of_prefix
  · rw [List.drop_append_of_le_length (by omega)]
    exact hp.trans (List.prefix_append _ _)
  · simp; omega
  · intro j hj hpre
    rw [List.drop_append_of_le_length (by omega)] at hpre
    refine not_prefix_of_lt_find h hj ?_
    refine List.prefix_of_prefix_length_le hpre (List.prefix_append _ _) ?_
    rw [List.length_drop]
    omega

theorem cutLine_eq_some {eol s l r : List α} (h : cutLine eol s = some (l, r)) :
    s = l ++ eol ++ r := by
  obtain ⟨i, hi, he⟩ := Option.map_eq_some_iff.mp h
  obtain ⟨t, ht⟩ := prefix_of_find hi
  simp only [Prod.mk.injEq] at he
  obtain ⟨rfl, rfl⟩ := he
  have hd : s.drop (i + eol.length) = t := by
    rw [← List.drop_drop, ← ht, List.drop_left]
  rw [hd, List.append_assoc, ht, List.take_append_drop]

theorem cutLine_append {eol s l r : List α} (t : List α) (h : cutLine eol s = some (l, r)) :
    cutLine eol (s ++ t) = some (l, r ++ t) := by
  obtain ⟨i, hi, he⟩ := Option.map_eq_some_iff.mp h
  have hlen := find_add_length_le hi
  simp only [Prod.mk.injEq] at he
  obtain ⟨rfl, rfl⟩ := he
  simp only [cutLine, find_append_of_some t hi, Option.map_some]
  rw [List.take_append_of_le_length (by omega), List.drop_append_of_le_length (by omega)]

theorem cutLine_length {eol s l r : List α} (h : cutLine eol s = some (l, r)) :
    l.length + eol.length + r.length = s.length := by
  rw [cutLine_eq_some h]
  simp [Nat.add_assoc]

omit [DecidableEq α] in
/-- Where a pattern starts that has its head only once, it does not overlap with itself. -/
theorem prefix_apart {a : α} {p s : List α} {i j : ℕ} (ha : a ∉ p) (hi : a :: p <+: s.drop i)
    (hj : a :: p <+: s.drop j) (hij : i < j) : i + (p.length + 1) ≤ j := by
  by_contra hlt
  obtain ⟨t, ht⟩ := hi
  obtain ⟨u, hu⟩ := hj
  have hhead : s[j]? = some a := by
    rw [← List.head?_drop, ← hu]
    rfl
  have hinside : s[j]? = p[j - i - 1]? := by
    have hdrop : (s.drop i)[j - i]? = s[j]? := by
      rw [List.getElem?_drop]
      congr 1
      omega
    rw [← hdrop, ← ht, List.getElem?_append_left (by simp only [List.length_cons]; omega),
      List.getElem?_cons, if_neg (by omega)]
  rw [hinside] at hhead
  exact ha (List.mem_of_getElem? hhead)

/-- Such a pattern is found where it was written, when it is not in front. -/
theorem find_append_of_head {a : α} {p l : List α} (r : List α) (ha : a ∉ p) (hl : ¬ a :: p <:+: l) :
    find (a :: p) (l ++ (a :: p ++ r)) = some l.length := by
  have hhere : a :: p <+: (l ++ (a :: p ++ r)).drop l.length := by
    rw [List.drop_left]
    exact List.prefix_append _ _
  apply find_eq_of_prefix hhere
  · simp
  · intro j hj hp
    have hapart := prefix_apart ha hp hhere hj
    rw [List.drop_append_of_le_length (by omega)] at hp
    have hfront : a :: p <+: l.drop j :=
      List.prefix_of_prefix_length_le hp (List.prefix_append _ _) (by simp only [List.length_cons, List.length_drop]; omega)
    exact hl (hfront.isInfix.trans (List.drop_suffix j l).isInfix)

theorem before_append_of_head {a : α} {p l : List α} (r : List α) (ha : a ∉ p) (hl : ¬ a :: p <:+: l) :
    before (a :: p) (l ++ (a :: p ++ r)) = l := by
  rw [before, find_append_of_head r ha hl]
  exact List.take_left

/-- A two-symbol mark with different symbols never overlaps the text before it. -/
theorem find_pair_append {a b : α} (hab : a ≠ b) {l : List α} (r : List α) (hl : ¬ [a, b] <:+: l) :
    find [a, b] (l ++ [a, b] ++ r) = some l.length := by
  rw [List.append_assoc]
  exact find_append_of_head r (by simpa using hab) hl

theorem cutLine_pair_append {a b : α} (hab : a ≠ b) {l : List α} (r : List α)
    (hl : ¬ [a, b] <:+: l) : cutLine [a, b] (l ++ [a, b] ++ r) = some (l, r) := by
  rw [cutLine, find_pair_append hab r hl, Option.map_some, List.append_assoc]
  simp

/-- The text before the mark contains no mark. -/
theorem cutLine_no_eol {eol s l r : List α} (h : cutLine eol s = some (l, r)) (he : eol ≠ []) :
    ¬ eol <:+: l := by
  obtain ⟨i, hi, heq⟩ := Option.map_eq_some_iff.mp h
  simp only [Prod.mk.injEq] at heq
  obtain ⟨rfl, rfl⟩ := heq
  rintro ⟨u, v, huv⟩
  have hlen := congrArg List.length huv
  have hpos : 0 < eol.length := List.length_pos_of_ne_nil he
  have hle := find_le_length hi
  simp only [List.length_append, List.length_take] at hlen
  refine not_prefix_of_lt_find hi (j := u.length) (by omega) ?_
  have hs : s = u ++ (eol ++ (v ++ s.drop i)) := by
    rw [← List.append_assoc, ← List.append_assoc, huv, List.take_append_drop]
  rw [hs, List.drop_left]
  exact List.prefix_append _ _

theorem cutLine_eq_none_iff {eol s : List α} : cutLine eol s = none ↔ ¬ eol <:+: s := by
  rw [cutLine, Option.map_eq_none_iff, find_eq_none_iff]

theorem find_singleton_append {a : α} {l : List α} (r : List α) (hl : a ∉ l) :
    find [a] (l ++ a :: r) = some l.length := by
  refine find_append_of_head r List.not_mem_nil ?_
  intro hi
  exact hl (hi.subset (by simp))

theorem find_singleton_eq_none {a : α} {s : List α} (h : a ∉ s) : find [a] s = none := by
  rw [find_eq_none_iff]
  intro hi
  exact h (hi.subset (by simp))

theorem before_append {a : α} {l : List α} (r : List α) (hl : a ∉ l) : before [a] (l ++ a :: r) = l := by
  simp [before, find_singleton_append r hl]

theorem before_eq_self {a : α} {s : List α} (h : a ∉ s) : before [a] s = s := by
  simp [before, find_singleton_eq_none h]

theorem findFirstNotOf_append {set l : List α} {a : α} (r : List α) (hl : ∀ b ∈ l, b ∈ set)
    (ha : a ∉ set) : findFirstNotOf set (l ++ a :: r) = some l.length := by
  induction l with
  | nil => simp [findFirstNotOf, List.findIdx?_cons, ha]
  | cons b l ih =>
    have hb : b ∈ set := hl b (by simp)
    have hrec := ih (fun c hc => hl c (by simp [hc]))
    rw [findFirstNotOf] at hrec ⊢
    rw [List.cons_append, List.findIdx?_cons, hrec]
    simp [hb]

theorem trim_eq_none {set s : List α} (h : ∀ a ∈ s, a ∈ set) : trim set s = none := by
  have hf : findFirstNotOf set s = none := by
    rw [findFirstNotOf, List.findIdx?_eq_none_iff]
    simpa using h
  simp [trim, hf]

/-- Trimming removes exactly the padding around a text with clean ends. -/
theorem trim_pad {set l r m : List α} {a b : α} (hl : ∀ c ∈ l, c ∈ set) (hr : ∀ c ∈ r, c ∈ set)
    (ha : a ∉ set) (hb : b ∉ set) (hhead : m.head? = some a) (hlast : m.getLast? = some b) :
    trim set (l ++ m ++ r) = some m := by
  obtain ⟨t, rfl⟩ : ∃ t, m = a :: t := by
    cases m with
    | nil => simp at hhead
    | cons c t => exact ⟨t, by simpa using hhead⟩
  obtain ⟨u, hu⟩ : ∃ u, a :: t = u ++ [b] := by
    refine ⟨(a :: t).dropLast, ?_⟩
    rw [List.getLast?_eq_some_getLast (by simp)] at hlast
    rw [← Option.some.inj hlast, List.dropLast_append_getLast]
  have hfirst : findFirstNotOf set (l ++ a :: t ++ r) = some l.length := by
    rw [List.append_assoc, List.cons_append]
    exact findFirstNotOf_append _ hl ha
  have hrev : findFirstNotOf set (l ++ a :: t ++ r).reverse = some r.length := by
    have h := findFirstNotOf_append (u.reverse ++ l.reverse) (l := r.reverse) (by simpa using hr) hb
    rw [hu]
    simpa [List.append_assoc] using h
  have hend : findLastNotOf set (l ++ a :: t ++ r) = some (l.length + t.length) := by
    rw [findLastNotOf, hrev, Option.map_some]
    congr 1
    simp only [List.length_append, List.length_cons]
    omega
  simp only [trim, hfirst, hend]
  rw [List.append_assoc, List.drop_left,
    show l.length + t.length - l.length + 1 = (a :: t).length by simp, List.take_left]

theorem trim_eq_self {set s : List α} (hne : s ≠ []) (h : ∀ a ∈ s, a ∉ set) : trim set s = some s := by
  have hpad := trim_pad (l := []) (r := []) (m := s) (by simp) (by simp)
    (h _ (List.head_mem hne)) (h _ (List.getLast_mem hne)) (List.head?_eq_some_head hne)
    (List.getLast?_eq_some_getLast hne)
  simpa using hpad

theorem takeWhile_ne_append {a : α} {l : List α} (r : List α) (hl : a ∉ l) :
    (l ++ a :: r).takeWhile (· ≠ a) = l := by
  have hall : ∀ b ∈ l, decide (b ≠ a) = true := by
    intro b hb
    simpa using ne_of_mem_of_not_mem hb hl
  rw [List.takeWhile_append_of_pos hall]
  simp

theorem dropWhile_ne_append {a : α} {l : List α} (r : List α) (hl : a ∉ l) :
    (l ++ a :: r).dropWhile (· ≠ a) = a :: r := by
  have hall : ∀ b ∈ l, decide (b ≠ a) = true := by
    intro b hb
    simpa using ne_of_mem_of_not_mem hb hl
  rw [List.dropWhile_append_of_pos hall]
  simp

/-- A symbol that is found splits the text at its first occurrence. -/
theorem find_singleton_eq_some {a : α} {s : List α} {i : ℕ} (h : find [a] s = some i) :
    ∃ l r, s = l ++ a :: r ∧ a ∉ l ∧ i = l.length := by
  have hmem : a ∈ s := by
    by_contra hne
    rw [find_singleton_eq_none hne] at h
    cases h
  obtain ⟨l, r, rfl, hl⟩ := List.eq_append_cons_of_mem hmem
  rw [find_singleton_append r hl] at h
  cases h
  exact ⟨l, r, rfl, hl, rfl⟩

/-- A symbol is found behind the longest text without it. -/
theorem find_singleton_of_mem {a : α} {s : List α} (h : a ∈ s) :
    find [a] s = some (s.takeWhile (· ≠ a)).length ∧
      s.take (s.takeWhile (· ≠ a)).length = s.takeWhile (· ≠ a) ∧
      s.drop ((s.takeWhile (· ≠ a)).length + 1) = (s.dropWhile (· ≠ a)).tail := by
  obtain ⟨l, r, rfl, hl⟩ := List.eq_append_cons_of_mem h
  rw [takeWhile_ne_append r hl, dropWhile_ne_append r hl]
  refine ⟨find_singleton_append r hl, by simp, ?_⟩
  rw [List.drop_append]
  simp

/-- Trimming drops the padding in front and then the padding behind. -/
theorem trim_getD (set s : List α) :
    (trim set s).getD [] = (s.dropWhile (· ∈ set)).rdropWhile (· ∈ set) := by
  have hsplit : s.takeWhile (· ∈ set) ++ (s.dropWhile (· ∈ set)).rdropWhile (· ∈ set) ++
      (s.dropWhile (· ∈ set)).rtakeWhile (· ∈ set) = s := by
    rw [List.append_assoc, List.rdropWhile_append_rtakeWhile, List.takeWhile_append_dropWhile]
  by_cases hm : (s.dropWhile (· ∈ set)).rdropWhile (· ∈ set) = []
  · rw [hm]
    rw [List.rdropWhile_eq_nil_iff] at hm
    have hall : ∀ a ∈ s, a ∈ set := by
      intro a ha
      rw [← List.takeWhile_append_dropWhile (p := (· ∈ set)) (l := s), List.mem_append] at ha
      rcases ha with ha | ha
      · simpa using List.mem_takeWhile_imp ha
      · simpa using hm a ha
    rw [trim_eq_none hall]
    rfl
  · -- the ends of what is left are not in the set
    obtain ⟨a, m, he⟩ := List.exists_cons_of_ne_nil hm
    obtain ⟨t, ht⟩ := List.rdropWhile_prefix (· ∈ set) (s.dropWhile (· ∈ set))
    rw [he, List.cons_append] at ht
    have hhead : ∀ h, ¬ decide ((s.dropWhile (· ∈ set)).head h ∈ set) = true := by
      intro h
      simpa using List.head_dropWhile_not (· ∈ set) h
    have hlast := List.rdropWhile_last_not (· ∈ set) (s.dropWhile (· ∈ set)) hm
    have ha : a ∉ set := by
      have hd := hhead (by rw [← ht]; simp)
      simpa [← ht] using hd
    have hpad := trim_pad (l := s.takeWhile (· ∈ set)) (r := (s.dropWhile (· ∈ set)).rtakeWhile (· ∈ set))
      (m := (s.dropWhile (· ∈ set)).rdropWhile (· ∈ set)) (a := a)
      (by intro c hc; simpa using List.mem_takeWhile_imp hc)
      (by intro c hc; simpa using List.mem_rtakeWhile_imp hc) ha (by simpa using hlast)
      (by rw [he]; rfl) (List.getLast?_eq_some_getLast hm)
    rw [hsplit] at hpad
    rw [hpad]
    rfl

end WebServ.Search
