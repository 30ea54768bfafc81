import WebServ.Lib.Search

/-! # Byte strings and their ASCII readings

Strings are lists of bytes. Letter case, blanks and hexadecimal digits are those
of ASCII; a byte above 127 is none of them.
-/
namespace WebServ

abbrev Bytes := List UInt8

/-- The bytes of a literal. -/
def ascii (s : String) : Bytes := s.toUTF8.data.toList

def crlf : Bytes := [13, 10]
def blanks : Bytes := [32, 9]

def toLower (b : UInt8) : UInt8 := if 65 ≤ b ∧ b ≤ 90 then b + 32 else b

def hexDigit (b : UInt8) : Option ℕ :=
  if 48 ≤ b ∧ b ≤ 57 then some (b.toNat - 48)
  else if 97 ≤ b ∧ b ≤ 102 then some (10 + (b.toNat - 97))
  else if 65 ≤ b ∧ b ≤ 70 then some (10 + (b.toNat - 65))
  else none

def decDigit (b : UInt8) : Option ℕ := if 48 ≤ b ∧ b ≤ 57 then some (b.toNat - 48) else none

/-- The number a string of digits denotes, continuing from a value already read. -/
def readDigits (base : ℕ) (digit : UInt8 → Option ℕ) (value : ℕ) (s : Bytes) : ℕ :=
  s.foldl (fun v b => v * base + (digit b).getD 0) value

abbrev hexValue (s : Bytes) : ℕ := readDigits 16 hexDigit 0 s
abbrev decValue (s : Bytes) : ℕ := readDigits 10 decDigit 0 s

def IsHex (s : Bytes) : Prop := ∀ b ∈ s, (hexDigit b).isSome

instance (s : Bytes) : Decidable (IsHex s) := inferInstanceAs (Decidable (∀ b ∈ s, _))

def isSpace (b : UInt8) : Bool := b = 32 ∨ (9 ≤ b ∧ b ≤ 13)

/-- The C conversion to `long`: blanks, a sign, digits, and saturation. -/
def atol (s : Bytes) : ℤ :=
  let s := s.dropWhile isSpace
  let digits (t : Bytes) : ℤ := decValue (t.takeWhile (fun b => (decDigit b).isSome))
  match s with
  | 45 :: t => max (-digits t) (-2 ^ 63)
  | 43 :: t => min (digits t) (2 ^ 63 - 1)
  | t => min (digits t) (2 ^ 63 - 1)

/-- The C conversion to `int`: the long value, cut to 32 bits. -/
def atoi (s : Bytes) : ℤ := (atol s + 2 ^ 31) % 2 ^ 32 - 2 ^ 31

/-- A number written in decimal digits. -/
def decimal (n : ℕ) : Bytes := (Nat.toDigits 10 n).map (fun c => UInt8.ofNat c.toNat)

def decimalInt (z : ℤ) : Bytes :=
  match z with
  | .ofNat n => decimal n
  | .negSucc n => ascii "-" ++ decimal (n + 1)

/-- A C conversion to `size_t`. -/
def toSizeT (z : ℤ) : ℕ := (z % 2 ^ 64).toNat

theorem crlf_ne_nil : crlf ≠ [] := by decide

theorem hexDigit_lt {b : UInt8} {d : ℕ} (h : hexDigit b = some d) : d < 16 := by
  simp only [hexDigit] at h
  split_ifs at h with h1 h2 h3
  · cases h
    have := h1.2
    rw [UInt8.le_iff_toNat_le] at this
    simp at this
    omega
  · cases h
    have := h2.2
    rw [UInt8.le_iff_toNat_le] at this
    simp at this
    omega
  · cases h
    have := h3.2
    rw [UInt8.le_iff_toNat_le] at this
    simp at this
    omega

theorem hexDigit_not_blank {b : UInt8} (h : (hexDigit b).isSome) : b ∉ blanks := by
  intro hb
  simp only [blanks, List.mem_cons, List.not_mem_nil, or_false] at hb
  rcases hb with rfl | rfl <;> revert h <;> decide

theorem IsHex.not_blank {t : Bytes} (h : IsHex t) : ∀ b ∈ t, b ∉ blanks :=
  fun b hb => hexDigit_not_blank (h b hb)

/-- A value below `base ^ k` stays below the next powers as digits are appended. -/
theorem readDigits_lt {base : ℕ} {digit : UInt8 → Option ℕ}
    (hd : ∀ b d, digit b = some d → d < base) (hb : 0 < base) {v k : ℕ} (hv : v < base ^ k)
    (s : Bytes) : readDigits base digit v s < base ^ (k + s.length) := by
  induction s generalizing v k with
  | nil => simpa [readDigits] using hv
  | cons b s ih =>
    have hdig : (digit b).getD 0 < base := by
      cases h : digit b with
      | none => simpa using hb
      | some d => simpa using hd b d h
    have hstep : v * base + (digit b).getD 0 < base ^ (k + 1) := by
      have hmul : (v + 1) * base ≤ base ^ k * base := Nat.mul_le_mul_right base hv
      rw [Nat.pow_succ]
      rw [Nat.add_mul, Nat.one_mul] at hmul
      omega
    have hrec := ih hstep
    simp only [readDigits, List.foldl_cons, List.length_cons] at hrec ⊢
    rwa [show k + (s.length + 1) = k + 1 + s.length by omega]

theorem hexValue_lt {t : Bytes} {k : ℕ} (hk : t.length ≤ k) : hexValue t < 16 ^ k := by
  have h : readDigits 16 hexDigit 0 t < 16 ^ (0 + t.length) :=
    readDigits_lt (fun _ _ hd => hexDigit_lt hd) (by decide) (by decide) t
  exact lt_of_lt_of_le h (Nat.pow_le_pow_right (by decide) (by omega))

/-- Reading with a reduction after every digit is reading and reducing once. -/
theorem foldl_mod_eq (base m : ℕ) (digit : UInt8 → Option ℕ) (v : ℕ) (s : Bytes) :
    s.foldl (fun w b => (w * base + (digit b).getD 0) % m) (v % m) = readDigits base digit v s % m := by
  induction s generalizing v with
  | nil => rfl
  | cons b s ih =>
    have hstep : (v % m * base + (digit b).getD 0) % m = (v * base + (digit b).getD 0) % m := by
      simp [Nat.add_mod, Nat.mul_mod]
    simp only [List.foldl_cons, hstep]
    exact ih _

theorem decDigit_not_sign {b : UInt8} (h : (decDigit b).isSome) : isSpace b = false ∧ b ≠ 45 ∧ b ≠ 43 := by
  have hb : 48 ≤ b.toNat ∧ b.toNat ≤ 57 := by
    simp only [decDigit] at h
    split at h
    · next hd => simpa [UInt8.le_iff_toNat_le] using hd
    · cases h
  refine ⟨?_, ?_, ?_⟩
  · simp only [isSpace, decide_eq_false_iff_not, UInt8.le_iff_toNat_le, ← UInt8.toNat_inj]
    simp
    omega
  · rintro rfl
    simp at hb
  · rintro rfl
    simp at hb

/-- A string of decimal digits converts to the number it denotes. -/
theorem atol_digits {s : Bytes} (hne : s ≠ []) (h : ∀ b ∈ s, (decDigit b).isSome)
    (hlt : decValue s < 2 ^ 63) : atol s = decValue s := by
  obtain ⟨b, t, rfl⟩ := List.exists_cons_of_ne_nil hne
  obtain ⟨hspace, hminus, hplus⟩ := decDigit_not_sign (h b (by simp))
  have hdrop : (b :: t).dropWhile isSpace = b :: t := by simp [hspace]
  have htake : (b :: t).takeWhile (fun b => (decDigit b).isSome) = b :: t :=
    List.takeWhile_eq_self_iff.mpr h
  simp only [atol, hdrop]
  split
  · next he => exact absurd (List.cons.inj he).1 hminus
  · next he => exact absurd (List.cons.inj he).1 hplus
  · rw [htake]
    omega

theorem toSizeT_natCast {n : ℕ} (h : n < 2 ^ 64) : toSizeT n = n := by
  simp only [toSizeT]
  omega
end WebServ
