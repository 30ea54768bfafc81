import WebServ.Http.Handler

/-! # Form decoding

An escape is read by a stream: one digit is enough for it, and a blank or a sign may
stand in the place of the other. The result is the standard one on the texts that have
no such escape.
-/
namespace WebServ.HTTPHandler

/-- The standard reading of form data. -/
def formDecode (value : Bytes) : Bytes :=
  match value with
  | [] => []
  | 37 :: a :: b :: rest =>
    match hexDigit a, hexDigit b with
    | some high, some low => UInt8.ofNat (16 * high + low) :: formDecode rest
    | _, _ => 37 :: formDecode (a :: b :: rest)
  | 43 :: rest => 32 :: formDecode rest
  | c :: rest => c :: formDecode rest
termination_by value.length

theorem hexDigit_not_sign {b : UInt8} (h : (hexDigit b).isSome) : isSpace b = false ∧ b ≠ 45 ∧ b ≠ 43 := by
  have hall : ∀ b : UInt8, (hexDigit b).isSome → isSpace b = false ∧ b ≠ 45 ∧ b ≠ 43 := by
    decide +kernel
  exact hall b h

/-- The mark of the base in front of hexadecimal digits is skipped. -/
def skipBase (t : Bytes) : Bytes :=
  match t with
  | 48 :: x :: u => if x = 120 ∨ x = 88 then u else t
  | _ => t

/-- The digits a stream reads behind the sign. -/
def hexNumber (t : Bytes) : Option ℕ :=
  let digits := (skipBase t).takeWhile (fun b => (hexDigit b).isSome)
  if digits = [] then none else some (hexValue digits)

theorem skipBase_pair {a b : UInt8} (h : ¬ (a = 48 ∧ (b = 120 ∨ b = 88))) :
    skipBase [a, b] = [a, b] := by
  unfold skipBase
  split
  · next x u heq =>
    obtain ⟨rfl, rfl, -⟩ : a = 48 ∧ b = x ∧ [] = u := by simpa using heq
    exact if_neg (fun hx => h ⟨rfl, hx⟩)
  · rfl

theorem hexNumber_single (b : UInt8) : hexNumber [b] = hexDigit b := by
  have hskip : skipBase [b] = [b] := by
    unfold skipBase
    split
    · next heq => simp at heq
    · rfl
  cases hb : hexDigit b with
  | none => simp [hexNumber, hskip, hb]
  | some d => simp [hexNumber, hskip, hb, readDigits]

theorem hexNumber_pair {a b : UInt8} (h : ¬ (a = 48 ∧ (b = 120 ∨ b = 88))) :
    hexNumber [a, b] = (hexDigit a).map (fun high =>
      if (hexDigit b).isSome then 16 * high + (hexDigit b).getD 0 else high) := by
  unfold hexNumber
  rw [skipBase_pair h]
  cases ha : hexDigit a with
  | none => simp [ha]
  | some high =>
    cases hb : hexDigit b with
    | none => simp [ha, hb, readDigits]
    | some low => simp [ha, hb, readDigits, Nat.mul_comm]

theorem readHexInt_space {a : UInt8} (h : isSpace a = true) (t : Bytes) :
    readHexInt (a :: t) = readHexInt t := by
  unfold readHexInt
  rw [List.dropWhile_cons_of_pos h]

/-- Behind a sign, or without one, the stream reads such digits. -/
def signedHex (negative : Bool) (t : Bytes) : Option ℤ :=
  (hexNumber t).map (fun n : ℕ => if negative then -(n : ℤ) else n)

theorem signedHex_eq (negative : Bool) (t : Bytes) : signedHex negative t =
    let digits := (skipBase t).takeWhile (fun b => (hexDigit b).isSome)
    if digits = [] then none
    else some (if negative then -(hexValue digits : ℤ) else hexValue digits) := by
  unfold signedHex hexNumber
  dsimp only
  by_cases hnil : (skipBase t).takeWhile (fun b => (hexDigit b).isSome) = []
  · rw [if_pos hnil, if_pos hnil]
    rfl
  · rw [if_neg hnil, if_neg hnil]
    rfl

theorem readHexInt_minus (t : Bytes) : readHexInt (45 :: t) = signedHex true t := by
  rw [signedHex_eq]
  rfl

theorem readHexInt_plus (t : Bytes) : readHexInt (43 :: t) = signedHex false t := by
  rw [signedHex_eq]
  rfl

theorem readHexInt_unsigned {a : UInt8} (t : Bytes) (hs : isSpace a = false) (hm : a ≠ 45)
    (hp : a ≠ 43) : readHexInt (a :: t) = signedHex false (a :: t) := by
  have hdrop : (a :: t).dropWhile isSpace = a :: t := by
    rw [List.dropWhile_cons_of_neg (by simp [hs])]
  unfold readHexInt
  rw [hdrop, signedHex_eq]
  split
  · next heq => exact absurd (List.cons.inj heq).1 hm
  · next heq => exact absurd (List.cons.inj heq).1 hp
  · rfl

theorem readHexInt_single (b : UInt8) : readHexInt [b] = (hexDigit b).map (fun n : ℕ => (n : ℤ)) := by
  by_cases hs : isSpace b = true
  · have hnone : hexDigit b = none := by
      by_contra hb
      have hnot := (hexDigit_not_sign (Option.isSome_iff_ne_none.mpr hb)).1
      simp [hs] at hnot
    rw [readHexInt_space hs, hnone]
    rfl
  · by_cases hm : b = 45
    · subst hm
      rfl
    · by_cases hp : b = 43
      · subst hp
        rfl
      · rw [readHexInt_unsigned [] (Bool.eq_false_iff.mpr hs) hm hp, signedHex, hexNumber_single]
        rfl

/-- Two bytes that are no two digits, and still a number for a stream: a digit with
something else behind it, which does not make it the mark of a base, or a digit behind a
blank or a sign. -/
def SloppyPair (a b : UInt8) : Prop :=
  ((hexDigit a).isSome ∧ hexDigit b = none ∧ ¬ (a = 48 ∧ (b = 120 ∨ b = 88))) ∨
  ((isSpace a ∨ a = 45 ∨ a = 43) ∧ (hexDigit b).isSome)

instance (a b : UInt8) : Decidable (SloppyPair a b) := inferInstanceAs (Decidable (_ ∨ _))

theorem readHexInt_digits {a b : UInt8} {high low : ℕ} (ha : hexDigit a = some high)
    (hb : hexDigit b = some low) : readHexInt [a, b] = some ((16 * high + low : ℕ) : ℤ) := by
  obtain ⟨hs, hm, hp⟩ := hexDigit_not_sign (by rw [ha]; rfl)
  have hbase : ¬ (a = 48 ∧ (b = 120 ∨ b = 88)) := by
    rintro ⟨-, rfl | rfl⟩
    · cases hb
    · cases hb
  rw [readHexInt_unsigned [b] hs hm hp, signedHex, hexNumber_pair hbase, ha, hb]
  rfl

/-- A sloppy pair is read as its only digit, or as the negative of it. -/
theorem readHexInt_sloppy {a b : UInt8} (h : SloppyPair a b) :
    ∃ d : ℕ, d < 16 ∧ (readHexInt [a, b] = some (d : ℤ) ∨ readHexInt [a, b] = some (-(d : ℤ))) := by
  rcases h with ⟨ha, hb, hbase⟩ | ⟨ha, hb⟩
  · obtain ⟨d, hd⟩ := Option.isSome_iff_exists.mp ha
    obtain ⟨hs, hm, hp⟩ := hexDigit_not_sign ha
    refine ⟨d, hexDigit_lt hd, Or.inl ?_⟩
    rw [readHexInt_unsigned [b] hs hm hp, signedHex, hexNumber_pair hbase, hd, hb]
    rfl
  · obtain ⟨d, hd⟩ := Option.isSome_iff_exists.mp hb
    refine ⟨d, hexDigit_lt hd, ?_⟩
    rcases ha with hs | rfl | rfl
    · left
      rw [readHexInt_space hs, readHexInt_single, hd]
      rfl
    · right
      rw [readHexInt_minus, signedHex, hexNumber_single, hd]
      rfl
    · left
      rw [readHexInt_plus, signedHex, hexNumber_single, hd]
      rfl

theorem readHexInt_none {a b : UInt8} (hdigits : ¬ ((hexDigit a).isSome ∧ (hexDigit b).isSome))
    (h : ¬ SloppyPair a b) : readHexInt [a, b] = none := by
  unfold SloppyPair at h
  rw [not_or] at h
  obtain ⟨hfirst, hsecond⟩ := h
  by_cases hlead : isSpace a = true ∨ a = 45 ∨ a = 43
  · have hb : hexDigit b = none := by
      by_contra hb
      exact hsecond ⟨hlead, Option.isSome_iff_ne_none.mpr hb⟩
    rcases hlead with hs | rfl | rfl
    · rw [readHexInt_space hs, readHexInt_single, hb]
      rfl
    · rw [readHexInt_minus, signedHex, hexNumber_single, hb]
      rfl
    · rw [readHexInt_plus, signedHex, hexNumber_single, hb]
      rfl
  · simp only [not_or, Bool.not_eq_true] at hlead
    obtain ⟨hs, hm, hp⟩ := hlead
    rw [readHexInt_unsigned [b] hs hm hp, signedHex]
    by_cases hbase : a = 48 ∧ (b = 120 ∨ b = 88)
    · obtain ⟨rfl, rfl | rfl⟩ := hbase
      · rfl
      · rfl
    · have ha : hexDigit a = none := by
        by_contra ha
        have hsome := Option.isSome_iff_ne_none.mpr ha
        have hb : hexDigit b = none := by
          by_contra hb
          exact hdigits ⟨hsome, Option.isSome_iff_ne_none.mpr hb⟩
        exact hfirst ⟨hsome, hb, hbase⟩
      rw [hexNumber_pair hbase, ha]
      rfl

/-- No percent sign of the text stands before such a pair. -/
def Tidy (value : Bytes) : Prop := ∀ a b, [37, a, b] <:+: value → ¬ SloppyPair a b

theorem Tidy.tail {c : UInt8} {value : Bytes} (h : Tidy (c :: value)) : Tidy value :=
  fun a b hi => h a b (List.infix_cons hi)

theorem tidy_cons {c : UInt8} {value : Bytes} (hc : ∀ a b rest, c :: value = 37 :: a :: b :: rest →
    ¬ SloppyPair a b) : Tidy (c :: value) ↔ Tidy value := by
  constructor
  · exact Tidy.tail
  · intro h a b hi
    rcases List.infix_cons_iff.mp hi with ⟨rest, hp⟩ | hi
    · exact hc a b rest hp.symm
    · exact h a b hi

theorem hexDigit_ne_percent {b : UInt8} (h : (hexDigit b).isSome) : b ≠ 37 := by
  rintro rfl
  cases h

theorem not_sloppy_of_digits {a b : UInt8} (ha : (hexDigit a).isSome) (hb : (hexDigit b).isSome) :
    ¬ SloppyPair a b := by
  obtain ⟨hs, hm, hp⟩ := hexDigit_not_sign ha
  rintro (⟨-, hnone, -⟩ | ⟨hsign, -⟩)
  · simp [hnone] at hb
  · simp [hs, hm, hp] at hsign

theorem tidy_other {c : UInt8} {rest : Bytes} (hc : c ≠ 37) : Tidy (c :: rest) ↔ Tidy rest :=
  tidy_cons (fun _ _ _ heq => absurd (List.cons.inj heq).1 hc)

theorem tidy_pair {a b : UInt8} (rest : Bytes) (h : ¬ SloppyPair a b) :
    Tidy (37 :: a :: b :: rest) ↔ Tidy (a :: b :: rest) := by
  apply tidy_cons
  intro x y t heq
  obtain ⟨-, rfl, rfl, -⟩ : (37 : UInt8) = 37 ∧ a = x ∧ b = y ∧ rest = t := by simpa using heq
  exact h

theorem tidy_digits {a b : UInt8} (rest : Bytes) (ha : (hexDigit a).isSome) (hb : (hexDigit b).isSome) :
    Tidy (37 :: a :: b :: rest) ↔ Tidy rest := by
  rw [tidy_pair rest (not_sloppy_of_digits ha hb), tidy_other (hexDigit_ne_percent ha),
    tidy_other (hexDigit_ne_percent hb)]

theorem sloppy_byte_ne {a b : UInt8} (h : SloppyPair a b) :
    ∃ v, readHexInt [a, b] = some v ∧ UInt8.ofNat (v % 256).toNat ≠ 37 := by
  obtain ⟨d, hd, hread⟩ := readHexInt_sloppy h
  have hne : ∀ v : ℤ, v % 256 ≠ 37 → UInt8.ofNat (v % 256).toNat ≠ 37 := by
    intro v hv heq
    have hnat := congrArg UInt8.toNat heq
    have hlt : (v % 256).toNat < 256 := by omega
    rw [UInt8.toNat_ofNat', Nat.mod_eq_of_lt hlt] at hnat
    have hval : (v % 256).toNat = 37 := hnat
    omega
  rcases hread with hread | hread
  · exact ⟨_, hread, hne _ (by omega)⟩
  · exact ⟨_, hread, hne _ (by omega)⟩

theorem urlDecode_escape {a b : UInt8} {v : ℤ} (rest : Bytes) (h : readHexInt [a, b] = some v) :
    urlDecode (37 :: a :: b :: rest) = UInt8.ofNat (v % 256).toNat :: urlDecode rest := by
  rw [urlDecode, h]

theorem urlDecode_no_escape {a b : UInt8} (rest : Bytes) (h : readHexInt [a, b] = none) :
    urlDecode (37 :: a :: b :: rest) = 37 :: urlDecode (a :: b :: rest) := by
  rw [urlDecode, h]

theorem urlDecode_plain {c : UInt8} {rest : Bytes} (hp : c ≠ 43)
    (h : ∀ a b t, c = 37 → rest = a :: b :: t → False) : urlDecode (c :: rest) = c :: urlDecode rest := by
  rw [urlDecode]
  · exact h
  · exact hp

/-- The decoding of form data is the standard one on precisely the tidy texts. -/
theorem url_decode_standard_iff (value : Bytes) : urlDecode value = formDecode value ↔ Tidy value := by
  fun_induction formDecode value with
  | case1 =>
    have hdecode : urlDecode [] = [] := by rw [urlDecode]
    simp [hdecode, Tidy]
  | case2 a b rest high low hlow hhigh ih =>
    have hread := readHexInt_digits hhigh hlow
    have hbyte : (((16 * high + low : ℕ) : ℤ) % 256).toNat = 16 * high + low := by
      have hhigh16 := hexDigit_lt hhigh
      have hlow16 := hexDigit_lt hlow
      omega
    have htidy := tidy_digits (a := a) (b := b) rest (by rw [hhigh]; rfl) (by rw [hlow]; rfl)
    rw [urlDecode_escape rest hread, hbyte, htidy, List.cons_inj_right, ih]
  | case3 a b rest hdigits ih =>
    by_cases hsloppy : SloppyPair a b
    · -- the decoder takes the pair for an escape, and no such escape is a percent sign
      obtain ⟨v, hread, hne⟩ := sloppy_byte_ne hsloppy
      rw [urlDecode_escape rest hread]
      constructor
      · intro heq
        exact absurd (List.cons.inj heq).1 hne
      · intro htidy
        exact absurd hsloppy (htidy a b (List.prefix_append [37, a, b] rest).isInfix)
    · have hnot : ¬ ((hexDigit a).isSome ∧ (hexDigit b).isSome) := by
        rintro ⟨ha, hb⟩
        obtain ⟨high, hhigh⟩ := Option.isSome_iff_exists.mp ha
        obtain ⟨low, hlow⟩ := Option.isSome_iff_exists.mp hb
        exact hdigits high low hhigh hlow
      rw [urlDecode_no_escape rest (readHexInt_none hnot hsloppy), tidy_pair rest hsloppy, List.cons_inj_right, ih]
  | case4 rest ih =>
    have hdecode : urlDecode (43 :: rest) = 32 :: urlDecode rest := by rw [urlDecode]
    rw [hdecode, tidy_other (by decide), List.cons_inj_right, ih]
  | case5 c rest hc hp ih =>
    have htidy : Tidy (c :: rest) ↔ Tidy rest := by
      apply tidy_cons
      intro a b t heq
      exact absurd (List.cons.inj heq).2 (hc a b t (List.cons.inj heq).1)
    rw [urlDecode_plain hp hc, htidy, List.cons_inj_right, ih]

/-- A percent sign before one digit is lost, with the byte behind the digit. -/
theorem lone_digit_decoded : urlDecode (ascii "%4z") ≠ formDecode (ascii "%4z") := by
  decide +kernel

end WebServ.HTTPHandler
