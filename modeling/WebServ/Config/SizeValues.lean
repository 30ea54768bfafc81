import WebServ.Config.Parser

/-! # The values of sizes

A size is read from a stream: blanks and a sign in front of the digits and any text
behind them are taken too, and the product with the unit is kept modulo `2 ^ 64`.
-/
namespace WebServ.Configuration
open Search

/-- A text as a stream sees it: blanks, a sign, digits, and what it leaves unread. -/
structure StreamNumber (text blank sign digits rest : Bytes) : Prop where
  split : text = blank ++ (sign ++ (digits ++ rest))
  spaces : ∀ b ∈ blank, isSpace b = true
  signed : sign ∈ [[], ascii "-", ascii "+"]
  nonempty : digits ≠ []
  decimal : ∀ b ∈ digits, (decDigit b).isSome = true
  unread : ∀ b ∈ rest.head?, decDigit b = none

theorem takeWhile_digits {digits rest : Bytes} (hd : ∀ b ∈ digits, (decDigit b).isSome = true)
    (hr : ∀ b ∈ rest.head?, decDigit b = none) :
    (digits ++ rest).takeWhile (fun b => (decDigit b).isSome) = digits := by
  rw [List.takeWhile_append_of_pos hd]
  cases rest with
  | nil => simp
  | cons b rest =>
    have hb : decDigit b = none := hr b rfl
    simp [hb]

theorem dropWhile_spaces {blank text : Bytes} (hb : ∀ b ∈ blank, isSpace b = true)
    (ht : ∀ b ∈ text.head?, isSpace b = false) : (blank ++ text).dropWhile isSpace = text := by
  rw [List.dropWhile_append_of_pos hb]
  cases text with
  | nil => rfl
  | cons b text =>
    have hb : isSpace b = false := ht b rfl
    rw [List.dropWhile_cons_of_neg (by simp [hb])]

theorem mem_signs {sign : Bytes} (h : sign ∈ [[], ascii "-", ascii "+"]) :
    sign = [] ∨ sign = [45] ∨ sign = [43] := by
  have hminus : ascii "-" = [45] := by decide
  have hplus : ascii "+" = [43] := by decide
  simpa [hminus, hplus] using h

/-- After the blanks the stream reads a sign, when there is one, and then digits. -/
theorem readDecimal_of_drop {text sign t : Bytes} (hs : sign ∈ [[], ascii "-", ascii "+"])
    (hdrop : text.dropWhile isSpace = sign ++ t)
    (ht : sign = [] → ∀ b ∈ t.head?, b ≠ 45 ∧ b ≠ 43) :
    readDecimal text =
      let digits := t.takeWhile (fun b => (decDigit b).isSome)
      if digits = [] then none else some (decide (sign = ascii "-"), decValue digits) := by
  unfold readDecimal
  rw [hdrop]
  rcases mem_signs hs with rfl | rfl | rfl
  · rcases t with _ | ⟨b, t⟩
    · rfl
    · obtain ⟨hminus, hplus⟩ := ht rfl b rfl
      rw [List.nil_append]
      split
      · next heq => exact absurd (List.cons.inj heq).1 hminus
      · next heq => exact absurd (List.cons.inj heq).1 hplus
      · rfl
  · rfl
  · rfl

theorem StreamNumber.readDecimal_eq {text blank sign digits rest : Bytes}
    (h : StreamNumber text blank sign digits rest) :
    readDecimal text = some (decide (sign = ascii "-"), decValue digits) := by
  have hne := h.nonempty
  have htake := takeWhile_digits h.decimal h.unread
  have hfirst : ∀ b ∈ (digits ++ rest).head?, isSpace b = false ∧ b ≠ 45 ∧ b ≠ 43 := by
    intro b hb
    rw [List.head?_append_of_ne_nil _ hne] at hb
    exact decDigit_not_sign (h.decimal b (List.mem_of_mem_head? hb))
  have hdrop : text.dropWhile isSpace = sign ++ (digits ++ rest) := by
    rw [h.split]
    apply dropWhile_spaces h.spaces
    rcases mem_signs h.signed with rfl | rfl | rfl
    · intro b hb
      exact (hfirst b hb).1
    · intro b hb
      obtain rfl : (45 : UInt8) = b := by simpa using hb
      decide
    · intro b hb
      obtain rfl : (43 : UInt8) = b := by simpa using hb
      decide
  rw [readDecimal_of_drop h.signed hdrop (fun _ b hb => (hfirst b hb).2), htake]
  exact if_neg hne

theorem StreamNumber.readSizeT_eq {text blank sign digits rest : Bytes}
    (h : StreamNumber text blank sign digits rest) : readSizeT text =
      if decValue digits < 2 ^ 64 then
        some (if sign = ascii "-" then toSizeT (-decValue digits) else decValue digits)
      else none := by
  unfold readSizeT
  rw [h.readDecimal_eq, Option.bind_some]
  simp only [decide_eq_true_eq]

/-- Whatever is extracted was written as such a number. -/
theorem exists_of_readDecimal {text : Bytes} {p : Bool × ℕ} (h : readDecimal text = some p) :
    ∃ blank sign digits rest, StreamNumber text blank sign digits rest := by
  obtain ⟨sign, t, hs, hdrop, ht⟩ : ∃ sign t, sign ∈ [[], ascii "-", ascii "+"] ∧
      text.dropWhile isSpace = sign ++ t ∧ (sign = [] → ∀ b ∈ t.head?, b ≠ 45 ∧ b ≠ 43) := by
    rcases hd : text.dropWhile isSpace with _ | ⟨b, t⟩
    · exact ⟨[], [], by decide, rfl, by simp⟩
    · by_cases hminus : b = 45
      · exact ⟨[45], t, by decide, by rw [hminus]; rfl, by simp⟩
      · by_cases hplus : b = 43
        · exact ⟨[43], t, by decide, by rw [hplus]; rfl, by simp⟩
        · exact ⟨[], b :: t, by decide, rfl, by simp [hminus, hplus]⟩
  rw [readDecimal_of_drop hs hdrop ht] at h
  refine ⟨text.takeWhile isSpace, sign, t.takeWhile (fun b => (decDigit b).isSome),
    t.dropWhile (fun b => (decDigit b).isSome), ?_, ?_, hs, ?_, ?_, ?_⟩
  · rw [List.takeWhile_append_dropWhile, ← hdrop, List.takeWhile_append_dropWhile]
  · exact fun b hb => List.mem_takeWhile_imp hb
  · intro hnil
    simp only [hnil, if_true, reduceCtorEq] at h
  · intro b hb
    exact List.all_eq_true.mp List.all_takeWhile b hb
  · intro b hb
    have hnot := List.head?_dropWhile_not (fun b => (decDigit b).isSome) t
    rw [hb] at hnot
    simpa using hnot

/-! ## Units -/

def sizeUnits : List (Bytes × ℕ) :=
  [([], 1), (ascii "K", bytesPerKb), (ascii "k", bytesPerKb), (ascii "M", bytesPerMb),
    (ascii "m", bytesPerMb)]

/-- A token is a number and a unit; a letter at its end that is a unit is not part of
the number. -/
structure SizeParts (value number unit : Bytes) (multiplier : ℕ) : Prop where
  split : value = number ++ unit
  known : (unit, multiplier) ∈ sizeUnits
  plain : unit = [] → ∀ c ∈ number.getLast?, c ∉ ascii "KkMm"

theorem SizeParts.split_eq {value number unit : Bytes} {multiplier : ℕ}
    (h : SizeParts value number unit multiplier) (hv : value ≠ []) :
    (if value.getLast? = some 75 ∨ value.getLast? = some 107 then (bytesPerKb, value.dropLast)
      else if value.getLast? = some 77 ∨ value.getLast? = some 109 then (bytesPerMb, value.dropLast)
      else (1, value)) = (multiplier, number) := by
  have hK : ascii "K" = [75] := by decide
  have hk : ascii "k" = [107] := by decide
  have hM : ascii "M" = [77] := by decide
  have hm : ascii "m" = [109] := by decide
  have hall : ascii "KkMm" = [75, 107, 77, 109] := by decide
  have hknown := h.known
  have hplain := h.plain
  obtain rfl := h.split
  simp only [sizeUnits, hK, hk, hM, hm, hall, List.mem_cons, Prod.mk.injEq, List.not_mem_nil,
    or_false] at hknown hplain
  rcases hknown with ⟨rfl, rfl⟩ | ⟨rfl, rfl⟩ | ⟨rfl, rfl⟩ | ⟨rfl, rfl⟩ | ⟨rfl, rfl⟩
  · rw [List.append_nil] at hv ⊢
    have hlast := hplain rfl (number.getLast hv) (List.getLast?_eq_some_getLast hv)
    simp only [not_or] at hlast
    simp [List.getLast?_eq_some_getLast hv, hlast]
  all_goals simp [List.getLast?_append]

theorem parseSize_ok_iff {value number unit : Bytes} {multiplier : ℕ}
    (h : SizeParts value number unit multiplier) (n : ℕ) : parseSize value = .ok n ↔
      ∃ size, readSizeT number = some size ∧ n = size * multiplier % 2 ^ 64 := by
  by_cases hv : value = []
  · have hnumber : number = [] := by
      have hsplit := h.split
      rw [hv] at hsplit
      exact (List.append_eq_nil_iff.mp hsplit.symm).1
    have hread : readSizeT ([] : Bytes) = none := by decide
    rw [hnumber, hread]
    simp [parseSize, hv, reject]
  · unfold parseSize
    rw [if_neg hv]
    dsimp only
    rw [h.split_eq hv]
    cases readSizeT number with
    | none => simp [reject]
    | some size => simp [eq_comm]

theorem exists_sizeParts (value : Bytes) :
    ∃ number unit multiplier, SizeParts value number unit multiplier := by
  by_cases hlast : ∀ c ∈ value.getLast?, c ∉ ascii "KkMm"
  · exact ⟨value, [], 1, by simp, by decide, fun _ => hlast⟩
  · push Not at hlast
    obtain ⟨c, hc, hletter⟩ := hlast
    have hvalue : value = value.dropLast ++ [c] := (List.dropLast_append_getLast? c hc).symm
    obtain ⟨multiplier, hknown⟩ : ∃ multiplier, ([c], multiplier) ∈ sizeUnits := by
      have hall : ascii "KkMm" = [75, 107, 77, 109] := by decide
      simp only [hall, List.mem_cons, List.not_mem_nil, or_false] at hletter
      rcases hletter with rfl | rfl | rfl | rfl
      · exact ⟨bytesPerKb, by decide⟩
      · exact ⟨bytesPerKb, by decide⟩
      · exact ⟨bytesPerMb, by decide⟩
      · exact ⟨bytesPerMb, by decide⟩
    exact ⟨value.dropLast, [c], multiplier, hvalue, hknown, by simp⟩

theorem SizeParts.unique {value number unit number' unit' : Bytes} {multiplier multiplier' : ℕ}
    (h : SizeParts value number unit multiplier) (h' : SizeParts value number' unit' multiplier')
    (hv : value ≠ []) : number = number' ∧ multiplier = multiplier' := by
  have hpair := (h.split_eq hv).symm.trans (h'.split_eq hv)
  exact ⟨(Prod.mk.inj hpair).2, (Prod.mk.inj hpair).1⟩

theorem multiplier_pos {unit : Bytes} {multiplier : ℕ} (h : (unit, multiplier) ∈ sizeUnits) :
    0 < multiplier := by
  simp only [sizeUnits, List.mem_cons, Prod.mk.injEq, List.not_mem_nil, or_false, bytesPerKb,
    bytesPerMb] at h
  omega

/-! ## Exact sizes -/

/-- The token is digits and a unit, and `n` is their product, which fits in 64 bits. -/
def Denotes (value : Bytes) (n : ℕ) : Prop :=
  ∃ digits unit multiplier, value = digits ++ unit ∧ (unit, multiplier) ∈ sizeUnits ∧
    digits ≠ [] ∧ (∀ b ∈ digits, (decDigit b).isSome = true) ∧
    n = decValue digits * multiplier ∧ n < 2 ^ 64

/-- The number is one for a stream, which sees blanks, a sign or more text beside the
digits, or its product with the unit does not fit. -/
def LooseSize (value : Bytes) : Prop :=
  ∃ number unit multiplier blank sign digits rest, SizeParts value number unit multiplier ∧
    StreamNumber number blank sign digits rest ∧ decValue digits < 2 ^ 64 ∧
    (blank ++ sign ++ rest ≠ [] ∨ 2 ^ 64 ≤ decValue digits * multiplier)

theorem digits_parts {digits unit : Bytes} {multiplier : ℕ} (hknown : (unit, multiplier) ∈ sizeUnits)
    (hdigits : ∀ b ∈ digits, (decDigit b).isSome = true) :
    SizeParts (digits ++ unit) digits unit multiplier where
  split := rfl
  known := hknown
  plain _ c hc hletter := by
    have hdigit := hdigits c (List.mem_of_getLast? hc)
    have hnone : ∀ c ∈ ascii "KkMm", decDigit c = none := by decide +kernel
    simp [hnone c hletter] at hdigit

theorem StreamNumber.of_digits {digits : Bytes} (hne : digits ≠ [])
    (hdigits : ∀ b ∈ digits, (decDigit b).isSome = true) : StreamNumber digits [] [] digits [] where
  split := by simp
  spaces := by simp
  signed := by decide
  nonempty := hne
  decimal := hdigits
  unread := by simp

/-- Where every byte is a digit, the stream sees nothing else. -/
theorem StreamNumber.only_digits {text blank sign digits rest : Bytes}
    (h : StreamNumber text blank sign digits rest)
    (htext : ∀ b ∈ text, (decDigit b).isSome = true) : blank ++ sign ++ rest = [] := by
  rw [h.split] at htext
  have hblank : blank = [] := by
    rcases blank with _ | ⟨b, blank⟩
    · rfl
    · have hspace := h.spaces b (List.mem_cons_self ..)
      have hnot := (decDigit_not_sign (htext b (by simp))).1
      simp [hspace] at hnot
  have hsign : sign = [] := by
    rcases mem_signs h.signed with rfl | rfl | rfl
    · rfl
    · exact absurd rfl (decDigit_not_sign (htext 45 (by simp))).2.1
    · exact absurd rfl (decDigit_not_sign (htext 43 (by simp))).2.2
  have hrest : rest = [] := by
    rcases rest with _ | ⟨b, rest⟩
    · rfl
    · have hdigit := htext b (by simp)
      simp [h.unread b rfl] at hdigit
  rw [hblank, hsign, hrest]
  rfl

/-- A loose size is accepted, though the token denotes no size. -/
theorem LooseSize.accepted {value : Bytes} (h : LooseSize value) :
    ∃ n, parseSize value = .ok n ∧ ¬ Denotes value n := by
  obtain ⟨number, unit, multiplier, blank, sign, digits, rest, hparts, hstream, hfits, hloose⟩ := h
  obtain ⟨size, hsize⟩ : ∃ size, readSizeT number = some size := by
    rw [hstream.readSizeT_eq, if_pos hfits]
    exact ⟨_, rfl⟩
  refine ⟨size * multiplier % 2 ^ 64, (parseSize_ok_iff hparts _).mpr ⟨size, hsize, rfl⟩, ?_⟩
  rintro ⟨digits', unit', multiplier', hvalue, hknown, hne, hdigits, hproduct, hlt⟩
  have hv : value ≠ [] := by
    intro hnil
    rw [hnil] at hvalue
    exact hne (List.append_eq_nil_iff.mp hvalue.symm).1
  have hparts' : SizeParts value digits' unit' multiplier' := by
    rw [hvalue]
    exact digits_parts hknown hdigits
  obtain ⟨rfl, rfl⟩ := hparts.unique hparts' hv
  have honly := hstream.only_digits hdigits
  rcases hloose with hloose | hlarge
  · exact hloose honly
  · obtain ⟨hblank, hsign, hrest⟩ : blank = [] ∧ sign = [] ∧ rest = [] := by simpa using honly
    have hnumber : number = digits := by
      simpa [hblank, hsign, hrest] using hstream.split
    rw [hnumber] at hproduct
    omega

theorem accepts_exactly {value : Bytes} (h : ¬ LooseSize value) (n : ℕ) :
    parseSize value = .ok n ↔ Denotes value n := by
  constructor
  · intro hparse
    obtain ⟨number, unit, multiplier, hparts⟩ := exists_sizeParts value
    obtain ⟨size, hsize, hn⟩ := (parseSize_ok_iff hparts n).mp hparse
    obtain ⟨p, hread, -⟩ := Option.bind_eq_some_iff.mp hsize
    obtain ⟨blank, sign, digits, rest, hstream⟩ := exists_of_readDecimal hread
    rw [hstream.readSizeT_eq] at hsize
    by_cases hlt : decValue digits < 2 ^ 64
    · have hstrict : blank ++ sign ++ rest = [] ∧ decValue digits * multiplier < 2 ^ 64 := by
        by_contra hnot
        refine h ⟨number, unit, multiplier, blank, sign, digits, rest, hparts, hstream, hlt, ?_⟩
        rw [not_and_or] at hnot
        exact hnot.imp_right Nat.le_of_not_lt
      obtain ⟨hblank, hsign, hrest⟩ : blank = [] ∧ sign = [] ∧ rest = [] := by
        simpa using hstrict.1
      have hnumber : number = digits := by
        simpa [hblank, hsign, hrest] using hstream.split
      have hminus : ¬ sign = ascii "-" := by
        rw [hsign]
        decide
      rw [if_pos hlt, if_neg hminus, Option.some.injEq] at hsize
      rw [← hsize, Nat.mod_eq_of_lt hstrict.2] at hn
      exact ⟨digits, unit, multiplier, by rw [← hnumber]; exact hparts.split, hparts.known,
        hstream.nonempty, hstream.decimal, hn, by rw [hn]; exact hstrict.2⟩
    · rw [if_neg hlt] at hsize
      cases hsize
  · rintro ⟨digits, unit, multiplier, rfl, hknown, hne, hdigits, hn, hlt⟩
    have hpos := multiplier_pos hknown
    have hfits : decValue digits < 2 ^ 64 := by
      have hle := Nat.le_mul_of_pos_right (decValue digits) hpos
      omega
    have hread : readSizeT digits = some (decValue digits) := by
      rw [(StreamNumber.of_digits hne hdigits).readSizeT_eq, if_pos hfits]
      exact congrArg some (if_neg (by decide))
    rw [parseSize_ok_iff (digits_parts hknown hdigits)]
    exact ⟨decValue digits, hread, by rw [← hn, Nat.mod_eq_of_lt hlt]⟩

/-- Sizes are read exactly, and nothing but sizes, up to the loose ones. -/
theorem parse_size_exact_iff (value : Bytes) :
    (∀ n, parseSize value = .ok n ↔ Denotes value n) ↔ ¬ LooseSize value := by
  constructor
  · intro hexact hloose
    obtain ⟨n, hparse, hnot⟩ := hloose.accepted
    exact hnot ((hexact n).mp hparse)
  · exact accepts_exactly

/-- A huge limit is read as zero, which means that there is none. -/
theorem huge_size_is_zero : ¬ ∀ n, parseSize (ascii "18014398509481984K") = .ok n ↔
    Denotes (ascii "18014398509481984K") n := by
  intro h
  have hzero : parseSize (ascii "18014398509481984K") = .ok 0 := by decide +kernel
  obtain ⟨digits, unit, multiplier, hvalue, hknown, hne, hdigits, hn, -⟩ := (h 0).mp hzero
  have hparts := digits_parts hknown hdigits
  rw [← hvalue] at hparts
  have hparts' : SizeParts (ascii "18014398509481984K") (ascii "18014398509481984") (ascii "K")
      bytesPerKb := ⟨by decide, by decide, by decide⟩
  obtain ⟨rfl, rfl⟩ := hparts.unique hparts' (by decide)
  exact absurd hn (by decide +kernel)

end WebServ.Configuration
