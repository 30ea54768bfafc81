import WebServ.Http.Incremental

/-! # How the request parser reads a size line

The accepted lines are hexadecimal numbers between blanks, with anything behind a
semicolon ignored; the value is the one of the digits modulo `2 ^ 64`.
-/
namespace WebServ.HTTPRequest
open Search Chunked

theorem parseHexString_eq (t : Bytes) :
    parseHexString t = if IsHex t then some (hexValue t % 2 ^ 64) else none := by
  have hall : (t.all (fun b => (hexDigit b).isSome) = true) ↔ IsHex t := by simp [IsHex]
  unfold parseHexString
  by_cases h : IsHex t
  · rw [if_pos (hall.mpr h), if_pos h]
    exact congrArg some (foldl_mod_eq 16 (2 ^ 64) hexDigit 0 t)
  · rw [if_neg (fun h' => h (hall.mp h')), if_neg h]

theorem trim_hex {t : Bytes} (hne : t ≠ []) (h : IsHex t) : trim blanks t = some t :=
  trim_eq_self hne h.not_blank

/-- A size line as senders write it: a hexadecimal number of at most sixteen digits,
blanks around it, and an optional extension. -/
structure SizeText (n : ℕ) (line : Bytes) : Prop where
  split : ∃ pre digits post ext, line = pre ++ digits ++ post ++ ext ∧
    (∀ b ∈ pre, b ∈ blanks) ∧ (∀ b ∈ post, b ∈ blanks) ∧ digits ≠ [] ∧ IsHex digits ∧
    digits.length ≤ 16 ∧ hexValue digits = n ∧ IsLine ext ∧ (ext = [] ∨ ∃ e, ext = ascii ";" ++ e)

theorem isLine_append_of_no_cr {x e : Bytes} (hx : 13 ∉ x) (he : IsLine e) : IsLine (x ++ e) := by
  induction x with
  | nil => exact he
  | cons b x ih =>
    intro hi
    rcases List.infix_cons_iff.mp hi with hp | hi
    · obtain ⟨t, ht⟩ := hp
      have hb : 13 = b := (List.cons.inj ht).1
      exact hx (by simp [hb])
    · exact ih (fun h => hx (by simp [h])) hi

/-- Blanks and digits contain neither the end-of-line mark nor the semicolon. -/
theorem padded_clean {pre digits post : Bytes} (hpre : ∀ b ∈ pre, b ∈ blanks)
    (hpost : ∀ b ∈ post, b ∈ blanks) (hhex : IsHex digits) {c : UInt8} (hb : c ∉ blanks)
    (hd : hexDigit c = none) : c ∉ pre ++ digits ++ post := by
  intro hc
  rcases List.mem_append.mp hc with hc | hc
  · rcases List.mem_append.mp hc with hc | hc
    · exact hb (hpre c hc)
    · simpa [hd] using hhex c hc
  · exact hb (hpost c hc)

theorem SizeText.isLine {n : ℕ} {line : Bytes} (h : SizeText n line) : IsLine line := by
  obtain ⟨pre, digits, post, ext, rfl, hpre, hpost, -, hhex, -, -, hext, -⟩ := h.split
  exact isLine_append_of_no_cr (padded_clean hpre hpost hhex (by decide) (by decide)) hext

theorem SizeText.chunkSizeOf_eq {n : ℕ} {line : Bytes} (h : SizeText n line) :
    chunkSizeOf line = some n := by
  obtain ⟨pre, digits, post, ext, rfl, hpre, hpost, hne, hhex, hlen, hval, -, hext⟩ := h.split
  have hclean : (59 : UInt8) ∉ pre ++ digits ++ post :=
    padded_clean hpre hpost hhex (by decide) (by decide)
  have hstrip : stripExtension (pre ++ digits ++ post ++ ext) = pre ++ digits ++ post := by
    rcases hext with rfl | ⟨e, rfl⟩
    · simp only [List.append_nil]
      exact before_eq_self hclean
    · exact before_append e hclean
  have htrim : trim blanks (pre ++ digits ++ post) = some digits :=
    trim_pad hpre hpost (hhex.not_blank _ (List.head_mem hne))
      (hhex.not_blank _ (List.getLast_mem hne)) (List.head?_eq_some_head hne)
      (List.getLast?_eq_some_getLast hne)
  have hlt : n < 2 ^ 64 := by
    have := hexValue_lt hlen
    omega
  rw [chunkSizeOf, hstrip, htrim, Option.bind_some, parseHexString_eq, if_pos hhex, hval,
    Nat.mod_eq_of_lt hlt]

end WebServ.HTTPRequest
