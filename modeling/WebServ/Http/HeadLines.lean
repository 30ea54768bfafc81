import WebServ.Http.Response
import WebServ.Lib.Chunked
import WebServ.Lib.FieldMap

/-! # Heads of responses, read back

A receiver reads the lines of a response up to the first empty one. From what the server
serialises it reads the status line and one line for each header, as long as no status and
no header holds the end of a line.
-/
namespace WebServ
open Search Chunked

/-- The lines up to the first empty one, and what is behind it. -/
def headLines (text : Bytes) : List Bytes × Bytes :=
  match _h : cutLine crlf text with
  | none => ([], text)
  | some (line, rest) =>
    if line = [] then ([], rest) else (line :: (headLines rest).1, (headLines rest).2)
termination_by text.length
decreasing_by
  all_goals
    have hlen := cutLine_length _h
    simp only [crlf, List.length_cons, List.length_nil] at hlen
    omega

theorem headLines_cons {line : Bytes} (rest : Bytes) (hne : line ≠ []) (hl : IsLine line) :
    headLines (line ++ crlf ++ rest) = (line :: (headLines rest).1, (headLines rest).2) := by
  have hcut := cutLine_crlf rest hl
  rw [headLines]
  split
  · next h =>
    rw [hcut] at h
    cases h
  · next h =>
    rw [hcut] at h
    cases h
    rw [if_neg hne]

theorem headLines_nil (rest : Bytes) : headLines (crlf ++ rest) = ([], rest) := by
  have hcut := cutLine_crlf (l := []) rest (by decide)
  rw [List.nil_append] at hcut
  rw [headLines]
  split
  · next h =>
    rw [hcut] at h
    cases h
  · next h =>
    rw [hcut] at h
    cases h
    rw [if_pos rfl]

/-- Lines that are written are read back, whatever follows. -/
theorem headLines_encode {lines : List Bytes} (h : ∀ line ∈ lines, line ≠ [] ∧ IsLine line) (rest : Bytes) :
    headLines ((lines.map (· ++ crlf)).flatten ++ (crlf ++ rest)) = (lines, rest) := by
  induction lines with
  | nil => exact headLines_nil rest
  | cons line lines ih =>
    obtain ⟨hne, hl⟩ := h line (by simp)
    rw [List.map_cons, List.flatten_cons, List.append_assoc, headLines_cons _ hne hl,
      ih (fun l hm => h l (by simp [hm]))]

/-- The lines behind the status line. -/
def headerLines (text : Bytes) : List Bytes := (headLines text).1.tail

theorem isLine_of_no_newline {l : Bytes} (h : 10 ∉ l) : IsLine l :=
  fun hi => h (hi.subset (by decide))

/-- A number is written without any byte but digits. -/
theorem mem_decimal {n : ℕ} {b : UInt8} (h : b ∈ decimal n) : 48 ≤ b.toNat ∧ b.toNat ≤ 57 := by
  obtain ⟨c, hc, rfl⟩ := List.mem_map.mp h
  have hdigit := Nat.isDigit_of_mem_toDigits (by decide) le_rfl hc
  simp only [Char.isDigit, Bool.and_eq_true, decide_eq_true_eq, ge_iff_le, UInt32.le_iff_toNat_le] at hdigit
  have hval : c.toNat = c.val.toNat := rfl
  have hlow : 48 ≤ c.toNat := hval ▸ hdigit.1
  have hhigh : c.toNat ≤ 57 := hval ▸ hdigit.2
  rw [UInt8.toNat_ofNat', Nat.mod_eq_of_lt (by omega)]
  exact ⟨hlow, hhigh⟩

theorem no_newline_decimal (n : ℕ) : 10 ∉ decimal n := by
  intro h
  have hb := (mem_decimal h).1
  revert hb
  decide

theorem no_newline_decimalInt (z : ℤ) : 10 ∉ decimalInt z := by
  cases z with
  | ofNat n => exact no_newline_decimal n
  | negSucc n =>
    intro h
    rcases List.mem_append.mp h with h | h
    · revert h
      decide
    · exact no_newline_decimal _ h

/-- Different numbers are written differently. -/
theorem decimal_injective {m n : ℕ} (h : decimal m = decimal n) : m = n := by
  have hread (k : ℕ) : Nat.ofDigitChars 10 ((decimal k).map (fun b => Char.ofNat b.toNat)) 0 = k := by
    have hback : (decimal k).map (fun b => Char.ofNat b.toNat) = Nat.toDigits 10 k := by
      rw [decimal, List.map_map]
      refine (List.map_congr_left ?_).trans (List.map_id _)
      intro c hc
      have hb := mem_decimal (List.mem_map_of_mem hc)
      have hdigit := Nat.isDigit_of_mem_toDigits (by decide) le_rfl hc
      simp only [Char.isDigit, Bool.and_eq_true, decide_eq_true_eq, ge_iff_le, UInt32.le_iff_toNat_le] at hdigit
      have hhigh : c.toNat ≤ 57 := hdigit.2
      rw [Function.comp_apply, UInt8.toNat_ofNat', Nat.mod_eq_of_lt (by omega)]
      exact Char.ofNat_toNat c
    rw [hback, Nat.ofDigitChars_ten_toDigits]
  rw [← hread m, ← hread n, h]

namespace HTTPResponse

/-- One line of the head. -/
def headerField (p : Bytes × Bytes) : Bytes := p.1 ++ ascii ": " ++ p.2

/-- No status and no header of the response holds the end of a line. -/
structure Printable (r : HTTPResponse) : Prop where
  status : r.statusLine ≠ [] ∧ 10 ∉ r.statusLine
  header : ∀ key value : Bytes, r.headers[key]? = some value → 10 ∉ key ∧ 10 ∉ value

section
variable {r : HTTPResponse} (h : r.Printable)
include h

theorem Printable.setStatus (code : ℤ) {reason : Bytes} (hreason : 10 ∉ reason) :
    (r.setStatus code reason).Printable where
  status := by
    constructor
    · have hspace : ascii " " ≠ [] := by decide
      simp [HTTPResponse.setStatus, hspace]
    · intro hm
      simp only [HTTPResponse.setStatus, List.append_assoc, List.mem_append] at hm
      rcases hm with hm | hm | hm | hm
      · revert hm
        decide
      · exact no_newline_decimalInt code hm
      · revert hm
        decide
      · exact hreason hm
  header := h.header

theorem Printable.setHeader {key value : Bytes} (hkey : 10 ∉ key) (hvalue : 10 ∉ value) :
    (r.setHeader key value).Printable where
  status := h.status
  header k v hv := by
    simp only [HTTPResponse.setHeader, Std.ExtTreeMap.getElem?_insert] at hv
    split at hv
    · next hk =>
      rw [Std.LawfulEqCmp.compare_eq_iff_eq] at hk
      exact ⟨hk ▸ hkey, Option.some.inj hv ▸ hvalue⟩
    · exact h.header k v hv

theorem Printable.setBody (body : Bytes) : (r.setBody body).Printable := by
  have hbody : Printable { r with body } := ⟨h.status, h.header⟩
  exact hbody.setHeader (by decide) (no_newline_decimal _)

/-- What is serialised is read back. -/
theorem Printable.headLines (rest : Bytes) :
    headLines (r.headerToString ++ rest) = (r.statusLine :: r.headers.toList.map headerField, rest) := by
  have hlines : ∀ line ∈ r.statusLine :: r.headers.toList.map headerField, line ≠ [] ∧ IsLine line := by
    intro line hm
    rcases List.mem_cons.mp hm with rfl | hm
    · exact ⟨h.status.1, isLine_of_no_newline h.status.2⟩
    · obtain ⟨⟨key, value⟩, hp, rfl⟩ := List.mem_map.mp hm
      obtain ⟨hkey, hvalue⟩ := h.header key value (Std.ExtTreeMap.mem_toList_iff_getElem?_eq_some.mp hp)
      have hcolon : ascii ": " ≠ [] := by decide
      refine ⟨by simp [headerField, hcolon], isLine_of_no_newline ?_⟩
      intro hnl
      simp only [headerField, List.append_assoc, List.mem_append] at hnl
      rcases hnl with hnl | hnl | hnl
      · exact hkey hnl
      · revert hnl
        decide
      · exact hvalue hnl
  rw [← headLines_encode hlines rest]
  simp only [headerToString, headerField, List.map_cons, List.map_map, Function.comp_def, List.flatten_cons,
    List.append_assoc]

theorem Printable.headerLines (rest : Bytes) :
    headerLines (r.headerToString ++ rest) = r.headers.toList.map headerField := by
  rw [WebServ.headerLines, h.headLines rest, List.tail_cons]

end

/-- The name can be read off a line when it has no colon. -/
theorem headerField_injective {p q : Bytes × Bytes} (hp : 58 ∉ p.1) (hq : 58 ∉ q.1)
    (h : headerField p = headerField q) : p = q := by
  have hsplit (p : Bytes × Bytes) : headerField p = p.1 ++ 58 :: (32 :: p.2) := by
    simp [headerField, show ascii ": " = [58, 32] by decide]
  have hname : p.1 = q.1 := by
    rw [← before_append (32 :: p.2) hp, ← hsplit, h, hsplit, before_append (32 :: q.2) hq]
  rw [hsplit, hsplit, hname, List.append_cancel_left_eq, List.cons.injEq, List.cons.injEq] at h
  exact Prod.ext hname h.2.2

/-- How often a header is written, when no name has a colon. -/
theorem count_headerField {headers : Headers} {p : Bytes × Bytes} (hp : 58 ∉ p.1)
    (hclean : ∀ key value : Bytes, headers[key]? = some value → 58 ∉ key) :
    (headers.toList.map headerField).count (headerField p) = if headers[p.1]? = some p.2 then 1 else 0 := by
  rw [← FieldMap.count_toList headers p, List.count_eq_countP, List.count_eq_countP, List.countP_map]
  apply List.countP_congr
  intro q hq
  have hq : 58 ∉ q.1 := hclean q.1 q.2 (Std.ExtTreeMap.mem_toList_iff_getElem?_eq_some.mp hq)
  simp only [Function.comp_apply, beq_iff_eq]
  exact ⟨headerField_injective hq hp, congrArg headerField⟩

end HTTPResponse
end WebServ
