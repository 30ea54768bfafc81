import WebServ.Client.DecoderAgreement

/-! # The values of size lines

Both readers of a size line add up its digits in 64 bits and never test for an
overflow. They are exact on the numbers that fit, and accept the others at their
remainder, so that a long enough number announces a shorter chunk or ends the body.
-/
namespace WebServ.Client
open Search Chunked HTTPRequest

/-- What the request parser sets at an accepted line. -/
theorem parseChunkSize_hex {r : HTTPRequest} {line rest digits : Bytes}
    (hcut : cutLine crlf r.buffer = some (line, rest))
    (htrim : trim blanks (stripExtension line) = some digits) (hhex : IsHex digits) :
    (parseChunkSize r).1 = true ∧ (parseChunkSize r).2.chunkRemaining = hexValue digits % 2 ^ 64 := by
  have hread : parseHexString digits = some (hexValue digits % 2 ^ 64) := by
    rw [parseHexString_eq, if_pos hhex]
  unfold parseChunkSize
  simp only [hcut, htrim, hread, and_self]

/-- One turn of the decoder's loop, when it reads a size line. -/
theorem decodeLoop_size {d : ChunkDecoder} {line rest : Bytes} (out : Bytes)
    (hs : d.state = .chunkDecSize) (hcut : cutLine crlf d.buf = some (line, rest)) :
    decodeLoop d out = match decoderSizeOf line with
      | none => ⟨false, out, false, { d with buf := rest }⟩
      | some size => decodeLoop ⟨afterSize size, size, rest⟩ out := by
  have hb : d.buf ≠ [] := by
    intro hnil
    have hlen := cutLine_length hcut
    simp only [hnil, crlf, List.length_cons, List.length_nil] at hlen
    omega
  fun_cases decodeLoop d out with
  | case1 h => exact absurd h hb
  | case2 _ _ hc => simp [hc] at hcut
  | case3 _ _ line' rest' hc hsize =>
    obtain ⟨rfl, rfl⟩ : line' = line ∧ rest' = rest := by simpa [hc] using hcut
    have hnone : decoderSizeOf line' = none := hsize
    rw [hnone]
  | case4 _ _ line' rest' hc size hsize =>
    obtain ⟨rfl, rfl⟩ : line' = line ∧ rest' = rest := by simpa [hc] using hcut
    have hsome : decoderSizeOf line' = some size := hsize
    rw [hsome]
  | _ => simp_all

theorem decodeLoop_nil (state : ChunkedDecState) (n : ℕ) (out : Bytes) :
    decodeLoop ⟨state, n, []⟩ out = ⟨true, out, false, ⟨state, n, []⟩⟩ := by
  rw [decodeLoop]
  rfl

/-- A number in hexadecimal digits that does not fit in 64 bits. -/
def Overlong (text : Bytes) : Prop := IsHex text ∧ 2 ^ 64 ≤ hexValue text

instance (text : Bytes) : Decidable (Overlong text) := inferInstanceAs (Decidable (_ ∧ _))

/-- The request parser takes the line at the value of its digits, and refuses a value
that does not fit. -/
def ParserExact (line : Bytes) : Prop :=
  ∀ (r : HTTPRequest) (rest digits : Bytes), cutLine crlf r.buffer = some (line, rest) →
    trim blanks (stripExtension line) = some digits → IsHex digits →
    ((parseChunkSize r).1 = true → (parseChunkSize r).2.chunkRemaining = hexValue digits) ∧
    (2 ^ 64 ≤ hexValue digits → (parseChunkSize r).1 = false)

/-- So does the decoder, from any state in which this line is the next one. -/
def DecoderExact (line : Bytes) : Prop :=
  ∀ (d : ChunkDecoder) (rest out : Bytes), d.state = .chunkDecSize →
    cutLine crlf d.buf = some (line, rest) → IsHex (stripExtension line) →
    let n := hexValue (stripExtension line)
    (n < 2 ^ 64 → decodeLoop d out = decodeLoop ⟨afterSize n, n, rest⟩ out) ∧
    (2 ^ 64 ≤ n → (decodeLoop d out).ok = false)

theorem parserExact_iff (line : Bytes) : ParserExact line ↔
    ¬ (IsLine line ∧ ∃ digits, trim blanks (stripExtension line) = some digits ∧ Overlong digits) := by
  constructor
  · rintro h ⟨hline, digits, htrim, hhex, hlarge⟩
    have hcut := cutLine_crlf (l := line) [] hline
    have hrefused := (h { buffer := line ++ crlf ++ [] } [] digits hcut htrim hhex).2 hlarge
    have haccepted := (parseChunkSize_hex (r := { buffer := line ++ crlf ++ [] }) hcut htrim hhex).1
    exact Bool.noConfusion (haccepted.symm.trans hrefused)
  · intro h r rest digits hcut htrim hhex
    have hfits : hexValue digits < 2 ^ 64 := by
      by_contra hlarge
      exact h ⟨cutLine_no_eol hcut crlf_ne_nil, digits, htrim, hhex, Nat.le_of_not_lt hlarge⟩
    have hread := (parseChunkSize_hex hcut htrim hhex).2
    rw [Nat.mod_eq_of_lt hfits] at hread
    exact ⟨fun _ => hread, fun hlarge => absurd hlarge (Nat.not_le_of_lt hfits)⟩

theorem decoderExact_iff (line : Bytes) : DecoderExact line ↔
    ¬ (IsLine line ∧ Overlong (stripExtension line)) := by
  constructor
  · rintro h ⟨hline, hhex, hlarge⟩
    have hcut := cutLine_crlf (l := line) [] hline
    have hrefused := (h ⟨.chunkDecSize, 0, line ++ crlf ++ []⟩ [] [] rfl hcut hhex).2 hlarge
    -- the call ends behind the line, with the remainder as its count
    have hturn := decodeLoop_size (d := ⟨.chunkDecSize, 0, line ++ crlf ++ []⟩) [] rfl hcut
    rw [decoderSizeOf_eq, if_pos hhex] at hturn
    dsimp only at hturn
    rw [hturn, decodeLoop_nil] at hrefused
    exact Bool.noConfusion hrefused
  · intro h d rest out hs hcut hhex n
    have hfits : n < 2 ^ 64 := by
      by_contra hlarge
      exact h ⟨cutLine_no_eol hcut crlf_ne_nil, hhex, Nat.le_of_not_lt hlarge⟩
    have hturn := decodeLoop_size out hs hcut
    rw [decoderSizeOf_eq, if_pos hhex, Nat.mod_eq_of_lt hfits] at hturn
    exact ⟨fun _ => hturn, fun hlarge => absurd hlarge (Nat.not_le_of_lt hfits)⟩

/-- Each reader is exact on precisely the lines whose number fits in 64 bits; the
request parser looks at the number without the blanks around it. -/
theorem size_lines_exact_iff (line : Bytes) :
    (ParserExact line ↔ ¬ (IsLine line ∧
      ∃ digits, trim blanks (stripExtension line) = some digits ∧ Overlong digits)) ∧
    (DecoderExact line ↔ ¬ (IsLine line ∧ Overlong (stripExtension line))) :=
  ⟨parserExact_iff line, decoderExact_iff line⟩

/-- Sixteen zeros behind a one announce the end of the body. -/
theorem wrapped_size_accepted :
    ¬ ParserExact (ascii "10000000000000000") ∧ ¬ DecoderExact (ascii "10000000000000000") := by
  constructor
  · intro h
    have hrefused := (h { buffer := ascii "10000000000000000\r\n" } [] (ascii "10000000000000000")
      (by decide +kernel) (by decide +kernel) (by decide +kernel)).2 (by decide +kernel)
    exact absurd hrefused (by decide +kernel)
  · intro h
    have hrefused := (h ⟨.chunkDecSize, 0, ascii "10000000000000000\r\n"⟩ [] [] rfl
      (by decide +kernel) (by decide +kernel)).2 (by decide +kernel)
    exact absurd hrefused (by decide +kernel)

end WebServ.Client
