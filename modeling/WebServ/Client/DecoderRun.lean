import WebServ.Client.HandOver

/-! # Runs of the chunk decoder

The bytes of a body come in pieces of any size, one call for each. Whatever the
pieces are, the calls together decode the body, and the one with its last byte
says that the body has ended.
-/
namespace WebServ.Client
open Search Chunked HTTPRequest

/-- The results of successive calls. -/
def decodeCalls (d : ChunkDecoder) : List Bytes → List Decoded
  | [] => []
  | piece :: pieces =>
    let result := decodeChunkedForCgi d piece
    result :: decodeCalls result.decoder pieces

@[simp] theorem length_decodeCalls (d : ChunkDecoder) (pieces : List Bytes) :
    (decodeCalls d pieces).length = pieces.length := by
  induction pieces generalizing d with
  | nil => rfl
  | cons piece pieces ih => simp [decodeCalls, ih]

/-- A size line as senders write it without blanks: one to sixteen hexadecimal digits
and an optional extension. -/
structure BareSize (n : ℕ) (line : Bytes) : Prop where
  split : ∃ digits ext, line = digits ++ ext ∧ 1 ≤ digits.length ∧ digits.length ≤ 16 ∧ IsHex digits ∧
    hexValue digits = n ∧ IsLine ext ∧ (ext = [] ∨ ∃ e, ext = ascii ";" ++ e)

/-- An encoding of non-empty chunks, with trailer lines. -/
structure BareBody (body : Body) : Prop where
  chunks : ∀ k ∈ body.chunks, BareSize k.data.length k.line ∧ k.data ≠ []
  last : BareSize 0 body.last
  trailers : ∀ t ∈ body.trailers, t ≠ [] ∧ IsLine t

theorem BareSize.sizeText {n : ℕ} {line : Bytes} (h : BareSize n line) : SizeText n line := by
  obtain ⟨digits, ext, rfl, hpos, hlen, hhex, hval, hext, hshape⟩ := h.split
  have hne : digits ≠ [] := List.ne_nil_of_length_pos hpos
  exact ⟨[], digits, [], ext, by simp, by simp, by simp, hne, hhex, hlen, hval, hext, hshape⟩

theorem BareSize.plainSizeOf_eq {n : ℕ} {line : Bytes} (h : BareSize n line) : plainSizeOf line = some n := by
  obtain ⟨digits, ext, rfl, hpos, hlen, hhex, hval, -, hshape⟩ := h.split
  have hclean : (59 : UInt8) ∉ digits := by
    intro hmem
    have hdigit := hhex 59 hmem
    exact absurd hdigit (by decide)
  have hstrip : stripExtension (digits ++ ext) = digits := by
    rcases hshape with rfl | ⟨e, rfl⟩
    · rw [List.append_nil]
      exact before_eq_self hclean
    · exact before_append e hclean
  have hlt : hexValue digits < 2 ^ 64 := by
    have hbound := hexValue_lt hlen
    omega
  have hne : digits ≠ [] := List.ne_nil_of_length_pos hpos
  simp only [plainSizeOf, hstrip]
  rw [if_pos ⟨hne, hhex, hlt⟩, hval]

theorem BareBody.valid {body : Body} (h : BareBody body) : body.Valid plainSizeOf where
  chunks := by
    intro k hk
    obtain ⟨hsize, hne⟩ := h.chunks k hk
    exact ⟨hsize.sizeText.isLine, hsize.plainSizeOf_eq, hne⟩
  last_line := h.last.sizeText.isLine
  last_size := h.last.plainSizeOf_eq
  trailers := h.trailers

/-- The decoder in the middle of a body: `out` is decoded, `rest` has not come yet. -/
structure Midway (body : Body) (out rest : Bytes) (d : ChunkDecoder) : Prop where
  running : d.state ≠ .chunkDecDone
  more : rest ≠ []
  resumes : (Chunked.machine decoderSizeOf anyOutput).run ((d.config out).push rest) = bodyEnd body

theorem Midway.start {body : Body} (h : body.Valid plainSizeOf) : Midway body [] body.encode {} where
  running := by simp
  more := by
    intro hnil
    have hlen := congrArg List.length hnil
    simp [Body.encode, crlf] at hlen
  resumes := by
    have hbody := (Chunked.machine plainSizeOf anyOutput).steps_run ⟨.size, 0, [], body.encode, .running⟩
    rw [run_body h] at hbody
    have hsteps := Steps.of_accepted decoderSizeOf_of_plain hbody (Or.inr rfl)
    have hrun := hsteps.run_eq
    rw [run_bodyEnd] at hrun
    exact hrun

/-- A call with some of the rest: either more is to come, or the body has ended. -/
theorem Midway.call {body : Body} {out piece rest : Bytes} {d : ChunkDecoder}
    (h : Midway body out (piece ++ rest) d) :
    let r := decodeChunkedForCgi d piece
    r.ok = true ∧
      (r.eof = true ∧ piece ≠ [] ∧ rest = [] ∧ r.decoder.buf = [] ∧ out ++ r.decoded = body.content ∨
        r.eof = false ∧ Midway body (out ++ r.decoded) rest r.decoder) := by
  intro r
  obtain ⟨hok, hends, hmore⟩ := decode_progress h.running h.resumes
  refine ⟨hok, ?_⟩
  cases heof : r.eof with
  | true =>
    obtain ⟨hbuf, hrest, hcontent⟩ := hends heof
    have hpiece : piece ≠ [] := by
      intro hnil
      apply h.more
      rw [hnil, hrest, List.append_nil]
    exact Or.inl ⟨rfl, hpiece, hrest, hbuf, hcontent⟩
  | false =>
    obtain ⟨hrest, hrunning, hrun⟩ := hmore heof
    exact Or.inr ⟨rfl, hrunning, hrest, hrun⟩

/-- A call without new bytes on an empty buffer does nothing. -/
theorem decode_nothing {d : ChunkDecoder} (hb : d.buf = []) :
    decodeChunkedForCgi d [] = ⟨true, [], false, d⟩ := by
  rw [decodeChunkedForCgi, List.append_nil, decodeLoop, dif_pos hb]

theorem decodeCalls_nothing {d : ChunkDecoder} (hb : d.buf = []) {pieces : List Bytes}
    (hp : pieces.flatten = []) : ∀ r ∈ decodeCalls d pieces, r.ok = true ∧ r.decoded = [] ∧ r.eof = false := by
  induction pieces with
  | nil => simp [decodeCalls]
  | cons piece pieces ih =>
    rw [List.flatten_cons, List.append_eq_nil_iff] at hp
    obtain ⟨rfl, hrest⟩ := hp
    intro r hr
    rw [decodeCalls, decode_nothing hb] at hr
    rcases List.mem_cons.mp hr with rfl | hr
    · exact ⟨rfl, rfl, rfl⟩
    · exact ih hrest r hr

/-- The last byte of all the pieces is in the one at `i`. -/
def SuppliesLast (pieces : List Bytes) (i : ℕ) : Prop :=
  ∃ piece, pieces[i]? = some piece ∧ piece ≠ [] ∧ (pieces.drop (i + 1)).flatten = []

/-- The calls on the rest of a body finish it, and say so in the right place. -/
theorem Midway.calls {body : Body} {out : Bytes} {d : ChunkDecoder} {pieces : List Bytes}
    (h : Midway body out pieces.flatten d) :
    (∀ r ∈ decodeCalls d pieces, r.ok = true) ∧
    out ++ ((decodeCalls d pieces).map Decoded.decoded).flatten = body.content ∧
    ∀ i, (∃ r, (decodeCalls d pieces)[i]? = some r ∧ r.eof = true) ↔ SuppliesLast pieces i := by
  induction pieces generalizing out d with
  | nil => exact absurd rfl h.more
  | cons piece pieces ih =>
    have hhere : Midway body out (piece ++ pieces.flatten) d := h
    obtain ⟨hok, hend | hgo⟩ := hhere.call
    · obtain ⟨heof, hpiece, hrest, hbuf, hcontent⟩ := hend
      have hidle := decodeCalls_nothing hbuf hrest
      have hsilent : ((decodeCalls (decodeChunkedForCgi d piece).decoder pieces).map
          Decoded.decoded).flatten = [] := by
        simp only [List.flatten_eq_nil_iff, List.mem_map]
        rintro x ⟨r, hr, rfl⟩
        exact (hidle r hr).2.1
      refine ⟨?_, ?_, ?_⟩
      · intro r hr
        rcases List.mem_cons.mp hr with rfl | hr
        · exact hok
        · exact (hidle r hr).1
      · rw [decodeCalls, List.map_cons, List.flatten_cons, hsilent, List.append_nil, hcontent]
      · intro i
        cases i with
        | zero => simp [decodeCalls, SuppliesLast, heof, hpiece, hrest]
        | succ i =>
          constructor
          · rintro ⟨r, hr, hre⟩
            have hmem := List.mem_of_getElem? (show (decodeCalls _ pieces)[i]? = some r from hr)
            have hno := (hidle r hmem).2.2
            rw [hno] at hre
            cases hre
          · rintro ⟨p, hp, hne, -⟩
            have hmem := List.mem_of_getElem? (show pieces[i]? = some p from hp)
            exact absurd (List.flatten_eq_nil_iff.mp hrest p hmem) hne
    · obtain ⟨heof, hnext⟩ := hgo
      obtain ⟨hoks, hout, hlast⟩ := ih hnext
      refine ⟨?_, ?_, ?_⟩
      · intro r hr
        rcases List.mem_cons.mp hr with rfl | hr
        · exact hok
        · exact hoks r hr
      · rw [decodeCalls, List.map_cons, List.flatten_cons, ← List.append_assoc]
        exact hout
      · intro i
        cases i with
        | zero => simp [decodeCalls, SuppliesLast, heof, hnext.more]
        | succ i => exact hlast i

/-- However an encoded body is cut into calls from the initial state, no call fails, together
they decode its chunks, and the end is announced by exactly the call with the last byte. -/
theorem decodeCalls_body (body : Body) (pieces : List Bytes) (hbody : BareBody body)
    (hcut : pieces.flatten = body.encode) :
    (∀ r ∈ decodeCalls (initCgiChunkDecoder 0 0) pieces, r.ok = true) ∧
    ((decodeCalls (initCgiChunkDecoder 0 0) pieces).map Decoded.decoded).flatten =
      (body.chunks.map Chunk.data).flatten ∧
    ∀ i, (∃ r, (decodeCalls (initCgiChunkDecoder 0 0) pieces)[i]? = some r ∧ r.eof = true) ↔
      SuppliesLast pieces i := by
  have hstart := Midway.start hbody.valid
  rw [← hcut] at hstart
  exact hstart.calls

/-- Cut inside a line end and inside a block of data, with an extension and a trailer. -/
theorem decodeCalls_body_cut :
    let body : Body := ⟨[⟨ascii "3;a=b", ascii "xyz"⟩], ascii "00", [ascii "t: 1"]⟩
    let pieces := [ascii "3;a=b\r", ascii "\nxy", [], ascii "z\r\n00\r\nt: 1\r\n\r", ascii "\n", []]
    (∀ r ∈ decodeCalls (initCgiChunkDecoder 0 0) pieces, r.ok = true) ∧
    ((decodeCalls (initCgiChunkDecoder 0 0) pieces).map Decoded.decoded).flatten =
      (body.chunks.map Chunk.data).flatten ∧
    ∀ i, (∃ r, (decodeCalls (initCgiChunkDecoder 0 0) pieces)[i]? = some r ∧ r.eof = true) ↔
      SuppliesLast pieces i := by
  intro body pieces
  have hsize : BareSize 3 (ascii "3;a=b") :=
    ⟨ascii "3", ascii ";a=b", by decide, by decide, by decide, by decide +kernel, by decide, by decide,
      Or.inr ⟨ascii "a=b", by decide⟩⟩
  have hlast : BareSize 0 (ascii "00") :=
    ⟨ascii "00", [], by decide, by decide, by decide, by decide +kernel, by decide, by decide, Or.inl rfl⟩
  have hbody : BareBody body := by
    refine ⟨?_, hlast, ?_⟩
    · intro k hk
      obtain rfl := List.mem_singleton.mp hk
      exact ⟨hsize, by decide⟩
    · intro t ht
      obtain rfl := List.mem_singleton.mp ht
      exact ⟨by decide, by decide⟩
  exact decodeCalls_body body pieces hbody (by decide)

end WebServ.Client
