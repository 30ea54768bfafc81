import WebServ.Http.Head
import WebServ.Lib.FieldMap

/-! # The grammar of a head

A request line with three texts, header lines with a colon, and an empty line: the
header phase of the parser takes these byte strings and no others. A name that
occurs on several lines has the value of the last one.
-/
namespace WebServ
open Search Chunked FieldMap

abbrev space : UInt8 := 32
abbrev colon : UInt8 := 58

theorem ascii_space : ascii " " = [space] := by decide
theorem ascii_colon : ascii ":" = [colon] := by decide

/-- The text of a header line before its first colon. -/
def fieldName (field : Bytes) : Bytes := field.takeWhile (· ≠ colon)

/-- The text behind the first colon without the blanks around it. -/
def fieldValue (field : Bytes) : Bytes :=
  ((field.dropWhile (· ≠ colon)).tail.dropWhile (· ∈ blanks)).rdropWhile (· ∈ blanks)

/-- A line with a name and a value. -/
structure IsField (field : Bytes) : Prop where
  nonempty : field ≠ []
  line : IsLine field
  colon : colon ∈ field

/-- The head of a message: three texts and the header lines. -/
structure MessageHead where
  method : Bytes
  target : Bytes
  protocol : Bytes
  fields : List Bytes

namespace MessageHead

def requestLine (h : MessageHead) : Bytes := h.method ++ space :: (h.target ++ space :: h.protocol)

def encode (h : MessageHead) : Bytes :=
  h.requestLine ++ crlf ++ (h.fields.flatMap (· ++ crlf) ++ crlf)

/-- The texts are not empty, the first two without a space, and every line is one. -/
structure Valid (h : MessageHead) : Prop where
  line : IsLine h.requestLine
  method : h.method ≠ [] ∧ space ∉ h.method
  target : h.target ≠ [] ∧ space ∉ h.target
  protocol : h.protocol ≠ []
  fields : ∀ field ∈ h.fields, IsField field

/-- The value of the last line with this name, in any case of its letters. -/
def value (h : MessageHead) (key : Bytes) : Bytes :=
  ((h.fields.reverse.find? (fun field => (fieldName field).map toLower = key.map toLower)).map
    fieldValue).getD []

end MessageHead

namespace HTTPRequest

/-- What one header line adds to the headers. -/
def storeField (headers : Headers) (field : Bytes) : Headers :=
  headers.insert ((fieldName field).map toLower) (fieldValue field)

theorem find_colon {field : Bytes} (h : colon ∈ field) :
    ∃ pos, find (ascii ":") field = some pos ∧ ∀ r : HTTPRequest,
      storeHeader r (field.take pos) (field.drop (pos + 1)) =
        { r with headers := storeField r.headers field } := by
  obtain ⟨hfind, htake, hdrop⟩ := find_singleton_of_mem h
  refine ⟨_, ascii_colon ▸ hfind, ?_⟩
  intro r
  rw [storeHeader, htake, hdrop, trim_getD]
  rfl

/-- The lookup after the lines were stored one after the other. -/
theorem getElem?_storeFields (fields : List Bytes) (headers : Headers) (key : Bytes) :
    (fields.foldl storeField headers)[key]? =
      ((fields.reverse.find? (fun field => (fieldName field).map toLower = key)).map fieldValue).or
        headers[key]? := by
  have hstore : fields.foldl storeField headers =
      storeAll (fields.map fun field => ((fieldName field).map toLower, fieldValue field)) headers := by
    rw [storeAll, List.foldl_map]
    rfl
  rw [hstore, getElem?_storeAll, lastOf, ← List.map_reverse, List.find?_map, Option.map_map]
  rfl

/-! ## The request line -/

theorem parseRequestLine_encode {m t p : Bytes} (hm : m ≠ [] ∧ space ∉ m) (ht : t ≠ [] ∧ space ∉ t)
    (hp : p ≠ []) (hline : IsLine (m ++ space :: (t ++ space :: p))) (rest : Bytes) {r : HTTPRequest}
    (hbuf : r.buffer = m ++ space :: (t ++ space :: p) ++ crlf ++ rest) :
    r.parseRequestLine =
      (true, { r with buffer := rest, method := m, requestTarget := t, protocol := p }) := by
  have hcut : cutLine crlf r.buffer = some (m ++ space :: (t ++ space :: p), rest) := by
    rw [hbuf]
    exact cutLine_crlf rest hline
  have hfirst : find (ascii " ") (m ++ space :: (t ++ space :: p)) = some m.length := by
    rw [ascii_space]
    exact find_singleton_append _ hm.2
  have hdrop : (m ++ space :: (t ++ space :: p)).drop (m.length + 1) = t ++ space :: p := by
    rw [List.drop_append]
    simp
  have hsecond : findFrom (ascii " ") (m ++ space :: (t ++ space :: p)) (m.length + 1) =
      some (t.length + (m.length + 1)) := by
    rw [findFrom, hdrop, ascii_space, find_singleton_append _ ht.2, Option.map_some]
  have hprotocol : (m ++ space :: (t ++ space :: p)).drop (t.length + (m.length + 1) + 1) = p := by
    rw [show t.length + (m.length + 1) + 1 = (m.length + 1) + (t.length + 1) by omega, ← List.drop_drop,
      hdrop, List.drop_append]
    simp
  have hsize : t.length + (m.length + 1) - m.length - 1 = t.length := by omega
  simp only [parseRequestLine, hcut, hfirst, hsecond, hdrop, hprotocol, hsize, List.take_left, hm.1, ht.1, hp,
    or_self, if_false]

/-- A request line that is accepted has the three texts it is split into. -/
theorem parseRequestLine_sound {r r' : HTTPRequest} (h : r.parseRequestLine = (true, r')) :
    ∃ m t p rest, (m ≠ [] ∧ space ∉ m) ∧ (t ≠ [] ∧ space ∉ t) ∧ p ≠ [] ∧
      IsLine (m ++ space :: (t ++ space :: p)) ∧
      r.buffer = m ++ space :: (t ++ space :: p) ++ crlf ++ rest := by
  unfold parseRequestLine at h
  cases hcut : cutLine crlf r.buffer with
  | none => simp [hcut] at h
  | some cut =>
    obtain ⟨line, rest⟩ := cut
    have hbuf := cutLine_eq_some hcut
    have hline : IsLine line := cutLine_no_eol hcut crlf_ne_nil
    simp only [hcut] at h
    cases hfirst : find (ascii " ") line with
    | none => simp [hfirst] at h
    | some first =>
      simp only [hfirst] at h
      rw [ascii_space] at hfirst
      obtain ⟨m, u, rfl, hm, rfl⟩ := find_singleton_eq_some hfirst
      have hu : (m ++ space :: u).drop (m.length + 1) = u := by
        rw [List.drop_append]
        simp
      cases hsecond : findFrom (ascii " ") (m ++ space :: u) (m.length + 1) with
      | none => simp [hsecond] at h
      | some second =>
        simp only [hsecond] at h
        rw [findFrom, hu, ascii_space] at hsecond
        obtain ⟨pos, hpos, rfl⟩ := Option.map_eq_some_iff.mp hsecond
        obtain ⟨t, p, rfl, ht, rfl⟩ := find_singleton_eq_some hpos
        have hp : (m ++ space :: (t ++ space :: p)).drop (t.length + (m.length + 1) + 1) = p := by
          rw [show t.length + (m.length + 1) + 1 = (m.length + 1) + (t.length + 1) by omega,
            ← List.drop_drop, hu, List.drop_append]
          simp
        have hsize : t.length + (m.length + 1) - m.length - 1 = t.length := by omega
        simp only [hu, hp, hsize, List.take_left] at h
        split at h
        · cases h
        · next hne =>
          rw [not_or, not_or] at hne
          exact ⟨m, t, p, rest, ⟨hne.1, hm⟩, ⟨hne.2.1, ht⟩, hne.2.2, hline, hbuf⟩

/-! ## The header lines -/

theorem parseHeaders_encode {fields : List Bytes} (hf : ∀ field ∈ fields, IsField field) (rest : Bytes)
    {r : HTTPRequest} (hbuf : r.buffer = fields.flatMap (· ++ crlf) ++ crlf ++ rest) :
    r.parseHeaders =
      (true, { r with buffer := rest, headers := fields.foldl storeField r.headers }) := by
  induction fields generalizing r with
  | nil =>
    have hcut : cutLine crlf r.buffer = some ([], rest) := by
      rw [hbuf]
      exact cutLine_crlf (l := []) rest (by simp [IsLine, crlf])
    unfold parseHeaders
    split
    · next he =>
      rw [hcut] at he
      cases he
    · next he =>
      rw [hcut] at he
      cases he
      rfl
  | cons field fields ih =>
    have hfield := hf field (by simp)
    have hcut : cutLine crlf r.buffer = some (field, fields.flatMap (· ++ crlf) ++ crlf ++ rest) := by
      rw [hbuf]
      simpa [List.append_assoc] using
        cutLine_crlf (fields.flatMap (· ++ crlf) ++ crlf ++ rest) hfield.line
    obtain ⟨pos, hpos, hstore⟩ := find_colon hfield.colon
    unfold parseHeaders
    split
    · next he =>
      rw [hcut] at he
      cases he
    · next he =>
      rw [hcut] at he
      cases he
      rw [if_neg hfield.nonempty, hpos]
      dsimp only
      rw [hstore, ih (fun f hmem => hf f (by simp [hmem])) rfl]
      rfl

theorem parseHeaders_sound {r r' : HTTPRequest} (h : r.parseHeaders = (true, r')) :
    ∃ (fields : List Bytes) (rest : Bytes), (∀ field ∈ fields, IsField field) ∧
      r.buffer = fields.flatMap (· ++ crlf) ++ crlf ++ rest := by
  fun_induction parseHeaders r with
  | case1 r hcut => cases h
  | case2 r rest hcut =>
    refine ⟨[], rest, by simp, ?_⟩
    simpa using cutLine_eq_some hcut
  | case3 r line rest hcut hl hf => cases h
  | case4 r line rest hcut hl pos hf ih =>
    obtain ⟨fields, tail, hfields, hrest⟩ := ih h
    have hfield : IsField line := by
      refine ⟨hl, cutLine_no_eol hcut crlf_ne_nil, ?_⟩
      rw [ascii_colon] at hf
      obtain ⟨name, value, rfl, -, -⟩ := find_singleton_eq_some hf
      simp
    refine ⟨line :: fields, tail, ?_, ?_⟩
    · intro field hmem
      rcases List.mem_cons.mp hmem with rfl | hmem
      · exact hfield
      · exact hfields field hmem
    · have hline := cutLine_eq_some hcut
      change rest = _ at hrest
      rw [hline, hrest]
      simp [List.append_assoc]

/-! ## The head -/

theorem parseHead_encode {h : MessageHead} (hv : h.Valid) (rest : Bytes) {r : HTTPRequest}
    (hbuf : r.buffer = h.encode ++ rest) :
    parseHead r = some { r with
      buffer := rest
      state := .parssingHeaders
      method := h.method
      requestTarget := h.target
      protocol := h.protocol
      headers := h.fields.foldl storeField r.headers } := by
  have hline := parseRequestLine_encode hv.method hv.target hv.protocol hv.line
    (h.fields.flatMap (· ++ crlf) ++ crlf ++ rest) (r := r) (by
      rw [hbuf, MessageHead.encode, MessageHead.requestLine]
      simp [List.append_assoc])
  have hheaders := fun r' => parseHeaders_encode (r := r') hv.fields rest
  rw [parseHead, hline]
  dsimp only
  rw [hheaders _ rfl]

/-- A head that is read is one of the grammar. -/
theorem parseHead_sound {r r' : HTTPRequest} (h : parseHead r = some r') :
    ∃ head : MessageHead, head.Valid ∧ ∃ rest, r.buffer = head.encode ++ rest := by
  obtain ⟨r1, hline, hhead⟩ := parseHead_eq_some h
  obtain ⟨m, t, p, rest, hm, ht, hp, hl, hbuf⟩ := parseRequestLine_sound hline
  have hr1 := parseRequestLine_encode hm ht hp hl rest hbuf
  rw [hline] at hr1
  obtain ⟨fields, tail, hfields, hrest⟩ := parseHeaders_sound hhead
  have hb1 : r1.buffer = rest := congrArg (fun q => q.2.buffer) hr1
  refine ⟨⟨m, t, p, fields⟩, ⟨hl, hm, ht, hp, hfields⟩, tail, ?_⟩
  change r1.buffer = _ at hrest
  rw [hbuf, ← hb1, hrest, MessageHead.encode, MessageHead.requestLine]
  simp [List.append_assoc]

/-! ## The body phase keeps the head -/

/-- What was read from the head, and the limit that was set before. -/
structure SameHead (r r' : HTTPRequest) : Prop where
  method : r'.method = r.method
  requestTarget : r'.requestTarget = r.requestTarget
  protocol : r'.protocol = r.protocol
  headers : r'.headers = r.headers
  maxBodySize : r'.maxBodySize = r.maxBodySize

theorem SameHead.trans {r s t : HTTPRequest} (h : SameHead r s) (h' : SameHead s t) : SameHead r t :=
  ⟨h'.method.trans h.method, h'.requestTarget.trans h.requestTarget, h'.protocol.trans h.protocol,
    h'.headers.trans h.headers, h'.maxBodySize.trans h.maxBodySize⟩

/-- Past the header phase. -/
def InBody (r : HTTPRequest) : Prop := r.state = .parssingBody ∨ r.Terminal

theorem InBody.step {r r' : HTTPRequest} (h : r.InBody) (hstep : r.step = some r') :
    r'.InBody ∧ SameHead r r' := by
  have hs : r.state = .parssingBody := by
    rcases h with hs | ht
    · exact hs
    · exact absurd ht (not_terminal_of_step hstep)
  simp only [HTTPRequest.step, hs] at hstep
  split at hstep
  · obtain ⟨c, -, rfl⟩ := Option.map_eq_some_iff.mp hstep
    refine ⟨?_, rfl, rfl, rfl, rfl, rfl⟩
    cases hc : c.status <;> simp [InBody, Terminal, withChunk, ofStatus, hc]
  · unfold lengthStep at hstep
    split at hstep
    · cases hstep
      exact ⟨Or.inr (Or.inl rfl), rfl, rfl, rfl, rfl, rfl⟩
    · split at hstep
      · cases hstep
        exact ⟨Or.inr (Or.inr rfl), rfl, rfl, rfl, rfl, rfl⟩
      · split at hstep
        · cases hstep
          exact ⟨Or.inr (Or.inl rfl), rfl, rfl, rfl, rfl, rfl⟩
        · split at hstep
          · cases hstep
          · cases hstep
            exact ⟨Or.inl hs, rfl, rfl, rfl, rfl, rfl⟩

theorem InBody.steps {r r' : HTTPRequest} (h : r.InBody) (hsteps : machine.Steps r r') :
    r'.InBody ∧ SameHead r r' := by
  induction hsteps with
  | refl => exact ⟨h, rfl, rfl, rfl, rfl, rfl⟩
  | tail _ hstep ih =>
    obtain ⟨hbody, hsame⟩ := ih.1.step hstep
    exact ⟨hbody, ih.2.trans hsame⟩

theorem endHeaders_inBody (r : HTTPRequest) : r.endHeaders.isHeadersDone ∧ r.endHeaders.InBody ∧
    SameHead r r.endHeaders := by
  unfold endHeaders
  split
  · exact ⟨by simp [isHeadersDone], Or.inl rfl, rfl, rfl, rfl, rfl, rfl⟩
  · exact ⟨by simp [isHeadersDone], Or.inr (Or.inl rfl), rfl, rfl, rfl, rfl, rfl⟩

theorem parseRequestLine_not_done {r : HTTPRequest} (h : r.isHeadersDone = false) :
    r.parseRequestLine.2.isHeadersDone = false := by
  unfold parseRequestLine
  split
  · exact h
  · dsimp only
    split
    · rfl
    · split
      · rfl
      · split
        · rfl
        · exact h

theorem parseHeaders_not_done {r : HTTPRequest} (h : r.isHeadersDone = false) :
    r.parseHeaders.2.isHeadersDone = false := by
  fun_induction parseHeaders r with
  | case1 r hcut => exact h
  | case2 r rest hcut => exact h
  | case3 r line rest hcut hl hf => rfl
  | case4 r line rest hcut hl pos hf ih => exact ih h

theorem parseLoop_requestLine {r : HTTPRequest} (hs : r.state = .parssingRequestLine) :
    r.parseLoop = if r.parseRequestLine.1 then
      parseLoop { r.parseRequestLine.2 with state := .parssingHeaders } else (false, r.parseRequestLine.2) := by
  rw [parseLoop]
  split
  · split <;> next he => simp [he]
  all_goals next h => rw [hs] at h; cases h

theorem parseLoop_headers {r : HTTPRequest} (hs : r.state = .parssingHeaders) :
    r.parseLoop = if r.parseHeaders.1 then r.parseHeaders.2.endHeaders.parseLoop
      else (false, r.parseHeaders.2) := by
  rw [parseLoop]
  split
  · next h => rw [hs] at h; cases h
  · split
    · next he => simp [he]
    · next he =>
      simp only [he, endHeaders, if_true]
      split <;> rfl
  all_goals next h => rw [hs] at h; cases h

/-- The main loop is the header phase and, when that succeeds, the phase of the body. -/
theorem parseLoop_eq {r : HTTPRequest} (hs : r.state = .parssingRequestLine) :
    (∀ r', parseHead r = some r' → r.parseLoop = r'.endHeaders.parseLoop) ∧
      (parseHead r = none → r.parseLoop.2.isHeadersDone = false) := by
  have hline := parseRequestLine_not_done (r := r) (by simp [isHeadersDone, hs])
  rw [parseLoop_requestLine hs]
  unfold parseHead
  rcases he : r.parseRequestLine with ⟨_ | _, r1⟩
  · rw [he] at hline
    exact ⟨by simp, fun _ => hline⟩
  · have hheaders := parseHeaders_not_done (r := { r1 with state := .parssingHeaders }) (by rfl)
    simp only [if_true]
    rw [parseLoop_headers rfl]
    rcases he2 : parseHeaders { r1 with state := .parssingHeaders } with ⟨_ | _, r2⟩
    · rw [he2] at hheaders
      exact ⟨by simp, fun _ => hheaders⟩
    · refine ⟨?_, by simp⟩
      intro r' h
      cases h
      rfl

/-- A head that is read decides the head of the request, under the limit that was set. -/
theorem parse_of_head {limit : ℕ} {input : Bytes} {r : HTTPRequest}
    (h : parseHead ((fresh limit).push input) = some r) :
    ((fresh limit).parse input).2.maxBodySize = limit ∧ SameHead r ((fresh limit).parse input).2 ∧
      machine.Steps r.endHeaders ((fresh limit).parse input).2 := by
  have hsteps : machine.Steps r.endHeaders ((fresh limit).parse input).2 := by
    rw [parse_eq_feed]
    have hend := (parseHead_steps (r := (fresh limit).push input) rfl h).run_eq
    rw [Machine.feed, show machine.push (fresh limit) input = (fresh limit).push input from rfl, hend]
    exact machine.steps_run _
  obtain ⟨-, hbody, hsame⟩ := endHeaders_inBody r
  have hall := hsame.trans (hbody.steps hsteps).2
  obtain ⟨-, hfresh, -⟩ := parseHead_split h
  exact ⟨hall.maxBodySize.trans hfresh.maxBodySize, hall, hsteps⟩

/-- The head and the lookup that a fresh request ends with. -/
theorem parse_encode (limit : ℕ) {head : MessageHead} (hv : head.Valid) (rest : Bytes) :
    ∃ r, parseHead ((fresh limit).push (head.encode ++ rest)) = some r ∧
      SameHead r ((fresh limit).parse (head.encode ++ rest)).2 ∧ r.method = head.method ∧
      r.requestTarget = head.target ∧ r.protocol = head.protocol ∧
      ∀ key, r.getHeaderValue key = head.value key := by
  have hhead := parseHead_encode hv rest (r := (fresh limit).push (head.encode ++ rest)) rfl
  obtain ⟨-, hsame, -⟩ := parse_of_head hhead
  refine ⟨_, hhead, hsame, rfl, rfl, rfl, ?_⟩
  intro key
  rw [getHeaderValue, getElem?_storeFields, MessageHead.value]
  change ((_ : Option Bytes).or (∅ : Headers)[key.map toLower]?).getD [] = _
  simp

/-- A head is found exactly where the grammar has one. -/
theorem parseHead_isSome_iff (limit : ℕ) (input : Bytes) : (parseHead ((fresh limit).push input)).isSome ↔
    ∃ head : MessageHead, head.Valid ∧ ∃ rest, input = head.encode ++ rest := by
  constructor
  · intro h
    obtain ⟨r, hr⟩ := Option.isSome_iff_exists.mp h
    exact parseHead_sound hr
  · rintro ⟨head, hv, rest, rfl⟩
    obtain ⟨r, hr, -⟩ := parse_encode limit hv rest
    rw [hr]
    rfl

theorem not_headersDone {limit : ℕ} {input : Bytes} (h : parseHead ((fresh limit).push input) = none) :
    ((fresh limit).parse input).2.isHeadersDone = false :=
  (parseLoop_eq (r := (fresh limit).push input) rfl).2 h

/-- What the parser knows of a head that stands in front. -/
theorem parsed_encode (limit : ℕ) {head : MessageHead} (hv : head.Valid) (rest : Bytes) :
    ((fresh limit).parse (head.encode ++ rest)).2.method = head.method ∧
    ((fresh limit).parse (head.encode ++ rest)).2.requestTarget = head.target ∧
    ((fresh limit).parse (head.encode ++ rest)).2.protocol = head.protocol ∧
    ∀ key, ((fresh limit).parse (head.encode ++ rest)).2.getHeaderValue key = head.value key := by
  obtain ⟨r, -, hsame, hm, ht, hp, hvalue⟩ := parse_encode limit hv rest
  refine ⟨hsame.method.trans hm, hsame.requestTarget.trans ht, hsame.protocol.trans hp, ?_⟩
  intro key
  rw [← hvalue key]
  simp only [getHeaderValue, hsame.headers]

/-- The parser gets past the header phase exactly on what the grammar describes, and
then it knows the three texts and the value of the last line of each name. -/
theorem head_grammar (limit : ℕ) (input : Bytes) :
    ((parseHead ((fresh limit).push input)).isSome ↔
      ∃ head : MessageHead, head.Valid ∧ ∃ rest, input = head.encode ++ rest) ∧
    (∀ r, parseHead ((fresh limit).push input) = some r →
      r.endHeaders.isHeadersDone ∧ (fresh limit).parse input = r.endHeaders.parseLoop) ∧
    (parseHead ((fresh limit).push input) = none →
      ((fresh limit).parse input).2.isHeadersDone = false) ∧
    ∀ (head : MessageHead) (rest : Bytes), head.Valid → input = head.encode ++ rest →
      ((fresh limit).parse input).2.method = head.method ∧
      ((fresh limit).parse input).2.requestTarget = head.target ∧
      ((fresh limit).parse input).2.protocol = head.protocol ∧
      ∀ key, ((fresh limit).parse input).2.getHeaderValue key = head.value key := by
  refine ⟨parseHead_isSome_iff limit input, ?_, not_headersDone, ?_⟩
  · intro r hr
    exact ⟨(endHeaders_inBody r).1, (parseLoop_eq (r := (fresh limit).push input) rfl).1 r hr⟩
  · rintro head rest hv rfl
    exact parsed_encode limit hv rest

end HTTPRequest
end WebServ
