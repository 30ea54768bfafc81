import WebServ.Http.CgiFields
import WebServ.Server.ScriptOutput

/-! # Responses made from the output of scripts

The output of a script is its header section, an empty line, and the body. The server
looks for an empty line that ends with CRLF first, wherever it is; it stores the fields
of the header section in a map and adds the length of the body to it. What a client
receives is compared here with what the script wrote.
-/
namespace WebServ
open Search World HTTPHandler HTTPResponse FieldMap

/-! ## The empty line -/

abbrev crlfBlank : Bytes := ascii "\r\n\r\n"
abbrev lfBlank : Bytes := ascii "\n\n"

/-- Header section and body, cut at the first empty line of either kind. -/
def firstBlankLine (output : Bytes) : Option (Bytes × Bytes) :=
  match find crlfBlank output, find lfBlank output with
  | some i, some j =>
    if i < j then some (output.take i, output.drop (i + 4)) else some (output.take j, output.drop (j + 2))
  | some i, none => some (output.take i, output.drop (i + 4))
  | none, some j => some (output.take j, output.drop (j + 2))
  | none, none => none

/-- No empty line of bare newlines stands before the first one with CRLF. -/
def CrlfFirst (output : Bytes) : Prop :=
  ∀ i j, find crlfBlank output = some i → find lfBlank output = some j → i < j

/-- The cut that the server makes. -/
def cgiSplit (output : Bytes) : Option (Bytes × Bytes) := (cutLine crlfBlank output).or (cutLine lfBlank output)

section
variable {raw headerSection body : Bytes} (fs : FileSystem) (server : ServerConfig)

theorem parseCgiResponse_split (h : cgiSplit raw = some (headerSection, body)) :
    parseCgiResponse fs raw server = some ((parseCgiHeaders headerSection).setBody body) := by
  unfold parseCgiResponse
  unfold cgiSplit at h
  cases hcrlf : cutLine crlfBlank raw with
  | some p =>
    rw [hcrlf, Option.some_or] at h
    obtain rfl := Option.some.inj h
    rfl
  | none =>
    rw [hcrlf, Option.none_or] at h
    simp only [h]

/-- The cut is at the first empty line, or behind it, where less is left. -/
theorem cgiSplit_of_first (h : firstBlankLine raw = some (headerSection, body)) :
    CrlfFirst raw ∧ cgiSplit raw = some (headerSection, body) ∨
      ¬ CrlfFirst raw ∧ ∃ headerSection' body', cutLine crlfBlank raw = some (headerSection', body') ∧
        cgiSplit raw = some (headerSection', body') ∧ body'.length < body.length := by
  have hfour : crlfBlank.length = 4 := by decide
  have htwo : lfBlank.length = 2 := by decide
  unfold firstBlankLine at h
  unfold cgiSplit cutLine
  cases hi : find crlfBlank raw with
  | none =>
    left
    refine ⟨by simp [CrlfFirst, hi], ?_⟩
    cases hj : find lfBlank raw with
    | none => simp [hi, hj] at h
    | some j => simpa [hi, hj, htwo] using h
  | some i =>
    cases hj : find lfBlank raw with
    | none =>
      left
      refine ⟨by simp [CrlfFirst, hj], ?_⟩
      simpa [hi, hj, hfour] using h
    | some j =>
      simp only [hi, hj] at h
      by_cases hlt : i < j
      · left
        refine ⟨?_, ?_⟩
        · intro i' j' hi' hj'
          obtain rfl := Option.some.inj (hi.symm.trans hi')
          obtain rfl := Option.some.inj (hj.symm.trans hj')
          exact hlt
        · simpa [hlt, hfour] using h
      · right
        have hlen := find_add_length_le hi
        refine ⟨fun hfirst => hlt (hfirst i j hi hj), raw.take i, raw.drop (i + 4), by simp [hfour], by simp [hfour], ?_⟩
        rw [if_neg hlt, Option.some.injEq, Prod.mk.injEq] at h
        rw [← h.2, List.length_drop, List.length_drop]
        omega

end

theorem closing_printable {r : HTTPResponse} (h : r.Printable) : (closing r).Printable :=
  h.setHeader (by decide) (by decide)

/-- What follows the head of a streamed response can be told from it. -/
theorem headLines_cgiHead (headerSection rest : Bytes) : (headLines (cgiHead headerSection ++ rest)).2 = rest := by
  rw [cgiHead, (closing_printable (parseCgiHeaders_printable headerSection)).headLines rest]

/-- The output of a script is cut at its first empty line, in a response made from the whole
of it and in one that is streamed as it is read, exactly when no empty line of bare
newlines comes before the first one with CRLF. -/
theorem output_split_iff (raw headerSection body : Bytes)
    (hfirst : firstBlankLine raw = some (headerSection, body)) :
    (∀ fs server, parseCgiResponse fs raw server = some ((parseCgiHeaders headerSection).setBody body) ↔
      CrlfFirst raw) ∧
    ∀ s, Reachable s → ∀ c client, s.world.getClient c = some client → client.cgiActive = true →
      client.cgiHeadersSent = true → scriptOutput (s.world.history c) = raw →
      (scriptSent (s.world.history c) ++ client.cgiSendPending.pending = cgiHead headerSection ++ body ↔
        CrlfFirst raw) := by
  constructor
  · intro fs server
    rcases cgiSplit_of_first hfirst with ⟨hcrlf, hsplit⟩ | ⟨hcrlf, headerSection', body', -, hsplit, hlt⟩
    · exact iff_of_true (parseCgiResponse_split fs server hsplit) hcrlf
    · refine iff_of_false ?_ hcrlf
      rw [parseCgiResponse_split fs server hsplit]
      intro heq
      have hbody : body' = body := congrArg HTTPResponse.body (Option.some.inj heq)
      rw [hbody] at hlt
      exact lt_irrefl _ hlt
  · intro s hs c client hg ha hsent houtput
    have hstream := (hs.outputKept c).streaming client hg ha
    obtain ⟨headerPart, rest, hcut, hbytes⟩ := (streaming_iff_of_sent hsent).mp hstream
    rw [houtput] at hcut
    rw [hbytes]
    rcases cgiSplit_of_first hfirst with ⟨hcrlf, hsplit⟩ | ⟨hcrlf, headerSection', body', hcut', -, hlt⟩
    · rw [cgiSplit, hcut, Option.some_or, Option.some.injEq, Prod.mk.injEq] at hsplit
      refine iff_of_true ?_ hcrlf
      rw [hsplit.1, hsplit.2]
    · refine iff_of_false ?_ hcrlf
      intro heq
      have hrest := congrArg (fun text => (headLines text).2) heq
      simp only [headLines_cgiHead] at hrest
      rw [hcut, Option.some.injEq, Prod.mk.injEq] at hcut'
      rw [← hcut'.2, hrest] at hlt
      exact lt_irrefl _ hlt

/-- A script whose header is read in two pieces, and whose body begins behind it. -/
def streamedOutput : List Answers :=
  connects ++ sends 3 (ascii "GET /a.py HTTP/1.1\r\n\r\n") ++
    pass 3 [{}, {}, { pollin := true }] { reads := [.data (ascii "A: b\r\n"), .data (ascii "\r\nh\n\ni")] }

theorem output_split_iff_streamed :
    (parseCgiResponse {} (ascii "A: b\n\nhi") {} = some ((parseCgiHeaders (ascii "A: b")).setBody (ascii "hi")) ↔
      CrlfFirst (ascii "A: b\n\nhi")) ∧
    ∃ client, (scriptStart.run streamedOutput).world.getClient 4 = some client ∧
      (scriptSent ((scriptStart.run streamedOutput).world.history 4) ++ client.cgiSendPending.pending =
          cgiHead (ascii "A: b") ++ ascii "h\n\ni" ↔
        CrlfFirst (ascii "A: b\r\n\r\nh\n\ni")) := by
  refine ⟨(output_split_iff _ _ _ (by decide +kernel)).1 {} {}, ?_⟩
  have hrun : ((scriptStart.run streamedOutput).world.getClient 4).any
      (fun client => client.cgiActive && client.cgiHeadersSent) = true := by decide +kernel
  obtain ⟨client, hg, hprop⟩ := (Option.any_eq_true _ _).mp hrun
  rw [Bool.and_eq_true] at hprop
  exact ⟨client, hg, (output_split_iff _ _ _ (by decide +kernel)).2 _ (scriptStart_reachable streamedOutput) 4 client
    hg hprop.1 hprop.2 (by decide +kernel)⟩

/-- A body that holds an empty line with CRLF loses what stands before it to the header. -/
theorem body_taken_as_header : ¬ ∀ fs raw server headerSection body,
    firstBlankLine raw = some (headerSection, body) →
    parseCgiResponse fs raw server = some ((parseCgiHeaders headerSection).setBody body) := by
  intro h
  have hresponse := h {} (ascii "A: b\n\nx: y\r\n\r\nz") {} (ascii "A: b") (ascii "x: y\r\n\r\nz") (by decide +kernel)
  have hbody := congrArg (Option.map HTTPResponse.body) hresponse
  revert hbody
  decide +kernel

/-! ## The length -/

/-- The header lines that announce a length. -/
def lengthLines (text : Bytes) : List Bytes :=
  (headerLines text).filter (fun line => (before (ascii ":") line).map toLower = ascii "content-length")

/-- A header that announces a length. -/
abbrev IsLength (name : Bytes) : Prop := name.map toLower = ascii "content-length"

theorem IsLength.colon {name : Bytes} (h : IsLength name) : 58 ∉ name := by
  intro hm
  have hcolon : toLower 58 ∈ name.map toLower := List.mem_map_of_mem hm
  rw [h] at hcolon
  revert hcolon
  decide

theorem IsLength.ne_status {name : Bytes} (h : IsLength name) : name ≠ ascii "Status" := by
  rintro rfl
  revert h
  decide

theorem isLength_own : IsLength (ascii "Content-Length") := by decide

theorem before_headerField {p : Bytes × Bytes} (hp : 58 ∉ p.1) : before (ascii ":") (headerField p) = p.1 := by
  have hcolon : ascii ":" = [58] := by decide
  have hfield : headerField p = p.1 ++ 58 :: (32 :: p.2) := by
    simp [headerField, show ascii ": " = [58, 32] by decide]
  rw [hcolon, hfield, before_append _ hp]

/-- The headers of a response to a script: its fields, and the length of the body. -/
theorem setBody_header {headerSection body key : Bytes} (hk : key ≠ ascii "Status") :
    ((parseCgiHeaders headerSection).setBody body).headers[key]? =
      if key = ascii "Content-Length" then some (decimal body.length) else lastOf key (cgiFields headerSection) := by
  rw [setBody, setHeader, Std.ExtTreeMap.getElem?_insert]
  by_cases hlen : key = ascii "Content-Length"
  · simp [hlen]
  · have hne : ¬ compare (ascii "Content-Length") key = .eq := by
      rw [Std.LawfulEqCmp.compare_eq_iff_eq]
      exact Ne.symm hlen
    rw [if_neg hne, if_neg hlen]
    exact parseCgiHeaders_header headerSection hk

theorem setBody_colon {headerSection body key value : Bytes}
    (h : ((parseCgiHeaders headerSection).setBody body).headers[key]? = some value) : 58 ∉ key := by
  rw [setBody, setHeader, Std.ExtTreeMap.getElem?_insert] at h
  split at h
  · next hk =>
    rw [Std.LawfulEqCmp.compare_eq_iff_eq] at hk
    rw [← hk]
    decide
  · exact parseCgiHeaders_colon headerSection key value h

/-- The headers of a response to a script that announce a length. -/
def lengthFields (headerSection body : Bytes) : List (Bytes × Bytes) :=
  ((parseCgiHeaders headerSection).setBody body).headers.toList.filter (fun p => IsLength p.1)

theorem mem_lengthFields {headerSection body : Bytes} {p : Bytes × Bytes} : p ∈ lengthFields headerSection body ↔
    ((parseCgiHeaders headerSection).setBody body).headers[p.1]? = some p.2 ∧ IsLength p.1 := by
  rw [lengthFields, List.mem_filter, decide_eq_true_eq]
  exact and_congr_left fun _ => Std.ExtTreeMap.mem_toList_iff_getElem?_eq_some (k := p.1) (v := p.2)

/-- The length lines of a response come from the headers that announce a length. -/
theorem lengthLines_setBody (headerSection body : Bytes) :
    lengthLines ((parseCgiHeaders headerSection).setBody body).toString =
      (lengthFields headerSection body).map headerField := by
  have hprint := (parseCgiHeaders_printable headerSection).setBody body
  rw [lengthLines, HTTPResponse.toString, hprint.headerLines, List.filter_map]
  congr 1
  apply List.filter_congr
  intro p hp
  have hcolon : 58 ∉ p.1 := setBody_colon (Std.ExtTreeMap.mem_toList_iff_getElem?_eq_some.mp hp)
  rw [Function.comp_apply, before_headerField hcolon]

/-- The length that the server adds is always announced. -/
theorem length_mem (headerSection body : Bytes) :
    (ascii "Content-Length", decimal body.length) ∈ lengthFields headerSection body := by
  rw [mem_lengthFields, setBody_header isLength_own.ne_status, if_pos rfl]
  exact ⟨rfl, isLength_own⟩

/-- A field that spells the name another way is stored beside the length that the server adds. -/
theorem spelled_of_lengthLines {headerSection body line : Bytes}
    (hone : (lengthFields headerSection body).map headerField = [line]) :
    ∀ p ∈ cgiFields headerSection, IsLength p.1 → p.1 = ascii "Content-Length" := by
  intro p hp hlen
  by_contra hne
  obtain ⟨v, hv⟩ := lastOf_isSome (k := p.1) (v := p.2) hp
  have hother : (p.1, v) ∈ lengthFields headerSection body := by
    rw [mem_lengthFields, setBody_header hlen.ne_status, if_neg hne, hv]
    exact ⟨rfl, hlen⟩
  have hsame : headerField (p.1, v) = headerField (ascii "Content-Length", decimal body.length) := by
    have h₁ := List.mem_map_of_mem (f := headerField) hother
    have h₂ := List.mem_map_of_mem (f := headerField) (length_mem headerSection body)
    rw [hone, List.mem_singleton] at h₁ h₂
    rw [h₁, h₂]
  have heq : (p.1, v) = (ascii "Content-Length", decimal body.length) :=
    headerField_injective hlen.colon isLength_own.colon hsame
  exact hne (congrArg Prod.fst heq)

/-- Without such a field there is one length. -/
theorem lengthFields_own {headerSection : Bytes} (body : Bytes)
    (h : ∀ p ∈ cgiFields headerSection, IsLength p.1 → p.1 = ascii "Content-Length") :
    lengthFields headerSection body = [(ascii "Content-Length", decimal body.length)] := by
  have hall : ∀ p ∈ lengthFields headerSection body, p = (ascii "Content-Length", decimal body.length) := by
    intro p hp
    obtain ⟨hvalue, hlen⟩ := mem_lengthFields.mp hp
    have hname : p.1 = ascii "Content-Length" := by
      by_contra hne
      rw [setBody_header hlen.ne_status, if_neg hne] at hvalue
      exact hne (h (p.1, p.2) (mem_of_lastOf hvalue) hlen)
    rw [hname, setBody_header isLength_own.ne_status, if_pos rfl] at hvalue
    exact Prod.ext hname (Option.some.inj hvalue).symm
  have hcount : (lengthFields headerSection body).count (ascii "Content-Length", decimal body.length) = 1 := by
    rw [lengthFields, List.count_filter (p := fun p : Bytes × Bytes => decide (IsLength p.1))
      (decide_eq_true isLength_own), count_toList, setBody_header isLength_own.ne_status, if_pos rfl, if_pos rfl]
  have hrep := List.eq_replicate_of_mem hall
  rw [hrep, List.count_replicate_self] at hcount
  rw [hrep, hcount]
  rfl

/-- The output of a script is answered with one length, that of the bytes behind the empty line. -/
def AnnouncesLength (fs : FileSystem) (raw : Bytes) (server : ServerConfig) (body : Bytes) : Prop :=
  ∃ response, parseCgiResponse fs raw server = some response ∧ ∃ name, IsLength name ∧
    lengthLines response.toString = [name ++ ascii ": " ++ decimal body.length]

theorem announcesLength_iff {fs : FileSystem} {raw : Bytes} {server : ServerConfig} {headerSection body body' : Bytes}
    (hsplit : cgiSplit raw = some (headerSection, body)) : AnnouncesLength fs raw server body' ↔ ∃ name,
      IsLength name ∧ (lengthFields headerSection body).map headerField =
        [name ++ ascii ": " ++ decimal body'.length] := by
  rw [AnnouncesLength, parseCgiResponse_split fs server hsplit]
  simp only [Option.some.injEq, exists_eq_left', lengthLines_setBody]

/-- A response to a script announces one length, that of the bytes behind the empty line,
exactly when its output is cut there and no field of its header spells the name another way. -/
theorem content_length_iff (fs : FileSystem) (raw : Bytes) (server : ServerConfig) (headerSection body : Bytes)
    (hfirst : firstBlankLine raw = some (headerSection, body)) :
    AnnouncesLength fs raw server body ↔
      CrlfFirst raw ∧ ∀ p ∈ cgiFields headerSection, IsLength p.1 → p.1 = ascii "Content-Length" := by
  rcases cgiSplit_of_first hfirst with ⟨hcrlf, hsplit⟩ | ⟨hcrlf, headerSection', body', -, hsplit, hlt⟩
  · rw [announcesLength_iff hsplit]
    constructor
    · rintro ⟨name, -, hone⟩
      exact ⟨hcrlf, spelled_of_lengthLines hone⟩
    · rintro ⟨-, hspelled⟩
      refine ⟨ascii "Content-Length", isLength_own, ?_⟩
      rw [lengthFields_own body hspelled]
      rfl
  · refine iff_of_false ?_ (fun h => hcrlf h.1)
    rw [announcesLength_iff hsplit]
    rintro ⟨name, hname, hone⟩
    have hmem := List.mem_map_of_mem (f := headerField) (length_mem headerSection' body')
    rw [hone, List.mem_singleton] at hmem
    have heq : (ascii "Content-Length", decimal body'.length) = (name, decimal body.length) :=
      headerField_injective isLength_own.colon hname.colon hmem
    have hlen := decimal_injective (congrArg Prod.snd heq)
    exact absurd hlen hlt.ne

/-- A script that states a wrong length under the usual name. -/
theorem content_length_iff_own :
    AnnouncesLength {} (ascii "Content-Length: 9\n\nhi") {} (ascii "hi") ↔
      CrlfFirst (ascii "Content-Length: 9\n\nhi") ∧ ∀ p ∈ cgiFields (ascii "Content-Length: 9"),
        IsLength p.1 → p.1 = ascii "Content-Length" :=
  content_length_iff {} _ {} _ _ (by decide +kernel)

/-- A name in small letters stays beside the length that the server adds. -/
theorem content_length_twice : ¬ ∀ fs raw server headerSection body,
    firstBlankLine raw = some (headerSection, body) → AnnouncesLength fs raw server body := by
  intro h
  obtain ⟨response, hresponse, name, -, hone⟩ := h {} (ascii "content-length: 9\n\nhi") {}
    (ascii "content-length: 9") (ascii "hi") (by decide +kernel)
  have hcount : (parseCgiResponse {} (ascii "content-length: 9\n\nhi") {}).map
      (fun response => (lengthLines response.toString).length) = some 2 := by
    decide +kernel
  rw [hresponse, Option.map_some, hone] at hcount
  cases hcount

/-! ## The other fields -/

/-- A name whose fields are passed on as they are. -/
abbrev Relayed (name : Bytes) : Prop :=
  name ≠ ascii "Status" ∧ name ≠ ascii "Connection" ∧ name ≠ ascii "Content-Length"

/-- No name of a field that is passed on is written twice. -/
def NamesOnce (headerSection : Bytes) : Prop :=
  (((cgiFields headerSection).filter (fun p => Relayed p.1)).map Prod.fst).Nodup

/-- The fields that are passed on are in the head as often as the script wrote them. -/
def FieldsKept (headerSection head : Bytes) : Prop := ∀ p ∈ cgiFields headerSection, Relayed p.1 →
  (headerLines head).count (headerField p) = (cgiFields headerSection).count p

theorem closing_header {r : HTTPResponse} {key : Bytes} (hk : key ≠ ascii "Connection") :
    (closing r).headers[key]? = r.headers[key]? := by
  have hne : ¬ compare (ascii "Connection") key = .eq := by
    rw [Std.LawfulEqCmp.compare_eq_iff_eq]
    exact Ne.symm hk
  rw [closing, setHeader, Std.ExtTreeMap.getElem?_insert, if_neg hne]

theorem closing_colon {r : HTTPResponse} (h : ∀ key value : Bytes, r.headers[key]? = some value → 58 ∉ key)
    (key value : Bytes) (hv : (closing r).headers[key]? = some value) : 58 ∉ key := by
  by_cases hk : key = ascii "Connection"
  · rw [hk]
    decide
  · exact h key value (closing_header hk ▸ hv)

/-- A head that has the last field of each name keeps all of them when no name occurs twice. -/
theorem fieldsKept_iff {headerSection rest : Bytes} {r : HTTPResponse} (hprint : r.Printable)
    (hcolon : ∀ key value : Bytes, r.headers[key]? = some value → 58 ∉ key)
    (hlast : ∀ key, Relayed key → r.headers[key]? = lastOf key (cgiFields headerSection)) :
    FieldsKept headerSection (r.headerToString ++ rest) ↔ NamesOnce headerSection := by
  rw [NamesOnce, ← kept_iff]
  refine forall₂_congr fun p hp => forall_congr' fun hrelayed => ?_
  rw [hprint.headerLines, count_headerField (clean_of_mem hp).colon hcolon, hlast p.1 hrelayed]

/-- Every field of a script reaches its client, in a streamed response and in one made from
the whole output, exactly when no name that is passed on occurs twice. -/
theorem script_fields_kept_iff (headerSection : Bytes) :
    (FieldsKept headerSection (cgiHead headerSection) ↔ NamesOnce headerSection) ∧
    ∀ fs raw server body, cgiSplit raw = some (headerSection, body) →
      ∃ response, parseCgiResponse fs raw server = some response ∧
        (FieldsKept headerSection (closing response).toString ↔ NamesOnce headerSection) := by
  constructor
  · have hprint := closing_printable (parseCgiHeaders_printable headerSection)
    have hlast (key : Bytes) (hk : Relayed key) : (closing (parseCgiHeaders headerSection)).headers[key]? =
        lastOf key (cgiFields headerSection) := by
      rw [closing_header hk.2.1, parseCgiHeaders_header headerSection hk.1]
    have hkept := @fieldsKept_iff headerSection [] _ hprint (closing_colon (parseCgiHeaders_colon headerSection)) hlast
    rwa [List.append_nil] at hkept
  · intro fs raw server body hsplit
    refine ⟨_, parseCgiResponse_split fs server hsplit, ?_⟩
    have hprint := closing_printable ((parseCgiHeaders_printable headerSection).setBody body)
    refine fieldsKept_iff hprint (closing_colon (fun key value hv => setBody_colon hv)) ?_
    intro key hk
    rw [closing_header hk.2.1, setBody_header hk.1, if_neg hk.2.2]

/-- Two fields of different names. -/
theorem script_fields_kept_iff_two : ∃ response,
    parseCgiResponse {} (ascii "A: b\nC:d\n\nhi") {} = some response ∧
      (FieldsKept (ascii "A: b\nC:d") (closing response).toString ↔ NamesOnce (ascii "A: b\nC:d")) :=
  (script_fields_kept_iff (ascii "A: b\nC:d")).2 {} (ascii "A: b\nC:d\n\nhi") {} (ascii "hi") (by decide +kernel)

/-- Of two cookies the first one is lost. -/
theorem cookie_lost : ¬ ∀ headerSection, FieldsKept headerSection (cgiHead headerSection) := by
  intro h
  have hkept := h (ascii "Set-Cookie: a\nSet-Cookie: b") (ascii "Set-Cookie", ascii "a") (by decide +kernel)
    (by decide +kernel)
  revert hkept
  decide +kernel

end WebServ
