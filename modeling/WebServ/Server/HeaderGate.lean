import WebServ.Http.Answers
import WebServ.Http.Grammar
import WebServ.Server.Handlers

/-! # The header gate

The end of the head, the target and the limit are looked for three times: in the raw
bytes before the parser is called, by the parser, and when the request is handled.
Whatever the bytes are and however they arrive, the three agree.
-/
namespace WebServ
open Search Chunked

namespace HTTPRequest

/-- There is an empty line, in front or behind the end of another line. -/
def HasEmptyLine (b : Bytes) : Prop := ∃ u v, b = u ++ (crlf ++ v) ∧ (u = [] ∨ ∃ t, u = t ++ crlf)

/-- Behind a line there still is the empty line that follows a line end. -/
theorem hasEmptyLine_rest {line rest u v : Bytes} (hl : IsLine line)
    (h : line ++ crlf ++ rest = u ++ (crlf ++ (crlf ++ v))) : HasEmptyLine rest := by
  have hfind : find crlf (line ++ crlf ++ rest) = some line.length := find_pair_append (by decide) rest hl
  have hle : line.length ≤ u.length := by
    by_contra hlt
    apply not_prefix_of_lt_find hfind (Nat.lt_of_not_le hlt)
    rw [h, List.drop_left]
    exact List.prefix_append _ _
  have hline : line <+: line ++ crlf ++ rest := by
    rw [List.append_assoc]
    exact List.prefix_append _ _
  have hu : u <+: line ++ crlf ++ rest := by
    rw [h]
    exact List.prefix_append _ _
  obtain ⟨t, rfl⟩ := List.prefix_of_prefix_length_le hline hu hle
  rw [List.append_assoc, List.append_assoc] at h
  have ht := List.append_cancel_left h
  match t with
  | [] =>
    refine ⟨[], v, ?_, Or.inl rfl⟩
    simpa [crlf] using ht
  | [c] => simp [crlf] at ht
  | c :: d :: t =>
    simp only [crlf, List.cons_append, List.nil_append, List.cons.injEq] at ht
    refine ⟨t ++ crlf, v, ?_, Or.inr ⟨t, rfl⟩⟩
    rw [ht.2.2, crlf]
    simp

/-- With an empty line to come, the header lines are read to their end or refused. -/
theorem parseHeaders_ends {r : HTTPRequest} (h : HasEmptyLine r.buffer) :
    r.parseHeaders.1 = true ∨ r.parseHeaders.2.state = .parssingError := by
  fun_induction parseHeaders r with
  | case1 r hcut =>
    obtain ⟨u, v, hb, -⟩ := h
    rw [cutLine_eq_none_iff] at hcut
    refine absurd ⟨u, v, ?_⟩ hcut
    rw [hb, List.append_assoc]
  | case2 r rest hcut => exact Or.inl rfl
  | case3 r line rest hcut hl hf => exact Or.inr rfl
  | case4 r line rest hcut hl pos hf ih =>
    apply ih
    have hline : IsLine line := cutLine_no_eol hcut crlf_ne_nil
    have hb := cutLine_eq_some hcut
    obtain ⟨u, v, hu, rfl | ⟨t, rfl⟩⟩ := h
    · rw [hu, List.nil_append] at hcut
      have hempty := cutLine_crlf (l := []) v (by simp [IsLine, crlf])
      rw [List.nil_append] at hempty
      rw [hempty] at hcut
      cases hcut
      exact absurd rfl hl
    · rw [hb, List.append_assoc t] at hu
      exact hasEmptyLine_rest hline hu

theorem ascii_headEnd : ascii "\r\n\r\n" = crlf ++ crlf := by decide

theorem contains_iff {pat s : Bytes} : contains pat s = true ↔ ∃ u v, s = u ++ (pat ++ v) := by
  rw [contains, Option.isSome_iff_ne_none, ne_eq, find_eq_none_iff, not_not]
  constructor
  · rintro ⟨u, v, rfl⟩
    exact ⟨u, v, List.append_assoc _ _ _⟩
  · rintro ⟨u, v, rfl⟩
    exact ⟨u, v, List.append_assoc _ _ _⟩

theorem contains_of_prefix {pat buf input : Bytes} (hpre : buf <+: input) (h : contains pat buf = true) :
    contains pat input = true := by
  obtain ⟨t, rfl⟩ := hpre
  rw [contains_iff] at h ⊢
  obtain ⟨u, v, rfl⟩ := h
  exact ⟨u, v ++ t, by simp [List.append_assoc]⟩

theorem cutLine_of_contains {input : Bytes} (h : contains (ascii "\r\n\r\n") input = true) :
    ∃ line rest, cutLine crlf input = some (line, rest) ∧ HasEmptyLine rest := by
  rw [ascii_headEnd, contains_iff] at h
  obtain ⟨u, v, hin⟩ := h
  cases hcut : cutLine crlf input with
  | none =>
    rw [cutLine_eq_none_iff] at hcut
    refine absurd ⟨u, crlf ++ v, ?_⟩ hcut
    rw [hin, List.append_assoc, List.append_assoc]
  | some cut =>
    obtain ⟨line, rest⟩ := cut
    refine ⟨line, rest, rfl, ?_⟩
    apply hasEmptyLine_rest (u := u) (v := v) (cutLine_no_eol hcut crlf_ne_nil)
    rw [← cutLine_eq_some hcut, hin, List.append_assoc]

/-- Once the end of a head is there, the parser does not wait in the header phase. -/
theorem parse_past_gate (limit : ℕ) {input : Bytes} (h : contains (ascii "\r\n\r\n") input = true) :
    ((fresh limit).parse input).2.state ≠ .parssingRequestLine ∧
      ((fresh limit).parse input).2.state ≠ .parssingHeaders := by
  obtain ⟨line, rest, hcut, hempty⟩ := cutLine_of_contains h
  change cutLine crlf ((fresh limit).push input).buffer = _ at hcut
  change ((fresh limit).push input).parseLoop.2.state ≠ _ ∧ ((fresh limit).push input).parseLoop.2.state ≠ _
  rw [parseLoop_requestLine rfl]
  rcases hline : ((fresh limit).push input).parseRequestLine with ⟨_ | _, r1⟩
  · obtain ⟨-, -, herr⟩ := parseRequestLine_frame hcut hline
    simp [herr rfl]
  · obtain ⟨hbuf, -, -⟩ := parseRequestLine_frame hcut hline
    simp only [if_true]
    rw [parseLoop_headers rfl]
    have hends := parseHeaders_ends (r := { r1 with state := .parssingHeaders }) (by
      change HasEmptyLine r1.buffer
      rw [hbuf]
      exact hempty)
    rcases hheaders : parseHeaders { r1 with state := .parssingHeaders } with ⟨_ | _, r2⟩
    · rw [hheaders] at hends
      have herr := hends.resolve_left (by simp)
      dsimp only at herr
      simp [herr]
    · simp only [if_true]
      have hbody := (endHeaders_inBody r2).2.1.steps (parseLoop_spec r2.endHeaders).1
      rcases hbody.1 with hs | hs | hs <;> simp [hs]

/-- A message that is not chunked is complete only within its limit. -/
def WithinLimit (r : HTTPRequest) : Prop :=
  r.state = .parssingBody ∧ r.isChunked = false ∨ r.state = .parssingError ∨
    r.state = .parssingComplete ∧ (r.getHeaderValue (ascii "Content-Length") = [] ∨ r.maxBodySize = 0 ∨
      r.contentLength ≤ r.maxBodySize)

theorem WithinLimit.step {r r' : HTTPRequest} (h : r.WithinLimit) (hstep : r.step = some r') : r'.WithinLimit := by
  obtain ⟨hs, hch⟩ : r.state = .parssingBody ∧ r.isChunked = false := by
    rcases h with h | h | ⟨h, -⟩
    · exact h
    · exact absurd (Or.inr h) (not_terminal_of_step hstep)
    · exact absurd (Or.inl h) (not_terminal_of_step hstep)
  simp only [HTTPRequest.step, hs, hch, Bool.false_eq_true, if_false] at hstep
  unfold lengthStep at hstep
  split at hstep
  · next hv =>
    cases hstep
    exact Or.inr (Or.inr ⟨rfl, Or.inl hv⟩)
  · split at hstep
    · cases hstep
      exact Or.inr (Or.inl rfl)
    · next hfit =>
      split at hstep
      · cases hstep
        refine Or.inr (Or.inr ⟨rfl, Or.inr ?_⟩)
        change r.maxBodySize = 0 ∨ r.contentLength ≤ r.maxBodySize
        omega
      · split at hstep
        · cases hstep
        · cases hstep
          exact Or.inl ⟨hs, hch⟩

theorem WithinLimit.steps {r r' : HTTPRequest} (h : r.WithinLimit) (hsteps : machine.Steps r r') :
    r'.WithinLimit := by
  induction hsteps with
  | refl => exact h
  | tail _ hstep ih => exact ih.step hstep

theorem endHeaders_withinLimit {r : HTTPRequest} (hte : r.announcesChunked = false) : r.endHeaders.WithinLimit := by
  unfold endHeaders
  split
  · exact Or.inl ⟨rfl, hte⟩
  · next hbody =>
    refine Or.inr (Or.inr ⟨rfl, Or.inl ?_⟩)
    by_contra hv
    exact hbody (hasBody_of_contentLength hv)

end HTTPRequest
namespace World
open HTTPRequest HTTPHandler

/-- The URI found between the first two spaces of the raw bytes. -/
def peekUri (buf : Bytes) : Option Bytes :=
  (find (ascii " ") buf).bind fun sp1 =>
    (findFrom (ascii " ") buf (sp1 + 1)).map fun sp2 =>
      stripQueryString ((buf.drop (sp1 + 1)).take (sp2 - sp1 - 1))

theorem peekMaxBody_eq (conf : ServerConfig) {buf uri : Bytes} (h : peekUri buf = some uri) :
    peekMaxBody conf buf = effectiveMaxBody (matchRoute uri conf) conf := by
  obtain ⟨sp1, h1, h⟩ := Option.bind_eq_some_iff.mp h
  obtain ⟨sp2, h2, rfl⟩ := Option.map_eq_some_iff.mp h
  simp only [peekMaxBody, h1, h2]

theorem peekUri_of_spaces {m t : Bytes} (rest : Bytes) (hm : space ∉ m) (ht : space ∉ t) :
    peekUri (m ++ space :: (t ++ space :: rest)) = some (stripQueryString t) := by
  have hdrop : (m ++ space :: (t ++ space :: rest)).drop (m.length + 1) = t ++ space :: rest := by
    rw [List.drop_append]
    simp
  have hfirst : find (ascii " ") (m ++ space :: (t ++ space :: rest)) = some m.length := by
    rw [ascii_space]
    exact find_singleton_append _ hm
  have hsecond : findFrom (ascii " ") (m ++ space :: (t ++ space :: rest)) (m.length + 1) =
      some (t.length + (m.length + 1)) := by
    rw [findFrom, hdrop, ascii_space, find_singleton_append _ ht, Option.map_some]
  rw [peekUri, hfirst, Option.bind_some, hsecond, Option.map_some, hdrop,
    show t.length + (m.length + 1) - m.length - 1 = t.length by omega, List.take_left]

/-- Raw bytes that hold the end of a head have the target of the head between their first spaces. -/
theorem peekUri_of_head {head : MessageHead} (hv : head.Valid) {rest buf : Bytes}
    (hpre : buf <+: head.encode ++ rest) (hend : contains (ascii "\r\n\r\n") buf = true) :
    peekUri buf = some (stripQueryString head.target) := by
  obtain ⟨line, tail, hcut, -⟩ := cutLine_of_contains hend
  obtain ⟨more, hmore⟩ := hpre
  have hwhole := cutLine_append more hcut
  have hline : cutLine crlf (head.encode ++ rest) =
      some (head.requestLine, head.fields.flatMap (· ++ crlf) ++ crlf ++ rest) := by
    rw [MessageHead.encode, List.append_assoc]
    exact cutLine_crlf _ hv.line
  rw [hmore, hline] at hwhole
  obtain ⟨rfl, -⟩ : head.requestLine = line ∧ _ := by simpa using hwhole
  have hbuf := cutLine_eq_some hcut
  have hspaces : buf = head.method ++ space :: (head.target ++ space :: (head.protocol ++ crlf ++ tail)) := by
    rw [hbuf, MessageHead.requestLine]
    simp [List.append_assoc]
  rw [hspaces]
  exact peekUri_of_spaces _ hv.method.2 hv.target.2

/-- The end of a head is the first empty line, and that follows a line end. -/
theorem contains_headEnd (head : MessageHead) (rest : Bytes) :
    contains (ascii "\r\n\r\n") (head.encode ++ rest) = true := by
  have hlines : ∃ u, head.requestLine ++ crlf ++ head.fields.flatMap (· ++ crlf) = u ++ crlf := by
    rcases List.eq_nil_or_concat head.fields with hnil | ⟨fields, field, hcons⟩
    · exact ⟨head.requestLine, by simp [hnil]⟩
    · exact ⟨head.requestLine ++ crlf ++ fields.flatMap (· ++ crlf) ++ field, by
        simp [hcons, List.append_assoc]⟩
  obtain ⟨u, hu⟩ := hlines
  rw [ascii_headEnd, contains_iff]
  refine ⟨u, rest, ?_⟩
  rw [MessageHead.encode, ← List.append_assoc, hu]
  simp [List.append_assoc]

/-- The client after the bytes of several reads were fed to its parser. -/
def feeds (conf : ServerConfig) (client : Client) (reads : List Bytes) : Client :=
  reads.foldl (fun client bytes => (feedRequest conf client bytes).2) client

/-- Either nothing was parsed yet, or all bytes were, under the limit that was peeked. -/
def Gated (conf : ServerConfig) (input : Bytes) (client : Client) : Prop :=
  (contains (ascii "\r\n\r\n") input = false ∧ client.requestStarted = false ∧ client.buffer = input ∧
    client.request = {}) ∨
  (client.requestStarted = true ∧ ∃ buf, buf <+: input ∧ contains (ascii "\r\n\r\n") buf = true ∧
    client.request = ((fresh (peekMaxBody conf buf)).parse input).2)

theorem Gated.feed {conf : ServerConfig} {input : Bytes} {client : Client} (h : Gated conf input client)
    (bytes : Bytes) : Gated conf (input ++ bytes) (feedRequest conf client bytes).2 ∧
      (feedRequest conf client bytes).1.isSome = Search.contains (ascii "\r\n\r\n") (input ++ bytes) := by
  rcases h with ⟨hc, hs, hb, hr⟩ | ⟨hs, buf, hpre, hc, hr⟩
  · unfold feedRequest
    simp only [hs, Bool.false_eq_true, if_false, Client.hasCompleteHeader, Client.appendToBuffer, hb]
    by_cases hend : Search.contains (ascii "\r\n\r\n") (input ++ bytes) = true
    · simp only [hend, if_true]
      refine ⟨Or.inr ⟨rfl, input ++ bytes, List.prefix_rfl, hend, ?_⟩, rfl⟩
      simp only [Client.clearRawBuffer, hr]
    · rw [Bool.not_eq_true] at hend
      simp only [hend, Bool.false_eq_true, if_false]
      exact ⟨Or.inl ⟨hend, rfl, rfl, hr⟩, rfl⟩
  · have hpre' := hpre.trans (List.prefix_append _ bytes)
    have hall : Search.contains (ascii "\r\n\r\n") (input ++ bytes) = true := contains_of_prefix hpre' hc
    have hparse : client.request.parse bytes = (fresh (peekMaxBody conf buf)).parse (input ++ bytes) := by
      rw [hr, parse_eq_feed, parse_eq_feed, parse_eq_feed]
      dsimp only
      rw [Machine.feed_feed]
    unfold feedRequest
    simp only [hs, if_true]
    refine ⟨Or.inr ⟨rfl, buf, hpre', hc, ?_⟩, by simp [hall]⟩
    simp only [Client.clearRawBuffer, hparse]

theorem gated_feeds (conf : ServerConfig) (fd i now : ℕ) (reads : List Bytes) :
    Gated conf reads.flatten (feeds conf (Client.create fd i now) reads) := by
  induction reads using List.reverseRecOn with
  | nil => exact Or.inl ⟨rfl, rfl, rfl, rfl⟩
  | append_singleton reads bytes ih =>
    have hstep := (ih.feed bytes).1
    simpa [feeds] using hstep

/-- What the gate, the parser and the handler know of the first request of a connection. -/
structure GateAgrees (conf : ServerConfig) (reads : List Bytes) (client : Client) : Prop where
  /-- The parser is called for the next bytes only when they bring the end of the head or follow it. -/
  called : ∀ bytes, (feedRequest conf client bytes).1.isSome =
    contains (ascii "\r\n\r\n") (reads.flatten ++ bytes)
  untouched : contains (ascii "\r\n\r\n") reads.flatten = false → client.request = {}
  past : contains (ascii "\r\n\r\n") reads.flatten = true →
    client.request.state ≠ .parssingRequestLine ∧ client.request.state ≠ .parssingHeaders
  /-- The URI is the same wherever the raw bytes were cut, and it chooses the limit. -/
  uri : (parseHead ((fresh 0).push reads.flatten)).isSome → ∀ buf, buf <+: reads.flatten →
    contains (ascii "\r\n\r\n") buf = true →
    peekUri buf = some (stripQueryString client.request.requestTarget)
  limit : (parseHead ((fresh 0).push reads.flatten)).isSome → client.request.maxBodySize =
    effectiveMaxBody (matchRoute (stripQueryString client.request.requestTarget) conf) conf
  within : client.request.state = .parssingComplete → client.request.announcesChunked = false →
    ∀ route, matchRoute (stripQueryString client.request.requestTarget) conf = some route →
      ¬ OverLimit client.request route conf
  /-- Whatever the file system holds, what is not left to a script is not refused for its size. -/
  answered : client.request.state = .parssingComplete → client.request.announcesChunked = false →
    (∀ route, matchRoute (stripQueryString client.request.requestTarget) conf = some route →
      ¬ Executes client.request route conf) →
    ∀ fs execute response, (handleRequest fs execute client.request
      (matchRoute (stripQueryString client.request.requestTarget) conf) conf).1 = some response →
      response.statusLine ≠ tooLarge

/-- The target that was parsed is the one in the head. -/
theorem target_parsed {input : Bytes} (limit : ℕ) (h : (parseHead ((fresh 0).push input)).isSome) :
    ∃ head : MessageHead, head.Valid ∧ (∃ rest, input = head.encode ++ rest) ∧
      ((fresh limit).parse input).2.requestTarget = head.target := by
  obtain ⟨head, hv, rest, rfl⟩ := (parseHead_isSome_iff 0 input).mp h
  exact ⟨head, hv, ⟨rest, rfl⟩, (parsed_encode limit hv rest).2.1⟩

/-- Whether there is a head does not depend on the limit. -/
theorem parseHead_limit {input : Bytes} (limit limit' : ℕ) (h : (parseHead ((fresh limit).push input)).isSome) :
    (parseHead ((fresh limit').push input)).isSome :=
  (parseHead_isSome_iff limit' input).mpr ((parseHead_isSome_iff limit input).mp h)

/-- The peeked limit is the one of the route to which the request goes. -/
theorem limit_parsed (conf : ServerConfig) {input buf : Bytes} (hpre : buf <+: input)
    (hc : contains (ascii "\r\n\r\n") buf = true) (h : (parseHead ((fresh 0).push input)).isSome) :
    ((fresh (peekMaxBody conf buf)).parse input).2.maxBodySize = effectiveMaxBody (matchRoute (stripQueryString
      ((fresh (peekMaxBody conf buf)).parse input).2.requestTarget) conf) conf := by
  obtain ⟨head, hv, ⟨rest, hin⟩, htarget⟩ := target_parsed (peekMaxBody conf buf) h
  have hpeek := peekUri_of_head hv (hin ▸ hpre) hc
  obtain ⟨r, hsome⟩ := Option.isSome_iff_exists.mp (parseHead_limit 0 (peekMaxBody conf buf) h)
  rw [htarget, ← peekMaxBody_eq conf hpeek]
  exact (parse_of_head hsome).1

/-- A complete request has a head. -/
theorem parseHead_of_complete {input : Bytes} {limit : ℕ}
    (hs : ((fresh limit).parse input).2.state = .parssingComplete) :
    ∃ r, parseHead ((fresh limit).push input) = some r := by
  rw [← Option.ne_none_iff_exists']
  intro hnone
  have hdone := not_headersDone hnone
  simp [isHeadersDone, hs] at hdone

/-- A complete request whose length was counted keeps its limit. -/
theorem within_parsed {input : Bytes} {limit : ℕ} (hs : ((fresh limit).parse input).2.state = .parssingComplete)
    (hte : ((fresh limit).parse input).2.announcesChunked = false) {route : RouteConfig} {conf : ServerConfig}
    (hmax : ((fresh limit).parse input).2.maxBodySize = effectiveMaxBody (some route) conf) :
    ¬ OverLimit ((fresh limit).parse input).2 route conf := by
  rintro ⟨hvalue, hpos, hlarge⟩
  obtain ⟨r, hsome⟩ := parseHead_of_complete hs
  obtain ⟨-, hsame, hsteps⟩ := parse_of_head hsome
  have hwithin := (endHeaders_withinLimit (r := r) (by rw [← announcesChunked_congr hsame.headers, hte])).steps hsteps
  rcases hwithin with ⟨hbody, -⟩ | herr | ⟨-, hempty | hzero | hle⟩
  · rw [hs] at hbody
    cases hbody
  · rw [hs] at herr
    cases herr
  · exact hvalue hempty
  · omega
  · rw [hmax] at hle
    exact absurd hle (Nat.not_le_of_lt hlarge)

/-- The three places that look for the head, the target and the limit agree on every first request. -/
theorem header_gate_agrees (conf : ServerConfig) (fd i now : ℕ) (reads : List Bytes) :
    GateAgrees conf reads (feeds conf (Client.create fd i now) reads) := by
  have hgate := gated_feeds conf fd i now reads
  have hcalled : ∀ bytes, _ := fun bytes => (hgate.feed bytes).2
  generalize feeds conf (Client.create fd i now) reads = client at hgate hcalled ⊢
  rcases hgate with ⟨hc, -, -, hr⟩ | ⟨-, buf, hpre, hc, hr⟩
  · have hnone : ¬ (parseHead ((fresh 0).push reads.flatten)).isSome := by
      intro h
      obtain ⟨head, -, rest, hin⟩ := (parseHead_isSome_iff 0 reads.flatten).mp h
      rw [hin, contains_headEnd] at hc
      cases hc
    have hwaits : client.request.state ≠ .parssingComplete := by
      rw [hr]
      exact nofun
    exact ⟨hcalled, fun _ => hr, by simp [hc], fun h => absurd h hnone, fun h => absurd h hnone,
      fun hs => absurd hs hwaits, fun hs => absurd hs hwaits⟩
  · have hstarted := contains_of_prefix hpre hc
    have hwithin : client.request.state = .parssingComplete → client.request.announcesChunked = false →
        ∀ route, matchRoute (stripQueryString client.request.requestTarget) conf = some route →
          ¬ OverLimit client.request route conf := by
      intro hs hte route hroute
      rw [hr] at hs hte hroute ⊢
      obtain ⟨r, hsome⟩ := parseHead_of_complete hs
      have hmax := limit_parsed conf hpre hc (parseHead_limit _ 0 (by rw [hsome]; rfl))
      rw [hroute] at hmax
      exact within_parsed hs hte hmax
    refine ⟨hcalled, by simp [hstarted], ?_, ?_, ?_, hwithin, ?_⟩
    · intro _
      rw [hr]
      exact parse_past_gate _ hstarted
    · intro h buf' hpre' hc'
      obtain ⟨head, hv, ⟨rest, hin⟩, htarget⟩ := target_parsed (peekMaxBody conf buf) h
      rw [hr, htarget]
      exact peekUri_of_head hv (hin ▸ hpre') hc'
    · intro h
      rw [hr]
      exact limit_parsed conf hpre hc h
    · intro hs hte hspared fs execute response h
      exact handleRequest_not_tooLarge
        (fun route hroute _ _ => ⟨hwithin hs hte route hroute, hspared route hroute⟩) h

end World
end WebServ
