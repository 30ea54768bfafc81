import WebServ.Server.HeaderGate
import WebServ.Server.Requests

/-! # Decisions on a request

What the server does with the bytes of a request is decided by all bytes that came before
and with them, and not by how they were cut into reads.
-/
namespace WebServ
open World HTTPRequest HTTPHandler Search

/-- Without a head the parser ends in an error, and no limit is to blame for it. -/
theorem HTTPRequest.headless_error {input : Bytes} (limit : ℕ) (hc : contains (ascii "\r\n\r\n") input = true)
    (h : parseHead ((fresh limit).push input) = none) :
    ((fresh limit).parse input).2.state = .parssingError ∧ ((fresh limit).parse input).2.bodyTooLarge = false := by
  obtain ⟨hline, hheaders⟩ := parse_past_gate limit hc
  have hdone := not_headersDone h
  constructor
  · cases hs : ((fresh limit).parse input).2.state with
    | parssingRequestLine => exact absurd hs hline
    | parssingHeaders => exact absurd hs hheaders
    | parssingBody => simp [isHeadersDone, hs] at hdone
    | parssingComplete => simp [isHeadersDone, hs] at hdone
    | parssingError => rfl
  · have hfirst := parseRequestLine_sameBody ((fresh limit).push input)
    change ((fresh limit).push input).parseLoop.2.bodyTooLarge = false
    rw [parseLoop_requestLine rfl]
    unfold parseHead at h
    rcases he : ((fresh limit).push input).parseRequestLine with ⟨_ | _, r1⟩
    · rw [he] at hfirst
      exact hfirst.bodyTooLarge
    · rw [he] at hfirst h
      have hsecond := parseHeaders_sameBody { r1 with state := .parssingHeaders }
      simp only [if_true]
      rw [parseLoop_headers rfl]
      rcases he2 : parseHeaders { r1 with state := .parssingHeaders } with ⟨_ | _, r2⟩
      · rw [he2] at hsecond
        exact hsecond.bodyTooLarge.trans hfirst.bodyTooLarge
      · simp [he2] at h

theorem HTTPRequest.parse_complete (r : HTTPRequest) (piece : Bytes) :
    (r.parse piece).1 = decide ((r.parse piece).2.state = .parssingComplete) := by
  rw [parse_eq_feed]

namespace World
variable {conf : ServerConfig} {input : Bytes} {client client' : Client}

/-- Bytes that hold the end of a head leave the same request, or an error, wherever they were cut. -/
theorem Gated.request_eq (h : Gated conf input client) (h' : Gated conf input client') :
    client.request = client'.request ∨ (client.request.state = .parssingError ∧ client.request.bodyTooLarge = false ∧
      client'.request.state = .parssingError ∧ client'.request.bodyTooLarge = false) := by
  rcases h with ⟨hc, -, -, hr⟩ | ⟨-, buf, hpre, hc, hr⟩
  · rcases h' with ⟨-, -, -, hr'⟩ | ⟨-, buf', hpre', hc', -⟩
    · exact Or.inl (hr.trans hr'.symm)
    · rw [ contains_of_prefix hpre' hc'] at hc
      cases hc
  · rcases h' with ⟨hnone, -, -, -⟩ | ⟨-, buf', hpre', hc', hr'⟩
    · rw [ contains_of_prefix hpre hc] at hnone
      cases hnone
    · rw [hr, hr']
      cases hhead : parseHead ((fresh 0).push input) with
      | some r =>
        obtain ⟨head, hv, rest, hin⟩ := (parseHead_isSome_iff 0 input).mp (by rw [hhead]; rfl)
        have hpeek := peekUri_of_head hv (hin ▸ hpre) hc
        have hpeek' := peekUri_of_head hv (hin ▸ hpre') hc'
        rw [peekMaxBody_eq conf hpeek, peekMaxBody_eq conf hpeek']
        exact Or.inl rfl
      | none =>
        have hnone (limit : ℕ) : parseHead ((fresh limit).push input) = none := by
          rw [← Option.not_isSome_iff_eq_none]
          intro hsome
          rw [← Option.not_isSome_iff_eq_none] at hhead
          exact hhead (parseHead_limit limit 0 hsome)
        have hall := contains_of_prefix hpre hc
        obtain ⟨herr, hsmall⟩ := headless_error (peekMaxBody conf buf) hall (hnone _)
        obtain ⟨herr', hsmall'⟩ := headless_error (peekMaxBody conf buf') hall (hnone _)
        exact Or.inr ⟨herr, hsmall, herr', hsmall'⟩

theorem Gated.untouched (h : Gated conf input client) (hc : contains (ascii "\r\n\r\n") input = false) :
    client.request = {} := by
  rcases h with ⟨-, -, -, hr⟩ | ⟨-, buf, hpre, hbuf, -⟩
  · exact hr
  · rw [ contains_of_prefix hpre hbuf] at hc
    cases hc

/-- The flag beside the client tells whether the request is complete. -/
theorem feedRequest_state {bytes : Bytes} {complete : Bool} (h : (feedRequest conf client bytes).1 = some complete) :
    complete = decide ((feedRequest conf client bytes).2.request.state = .parssingComplete) := by
  unfold feedRequest at h ⊢
  split
  · next hs =>
    simp only [hs, if_true, Option.some.injEq] at h
    exact h ▸ parse_complete client.request bytes
  · next hs =>
    simp only [hs, Bool.false_eq_true, if_false] at h
    dsimp only at h ⊢
    split
    · next hc =>
      simp only [hc, if_true, Option.some.injEq] at h
      exact h ▸ parse_complete _ (client.appendToBuffer bytes).buffer
    · next hc => simp [hc] at h

theorem decideRequest_congr (a : Answers) {complete : Bool} (hr : client'.request = client.request)
    (ha : client'.cgiActive = client.cgiActive) :
    decideRequest a conf client' complete = decideRequest a conf client complete := by
  simp only [decideRequest, cgiGate, hr, ha]

/-- An error that no limit is to blame for is answered with 400. -/
theorem decideRequest_error (a : Answers) {complete : Bool} (hs : client.request.state = .parssingError)
    (hb : client.request.bodyTooLarge = false) :
    decideRequest a conf client complete = .reject (HTTPResponse.error400 a.files (getErrorPage 400 conf)) := by
  simp [decideRequest, isError, isBodyTooLarge, hs, hb]

/-- The decision on a client whose bytes came in one read. -/
def decideStream (a : Answers) (conf : ServerConfig) (input : Bytes) : Decision × HTTPRequest :=
  let (decision, client) := readRequest a conf (Client.create 0 0 0) input
  (decision, client.request)

/-- The last of the bytes lead to the decision that all of them lead to in one read, and that is taken on the same
request unless it is an error. -/
theorem Gated.decides (h : Gated conf input client) (ha : client.cgiActive = false) (a : Answers) (bytes : Bytes) :
    (readRequest a conf client bytes).1 = (decideStream a conf (input ++ bytes)).1 ∧
      ((readRequest a conf client bytes).2.request = (decideStream a conf (input ++ bytes)).2 ∨
        ∃ response, (readRequest a conf client bytes).1 = .reject response) := by
  obtain ⟨hgate, hsome⟩ := h.feed bytes
  have hfresh : Gated conf [] (Client.create 0 0 0) := Or.inl ⟨rfl, rfl, rfl, rfl⟩
  obtain ⟨hwhole, hsome'⟩ := hfresh.feed (input ++ bytes)
  rw [List.nil_append] at hwhole hsome'
  have hflag {complete : Bool} : (feedRequest conf client bytes).1 = some complete →
      complete = decide ((feedRequest conf client bytes).2.request.state = .parssingComplete) := feedRequest_state
  have hflag' {complete : Bool} : (feedRequest conf (Client.create 0 0 0) (input ++ bytes)).1 = some complete →
      complete = decide ((feedRequest conf (Client.create 0 0 0) (input ++ bytes)).2.request.state =
        .parssingComplete) := feedRequest_state
  obtain ⟨b, r, s, hclient⟩ := feedRequest_client conf client bytes
  obtain ⟨b', r', s', hclient'⟩ := feedRequest_client conf (Client.create 0 0 0) (input ++ bytes)
  unfold decideStream readRequest
  generalize feedRequest conf client bytes = part at *
  generalize feedRequest conf (Client.create 0 0 0) (input ++ bytes) = whole at *
  obtain ⟨_ | complete, parsed⟩ := part <;> obtain ⟨_ | complete', parsed'⟩ := whole
  · have hc : contains (ascii "\r\n\r\n") (input ++ bytes) = false := hsome.symm
    exact ⟨rfl, Or.inl ((hgate.untouched hc).trans (hwhole.untouched hc).symm)⟩
  · simp [← hsome'] at hsome
  · simp [← hsome'] at hsome
  · have hactive : parsed.cgiActive = parsed'.cgiActive := by
      simp only at hclient hclient'
      rw [hclient, hclient']
      exact ha
    rcases hgate.request_eq hwhole with hr | ⟨herr, hsmall, herr', hsmall'⟩
    · obtain rfl : complete = complete' := by rw [hflag rfl, hflag' rfl, hr]
      exact ⟨decideRequest_congr a hr hactive, Or.inl hr⟩
    · have hreject : decideRequest a conf parsed complete = _ := decideRequest_error a herr hsmall
      have hreject' : decideRequest a conf parsed' complete' = _ := decideRequest_error a herr' hsmall'
      exact ⟨hreject.trans hreject'.symm, Or.inr ⟨_, hreject⟩⟩

end World

end WebServ
