import WebServ.Client.Refusals
import WebServ.Server.BodySteps

/-! # Where the request of a client comes from

Whatever the loop does, the request of a client is a fresh one, the one it had, or what
the parser made of that. So the parser stands in a sound place in all of them.
-/
namespace WebServ
open World Client

/-- A client was left by a move, and its request comes from the client before it. -/
inductive World.RequestFrom (w : World) (c : Fd) (client' : Client) : Prop
  | fresh (h : client'.request = {})
  | kept {client : Client} (hg : w.getClient c = some client) (hr : client'.request = client.request)
      (ha : client'.cgiActive = true → client.cgiActive = true)
  | read {client reader : Client} (a : Answers) (conf : ServerConfig) (bytes : Bytes)
      (hg : w.getClient c = some client) (hc : reader.request = client.request)
      (hr : client'.request = (readRequest a conf reader bytes).2.request)
      (ha : client'.cgiActive = true → (readRequest a conf reader bytes).1 = .dispatch)

namespace World
variable {w w' : World} {c : Fd}

theorem RequestFrom.refl {client : Client} (hg : w.getClient c = some client) : w.RequestFrom c client :=
  .kept hg rfl id

/-- Every client that is left has its request from the world before. -/
def RequestsFrom (w w' : World) : Prop := ∀ c client', w'.getClient c = some client' → w.RequestFrom c client'

theorem RequestsFrom.of_eq (h : ∀ c, w'.getClient c = w.getClient c) : w.RequestsFrom w' := by
  intro c client hg
  rw [h] at hg
  exact .refl hg

theorem RequestsFrom.of_changed {es : List Event} {o : Option Client} (h : Changed w w' c es o)
    (ho : ∀ client' ∈ o, w.RequestFrom c client') : w.RequestsFrom w' := by
  intro d client' hg
  rw [h.client] at hg
  split at hg
  · next hd =>
    subst hd
    exact ho client' hg
  · exact .refl hg

theorem RequestsFrom.of_client {es : List Event} {client client' : Client} (hg : w.getClient c = some client)
    (h : Changed w w' c es (some client')) (hr : client'.request = client.request)
    (ha : client'.cgiActive = true → client.cgiActive = true) : w.RequestsFrom w' := by
  refine .of_changed h ?_
  rintro _ ⟨⟩
  exact .kept hg hr ha

/-- The client that is removed is left nowhere. -/
theorem RequestsFrom.of_removed (h : w.RequestsFrom w') (idx : ℕ) (reaped : Bool) (reason : RemoveReason) :
    w.RequestsFrom (w'.removeClient idx reaped reason) := by
  intro d client hg
  rw [(removeClient_changed w' idx reaped reason).client] at hg
  split at hg
  · cases hg
  · exact h d client hg

/-- The client is left with a fresh request. -/
theorem RequestsFrom.of_fresh {es : List Event} {client' : Client} (h : Changed w w' c es (some client'))
    (hr : client'.request = {}) : w.RequestsFrom w' := by
  refine .of_changed h ?_
  rintro _ ⟨⟩
  exact .fresh hr

theorem acceptFd_requestsFrom (serverIndex now : ℕ) (fd : Fd) : w.RequestsFrom (w.acceptFd serverIndex now fd) := by
  obtain ⟨es, client', hstep, hsame, -, hch⟩ := w.acceptFd_changed {} serverIndex now fd
  cases hg : w.getClient fd with
  | some client =>
    obtain rfl := hsame client hg
    exact .of_client hg hch rfl id
  | none =>
    rw [hg] at hstep
    cases hstep with
    | accepted => exact .of_fresh hch rfl

theorem requestBytes_requestsFrom {client reader : Client} (a : Answers) (idx : ℕ) (bytes : Bytes)
    (hg : w.getClient c = some client) (hc : reader.request = client.request) (ha : reader.cgiActive = false) :
    w.RequestsFrom (w.requestBytes a c reader idx bytes) := by
  rcases w.requestBytes_outcome a idx bytes ha with
    ⟨es, client', -, hidle, hreset | hparsed, hch⟩ | ⟨hdispatch, pid, stdinFd, stdoutFd, q, s, e, taken, hch⟩
  · exact .of_fresh hch hreset
  · refine .of_changed hch ?_
    rintro _ ⟨⟩
    exact .read a (w.config reader) bytes hg hc hparsed (fun hact => absurd (hidle.symm.trans hact) (by simp))
  · refine .of_changed hch ?_
    rintro _ ⟨⟩
    obtain ⟨n, chunked, d, hstarted⟩ :=
      cgiInput_client (readRequest a (w.config reader) reader bytes).2 pid stdinFd stdoutFd
    refine .read a (w.config reader) bytes hg hc ?_ (fun _ => hdispatch)
    rw [hstarted]
    rfl

end World

theorem Move.requestsFrom {files : FileSystem} {v v' : View} (h : Move files v v') : v.2.RequestsFrom v'.2 := by
  cases h with
  | turned x w => exact .of_eq (fun _ => rfl)
  | reported w revents => exact .of_eq (fun _ => rfl)
  | cleared w idx => exact .of_eq (by simp)
  | accepted serverIndex now hfd => exact acceptFd_requestsFrom serverIndex now _
  | strayStdin hx hp hc hg => exact .of_eq (by simp)
  | @stdinWritable x w idx p c client a hx hp hc hg =>
    rw [← entry_eq hp] at hc
    obtain ⟨pieces, q, s, -, -, hch⟩ := handleCgiStdinWritable_changed w (a := a) hc hg
    exact .of_client hg hch rfl id
  | removed reaped hx hp hr hg => exact .of_removed (.of_eq (fun _ => rfl)) _ _ _
  | @closedByRead w idx p client reason reaped hp hg ha =>
    have hlog : w.RequestsFrom (w.log (.requestRead p.fd (Answered client) .removed)) := .of_eq (fun _ => rfl)
    exact hlog.of_removed _ _ _
  | @completed x w idx p client reaped hx hp hg hd =>
    have hdone : w.RequestsFrom ((w.setClient p.fd client.clearResponse).modifyEntry idx PollFd.disablePollout) := by
      have hset := RequestsFrom.of_client hg (setClient_changed w p.fd client.clearResponse) rfl id
      intro d client' hd
      exact hset d client' (by simpa using hd)
    exact hdone.of_removed _ _ _
  | @cgiRead x w cgiFd c client bytes hc hg =>
    obtain ⟨hsame, es, -, hch⟩ := cgiOutputRead_quiet w c client bytes
    exact .of_client hg hch hsame.request (fun ha => (cgiOutputRead_client w c client bytes).2 ▸ ha)
  | cgiPaused hp hc hg hs => exact .of_eq (by simp)
  | @cgiEnded x w idx p c client a hp hc hg =>
    obtain ⟨es, client', -, -, hreset, hch⟩ := w.cgiOutputEnd_idle a idx p.fd c client
    exact .of_fresh hch hreset
  | @inputEnded x w c client hg ha =>
    obtain ⟨s, -, hch⟩ := endInput_changed w c client
    exact .of_client hg hch rfl id
  | @bodyRead x w c client bytes now count decoder hg =>
    exact .of_client hg ((log_changed w (e := .bodyRead c bytes) rfl).trans (setClient_changed _ c _)) rfl id
  | @forwarded x w c stdinFd client piece answer hg ha hs =>
    obtain ⟨q, -, -, hch⟩ := forwardPiece_changed w c client stdinFd piece answer
    exact .of_client hg hch rfl id
  | @inputComplete x w c stdinFd client hg ha hs =>
    obtain ⟨s, e, -, -, hch⟩ := inputComplete_changed w c client stdinFd
    exact .of_client hg hch rfl id
  | bodyPaused hp hg ha hs => exact .of_eq (by simp)
  | touched now hg => exact .of_client hg (setClient_changed _ _ _) rfl id
  | requestRead a bytes hp hr hg ha => exact requestBytes_requestsFrom a _ bytes hg rfl ha
  | sentPending now sent hg hs => exact .of_client hg (sendPending_changed _ _ _ _ _ _) rfl id
  | outputPaused hp hg hs => exact .of_eq (by simp)
  | sentResponse now sent hg ha hs =>
    exact .of_client hg ((log_changed _ rfl).trans (setClient_changed _ _ _)) rfl id

theorem AnyMove.requestsFrom {files : FileSystem} {v v' : View} (h : AnyMove files v v') : v.2.RequestsFrom v'.2 := by
  cases h with
  | calm h => exact h.requestsFrom
  | @stdinHangup w idx p c hp hc =>
    refine .of_changed (stdinHangup_changed w idx hc) ?_
    intro client' hmem
    obtain ⟨client, hg, rfl⟩ := Option.map_eq_some_iff.mp (Option.mem_def.mp hmem)
    exact .kept hg rfl id

/-! ## Parsing -/

namespace World

theorem readRequest_request (a : Answers) (conf : ServerConfig) (client : Client) (bytes : Bytes) :
    (readRequest a conf client bytes).2 = (feedRequest conf client bytes).2 := by
  unfold readRequest
  split <;> next hf => rw [hf]

/-- Bytes are kept for later, or parsed. -/
theorem feedRequest_parses (conf : ServerConfig) (client : Client) (bytes : Bytes) :
    (feedRequest conf client bytes).1 = none ∧ (feedRequest conf client bytes).2.request = client.request ∨
      ∃ r p, (r = client.request ∨ ∃ size, r = client.request.setMaxBodySize size) ∧
        (feedRequest conf client bytes).2.request = (r.parse p).2 := by
  unfold feedRequest
  split
  · exact Or.inr ⟨client.request, bytes, Or.inl rfl, rfl⟩
  · dsimp only
    split
    · exact Or.inr ⟨_, _, Or.inr ⟨_, rfl⟩, rfl⟩
    · exact Or.inl ⟨rfl, rfl⟩

theorem readRequest_framed (a : Answers) (conf : ServerConfig) {client : Client} (bytes : Bytes)
    (h : Framed client.request) : Framed (readRequest a conf client bytes).2.request := by
  rw [readRequest_request]
  rcases feedRequest_parses conf client bytes with ⟨-, hsame⟩ | ⟨r, p, rfl | ⟨size, rfl⟩, hparse⟩
  · rw [hsame]
    exact h
  · rw [hparse]
    exact h.parse p
  · rw [hparse]
    exact (h.setMaxBodySize size).parse p

/-- A script is started for a parser that waits or is done. -/
theorem readRequest_dispatched {a : Answers} {conf : ServerConfig} {client : Client} {bytes : Bytes}
    (h : (readRequest a conf client bytes).1 = .dispatch) :
    (readRequest a conf client bytes).2.request.step = none ∧
      (readRequest a conf client bytes).2.request.state ≠ .parssingError := by
  rw [readRequest_request]
  unfold readRequest at h
  split at h
  · cases h
  · next complete parsed hf =>
    rw [hf]
    constructor
    · rcases feedRequest_parses conf client bytes with ⟨hnone, -⟩ | ⟨r, p, -, hparse⟩
      · rw [hf] at hnone
        cases hnone
      · rw [hf] at hparse
        rw [show parsed.request = _ from hparse, HTTPRequest.parse_eq_feed]
        exact HTTPRequest.machine.step_run _
    · intro herror
      have hiserror : parsed.request.isError = true := decide_eq_true herror
      simp only [decideRequest, hiserror, if_true] at h
      split at h <;> cases h

/-- The parser stands in a sound place, and a script gets nothing from it that the decoder refuses. -/
def Parsing (w : World) : Prop := ∀ c client, w.getClient c = some client → Framed client.request ∧
  (client.cgiActive = true → client.request.announcesChunked = true → (leftoverCall client.request).ok = true)

theorem Parsing.of_requestsFrom {w w' : World} (h : w.Parsing) (hfrom : w.RequestsFrom w') : w'.Parsing := by
  intro c client' hg'
  cases hfrom c client' hg' with
  | fresh hr =>
    have hplain : HTTPRequest.announcesChunked {} = false := by decide
    rw [hr, hplain]
    exact ⟨.start, by simp⟩
  | @kept client hg hr ha =>
    rw [hr]
    exact ⟨(h c client hg).1, fun hact => (h c client hg).2 (ha hact)⟩
  | @read client reader a conf bytes hg hc hr ha =>
    have hreader : Framed reader.request := hc ▸ (h c client hg).1
    rw [hr]
    refine ⟨readRequest_framed a conf bytes hreader, fun hact => ?_⟩
    obtain ⟨hstuck, herror⟩ := readRequest_dispatched (ha hact)
    exact (readRequest_framed a conf bytes hreader).leftover_accepted hstuck herror

end World

theorem Reachable.parsing {s : LoopState} (h : Reachable s) : s.world.Parsing := by
  have hinv := h.invariant (I := fun v => v.2.Parsing) ?_ ?_
  · simpa using hinv.1
  · intro w hw c client hg
    obtain ⟨-, hnone, -, -⟩ := hw.start
    rw [hnone] at hg
    cases hg
  · intro files v v' _ hI hmove
    exact hI.of_requestsFrom hmove.requestsFrom

end WebServ
