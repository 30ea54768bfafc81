import WebServ.Server.Decisions
import WebServ.Server.Throws
import WebServ.Server.Turns

/-! # What a request is answered for

The bytes read from a client since its request was begun are all that the decision on
it depends on: not on how they were cut into reads, and not on other connections.
-/
namespace WebServ
open World HTTPRequest HTTPHandler Search

/-! ## What is left of a request -/

/-- Events that leave a client without anything of a request. -/
def Event.forgets : Event → Bool
  | .accepted _ known => !known
  | .responded .. | .finalized .. => true
  | _ => false

structure Client.Blank (client : Client) : Prop where
  request : client.request = {}
  buffer : client.buffer = []
  started : client.requestStarted = false

structure Client.SameRequest (client client' : Client) : Prop where
  serverIndex : client'.serverIndex = client.serverIndex
  request : client'.request = client.request
  buffer : client'.buffer = client.buffer
  started : client'.requestStarted = client.requestStarted

theorem Client.SameRequest.refl (client : Client) : client.SameRequest client := by
  constructor <;> simp

theorem Client.SameRequest.trans {client client' client'' : Client} (h : client.SameRequest client')
    (h' : client'.SameRequest client'') : client.SameRequest client'' where
  serverIndex := h'.serverIndex.trans h.serverIndex
  request := h'.request.trans h.request
  buffer := h'.buffer.trans h.buffer
  started := h'.started.trans h.started

/-- The request of a client is the one that was there, or it was forgotten. -/
inductive Client.Continues (o : Option Client) (es : List Event) (client' : Client) : Prop
  | same {client : Client} (hg : o = some client) (hsame : client.SameRequest client')
      (hes : ∀ e ∈ es, e.forgets = false)
  | blank (hb : client'.Blank) (hes : ∃ e ∈ es, e.forgets = true)

theorem Client.Continues.trans {o o' : Option Client} {es fs : List Event} {client'' : Client}
    (h : ∀ client', o' = some client' → Client.Continues o es client') (h' : Client.Continues o' fs client'') :
    Client.Continues o (es ++ fs) client'' := by
  cases h' with
  | blank hb hes =>
    obtain ⟨e, he, hf⟩ := hes
    exact .blank hb ⟨e, List.mem_append_right es he, hf⟩
  | @same client' hg' hsame' hfs =>
    cases h client' hg' with
    | same hg hsame hes =>
      refine .same hg (hsame.trans hsame') ?_
      intro e he
      exact (List.mem_append.mp he).elim (hes e) (hfs e)
    | blank hb hes =>
      obtain ⟨e, he, hf⟩ := hes
      refine .blank ⟨?_, ?_, ?_⟩ ⟨e, List.mem_append_left fs he, hf⟩
      · exact hsame'.request.trans hb.request
      · exact hsame'.buffer.trans hb.buffer
      · exact hsame'.started.trans hb.started

/-- No request got anything new. -/
structure World.Continues (w w' : World) : Prop where
  configs : w'.configs = w.configs
  client : ∀ c, ∃ es, w'.history c = w.history c ++ es ∧
    ∀ client', w'.getClient c = some client' → Client.Continues (w.getClient c) es client'

namespace World
section
variable {w v u : World} {c : Fd}

theorem Continues.of_frame (hf : v.configs = w.configs) (hg : ∀ c, v.getClient c = w.getClient c)
    (hh : ∀ c, v.history c = w.history c) : w.Continues v where
  configs := hf
  client c := ⟨[], by simp [hh], fun client hc => .same (hg c ▸ hc) (.refl client) (by simp)⟩

theorem Continues.refl (w : World) : w.Continues w := .of_frame (by simp) (by simp) (by simp)

theorem Continues.trans (h : w.Continues v) (h' : v.Continues u) : w.Continues u where
  configs := h'.configs.trans h.configs
  client c := by
    obtain ⟨es, hes, hc⟩ := h.client c
    obtain ⟨fs, hfs, hc'⟩ := h'.client c
    exact ⟨es ++ fs, by rw [hfs, hes, List.append_assoc], fun client hg => .trans hc (hc' client hg)⟩

theorem Continues.of_changed {es : List Event} {o : Option Client} (h : Changed w v c es o)
    (ho : ∀ client' ∈ o, Client.Continues (w.getClient c) es client') : w.Continues v where
  configs := h.configs
  client d := by
    by_cases hd : d = c
    · subst hd
      refine ⟨es, by simp [h.history], fun client' hg => ho client' ?_⟩
      simpa [h.client] using hg
    · refine ⟨[], by simp [h.history, Ne.symm hd], fun client' hg => ?_⟩
      rw [h.client, if_neg hd] at hg
      exact .same hg (.refl client') (by simp)

theorem Continues.of_blank {es : List Event} {client' : Client} (h : Changed w v c es (some client'))
    (hb : client'.Blank) (hes : ∃ e ∈ es, e.forgets = true) : w.Continues v := by
  refine .of_changed h ?_
  rintro _ ⟨⟩
  exact .blank hb hes

theorem Continues.of_log {e : Event} (he : e.client = some c) (hq : e.forgets = false) : w.Continues (w.log e) :=
  .of_changed (w.log_changed he) fun client hg => .same hg (.refl client) (by simpa using hq)

variable {client : Client} (hg : w.getClient c = some client)
include hg

theorem Continues.of_client {es : List Event} {client' : Client} (h : Changed w v c es (some client'))
    (hsame : client.SameRequest client') (hes : ∀ e ∈ es, e.forgets = false) : w.Continues v := by
  refine .of_changed h ?_
  rintro _ ⟨⟩
  exact .same hg hsame hes

/-! ## Handlers -/

theorem cgiOutputRead_continues (bytes : Bytes) : w.Continues (w.cgiOutputRead c client bytes).1 ∧
    (w.cgiOutputRead c client bytes).1.getClient c = some (w.cgiOutputRead c client bytes).2 := by
  have hread : ∃ es, Changed w (w.cgiOutputRead c client bytes).1 c es (some (w.cgiOutputRead c client bytes).2) ∧
      client.SameRequest (w.cgiOutputRead c client bytes).2 ∧ ∀ e ∈ es, e.forgets = false := by
    unfold cgiOutputRead
    dsimp only
    split
    · refine ⟨[.cgiRead c bytes, .streamed c false bytes], ?_, ?_, by simp [Event.forgets]⟩
      · constructor <;> simp [Event.client]
      · constructor <;> simp [Client.appendCgiSendPending]
    · split
      · refine ⟨[.cgiRead c bytes], ?_, ?_, by simp [Event.forgets]⟩
        · constructor <;> simp [Event.client]
        · constructor <;> simp [Client.appendCgiOutput]
      · next headerPart body _ =>
        refine ⟨[.cgiRead c bytes, .streamed c true (cgiHead headerPart ++ body)], ?_, ?_, by simp [Event.forgets]⟩
        · constructor <;> simp [Event.client, cgiHead]
        · constructor <;> simp [Client.appendCgiSendPending, Client.appendCgiOutput]
  obtain ⟨es, h, hsame, hes⟩ := hread
  exact ⟨.of_client hg h hsame hes, by simp [h.client]⟩

end

/-- When a script is over its request is forgotten. -/
theorem finalizeCgi_continues (w : World) (a : Answers) (c : Fd) (client : Client) (idx : ℕ) :
    w.Continues (w.finalizeCgi a c client idx) := by
  have hdone : ∃ es client', Changed w (w.finalizeCgi a c client idx) c es (some client') ∧ client'.Blank ∧
      Event.finalized c ∈ es := by
    unfold finalizeCgi
    dsimp only
    split
    · refine ⟨[.cgiEnded c client.cgiStdinFd.isSome, .finalized c], { client.clearBuffer with
        cgiStdoutFd := none, cgiStdinFd := none, cgiPid := none, cgiActive := false }, ?_, ?_, by simp⟩
      · constructor <;> simp [Event.client, finishCgi_client, Client.clearBuffer]
      · constructor <;> simp [Client.clearBuffer, reset]
    · generalize (if client.cgiOutput = [] then _ else _ : Option HTTPResponse) = response
      refine ⟨[.cgiEnded c client.cgiStdinFd.isSome, .responded c (responseText response), .finalized c],
        { (client.setResponse (responseText response)).clearBuffer with
          cgiStdoutFd := none, cgiStdinFd := none, cgiPid := none, cgiActive := false }, ?_, ?_, by simp⟩
      · constructor <;> simp [respond, finishCgi_client, Client.setResponse, Client.clearBuffer, Event.client]
      · constructor <;> simp [Client.clearBuffer, reset]
  obtain ⟨es, client', h, hb, hes⟩ := hdone
  exact .of_blank h hb ⟨_, hes, by simp [Event.forgets]⟩

theorem cgiOutputEnd_continues (w : World) (a : Answers) (idx : ℕ) (cgiFd c : Fd) (client : Client) :
    w.Continues (w.cgiOutputEnd a idx cgiFd c client) := by
  have hclosed : w.Continues (((w.eraseCgiFd cgiFd).closeFd cgiFd).eraseEntry idx) :=
    .of_frame (by simp) (by simp) (by simp)
  exact hclosed.trans (finalizeCgi_continues _ a c _ _)

section
variable {w : World} {c : Fd} {client : Client}

theorem modifyEntry_continues (w : World) (idx : ℕ) (f : PollFd → PollFd) : w.Continues (w.modifyEntry idx f) :=
  .of_frame (by simp) (by simp) (by simp)

theorem removeClient_continues (w : World) (idx : ℕ) (reaped : Bool) (reason : RemoveReason) :
    w.Continues (w.removeClient idx reaped reason) :=
  .of_changed (w.removeClient_changed idx reaped reason) (by simp)

theorem stdinHangup_continues (w : World) (idx : ℕ) (fd : Fd) : w.Continues (w.stdinHangup idx fd) := by
  cases hc : w.cgiStdinFdToClientFd[fd]? with
  | none =>
    unfold stdinHangup
    simp only [hc]
    exact .of_frame (by simp) (by simp) (by simp)
  | some c =>
    refine .of_changed (w.stdinHangup_changed idx hc) ?_
    intro client' hmem
    obtain ⟨client, hg, rfl⟩ := Option.map_eq_some_iff.mp (Option.mem_def.mp hmem)
    refine .same hg ?_ (by simp)
    constructor <;> simp

theorem handleCgiStdinWritable_continues (w : World) (a : Answers) (idx : ℕ) :
    w.Continues (w.handleCgiStdinWritable a idx).2 := by
  cases hc : w.cgiStdinFdToClientFd[(w.entry idx).fd]? with
  | none =>
    unfold handleCgiStdinWritable
    simp only [hc]
    exact .of_frame (by simp) (by simp) (by simp)
  | some c =>
    cases hg : w.getClient c with
    | none =>
      unfold handleCgiStdinWritable
      simp only [hc, hg]
      exact .of_frame (by simp) (by simp) (by simp)
    | some client =>
      obtain ⟨pieces, q, s, -, -, h⟩ := w.handleCgiStdinWritable_changed (a := a) hc hg
      refine .of_client hg h ?_ (by simp [Event.forgets])
      constructor <;> simp

theorem acceptFd_continues (w : World) (serverIndex now : ℕ) (fd : Fd) : w.Continues (w.acceptFd serverIndex now fd) := by
  have hknown : w.clients.contains fd = (w.getClient fd).isSome := Std.ExtTreeMap.contains_eq_isSome_getElem?
  cases hg : w.getClient fd with
  | some client =>
    have h : Changed w (w.acceptFd serverIndex now fd) fd [.accepted fd true] (some client) := by
      constructor <;> simp [acceptFd, hknown, hg, Event.client]
    exact .of_client hg h (.refl client) (by simp [Event.forgets])
  | none =>
    have h : Changed w (w.acceptFd serverIndex now fd) fd [.accepted fd false] (some (Client.create fd serverIndex now)) := by
      constructor <;> simp [acceptFd, hknown, hg, Event.client]
    exact .of_blank h (by constructor <;> rfl) ⟨_, List.mem_singleton_self _, rfl⟩

theorem acceptLoop_continues (serverIndex now : ℕ) (fds : List Fd) (w : World) :
    w.Continues (acceptLoop serverIndex now fds w) := by
  induction fds generalizing w with
  | nil => exact .refl w
  | cons fd fds ih =>
    unfold acceptLoop
    split
    · exact .refl w
    · exact (acceptFd_continues w serverIndex now fd).trans (ih _)

theorem cgiOutputLoop_continues (a : Answers) (idx : ℕ) (cgiFd : Fd) (answers : List ReadAnswer) (total : ℕ)
    (hg : w.getClient c = some client) :
    w.Continues (cgiOutputLoop a idx cgiFd c answers total w client).2 := by
  induction answers generalizing w client total with
  | nil => exact .refl w
  | cons answer answers ih =>
    unfold cgiOutputLoop
    split
    · split
      · next bytes _ =>
        obtain ⟨hread, hg'⟩ := cgiOutputRead_continues hg bytes
        dsimp only
        split
        · exact hread.trans (modifyEntry_continues _ _ _)
        · exact hread.trans (ih _ hg')
      · exact .refl w
      · exact cgiOutputEnd_continues w a idx cgiFd c client
      · exact cgiOutputEnd_continues w a idx cgiFd c client
    · exact .refl w

theorem handleCgiOutput_continues (w : World) (a : Answers) (idx : ℕ) : w.Continues (w.handleCgiOutput a idx).2 := by
  have hdropped : w.Continues (((w.closeFd (w.entry idx).fd).eraseCgiFd (w.entry idx).fd).eraseEntry idx) :=
    .of_frame (by simp) (by simp) (by simp)
  unfold handleCgiOutput
  dsimp only
  split
  · exact hdropped
  · split
    · exact hdropped
    · next client hg => exact cgiOutputLoop_continues a idx _ _ 0 hg

/-- Bytes for a running script are no part of a request. -/
theorem forwardBody_continues (now : ℕ) (bytes : Bytes) (answer : ℕ) (hg : w.getClient c = some client) :
    w.Continues (w.forwardBody now c client bytes answer).1 := by
  cases hin : client.cgiStdinFd with
  | none =>
    refine .of_client hg (w.forwardBody_closed c client now bytes answer hin) ?_ (by simp [Event.forgets])
    constructor <;> simp [Client.updateActivity]
  | some stdinFd =>
    cases hch : client.cgiChunked with
    | false =>
      obtain ⟨q, s, e, taken, -, -, -, h⟩ := forwardBody_counted (w := w) (c := c) now answer hin hch
      refine .of_client hg h ?_ (by simp [Event.forgets])
      constructor <;> simp
    | true =>
      cases hok : (Client.decodeChunkedForCgi client.cgiChunk bytes).ok with
      | false =>
        refine .of_client hg (forwardBody_failed now answer hin hch hok) ?_ (by simp [Event.forgets])
        constructor <;> simp
      | true =>
        obtain ⟨q, s, e, taken, -, -, -, h⟩ := forwardBody_decoded (w := w) (c := c) now answer hin hch hok
        refine .of_client hg h ?_ (by simp [Event.forgets])
        constructor <;> simp

theorem endInput_continues (hg : w.getClient c = some client) : w.Continues (w.endInput c client) := by
  refine .of_client hg (w.endInput_exact c client) ?_ (by simp [Event.forgets])
  constructor <;> simp

theorem bodyLoop_continues (a : Answers) (idx : ℕ) (answers : List ReadAnswer) (writes : List ℕ) (total : ℕ)
    (hg : w.getClient c = some client) : w.Continues (bodyLoop a idx c answers writes total w client) := by
  induction answers generalizing w client writes total with
  | nil => exact .refl w
  | cons answer answers ih =>
    unfold bodyLoop
    split
    · split
      · exact modifyEntry_continues w idx _
      · split
        · exact endInput_continues hg
        · exact endInput_continues hg
        · exact .refl w
        · next bytes _ =>
          have hread := forwardBody_continues a.now bytes (writes.head?.getD 0) hg
          split
          · next w' hlast =>
            rw [hlast] at hread
            exact hread
          · next w' client' hmore =>
            rw [hmore] at hread
            exact hread.trans (ih _ _ (getClient_forwardBody hmore))
    · exact .refl w

theorem completed_continues (idx : ℕ) (reaped : Bool) (hg : w.getClient c = some client) :
    w.Continues (((w.setClient c client.clearResponse).modifyEntry idx PollFd.disablePollout).removeClient idx reaped
      .complete) := by
  have hset : w.Continues (w.setClient c client.clearResponse) := by
    refine .of_client hg (w.setClient_changed c _) ?_ (by simp)
    constructor <;> simp [Client.clearResponse]
  exact hset.trans ((modifyEntry_continues _ idx _).trans (removeClient_continues _ idx reaped .complete))

theorem sendLoop_continues (a : Answers) (idx : ℕ) (answers : List SendAnswer) (total : ℕ)
    (hg : w.getClient c = some client) : w.Continues (sendLoop a idx c answers total w client).2 := by
  induction answers generalizing w client total with
  | nil => exact .refl w
  | cons answer answers ih =>
    unfold sendLoop
    split
    · split
      · split
        · exact modifyEntry_continues w idx _
        · exact completed_continues idx a.reaped hg
      · split
        · exact .refl w
        · exact removeClient_continues w idx _ _
        · next n _ =>
          dsimp only
          split
          · have h := w.sendPending_changed a.now c client (min n client.cgiSendPending.size) (Nat.min_le_right _ _)
            have hsent : w.Continues (w.sendPending a.now c client (min n client.cgiSendPending.size)
                (Nat.min_le_right _ _)).1 := by
              refine .of_client hg h ?_ (by simp [Event.forgets])
              constructor <;> simp [Client.updateActivity, Client.consumeCgiSendPending]
            refine hsent.trans (ih _ ?_)
            rw [h.client, if_pos rfl]
            rfl
          · exact ih total hg
    · exact .refl w

theorem sendResponse_continues (a : Answers) (idx : ℕ) (hg : w.getClient c = some client) :
    w.Continues (w.sendResponse a idx c client).2 := by
  unfold sendResponse
  dsimp only
  split
  · exact removeClient_continues w idx _ _
  · exact removeClient_continues w idx _ _
  · next n _ =>
    have hsent (sent : ℕ) : w.Continues ((w.log (.sent c false ((client.response.drop client.responseOffset).take
        sent))).setClient c ((client.advanceResponseOffset sent).updateActivity a.now)) := by
      refine .of_client hg ((log_changed w rfl).trans (setClient_changed _ c _)) ?_ (by simp [Event.forgets])
      constructor <;> simp [Client.updateActivity, Client.advanceResponseOffset]
    split
    · exact (hsent _).trans (completed_continues idx a.reaped (getClient_setClient_self _ _ _))
    · exact hsent _

theorem handlePollErrors_continues (w : World) (a : Answers) (idx : ℕ) : w.Continues (w.handlePollErrors a idx).2 := by
  unfold handlePollErrors
  dsimp only
  split
  · split
    · exact .refl w
    · split
      · exact .refl w
      · split
        · exact stdinHangup_continues w idx _
        · exact removeClient_continues w idx _ _
  · exact .refl w

theorem handlePollOutput_continues (w : World) (a : Answers) (idx : ℕ) :
    w.Continues (w.handlePollOutput a idx).2.2 := by
  unfold handlePollOutput
  dsimp only
  split
  · split
    · exact handleCgiStdinWritable_continues w a idx
    · split
      · exact .refl w
      · next client hg =>
        split
        · exact sendLoop_continues a idx _ 0 hg
        · split
          · exact .refl w
          · exact sendResponse_continues a idx hg
  · exact .refl w

end

/-- The bytes that a call of `handleClientRead` takes for a request, and for whom. -/
def requestInput (w : World) (a : Answers) (idx : ℕ) : Option (Fd × Bytes) :=
  match w.getClient (w.entry idx).fd with
  | none => none
  | some client =>
    if client.cgiActive then none
    else
      match w.read client.fd (a.reads.head?.getD .again) with
      | .data bytes => some ((w.entry idx).fd, bytes)
      | _ => none

theorem handleClientRead_continues {w : World} {a : Answers} {idx : ℕ} (h : w.requestInput a idx = none) :
    w.Continues (w.handleClientRead a idx).2 := by
  unfold requestInput at h
  unfold handleClientRead
  dsimp only
  split
  · exact .refl w
  next client hg =>
  simp only [hg] at h
  split
  · exact bodyLoop_continues a idx _ _ 0 hg
  next ha =>
  have hclosed (reason : RemoveReason) : w.Continues ((w.log (.requestRead (w.entry idx).fd
      (Answered (client.updateActivity a.now)) .removed)).removeClient idx a.reaped reason) :=
    (Continues.of_log rfl rfl).trans (removeClient_continues _ idx a.reaped reason)
  simp only [ha, Bool.false_eq_true, if_false] at h
  have hfd : (client.updateActivity a.now).fd = client.fd := rfl
  rw [hfd]
  split
  · exact hclosed .closedByClient
  · exact hclosed .readError
  · refine .of_client hg (w.setClient_changed _ _) ?_ (by simp)
    constructor <;> simp [Client.updateActivity]
  · next bytes hr => simp [hr] at h

theorem handleClientRead_requestBytes {w : World} {a : Answers} {idx : ℕ} {c : Fd} {bytes : Bytes}
    (h : w.requestInput a idx = some (c, bytes)) : ∃ client, w.getClient c = some client ∧ client.cgiActive = false ∧
      w.handleClientRead a idx = (idx, w.requestBytes a c (client.updateActivity a.now) idx bytes) := by
  unfold requestInput at h
  split at h
  · cases h
  next client hg =>
  split at h
  · cases h
  next ha =>
  split at h
  · next bytes' hr =>
    obtain ⟨rfl, rfl⟩ : (w.entry idx).fd = c ∧ bytes' = bytes := by simpa using h
    refine ⟨client, hg, by simpa using ha, ?_⟩
    have hread : w.read (client.updateActivity a.now).fd (a.reads.head?.getD .again) = .data bytes' := hr
    simp only [handleClientRead, hg, ha, hread, if_false, Bool.false_eq_true]
  · cases h

end World

namespace LoopState

/-- The bytes that a step takes for a request, and for whom. -/
def requestInput (s : LoopState) (a : Answers) : Option (Fd × Bytes) :=
  match s.point with
  | .input idx => if s.world.readsClient idx then s.world.requestInput a idx else none
  | _ => none

theorem step_continues {s : LoopState} {a : Answers} (h : s.requestInput a = none) :
    s.world.Continues (s.step a).world := by
  obtain ⟨w, point⟩ := s
  cases point with
  | poll =>
    simp only [step]
    split
    · exact .refl w
    · exact .refl w
    · exact .of_frame (by simp) (fun _ => rfl) (fun _ => rfl)
  | errors idx =>
    simp only [step]
    split
    · have hstep := w.handlePollErrors_continues a idx
      split <;> next he => rw [he] at hstep; exact hstep
    · exact .refl w
  | input idx =>
    have hstep : w.Continues (w.handlePollInput a idx).2.2 := by
      unfold handlePollInput
      dsimp only
      split
      · next hin =>
        split
        · exact acceptLoop_continues _ _ _ _
        next hl =>
        split
        · exact .refl w
        next hs =>
        split
        · exact handleCgiOutput_continues w a idx
        next ho =>
        refine handleClientRead_continues ?_
        simpa [requestInput, readsClient, hin, hl, hs, ho] using h
      · split
        · exact handleCgiOutput_continues w a idx
        · exact .refl w
    simp only [step]
    split <;> next v he =>
      rw [he] at hstep
      cases v.aborted with
      | true => exact .refl w
      | false => exact hstep
  | output idx =>
    have hstep := w.handlePollOutput_continues a idx
    simp only [step]
    split
    · next he => rw [he] at hstep; exact hstep
    · next he =>
      rw [he] at hstep
      exact hstep.trans (modifyEntry_continues _ _ _)
  | timeouts now i =>
    simp only [step]
    split
    · unfold timeoutStep
      dsimp only
      split
      · exact .refl w
      · split
        · exact .refl w
        · split
          · exact removeClient_continues w i _ _
          · exact .refl w
    · exact .refl w
  | stopped => exact .refl w
  | aborted => exact .refl w

theorem step_requestBytes {s : LoopState} {a : Answers} {c : Fd} {bytes : Bytes}
    (h : s.requestInput a = some (c, bytes)) : ∃ client idx, s.world.getClient c = some client ∧
      client.cgiActive = false ∧
      s.step a = if (s.world.requestBytes a c (client.updateActivity a.now) idx bytes).aborted then ⟨s.world, .aborted⟩
        else ⟨s.world.requestBytes a c (client.updateActivity a.now) idx bytes, .output idx⟩ := by
  obtain ⟨w, point⟩ := s
  cases point with
  | input idx =>
    simp only [requestInput] at h
    split at h
    · next hr =>
      obtain ⟨client, hg, ha, hread⟩ := handleClientRead_requestBytes h
      refine ⟨client, idx, hg, ha, ?_⟩
      have hentry : ((((w.entry idx).revents.pollin = true ∧ w.isListeningSocket (w.entry idx).fd = false) ∧
          w.isCgiStdinFd (w.entry idx).fd = false)) ∧ w.isCgiFd (w.entry idx).fd = false := by
        simpa [readsClient] using hr
      obtain ⟨⟨⟨hin, hl⟩, hs⟩, ho⟩ := hentry
      simp only [step, handlePollInput, hin, hl, hs, ho, hread, if_true, Bool.false_eq_true, if_false]
    · cases h
  | _ => cases h

end LoopState

/-! ## What a decision leads to -/

namespace World

/-- How the read ends for the connection. -/
def Decision.outcome : Decision → ReadOutcome
  | .wait => .wait
  | .reject _ => .answered
  | .dispatch => .dispatched
  | .answer _ => .answered

/-- The part of the body that a script is started with. -/
def firstPiece (request : HTTPRequest) : Bytes :=
  (cgiInput { Client.create 0 0 0 with request } 0 0 0).2.1

theorem cgiInput_firstPiece (client : Client) (pid stdinFd stdoutFd : ℕ) :
    (cgiInput client pid stdinFd stdoutFd).2.1 = firstPiece client.request := by
  unfold firstPiece cgiInput
  dsimp only
  split
  · split <;> rfl
  · rfl

/-- What is recorded for a decision, behind the read that led to it; nothing is when its response cannot be made. -/
inductive Records (files : FileSystem) (conf : ServerConfig) (c : Fd) (request : HTTPRequest) :
    Decision → Option (List Event) → Prop
  | wait : Records files conf c request .wait (some [])
  | reject (response : Option HTTPResponse) : Records files conf c request (.reject response)
      (response.map fun r => [.responded c (closing r).toString])
  | answer (response : Option HTTPResponse) : Records files conf c request (.answer response)
      (response.map fun r => [.responded c (closing r).toString])
  | started (stdin stdout : Fd) (taken : ℕ) : Records files conf c request .dispatch
      (some [.dispatched c stdin stdout, .forwarded c [] (firstPiece request) taken])
  | failed : Records files conf c request .dispatch ((HTTPResponse.error500 files (getErrorPage 500 conf)).map fun r =>
      [.responded c (closing r).toString])

theorem requestBytes_records (w : World) (a : Answers) (c : Fd) (client : Client) (idx : ℕ) (bytes : Bytes) :
    let parsed := readRequest a (w.config client) client bytes
    ∃ recorded, Records a.files (w.config client) c parsed.2.request parsed.1 recorded ∧
      (w.requestBytes a c client idx bytes).aborted = (w.aborted || recorded.isNone) ∧
      ∀ es ∈ recorded, ∃ client', Client.Continues (some parsed.2) es client' ∧
        Changed w (w.requestBytes a c client idx bytes) c
          (.requestRead c (Answered client) parsed.1.outcome :: es) (some client') := by
  intro parsed
  obtain ⟨b, r, s, hclient⟩ := readRequest_client a (w.config client) client bytes
  -- an answer forgets the request and is recorded when there is one
  have hanswer (outcome : ReadOutcome) {v : World} (response : Option HTTPResponse) (g : PollFd → PollFd)
      {new : List Fd} (hv : PipesMade (w.log (.requestRead c (Answered client) outcome)) v new none) :
      ((v.respond c parsed.2 response).modifyEntry idx g).aborted = (w.aborted || (response.map fun r =>
        [Event.responded c (closing r).toString]).isNone) ∧
      ∀ es ∈ response.map fun r => [Event.responded c (closing r).toString],
        ∃ client', Client.Continues (some parsed.2) es client' ∧
          Changed w ((v.respond c parsed.2 response).modifyEntry idx g) c
            (.requestRead c (Answered client) outcome :: es) (some client') := by
    refine ⟨by simp [hv.aborted], ?_⟩
    intro es hes
    obtain ⟨r, rfl, rfl⟩ := Option.map_eq_some_iff.mp hes
    have hch := (log_changed w rfl).trans (hv.changed (v.answered_changed c parsed.2 (some r) idx g))
    exact ⟨_, .blank (by constructor <;> rfl) ⟨_, List.mem_singleton_self _, rfl⟩, hch⟩
  unfold requestBytes
  split
  · next client' hr =>
    have hparsed : parsed = (.wait, client') := hr
    rw [hparsed]
    refine ⟨some [], .wait, by simp, ?_⟩
    rintro es ⟨⟩
    exact ⟨client', .same rfl (.refl client') (by simp), (log_changed w rfl).trans (setClient_changed _ c _)⟩
  · next response client' hr =>
    have hparsed : parsed = (.reject response, client') := hr
    have hrecorded := hanswer .answered response PollFd.onlyPollout (.refl _)
    rw [hparsed] at hrecorded ⊢
    exact ⟨_, .reject response, hrecorded⟩
  · next client' hr =>
    have hparsed : parsed = (.dispatch, client') := hr
    have hroute := readRequest_dispatch hr
    have hi : client'.serverIndex = client.serverIndex := by
      rw [hr] at hclient
      rw [show client' = _ from hclient]
    have hconf {v : World} (hv : v.configs = w.configs) : v.config client' = w.config client := by
      rw [config, config, hv, hi]
    have hroute' : (matchRoute (stripQueryString client'.request.requestTarget)
        ((w.log (.requestRead c (Answered client) .dispatched)).config client')).isSome := by
      change (matchRoute _ (w.config client')).isSome
      rwa [hconf rfl]
    rcases dispatchCgi_cases (w.log (.requestRead c (Answered client) .dispatched)) a c idx hroute' with
      ⟨v, new, hv, he⟩ | ⟨v, pid, stdinFd, stdoutFd, hv, -, he⟩
    · have hrecorded := hanswer .dispatched (HTTPResponse.error500 a.files (getErrorPage 500 (v.config client')))
        PollFd.enablePollout hv
      rw [hconf hv.configs, hparsed] at hrecorded
      rw [hparsed, he, dispatchFailed, hconf hv.configs]
      exact ⟨_, .failed, hrecorded⟩
    · obtain ⟨q, s', e, taken, -, -, -, -, hch⟩ := v.startCgiRun_input a c client' pid stdinFd stdoutFd
      obtain ⟨n, chunked, d, hinput⟩ := cgiInput_client client' pid stdinFd stdoutFd
      rw [cgiInput_firstPiece] at hch
      rw [hparsed, he]
      refine ⟨_, .started stdinFd stdoutFd taken, by simp [hv.aborted], ?_⟩
      rintro es ⟨⟩
      refine ⟨_, .same rfl ?_ (by simp [Event.forgets]), (log_changed w rfl).trans (hv.changed hch)⟩
      rw [hinput]
      constructor <;> rfl
  · next response client' hr =>
    have hparsed : parsed = (.answer response, client') := hr
    have hrecorded := hanswer .answered response PollFd.enablePollout (.refl _)
    rw [hparsed] at hrecorded ⊢
    exact ⟨_, .answer response, hrecorded⟩

end World

/-- A step that takes bytes for a request does what is recorded for the decision on them, or it throws. -/
theorem LoopState.step_records {s : LoopState} {a : Answers} {c : Fd} {bytes : Bytes}
    (hw : s.world.aborted = false) (h : s.requestInput a = some (c, bytes)) :
    ∃ client, s.world.getClient c = some client ∧ client.cgiActive = false ∧
      let parsed := readRequest a (s.world.config client) (client.updateActivity a.now) bytes
      ∃ recorded, Records a.files (s.world.config client) c parsed.2.request parsed.1 recorded ∧
        (recorded = none → s.step a = ⟨s.world, .aborted⟩) ∧
        ∀ es ∈ recorded, ∃ client', Client.Continues (some parsed.2) es client' ∧
          Changed s.world (s.step a).world c (.requestRead c (Answered client) parsed.1.outcome :: es)
            (some client') := by
  obtain ⟨client, idx, hg, ha, hstep⟩ := step_requestBytes h
  obtain ⟨recorded, hrecords, haborted, hsome⟩ :=
    s.world.requestBytes_records a c (client.updateActivity a.now) idx bytes
  rw [hw, Bool.false_or] at haborted
  refine ⟨client, hg, ha, recorded, hrecords, ?_, ?_⟩
  · rintro rfl
    rw [hstep, haborted]
    rfl
  · rintro es ⟨⟩
    rw [hstep, haborted]
    exact hsome es rfl

/-! ## Runs -/

/-- The loop, beside what came in on each connection since its request was begun: bytes
taken for a request are added, and all are dropped when the request is forgotten. A
connection under a number whose client is still there goes on with the request of that client,
and so with its bytes. -/
structure Tracked where
  loop : LoopState
  input : Fd → Bytes := fun _ => []

namespace Tracked

def step (t : Tracked) (a : Answers) : Tracked where
  loop := t.loop.step a
  input c :=
    if (((t.loop.step a).world.history c).drop (t.loop.world.history c).length).any Event.forgets then []
    else
      match t.loop.requestInput a with
      | some (d, bytes) => if d = c then t.input c ++ bytes else t.input c
      | none => t.input c

def run (t : Tracked) (as : List Answers) : Tracked := as.foldl step t

theorem run_loop (t : Tracked) (as : List Answers) : (t.run as).loop = t.loop.run as := by
  induction as generalizing t with
  | nil => rfl
  | cons a as ih => exact ih (t.step a)

/-- What came in is what the parser of each client was given. -/
def Faithful (t : Tracked) : Prop := t.loop.point ≠ .aborted → ∀ c client, t.loop.world.getClient c = some client →
  Gated (t.loop.world.config client) (t.input c) client

end Tracked

theorem World.Gated.of_same {conf : ServerConfig} {input : Bytes} {client client' : Client}
    (h : Gated conf input client) (hsame : client.SameRequest client') : Gated conf input client' := by
  rcases h with ⟨hc, hs, hb, hr⟩ | ⟨hs, buf, hpre, hc, hr⟩
  · exact Or.inl ⟨hc, hsame.started.trans hs, hsame.buffer.trans hb, hsame.request.trans hr⟩
  · exact Or.inr ⟨hsame.started.trans hs, buf, hpre, hc, hsame.request.trans hr⟩

theorem Client.Blank.gated {client : Client} (h : client.Blank) (conf : ServerConfig) : Gated conf [] client :=
  Or.inl ⟨rfl, h.started, h.buffer, h.request⟩

theorem World.config_congr {w w' : World} {client client' : Client} (hf : w'.configs = w.configs)
    (hi : client'.serverIndex = client.serverIndex) : w'.config client' = w.config client := by
  rw [config, config, hf, hi]

/-- The parser of a client goes on from where it was, or begins with nothing. -/
theorem Client.Continues.gated {w w' : World} {o : Option Client} {es : List Event} {client' : Client} {input : Bytes}
    (h : Client.Continues o es client') (hf : w'.configs = w.configs)
    (ho : ∀ client, o = some client → Gated (w.config client) input client) :
    Gated (w'.config client') (if es.any Event.forgets then [] else input) client' := by
  cases h with
  | @same client hg hsame hes =>
    have hnone : es.any Event.forgets = false := by simpa using hes
    rw [hnone, config_congr hf hsame.serverIndex]
    exact (ho client hg).of_same hsame
  | blank hb hes =>
    have hsome : es.any Event.forgets = true := by simpa using hes
    rw [hsome]
    exact hb.gated _

/-- The client after a read is the one that its parser made of the bytes. -/
theorem World.Gated.read {w : World} {client : Client} {input : Bytes} (h : Gated (w.config client) input client)
    (a : Answers) (bytes : Bytes) :
    Gated (w.config (readRequest a (w.config client) client bytes).2) (input ++ bytes)
      (readRequest a (w.config client) client bytes).2 := by
  obtain ⟨b, r, s, hclient⟩ := readRequest_client a (w.config client) client bytes
  have hi : (readRequest a (w.config client) client bytes).2.serverIndex = client.serverIndex := by rw [hclient]
  rw [config_congr (w := w) rfl hi, readRequest_request]
  exact (h.feed bytes).1

theorem Tracked.Faithful.step {t : Tracked} (h : t.Faithful) (hw : t.loop.world.aborted = false) (a : Answers) :
    (t.step a).Faithful := by
  intro halive c client' hg'
  have hbefore : t.loop.point ≠ .aborted := by
    intro haborted
    have hsame : (t.step a).loop = t.loop := LoopState.Ended.step (Or.inr haborted) a
    exact halive (hsame ▸ haborted)
  simp only [Tracked.step] at halive hg' ⊢
  cases hr : t.loop.requestInput a with
  | none =>
    have hstep := LoopState.step_continues hr
    obtain ⟨es, hes, hcont⟩ := hstep.client c
    rw [hes, List.drop_left]
    exact (hcont client' hg').gated hstep.configs (h hbefore c)
  | some read =>
    obtain ⟨d, bytes⟩ := read
    obtain ⟨client, hg, ha, recorded, -, hnone, hsome⟩ := LoopState.step_records hw hr
    cases recorded with
    | none => exact absurd (by rw [hnone rfl]) halive
    | some es =>
      obtain ⟨parsed', hcont, hch⟩ := hsome es rfl
      rw [hch.client] at hg'
      rw [hch.history]
      split at hg'
      · next hd =>
        subst hd
        obtain rfl := Option.some.inj hg'
        have hgated : Gated (t.loop.world.config (client.updateActivity a.now)) (t.input c)
            (client.updateActivity a.now) := by
          refine (h hbefore c client hg).of_same ?_
          constructor <;> simp [Client.updateActivity]
        have hparsed := hgated.read a bytes
        have hread := hcont.gated hch.configs (by
          rintro parsed ⟨⟩
          exact hparsed)
        simpa [Event.forgets] using hread
      · next hd =>
        have hne : ¬ d = c := fun he => hd he.symm
        have hconf : (t.loop.step a).world.config client' = t.loop.world.config client' :=
          config_congr hch.configs rfl
        rw [if_neg hne, List.append_nil, List.drop_length, hconf]
        simpa [hne] using h hbefore c client' hg'

theorem Tracked.Faithful.run {t : Tracked} (h : t.Faithful) (hw : t.loop.world.aborted = false) (as : List Answers) :
    (t.run as).Faithful ∧ (t.run as).loop.world.aborted = false := by
  induction as generalizing t with
  | nil => exact ⟨h, hw⟩
  | cons a as ih => exact ih (h.step hw a) (LoopState.step_unmarked hw a)

/-- A step takes what is recorded for a decision into the history of the connection; where nothing is recorded it
throws, and the process is gone. -/
def LoopState.Takes (s s' : LoopState) (c : Fd) (read : Event) : Option (List Event) → Prop
  | some es => s'.world.history c = s.world.history c ++ read :: es
  | none => s'.point = .aborted

/-- What the server does with the bytes of a request is decided by all the bytes that came in since the request was
begun, as if they had come in one read: the response, or the script with the part of the body that it gets first. -/
theorem requests_decided {w : World} (hw : w.Created) (as : List Answers) (a : Answers) {c : Fd} {bytes : Bytes}
    (hr : (Tracked.run ⟨⟨w, .poll⟩, fun _ => []⟩ as).loop.requestInput a = some (c, bytes)) :
    let t := Tracked.run ⟨⟨w, .poll⟩, fun _ => []⟩ as
    ∃ client recorded, t.loop.world.getClient c = some client ∧
      t.loop.Takes (t.loop.step a) c (.requestRead c (Answered client)
        (decideStream a (t.loop.world.config client) (t.input c ++ bytes)).1.outcome) recorded ∧
      Records a.files (t.loop.world.config client) c
        (decideStream a (t.loop.world.config client) (t.input c ++ bytes)).2
        (decideStream a (t.loop.world.config client) (t.input c ++ bytes)).1 recorded := by
  intro t
  have hstart : Tracked.Faithful ⟨⟨w, .poll⟩, fun _ => []⟩ := by
    intro _ c client hg
    obtain ⟨-, hnone, -, -⟩ := hw.start
    simp [hnone] at hg
  have hcreated : w.aborted = false := by
    obtain ⟨configs, sockets, hcreate⟩ := hw
    exact World.openSockets_unmarked hcreate
  obtain ⟨hfaithful, hunmarked⟩ := hstart.run hcreated as
  obtain ⟨client, hg, ha, recorded, hrec, hnone, hsome⟩ := LoopState.step_records hunmarked hr
  have hreading : t.loop.point ≠ .aborted := by
    intro haborted
    simp [t, LoopState.requestInput, haborted] at hr
  have hgated : Gated (t.loop.world.config client) (t.input c) (client.updateActivity a.now) := by
    refine (hfaithful hreading c client hg).of_same ?_
    constructor <;> simp [Client.updateActivity]
  obtain ⟨hdecision, hrequest⟩ := hgated.decides ha a bytes
  refine ⟨client, recorded, hg, ?_, ?_⟩
  · cases recorded with
    | none => exact congrArg LoopState.point (hnone rfl)
    | some es =>
      obtain ⟨parsed', -, hch⟩ := hsome es rfl
      simp only [LoopState.Takes]
      rw [hch.history, if_pos rfl, hdecision]
  · rw [← hdecision]
    rcases hrequest with hrequest | ⟨response, hreject⟩
    · rwa [← hrequest]
    · rw [hreject] at hrec ⊢
      cases hrec with
      | reject => exact .reject response

/-- The second part of a request is to be read. -/
def cutRequest : List Answers :=
  connects ++ (sends 2 (ascii "GET / HTTP/1.1\r\n") ++ (sends 2 (ascii "\r\n")).take 5)

theorem requests_decided_cut :
    let t := Tracked.run ⟨scriptStart, fun _ => []⟩ cutRequest
    ∃ client recorded, t.loop.world.getClient 4 = some client ∧
      t.loop.Takes (t.loop.step { reads := [.data crlf] }) 4 (.requestRead 4 (Answered client)
        (decideStream { reads := [.data crlf] } (t.loop.world.config client) (t.input 4 ++ crlf)).1.outcome) recorded ∧
      Records {} (t.loop.world.config client) 4
        (decideStream { reads := [.data crlf] } (t.loop.world.config client) (t.input 4 ++ crlf)).2
        (decideStream { reads := [.data crlf] } (t.loop.world.config client) (t.input 4 ++ crlf)).1 recorded :=
  requests_decided ⟨[scriptServer], [.listening 3], rfl⟩ cutRequest { reads := [.data crlf] } (by decide +kernel)

end WebServ
