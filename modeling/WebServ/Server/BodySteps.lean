import WebServ.Server.BodyTurns
import WebServ.Server.Entries

/-! # Bodies in the steps of the loop

A step of the loop reads bytes for running scripts, or reads a request that may start a
script, or does neither. What reads and starts keep holds in all reachable states.
-/
namespace WebServ
open World

/-- The body is read in the same way, by a pipe that may have closed. -/
structure Client.SameBody (client client' : Client) : Prop where
  serverIndex : client'.serverIndex = client.serverIndex
  request : client'.request = client.request
  stdin : client'.cgiStdinFd = client.cgiStdinFd ∨ client'.cgiStdinFd = none
  count : client'.cgiBodyBytesForwarded = client.cgiBodyBytesForwarded
  length : client'.cgiBodyContentLength = client.cgiBodyContentLength
  chunked : client'.cgiChunked = client.cgiChunked
  decoder : client'.cgiChunk = client.cgiChunk

theorem Client.SameBody.refl (client : Client) : client.SameBody client := by
  constructor <;> simp

theorem Client.SameBody.trans {client client' client'' : Client} (h : client.SameBody client')
    (h' : client'.SameBody client'') : client.SameBody client'' where
  serverIndex := h'.serverIndex.trans h.serverIndex
  request := h'.request.trans h.request
  stdin := by
    rcases h'.stdin with hs | hs
    · rw [hs]
      exact h.stdin
    · exact Or.inr hs
  count := h'.count.trans h.count
  length := h'.length.trans h.length
  chunked := h'.chunked.trans h.chunked
  decoder := h'.decoder.trans h.decoder

/-- Events that tell what is read of a body and what is handed over. -/
def Event.ofBody : Event → Bool
  | .bodyRead .. | .dispatched .. | .forwarded .. => true
  | _ => false

/-- No script is started, and running scripts get nothing new. -/
structure World.KeepsBodies (w w' : World) : Prop where
  configs : w'.configs = w.configs
  client : ∀ c client', w'.getClient c = some client' → client'.cgiActive = true →
    ∃ client, w.getClient c = some client ∧ client.cgiActive = true ∧ client.SameBody client'
  history : ∀ c, ∃ es, w'.history c = w.history c ++ es ∧ ∀ e ∈ es, e.ofBody = false

namespace World

theorem KeepsBodies.trans {w v u : World} (h : w.KeepsBodies v) (h' : v.KeepsBodies u) : w.KeepsBodies u where
  configs := h'.configs.trans h.configs
  client c client'' hg'' ha'' := by
    obtain ⟨client', hg', ha', hsame'⟩ := h'.client c client'' hg'' ha''
    obtain ⟨client, hg, ha, hsame⟩ := h.client c client' hg' ha'
    exact ⟨client, hg, ha, hsame.trans hsame'⟩
  history c := by
    obtain ⟨es, hes, hq⟩ := h.history c
    obtain ⟨fs, hfs, hq'⟩ := h'.history c
    refine ⟨es ++ fs, by rw [hfs, hes, List.append_assoc], ?_⟩
    intro e he
    exact (List.mem_append.mp he).elim (hq e) (hq' e)

theorem KeepsBodies.of_eq {w w' : World} (hf : w'.configs = w.configs) (hg : ∀ c, w'.getClient c = w.getClient c)
    (hh : ∀ c, w'.history c = w.history c) : w.KeepsBodies w' where
  configs := hf
  client c client' hg' ha := ⟨client', hg c ▸ hg', ha, .refl client'⟩
  history c := ⟨[], by rw [hh, List.append_nil], by simp⟩

theorem KeepsBodies.refl (w : World) : w.KeepsBodies w := .of_eq rfl (fun _ => rfl) (fun _ => rfl)

theorem KeepsBodies.of_changed {w w' : World} {c : Fd} {es : List Event} {o : Option Client}
    (h : Changed w w' c es o) (hes : ∀ e ∈ es, e.ofBody = false)
    (ho : ∀ client' ∈ o, client'.cgiActive = true → ∃ client, w.getClient c = some client ∧
      client.cgiActive = true ∧ client.SameBody client') : w.KeepsBodies w' where
  configs := h.configs
  client d client' hg ha := by
    rw [h.client] at hg
    split at hg
    · next hd =>
      subst hd
      exact ho client' hg ha
    · exact ⟨client', hg, ha, .refl client'⟩
  history d := by
    refine ⟨_, h.history d, ?_⟩
    split
    · exact hes
    · simp

theorem KeepsBodies.of_client {w w' : World} {c : Fd} {client client' : Client} {es : List Event}
    (hg : w.getClient c = some client) (h : Changed w w' c es (some client')) (hes : ∀ e ∈ es, e.ofBody = false)
    (ha : client'.cgiActive = true → client.cgiActive = true) (hb : client.SameBody client') : w.KeepsBodies w' := by
  refine .of_changed h hes ?_
  rintro _ ⟨⟩ hact
  exact ⟨client, hg, ha hact, hb⟩

/-- The connection is left with no script running. -/
theorem KeepsBodies.of_idle {w w' : World} {c : Fd} {es : List Event} {o : Option Client} (h : Changed w w' c es o)
    (hes : ∀ e ∈ es, e.ofBody = false) (ho : ∀ client' ∈ o, client'.cgiActive = false) : w.KeepsBodies w' := by
  refine .of_changed h hes ?_
  intro client' hmem hact
  rw [ho client' hmem] at hact
  cases hact

/-- What holds of every running script still does when it does of the one that changed. -/
theorem Changed.scripts {P : Fd → Client → List Event → Prop} {w w' : World} {c : Fd} {es : List Event}
    {o : Option Client} (hch : Changed w w' c es o)
    (h : ∀ d client, w.getClient d = some client → client.cgiActive = true → P d client (w.history d))
    (hc : ∀ client' ∈ o, client'.cgiActive = true → P c client' (w.history c ++ es)) :
    ∀ d client', w'.getClient d = some client' → client'.cgiActive = true → P d client' (w'.history d) := by
  intro d client hg ha
  rw [hch.client] at hg
  rw [hch.history]
  split at hg
  · next hd =>
    subst hd
    rw [if_pos rfl]
    exact hc client hg ha
  · next hd =>
    rw [if_neg (Ne.symm hd), List.append_nil]
    exact h d client hg ha

/-- A turn that moves no body keeps what such turns keep of a single script. -/
theorem KeepsBodies.scripts {P : Fd → Client → List Event → Prop} {w w' : World} (hkeeps : w.KeepsBodies w')
    (h : ∀ c client, w.getClient c = some client → client.cgiActive = true → P c client (w.history c))
    (hsame : ∀ c client client' history es, P c client history → (∀ e ∈ es, e.ofBody = false) →
      client.SameBody client' → P c client' (history ++ es)) :
    ∀ c client', w'.getClient c = some client' → client'.cgiActive = true → P c client' (w'.history c) := by
  intro c client' hg' ha'
  obtain ⟨client, hg, ha, hbody⟩ := hkeeps.client c client' hg' ha'
  obtain ⟨es, hes, hquiet⟩ := hkeeps.history c
  rw [hes]
  exact hsame c client client' _ es (h c client hg ha) hquiet hbody

variable (w : World)

/-! ## Handlers that read no body -/

theorem modifyEntry_keepsBodies (idx : ℕ) (f : PollFd → PollFd) : w.KeepsBodies (w.modifyEntry idx f) :=
  .of_eq (by simp) (by simp) (by simp)

theorem log_keepsBodies {c : Fd} {e : Event} (he : e.client = some c) (hq : e.ofBody = false) :
    w.KeepsBodies (w.log e) := by
  refine .of_changed (w.log_changed he) (by simpa using hq) ?_
  intro client hg ha
  exact ⟨client, hg, ha, .refl client⟩

theorem removeClient_keepsBodies (idx : ℕ) (reaped : Bool) (reason : RemoveReason) :
    w.KeepsBodies (w.removeClient idx reaped reason) :=
  .of_idle (w.removeClient_changed idx reaped reason) (by simp [Event.ofBody]) (by simp)

theorem stdinHangup_keepsBodies (idx : ℕ) (fd : Fd) : w.KeepsBodies (w.stdinHangup idx fd) := by
  cases hc : w.cgiStdinFdToClientFd[fd]? with
  | none =>
    refine .of_eq ?_ ?_ ?_ <;> simp [stdinHangup, hc]
  | some c =>
    refine .of_changed (w.stdinHangup_changed idx hc) (by simp) ?_
    intro client' hmem ha
    obtain ⟨client, hg, rfl⟩ := Option.map_eq_some_iff.mp (Option.mem_def.mp hmem)
    refine ⟨client, hg, ha, ?_⟩
    constructor <;> simp

theorem handleCgiStdinWritable_keepsBodies (a : Answers) (idx : ℕ) :
    w.KeepsBodies (w.handleCgiStdinWritable a idx).2 := by
  cases hc : w.cgiStdinFdToClientFd[(w.entry idx).fd]? with
  | none =>
    refine .of_eq ?_ ?_ ?_ <;> simp [handleCgiStdinWritable, hc]
  | some c =>
    cases hg : w.getClient c with
    | none =>
      refine .of_eq ?_ ?_ ?_ <;> simp [handleCgiStdinWritable, hc, hg]
    | some client =>
      obtain ⟨pieces, q, s, hs, -, hch⟩ := handleCgiStdinWritable_changed w (a := a) hc hg
      refine .of_client hg hch ?_ id ?_
      · simp [Event.ofBody]
      · constructor <;> simp [hs.imp_right And.left]

variable {w} {c : Fd} {client : Client}

theorem endInput_keepsBodies (hg : w.getClient c = some client) : w.KeepsBodies (w.endInput c client) := by
  obtain ⟨s, hs, hch⟩ := w.endInput_changed c client
  refine .of_client hg hch (by simp [Event.ofBody]) id ?_
  constructor <;> simp [hs]

theorem acceptFd_keepsBodies (serverIndex now : ℕ) (fd : Fd) : w.KeepsBodies (w.acceptFd serverIndex now fd) := by
  have hknown : w.clients.contains fd = (w.getClient fd).isSome := Std.ExtTreeMap.contains_eq_isSome_getElem?
  unfold acceptFd
  cases hg : w.getClient fd with
  | some client =>
    have hch : Changed w (((w.openFd fd).log (.accepted fd true)).pushPoll fd { pollin := true }) fd
        [.accepted fd true] (w.getClient fd) := by
      constructor <;> simp [hg, Event.client]
    rw [hg] at hch
    simp only [hknown, hg, Option.isSome_some, if_true]
    exact .of_client hg hch (by simp [Event.ofBody]) id (.refl client)
  | none =>
    have hch : Changed w ((((w.openFd fd).log (.accepted fd false)).setClient fd
        (Client.create fd serverIndex now)).pushPoll fd { pollin := true }) fd [.accepted fd false]
        (some (Client.create fd serverIndex now)) := by
      constructor <;> simp [Event.client]
    simp only [hknown, hg, Option.isSome_none, Bool.false_eq_true, if_false]
    refine .of_idle hch (by simp [Event.ofBody]) ?_
    rintro _ ⟨⟩
    rfl

theorem acceptLoop_keepsBodies (serverIndex now : ℕ) (fds : List Fd) :
    w.KeepsBodies (acceptLoop serverIndex now fds w) := by
  induction fds generalizing w with
  | nil => exact .refl w
  | cons fd fds ih =>
    unfold acceptLoop
    split
    · exact .refl w
    · exact (acceptFd_keepsBodies serverIndex now fd).trans ih

/-! ## Output -/

theorem cgiOutputRead_quiet (w : World) (c : Fd) (client : Client) (bytes : Bytes) :
    client.SameBody (w.cgiOutputRead c client bytes).2 ∧ ∃ es, (∀ e ∈ es, e.ofBody = false) ∧
      Changed w (w.cgiOutputRead c client bytes).1 c es (some (w.cgiOutputRead c client bytes).2) := by
  unfold cgiOutputRead
  dsimp only
  split
  · refine ⟨?_, [.cgiRead c bytes, .streamed c true.not bytes], by simp [Event.ofBody], ?_⟩
    · constructor <;> simp [Client.appendCgiSendPending]
    · constructor <;> simp [Event.client]
  · split
    · refine ⟨?_, [.cgiRead c bytes], by simp [Event.ofBody], ?_⟩
      · constructor <;> simp [Client.appendCgiOutput]
      · constructor <;> simp [Event.client]
    · next headerPart body _ =>
      refine ⟨?_, [.cgiRead c bytes, .streamed c true ((closing (HTTPHandler.parseCgiHeaders headerPart)).headerToString ++
        body)], by simp [Event.ofBody], ?_⟩
      · constructor <;> simp [Client.appendCgiSendPending, Client.appendCgiOutput]
      · constructor <;> simp [Event.client]

/-- The script is over, and its request forgotten. -/
theorem finalizeCgi_idle (w : World) (a : Answers) (c : Fd) (client : Client) (idx : ℕ) : ∃ es client',
    (∀ e ∈ es, e.ofBody = false) ∧ client'.cgiActive = false ∧ client'.request = {} ∧
      Changed w (w.finalizeCgi a c client idx) c es (some client') := by
  unfold finalizeCgi
  dsimp only
  generalize (if client.cgiOutput = [] then _ else _ : Option HTTPResponse) = response
  split
  · have hafter : ∃ client', client' = ((w.log (.cgiEnded c client.cgiStdinFd.isSome)).finishCgi client
        a.reaped).2.clearBuffer := ⟨_, rfl⟩
    obtain ⟨client', hclient⟩ := hafter
    rw [← hclient]
    refine ⟨[.cgiEnded c client.cgiStdinFd.isSome, .finalized c], client', by simp [Event.ofBody], ?_, ?_, ?_⟩
    · simp [hclient, finishCgi_client, Client.clearBuffer]
    · rw [hclient]
      rfl
    · constructor <;> simp [Event.client]
  · have hafter : ∃ client', client' = (((w.log (.cgiEnded c client.cgiStdinFd.isSome)).finishCgi client
        a.reaped).2.setResponse (responseText response)).clearBuffer := ⟨_, rfl⟩
    obtain ⟨client', hclient⟩ := hafter
    unfold respond
    rw [← hclient]
    refine ⟨[.cgiEnded c client.cgiStdinFd.isSome, .responded c (responseText response), .finalized c], client',
      by simp [Event.ofBody], ?_, ?_, ?_⟩
    · simp [hclient, finishCgi_client, Client.setResponse, Client.clearBuffer]
    · rw [hclient]
      rfl
    · constructor <;> simp [Event.client]

theorem cgiOutputEnd_idle (w : World) (a : Answers) (idx : ℕ) (cgiFd c : Fd) (client : Client) : ∃ es client',
    (∀ e ∈ es, e.ofBody = false) ∧ client'.cgiActive = false ∧ client'.request = {} ∧
      Changed w (w.cgiOutputEnd a idx cgiFd c client) c es (some client') := by
  unfold cgiOutputEnd
  obtain ⟨es, client', hes, hidle, hreset, hch⟩ := finalizeCgi_idle (((w.eraseCgiFd cgiFd).closeFd cgiFd).eraseEntry
    idx) a c { client with cgiStdoutFd := none } (if idx < (w.pollFds.findIdx? (·.fd = client.fd)).getD 0 then
      (w.pollFds.findIdx? (·.fd = client.fd)).getD 0 - 1 else (w.pollFds.findIdx? (·.fd = client.fd)).getD 0)
  exact ⟨es, client', hes, hidle, hreset, hch.of_frame (by simp) (by simp) (by simp)⟩

theorem cgiOutputEnd_keepsBodies (w : World) (a : Answers) (idx : ℕ) (cgiFd c : Fd) (client : Client) :
    w.KeepsBodies (w.cgiOutputEnd a idx cgiFd c client) := by
  obtain ⟨es, client', hes, hidle, -, hch⟩ := w.cgiOutputEnd_idle a idx cgiFd c client
  refine .of_idle hch hes ?_
  rintro _ ⟨⟩
  exact hidle

theorem cgiOutputLoop_keepsBodies (a : Answers) (idx : ℕ) (cgiFd : Fd) (answers : List ReadAnswer) (total : ℕ)
    (hg : w.getClient c = some client) :
    w.KeepsBodies (cgiOutputLoop a idx cgiFd c answers total w client).2 := by
  induction answers generalizing w client total with
  | nil => exact .refl w
  | cons answer answers ih =>
    unfold cgiOutputLoop
    split
    · split
      · next bytes _ =>
        obtain ⟨hsame, es, hes, hch⟩ := cgiOutputRead_quiet w c client bytes
        have hread : w.KeepsBodies (w.cgiOutputRead c client bytes).1 :=
          .of_client hg hch hes (fun ha => (cgiOutputRead_client w c client bytes).2 ▸ ha) hsame
        dsimp only
        split
        · exact hread.trans (modifyEntry_keepsBodies _ _ _)
        · exact hread.trans (ih _ (by rw [hch.client, if_pos rfl]))
      · exact .refl w
      · exact cgiOutputEnd_keepsBodies w a idx cgiFd c client
      · exact cgiOutputEnd_keepsBodies w a idx cgiFd c client
    · exact .refl w

theorem handleCgiOutput_keepsBodies (w : World) (a : Answers) (idx : ℕ) :
    w.KeepsBodies (w.handleCgiOutput a idx).2 := by
  have hdropped : w.KeepsBodies (((w.closeFd (w.entry idx).fd).eraseCgiFd (w.entry idx).fd).eraseEntry idx) :=
    .of_eq (by simp) (by simp) (by simp)
  unfold handleCgiOutput
  dsimp only
  split
  · exact hdropped
  · split
    · exact hdropped
    · next client hg => exact cgiOutputLoop_keepsBodies a idx _ _ 0 hg

theorem complete_keepsBodies (idx : ℕ) (reaped : Bool) (hg : w.getClient c = some client) {client' : Client}
    (ha : client'.cgiActive = true → client.cgiActive = true) (hb : client.SameBody client') :
    w.KeepsBodies (((w.setClient c client').modifyEntry idx PollFd.disablePollout).removeClient idx reaped
      .complete) :=
  (KeepsBodies.of_client hg (w.setClient_changed c client') (by simp) ha hb).trans
    ((modifyEntry_keepsBodies _ idx _).trans (removeClient_keepsBodies _ idx reaped .complete))

theorem sendLoop_keepsBodies (a : Answers) (idx : ℕ) (fd : Fd) (answers : List SendAnswer) (total : ℕ)
    (hg : w.getClient fd = some client) : w.KeepsBodies (sendLoop a idx fd answers total w client).2 := by
  induction answers generalizing w client total with
  | nil => exact .refl w
  | cons answer answers ih =>
    unfold sendLoop
    split
    · split
      · split
        · exact modifyEntry_keepsBodies w idx _
        · exact complete_keepsBodies idx a.reaped hg id (by constructor <;> simp [Client.clearResponse])
      · split
        · exact .refl w
        · exact removeClient_keepsBodies w idx _ _
        · next n _ =>
          dsimp only
          split
          · have hch := w.sendPending_changed a.now fd client (min n client.cgiSendPending.size)
              (Nat.min_le_right _ _)
            refine .trans (.of_client hg hch (by simp [Event.ofBody]) id ?_) (ih _ ?_)
            · constructor <;> simp [Client.updateActivity, Client.consumeCgiSendPending]
            · rw [hch.client, if_pos rfl]
              rfl
          · exact ih total hg
    · exact .refl w

theorem sendResponse_keepsBodies (a : Answers) (idx : ℕ) {fd : Fd} (hg : w.getClient fd = some client) :
    w.KeepsBodies (w.sendResponse a idx fd client).2 := by
  unfold sendResponse
  dsimp only
  split
  · exact removeClient_keepsBodies w idx _ _
  · exact removeClient_keepsBodies w idx _ _
  · next n _ =>
    have hsent (sent : ℕ) : w.KeepsBodies ((w.log (.sent fd false ((client.response.drop
        client.responseOffset).take sent))).setClient fd ((client.advanceResponseOffset sent).updateActivity a.now)) := by
      refine .of_client hg ((log_changed w rfl).trans (setClient_changed _ fd _)) ?_ id ?_
      · simp [Event.ofBody]
      · constructor <;> simp [Client.updateActivity, Client.advanceResponseOffset]
    split
    · refine (hsent _).trans (complete_keepsBodies idx a.reaped (getClient_setClient_self _ _ _) id ?_)
      constructor <;> simp [Client.clearResponse]
    · exact hsent _

/-! ## Requests -/

/-- Bytes of a request leave the client idle, or start a script with what they bring of its body. -/
theorem requestBytes_outcome (w : World) (a : Answers) {c : Fd} {client : Client} (idx : ℕ) (bytes : Bytes)
    (ha : client.cgiActive = false) :
    let parsed := readRequest a (w.config client) client bytes
    (∃ es client', (∀ e ∈ es, e.ofBody = false) ∧ client'.cgiActive = false ∧
        (client'.request = {} ∨ client'.request = parsed.2.request) ∧
        Changed w (w.requestBytes a c client idx bytes) c es (some client')) ∨
      parsed.1 = .dispatch ∧ ∃ (pid stdinFd stdoutFd : ℕ) (q : OffsetBuffer UInt8) (s : Option Fd) (e : Bool)
        (taken : ℕ),
        let input := cgiInput parsed.2 pid stdinFd stdoutFd
        Changed w (w.requestBytes a c client idx bytes) c
          [.requestRead c (Answered client) .dispatched, .dispatched c stdinFd stdoutFd,
            .forwarded c [] input.2.1 taken]
          (some { input.1 with
            cgiBodyBytesForwarded := input.2.1.length, cgiStdinPending := q, cgiStdinFd := s,
            cgiStdinEof := e }) := by
  intro parsed
  obtain ⟨b, r, started, hcl⟩ := readRequest_client a (w.config client) client bytes
  have hidle : parsed.2.cgiActive = false := by
    simp only [parsed, hcl]
    exact ha
  rcases w.requestBytes_cases a c client idx bytes with
    he | ⟨v, new, outcome, response, g, -, hv, -, he⟩ | ⟨hdispatch, v, pid, stdinFd, stdoutFd, hv, he⟩
  · rw [he]
    refine Or.inl ⟨[.requestRead c (Answered client) .wait], parsed.2, ?_, hidle, Or.inr rfl,
      (log_changed w rfl).trans (setClient_changed _ c _)⟩
    simp [Event.ofBody]
  · rw [he]
    refine Or.inl ⟨[.requestRead c (Answered client) outcome, .responded c (responseText response)],
      (parsed.2.setResponse (responseText response)).clearBuffer, ?_, hidle, Or.inl rfl,
      (log_changed w rfl).trans (hv.changed (v.answered_changed c parsed.2 response idx g))⟩
    simp [Event.ofBody]
  · obtain ⟨q, s, e, taken, -, -, -, -, hch⟩ := v.startCgiRun_input a c parsed.2 pid stdinFd stdoutFd
    rw [he]
    exact Or.inr ⟨hdispatch, pid, stdinFd, stdoutFd, q, s, e, taken, (log_changed w rfl).trans (hv.changed hch)⟩

/-- Bytes of a request start a script with what they bring of its body, or leave all scripts alone. -/
theorem requestBytes_starts (w : World) (a : Answers) {c : Fd} {client : Client} (idx : ℕ) (bytes : Bytes)
    (ha : client.cgiActive = false) : w.KeepsBodies (w.requestBytes a c client idx bytes) ∨
      ∃ (parsed : Client) (pid stdinFd stdoutFd : ℕ) (q : OffsetBuffer UInt8) (s : Option Fd) (e : Bool) (taken : ℕ),
        let input := cgiInput parsed pid stdinFd stdoutFd
        Changed w (w.requestBytes a c client idx bytes) c
          [.requestRead c (Answered client) .dispatched, .dispatched c stdinFd stdoutFd,
            .forwarded c [] input.2.1 taken]
          (some { input.1 with
            cgiBodyBytesForwarded := input.2.1.length, cgiStdinPending := q, cgiStdinFd := s,
            cgiStdinEof := e }) := by
  rcases w.requestBytes_outcome a idx bytes ha with ⟨es, client', hes, hidle, -, hch⟩ | ⟨-, hstarted⟩
  · refine Or.inl (.of_idle hch hes ?_)
    rintro _ ⟨⟩
    exact hidle
  · exact Or.inr ⟨_, hstarted⟩

/-! ## Steps -/

end World

/-- What one call of a handler does with bodies. -/
inductive BodyStep : World → World → Prop
  | kept {w w' : World} (h : w.KeepsBodies w') : BodyStep w w'
  | read {w : World} {c : Fd} {client : Client} (now : ℕ) (bytes : Bytes) (answer : ℕ)
      (hg : w.getClient c = some client) (ha : client.cgiActive = true) :
      BodyStep w (w.forwardBody now c client bytes answer).1
  | request {w : World} {c : Fd} {client : Client} (a : Answers) (idx : ℕ) (bytes : Bytes)
      (ha : client.cgiActive = false) : BodyStep w (w.requestBytes a c client idx bytes)

abbrev BodySteps : World → World → Prop := Relation.ReflTransGen BodyStep

namespace World
variable {w : World} {c : Fd} {client : Client}

theorem bodyLoop_bodySteps (a : Answers) (idx : ℕ) (answers : List ReadAnswer) (writes : List ℕ) (total : ℕ)
    (hg : w.getClient c = some client) (ha : client.cgiActive = true) :
    BodySteps w (bodyLoop a idx c answers writes total w client) := by
  induction answers generalizing w client writes total with
  | nil => exact .refl
  | cons answer answers ih =>
    unfold bodyLoop
    split
    · split
      · exact .single (.kept (modifyEntry_keepsBodies w idx _))
      · split
        · exact .single (.kept (endInput_keepsBodies hg))
        · exact .single (.kept (endInput_keepsBodies hg))
        · exact .refl
        · next bytes _ =>
          have hread : BodyStep w _ := .read a.now bytes (writes.head?.getD 0) hg ha
          obtain ⟨-, hnext⟩ := @forwardBody_moves a.files w none a.now c client bytes (writes.head?.getD 0) hg ha
          split
          · next w' hw =>
            rw [hw] at hread
            exact .single hread
          · next w' client' hw =>
            rw [hw] at hread hnext
            obtain ⟨ha', hg', -⟩ := hnext client' rfl
            exact .head hread (ih writes.tail _ hg' ha')
    · exact .refl

theorem handleClientRead_bodySteps (w : World) (a : Answers) (idx : ℕ) :
    BodySteps w (w.handleClientRead a idx).2 := by
  unfold handleClientRead
  dsimp only
  split
  · exact .refl
  next client hg =>
  split
  · next ha => exact bodyLoop_bodySteps a idx _ _ 0 hg ha
  next ha =>
  have ha : client.cgiActive = false := by simpa using ha
  have hclosed (reason : RemoveReason) : w.KeepsBodies ((w.log (.requestRead (w.entry idx).fd (Answered client)
      .removed)).removeClient idx a.reaped reason) :=
    (log_keepsBodies w rfl rfl).trans (removeClient_keepsBodies _ idx a.reaped reason)
  split
  · exact .single (.kept (hclosed .closedByClient))
  · exact .single (.kept (hclosed .readError))
  · refine .single (.kept (.of_client hg (w.setClient_changed _ _) (by simp) id ?_))
    constructor <;> simp [Client.updateActivity]
  · next bytes _ => exact .single (.request a idx bytes ha)

theorem handlePollErrors_bodySteps (w : World) (a : Answers) (idx : ℕ) :
    BodySteps w (w.handlePollErrors a idx).2 := by
  unfold handlePollErrors
  dsimp only
  split
  · split
    · exact .refl
    · split
      · exact .refl
      · split
        · exact .single (.kept (stdinHangup_keepsBodies w idx _))
        · exact .single (.kept (removeClient_keepsBodies w idx _ _))
  · exact .refl

theorem handlePollInput_bodySteps (w : World) (a : Answers) (idx : ℕ) :
    BodySteps w (w.handlePollInput a idx).2.2 := by
  unfold handlePollInput
  dsimp only
  split
  · split
    · exact .single (.kept (acceptLoop_keepsBodies _ _ _))
    · split
      · exact .refl
      · split
        · exact .single (.kept (handleCgiOutput_keepsBodies w a idx))
        · exact handleClientRead_bodySteps w a idx
  · split
    · exact .single (.kept (handleCgiOutput_keepsBodies w a idx))
    · exact .refl

theorem handlePollOutput_bodySteps (w : World) (a : Answers) (idx : ℕ) :
    BodySteps w (w.handlePollOutput a idx).2.2 := by
  unfold handlePollOutput
  dsimp only
  split
  · split
    · exact .single (.kept (handleCgiStdinWritable_keepsBodies w a idx))
    · split
      · exact .refl
      · next client hg =>
        split
        · exact .single (.kept (sendLoop_keepsBodies a idx _ _ 0 hg))
        · split
          · exact .refl
          · exact .single (.kept (sendResponse_keepsBodies a idx hg))
  · exact .refl

end World

namespace LoopState

theorem step_bodySteps (s : LoopState) (a : Answers) : BodySteps s.world (s.step a).world := by
  obtain ⟨w, point⟩ := s
  cases point with
  | poll =>
    simp only [step]
    split
    · exact .refl
    · exact .refl
    · exact .single (.kept (.of_eq rfl (fun _ => rfl) (fun _ => rfl)))
  | errors idx =>
    simp only [step]
    split
    · have h := w.handlePollErrors_bodySteps a idx
      split <;> next hw => rw [hw] at h; exact h
    · exact .refl
  | input idx =>
    have h := w.handlePollInput_bodySteps a idx
    simp only [step]
    split <;> next v hw =>
      rw [hw] at h
      cases v.aborted with
      | true => exact .refl
      | false => exact h
  | output idx =>
    have h := w.handlePollOutput_bodySteps a idx
    simp only [step]
    split
    · next hw =>
      rw [hw] at h
      exact h
    · next hw =>
      rw [hw] at h
      exact h.tail (.kept (modifyEntry_keepsBodies _ _ _))
  | timeouts now i =>
    simp only [step]
    split
    · unfold timeoutStep
      dsimp only
      split
      · exact .refl
      · split
        · exact .refl
        · split
          · exact .single (.kept (removeClient_keepsBodies w i _ _))
          · exact .refl
    · exact .refl
  | stopped => exact .refl
  | aborted => exact .refl

end LoopState

/-- What reads and starts keep holds in every reachable state. -/
theorem Reachable.bodies {I : World → Prop} (hstart : ∀ w : World, w.Created → I w)
    (hstep : ∀ w w', I w → BodyStep w w' → I w') {s : LoopState} (h : Reachable s) : I s.world := by
  obtain ⟨configs, sockets, w, as, hw, rfl⟩ := h
  have hrun (s : LoopState) (hs : I s.world) : I (s.run as).world := by
    induction as generalizing s with
    | nil => exact hs
    | cons a as ih =>
      refine ih (s.step a) ?_
      have hsteps := s.step_bodySteps a
      generalize (s.step a).world = w' at hsteps
      induction hsteps with
      | refl => exact hs
      | tail _ hlast ih' => exact hstep _ _ ih' hlast
  exact hrun ⟨w, .poll⟩ (hstart w ⟨configs, sockets, hw⟩)

end WebServ
