import WebServ.Server.BodyTurns
import WebServ.Server.Listening

/-! # Connections do not disturb each other

One call of a handler serves one connection. Every other client stays as it is, and
nothing is sent, read or recorded for it.
-/
namespace WebServ
open World

namespace World

/-- Only the connection `c` changed, and its client stayed with its server. -/
structure Affects (c : Fd) (w w' : World) : Prop where
  client : ∀ d ≠ c, w'.getClient d = w.getClient d
  history : ∀ d ≠ c, w'.history d = w.history d
  configs : w'.configs = w.configs
  server : ∀ client', w'.getClient c = some client' →
    ∃ client, w.getClient c = some client ∧ client'.serverIndex = client.serverIndex

section
variable {w v u : World} {c : Fd}

theorem Affects.refl (c : Fd) (w : World) : Affects c w w := ⟨fun _ _ => rfl, fun _ _ => rfl, rfl, fun client hg => ⟨client, hg, rfl⟩⟩

theorem Affects.trans (h : Affects c w v) (h' : Affects c v u) : Affects c w u where
  client d hd := (h'.client d hd).trans (h.client d hd)
  history d hd := (h'.history d hd).trans (h.history d hd)
  configs := h'.configs.trans h.configs
  server client'' hg'' := by
    obtain ⟨client', hg', hi'⟩ := h'.server client'' hg''
    obtain ⟨client, hg, hi⟩ := h.server client' hg'
    exact ⟨client, hg, hi'.trans hi⟩

/-- Nothing that belongs to a connection changed. -/
theorem Affects.of_frame (c : Fd) (hg : ∀ d, v.getClient d = w.getClient d) (hh : ∀ d, v.history d = w.history d)
    (hf : v.configs = w.configs) : Affects c w v where
  client d _ := hg d
  history d _ := hh d
  configs := hf
  server client hc := ⟨client, hg c ▸ hc, rfl⟩

theorem Affects.of_changed {es : List Event} {o : Option Client} (h : Changed w v c es o)
    (hi : ∀ client' ∈ o, ∃ client, w.getClient c = some client ∧ client'.serverIndex = client.serverIndex) :
    Affects c w v where
  client d hd := by rw [h.client, if_neg hd]
  history d hd := by rw [h.history, if_neg (Ne.symm hd), List.append_nil]
  configs := h.configs
  server client' hc := by
    rw [h.client, if_pos rfl] at hc
    exact hi client' hc

theorem Affects.log {e : Event} (he : e.client = some c) : Affects c w (w.log e) :=
  .of_changed (log_changed w he) fun client hg => ⟨client, hg, rfl⟩

variable {client : Client} (hg : w.getClient c = some client)
include hg

theorem Affects.of_client {es : List Event} {client' : Client} (h : Changed w v c es (some client'))
    (hi : client'.serverIndex = client.serverIndex) : Affects c w v := by
  refine .of_changed h ?_
  rintro _ ⟨⟩
  exact ⟨client, hg, hi⟩

/-! ## Handlers -/

theorem cgiOutputRead_affects (bytes : Bytes) : Affects c w (w.cgiOutputRead c client bytes).1 ∧
    (w.cgiOutputRead c client bytes).1.getClient c = some (w.cgiOutputRead c client bytes).2 := by
  have hread : ∃ es, Changed w (w.cgiOutputRead c client bytes).1 c es (some (w.cgiOutputRead c client bytes).2) ∧
      (w.cgiOutputRead c client bytes).2.serverIndex = client.serverIndex := by
    unfold cgiOutputRead
    dsimp only
    split
    · exact ⟨[.cgiRead c bytes, .streamed c false bytes], by constructor <;> simp [Event.client], rfl⟩
    · split
      · exact ⟨[.cgiRead c bytes], by constructor <;> simp [Event.client], rfl⟩
      · next headerPart body _ =>
        exact ⟨[.cgiRead c bytes, .streamed c true (cgiHead headerPart ++ body)],
          by constructor <;> simp [Event.client, cgiHead], rfl⟩
  obtain ⟨es, h, hi⟩ := hread
  exact ⟨.of_client hg h hi, by rw [h.client, if_pos rfl]⟩

theorem finalizeCgi_affects (a : Answers) {client' : Client} (hi : client'.serverIndex = client.serverIndex) (idx : ℕ) :
    Affects c w (w.finalizeCgi a c client' idx) := by
  have hdone : ∃ es client'', Changed w (w.finalizeCgi a c client' idx) c es (some client'') ∧
      client''.serverIndex = client'.serverIndex := by
    unfold finalizeCgi
    dsimp only
    split
    · refine ⟨[.cgiEnded c client'.cgiStdinFd.isSome, .finalized c], { client'.clearBuffer with
        cgiStdoutFd := none, cgiStdinFd := none, cgiPid := none, cgiActive := false }, ?_, rfl⟩
      constructor <;> simp [Event.client, finishCgi_client, Client.clearBuffer]
    · generalize (if client'.cgiOutput = [] then _ else _ : Option HTTPResponse) = response
      refine ⟨[.cgiEnded c client'.cgiStdinFd.isSome, .responded c (responseText response), .finalized c],
        { (client'.setResponse (responseText response)).clearBuffer with
          cgiStdoutFd := none, cgiStdinFd := none, cgiPid := none, cgiActive := false }, ?_, rfl⟩
      constructor <;> simp [respond, finishCgi_client, Client.setResponse, Client.clearBuffer, Event.client]
  obtain ⟨es, client'', h, hi'⟩ := hdone
  exact .of_client hg h (hi'.trans hi)

theorem cgiOutputEnd_affects (a : Answers) (idx : ℕ) (cgiFd : Fd) : Affects c w (w.cgiOutputEnd a idx cgiFd c client) := by
  have hclosed : Affects c w (((w.eraseCgiFd cgiFd).closeFd cgiFd).eraseEntry idx) :=
    .of_frame c (by simp) (by simp) (by simp)
  have hg' : (((w.eraseCgiFd cgiFd).closeFd cgiFd).eraseEntry idx).getClient c = some client := hg
  refine hclosed.trans (finalizeCgi_affects hg' a ?_ _)
  rfl

theorem cgiOutputLoop_affects (a : Answers) (idx : ℕ) (cgiFd : Fd) (answers : List ReadAnswer) (total : ℕ) :
    Affects c w (cgiOutputLoop a idx cgiFd c answers total w client).2 := by
  induction answers generalizing total w client with
  | nil => exact .refl c w
  | cons answer answers ih =>
    unfold cgiOutputLoop
    split
    · split
      · next bytes _ =>
        obtain ⟨hread, hg'⟩ := cgiOutputRead_affects hg bytes
        dsimp only
        split
        · exact hread.trans (.of_frame c (by simp) (by simp) (by simp))
        · exact hread.trans (ih hg' _)
      · exact .refl c w
      · exact cgiOutputEnd_affects hg a idx cgiFd
      · exact cgiOutputEnd_affects hg a idx cgiFd
    · exact .refl c w

theorem endInput_affects : Affects c w (w.endInput c client) := .of_client hg (w.endInput_exact c client) rfl

theorem forwardBody_affects (now : ℕ) (bytes : Bytes) (answer : ℕ) :
    Affects c w (w.forwardBody now c client bytes answer).1 := by
  cases hin : client.cgiStdinFd with
  | none => exact .of_client hg (w.forwardBody_closed c client now bytes answer hin) rfl
  | some stdinFd =>
    cases hch : client.cgiChunked with
    | false =>
      obtain ⟨q, s, e, taken, -, -, -, h⟩ := forwardBody_counted (w := w) (c := c) now answer hin hch
      exact .of_client hg h rfl
    | true =>
      cases hok : (Client.decodeChunkedForCgi client.cgiChunk bytes).ok with
      | false => exact .of_client hg (forwardBody_failed now answer hin hch hok) rfl
      | true =>
        obtain ⟨q, s, e, taken, -, -, -, h⟩ := forwardBody_decoded (w := w) (c := c) now answer hin hch hok
        exact .of_client hg h rfl

theorem bodyLoop_affects (a : Answers) (idx : ℕ) (answers : List ReadAnswer) (writes : List ℕ) (total : ℕ) :
    Affects c w (bodyLoop a idx c answers writes total w client) := by
  induction answers generalizing writes total w client with
  | nil => exact .refl c w
  | cons answer answers ih =>
    unfold bodyLoop
    split
    · split
      · exact .of_frame c (by simp) (by simp) (by simp)
      · split
        · exact endInput_affects hg
        · exact endInput_affects hg
        · exact .refl c w
        · next bytes _ =>
          have hread := forwardBody_affects hg a.now bytes (writes.head?.getD 0)
          split
          · next w' hlast =>
            rw [hlast] at hread
            exact hread
          · next w' client' hmore =>
            rw [hmore] at hread
            exact hread.trans (ih (getClient_forwardBody hmore) _ _)
    · exact .refl c w

theorem requestBytes_affects (a : Answers) (idx : ℕ) {client' : Client} (hi : client'.serverIndex = client.serverIndex)
    (bytes : Bytes) : Affects c w (w.requestBytes a c client' idx bytes) := by
  obtain ⟨b, r, s, hclient⟩ := readRequest_client a (w.config client') client' bytes
  have hparsed : (readRequest a (w.config client') client' bytes).2.serverIndex = client.serverIndex := by
    rw [hclient]
    exact hi
  have hcases := w.requestBytes_cases a c client' idx bytes
  generalize readRequest a (w.config client') client' bytes = parsed at hparsed hcases
  rcases hcases with he | ⟨v, new, outcome, response, g, -, hv, -, he⟩ | ⟨-, v, pid, stdinFd, stdoutFd, hv, he⟩
  · rw [he]
    exact .of_client hg ((log_changed w rfl).trans (setClient_changed _ c _)) hparsed
  · rw [he]
    exact .of_client hg ((log_changed w rfl).trans (hv.changed (v.answered_changed c parsed.2 _ idx g))) hparsed
  · obtain ⟨q, s, e, taken, -, -, -, -, h⟩ := v.startCgiRun_input a c parsed.2 pid stdinFd stdoutFd
    obtain ⟨n, b, d, hinput⟩ := cgiInput_client parsed.2 pid stdinFd stdoutFd
    rw [he]
    refine .of_client hg ((log_changed w rfl).trans (hv.changed h)) ?_
    rw [hinput]
    exact hparsed

theorem sendPending_affects (now : ℕ) {sent : ℕ} (hs : sent ≤ client.cgiSendPending.size) :
    Affects c w (w.sendPending now c client sent hs).1 ∧
      (w.sendPending now c client sent hs).1.getClient c = some (w.sendPending now c client sent hs).2 := by
  have h := w.sendPending_changed now c client sent hs
  exact ⟨.of_client hg h rfl, by rw [h.client, if_pos rfl]; rfl⟩

end

/-! ## Entries -/

/-- The connection that the entry of a descriptor may be about. -/
def Serves (w : World) (f c : Fd) : Prop :=
  c = f ∨ w.cgiFdToClientFd[f]? = some c ∨ w.cgiStdinFdToClientFd[f]? = some c

section
variable (w : World) (a : Answers) (idx : ℕ)

theorem removeClient_affects {w v : World} {idx : ℕ} {c : Fd} (reaped : Bool) (reason : RemoveReason)
    (hc : (v.entry idx).fd = c) (h : Affects c w v) : Affects c w (v.removeClient idx reaped reason) := by
  refine h.trans ?_
  subst hc
  exact .of_changed (v.removeClient_changed idx reaped reason) (by simp)

theorem handleCgiOutput_affects :
    ∃ c, w.Serves (w.entry idx).fd c ∧ Affects c w (w.handleCgiOutput a idx).2 := by
  unfold handleCgiOutput
  dsimp only
  split
  · exact ⟨_, Or.inl rfl, .of_frame _ (by simp) (by simp) (by simp)⟩
  · next c hc =>
    refine ⟨c, Or.inr (Or.inl hc), ?_⟩
    split
    · exact .of_frame _ (by simp) (by simp) (by simp)
    · next client hg => exact cgiOutputLoop_affects hg a idx _ _ _

theorem handleCgiStdinWritable_affects :
    ∃ c, w.Serves (w.entry idx).fd c ∧ Affects c w (w.handleCgiStdinWritable a idx).2 := by
  cases hc : w.cgiStdinFdToClientFd[(w.entry idx).fd]? with
  | none =>
    refine ⟨_, Or.inl rfl, ?_⟩
    unfold handleCgiStdinWritable
    simp only [hc]
    exact .of_frame _ (by simp) (by simp) (by simp)
  | some c =>
    refine ⟨c, Or.inr (Or.inr hc), ?_⟩
    cases hg : w.getClient c with
    | none =>
      unfold handleCgiStdinWritable
      simp only [hc, hg]
      exact .of_frame _ (by simp) (by simp) (by simp)
    | some client =>
      obtain ⟨pieces, q, s, -, -, h⟩ := w.handleCgiStdinWritable_changed (a := a) hc hg
      exact .of_client hg h rfl

theorem stdinHangup_affects (f : Fd) : ∃ c, w.Serves f c ∧ Affects c w (w.stdinHangup idx f) := by
  cases hc : w.cgiStdinFdToClientFd[f]? with
  | none =>
    refine ⟨f, Or.inl rfl, ?_⟩
    unfold stdinHangup
    simp only [hc]
    exact .of_frame _ (by simp) (by simp) (by simp)
  | some c =>
    refine ⟨c, Or.inr (Or.inr hc), .of_changed (w.stdinHangup_changed idx hc) ?_⟩
    intro client' hclient
    obtain ⟨client, hg, rfl⟩ := Option.map_eq_some_iff.mp hclient
    exact ⟨client, hg, rfl⟩

theorem handleClientRead_affects : Affects (w.entry idx).fd w (w.handleClientRead a idx).2 := by
  unfold handleClientRead
  dsimp only
  split
  · exact .refl _ w
  · next client hg =>
    split
    · exact bodyLoop_affects hg a idx _ _ _
    · split
      · exact removeClient_affects _ _ rfl (.log rfl)
      · exact removeClient_affects _ _ rfl (.log rfl)
      · exact .of_client hg (setClient_changed w _ _) rfl
      · refine requestBytes_affects hg a idx ?_ _
        rfl

theorem entry_fd_of_fds {w v : World} (h : v.fds = w.fds) (idx : ℕ) : (v.entry idx).fd = (w.entry idx).fd := by
  have hfd (u : World) : (u.entry idx).fd = (u.fds[idx]?).getD 0 := by
    rw [entry, List.getElem?_map]
    cases u.pollFds[idx]? <;> rfl
  rw [hfd, hfd, h]

section
variable {w : World} {idx : ℕ} {c : Fd} {client : Client} (hc : (w.entry idx).fd = c) (hg : w.getClient c = some client)
include hc hg

theorem completed_affects (a : Answers) : Affects c w
    (((w.setClient c client.clearResponse).modifyEntry idx PollFd.disablePollout).removeClient idx
      a.reaped .complete) := by
  have hset : Affects c w (w.setClient c client.clearResponse) := .of_client hg (setClient_changed w c _) rfl
  refine removeClient_affects _ _ ?_ (hset.trans (.of_frame c (by simp) (by simp) (by simp)))
  rw [← hc]
  exact entry_fd_of_fds (fds_modifyEntry (f := PollFd.disablePollout) _ (fun _ => rfl) idx) idx

theorem sendLoop_affects (answers : List SendAnswer) (total : ℕ) :
    Affects c w (sendLoop a idx c answers total w client).2 := by
  induction answers generalizing total w client with
  | nil => exact .refl c w
  | cons answer answers ih =>
    unfold sendLoop
    split
    · split
      · split
        · exact .of_frame c (by simp) (by simp) (by simp)
        · exact completed_affects hc hg a
      · split
        · exact .refl c w
        · exact removeClient_affects _ _ hc (.refl c w)
        · next n _ =>
          dsimp only
          split
          · obtain ⟨hsent, hg'⟩ := sendPending_affects hg a.now (Nat.min_le_right n client.cgiSendPending.size)
            have hfds : (w.sendPending a.now c client (min n client.cgiSendPending.size)
                (Nat.min_le_right _ _)).1.fds = w.fds := fds_resumeCgiOutput _
            exact hsent.trans (ih ((entry_fd_of_fds hfds idx).trans hc) hg' _)
          · exact ih hc hg _
    · exact .refl c w

theorem sendResponse_affects : Affects c w (w.sendResponse a idx c client).2 := by
  unfold sendResponse
  dsimp only
  split
  · exact removeClient_affects _ _ hc (.refl c w)
  · exact removeClient_affects _ _ hc (.refl c w)
  · next n _ =>
    have hsent := (log_changed w (e := .sent c false ((client.response.drop client.responseOffset).take
      (min n (client.response.length - client.responseOffset)))) rfl).trans (setClient_changed _ c
      ((client.advanceResponseOffset (min n (client.response.length - client.responseOffset))).updateActivity a.now))
    have hsent := Affects.of_client hg hsent rfl
    split
    · refine hsent.trans (completed_affects ?_ (getClient_setClient_self _ _ _) a)
      exact hc
    · exact hsent

end

theorem handlePollOutput_affects :
    ∃ c, w.Serves (w.entry idx).fd c ∧ Affects c w (w.handlePollOutput a idx).2.2 := by
  unfold handlePollOutput
  dsimp only
  split
  · split
    · exact w.handleCgiStdinWritable_affects a idx
    · refine ⟨_, Or.inl rfl, ?_⟩
      split
      · exact .refl _ w
      · next client hg =>
        split
        · exact sendLoop_affects a rfl hg _ _
        · split
          · exact .refl _ w
          · exact sendResponse_affects a rfl hg
  · exact ⟨_, Or.inl rfl, .refl _ w⟩

theorem handlePollErrors_affects :
    ∃ c, w.Serves (w.entry idx).fd c ∧ Affects c w (w.handlePollErrors a idx).2 := by
  unfold handlePollErrors
  dsimp only
  split
  · split
    · exact ⟨_, Or.inl rfl, .refl _ w⟩
    · split
      · exact ⟨_, Or.inl rfl, .refl _ w⟩
      · split
        · exact w.stdinHangup_affects idx _
        · exact ⟨_, Or.inl rfl, removeClient_affects _ _ rfl (.refl _ w)⟩
  · exact ⟨_, Or.inl rfl, .refl _ w⟩

/-! ## Accepting -/

/-- Known clients stay; at most their numbers were accepted again. -/
structure Accepts (serverIndex : ℕ) (w w' : World) : Prop where
  client : ∀ d client, w.getClient d = some client → w'.getClient d = some client
  fresh : ∀ d client, w'.getClient d = some client → w.getClient d = none → client.serverIndex = serverIndex
  configs : w'.configs = w.configs
  history : ∀ d client, w.getClient d = some client → ∃ es, w'.history d = w.history d ++ es ∧ ∀ e ∈ es, e = .accepted d true

theorem acceptFd_accepts (serverIndex now : ℕ) (fd : Fd) : Accepts serverIndex w (w.acceptFd serverIndex now fd) := by
  have hknown : w.clients.contains fd = (w.getClient fd).isSome := Std.ExtTreeMap.contains_eq_isSome_getElem?
  unfold acceptFd
  dsimp only
  split
  · next hk =>
    refine ⟨by simp, by simp_all, by simp, ?_⟩
    intro d client hg
    refine ⟨if fd = d then [.accepted fd (w.clients.contains fd)] else [], by simp [Event.client], ?_⟩
    intro e he
    split at he
    · next hd =>
      rw [List.mem_singleton.mp he, hk, hd]
    · cases he
  · next hk =>
    have hnone : w.getClient fd = none := by simpa [hk] using hknown.symm
    have hne {d : Fd} {client : Client} (hg : w.getClient d = some client) : d ≠ fd := by
      rintro rfl
      rw [hnone] at hg
      cases hg
    refine ⟨?_, ?_, by simp, ?_⟩
    · intro d client hg
      simp [hne hg, hg]
    · intro d client hg hn
      by_cases hd : d = fd
      · subst hd
        obtain rfl : Client.create d serverIndex now = client := by simpa using hg
        rfl
      · simp [hd, hn] at hg
    · intro d client hg
      exact ⟨[], by simp [Event.client, Ne.symm (hne hg)], by simp⟩

theorem Accepts.trans {serverIndex : ℕ} {w v u : World} (h : Accepts serverIndex w v) (h' : Accepts serverIndex v u) :
    Accepts serverIndex w u where
  client d client hg := h'.client d client (h.client d client hg)
  fresh d client hg hn := by
    cases hv : v.getClient d with
    | none => exact h'.fresh d client hg hv
    | some client' =>
      obtain rfl : client' = client := Option.some.inj ((h'.client d client' hv).symm.trans hg)
      exact h.fresh d client' hv hn
  configs := h'.configs.trans h.configs
  history d client hg := by
    obtain ⟨es, hes, hall⟩ := h.history d client hg
    obtain ⟨es', hes', hall'⟩ := h'.history d client (h.client d client hg)
    refine ⟨es ++ es', by rw [hes', hes, List.append_assoc], ?_⟩
    intro e he
    rcases List.mem_append.mp he with he | he
    · exact hall e he
    · exact hall' e he

theorem acceptLoop_accepts (serverIndex now : ℕ) (fds : List Fd) (w : World) :
    Accepts serverIndex w (acceptLoop serverIndex now fds w) := by
  have hsame (w : World) : Accepts serverIndex w w :=
    ⟨fun _ _ hg => hg, fun d client hg hn => by simp [hn] at hg, rfl, fun d _ _ => ⟨[], by simp, by simp⟩⟩
  induction fds generalizing w with
  | nil => exact hsame w
  | cons fd fds ih =>
    unfold acceptLoop
    split
    · exact hsame w
    · exact (w.acceptFd_accepts serverIndex now fd).trans (ih _)

/-- The new clients have the server of the socket. -/
theorem acceptClient_accepts {serverFd : Fd} (h : w.isListeningSocket serverFd = true) :
    ∃ socket ∈ w.serverFds, Accepts socket.index w (w.acceptClient a serverFd) := by
  have hfound : (w.serverFds.find? (·.fd = serverFd)).isSome := by
    rwa [List.find?_isSome, ← List.any_eq_true]
  obtain ⟨socket, hsocket⟩ := Option.isSome_iff_exists.mp hfound
  refine ⟨socket, List.mem_of_find?_eq_some hsocket, ?_⟩
  unfold acceptClient
  rw [hsocket]
  exact acceptLoop_accepts socket.index a.now a.accepts w

theorem handlePollInput_serves : ∃ c, w.Serves (w.entry idx).fd c ∧ (Affects c w (w.handlePollInput a idx).2.2 ∨
    ∃ socket ∈ w.serverFds, Accepts socket.index w (w.handlePollInput a idx).2.2) := by
  unfold handlePollInput
  dsimp only
  split
  · split
    · next hl => exact ⟨_, Or.inl rfl, Or.inr (w.acceptClient_accepts a hl)⟩
    · split
      · exact ⟨_, Or.inl rfl, Or.inl (.refl _ w)⟩
      · split
        · obtain ⟨c, hc, h⟩ := w.handleCgiOutput_affects a idx
          exact ⟨c, hc, Or.inl h⟩
        · exact ⟨_, Or.inl rfl, Or.inl (w.handleClientRead_affects a idx)⟩
  · split
    · obtain ⟨c, hc, h⟩ := w.handleCgiOutput_affects a idx
      exact ⟨c, hc, Or.inl h⟩
    · exact ⟨_, Or.inl rfl, Or.inl (.refl _ w)⟩

end
end World

/-! ## Steps -/

/-- The connection that the loop may serve where it stands. -/
def LoopState.Serves (s : LoopState) (c : Fd) : Prop :=
  match s.point with
  | .errors idx | .input idx | .output idx => s.world.Serves (s.world.entry idx).fd c
  | .timeouts _ i => s.world.Serves (s.world.entry i).fd c
  | .poll | .stopped | .aborted => True

/-- A step serves one connection or accepts new ones. -/
theorem LoopState.step_serves (s : LoopState) (a : Answers) : ∃ c, s.Serves c ∧
    (Affects c s.world (s.step a).world ∨ ∃ socket ∈ s.world.serverFds, Accepts socket.index s.world (s.step a).world) := by
  obtain ⟨w, point⟩ := s
  cases point with
  | poll =>
    refine ⟨0, trivial, Or.inl ?_⟩
    simp only [step]
    split
    · exact .refl 0 w
    · exact .refl 0 w
    · exact .of_frame 0 (fun _ => rfl) (fun _ => rfl) rfl
  | stopped => exact ⟨0, trivial, Or.inl (.refl 0 w)⟩
  | aborted => exact ⟨0, trivial, Or.inl (.refl 0 w)⟩
  | errors idx =>
    simp only [step]
    split
    · obtain ⟨c, hc, h⟩ := w.handlePollErrors_affects a idx
      refine ⟨c, hc, Or.inl ?_⟩
      split <;> next he => rw [he] at h; exact h
    · exact ⟨_, Or.inl rfl, Or.inl (.refl _ w)⟩
  | input idx =>
    obtain ⟨c, hc, h⟩ := w.handlePollInput_serves a idx
    refine ⟨c, hc, ?_⟩
    simp only [step]
    split <;> next v he =>
      rw [he] at h
      cases v.aborted with
      | true => exact Or.inl (.refl c w)
      | false => exact h
  | output idx =>
    obtain ⟨c, hc, h⟩ := w.handlePollOutput_affects a idx
    refine ⟨c, hc, Or.inl ?_⟩
    simp only [step]
    split
    · next he => rw [he] at h; exact h
    · next he =>
      rw [he] at h
      exact h.trans (.of_frame c (by simp) (by simp) (by simp))
  | timeouts now i =>
    refine ⟨(w.entry i).fd, Or.inl rfl, Or.inl ?_⟩
    simp only [step]
    split
    · unfold timeoutStep
      dsimp only
      split
      · exact .refl _ w
      · split
        · exact .refl _ w
        · split
          · exact removeClient_affects _ _ rfl (.refl _ w)
          · exact .refl _ w
    · exact .refl _ w

/-- One step of the loop changes at most the client that it serves: every other client that was there keeps its whole
state, and all that is recorded for it is that its number was accepted again. Entries and descriptors are not spoken
of; those of another client may change once numbers were mixed up. -/
theorem step_isolated (s : LoopState) (a : Answers) : ∃ c, s.Serves c ∧ ∀ d ≠ c, ∀ client,
    s.world.getClient d = some client → (s.step a).world.getClient d = some client ∧
      ∃ es, (s.step a).world.history d = s.world.history d ++ es ∧ ∀ e ∈ es, e = .accepted d true := by
  obtain ⟨c, hc, h⟩ := s.step_serves a
  refine ⟨c, hc, fun d hd client hg => ?_⟩
  rcases h with h | ⟨socket, -, h⟩
  · exact ⟨h.client d hd ▸ hg, [], by rw [h.history d hd, List.append_nil], by simp⟩
  · exact ⟨h.client d client hg, h.history d client hg⟩

/-! ## The server of a client -/

/-- Each socket and each client has one of the configured servers. -/
structure World.Configured (w : World) : Prop where
  sockets : ∀ socket ∈ w.serverFds, socket.index < w.configs.length
  clients : ∀ c client, w.getClient c = some client → client.serverIndex < w.configs.length

theorem World.Configured.affects {w v : World} {c : Fd} (h : w.Configured) (ha : Affects c w v)
    (hs : v.serverFds = w.serverFds) : v.Configured where
  sockets socket hsocket := ha.configs ▸ h.sockets socket (hs ▸ hsocket)
  clients d client hg := by
    rw [ha.configs]
    by_cases hd : d = c
    · obtain ⟨client', hg', hi⟩ := ha.server client (hd ▸ hg)
      exact hi ▸ h.clients c client' hg'
    · exact h.clients d client (ha.client d hd ▸ hg)

theorem World.Configured.accepts {w v : World} {socket : ServerSocket} (h : w.Configured) (hsocket : socket ∈ w.serverFds)
    (ha : Accepts socket.index w v) (hs : v.serverFds = w.serverFds) : v.Configured where
  sockets socket hsocket := ha.configs ▸ h.sockets socket (hs ▸ hsocket)
  clients d client hg := by
    rw [ha.configs]
    cases hw : w.getClient d with
    | none => exact ha.fresh d client hg hw ▸ h.sockets socket hsocket
    | some client' =>
      obtain rfl : client' = client := Option.some.inj ((ha.client d client' hw).symm.trans hg)
      exact h.clients d client' hw

theorem LoopState.step_configured {s : LoopState} (hr : Reachable s) (h : s.world.Configured) (a : Answers) :
    (s.step a).world.Configured := by
  have hs : (s.step a).world.serverFds = s.world.serverFds := (step_listens hr.sound hr.listens a).serverFds
  obtain ⟨c, -, ha | ⟨socket, hsocket, ha⟩⟩ := s.step_serves a
  · exact h.affects ha hs
  · exact h.accepts hsocket ha hs

/-- Whatever happens, the servers of the clients are configured ones: `configs_` is not read behind its end. -/
theorem clients_configured {s : LoopState} (h : Reachable s) {c : Fd} {client : Client}
    (hg : s.world.getClient c = some client) : client.serverIndex < s.world.configs.length := by
  obtain ⟨configs, answers, w, as, hw, rfl⟩ := h
  have hstart : w.Configured := by
    obtain ⟨-, hclients, -, -⟩ := World.Created.start ⟨configs, answers, hw⟩
    obtain ⟨hconfigs, -⟩ := openSockets_start hw
    obtain ⟨-, hsockets⟩ := openSockets_polled hw (by simp)
    refine ⟨?_, fun c client hg => by simp [hclients c] at hg⟩
    intro socket hsocket
    have hmem : (socket.port, socket.index) ∈ (configs.map ServerConfig.port).zipIdx := by
      have hpair := List.mem_map_of_mem (f := fun s : ServerSocket => (s.port, s.index)) hsocket
      simpa [hsockets] using hpair
    rw [hconfigs]
    simpa using (List.mem_zipIdx hmem).2.1
  have hrun {s : LoopState} (hr : Reachable s) (hs : s.world.Configured) (as : List Answers) :
      (s.run as).world.Configured := by
    induction as generalizing s with
    | nil => exact hs
    | cons a as ih => exact ih (hr.step a) (LoopState.step_configured hr hs a)
  exact (hrun ⟨configs, answers, w, [], hw, rfl⟩ hstart as).clients c client hg

theorem clients_configured_uploads : ∃ client, (scriptStart.run uploads).world.getClient 4 = some client ∧
    client.serverIndex < (scriptStart.run uploads).world.configs.length := by
  have hclient : ((scriptStart.run uploads).world.getClient 4).isSome := by decide +kernel
  obtain ⟨client, hg⟩ := Option.isSome_iff_exists.mp hclient
  exact ⟨client, hg, clients_configured (scriptStart_reachable uploads) hg⟩

end WebServ
