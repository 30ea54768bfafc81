import WebServ.Server.Entries
import WebServ.Server.Isolation
import WebServ.Server.PassEnds
import WebServ.Server.Positions

/-! # Clients that wait for their response

Once a response was begun and no script adds to it, its client is polled for output
for as long as it is there.
-/
namespace WebServ
open World KeyedList

/-- All that is left to do for the client is to send. -/
structure Client.Outgoing (client : Client) : Prop where
  idle : client.cgiActive = false
  answered : Answered client

namespace World

/-- Every entry of the descriptor asks for output. -/
def AsksOutput (w : World) (c : Fd) : Prop := ∀ p ∈ w.pollFds, p.fd = c → p.events.pollout = true

/-- A change of masks that takes no interest in output away. -/
structure KeepsOutput (g : PollFd → PollFd) : Prop where
  fd : ∀ p, (g p).fd = p.fd
  pollout : ∀ p, p.events.pollout = true → (g p).events.pollout = true

namespace KeepsOutput

theorem enablePollin : KeepsOutput PollFd.enablePollin := ⟨fun _ => rfl, fun _ => id⟩
theorem disablePollin : KeepsOutput PollFd.disablePollin := ⟨fun _ => rfl, fun _ => id⟩
theorem enablePollout : KeepsOutput PollFd.enablePollout := ⟨fun _ => rfl, fun _ _ => rfl⟩
theorem onlyPollout : KeepsOutput PollFd.onlyPollout := ⟨fun _ => rfl, fun _ _ => rfl⟩
theorem clearRevents : KeepsOutput PollFd.clearRevents := ⟨fun _ => rfl, fun _ => id⟩

end KeepsOutput

namespace AsksOutput
variable {w v : World} {c : Fd}

theorem of_sublist (h : w.AsksOutput c) (hs : v.pollFds.Sublist w.pollFds) : v.AsksOutput c :=
  fun p hp => h p (hs.subset hp)

theorem of_pollFds (h : w.AsksOutput c) (hs : v.pollFds = w.pollFds) : v.AsksOutput c :=
  h.of_sublist (hs ▸ List.Sublist.refl _)

theorem modifyEntry (h : w.AsksOutput c) (idx : ℕ) {g : PollFd → PollFd} (hg : KeepsOutput g) :
    (w.modifyEntry idx g).AsksOutput c := by
  intro p hp hc
  rcases mem_modify hp with hp | ⟨q, hq, rfl⟩
  · exact h p hp hc
  · exact hg.pollout q (h q (List.mem_of_getElem? hq) (hg.fd q ▸ hc))

/-- The mask of another entry may change in any way. -/
theorem modifyOther (h : w.AsksOutput c) {idx : ℕ} {g : PollFd → PollFd} (hg : ∀ p, (g p).fd = p.fd)
    (hne : (w.entry idx).fd ≠ c) : (w.modifyEntry idx g).AsksOutput c := by
  intro p hp hc
  rcases mem_modify hp with hp | ⟨q, hq, rfl⟩
  · exact h p hp hc
  · rw [entry_eq hq] at hne
    exact absurd (hg q ▸ hc) hne

theorem modifyFd (h : w.AsksOutput c) (fd : Fd) {g : PollFd → PollFd} (hg : KeepsOutput g) :
    (w.modifyFd fd g).AsksOutput c := by
  intro p hp hc
  rcases mem_updateFirst hp with hp | ⟨q, hq, -, rfl⟩
  · exact h p hp hc
  · exact hg.pollout q (h q hq (hg.fd q ▸ hc))

theorem pushPoll (h : w.AsksOutput c) {fd : Fd} (hne : fd ≠ c) (events : Interest) :
    (w.pushPoll fd events).AsksOutput c := by
  intro p hp hc
  rcases List.mem_append.mp hp with hp | hp
  · exact h p hp hc
  · obtain rfl := List.mem_singleton.mp hp
    exact absurd hc hne

theorem reported (h : w.AsksOutput c) (revents : List Readiness) :
    ({ w with pollFds := reportAll w.pollFds revents } : World).AsksOutput c := by
  have hall (ps : List PollFd) (rs : List Readiness) (hps : ∀ p ∈ ps, p.fd = c → p.events.pollout = true) :
      ∀ p ∈ reportAll ps rs, p.fd = c → p.events.pollout = true := by
    induction ps generalizing rs with
    | nil => simp [reportAll]
    | cons q ps ih =>
      have hrest := fun rs => ih rs fun p hp => hps p (List.mem_cons_of_mem q hp)
      have hfirst := hps q (List.mem_cons_self ..)
      cases rs with
      | nil => simpa [reportAll, PollFd.report] using ⟨hfirst, hrest []⟩
      | cons r rs => simpa [reportAll, PollFd.report] using ⟨hfirst, hrest rs⟩
  exact hall w.pollFds revents h

theorem enableOutput (h : w.AsksOutput c) (idx : ℕ) (fd : Fd) : (w.enableOutput idx fd).AsksOutput c := by
  unfold World.enableOutput
  split
  · exact h.modifyEntry idx KeepsOutput.enablePollout
  · exact h.modifyFd fd KeepsOutput.enablePollout

/-! ### Where it is asked for -/

/-- Where no number stands twice, one entry has to ask. -/
theorem of_modifyFd (hn : w.fds.Nodup) {g : PollFd → PollFd} (hfd : ∀ p, (g p).fd = p.fd)
    (hg : ∀ p, (g p).events.pollout = true) : (w.modifyFd c g).AsksOutput c := by
  intro p hp hc
  have hn' : (w.modifyFd c g).fds.Nodup := by rwa [fds_modifyFd w hfd]
  have he := entryOf_of_mem hn' hp
  rw [hc, entryOf_modifyFd w hfd, if_pos rfl] at he
  obtain ⟨q, -, rfl⟩ := Option.map_eq_some_iff.mp he
  exact hg q

theorem of_modifyEntry (hn : w.fds.Nodup) {idx : ℕ} (hidx : w.fds[idx]? = some c) {g : PollFd → PollFd}
    (hfd : ∀ p, (g p).fd = p.fd) (hg : ∀ p, (g p).events.pollout = true) : (w.modifyEntry idx g).AsksOutput c := by
  rw [modifyEntry_eq_modifyFd hn hidx]
  exact of_modifyFd hn hfd hg

theorem of_enableOutput (hn : w.fds.Nodup) (idx : ℕ) : (w.enableOutput idx c).AsksOutput c := by
  unfold World.enableOutput
  split
  · next hidx =>
    have hfd : w.fds[idx]? = some c := by
      rw [← hidx.2, entry_eq (List.getElem?_eq_getElem hidx.1)]
      exact fds_of_entry (List.getElem?_eq_getElem hidx.1)
    exact of_modifyEntry hn hfd (fun _ => rfl) fun _ => rfl
  · exact of_modifyFd hn (fun _ => rfl) fun _ => rfl

end AsksOutput

/-! ## Entries that stay polled for output -/

section
variable {w v : World} {c : Fd} {client : Client}

theorem dropBeside_sublist (w : World) (fd : Fd) (index : ℕ) : (w.dropBeside fd index).1.pollFds.Sublist w.pollFds := by
  unfold dropBeside
  split
  · exact List.eraseP_sublist
  · exact List.Sublist.refl _

theorem removeClient_sublist (w : World) (idx : ℕ) (reaped : Bool) (reason : RemoveReason) :
    (w.removeClient idx reaped reason).pollFds.Sublist w.pollFds := by
  have hout (client : Client) (index : ℕ) : (w.dropOutput client index).1.pollFds.Sublist w.pollFds := by
    unfold dropOutput
    split
    · exact dropBeside_sublist (w.eraseCgiFd _) _ index
    · exact List.Sublist.refl _
  have hin (u : World) (client : Client) (index : ℕ) : (u.dropInput client index).1.pollFds.Sublist u.pollFds := by
    unfold dropInput
    split
    · exact dropBeside_sublist (u.eraseCgiStdinFd _) _ index
    · exact List.Sublist.refl _
  have hscript : (w.removeScript idx reaped).1.pollFds.Sublist w.pollFds := by
    unfold removeScript
    split
    · exact List.Sublist.refl _
    · next client _ =>
      dsimp only
      rw [(setClient_frame _ _ _).2.2.1, (finishCgi_frame _ _ _).2.2.1]
      exact (hin _ client _).trans (hout client idx)
  exact (List.eraseIdx_sublist _ _).trans hscript

theorem stdinHangup_sublist (w : World) (idx : ℕ) (fd : Fd) : (w.stdinHangup idx fd).pollFds.Sublist w.pollFds := by
  unfold stdinHangup
  apply (List.eraseIdx_sublist _ _).trans
  split
  · exact List.Sublist.refl _
  · split
    · exact List.Sublist.refl _
    · rw [(setClient_frame _ _ _).2.2.1, (closeCgiStdin_frame _ _).2.2.1]
      exact List.Sublist.refl _

namespace AsksOutput

theorem cgiOutputRead (h : w.AsksOutput c) (d : Fd) (client : Client) (bytes : Bytes) :
    (w.cgiOutputRead d client bytes).1.AsksOutput c := by
  have hset (u : Client) : ((w.log (.cgiRead d bytes)).setClient d u).AsksOutput c := h.of_pollFds rfl
  unfold World.cgiOutputRead
  dsimp only
  split
  · exact ((hset _).modifyFd client.fd KeepsOutput.enablePollout).of_pollFds rfl
  · split
    · exact hset _
    · exact ((hset _).modifyFd client.fd KeepsOutput.enablePollout).of_pollFds rfl

theorem finalizeCgi (h : w.AsksOutput c) (a : Answers) (d : Fd) (client : Client) (idx : ℕ) :
    (w.finalizeCgi a d client idx).AsksOutput c := by
  have hend : ((w.log (.cgiEnded d client.cgiStdinFd.isSome)).finishCgi client a.reaped).1.AsksOutput c :=
    h.of_pollFds (finishCgi_frame _ _ _).2.2.1
  unfold World.finalizeCgi
  dsimp only
  split
  · exact (hend.modifyFd _ KeepsOutput.enablePollout).of_pollFds rfl
  · refine of_pollFds (enableOutput ?_ idx _) rfl
    exact hend.of_pollFds rfl

/-- The client that the output was for is polled in the end. -/
theorem of_finalizeCgi (hn : w.fds.Nodup) (a : Answers) (client : Client) (idx : ℕ) :
    (w.finalizeCgi a c client idx).AsksOutput client.fd := by
  have hfds : ((w.log (.cgiEnded c client.cgiStdinFd.isSome)).finishCgi client a.reaped).1.fds.Nodup := by
    simpa using hn
  have hfd : (((w.log (.cgiEnded c client.cgiStdinFd.isSome)).finishCgi client a.reaped).2).fd = client.fd := by
    rw [finishCgi_client]
  unfold World.finalizeCgi
  dsimp only
  rw [hfd]
  split
  · have hset := of_modifyFd (g := PollFd.enablePollout) (c := client.fd) hfds (fun _ => rfl) fun _ => rfl
    exact hset.of_pollFds rfl
  · refine of_pollFds (of_enableOutput ?_ idx) rfl
    simpa [respond] using hn

theorem cgiOutputEnd (h : w.AsksOutput c) (a : Answers) (idx : ℕ) (cgiFd d : Fd) (client : Client) :
    (w.cgiOutputEnd a idx cgiFd d client).AsksOutput c := by
  have herase : (((w.eraseCgiFd cgiFd).closeFd cgiFd).eraseEntry idx).AsksOutput c :=
    h.of_sublist (List.eraseIdx_sublist _ _)
  exact herase.finalizeCgi a d _ _

theorem of_cgiOutputEnd (hn : w.fds.Nodup) (a : Answers) (idx : ℕ) (cgiFd : Fd) (client : Client) :
    (w.cgiOutputEnd a idx cgiFd c client).AsksOutput client.fd := by
  have herase : (((w.eraseCgiFd cgiFd).closeFd cgiFd).eraseEntry idx).fds.Nodup := by
    rw [fds_eraseEntry]
    exact hn.sublist (List.eraseIdx_sublist _ _)
  exact of_finalizeCgi herase a { client with cgiStdoutFd := none } _

theorem cgiOutputLoop (h : w.AsksOutput c) (a : Answers) (idx : ℕ) (cgiFd d : Fd) (answers : List ReadAnswer)
    (total : ℕ) (client : Client) : (cgiOutputLoop a idx cgiFd d answers total w client).2.AsksOutput c := by
  induction answers generalizing total w client with
  | nil => exact h
  | cons answer answers ih =>
    unfold World.cgiOutputLoop
    split
    · split
      · next bytes _ =>
        have hread := h.cgiOutputRead d client bytes
        dsimp only
        split
        · exact hread.modifyEntry idx KeepsOutput.disablePollin
        · exact ih hread _ _
      · exact h
      · exact h.cgiOutputEnd a idx cgiFd d client
      · exact h.cgiOutputEnd a idx cgiFd d client
    · exact h

theorem handleCgiOutput (h : w.AsksOutput c) (a : Answers) (idx : ℕ) : (w.handleCgiOutput a idx).2.AsksOutput c := by
  unfold World.handleCgiOutput
  dsimp only
  split
  · exact h.of_sublist (List.eraseIdx_sublist _ _)
  · split
    · exact h.of_sublist (List.eraseIdx_sublist _ _)
    · exact h.cgiOutputLoop a idx _ _ _ _ _

/-- A pipe that takes bytes is no client that waits. -/
theorem handleCgiStdinWritable (h : w.AsksOutput c) (a : Answers) {idx : ℕ} (hne : (w.entry idx).fd ≠ c) :
    (w.handleCgiStdinWritable a idx).2.AsksOutput c := by
  unfold World.handleCgiStdinWritable
  dsimp only
  split
  · exact h.of_sublist (List.eraseIdx_sublist _ _)
  · split
    · exact h.of_sublist (List.eraseIdx_sublist _ _)
    · split
      · refine h.of_sublist ((List.eraseIdx_sublist _ _).trans ?_)
        rw [(setClient_frame _ _ _).2.2.1, (closeCgiStdin_frame _ _).2.2.1]
        exact List.Sublist.refl _
      · dsimp only
        split
        · split
          · refine modifyOther (modifyFd (h.of_pollFds rfl) _ KeepsOutput.enablePollin) (fun _ => rfl) ?_
            rwa [entry_fd_of_fds (w := w) (by simp)]
          · exact modifyOther (h.of_pollFds (w := w) rfl) (fun _ => rfl) hne
        · split
          · exact modifyFd (h.of_pollFds (w := w) rfl) _ KeepsOutput.enablePollin
          · exact h.of_pollFds (w := w) rfl

/-! ### Reading from clients -/

theorem endInput (h : w.AsksOutput c) (d : Fd) (client : Client) : (w.endInput d client).AsksOutput c := by
  unfold World.endInput
  dsimp only
  split
  · exact h.of_pollFds (closeCgiStdin_frame _ _).2.2.1
  · exact h.of_pollFds rfl

theorem inputComplete (h : w.AsksOutput c) (d : Fd) (client : Client) (stdinFd : Fd) :
    (w.inputComplete d client stdinFd).AsksOutput c := by
  unfold World.inputComplete
  split
  · apply h.of_sublist
    have hclosed : (w.closeCgiStdin client).1.pollFds = w.pollFds := (closeCgiStdin_frame _ _).2.2.1
    rw [← hclosed]
    exact List.eraseP_sublist
  · exact h.of_pollFds rfl

/-- The pipe of another connection may come to be polled. -/
theorem forwardPiece (h : w.AsksOutput c) (d : Fd) (client : Client) {stdinFd : Fd} (hne : stdinFd ≠ c) (piece : Bytes)
    (answer : ℕ) : (w.forwardPiece d client stdinFd piece answer).1.AsksOutput c := by
  unfold World.forwardPiece
  dsimp only
  split
  · unfold monitorStdin
    split
    · exact (h.of_pollFds (v := w.log _) rfl).modifyFd stdinFd KeepsOutput.enablePollout
    · exact (h.of_pollFds (v := (w.log _).insertCgiStdinFd stdinFd _) rfl).pushPoll hne _
  · exact h.of_pollFds rfl

theorem forwardBody (h : w.AsksOutput c) (now : ℕ) (d : Fd) {client : Client}
    (hne : ∀ f, client.cgiStdinFd = some f → f ≠ c) (bytes : Bytes) (answer : ℕ) :
    (w.forwardBody now d client bytes answer).1.AsksOutput c := by
  have hread : (w.log (.bodyRead d bytes)).AsksOutput c := h.of_pollFds rfl
  unfold World.forwardBody
  dsimp only
  split
  · exact h.of_pollFds rfl
  · next stdinFd hin =>
    have hpiece (u : Client) (piece : Bytes) := hread.forwardPiece d u (hne stdinFd hin) piece answer
    split
    · split
      · split
        · exact (hpiece _ _).inputComplete d _ stdinFd
        · exact (hpiece _ _).of_pollFds rfl
      · exact hread.endInput d _
    · split
      · exact (hpiece _ _).inputComplete d _ stdinFd
      · exact (hpiece _ _).of_pollFds rfl

end AsksOutput

/-- The client that goes on with its body has the script it had. -/
theorem forwardBody_client {now : ℕ} {d : Fd} {client : Client} {bytes : Bytes} {answer : ℕ} {client' : Client}
    (h : (w.forwardBody now d client bytes answer).2 = some client') :
    client'.cgiStdinFd = client.cgiStdinFd ∧ client'.cgiActive = client.cgiActive := by
  have hpiece (v : World) (u : Client) (stdinFd : Fd) (piece : Bytes) :
      (v.forwardPiece d u stdinFd piece answer).2.cgiStdinFd = u.cgiStdinFd ∧
        (v.forwardPiece d u stdinFd piece answer).2.cgiActive = u.cgiActive := by
    obtain ⟨q, -, hclient, -⟩ := v.forwardPiece_changed d u stdinFd piece answer
    rw [hclient]
    exact ⟨rfl, rfl⟩
  unfold forwardBody at h
  dsimp only at h
  split at h
  · cases h
  · split at h
    · split at h
      · split at h
        · cases h
        · cases h
          exact hpiece _ _ _ _
      · cases h
    · split at h
      · cases h
      · cases h
        exact hpiece _ _ _ _

/-- Its script runs on. -/
theorem forwardBody_active (w : World) (c : Fd) (client : Client) (now : ℕ) (bytes : Bytes) (answer : ℕ) :
    ∃ client', (w.forwardBody now c client bytes answer).1.getClient c = some client' ∧
      client'.cgiActive = client.cgiActive := by
  have hclient {es : List Event} {client' : Client}
      (h : Changed w (w.forwardBody now c client bytes answer).1 c es (some client')) :
      (w.forwardBody now c client bytes answer).1.getClient c = some client' := by rw [h.client, if_pos rfl]
  cases hin : client.cgiStdinFd with
  | none => exact ⟨_, hclient (w.forwardBody_closed c client now bytes answer hin), rfl⟩
  | some stdinFd =>
    cases hch : client.cgiChunked with
    | false =>
      obtain ⟨q, s, e, taken, -, -, -, h⟩ := forwardBody_counted (w := w) (c := c) now answer hin hch
      exact ⟨_, hclient h, rfl⟩
    | true =>
      cases hok : (Client.decodeChunkedForCgi client.cgiChunk bytes).ok with
      | false => exact ⟨_, hclient (forwardBody_failed now answer hin hch hok), rfl⟩
      | true =>
        obtain ⟨q, s, e, taken, -, -, -, h⟩ := forwardBody_decoded (w := w) (c := c) now answer hin hch hok
        exact ⟨_, hclient h, rfl⟩

theorem bodyLoop_active (hg : w.getClient c = some client) (ha : client.cgiActive = true) (a : Answers) (idx : ℕ)
    (answers : List ReadAnswer) (writes : List ℕ) (total : ℕ) : ∃ client',
    (bodyLoop a idx c answers writes total w client).getClient c = some client' ∧ client'.cgiActive = true := by
  have hend {w : World} {client : Client} (ha : client.cgiActive = true) :
      ∃ client', (w.endInput c client).getClient c = some client' ∧ client'.cgiActive = true := by
    obtain ⟨s, -, h⟩ := w.endInput_changed c client
    refine ⟨_, (h.client c).trans (if_pos rfl), ha⟩
  induction answers generalizing w client writes total with
  | nil => exact ⟨client, hg, ha⟩
  | cons answer answers ih =>
    unfold bodyLoop
    split
    · split
      · exact ⟨client, hg, ha⟩
      · split
        · exact hend ha
        · exact hend ha
        · exact ⟨client, hg, ha⟩
        · next bytes _ =>
          split
          · next w' hlast =>
            obtain ⟨client', hg', ha'⟩ := w.forwardBody_active c client a.now bytes (writes.head?.getD 0)
            rw [hlast] at hg'
            exact ⟨client', hg', ha'.trans ha⟩
          · next w' client' hmore =>
            exact ih (getClient_forwardBody hmore) ((forwardBody_client (congrArg Prod.snd hmore)).2.trans ha) _ _
    · exact ⟨client, hg, ha⟩

namespace AsksOutput

theorem bodyLoop (h : w.AsksOutput c) (a : Answers) (idx : ℕ) (d : Fd) (answers : List ReadAnswer) (writes : List ℕ)
    (total : ℕ) (hne : ∀ f, client.cgiStdinFd = some f → f ≠ c) :
    (bodyLoop a idx d answers writes total w client).AsksOutput c := by
  induction answers generalizing w client writes total with
  | nil => exact h
  | cons answer answers ih =>
    unfold World.bodyLoop
    split
    · split
      · exact h.modifyEntry idx KeepsOutput.disablePollin
      · split
        · exact h.endInput d client
        · exact h.endInput d client
        · exact h
        · next bytes _ =>
          have hbody := h.forwardBody a.now d hne bytes (writes.head?.getD 0)
          split
          · next w' hlast =>
            rw [hlast] at hbody
            exact hbody
          · next w' client' hmore =>
            have hinput := (forwardBody_client (congrArg Prod.snd hmore)).1
            rw [hmore] at hbody
            exact ih hbody _ _ (hinput ▸ hne)
    · exact h

theorem registerPipes (h : w.AsksOutput c) (u : Client) {stdoutFd : Fd} (hout : stdoutFd ≠ c)
    (hin : ∀ f, u.cgiStdinFd = some f → f ≠ c) (bodyComplete : Bool) :
    (w.registerPipes u stdoutFd bodyComplete).AsksOutput c := by
  have hfirst : ((w.insertCgiFd stdoutFd u.fd).pushPoll stdoutFd { pollin := true }).AsksOutput c :=
    pushPoll (h.of_pollFds rfl) hout _
  unfold World.registerPipes
  dsimp only
  split
  · next fd hfd =>
    split
    · exact pushPoll (hfirst.of_pollFds rfl) (hin fd hfd) _
    · exact hfirst
  · exact hfirst

theorem startCgiRun (h : w.AsksOutput c) (a : Answers) (d : Fd) (u : Client) (pid : ℕ) {stdinFd stdoutFd : Fd}
    (hin : stdinFd ≠ c) (hout : stdoutFd ≠ c) : (w.startCgiRun a d u pid stdinFd stdoutFd).AsksOutput c := by
  have hclosed (v : World) (u : Client) (b : Bool) {f : Fd} (hf : (v.closeInput u b).2.cgiStdinFd = some f) :
      u.cgiStdinFd = some f := by
    unfold closeInput at hf
    split at hf
    · split at hf
      · simp at hf
      · exact hf
    · exact hf
  obtain ⟨n, b, k, hinput⟩ := cgiInput_client u pid stdinFd stdoutFd
  unfold World.startCgiRun
  dsimp only
  refine registerPipes (h.of_pollFds ?_) _ hout ?_ _
  · rw [(setClient_frame _ _ _).2.2.1, (closeInput_frame _ _ _).2.2.1]
    rfl
  · intro f hf
    have hstart := hclosed _ _ _ hf
    simp only [hinput, Client.appendCgiStdinPending, Client.addCgiBodyBytesForwarded, Client.startCgi,
      Option.some.injEq] at hstart
    exact hstart ▸ hin

/-- A request of any connection leaves a client polled whose number is open. -/
theorem requestBytes (h : w.AsksOutput c) (hopen : c ∈ w.opened) (a : Answers) (d : Fd) (u : Client) (idx : ℕ)
    (bytes : Bytes) : (w.requestBytes a d u idx bytes).AsksOutput c := by
  have hfresh {v : World} {o : ReadOutcome} {new : List Fd} {child : Option ℕ}
      (hv : PipesMade (w.log (.requestRead d (Answered u) o)) v new child) : ∀ f ∈ new, f ≠ c := by
    obtain ⟨es, -, hes⟩ := hv.events
    rintro f hf rfl
    exact (hes.fresh f hf).1 hopen
  rcases w.requestBytes_cases a d u idx bytes with
    he | ⟨v, new, outcome, response, g, -, hv, hmask, he⟩ | ⟨-, v, pid, stdinFd, stdoutFd, hv, he⟩
  · rw [he]
    exact h.of_pollFds rfl
  · have hkeeps : KeepsOutput g := by
      rcases hmask with rfl | rfl
      · exact KeepsOutput.onlyPollout
      · exact KeepsOutput.enablePollout
    rw [he]
    exact modifyEntry (h.of_pollFds hv.pollFds) idx hkeeps
  · have hnew := hfresh hv
    rw [he]
    exact startCgiRun (h.of_pollFds hv.pollFds) a d _ pid (hnew stdinFd (by simp)) (hnew stdoutFd (by simp))

theorem handleClientRead (h : w.AsksOutput c) (hopen : c ∈ w.opened) (a : Answers) (idx : ℕ)
    (hne : ∀ client, w.getClient (w.entry idx).fd = some client → ∀ f, client.cgiStdinFd = some f → f ≠ c) :
    (w.handleClientRead a idx).2.AsksOutput c := by
  unfold World.handleClientRead
  dsimp only
  split
  · exact h
  · next client hg =>
    split
    · exact h.bodyLoop a idx _ _ _ 0 (hne client hg)
    · split
      · exact h.of_sublist (removeClient_sublist (w.log _) idx a.reaped _)
      · exact h.of_sublist (removeClient_sublist (w.log _) idx a.reaped _)
      · exact h.of_pollFds rfl
      · exact h.requestBytes hopen a _ _ idx _

/-! ### Sending -/

theorem sendPending (h : w.AsksOutput c) (now : ℕ) (fd : Fd) (u : Client) (sent : ℕ) (hs : sent ≤ u.cgiSendPending.size) :
    (w.sendPending now fd u sent hs).1.AsksOutput c := by
  have hset (e : Event) (u' : Client) : ((w.log e).setClient fd u').AsksOutput c := h.of_pollFds rfl
  unfold World.sendPending resumeCgiOutput
  dsimp only
  split
  · split
    · exact (hset _ _).modifyFd _ KeepsOutput.enablePollin
    · exact hset _ _
  · exact hset _ _

/-- The last bytes were sent: the client is gone, or it was another one. -/
theorem completed (h : w.AsksOutput c) (idx : ℕ) (u : Client) (reaped : Bool) :
    let v := ((w.setClient (w.entry idx).fd u).modifyEntry idx PollFd.disablePollout).removeClient idx reaped .complete
    v.AsksOutput c ∨ v.getClient c = none := by
  intro v
  have hentry : (((w.setClient (w.entry idx).fd u).modifyEntry idx PollFd.disablePollout).entry idx).fd =
      (w.entry idx).fd := entry_fd_of_fds (by simp) idx
  by_cases hc : (w.entry idx).fd = c
  · right
    rw [(removeClient_changed _ idx reaped .complete).client, if_pos (hc.symm.trans hentry.symm)]
  · left
    refine AsksOutput.of_sublist ?_ (removeClient_sublist _ idx reaped .complete)
    exact modifyOther (h.of_pollFds (v := w.setClient _ u) rfl) (fun _ => rfl) hc

theorem sendLoop (h : w.AsksOutput c) (a : Answers) {idx : ℕ} {fd : Fd} (hfd : (w.entry idx).fd = fd)
    (hidle : fd = c → client.cgiActive = false) (answers : List SendAnswer) (total : ℕ) :
    (World.sendLoop a idx fd answers total w client).2.AsksOutput c ∨
      (World.sendLoop a idx fd answers total w client).2.getClient c = none := by
  induction answers generalizing total w client with
  | nil => exact Or.inl h
  | cons answer answers ih =>
    unfold World.sendLoop
    split
    · split
      · split
        · next ha =>
          refine Or.inl (h.modifyOther (fun _ => rfl) ?_)
          rintro hc
          rw [hidle (hfd.symm.trans hc)] at ha
          cases ha
        · subst hfd
          exact h.completed idx _ a.reaped
      · split
        · exact Or.inl h
        · exact Or.inl (h.of_sublist (removeClient_sublist _ _ _ _))
        · next n _ =>
          dsimp only
          split
          · have hfds : (w.sendPending a.now fd client (min n client.cgiSendPending.size)
                (Nat.min_le_right _ _)).1.fds = w.fds := fds_resumeCgiOutput _
            refine ih (h.sendPending a.now fd client _ _) ((entry_fd_of_fds hfds idx).trans hfd) ?_ _
            exact hidle
          · exact ih h hfd hidle _
    · exact Or.inl h

theorem sendResponse (h : w.AsksOutput c) (a : Answers) (idx : ℕ) (u : Client) :
    (w.sendResponse a idx (w.entry idx).fd u).2.AsksOutput c ∨
      (w.sendResponse a idx (w.entry idx).fd u).2.getClient c = none := by
  unfold World.sendResponse
  dsimp only
  split
  · exact Or.inl (h.of_sublist (removeClient_sublist _ _ _ _))
  · exact Or.inl (h.of_sublist (removeClient_sublist _ _ _ _))
  · split
    · have hset (e : Event) (u' : Client) : ((w.log e).setClient (w.entry idx).fd u').AsksOutput c := h.of_pollFds rfl
      exact (hset _ _).completed idx _ a.reaped
    · exact Or.inl (h.of_pollFds rfl)

theorem handlePollOutput (h : w.AsksOutput c) (a : Answers) (idx : ℕ)
    (hpipe : w.isCgiStdinFd c = false) (hidle : ∀ client, w.getClient c = some client → client.cgiActive = false) :
    (w.handlePollOutput a idx).2.2.AsksOutput c ∨ (w.handlePollOutput a idx).2.2.getClient c = none := by
  unfold World.handlePollOutput
  dsimp only
  split
  · split
    · next hin =>
      refine Or.inl (h.handleCgiStdinWritable a ?_)
      rintro hc
      rw [hc, hpipe] at hin
      cases hin
    · split
      · exact Or.inl h
      · next client hg =>
        split
        · exact h.sendLoop a rfl (fun hc => hidle client (hc ▸ hg)) _ 0
        · split
          · exact Or.inl h
          · exact h.sendResponse a idx client
  · exact Or.inl h

/-! ### Accepting, errors and input -/

theorem acceptLoop (h : w.AsksOutput c) (hopen : c ∈ w.opened) (serverIndex now : ℕ) (fds : List Fd) :
    (acceptLoop serverIndex now fds w).AsksOutput c := by
  induction fds generalizing w with
  | nil => exact h
  | cons fd fds ih =>
    unfold World.acceptLoop
    split
    · exact h
    · next hfd =>
      have hne : fd ≠ c := fun heq => hfd (heq ▸ hopen)
      have hone : (w.acceptFd serverIndex now fd).AsksOutput c ∧ c ∈ (w.acceptFd serverIndex now fd).opened := by
        unfold acceptFd
        dsimp only
        split
        · exact ⟨pushPoll (h.of_pollFds rfl) hne _, List.mem_append_left _ hopen⟩
        · exact ⟨pushPoll (h.of_pollFds rfl) hne _, List.mem_append_left _ hopen⟩
      exact ih hone.1 hone.2

theorem handlePollErrors (h : w.AsksOutput c) (a : Answers) (idx : ℕ) : (w.handlePollErrors a idx).2.AsksOutput c := by
  unfold World.handlePollErrors
  dsimp only
  split
  · split
    · exact h
    · split
      · exact h
      · split
        · exact h.of_sublist (stdinHangup_sublist _ _ _)
        · exact h.of_sublist (removeClient_sublist _ _ _ _)
  · exact h

theorem handlePollInput (h : w.AsksOutput c) (hopen : c ∈ w.opened) (a : Answers) (idx : ℕ)
    (hne : ∀ d client, w.getClient d = some client → ∀ f, client.cgiStdinFd = some f → f ≠ c) :
    (w.handlePollInput a idx).2.2.AsksOutput c := by
  unfold World.handlePollInput
  dsimp only
  split
  · split
    · exact h.acceptLoop hopen _ _ _
    · split
      · exact h
      · split
        · exact h.handleCgiOutput a idx
        · exact h.handleClientRead hopen a idx (hne _)
  · split
    · exact h.handleCgiOutput a idx
    · exact h

end AsksOutput

/-! ## Clients that come to wait -/

/-- A client is polled for output while it waits. -/
def Ready (w : World) (c : Fd) : Prop :=
  ∀ client, w.getClient c = some client → client.Outgoing → w.AsksOutput c

/-- A client that waits has waited before. -/
def Reflects (c : Fd) (w v : World) : Prop := ∀ client', v.getClient c = some client' → client'.Outgoing →
  ∃ client, w.getClient c = some client ∧ client.Outgoing

theorem Reflects.refl (c : Fd) (w : World) : Reflects c w w := fun client hg ho => ⟨client, hg, ho⟩

theorem Reflects.trans {u : World} (h : Reflects c w v) (h' : Reflects c v u) : Reflects c w u := by
  intro client'' hg'' ho''
  obtain ⟨client', hg', ho'⟩ := h' client'' hg'' ho''
  exact h client' hg' ho'

theorem Reflects.of_getClient (h : v.getClient c = w.getClient c) : Reflects c w v :=
  fun client hg ho => ⟨client, h ▸ hg, ho⟩

theorem Reflects.of_changed {d : Fd} {es : List Event} {o : Option Client} (h : Changed w v d es o)
    (ho : ∀ client' ∈ o, client'.Outgoing → ∃ client, w.getClient d = some client ∧ client.Outgoing) :
    Reflects c w v := by
  intro client' hg' hout
  rw [h.client] at hg'
  split at hg'
  · next hc => exact hc ▸ ho client' hg' hout
  · exact ⟨client', hg', hout⟩

theorem Reflects.of_client {d : Fd} {es : List Event} {client client' : Client} (hg : w.getClient d = some client)
    (h : Changed w v d es (some client')) (ho : client'.Outgoing → client.Outgoing) : Reflects c w v := by
  refine .of_changed h ?_
  rintro _ ⟨⟩ hout
  exact ⟨client, hg, ho hout⟩

theorem Reflects.removed (w : World) (idx : ℕ) (reaped : Bool) (reason : RemoveReason) :
    Reflects c w (w.removeClient idx reaped reason) :=
  .of_changed (w.removeClient_changed idx reaped reason) (by simp)

theorem Ready.kept (h : w.Ready c) (hr : Reflects c w v)
    (ha : ∀ client, w.getClient c = some client → client.Outgoing → w.AsksOutput c →
      v.AsksOutput c ∨ v.getClient c = none) : v.Ready c := by
  intro client' hg' ho'
  obtain ⟨client, hg, ho⟩ := hr client' hg' ho'
  refine (ha client hg ho (h client hg ho)).resolve_right ?_
  rw [hg']
  exact nofun

theorem stdinHangup_reflects (w : World) (idx : ℕ) (f : Fd) : Reflects c w (w.stdinHangup idx f) := by
  cases hd : w.cgiStdinFdToClientFd[f]? with
  | none =>
    apply Reflects.of_getClient
    simp [stdinHangup, hd]
  | some d =>
    refine .of_changed (w.stdinHangup_changed idx hd) ?_
    intro client' hclient hout
    obtain ⟨client, hg, rfl⟩ := Option.map_eq_some_iff.mp hclient
    exact ⟨client, hg, hout.idle, hout.answered⟩

theorem handleCgiStdinWritable_reflects (w : World) (a : Answers) (idx : ℕ) :
    Reflects c w (w.handleCgiStdinWritable a idx).2 := by
  cases hd : w.cgiStdinFdToClientFd[(w.entry idx).fd]? with
  | none =>
    apply Reflects.of_getClient
    simp [handleCgiStdinWritable, hd]
  | some d =>
    cases hg : w.getClient d with
    | none =>
      apply Reflects.of_getClient
      simp [handleCgiStdinWritable, hd, hg]
    | some client =>
      obtain ⟨pieces, q, s, -, -, h⟩ := w.handleCgiStdinWritable_changed (a := a) hd hg
      exact .of_client hg h (fun hout => ⟨hout.idle, hout.answered⟩)

theorem handlePollErrors_reflects (w : World) (a : Answers) (idx : ℕ) : Reflects c w (w.handlePollErrors a idx).2 := by
  unfold handlePollErrors
  dsimp only
  split
  · split
    · exact .refl c w
    · split
      · exact .refl c w
      · split
        · exact w.stdinHangup_reflects idx _
        · exact .removed w idx _ _
  · exact .refl c w

theorem completed_reflects (w : World) (idx : ℕ) (fd : Fd) (u : Client) (reaped : Bool)
    (hfd : (w.entry idx).fd = fd) :
    Reflects c w (((w.setClient fd u).modifyEntry idx PollFd.disablePollout).removeClient idx reaped .complete) := by
  have hentry : (((w.setClient fd u).modifyEntry idx PollFd.disablePollout).entry idx).fd = fd :=
    (entry_fd_of_fds (by simp) idx).trans hfd
  have hset : Changed w ((w.setClient fd u).modifyEntry idx PollFd.disablePollout) fd [] (some u) := by
    constructor <;> simp
  have hremoved := removeClient_changed ((w.setClient fd u).modifyEntry idx PollFd.disablePollout) idx reaped .complete
  rw [hentry] at hremoved
  exact .of_changed (hset.trans hremoved) (by simp)

theorem sendLoop_reflects (a : Answers) {idx : ℕ} {fd : Fd} (answers : List SendAnswer) (total : ℕ)
    (hfd : (w.entry idx).fd = fd) (hg : w.getClient fd = some client) :
    Reflects c w (sendLoop a idx fd answers total w client).2 := by
  induction answers generalizing total w client with
  | nil => exact .refl c w
  | cons answer answers ih =>
    unfold sendLoop
    split
    · split
      · split
        · exact .of_getClient rfl
        · exact w.completed_reflects idx fd _ a.reaped hfd
      · split
        · exact .refl c w
        · exact .removed w idx _ _
        · next n _ =>
          dsimp only
          split
          · have hsent := w.sendPending_changed a.now fd client (min n client.cgiSendPending.size) (Nat.min_le_right _ _)
            have hfds : (w.sendPending a.now fd client (min n client.cgiSendPending.size)
                (Nat.min_le_right _ _)).1.fds = w.fds := fds_resumeCgiOutput _
            have hfirst : Reflects c w (w.sendPending a.now fd client (min n client.cgiSendPending.size)
                (Nat.min_le_right _ _)).1 := .of_client hg hsent (fun hout => ⟨hout.idle, hout.answered⟩)
            refine hfirst.trans (ih _ ((entry_fd_of_fds hfds idx).trans hfd) ?_)
            rw [hsent.client, if_pos rfl]
            rfl
          · exact ih _ hfd hg
    · exact .refl c w

theorem sendResponse_reflects (w : World) (a : Answers) (idx : ℕ) (u : Client)
    (hg : w.getClient (w.entry idx).fd = some u) : Reflects c w (w.sendResponse a idx (w.entry idx).fd u).2 := by
  unfold sendResponse
  dsimp only
  split
  · exact .removed w idx _ _
  · exact .removed w idx _ _
  · next n _ =>
    have hsent := (log_changed w (e := .sent (w.entry idx).fd false ((u.response.drop u.responseOffset).take
      (min n (u.response.length - u.responseOffset)))) rfl).trans (setClient_changed _ (w.entry idx).fd
      ((u.advanceResponseOffset (min n (u.response.length - u.responseOffset))).updateActivity a.now))
    have hfirst : Reflects c w _ := .of_client hg hsent (fun hout => ⟨hout.idle, hout.answered⟩)
    split
    · exact hfirst.trans (completed_reflects _ idx _ _ _ rfl)
    · exact hfirst

theorem handlePollOutput_reflects (w : World) (a : Answers) (idx : ℕ) :
    Reflects c w (w.handlePollOutput a idx).2.2 := by
  unfold handlePollOutput
  dsimp only
  split
  · split
    · exact w.handleCgiStdinWritable_reflects a idx
    · split
      · exact .refl c w
      · next client hg =>
        split
        · exact sendLoop_reflects a _ 0 rfl hg
        · split
          · exact .refl c w
          · exact w.sendResponse_reflects a idx client hg
  · exact .refl c w

theorem acceptLoop_reflects (serverIndex now : ℕ) (fds : List Fd) (w : World) :
    Reflects c w (acceptLoop serverIndex now fds w) := by
  induction fds generalizing w with
  | nil => exact .refl c w
  | cons fd fds ih =>
    unfold acceptLoop
    split
    · exact .refl c w
    · refine Reflects.trans ?_ (ih _)
      cases hg : w.getClient fd with
      | none =>
        obtain ⟨es, client', hstep, -, -, h⟩ := w.acceptFd_changed {} serverIndex now fd
        rw [hg] at hstep
        refine .of_changed h ?_
        rintro _ ⟨⟩ hout
        cases hstep
        exact absurd hout.answered (by simp [Answered, Client.create])
      | some client =>
        obtain ⟨es, client', -, hsame, -, h⟩ := w.acceptFd_changed {} serverIndex now fd
        obtain rfl := hsame client hg
        exact .of_client hg h id

/-! ## Clients that are polled while they wait -/

theorem Ready.of_active (hg : w.getClient c = some client) (ha : client.cgiActive = true) : w.Ready c := by
  intro client' hg' ho
  obtain rfl : client = client' := Option.some.inj (hg.symm.trans hg')
  rw [ho.idle] at ha
  cases ha

/-- What the entries of the other connections' clients and pipes leave alone. -/
structure Apart (w : World) (c : Fd) : Prop where
  opened : c ∈ w.opened
  unpiped : w.isCgiStdinFd c = false
  others : ∀ d client, w.getClient d = some client → ∀ f, client.cgiStdinFd = some f → f ≠ c

theorem apart_of_exact (h : w.registry.Exact) (hg : w.getClient c = some client) : w.Apart c := by
  have hscript := scripts_of_client hg
  obtain ⟨-, hin⟩ := h.registered.client_only (c := c) (by simp [hscript])
  have hnone : w.cgiStdinFdToClientFd[c]? = none := hin
  refine ⟨h.covered.isOpen c (h.registered.client_polled hscript), ?_, ?_⟩
  · rw [isCgiStdinFd, Std.ExtTreeMap.contains_eq_isSome_getElem?, hnone]
    rfl
  · rintro d client' hd f hf rfl
    have hof := h.registered.in_of f d (by simp [Registry.stdin, scripts_of_client hd, Client.script, hf])
    rw [hin] at hof
    cases hof

theorem cgiOutputLoop_ready (hn : w.fds.Nodup) (hg : w.getClient c = some client) (hfd : client.fd = c)
    (ha : client.cgiActive = true) (a : Answers) (idx : ℕ) (cgiFd : Fd) (answers : List ReadAnswer) (total : ℕ) :
    (cgiOutputLoop a idx cgiFd c answers total w client).2.Ready c := by
  have hend {w : World} (hn : w.fds.Nodup) {client : Client} (hfd : client.fd = c) :
      (w.cgiOutputEnd a idx cgiFd c client).Ready c := by
    intro _ _ _
    have hasks := AsksOutput.of_cgiOutputEnd (c := c) hn a idx cgiFd client
    rwa [hfd] at hasks
  induction answers generalizing total w client with
  | nil => exact .of_active hg ha
  | cons answer answers ih =>
    unfold cgiOutputLoop
    split
    · split
      · next bytes _ =>
        obtain ⟨-, hg'⟩ := cgiOutputRead_affects hg bytes
        obtain ⟨-, ha'⟩ := w.cgiOutputRead_client c client bytes
        have hfd' : (w.cgiOutputRead c client bytes).2.fd = c := by
          unfold cgiOutputRead
          dsimp only
          split
          · exact hfd
          · split <;> exact hfd
        have hn' : (w.cgiOutputRead c client bytes).1.fds.Nodup := by
          rwa [← map_fst_reports, reports_cgiOutputRead, map_fst_reports]
        dsimp only
        split
        · exact .of_active (w := World.modifyEntry _ idx PollFd.disablePollin) hg' (ha'.trans ha)
        · exact ih hn' hg' hfd' (ha'.trans ha) _
      · exact .of_active hg ha
      · exact hend hn hfd
      · exact hend hn hfd
    · exact .of_active hg ha

theorem handleCgiOutput_ready (h : w.Ready c) (hs : w.Sound) (hn : w.fds.Nodup) (a : Answers) (idx : ℕ) :
    (w.handleCgiOutput a idx).2.Ready c := by
  have hkept (hr : Reflects c w (w.handleCgiOutput a idx).2) : (w.handleCgiOutput a idx).2.Ready c :=
    h.kept hr (fun _ _ _ hasks => Or.inl (hasks.handleCgiOutput a idx))
  cases hd : w.cgiFdToClientFd[(w.entry idx).fd]? with
  | none =>
    apply hkept
    apply Reflects.of_getClient
    simp [handleCgiOutput, hd]
  | some d =>
    obtain ⟨client, hg, -, ha⟩ := hs.owned _ d hd
    have heq : w.handleCgiOutput a idx =
        cgiOutputLoop a idx (w.entry idx).fd d (a.reads ++ [.again]) 0 w client := by
      simp [handleCgiOutput, hd, hg]
    by_cases hdc : d = c
    · subst hdc
      rw [heq]
      exact cgiOutputLoop_ready hn hg (hs.clients d client hg).fd ha a idx _ _ 0
    · apply hkept
      rw [heq]
      exact .of_getClient ((cgiOutputLoop_affects hg a idx _ _ 0).client c (Ne.symm hdc))

/-- A client that was answered is polled for output. -/
theorem requestBytes_ready (h : w.Ready c) (hn : w.fds.Nodup) {idx : ℕ} (hidx : w.fds[idx]? = some c) (a : Answers)
    (hg : w.getClient c = some client) {u : Client} (hu : u.Outgoing → client.Outgoing) (hopen : c ∈ w.opened)
    (bytes : Bytes) : (w.requestBytes a c u idx bytes).Ready c := by
  obtain ⟨b, r, s, hclient⟩ := readRequest_client a (w.config u) u bytes
  have hcases := w.requestBytes_cases a c u idx bytes
  have hasks (hw : w.AsksOutput c) : (w.requestBytes a c u idx bytes).AsksOutput c := hw.requestBytes hopen a c u idx bytes
  generalize readRequest a (w.config u) u bytes = parsed at hclient hcases
  rcases hcases with he | ⟨v, new, outcome, response, g, -, hv, hmask, he⟩ | ⟨-, v, pid, stdinFd, stdoutFd, hv, he⟩
  · refine h.kept ?_ (fun _ _ _ hw => Or.inl (hasks hw))
    rw [he]
    refine .of_client hg ((log_changed w rfl).trans (setClient_changed _ c _)) ?_
    rw [hclient]
    exact fun hout => hu ⟨hout.idle, hout.answered⟩
  · intro _ _ _
    have hfds : (v.respond c parsed.2 response).fds = w.fds := by
      simp [respond, hv.pollFds]
    rw [he]
    have hon : ∀ p, (g p).fd = p.fd ∧ (g p).events.pollout = true := by
      rcases hmask with rfl | rfl <;> exact fun p => ⟨rfl, rfl⟩
    exact AsksOutput.of_modifyEntry (hfds ▸ hn) (hfds ▸ hidx) (fun p => (hon p).1) (fun p => (hon p).2)
  · obtain ⟨client', body, taken, hstarted, -, -, -, hch⟩ := v.startCgiRun_changed a c parsed.2 pid stdinFd stdoutFd
    rw [he]
    exact .of_active ((hch.client c).trans (if_pos rfl)) hstarted.active

theorem handleClientRead_ready (h : w.Ready c) (hn : w.fds.Nodup) (hc : ∀ client, w.getClient c = some client → w.Apart c)
    (a : Answers) {idx : ℕ} (hidx : idx < w.pollFds.length) : (w.handleClientRead a idx).2.Ready c := by
  have hkept (hr : Reflects c w (w.handleClientRead a idx).2) : (w.handleClientRead a idx).2.Ready c := by
    refine h.kept hr ?_
    intro client hg _ hasks
    have hapart := hc client hg
    exact Or.inl (hasks.handleClientRead hapart.opened a idx (hapart.others _))
  by_cases hd : (w.entry idx).fd = c
  · cases hg : w.getClient c with
    | none =>
      apply hkept
      apply Reflects.of_getClient
      simp [handleClientRead, hd, hg]
    | some client =>
      have hapart := hc client hg
      cases ha : client.cgiActive with
      | true =>
        obtain ⟨client', hg', ha'⟩ := bodyLoop_active hg ha a idx (a.reads ++ [.again]) a.writes 0
        have heq : (w.handleClientRead a idx).2 = bodyLoop a idx c (a.reads ++ [.again]) a.writes 0 w client := by
          simp [handleClientRead, hd, hg, ha]
        rw [heq]
        exact .of_active hg' ha'
      | false =>
        have hremoved (e : Event) (reason : RemoveReason) : ((w.log e).removeClient idx a.reaped reason).Ready c :=
          h.kept ((Reflects.of_getClient rfl).trans (.removed (w.log e) idx a.reaped reason))
            (fun _ _ _ hasks => Or.inl (hasks.of_sublist (removeClient_sublist (w.log e) idx a.reaped reason)))
        have hupdated : (client.updateActivity a.now).Outgoing → client.Outgoing := fun ho => ⟨ho.idle, ho.answered⟩
        unfold handleClientRead
        simp only [hd, hg, ha, Bool.false_eq_true, if_false]
        split
        · exact hremoved _ _
        · exact hremoved _ _
        · exact h.kept (.of_client hg (setClient_changed w c _) hupdated)
            (fun _ _ _ hasks => Or.inl (hasks.of_pollFds rfl))
        · exact requestBytes_ready h hn (hd ▸ fds_getElem? hidx) a hg hupdated hapart.opened _
  · exact hkept (.of_getClient ((w.handleClientRead_affects a idx).client c (Ne.symm hd)))

section
variable (h : w.Ready c) (hc : ∀ client, w.getClient c = some client → w.Apart c) (a : Answers) (idx : ℕ)
include h

theorem handlePollErrors_ready : (w.handlePollErrors a idx).2.Ready c :=
  h.kept (w.handlePollErrors_reflects a idx) (fun _ _ _ hasks => Or.inl (hasks.handlePollErrors a idx))

include hc

theorem handlePollInput_ready (hs : w.Sound) (hn : w.fds.Nodup) : (w.handlePollInput a idx).2.2.Ready c := by
  unfold handlePollInput
  dsimp only
  split
  · next hin =>
    have hidx : idx < w.pollFds.length := by
      apply lt_length_of_ready
      intro hnone
      rw [hnone] at hin
      cases hin
    split
    · refine h.kept (acceptLoop_reflects _ _ _ w) ?_
      intro client hg _ hasks
      exact Or.inl (hasks.acceptLoop (hc client hg).opened _ _ _)
    · split
      · exact h
      · split
        · exact handleCgiOutput_ready h hs hn a idx
        · exact handleClientRead_ready h hn hc a hidx
  · split
    · exact handleCgiOutput_ready h hs hn a idx
    · exact h

theorem handlePollOutput_ready : (w.handlePollOutput a idx).2.2.Ready c := by
  refine h.kept (w.handlePollOutput_reflects a idx) ?_
  intro client hg ho hasks
  refine hasks.handlePollOutput a idx (hc client hg).unpiped ?_
  intro client' hg'
  obtain rfl : client = client' := Option.some.inj (hg.symm.trans hg')
  exact ho.idle

end
end
end World

/-! ## Runs -/

/-- A step leaves every client that waits polled for output. -/
theorem step_ready {s : LoopState} (hs : s.world.Sound) (hx : s.world.registry.Exact) {c : Fd} (h : s.world.Ready c)
    (a : Answers) : (s.step a).world.Ready c := by
  have hc (client : Client) (hg : s.world.getClient c = some client) : s.world.Apart c := apart_of_exact hx hg
  obtain ⟨w, point⟩ := s
  cases point with
  | poll =>
    simp only [LoopState.step]
    split
    · exact h
    · exact h
    · next revents _ => exact fun client hg ho => (h client hg ho).reported revents
  | stopped => exact h
  | aborted => exact h
  | errors idx =>
    simp only [LoopState.step]
    split
    · have hready := handlePollErrors_ready h a idx
      split <;> next he => rw [he] at hready; exact hready
    · exact h
  | input idx =>
    have hready := handlePollInput_ready h hc a idx hs hx.registered.nodup
    simp only [LoopState.step]
    split <;> next v he =>
      rw [he] at hready
      cases v.aborted with
      | true => exact h
      | false => exact hready
  | output idx =>
    have hready := handlePollOutput_ready h hc a idx
    simp only [LoopState.step]
    split
    · next he => rw [he] at hready; exact hready
    · next idx' w' he =>
      rw [he] at hready
      exact fun client hg ho => (hready client hg ho).modifyEntry idx' KeepsOutput.clearRevents
  | timeouts now i =>
    simp only [LoopState.step]
    split
    · unfold LoopState.timeoutStep
      dsimp only
      split
      · exact h
      · split
        · exact h
        · split
          · exact h.kept (.removed w i _ _) (fun _ _ _ hasks => Or.inl (hasks.of_sublist (removeClient_sublist w i _ _)))
          · exact h
    · exact h

theorem Reachable.ready {s : LoopState} (h : Reachable s) (hn : ¬ s.world.ClosedEarly) (c : Fd) : s.world.Ready c := by
  obtain ⟨configs, sockets, w, as, hw, rfl⟩ := h
  induction as using List.reverseRecOn with
  | nil =>
    obtain ⟨-, hclients, -, -⟩ := World.Created.start ⟨configs, sockets, hw⟩
    intro client hg
    rw [LoopState.run, List.foldl_nil, hclients c] at hg
    cases hg
  | append_singleton as a ih =>
    have hreach : Reachable (LoopState.run ⟨w, .poll⟩ as) := ⟨configs, sockets, w, as, hw, rfl⟩
    have hrun : LoopState.run ⟨w, .poll⟩ (as ++ [a]) = (LoopState.run ⟨w, .poll⟩ as).step a := by
      simp [LoopState.run]
    rw [hrun] at hn ⊢
    have hbefore : ¬ (LoopState.run ⟨w, .poll⟩ as).world.ClosedEarly :=
      fun he => hn ((LoopState.closedEarly_run hreach.sound [a]).2 he)
    exact step_ready hreach.sound (hreach.exact hbefore) (ih hbefore) a

/-- As long as no pipe to a script was closed while it was registered, a client whose response waits to be sent,
with no script that adds to it, is polled for output. -/
theorem responses_polled {s : LoopState} (h : Reachable s) (hn : ¬ s.world.ClosedEarly) {c : Fd} {client : Client}
    (hg : s.world.getClient c = some client) (ha : client.cgiActive = false) (hr : Answered client) :
    ∃ p ∈ s.world.pollFds, p.fd = c ∧ p.events.pollout = true := by
  have hasks := h.ready hn c client hg ⟨ha, hr⟩
  obtain ⟨p, hp, hfd⟩ := List.mem_map.mp ((h.exact hn).registered.client_polled (scripts_of_client hg))
  exact ⟨p, hp, hfd, hasks p hp hfd⟩

/-- A client asks for something that is not there. -/
def asksOnce : List Answers := connects ++ sends 2 (ascii "GET / HTTP/1.1\r\n\r\n")

theorem responses_polled_once :
    ∃ p ∈ (scriptStart.run asksOnce).world.pollFds, p.fd = 4 ∧ p.events.pollout = true := by
  have hclient : ((scriptStart.run asksOnce).world.getClient 4).map (fun client =>
      (client.cgiActive, decide (Answered client))) = some (false, true) := by decide +kernel
  obtain ⟨client, hg, hparts⟩ := Option.map_eq_some_iff.mp hclient
  obtain ⟨ha, hr⟩ := Prod.mk.inj hparts
  exact responses_polled (scriptStart_reachable asksOnce) (by decide +kernel) hg ha (of_decide_eq_true hr)

end WebServ
