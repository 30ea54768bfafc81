import WebServ.Server.Registration
import WebServ.Server.Turns

/-! # The entries of descriptors

What is asked for a descriptor is read by its number, not by its position. The
operations on the poll list change one entry or drop one, and each handler changes
the entries of the client that it serves.
-/
namespace WebServ.World
open KeyedList

/-- The entry of a descriptor. -/
def entryOf (w : World) (f : Fd) : Option PollFd := lookup PollFd.fd f w.pollFds

theorem entryOf_of_pollFds {w w' : World} (h : w'.pollFds = w.pollFds) : w'.entryOf = w.entryOf := by
  funext f
  rw [entryOf, entryOf, h]

variable (w : World)

/-! ## Operations -/

@[simp] theorem entryOf_mark (thrown : Bool) : (w.mark thrown).entryOf = w.entryOf := entryOf_of_pollFds rfl
@[simp] theorem entryOf_log (e : Event) : (w.log e).entryOf = w.entryOf := entryOf_of_pollFds rfl
@[simp] theorem entryOf_logAll (es : List Event) : (w.logAll es).entryOf = w.entryOf := entryOf_of_pollFds rfl
@[simp] theorem entryOf_openFd (fd : Fd) : (w.openFd fd).entryOf = w.entryOf := entryOf_of_pollFds rfl
@[simp] theorem entryOf_closeFd (fd : Fd) : (w.closeFd fd).entryOf = w.entryOf := entryOf_of_pollFds rfl
@[simp] theorem entryOf_setClient (c : Fd) (client : Client) : (w.setClient c client).entryOf = w.entryOf :=
  entryOf_of_pollFds rfl
@[simp] theorem entryOf_eraseClient (c : Fd) : (w.eraseClient c).entryOf = w.entryOf := entryOf_of_pollFds rfl
@[simp] theorem entryOf_eraseCgiFd (fd : Fd) : (w.eraseCgiFd fd).entryOf = w.entryOf := entryOf_of_pollFds rfl
@[simp] theorem entryOf_eraseCgiStdinFd (fd : Fd) : (w.eraseCgiStdinFd fd).entryOf = w.entryOf :=
  entryOf_of_pollFds rfl
@[simp] theorem entryOf_insertCgiFd (fd c : Fd) : (w.insertCgiFd fd c).entryOf = w.entryOf := entryOf_of_pollFds rfl
@[simp] theorem entryOf_insertCgiStdinFd (fd c : Fd) : (w.insertCgiStdinFd fd c).entryOf = w.entryOf :=
  entryOf_of_pollFds rfl

@[simp] theorem entryOf_closeCgiStdin (client : Client) : (w.closeCgiStdin client).1.entryOf = w.entryOf :=
  entryOf_of_pollFds (w.closeCgiStdin_frame client).2.2.1

@[simp] theorem entryOf_finishCgi (client : Client) (reaped : Bool) :
    (w.finishCgi client reaped).1.entryOf = w.entryOf := entryOf_of_pollFds (w.finishCgi_frame client reaped).2.2.1

@[simp] theorem entryOf_modifyFd {g : PollFd → PollFd} (hg : ∀ p, (g p).fd = p.fd) (fd f : Fd) :
    (w.modifyFd fd g).entryOf f = if f = fd then (w.entryOf fd).map g else w.entryOf f :=
  lookup_updateFirst hg f w.pollFds

@[simp] theorem entryOf_pushPoll (fd f : Fd) (events : Interest) :
    (w.pushPoll fd events).entryOf f = (w.entryOf f).or (if fd = f then some { fd, events } else none) := by
  rw [entryOf, entryOf, pushPoll, lookup_append, lookup_cons, lookup_nil]

variable {w}

theorem entryOf_eq_none {f : Fd} (h : f ∉ w.fds) : w.entryOf f = none := lookup_eq_none_iff.mpr h

theorem entryOf_isSome {f : Fd} : (w.entryOf f).isSome ↔ f ∈ w.fds := lookup_isSome_iff

section
variable (hn : w.fds.Nodup)
include hn

theorem entryOf_of_getElem? {idx : ℕ} {p : PollFd} (hp : w.pollFds[idx]? = some p) : w.entryOf p.fd = some p :=
  lookup_of_mem hn (List.mem_of_getElem? hp)

theorem entryOf_of_mem {p : PollFd} (hp : p ∈ w.pollFds) : w.entryOf p.fd = some p := lookup_of_mem hn hp

/-- A change by position is one by number. -/
theorem modifyEntry_eq_modifyFd {idx : ℕ} {fd : Fd} (hfd : w.fds[idx]? = some fd) (g : PollFd → PollFd) :
    w.modifyEntry idx g = w.modifyFd fd g := by
  obtain ⟨p, hp, rfl⟩ : ∃ p, w.pollFds[idx]? = some p ∧ p.fd = fd := by simpa using hfd
  unfold modifyEntry modifyFd
  rw [modify_eq_updateFirst hn hp]

theorem entryOf_modifyEntry {idx : ℕ} {fd : Fd} (hfd : w.fds[idx]? = some fd) {g : PollFd → PollFd}
    (hg : ∀ p, (g p).fd = p.fd) (f : Fd) :
    (w.modifyEntry idx g).entryOf f = if f = fd then (w.entryOf fd).map g else w.entryOf f := by
  rw [modifyEntry_eq_modifyFd hn hfd, entryOf_modifyFd w hg]

theorem entryOf_erasePollFd (fd f : Fd) :
    (w.erasePollFd fd).entryOf f = if f = fd then none else w.entryOf f := lookup_eraseFirst hn fd f

theorem entryOf_eraseEntry {idx : ℕ} {fd : Fd} (hfd : w.fds[idx]? = some fd) (f : Fd) :
    (w.eraseEntry idx).entryOf f = if f = fd then none else w.entryOf f := by
  obtain ⟨p, hp, rfl⟩ : ∃ p, w.pollFds[idx]? = some p ∧ p.fd = fd := by simpa using hfd
  rw [eraseEntry_eq_erasePollFd w hn hp, entryOf_erasePollFd hn]

theorem entryOf_dropBeside (fd : Fd) (index : ℕ) (f : Fd) :
    (w.dropBeside fd index).1.entryOf f = if f = fd then none else w.entryOf f := by
  unfold dropBeside
  split
  · exact entryOf_erasePollFd hn fd f
  · next hi =>
    by_cases hf : f = fd
    · subst hf
      rw [if_pos rfl]
      apply entryOf_eq_none
      intro hmem
      obtain ⟨p, hp, hfd⟩ := List.mem_map.mp hmem
      rw [List.findIdx?_eq_none_iff] at hi
      simpa [hfd] using hi p hp
    · rw [if_neg hf]

end

/-- `poll` reports for an entry what was asked for, and leaves the masks. -/
theorem entryOf_reportAll (revents : List Readiness) (f : Fd) : ∃ r,
    ({ w with pollFds := reportAll w.pollFds revents } : World).entryOf f = (w.entryOf f).map (·.report r) := by
  have hlookup (ps : List PollFd) (rs : List Readiness) : ∃ r,
      lookup PollFd.fd f (reportAll ps rs) = (lookup PollFd.fd f ps).map (·.report r) := by
    induction ps generalizing rs with
    | nil => exact ⟨{}, by cases rs <;> rfl⟩
    | cons p ps ih =>
      cases rs with
      | nil =>
        obtain ⟨r, hr⟩ := ih []
        by_cases hp : p.fd = f
        · exact ⟨{}, by simp [reportAll, lookup_cons, hp]⟩
        · exact ⟨r, by simp [reportAll, lookup_cons, hp, hr]⟩
      | cons r rs =>
        obtain ⟨r', hr⟩ := ih rs
        by_cases hp : p.fd = f
        · exact ⟨r, by simp [reportAll, lookup_cons, hp]⟩
        · exact ⟨r', by simp [reportAll, lookup_cons, hp, hr]⟩
  exact hlookup w.pollFds revents

/-! ## Removal -/

/-- With a client go its own entry and those of its pipes. -/
theorem entryOf_removeClient (h : w.registry.Registered) {idx : ℕ} {p : PollFd} (hp : w.pollFds[idx]? = some p)
    {client : Client} (hg : w.getClient p.fd = some client) (reaped : Bool) (reason : RemoveReason) {f : Fd}
    (hf : f ≠ p.fd ∧ client.cgiStdoutFd ≠ some f ∧ client.cgiStdinFd ≠ some f) :
    (w.removeClient idx reaped reason).entryOf f = w.entryOf f := by
  obtain ⟨hne, hout, hin⟩ := hf
  obtain ⟨hneOut, hneIn⟩ := pipes_ne h hg
  have hn : w.fds.Nodup := h.nodup
  rw [removeClient_eq, removeScript, entry_eq hp]
  simp only [hg, entryOf_log]
  have hlast (v : World) (i : ℕ) (hv : v.fds.Nodup) (hi : v.fds[i]? = some p.fd) :
      (((((v.finishCgi client reaped).1.setClient p.fd (v.finishCgi client reaped).2).closeFd p.fd).eraseClient
        p.fd).eraseEntry i).entryOf f = v.entryOf f := by
    rw [entryOf_eraseEntry (by simpa using hv) (by simpa using hi), if_neg hne]
    simp
  have hidx := fds_of_entry hp
  -- the pipe of the output is dropped first, then the pipe of the input
  have hinput (v : World) (i : ℕ) (hv : v.fds.Nodup) (hi : v.fds[i]? = some p.fd) :
      let r := v.dropInput client i
      (((((r.1.finishCgi client reaped).1.setClient p.fd (r.1.finishCgi client reaped).2).closeFd p.fd).eraseClient
        p.fd).eraseEntry r.2).entryOf f = v.entryOf f := by
    rw [dropInput]
    cases hsi : client.cgiStdinFd with
    | none => exact hlast v i hv hi
    | some cgiIn =>
      obtain ⟨hr, hi'⟩ := dropBeside_registry (v.eraseCgiStdinFd cgiIn) hv hi (hneIn cgiIn hsi)
      have hv' : ((v.eraseCgiStdinFd cgiIn).dropBeside cgiIn i).1.registry.polled.Nodup := by
        rw [hr]
        exact hv.erase cgiIn
      have hfne : f ≠ cgiIn := fun heq => hin (heq ▸ hsi)
      dsimp only
      rw [hlast _ _ hv' hi', entryOf_dropBeside (w := v.eraseCgiStdinFd cgiIn) hv, if_neg hfne]
      rfl
  rw [dropOutput]
  cases hso : client.cgiStdoutFd with
  | none => exact hinput w idx hn hidx
  | some cgiOut =>
    obtain ⟨hr, hi'⟩ := dropBeside_registry (w.eraseCgiFd cgiOut) hn hidx (hneOut cgiOut hso)
    have hv' : ((w.eraseCgiFd cgiOut).dropBeside cgiOut idx).1.registry.polled.Nodup := by
      rw [hr]
      exact hn.erase cgiOut
    have hfne : f ≠ cgiOut := fun heq => hout (heq ▸ hso)
    refine (hinput _ _ hv' hi').trans ?_
    rw [entryOf_dropBeside (w := w.eraseCgiFd cgiOut) hn, if_neg hfne]
    rfl

/-! ## Scripts -/

theorem entryOf_endInput (c : Fd) (client : Client) : (w.endInput c client).entryOf = w.entryOf := by
  unfold endInput
  dsimp only
  split
  · rw [entryOf_setClient, entryOf_closeCgiStdin, entryOf_log]
  · rw [entryOf_setClient, entryOf_log]

theorem entryOf_inputComplete (hn : w.fds.Nodup) (c : Fd) (client : Client) (stdinFd f : Fd) :
    (w.inputComplete c client stdinFd).entryOf f =
      if client.cgiStdinPending.isEmpty = true ∧ f = stdinFd then none else w.entryOf f := by
  unfold inputComplete
  by_cases he : client.cgiStdinPending.isEmpty = true
  · rw [if_pos he, entryOf_erasePollFd (by simpa using hn)]
    by_cases hf : f = stdinFd
    · rw [if_pos hf, if_pos ⟨he, hf⟩]
    · rw [if_neg hf, if_neg (fun h => hf h.2)]
      simp
  · rw [if_neg he, if_neg (fun h => he h.1), entryOf_setClient]

/-- What is read from the script is left for the client, which is then polled for output. -/
theorem cgiOutputRead_entries (c : Fd) (client : Client) (bytes : Bytes) :
    ((w.cgiOutputRead c client bytes).1.entryOf = w.entryOf ∧
      (w.cgiOutputRead c client bytes).2.cgiSendPending = client.cgiSendPending) ∨
    ((∀ f, (w.cgiOutputRead c client bytes).1.entryOf f =
      if f = client.fd then (w.entryOf client.fd).map PollFd.enablePollout else w.entryOf f) ∧
      client.cgiSendPending.size ≤ (w.cgiOutputRead c client bytes).2.cgiSendPending.size) := by
  unfold cgiOutputRead
  dsimp only
  split
  · right
    refine ⟨fun f => by simp [Client.appendCgiSendPending], ?_⟩
    rw [Client.appendCgiSendPending, OffsetBuffer.size_append]
    omega
  · split
    · left
      simp [Client.appendCgiOutput]
    · right
      refine ⟨fun f => by simp [Client.appendCgiSendPending, Client.appendCgiOutput], ?_⟩
      simp only [Client.appendCgiSendPending, Client.appendCgiOutput, OffsetBuffer.size_append]
      omega

theorem cgiOutputRead_input (w : World) (c : Fd) (client : Client) (bytes : Bytes) :
    (w.cgiOutputRead c client bytes).2.cgiStdinPending = client.cgiStdinPending ∧
    (w.cgiOutputRead c client bytes).2.cgiStdinFd = client.cgiStdinFd ∧
    (w.cgiOutputRead c client bytes).2.cgiStdinEof = client.cgiStdinEof := by
  unfold cgiOutputRead
  dsimp only
  split
  · exact ⟨rfl, rfl, rfl⟩
  · split
    · exact ⟨rfl, rfl, rfl⟩
    · exact ⟨rfl, rfl, rfl⟩

theorem entryOf_enableOutput (hn : w.fds.Nodup) (idx : ℕ) (fd f : Fd) : (w.enableOutput idx fd).entryOf f =
    if f = fd then (w.entryOf fd).map PollFd.enablePollout else w.entryOf f := by
  unfold enableOutput
  split
  · next h =>
    have hfd : w.fds[idx]? = some fd := by
      have hp := List.getElem?_eq_getElem h.1
      rw [fds_of_entry hp, ← entry_eq hp, h.2]
    exact entryOf_modifyEntry hn hfd (g := PollFd.enablePollout) (fun _ => rfl) f
  · exact entryOf_modifyFd (g := PollFd.enablePollout) w (fun _ => rfl) fd f

theorem entryOf_finalizeCgi (hn : w.fds.Nodup) (a : Answers) (c : Fd) (client : Client) (idx : ℕ) (f : Fd) :
    (w.finalizeCgi a c client idx).entryOf f =
      if f = client.fd then (w.entryOf client.fd).map PollFd.enablePollout else w.entryOf f := by
  unfold finalizeCgi
  dsimp only
  split
  · rw [finishCgi_client, entryOf_log, entryOf_setClient,
      entryOf_modifyFd (g := PollFd.enablePollout) _ (fun _ => rfl), entryOf_finishCgi, entryOf_log]
  · rw [finishCgi_client, entryOf_log, entryOf_enableOutput (by simpa [respond] using hn), respond,
      entryOf_setClient, entryOf_log, entryOf_mark, entryOf_finishCgi, entryOf_log]

theorem entryOf_cgiOutputEnd (hn : w.fds.Nodup) (a : Answers) {idx : ℕ} {p : PollFd}
    (hp : w.pollFds[idx]? = some p) (c : Fd) (client : Client) {f : Fd} (hf : f ≠ p.fd) :
    (w.cgiOutputEnd a idx p.fd c client).entryOf f =
      if f = client.fd then (w.entryOf f).map PollFd.enablePollout else w.entryOf f := by
  have herase (f : Fd) : (((w.eraseCgiFd p.fd).closeFd p.fd).eraseEntry idx).entryOf f =
      if f = p.fd then none else w.entryOf f := by
    rw [entryOf_eraseEntry (by simpa using hn) (by simpa using fds_of_entry hp)]
    simp
  have herased : (((w.eraseCgiFd p.fd).closeFd p.fd).eraseEntry idx).fds.Nodup := by
    rw [fds_eraseEntry]
    exact hn.eraseIdx idx
  unfold cgiOutputEnd
  dsimp only
  rw [entryOf_finalizeCgi herased, herase, herase, if_neg hf]
  by_cases hc : f = client.fd
  · rw [if_pos hc, if_pos hc, ← hc, if_neg hf]
  · rw [if_neg hc, if_neg hc]

/-- A client whose script has ended runs none. -/
theorem cgiOutputEnd_inactive (w : World) (a : Answers) (idx : ℕ) (cgiFd c : Fd) (client client' : Client)
    (h : (w.cgiOutputEnd a idx cgiFd c client).getClient c = some client') : client'.cgiActive = false := by
  unfold cgiOutputEnd finalizeCgi at h
  dsimp only at h
  split at h
  · obtain rfl : _ = client' := by simpa [finishCgi_client] using h
    rfl
  · obtain rfl : _ = client' := by simpa [finishCgi_client, respond] using h
    rfl

/-- A pipe that is closed when nothing is pending is open only as long as something is. -/
theorem pending_of_open {w w' : World} {c : Fd} {es : List Event} {client client' : Client}
    (hch : Changed w w' c es (some client)) (hclosed : client.cgiStdinPending.isEmpty = true → client.cgiStdinFd = none)
    (h : w'.getClient c = some client') (hopen : client'.cgiStdinFd ≠ none) : 0 < client'.cgiStdinPending.size := by
  have hclient := hch.client c
  rw [h, if_pos rfl, Option.some.injEq] at hclient
  subst hclient
  by_contra hsize
  exact hopen (hclosed (by simpa [OffsetBuffer.isEmpty] using hsize))

/-- The pipe to the script stays open as long as something is pending. -/
theorem endInput_stdin (w : World) (c : Fd) (client client' : Client)
    (h : (w.endInput c client).getClient c = some client') (hopen : client'.cgiStdinFd ≠ none) :
    0 < client'.cgiStdinPending.size :=
  pending_of_open (w.endInput_exact c client) (fun hempty => if_pos hempty) h hopen

theorem inputComplete_stdin (w : World) (c : Fd) (client : Client) (stdinFd : Fd) (client' : Client)
    (h : (w.inputComplete c client stdinFd).getClient c = some client') (hopen : client'.cgiStdinFd ≠ none) :
    0 < client'.cgiStdinPending.size :=
  pending_of_open (w.inputComplete_exact c client stdinFd) (fun hempty => if_pos hempty) h hopen

/-- The pipe is polled for output when it did not take the whole piece. -/
theorem entryOf_forwardPiece {c stdinFd : Fd} {client : Client} (hin : w.isCgiStdinFd stdinFd = true)
    (piece : Bytes) (answer : ℕ) (f : Fd) : (w.forwardPiece c client stdinFd piece answer).1.entryOf f =
      if w.write stdinFd piece.length answer < piece.length ∧ f = stdinFd then
        (w.entryOf f).map PollFd.enablePollout else w.entryOf f := by
  unfold forwardPiece
  dsimp only
  by_cases htaken : w.write stdinFd piece.length answer < piece.length
  · have hlog : (w.log (.forwarded c client.cgiStdinPending.pending piece
        (w.write stdinFd piece.length answer))).isCgiStdinFd stdinFd = true := hin
    rw [if_pos htaken, monitorStdin, if_pos hlog, entryOf_modifyFd (g := PollFd.enablePollout) _ (fun _ => rfl),
      entryOf_log]
    by_cases hf : f = stdinFd
    · rw [if_pos hf, if_pos ⟨htaken, hf⟩, hf]
    · rw [if_neg hf, if_neg (fun h => hf h.2)]
  · rw [if_neg htaken, if_neg (fun h => htaken h.1), entryOf_log]

theorem entryOf_resumeCgiOutput (client : Client) (f : Fd) : (w.resumeCgiOutput client).entryOf f =
    if (client.cgiActive = true ∧ client.cgiSendPending.size < cgiBackpressureLimit) ∧ client.cgiStdoutFd = some f
    then (w.entryOf f).map PollFd.enablePollin else w.entryOf f := by
  unfold resumeCgiOutput
  by_cases hlow : client.cgiActive = true ∧ client.cgiSendPending.size < cgiBackpressureLimit
  · rw [if_pos hlow]
    cases hso : client.cgiStdoutFd with
    | none => simp
    | some cgiOut =>
      by_cases hf : cgiOut = f
      · subst hf
        simp [hlow]
      · simp [hf, Ne.symm hf]
  · rw [if_neg hlow, if_neg (fun h => hlow h.1)]

theorem entryOf_sendPending (now : ℕ) (fd : Fd) (client : Client) (sent : ℕ) (h : sent ≤ client.cgiSendPending.size)
    (f : Fd) : (w.sendPending now fd client sent h).1.entryOf f =
      if (client.cgiActive = true ∧ client.cgiSendPending.size - sent < cgiBackpressureLimit) ∧
        client.cgiStdoutFd = some f then (w.entryOf f).map PollFd.enablePollin else w.entryOf f := by
  have hsize : ((client.consumeCgiSendPending sent h).updateActivity now).cgiSendPending.size =
      client.cgiSendPending.size - sent := OffsetBuffer.size_consume _ _ _ h
  have hresume := entryOf_resumeCgiOutput (w := (w.log (.sent fd true
    (client.cgiSendPending.pending.take sent))).setClient fd ((client.consumeCgiSendPending sent h).updateActivity
      now)) ((client.consumeCgiSendPending sent h).updateActivity now) f
  rw [hsize, entryOf_setClient, entryOf_log] at hresume
  exact hresume

/-- Bytes are written to the script: the pipe is dropped at the end of the input, and else the
client is read again when the queue is short, and the pipe is left alone when it is empty. -/
theorem handleCgiStdinWritable_entries (h : w.registry.Registered) (a : Answers) {idx : ℕ} {p : PollFd} {c : Fd}
    {client : Client} (hp : w.pollFds[idx]? = some p) (hc : w.cgiStdinFdToClientFd[p.fd]? = some c)
    (hg : w.getClient c = some client) : ∃ q, q.size ≤ client.cgiStdinPending.size ∧
      ((q.size = 0 ∧ client.cgiStdinEof = true ∧
        (w.handleCgiStdinWritable a idx).2.getClient c =
          some { client with cgiStdinPending := q, cgiStdinFd := none } ∧
        ∀ f, (w.handleCgiStdinWritable a idx).2.entryOf f = if f = p.fd then none else w.entryOf f) ∨
      (¬ (q.size = 0 ∧ client.cgiStdinEof = true) ∧
        (w.handleCgiStdinWritable a idx).2.getClient c = some { client with cgiStdinPending := q } ∧
        ∀ f, f ≠ p.fd ∨ 0 < q.size → (w.handleCgiStdinWritable a idx).2.entryOf f =
          if f = client.fd ∧ q.size < cgiBackpressureLimit then (w.entryOf f).map PollFd.enablePollin
          else w.entryOf f)) := by
  have hn : w.fds.Nodup := h.nodup
  obtain ⟨q, hq, hpending⟩ := w.flushLoop_spec p.fd a.writes 0 client
  refine ⟨q, ?_, ?_⟩
  · rw [← OffsetBuffer.length_pending, ← OffsetBuffer.length_pending, hpending, List.length_append]
    omega
  unfold handleCgiStdinWritable
  rw [entry_eq hp]
  simp only [hc, hg, hq]
  have hempty : q.isEmpty = decide (q.size = 0) := rfl
  by_cases hend : (q.isEmpty && client.cgiStdinEof) = true
  · left
    rw [if_pos hend]
    obtain ⟨hz, he⟩ := Bool.and_eq_true_iff.mp hend
    refine ⟨by simpa [hempty] using hz, he, by simp, ?_⟩
    intro f
    rw [entryOf_eraseEntry (by simpa using hn) (by simpa using fds_of_entry hp)]
    simp
  · right
    rw [if_neg hend]
    have hnot : ¬ (q.size = 0 ∧ client.cgiStdinEof = true) := by
      rintro ⟨hz, he⟩
      exact hend (by simp [hempty, hz, he])
    refine ⟨hnot, ?_, ?_⟩
    · dsimp only
      split <;> split <;> simp
    · intro f hf
      -- the masks change after the client was written back
      generalize hv : (w.logAll _).setClient c _ = v
      have hentry : v.entryOf = w.entryOf := by
        rw [← hv, entryOf_setClient, entryOf_logAll]
      have hfds : v.fds = w.fds := by
        rw [← hv]
        simp
      dsimp only
      generalize hu : (if q.size < cgiBackpressureLimit then v.modifyFd client.fd PollFd.enablePollin else v) = u
      have hue : ∀ f, u.entryOf f = if f = client.fd ∧ q.size < cgiBackpressureLimit then
          (w.entryOf f).map PollFd.enablePollin else w.entryOf f := by
        intro f
        rw [← hu]
        by_cases hlow : q.size < cgiBackpressureLimit
        · rw [if_pos hlow, entryOf_modifyFd (g := PollFd.enablePollin) v (fun _ => rfl), hentry]
          by_cases hfd : f = client.fd
          · simp [hfd, hlow]
          · simp [hfd]
        · rw [if_neg hlow, hentry, if_neg (fun h => hlow h.2)]
      have hufds : u.fds = w.fds := by
        rw [← hu]
        split
        · rw [fds_modifyFd (f := PollFd.enablePollin) v (fun _ => rfl), hfds]
        · exact hfds
      split
      · next hz =>
        have hne : f ≠ p.fd := by
          refine hf.resolve_right ?_
          rw [hempty, decide_eq_true_eq] at hz
          omega
        rw [entryOf_modifyEntry (hufds ▸ hn) (hufds ▸ fds_of_entry hp) (g := PollFd.disablePollout) (fun _ => rfl),
          if_neg hne, hue]
      · exact hue f

/-! ## Requests -/

theorem entryOf_registerPipes (client : Client) (stdoutFd : Fd) (bodyComplete : Bool) (f : Fd) :
    (w.registerPipes client stdoutFd bodyComplete).entryOf f =
      ((w.entryOf f).or (if stdoutFd = f then some { fd := stdoutFd, events := { pollin := true } } else none)).or
        (if (bodyComplete = false ∨ 0 < client.cgiStdinPending.size) ∧ client.cgiStdinFd = some f then
          some { fd := f, events := { pollout := true } } else none) := by
  have hneeded : (!bodyComplete || !client.cgiStdinPending.isEmpty) = true ↔
      bodyComplete = false ∨ 0 < client.cgiStdinPending.size := by
    simp [OffsetBuffer.isEmpty, Nat.pos_iff_ne_zero]
  unfold registerPipes
  dsimp only
  cases hin : client.cgiStdinFd with
  | none => simp
  | some fd =>
    by_cases hn : (!bodyComplete || !client.cgiStdinPending.isEmpty) = true
    · have hn' := hneeded.mp hn
      by_cases hf : fd = f
      · subst hf
        simp [hn, hn']
      · simp [hn, hf]
    · have hnot : ¬ ((bodyComplete = false ∨ 0 < client.cgiStdinPending.size) ∧ fd = f) :=
        fun h => hn (hneeded.mpr h.1)
      simp [hn, hnot]

/-- A script that is started is polled for its output, and for its input as long as there is any. -/
theorem startCgiRun_entries (v : World) (a : Answers) {c i o : Fd} (client : Client) (pid : ℕ)
    (hi : i ∉ v.fds) (ho : o ∉ v.fds) (hio : i ≠ o) :
    (∀ f ∈ v.fds, (v.startCgiRun a c client pid i o).entryOf f = v.entryOf f) ∧
    ∃ client', (v.startCgiRun a c client pid i o).getClient c = some client' ∧ client'.cgiStdoutFd = some o ∧
      client'.cgiSendPending.size = 0 ∧ (client'.cgiStdinFd = some i ∨ client'.cgiStdinFd = none) ∧
      (client'.cgiStdinEof = true → client'.cgiStdinFd ≠ none → 0 < client'.cgiStdinPending.size) ∧
      (v.startCgiRun a c client pid i o).entryOf o = some { fd := o, events := { pollin := true } } ∧
      (0 < client'.cgiStdinPending.size → client'.cgiStdinFd = some i →
        (v.startCgiRun a c client pid i o).entryOf i = some { fd := i, events := { pollout := true } }) := by
  obtain ⟨n, b, d, hc⟩ := cgiInput_client client pid i o
  unfold startCgiRun
  dsimp only
  generalize hw : (v.log _).log _ = v'
  have hentry : v'.entryOf = v.entryOf := by
    rw [← hw, entryOf_log, entryOf_log]
  generalize hcl : Client.appendCgiStdinPending _ _ = client₁
  have hclient : client₁.cgiStdoutFd = some o ∧ client₁.cgiStdinFd = some i ∧ client₁.cgiStdinEof = false ∧
      client₁.cgiSendPending.size = 0 := by
    rw [← hcl, hc]
    exact ⟨rfl, rfl, rfl, rfl⟩
  obtain ⟨hout, hin, hend, hsend⟩ := hclient
  generalize (cgiInput client pid i o).2.2 = bodyComplete
  have hclosed : (v'.closeInput client₁ bodyComplete).1.entryOf = v.entryOf := by
    rw [entryOf_of_pollFds (v'.closeInput_frame client₁ bodyComplete).2.2.1, hentry]
  -- the end of the input is recorded when something is pending, and else the pipe is closed
  have hinput : ∃ s e, (v'.closeInput client₁ bodyComplete).2 = { client₁ with cgiStdinFd := s, cgiStdinEof := e } ∧
      (s = some i ∨ s = none) ∧ (e = true → s ≠ none → 0 < client₁.cgiStdinPending.size) := by
    unfold closeInput
    split
    · split
      · exact ⟨none, client₁.cgiStdinEof, closeCgiStdin_client v' client₁, Or.inr rfl, fun _ h => absurd rfl h⟩
      · next he =>
        refine ⟨client₁.cgiStdinFd, true, rfl, Or.inl hin, fun _ _ => ?_⟩
        simpa [OffsetBuffer.isEmpty, Nat.pos_iff_ne_zero] using he
    · refine ⟨client₁.cgiStdinFd, client₁.cgiStdinEof, rfl, Or.inl hin, fun h => ?_⟩
      rw [hend] at h
      cases h
  obtain ⟨s, e, hci, hs, he⟩ := hinput
  rw [hci]
  have hfinal (f : Fd) := entryOf_registerPipes (w := (v'.closeInput client₁ bodyComplete).1.setClient c
    { client₁ with cgiStdinFd := s, cgiStdinEof := e }) { client₁ with cgiStdinFd := s, cgiStdinEof := e } o
      bodyComplete f
  simp only [entryOf_setClient, hclosed] at hfinal
  refine ⟨?_, { client₁ with cgiStdinFd := s, cgiStdinEof := e }, by simp, hout, hsend, hs, he, ?_, ?_⟩
  · intro f hf
    obtain ⟨p, hp⟩ := Option.isSome_iff_exists.mp (entryOf_isSome.mpr hf)
    rw [hfinal, hp, Option.some_or, Option.some_or]
  · rw [hfinal, entryOf_eq_none ho, if_pos rfl, Option.none_or, Option.some_or]
  · intro hp hsi
    rw [hfinal, entryOf_eq_none hi, if_neg hio.symm, if_pos ⟨Or.inr hp, hsi⟩]
    rfl

theorem startCgiRun_trace (v : World) (a : Answers) (c : Fd) (client : Client) (pid stdinFd stdoutFd : ℕ) :
    v.trace <+: (v.startCgiRun a c client pid stdinFd stdoutFd).trace := by
  have hregister (u : World) (client : Client) (bodyComplete : Bool) :
      (u.registerPipes client stdoutFd bodyComplete).trace = u.trace := by
    unfold registerPipes
    dsimp only
    split
    · split <;> simp
    · simp
  have hclose (u : World) (client : Client) (bodyComplete : Bool) :
      u.trace <+: (u.closeInput client bodyComplete).1.trace := by
    unfold closeInput closeCgiStdin
    split
    · split
      · split
        · exact List.prefix_append _ _
        · exact List.prefix_rfl
      · exact List.prefix_rfl
    · exact List.prefix_rfl
  unfold startCgiRun
  dsimp only
  rw [hregister, (setClient_frame _ _ _).2.2.2.2.2.2.1]
  refine List.IsPrefix.trans ?_ (hclose _ _ _)
  simp [log]

/-- What a client that runs a script waits for in the beginning. -/
structure FirstEntries (w : World) (i o : Fd) (client : Client) : Prop where
  stdout : client.cgiStdoutFd = some o
  send : client.cgiSendPending.size = 0
  stdin : client.cgiStdinFd = some i ∨ client.cgiStdinFd = none
  ended : client.cgiStdinEof = true → client.cgiStdinFd ≠ none → 0 < client.cgiStdinPending.size
  output : w.entryOf o = some { fd := o, events := { pollin := true } }
  input : 0 < client.cgiStdinPending.size → client.cgiStdinFd = some i →
    w.entryOf i = some { fd := i, events := { pollout := true } }

/-- Bytes of a request change at most the mask of their client's entry, or start a script. -/
theorem requestBytes_entries (hn : w.fds.Nodup) (a : Answers) {idx : ℕ} {p : PollFd}
    (hp : w.pollFds[idx]? = some p) {client : Client} (ha : client.cgiActive = false) (bytes : Bytes)
    (hnew : ∀ f, .opened f true ∉ (w.requestBytes a p.fd client idx bytes).trace) :
    (∀ f ∈ w.fds, f ≠ p.fd →
      (w.requestBytes a p.fd client idx bytes).entryOf f = w.entryOf f) ∧
    ((∀ client', (w.requestBytes a p.fd client idx bytes).getClient p.fd = some client' → client'.cgiActive = false) ∨
      (w.requestBytes a p.fd client idx bytes).entryOf p.fd = w.entryOf p.fd ∧ ∃ i o client',
        (w.requestBytes a p.fd client idx bytes).getClient p.fd = some client' ∧
        (w.requestBytes a p.fd client idx bytes).FirstEntries i o client') := by
  obtain ⟨b, r, s, hcl⟩ := readRequest_client a (w.config client) client bytes
  have hcases := w.requestBytes_cases a p.fd client idx bytes
  generalize readRequest a (w.config client) client bytes = parsed at hcl hcases
  have hidle : parsed.2.cgiActive = false := by
    rw [hcl]
    exact ha
  rcases hcases with he | ⟨v, new, outcome, response, g, -, hv, hg, he⟩ | ⟨-, v, pid, i, o, hv, he⟩
  · rw [he]
    refine ⟨fun f _ _ => by rw [entryOf_setClient, entryOf_log], Or.inl ?_⟩
    intro client' hg
    obtain rfl : parsed.2 = client' := by simpa using hg
    exact hidle
  · have hentry : v.entryOf = w.entryOf := entryOf_of_pollFds hv.pollFds
    have hfds : v.fds = w.fds := congrArg (List.map PollFd.fd) hv.pollFds
    have hmask : ∀ p, (g p).fd = p.fd := by
      rcases hg with rfl | rfl <;> exact fun p => rfl
    rw [he]
    refine ⟨fun f _ hf => ?_, Or.inl ?_⟩
    · have hfds' : (v.respond p.fd parsed.2 response).fds = w.fds := by simp [respond, hfds]
      rw [entryOf_modifyEntry (hfds' ▸ hn) (hfds' ▸ fds_of_entry hp) hmask, if_neg hf]
      simp [respond, hentry]
    · intro client' hg
      obtain rfl : _ = client' := by simpa [respond] using hg
      exact hidle
  · have hentry : v.entryOf = w.entryOf := entryOf_of_pollFds hv.pollFds
    have hfds : v.fds = w.fds := congrArg (List.map PollFd.fd) hv.pollFds
    rw [he] at hnew ⊢
    -- the numbers of the pipes are new to the poll list
    obtain ⟨es, htrace, hes⟩ := hv.events
    have hfree (f : Fd) (hf : f ∈ [i, o]) : f ∉ v.fds := by
      intro hmem
      rw [hfds] at hmem
      have hopened := (hes.fresh f hf).2
      rw [decide_eq_true (show f ∈ (w.log _).fds from hmem)] at hopened
      refine hnew f ((startCgiRun_trace v a p.fd parsed.2 pid i o).subset ?_)
      rw [htrace]
      exact List.mem_append_right _ hopened
    have hio : i ≠ o := by
      rintro rfl
      simpa using hes.nodup
    obtain ⟨hkept, client', hg, hout, hsend, hin, hend, ho, hi'⟩ := startCgiRun_entries v a (c := p.fd) parsed.2 pid
      (hfree i (by simp)) (hfree o (by simp)) hio
    have hkept' (f : Fd) (hf : f ∈ w.fds) : (v.startCgiRun a p.fd parsed.2 pid i o).entryOf f = w.entryOf f := by
      rw [hkept f (hfds ▸ hf), hentry]
    refine ⟨fun f hf _ => hkept' f hf, Or.inr ⟨hkept' p.fd ?_, i, o, client', hg, ⟨hout, hsend, hin, hend, ho, hi'⟩⟩⟩
    exact List.mem_of_getElem? (fds_of_entry hp)

end WebServ.World
