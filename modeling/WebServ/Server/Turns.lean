import WebServ.Lib.Sweep
import WebServ.Server.Steps

/-! # The turns of the entries

A handler that is called for an entry may append entries, drop the pipes of the
client that owns it, or drop the entry itself. It tells the loop where to go on.
-/
namespace WebServ
open Search KeyedList Sweep

namespace World

/-- The entries as `poll` left them: descriptors and reported events. -/
def reports (w : World) : List (Fd × Readiness) := w.pollFds.map (fun p => (p.fd, p.revents))

/-- A turn of the entry at `idx`; entries that are added have nothing reported. -/
abbrev Turn (idx : ℕ) (w : World) (kept : Bool) (w' : World) : Prop :=
  Sweep.Turn (fun report : Fd × Readiness => report.2 = {}) idx w.reports kept w'.reports

/-- The pipes of the client whose entry this is are not polled at it or in front of it. -/
def PipesBehind (w : World) (idx : ℕ) : Prop :=
  ∀ client, w.getClient (w.entry idx).fd = some client →
    ∀ fd, client.cgiStdoutFd = some fd ∨ client.cgiStdinFd = some fd → fd ∉ w.fds.take (idx + 1)

variable (w : World)

@[simp] theorem length_reports : w.reports.length = w.pollFds.length := List.length_map _

theorem map_fst_reports : w.reports.map Prod.fst = w.fds := by
  simp [reports, Function.comp_def]

theorem reports_of_pollFds {w w' : World} (h : w'.pollFds = w.pollFds) : w'.reports = w.reports := by
  rw [reports, h, reports]

@[simp] theorem reports_mark (thrown : Bool) : (w.mark thrown).reports = w.reports := rfl
@[simp] theorem reports_log (e : Event) : (w.log e).reports = w.reports := rfl
@[simp] theorem reports_logAll (es : List Event) : (w.logAll es).reports = w.reports := rfl
@[simp] theorem reports_openFd (fd : Fd) : (w.openFd fd).reports = w.reports := rfl
@[simp] theorem reports_closeFd (fd : Fd) : (w.closeFd fd).reports = w.reports := rfl
@[simp] theorem reports_setClient (fd : Fd) (client : Client) : (w.setClient fd client).reports = w.reports := rfl
@[simp] theorem reports_eraseClient (fd : Fd) : (w.eraseClient fd).reports = w.reports := rfl
@[simp] theorem reports_eraseCgiFd (fd : Fd) : (w.eraseCgiFd fd).reports = w.reports := rfl
@[simp] theorem reports_eraseCgiStdinFd (fd : Fd) : (w.eraseCgiStdinFd fd).reports = w.reports := rfl
@[simp] theorem reports_insertCgiFd (fd c : Fd) : (w.insertCgiFd fd c).reports = w.reports := rfl
@[simp] theorem reports_insertCgiStdinFd (fd c : Fd) : (w.insertCgiStdinFd fd c).reports = w.reports := rfl

@[simp] theorem reports_closeCgiStdin (client : Client) : (w.closeCgiStdin client).1.reports = w.reports :=
  reports_of_pollFds (w.closeCgiStdin_frame client).2.2.1

@[simp] theorem reports_finishCgi (client : Client) (reaped : Bool) :
    (w.finishCgi client reaped).1.reports = w.reports := by
  apply reports_of_pollFds
  simp

@[simp] theorem revents_mask (p : PollFd) : p.enablePollin.revents = p.revents ∧
    p.disablePollin.revents = p.revents ∧ p.enablePollout.revents = p.revents ∧
    p.disablePollout.revents = p.revents ∧ p.onlyPollout.revents = p.revents :=
  ⟨rfl, rfl, rfl, rfl, rfl⟩

@[simp] theorem reports_modifyEntry (idx : ℕ) {f : PollFd → PollFd}
    (hf : ∀ p, (f p).fd = p.fd ∧ (f p).revents = p.revents) :
    (w.modifyEntry idx f).reports = w.reports := by
  apply map_modify
  intro p
  rw [(hf p).1, (hf p).2]

@[simp] theorem reports_modifyFd (fd : Fd) {f : PollFd → PollFd}
    (hf : ∀ p, (f p).fd = p.fd ∧ (f p).revents = p.revents) : (w.modifyFd fd f).reports = w.reports := by
  apply map_updateFirst
  intro p
  rw [(hf p).1, (hf p).2]

@[simp] theorem reports_pushPoll (fd : Fd) (events : Interest) :
    (w.pushPoll fd events).reports = w.reports ++ [(fd, ({} : Readiness))] := by
  simp [reports, pushPoll]

@[simp] theorem reports_eraseEntry (idx : ℕ) : (w.eraseEntry idx).reports = w.reports.eraseIdx idx := by
  simp [reports, eraseEntry, List.eraseIdx_map]

/-- Dropping an entry behind the cursor. -/
theorem erasePollFd_drops {w : World} {idx : ℕ} {fd : Fd} (hfd : fd ∉ w.fds.take (idx + 1)) :
    Drops idx w.reports (w.erasePollFd fd).reports := by
  have htake : eraseFirst PollFd.fd fd w.pollFds =
      w.pollFds.take (idx + 1) ++ eraseFirst PollFd.fd fd (w.pollFds.drop (idx + 1)) := by
    conv_lhs => rw [← List.take_append_drop (idx + 1) w.pollFds]
    apply List.eraseP_append_right
    intro p hp he
    apply hfd
    rw [← List.map_take]
    exact List.mem_map.mpr ⟨p, hp, by simpa using he⟩
  refine ⟨(eraseFirst PollFd.fd fd (w.pollFds.drop (idx + 1))).map (fun p => (p.fd, p.revents)), ?_, ?_⟩
  · rw [reports, ← List.map_drop]
    exact List.eraseP_sublist.map _
  · rw [reports, erasePollFd, htake, List.map_append, List.map_take, reports]

theorem dropBeside_drops {w : World} {idx : ℕ} {fd : Fd} (hfd : fd ∉ w.fds.take (idx + 1)) :
    (w.dropBeside fd idx).2 = idx ∧ Drops idx w.reports (w.dropBeside fd idx).1.reports := by
  unfold dropBeside
  split
  · next i hi =>
    have hle : ¬ i < idx := by
      intro hlt
      apply hfd
      obtain ⟨hlen, hget, -⟩ := List.findIdx?_eq_some_iff_getElem.mp hi
      rw [← List.map_take]
      refine List.mem_map.mpr ⟨w.pollFds[i], ?_, by simpa using hget⟩
      exact List.mem_take_iff_getElem.mpr ⟨i, by omega, rfl⟩
    exact ⟨if_neg hle, erasePollFd_drops hfd⟩
  · exact ⟨rfl, Drops.refl idx _⟩

theorem take_fds_of_drops {w w' : World} {idx : ℕ} (hi : idx < w.pollFds.length)
    (h : Drops idx w.reports w'.reports) : w'.fds.take (idx + 1) = w.fds.take (idx + 1) := by
  obtain ⟨rest, -, hrest⟩ := h
  have hlen : (w.reports.take (idx + 1)).length = idx + 1 := by
    rw [List.length_take, length_reports]
    omega
  rw [← map_fst_reports, ← map_fst_reports, hrest, ← List.map_take, List.take_left' hlen, List.map_take]

/-! ## Removal -/

/-- The output pipe of a client is no longer polled; the entry of the client may move. -/
def dropOutput (w : World) (client : Client) (index : ℕ) : World × ℕ :=
  match client.cgiStdoutFd with
  | some cgiOut => (w.eraseCgiFd cgiOut).dropBeside cgiOut index
  | none => (w, index)

def dropInput (w : World) (client : Client) (index : ℕ) : World × ℕ :=
  match client.cgiStdinFd with
  | some cgiIn => (w.eraseCgiStdinFd cgiIn).dropBeside cgiIn index
  | none => (w, index)

/-- What is done before the entry of a client is dropped, and where the entry is then. -/
def removeScript (w : World) (index : ℕ) (reaped : Bool) : World × ℕ :=
  match w.getClient (w.entry index).fd with
  | none => (w, index)
  | some client =>
    let (w', index') := w.dropOutput client index
    let (w', index') := w'.dropInput client index'
    let (w', client) := w'.finishCgi client reaped
    (w'.setClient (w.entry index).fd client, index')

theorem removeClient_eq (index : ℕ) (reaped : Bool) (reason : RemoveReason) :
    w.removeClient index reaped reason =
      ((((w.removeScript index reaped).1.closeFd (w.entry index).fd).eraseClient (w.entry index).fd).eraseEntry
        (w.removeScript index reaped).2).log (.removed (w.entry index).fd reason) := rfl

theorem dropOutput_drops {w : World} {client : Client} {idx : ℕ}
    (hb : ∀ fd, client.cgiStdoutFd = some fd → fd ∉ w.fds.take (idx + 1)) :
    (w.dropOutput client idx).2 = idx ∧ Drops idx w.reports (w.dropOutput client idx).1.reports := by
  unfold dropOutput
  split
  · next fd h => exact dropBeside_drops (w := w.eraseCgiFd fd) (hb fd h)
  · exact ⟨rfl, Drops.refl idx _⟩

theorem dropInput_drops {w : World} {client : Client} {idx : ℕ}
    (hb : ∀ fd, client.cgiStdinFd = some fd → fd ∉ w.fds.take (idx + 1)) :
    (w.dropInput client idx).2 = idx ∧ Drops idx w.reports (w.dropInput client idx).1.reports := by
  unfold dropInput
  split
  · next fd h => exact dropBeside_drops (w := w.eraseCgiStdinFd fd) (hb fd h)
  · exact ⟨rfl, Drops.refl idx _⟩

theorem removeScript_drops {w : World} {idx : ℕ} (reaped : Bool) (hi : idx < w.pollFds.length)
    (hb : w.PipesBehind idx) : (w.removeScript idx reaped).2 = idx ∧
      Drops idx w.reports (w.removeScript idx reaped).1.reports := by
  unfold removeScript
  split
  · exact ⟨rfl, Drops.refl idx _⟩
  · next client hg =>
    obtain ⟨hidx, hout⟩ := dropOutput_drops (fun fd h => hb client hg fd (Or.inl h))
    have htake := take_fds_of_drops hi hout
    have hbehind : ∀ fd, client.cgiStdinFd = some fd → fd ∉ (w.dropOutput client idx).1.fds.take (idx + 1) := by
      rw [htake]
      exact fun fd h => hb client hg fd (Or.inr h)
    obtain ⟨hidx', hin⟩ := dropInput_drops hbehind
    dsimp only
    rw [hidx]
    refine ⟨hidx', ?_⟩
    rw [reports_setClient, reports_finishCgi]
    exact hout.trans (by rwa [length_reports]) hin

theorem removeClient_turn {w : World} {idx : ℕ} (reaped : Bool) (reason : RemoveReason)
    (hi : idx < w.pollFds.length) (hb : w.PipesBehind idx) :
    Turn idx w false (w.removeClient idx reaped reason) := by
  obtain ⟨hidx, hd⟩ := removeScript_drops reaped hi hb
  rw [removeClient_eq, Turn, reports_log, reports_eraseEntry, hidx]
  exact hd.dropOwn (by rwa [length_reports])

theorem eraseEntry_turn {w v : World} {idx : ℕ} (hi : idx < w.pollFds.length) (hv : v.reports = w.reports) :
    Turn idx w false (v.eraseEntry idx) := by
  rw [Turn, reports_eraseEntry, hv]
  apply (Drops.refl idx _).dropOwn
  rwa [length_reports]

theorem turn_of_reports {w v : World} {idx : ℕ} (hv : v.reports = w.reports) : Turn idx w true v := by
  rw [Turn, hv]
  exact Sweep.Turn.refl idx _

theorem stdinHangup_turn {w : World} {idx : ℕ} (fd : Fd) (hi : idx < w.pollFds.length) :
    Turn idx w false (w.stdinHangup idx fd) := by
  unfold stdinHangup
  apply eraseEntry_turn hi
  split
  · rfl
  · split
    · rfl
    · rw [reports_setClient, reports_closeCgiStdin]
      rfl

theorem handlePollErrors_turn {w : World} {idx : ℕ} (a : Answers) (hi : idx < w.pollFds.length)
    (hb : w.PipesBehind idx) :
    if (w.handlePollErrors a idx).1 then Turn idx w false (w.handlePollErrors a idx).2
    else (w.handlePollErrors a idx).2 = w := by
  unfold handlePollErrors
  dsimp only
  split
  · split
    · exact rfl
    · split
      · exact rfl
      · split
        · exact stdinHangup_turn _ hi
        · exact removeClient_turn _ _ hi hb
  · exact rfl

/-! ## Pipes -/

/-- A turn that tells the position the pass goes on at. -/
def Goes (idx : ℕ) (w : World) (res : ℕ × World) : Prop :=
  ∃ kept, Turn idx w kept res.2 ∧ res.1 = if kept then idx + 1 else idx

theorem Goes.congr {w v : World} {idx : ℕ} {res : ℕ × World} (hv : v.reports = w.reports) (h : Goes idx v res) :
    Goes idx w res := by
  obtain ⟨kept, hturn, hres⟩ := h
  rw [Turn, hv] at hturn
  exact ⟨kept, hturn, hres⟩

theorem goes_on {w v : World} {idx : ℕ} (hv : v.reports = w.reports) : Goes idx w (idx + 1, v) :=
  ⟨true, turn_of_reports hv, rfl⟩

theorem goes_erased {w v : World} {idx : ℕ} (hi : idx < w.pollFds.length) (hv : v.reports = w.reports) :
    Goes idx w (idx, v.eraseEntry idx) := ⟨false, eraseEntry_turn hi hv, rfl⟩

@[simp] theorem reports_respond (c : Fd) (client : Client) (response : Option HTTPResponse) :
    (w.respond c client response).reports = w.reports := rfl

@[simp] theorem reports_enableOutput (idx : ℕ) (fd : Fd) : (w.enableOutput idx fd).reports = w.reports := by
  unfold enableOutput
  split
  · simp
  · simp

@[simp] theorem reports_finalizeCgi (a : Answers) (c : Fd) (client : Client) (idx : ℕ) :
    (w.finalizeCgi a c client idx).reports = w.reports := by
  unfold finalizeCgi
  dsimp only
  split
  · simp
  · simp

@[simp] theorem reports_cgiOutputRead (c : Fd) (client : Client) (bytes : Bytes) :
    (w.cgiOutputRead c client bytes).1.reports = w.reports := by
  unfold cgiOutputRead
  dsimp only
  split
  · simp
  · split
    · simp
    · simp

theorem cgiOutputEnd_goes {w : World} {idx : ℕ} (a : Answers) (cgiFd c : Fd) (client : Client)
    (hi : idx < w.pollFds.length) : Goes idx w (idx, w.cgiOutputEnd a idx cgiFd c client) := by
  refine ⟨false, ?_, rfl⟩
  have h : Turn idx w false (((w.eraseCgiFd cgiFd).closeFd cgiFd).eraseEntry idx) := eraseEntry_turn hi rfl
  rw [Turn] at h ⊢
  unfold cgiOutputEnd
  dsimp only
  rwa [reports_finalizeCgi]

theorem cgiOutputLoop_goes {idx : ℕ} (a : Answers) (cgiFd c : Fd) (answers : List ReadAnswer) (total : ℕ)
    (w : World) (client : Client) (hi : idx < w.pollFds.length) :
    Goes idx w (cgiOutputLoop a idx cgiFd c answers total w client) := by
  induction answers generalizing total w client with
  | nil => exact goes_on rfl
  | cons answer answers ih =>
    unfold cgiOutputLoop
    split
    · split
      · next bytes hread =>
        have hsame := w.reports_cgiOutputRead c client bytes
        dsimp only
        split
        · apply goes_on
          simp [hsame]
        · refine Goes.congr hsame (ih _ _ _ ?_)
          rwa [← length_reports, hsame, length_reports]
      · exact goes_on rfl
      · exact cgiOutputEnd_goes a cgiFd c client hi
      · exact cgiOutputEnd_goes a cgiFd c client hi
    · exact goes_on rfl

theorem handleCgiOutput_goes {w : World} {idx : ℕ} (a : Answers) (hi : idx < w.pollFds.length) :
    Goes idx w (w.handleCgiOutput a idx) := by
  unfold handleCgiOutput
  dsimp only
  split
  · exact goes_erased hi rfl
  · split
    · exact goes_erased hi rfl
    · exact cgiOutputLoop_goes a _ _ _ _ w _ hi

theorem handleCgiStdinWritable_goes {w : World} {idx : ℕ} (a : Answers) (hi : idx < w.pollFds.length) :
    Goes idx w (w.handleCgiStdinWritable a idx) := by
  unfold handleCgiStdinWritable
  dsimp only
  split
  · exact goes_erased hi rfl
  · split
    · exact goes_erased hi rfl
    · split
      · apply goes_erased hi
        rw [reports_setClient, reports_closeCgiStdin]
        rfl
      · apply goes_on
        split <;> split <;> simp

/-! ## Clients -/

/-- Entries were appended, with nothing reported. -/
abbrev Grown (w w' : World) : Prop :=
  Grows (fun report : Fd × Readiness => report.2 = {}) w.reports w'.reports

theorem grown_of_reports {w v : World} (hv : v.reports = w.reports) : Grown w v := by
  rw [Grown, hv]
  exact Grows.refl _

theorem grown_pushPoll (fd : Fd) (events : Interest) : Grown w (w.pushPoll fd events) := by
  rw [Grown, reports_pushPoll]
  apply Grows.single
  exact rfl

theorem Grown.congr {w v u : World} (hv : v.reports = w.reports) (h : Grown v u) : Grown w u := by
  rw [Grown, hv] at h
  exact h

theorem Grown.lt_length {w v : World} {idx : ℕ} (h : Grown w v) (hi : idx < w.pollFds.length) :
    idx < v.pollFds.length := by
  rw [← length_reports] at hi ⊢
  exact (Sweep.Turn.grows h).lt_length hi

theorem Grown.take_fds {w v : World} {idx : ℕ} (h : Grown w v) (hi : idx < w.pollFds.length) :
    v.fds.take (idx + 1) = w.fds.take (idx + 1) := by
  obtain ⟨added, -, hadded⟩ := h
  rw [← map_fst_reports, ← map_fst_reports, hadded, List.map_append, List.take_append_of_le_length]
  rw [List.length_map, length_reports]
  omega

theorem acceptLoop_grown (serverIndex now : ℕ) (fds : List Fd) (w : World) :
    Grown w (acceptLoop serverIndex now fds w) := by
  induction fds generalizing w with
  | nil => exact Grows.refl _
  | cons fd fds ih =>
    unfold acceptLoop
    split
    · exact Grows.refl _
    · have hone : Grown w (w.acceptFd serverIndex now fd) := by
        unfold acceptFd
        dsimp only
        refine Grown.congr ?_ (grown_pushPoll _ _ _)
        split <;> rfl
      exact hone.trans (ih _)

@[simp] theorem reports_closeInput (client : Client) (bodyComplete : Bool) :
    (w.closeInput client bodyComplete).1.reports = w.reports := by
  unfold closeInput
  split
  · split <;> simp
  · simp

theorem registerPipes_grown (client : Client) (stdoutFd : Fd) (bodyComplete : Bool) :
    Grown w (w.registerPipes client stdoutFd bodyComplete) := by
  unfold registerPipes
  dsimp only
  have hout : Grown w ((w.insertCgiFd stdoutFd client.fd).pushPoll stdoutFd { pollin := true }) :=
    (grown_pushPoll _ _ _).congr rfl
  split
  · split
    · exact hout.trans ((grown_pushPoll _ _ _).congr rfl)
    · exact hout
  · exact hout

theorem startCgiRun_grown (a : Answers) (c : Fd) (client : Client) (pid stdinFd stdoutFd : ℕ) :
    Grown w (w.startCgiRun a c client pid stdinFd stdoutFd) := by
  unfold startCgiRun
  dsimp only
  refine (registerPipes_grown _ _ _ _).congr ?_
  rw [reports_setClient, reports_closeInput, reports_log, reports_log]

theorem requestBytes_grown (a : Answers) (c : Fd) (client : Client) (idx : ℕ) (bytes : Bytes) :
    Grown w (w.requestBytes a c client idx bytes) := by
  rcases w.requestBytes_cases a c client idx bytes with
    he | ⟨v, new, outcome, response, g, -, hv, hg, he⟩ | ⟨-, v, pid, stdinFd, stdoutFd, hv, he⟩
  · rw [he]
    exact grown_of_reports rfl
  · have hmask : ∀ p, (g p).fd = p.fd ∧ (g p).revents = p.revents := by
      rcases hg with rfl | rfl <;> exact fun p => ⟨rfl, rfl⟩
    rw [he]
    apply grown_of_reports
    rw [reports_modifyEntry _ idx hmask, respond, reports_setClient, reports_log, reports_mark,
      reports_of_pollFds hv.pollFds, reports_log]
  · rw [he]
    exact (startCgiRun_grown _ _ _ _ _ _ _).congr (reports_of_pollFds hv.pollFds)

/-! ## Bodies for scripts -/

theorem monitorStdin_grown (stdinFd clientFd : Fd) : Grown w (w.monitorStdin stdinFd clientFd) := by
  unfold monitorStdin
  split
  · apply grown_of_reports
    simp
  · exact (grown_pushPoll _ _ _).congr rfl

/-- A piece was handed over: when the entries changed, something is pending for the script. -/
structure Handed (w : World) (client : Client) (w' : World) (client' : Client) : Prop where
  grown : Grown w w'
  same : w'.reports = w.reports ∨ client'.cgiStdinPending.isEmpty = false
  pending : client.cgiStdinPending.isEmpty = false → client'.cgiStdinPending.isEmpty = false
  input : client'.cgiStdinFd = client.cgiStdinFd

theorem forwardPiece_handed (c : Fd) (client : Client) (stdinFd : Fd) (piece : Bytes) (answer : ℕ) :
    Handed w client (w.forwardPiece c client stdinFd piece answer).1
      (w.forwardPiece c client stdinFd piece answer).2 := by
  unfold forwardPiece
  dsimp only
  split
  · next hlt =>
    have hpending : (client.appendCgiStdinPending
        (piece.drop (w.write stdinFd piece.length answer))).cgiStdinPending.isEmpty = false := by
      simp only [Client.appendCgiStdinPending, OffsetBuffer.isEmpty_eq_false_iff, OffsetBuffer.pending_append]
      simpa using fun _ => hlt
    exact ⟨(monitorStdin_grown _ _ _).congr rfl, Or.inr hpending, fun _ => hpending, rfl⟩
  · exact ⟨grown_of_reports rfl, Or.inl rfl, id, rfl⟩

/-- The input pipe of the client is not polled up to the cursor. -/
def InputBehind (w : World) (idx : ℕ) (client : Client) : Prop :=
  ∀ fd, client.cgiStdinFd = some fd → fd ∉ w.fds.take (idx + 1)

/-- What bytes for a script may do to the entries: drop the pipe when nothing is pending. -/
def Fed (idx : ℕ) (w : World) (client : Client) (w' : World) : Prop :=
  Grown w w' ∨ client.cgiStdinPending.isEmpty = true ∧ Drops idx w.reports w'.reports

theorem inputComplete_fed {w : World} {idx : ℕ} (c : Fd) {client : Client} {stdinFd : Fd}
    (hfd : stdinFd ∉ w.fds.take (idx + 1)) : Fed idx w client (w.inputComplete c client stdinFd) := by
  unfold inputComplete
  split
  · next hempty =>
    refine Or.inr ⟨hempty, ?_⟩
    have hsame : (((w.closeCgiStdin client).1.setClient c (w.closeCgiStdin client).2).eraseCgiStdinFd
        stdinFd).reports = w.reports := by simp
    have hfd' : stdinFd ∉ ((((w.closeCgiStdin client).1.setClient c (w.closeCgiStdin client).2).eraseCgiStdinFd
        stdinFd).fds).take (idx + 1) := by
      rwa [← map_fst_reports, hsame, map_fst_reports]
    have hdrop := erasePollFd_drops hfd'
    rwa [hsame] at hdrop
  · exact Or.inl (grown_of_reports rfl)

theorem reports_endInput (c : Fd) (client : Client) : (w.endInput c client).reports = w.reports := by
  unfold endInput
  dsimp only
  split
  · simp
  · simp

theorem Handed.fed {w w' w'' : World} {idx : ℕ} {client client' : Client} (h : Handed w client w' client')
    (hf : Fed idx w' client' w'') : Fed idx w client w'' := by
  rcases hf with hg | ⟨hempty, hd⟩
  · exact Or.inl (h.grown.trans hg)
  · have hsame : w'.reports = w.reports := by
      rcases h.same with hs | hp
      · exact hs
      · rw [hempty] at hp
        cases hp
    rw [hsame] at hd
    refine Or.inr ⟨?_, hd⟩
    by_contra hp
    have hp' := h.pending (by simpa using hp)
    rw [hempty] at hp'
    cases hp'

theorem Handed.setClient {w w' : World} {client client' : Client} (h : Handed w client w' client') (c : Fd) :
    Handed w client (w'.setClient c client') client' := ⟨h.grown, h.same, h.pending, h.input⟩

/-- A piece handed over by a client that differs in what does not matter here. -/
theorem forwardPiece_fed {w v : World} {idx : ℕ} (c : Fd) {client u : Client} {stdinFd : Fd} (piece : Bytes)
    (answer : ℕ) (hi : idx < w.pollFds.length) (hb : InputBehind w idx client)
    (hfd : client.cgiStdinFd = some stdinFd) (hv : v.reports = w.reports)
    (hin : u.cgiStdinFd = client.cgiStdinFd) (hpend : u.cgiStdinPending = client.cgiStdinPending) :
    Handed w client (v.forwardPiece c u stdinFd piece answer).1
        (v.forwardPiece c u stdinFd piece answer).2 ∧
      Fed idx w client ((v.forwardPiece c u stdinFd piece answer).1.inputComplete c
        (v.forwardPiece c u stdinFd piece answer).2 stdinFd) := by
  have hp := forwardPiece_handed v c u stdinFd piece answer
  have hh : Handed w client (v.forwardPiece c u stdinFd piece answer).1
      (v.forwardPiece c u stdinFd piece answer).2 := by
    refine ⟨hp.grown.congr hv, ?_, ?_, hp.input.trans hin⟩
    · rw [← hv]
      exact hp.same
    · rw [← hpend]
      exact hp.pending
  refine ⟨hh, hh.fed (inputComplete_fed c ?_)⟩
  rw [hh.grown.take_fds hi]
  exact hb stdinFd hfd

theorem forwardBody_fed {w : World} {idx : ℕ} (now : ℕ) (c : Fd) {client : Client} (bytes : Bytes) (answer : ℕ)
    (hi : idx < w.pollFds.length) (hb : InputBehind w idx client) :
    ((w.forwardBody now c client bytes answer).2 = none →
      Fed idx w client (w.forwardBody now c client bytes answer).1) ∧
    ∀ client' ∈ (w.forwardBody now c client bytes answer).2,
      Handed w client (w.forwardBody now c client bytes answer).1 client' := by
  unfold forwardBody
  dsimp only
  split
  · exact ⟨fun _ => Or.inl (grown_of_reports rfl), by simp⟩
  next stdinFd hin =>
  split
  · have hpiece := forwardPiece_fed (v := w.log (.bodyRead c bytes)) c
      (u := { client with
        lastActivity := now, cgiChunk := (Client.decodeChunkedForCgi client.cgiChunk bytes).decoder })
      (Client.decodeChunkedForCgi client.cgiChunk bytes).decoded answer hi hb hin rfl rfl rfl
    split
    · split
      · exact ⟨fun _ => hpiece.2, by simp⟩
      · refine ⟨nofun, ?_⟩
        rintro client' ⟨⟩
        exact hpiece.1.setClient c
    · exact ⟨fun _ => Or.inl (grown_of_reports (reports_endInput _ _ _)), by simp⟩
  · have hpiece := forwardPiece_fed (v := w.log (.bodyRead c bytes)) c
      (u := { client with
        lastActivity := now, cgiBodyBytesForwarded := client.cgiBodyBytesForwarded + bytes.length })
      bytes answer hi hb hin rfl rfl rfl
    split
    · exact ⟨fun _ => hpiece.2, by simp⟩
    · refine ⟨nofun, ?_⟩
      rintro client' ⟨⟩
      exact hpiece.1.setClient c

theorem bodyLoop_fed {idx : ℕ} (a : Answers) (c : Fd) (answers : List ReadAnswer) (writes : List ℕ) (total : ℕ)
    {w : World} {client : Client} (hi : idx < w.pollFds.length) (hb : InputBehind w idx client) :
    Fed idx w client (bodyLoop a idx c answers writes total w client) := by
  induction answers generalizing w client writes total with
  | nil => exact Or.inl (Grows.refl _)
  | cons answer answers ih =>
    unfold bodyLoop
    split
    · split
      · apply Or.inl
        apply grown_of_reports
        simp
      · split
        · exact Or.inl (grown_of_reports (reports_endInput _ _ _))
        · exact Or.inl (grown_of_reports (reports_endInput _ _ _))
        · exact Or.inl (Grows.refl _)
        · next bytes _ =>
          obtain ⟨hnone, hsome⟩ := forwardBody_fed a.now c bytes (writes.head?.getD 0) hi hb
          split
          · next w' hw =>
            rw [hw] at hnone
            exact hnone rfl
          · next w' client' hw =>
            rw [hw] at hsome
            have hh := hsome client' rfl
            refine hh.fed (ih _ _ (hh.grown.lt_length hi) ?_)
            intro fd hfd
            rw [hh.grown.take_fds hi]
            exact hb fd (hh.input ▸ hfd)
    · exact Or.inl (Grows.refl _)

theorem Fed.turn {w w' : World} {idx : ℕ} {client : Client} (h : Fed idx w client w') : Turn idx w true w' := by
  rcases h with hg | ⟨-, hd⟩
  · exact Sweep.Turn.grows hg
  · exact Sweep.Turn.drops hd

/-- A read that drops the connection, or finds no client, does not keep to its entry. -/
def ReadKeeps (w : World) (a : Answers) (idx : ℕ) : Prop :=
  ∃ client, w.getClient (w.entry idx).fd = some client ∧ (client.cgiActive = true ∨
    (w.read client.fd (a.reads.head?.getD .again) ≠ .eof ∧ w.read client.fd (a.reads.head?.getD .again) ≠ .error))

theorem handleClientRead_turn {w : World} {idx : ℕ} (a : Answers) (hi : idx < w.pollFds.length)
    (hb : w.PipesBehind idx) (hk : w.ReadKeeps a idx) :
    (w.handleClientRead a idx).1 = idx ∧ Turn idx w true (w.handleClientRead a idx).2 := by
  obtain ⟨client, hg, hk⟩ := hk
  unfold handleClientRead
  simp only [hg]
  split
  · exact ⟨rfl, (bodyLoop_fed a _ _ _ 0 hi (fun fd h => hb client hg fd (Or.inr h))).turn⟩
  · next ha =>
    have hk := hk.resolve_left ha
    dsimp only [Client.updateActivity]
    split
    · next he => exact absurd he hk.1
    · next he => exact absurd he hk.2
    · exact ⟨rfl, turn_of_reports rfl⟩
    · exact ⟨rfl, Sweep.Turn.grows (requestBytes_grown _ _ _ _ _ _)⟩

/-! ## Sending -/

@[simp] theorem reports_resumeCgiOutput (client : Client) : (w.resumeCgiOutput client).reports = w.reports := by
  unfold resumeCgiOutput
  split
  · split <;> simp
  · rfl

theorem fds_getElem? {w : World} {idx : ℕ} (hi : idx < w.pollFds.length) :
    w.fds[idx]? = some (w.entry idx).fd := by
  obtain ⟨p, hp⟩ : ∃ p, w.pollFds[idx]? = some p := ⟨_, List.getElem?_eq_getElem hi⟩
  rw [fds_of_entry hp, entry_eq hp]

/-- An entry whose client changes in other ways keeps its number and its pipes behind it. -/
theorem PipesBehind.of_client {w v : World} {idx : ℕ} {fd : Fd} {client client' : Client} (hb : w.PipesBehind idx)
    (hi : idx < w.pollFds.length) (hfd : (w.entry idx).fd = fd) (hfds : v.fds = w.fds)
    (hg : w.getClient fd = some client) (hg' : v.getClient fd = some client')
    (ho : client'.cgiStdoutFd = client.cgiStdoutFd) (hin : client'.cgiStdinFd = client.cgiStdinFd) :
    (v.entry idx).fd = fd ∧ v.PipesBehind idx := by
  have hfd' : (v.entry idx).fd = fd := by
    apply entry_fd
    rw [hfds, fds_getElem? hi, hfd]
  refine ⟨hfd', ?_⟩
  intro d hd
  rw [hfd', hg'] at hd
  cases hd
  rw [ho, hin, hfds]
  exact hb client (hfd ▸ hg)

theorem PipesBehind.sent {w : World} {idx : ℕ} {fd : Fd} {client u : Client} (hb : w.PipesBehind idx)
    (hi : idx < w.pollFds.length) (hfd : (w.entry idx).fd = fd) (hg : w.getClient fd = some client)
    (ho : u.cgiStdoutFd = client.cgiStdoutFd) (hin : u.cgiStdinFd = client.cgiStdinFd) (e : Event) :
    (((w.log e).setClient fd u).entry idx).fd = fd ∧ ((w.log e).setClient fd u).PipesBehind idx :=
  hb.of_client hi hfd (by simp) hg (getClient_setClient_self _ _ _) ho hin

/-- The last bytes were sent, and the entry of the client is dropped. -/
theorem complete_turn {w : World} {idx : ℕ} {fd : Fd} {client u : Client} (reaped : Bool)
    (hb : w.PipesBehind idx) (hi : idx < w.pollFds.length) (hfd : (w.entry idx).fd = fd)
    (hg : w.getClient fd = some client) (ho : u.cgiStdoutFd = client.cgiStdoutFd)
    (hin : u.cgiStdinFd = client.cgiStdinFd) :
    Turn idx w false (((w.setClient fd u).modifyEntry idx PollFd.disablePollout).removeClient idx reaped
      .complete) := by
  obtain ⟨-, hb'⟩ := hb.of_client (v := (w.setClient fd u).modifyEntry idx PollFd.disablePollout) hi hfd
    (by simp) hg (by simp : _ = some u) ho hin
  have hturn := removeClient_turn reaped .complete (by simpa [modifyEntry, setClient] using hi) hb'
  rw [Turn, reports_modifyEntry _ _ (by simp), reports_setClient] at hturn
  exact hturn

/-- Bytes of the queue were sent: the entry stays where it is. -/
theorem sendPending_behind {w : World} {idx : ℕ} (now : ℕ) {fd : Fd} {client : Client} (sent : ℕ)
    (h : sent ≤ client.cgiSendPending.size) (hfd : (w.entry idx).fd = fd) (hi : idx < w.pollFds.length)
    (hg : w.getClient fd = some client) (hb : w.PipesBehind idx) :
    idx < (w.sendPending now fd client sent h).1.pollFds.length ∧
      ((w.sendPending now fd client sent h).1.entry idx).fd = fd ∧
      (w.sendPending now fd client sent h).1.getClient fd = some (w.sendPending now fd client sent h).2 ∧
      (w.sendPending now fd client sent h).1.PipesBehind idx := by
  have hsame : (w.sendPending now fd client sent h).1.reports = w.reports := reports_resumeCgiOutput _ _
  have hfds : (w.sendPending now fd client sent h).1.fds = w.fds := fds_resumeCgiOutput _
  have hg' : (w.sendPending now fd client sent h).1.getClient fd = some (w.sendPending now fd client sent h).2 := by
    simp [sendPending]
  obtain ⟨hfd', hb'⟩ := hb.of_client hi hfd hfds hg hg' rfl rfl
  exact ⟨by rwa [← length_reports, hsame, length_reports], hfd', hg', hb'⟩

theorem sendLoop_turn {idx : ℕ} (a : Answers) {fd : Fd} (answers : List SendAnswer) (total : ℕ) {w : World}
    {client : Client} (hfd : (w.entry idx).fd = fd) (hi : idx < w.pollFds.length)
    (hg : w.getClient fd = some client) (hb : w.PipesBehind idx) :
    Turn idx w (!(sendLoop a idx fd answers total w client).1) (sendLoop a idx fd answers total w client).2 := by
  induction answers generalizing w client total with
  | nil => exact Sweep.Turn.refl idx _
  | cons answer answers ih =>
    unfold sendLoop
    split
    · split
      · split
        · apply turn_of_reports
          simp
        · exact complete_turn a.reaped hb hi hfd hg rfl rfl
      · split
        · exact Sweep.Turn.refl idx _
        · exact removeClient_turn _ _ hi hb
        · next n _ =>
          dsimp only
          split
          · obtain ⟨hlen, hfd', hg', hb'⟩ := sendPending_behind a.now (min n client.cgiSendPending.size)
              (Nat.min_le_right _ _) hfd hi hg hb
            have hrec := ih (total + min n client.cgiSendPending.size) hfd' hlen hg' hb'
            rw [Turn, show (w.sendPending a.now fd client (min n client.cgiSendPending.size)
              (Nat.min_le_right _ _)).1.reports = w.reports from reports_resumeCgiOutput _ _] at hrec
            exact hrec
          · exact ih total hfd hi hg hb
    · exact Sweep.Turn.refl idx _

theorem sendResponse_turn {w : World} {idx : ℕ} (a : Answers) {fd : Fd} {client : Client}
    (hfd : (w.entry idx).fd = fd) (hi : idx < w.pollFds.length) (hg : w.getClient fd = some client)
    (hb : w.PipesBehind idx) :
    Turn idx w (!(w.sendResponse a idx fd client).1) (w.sendResponse a idx fd client).2 := by
  unfold sendResponse
  dsimp only
  split
  · exact removeClient_turn _ _ hi hb
  · exact removeClient_turn _ _ hi hb
  · next n _ =>
    split
    · obtain ⟨hfd', hb'⟩ := hb.sent (u := (client.advanceResponseOffset
          (min n (client.response.length - client.responseOffset))).updateActivity a.now) hi hfd hg rfl rfl
        (.sent fd false ((client.response.drop client.responseOffset).take
          (min n (client.response.length - client.responseOffset))))
      have hlast := complete_turn a.reaped hb' hi hfd' (getClient_setClient_self _ _ _)
        (u := ((client.advanceResponseOffset
          (min n (client.response.length - client.responseOffset))).updateActivity a.now).clearResponse) rfl rfl
      rw [Turn, reports_setClient, reports_log] at hlast
      exact hlast
    · exact turn_of_reports rfl

/-! ## Handlers -/

/-- A handler that tells whether the pass goes on at once, and where. -/
def Tells (idx : ℕ) (w : World) (res : Bool × ℕ × World) : Prop :=
  (res.1 = true → Goes idx w res.2) ∧ (res.1 = false → res.2.1 = idx ∧ Turn idx w true res.2.2)

theorem handlePollOutput_tells {w : World} {idx : ℕ} (a : Answers) (hi : idx < w.pollFds.length)
    (hb : w.PipesBehind idx) : Tells idx w (w.handlePollOutput a idx) := by
  have hsame : Tells idx w (false, idx, w) := ⟨nofun, fun _ => ⟨rfl, Sweep.Turn.refl idx _⟩⟩
  have hsent : ∀ removed v, Turn idx w (!removed) v → Tells idx w (removed, idx, v) := by
    intro removed v h
    cases removed with
    | false => exact ⟨nofun, fun _ => ⟨rfl, h⟩⟩
    | true => exact ⟨fun _ => ⟨false, h, rfl⟩, nofun⟩
  unfold handlePollOutput
  dsimp only
  split
  · split
    · exact ⟨fun _ => handleCgiStdinWritable_goes a hi, nofun⟩
    · split
      · exact hsame
      · next client hg =>
        split
        · exact hsent _ _ (sendLoop_turn a _ 0 rfl hi hg hb)
        · split
          · exact hsame
          · exact hsent _ _ (sendResponse_turn a rfl hi hg hb)
  · exact hsame

/-- The entry is one that `handle_client_read` is called for. -/
def readsClient (w : World) (idx : ℕ) : Bool :=
  (w.entry idx).revents.pollin && !w.isListeningSocket (w.entry idx).fd && !w.isCgiStdinFd (w.entry idx).fd &&
    !w.isCgiFd (w.entry idx).fd

theorem handlePollInput_tells {w : World} {idx : ℕ} (a : Answers) (hi : idx < w.pollFds.length)
    (hb : w.PipesBehind idx) (hk : w.readsClient idx = true → w.ReadKeeps a idx) :
    Tells idx w (w.handlePollInput a idx) := by
  have hsame : Tells idx w (false, idx, w) := ⟨nofun, fun _ => ⟨rfl, Sweep.Turn.refl idx _⟩⟩
  unfold handlePollInput
  dsimp only
  split
  · next hin =>
    split
    · exact ⟨nofun, fun _ => ⟨rfl, Sweep.Turn.grows (acceptLoop_grown _ _ _ _)⟩⟩
    · next hl =>
      split
      · exact ⟨fun _ => goes_on rfl, nofun⟩
      · next hs =>
        split
        · exact ⟨fun _ => handleCgiOutput_goes a hi, nofun⟩
        · next ho =>
          have hread : w.readsClient idx = true := by simp [readsClient, hin, hl, hs, ho]
          exact ⟨nofun, fun _ => handleClientRead_turn a hi hb (hk hread)⟩
  · split
    · exact ⟨fun _ => handleCgiOutput_goes a hi, nofun⟩
    · exact hsame

end World
end WebServ
