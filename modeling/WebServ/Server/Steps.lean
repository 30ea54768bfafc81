import WebServ.Server.Moves

/-! # Steps of the loop as moves

One step of the loop is a run of moves, so what every move keeps holds in all
reachable states.
-/
namespace WebServ
open World

namespace World
variable {files : FileSystem} (w : World)

/-! ## The client that is written back -/

section
variable (c : Fd) (client client' : Client)

theorem closeCgiStdin_setClient :
    ((w.setClient c client').closeCgiStdin client).1 = (w.closeCgiStdin client).1.setClient c client' := by
  unfold closeCgiStdin
  split <;> rfl

theorem endInput_setClient : (w.setClient c client').endInput c client = w.endInput c client := by
  simp only [endInput, setClient_log, closeCgiStdin_setClient, setClient_setClient, closeCgiStdin_client]

theorem inputComplete_setClient (stdinFd : Fd) :
    (w.setClient c client').inputComplete c client stdinFd = w.inputComplete c client stdinFd := by
  simp only [inputComplete, closeCgiStdin_setClient, setClient_setClient, closeCgiStdin_client]

theorem monitorStdin_setClient (stdinFd clientFd : Fd) :
    (w.setClient c client').monitorStdin stdinFd clientFd =
      (w.monitorStdin stdinFd clientFd).setClient c client' := by
  have h : (w.setClient c client').isCgiStdinFd stdinFd = w.isCgiStdinFd stdinFd := rfl
  unfold monitorStdin
  rw [h]
  split <;> rfl

theorem forwardPiece_setClient (stdinFd : Fd) (piece : Bytes) (answer : ℕ) :
    (w.setClient c client').forwardPiece c client stdinFd piece answer =
      ((w.forwardPiece c client stdinFd piece answer).1.setClient c client',
        (w.forwardPiece c client stdinFd piece answer).2) := by
  have h : (w.setClient c client').write stdinFd piece.length answer = w.write stdinFd piece.length answer := rfl
  simp only [forwardPiece, h, setClient_log, monitorStdin_setClient]
  split <;> rfl

end

/-! ## Entries that stay -/

theorem fds_monitorStdin (stdinFd clientFd : Fd) : w.fds <+: (w.monitorStdin stdinFd clientFd).fds := by
  unfold monitorStdin
  split <;> simp

theorem fds_forwardPiece (c : Fd) (client : Client) (stdinFd : Fd) (piece : Bytes) (answer : ℕ) :
    w.fds <+: (w.forwardPiece c client stdinFd piece answer).1.fds := by
  unfold forwardPiece
  dsimp only
  split
  · exact fds_monitorStdin (w.log _) stdinFd client.fd
  · exact List.prefix_refl _

theorem fds_cgiOutputRead (c : Fd) (client : Client) (bytes : Bytes) :
    (w.cgiOutputRead c client bytes).1.fds = w.fds := by
  unfold cgiOutputRead
  dsimp only
  split
  · simp
  · split <;> simp

theorem getElem?_of_isPrefix {α : Type*} {l l' : List α} (h : l <+: l') {i : ℕ} {a : α} (ha : l[i]? = some a) :
    l'[i]? = some a := by
  obtain ⟨t, rfl⟩ := h
  rw [List.getElem?_append_left (List.getElem?_eq_some_iff.mp ha).1, ha]

/-! ## Loops -/

theorem acceptLoop_moves (x : Option Fd) (serverIndex now : ℕ) (fds : List Fd) :
    Moves files (x, w) (x, acceptLoop serverIndex now fds w) := by
  induction fds generalizing w with
  | nil => exact .refl
  | cons fd fds ih =>
    unfold acceptLoop
    split
    · exact .refl
    · next h => exact .head (.accepted serverIndex now h) (ih _)

variable {w}

theorem cgiOutputLoop_moves (x : Option Fd) (a : Answers) {idx : ℕ} {cgiFd c : Fd}
    (answers : List ReadAnswer) (total : ℕ) {client : Client} (hidx : w.fds[idx]? = some cgiFd)
    (hc : w.cgiFdToClientFd[cgiFd]? = some c) (hg : w.getClient c = some client) (ha : client.cgiActive = true)
    (hn : (cgiOutputLoop a idx cgiFd c answers total w client).2.aborted = false) :
    Moves a.files (x, w) (x, (cgiOutputLoop a idx cgiFd c answers total w client).2) := by
  induction answers generalizing w client total with
  | nil => exact .refl
  | cons answer answers ih =>
    obtain ⟨p, hp, rfl⟩ : ∃ p, w.pollFds[idx]? = some p ∧ p.fd = cgiFd := by simpa using hidx
    revert hn
    unfold cgiOutputLoop
    split
    · split
      · next bytes _ =>
        obtain ⟨es, -, hch⟩ := cgiOutputRead_changed w a.files c bytes ha
        have hidx' : (w.cgiOutputRead c client bytes).1.fds[idx]? = some p.fd := by rw [fds_cgiOutputRead, hidx]
        have hg' : (w.cgiOutputRead c client bytes).1.getClient c = some (w.cgiOutputRead c client bytes).2 := by
          rw [hch.client, if_pos rfl]
        have hc' : (w.cgiOutputRead c client bytes).1.cgiFdToClientFd[p.fd]? = some c := by simpa using hc
        have hread : Move a.files (x, w) (x, (w.cgiOutputRead c client bytes).1) := .cgiRead bytes hc hg
        dsimp only
        split
        · next hs =>
          obtain ⟨q, hq, hfd⟩ : ∃ q, (w.cgiOutputRead c client bytes).1.pollFds[idx]? = some q ∧ q.fd = p.fd := by
            simpa using hidx'
          exact fun _ => .head hread (.single (.cgiPaused hq (hfd ▸ hc') hg' hs))
        · exact fun hn => .head hread (ih _ hidx' hc' hg' ((cgiOutputRead_client w c client bytes).2.trans ha) hn)
      · exact fun _ => .refl
      · exact fun hn => .single (.cgiEnded a hp hc hg rfl hn)
      · exact fun hn => .single (.cgiEnded a hp hc hg rfl hn)
    · exact fun _ => .refl

/-- A piece is handed over for a client that is written back with it. -/
theorem forwardPiece_moves (x : Option Fd) (c : Fd) {stdinFd : Fd} (client : Client) (piece : Bytes) (answer : ℕ)
    (ha : client.cgiActive = true) (hs : client.cgiStdinFd = some stdinFd) :
    Moves files (x, w.setClient c client) (x, (w.forwardPiece c client stdinFd piece answer).1.setClient c
      (w.forwardPiece c client stdinFd piece answer).2) ∧
    Moves files (x, w.setClient c client) (x, (w.forwardPiece c client stdinFd piece answer).1.inputComplete c
      (w.forwardPiece c client stdinFd piece answer).2 stdinFd) ∧
    (w.forwardPiece c client stdinFd piece answer).2.cgiActive = true := by
  obtain ⟨q, -, hcl, -⟩ := forwardPiece_changed w c client stdinFd piece answer
  have hf : Move files (x, w.setClient c client) _ :=
    .forwarded piece answer (getClient_setClient_self w c client) ha hs
  rw [forwardPiece_setClient, setClient_setClient] at hf
  have hi : Move files (x, (w.forwardPiece c client stdinFd piece answer).1.setClient c
      (w.forwardPiece c client stdinFd piece answer).2) _ :=
    .inputComplete (getClient_setClient_self _ _ _) (by rw [hcl]; exact ha) (by rw [hcl]; exact hs)
  rw [inputComplete_setClient] at hi
  exact ⟨.single hf, .head hf (.single hi), by rw [hcl]; exact ha⟩

/-- A piece that was read is handed over, and may be the last one. -/
theorem handOver_moves (x : Option Fd) (c : Fd) {stdinFd : Fd} (client : Client) (piece : Bytes) (answer : ℕ)
    (last : Prop) [Decidable last] (ha : client.cgiActive = true) (hs : client.cgiStdinFd = some stdinFd) :
    let r := w.forwardPiece c client stdinFd piece answer
    let res := if last then (r.1.inputComplete c r.2 stdinFd, none) else (r.1.setClient c r.2, some r.2)
    Moves files (x, w.setClient c client) (x, res.1) ∧
    ∀ client' ∈ res.2, client'.cgiActive = true ∧ res.1.getClient c = some client' ∧ w.fds <+: res.1.fds := by
  obtain ⟨hset, hdone, ha'⟩ := forwardPiece_moves (w := w) x c client piece answer ha hs
  dsimp only
  split
  · exact ⟨hdone, by simp⟩
  · refine ⟨hset, ?_⟩
    rintro client' ⟨⟩
    exact ⟨ha', by simp, fds_forwardPiece w c _ stdinFd _ answer⟩

/-- Bytes of the body are read, handed over, and may be the last ones. -/
theorem forwardBody_moves (x : Option Fd) (now : ℕ) {c : Fd} {client : Client} (bytes : Bytes) (answer : ℕ)
    (hg : w.getClient c = some client) (ha : client.cgiActive = true) :
    Moves files (x, w) (x, (w.forwardBody now c client bytes answer).1) ∧
    ∀ client' ∈ (w.forwardBody now c client bytes answer).2, client'.cgiActive = true ∧
      (w.forwardBody now c client bytes answer).1.getClient c = some client' ∧
      w.fds <+: (w.forwardBody now c client bytes answer).1.fds := by
  have hread (count : ℕ) (decoder : Client.ChunkDecoder) : Move files (x, w) (x, (w.log (.bodyRead c bytes)).setClient c
      { client with lastActivity := now, cgiChunk := decoder, cgiBodyBytesForwarded := count }) :=
    .bodyRead bytes now count decoder hg
  unfold forwardBody
  dsimp only
  split
  · exact ⟨.single (hread client.cgiBodyBytesForwarded client.cgiChunk), by simp⟩
  next stdinFd hin =>
  split
  · have hread := hread client.cgiBodyBytesForwarded (Client.decodeChunkedForCgi client.cgiChunk bytes).decoder
    split
    · obtain ⟨hmoves, hnext⟩ := handOver_moves (w := w.log (.bodyRead c bytes)) x c
        { client with
          lastActivity := now, cgiChunk := (Client.decodeChunkedForCgi client.cgiChunk bytes).decoder }
        (Client.decodeChunkedForCgi client.cgiChunk bytes).decoded answer
        ((Client.decodeChunkedForCgi client.cgiChunk bytes).eof = true) ha hin
      exact ⟨.head hread hmoves, hnext⟩
    · have hend : Move files (x, (w.log (.bodyRead c bytes)).setClient c { client with
          lastActivity := now, cgiChunk := (Client.decodeChunkedForCgi client.cgiChunk bytes).decoder }) _ :=
        .inputEnded (getClient_setClient_self _ _ _) ha
      rw [endInput_setClient] at hend
      exact ⟨.head hread (.single hend), by simp⟩
  · have hread := hread (client.cgiBodyBytesForwarded + bytes.length) client.cgiChunk
    refine And.imp_left (Relation.ReflTransGen.head hread) ?_
    exact handOver_moves (w := w.log (.bodyRead c bytes)) x c
      { client with
        lastActivity := now, cgiBodyBytesForwarded := client.cgiBodyBytesForwarded + bytes.length }
      bytes answer _ ha hin

/-- The loop ends where the turn of the client is over, or because too much is pending. -/
theorem bodyLoop_moves (a : Answers) {idx : ℕ} {c : Fd} (answers : List ReadAnswer) (writes : List ℕ) (total : ℕ)
    {client : Client} (hidx : w.fds[idx]? = some c) (hg : w.getClient c = some client)
    (ha : client.cgiActive = true) : Moves files (none, w)
      ((bodyLoop a idx c answers writes total w client).fds[idx]?, bodyLoop a idx c answers writes total w client) := by
  induction answers generalizing w client writes total with
  | nil => exact .single (.turned _ w)
  | cons answer answers ih =>
    unfold bodyLoop
    split
    · split
      · next hs =>
        obtain ⟨p, hp, rfl⟩ : ∃ p, w.pollFds[idx]? = some p ∧ p.fd = c := by simpa using hidx
        have hidx' : (w.modifyEntry idx PollFd.disablePollin).fds[idx]? = some p.fd := by simpa using hidx
        rw [hidx']
        exact .single (.bodyPaused hp hg ha hs)
      · split
        · exact .head (.inputEnded hg ha) (.single (.turned _ _))
        · exact .head (.inputEnded hg ha) (.single (.turned _ _))
        · exact .single (.turned _ w)
        · next bytes _ =>
          obtain ⟨hmoves, hnext⟩ := forwardBody_moves none a.now bytes (writes.head?.getD 0) hg ha
          split
          · next w' hw =>
            rw [hw] at hmoves
            exact hmoves.tail (.turned _ w')
          · next w' client' hw =>
            rw [hw] at hmoves hnext
            obtain ⟨ha', hg', hfds⟩ := hnext client' rfl
            exact hmoves.trans (ih writes.tail _ (getElem?_of_isPrefix hfds hidx) hg' ha')
    · exact .single (.turned _ w)

theorem fds_resumeCgiOutput (client : Client) : (w.resumeCgiOutput client).fds = w.fds := by
  unfold resumeCgiOutput
  split
  · split <;> simp
  · rfl

/-- A client that was completed by its last bytes had its head sent. -/
theorem sendLoop_moves (a : Answers) {idx : ℕ} {fd : Fd} (answers : List SendAnswer) (total : ℕ)
    {client : Client} (hs : w.Sound) (hidx : w.fds[idx]? = some fd) (hg : w.getClient fd = some client)
    (hr : client.cgiActive ∨ client.cgiSendPending.size > 0 ∨ client.cgiHeadersSent) :
    ((sendLoop a idx fd answers total w client).1 = true →
      Moves files (some fd, w) (none, (sendLoop a idx fd answers total w client).2)) ∧
    ((sendLoop a idx fd answers total w client).1 = false →
      Moves files (some fd, w) (some fd, (sendLoop a idx fd answers total w client).2) ∧
      (sendLoop a idx fd answers total w client).2.fds = w.fds) := by
  induction answers generalizing w client total with
  | nil => exact ⟨nofun, fun _ => ⟨.refl, rfl⟩⟩
  | cons answer answers ih =>
    obtain ⟨p, hp, rfl⟩ : ∃ p, w.pollFds[idx]? = some p ∧ p.fd = fd := by simpa using hidx
    unfold sendLoop
    split
    · split
      · next hz =>
        split
        · exact ⟨nofun, fun _ => ⟨.single (.outputPaused hp hg hz), by simp⟩⟩
        · next ha =>
          refine ⟨fun _ => .single (.completed a.reaped (.inr rfl) hp hg ⟨by simpa using ha, ?_, .inl ?_⟩), nofun⟩
          · exact (OffsetBuffer.size_eq_zero_iff _).mp hz
          · rcases hr with hr | hr | hr
            · exact absurd hr ha
            · omega
            · exact hr
      · next hz =>
        split
        · exact ⟨nofun, fun _ => ⟨.refl, rfl⟩⟩
        · exact ⟨fun _ => .single (.removed a.reaped (.inr rfl) hp (by simp [RemoveReason.forced])
            (.inl (by simp [hg]))), nofun⟩
        · next n _ =>
          dsimp only
          split
          · have hmove : Move files (some p.fd, w) (some p.fd, (w.sendPending a.now p.fd client
                (min n client.cgiSendPending.size) (Nat.min_le_right _ _)).1) := .sentPending a.now _ hg _
            have hhead : client.cgiHeadersSent = true := by
              by_contra hn
              have hq := (hs.clients p.fd client hg).queued (by simpa using hn)
              exact hz ((OffsetBuffer.size_eq_zero_iff _).mpr hq)
            have hfds : (w.sendPending a.now p.fd client (min n client.cgiSendPending.size)
                (Nat.min_le_right _ _)).1.fds = w.fds := fds_resumeCgiOutput _
            have hsound := hmove.sound hs
            have hg' : (w.sendPending a.now p.fd client (min n client.cgiSendPending.size)
                (Nat.min_le_right _ _)).1.getClient p.fd = some (w.sendPending a.now p.fd client
                (min n client.cgiSendPending.size) (Nat.min_le_right _ _)).2 := by simp [sendPending]
            obtain ⟨htrue, hfalse⟩ := ih (total + min n client.cgiSendPending.size) hsound
              (hfds ▸ hidx) hg' (.inr (.inr hhead))
            refine ⟨fun h => .head hmove (htrue h), fun h => ?_⟩
            obtain ⟨hm, hf⟩ := hfalse h
            exact ⟨.head hmove hm, hf.trans hfds⟩
          · exact ih total hs hidx hg hr
    · exact ⟨nofun, fun _ => ⟨.refl, rfl⟩⟩

theorem sendResponse_moves (a : Answers) {idx : ℕ} {fd : Fd} {client : Client} (hidx : w.fds[idx]? = some fd)
    (hg : w.getClient fd = some client) (ha : client.cgiActive = false) (hz : client.cgiSendPending.size = 0)
    (hh : client.cgiHeadersSent = false) (hne : client.response ≠ []) :
    ((w.sendResponse a idx fd client).1 = true →
      Moves files (some fd, w) (none, (w.sendResponse a idx fd client).2)) ∧
    ((w.sendResponse a idx fd client).1 = false →
      Moves files (some fd, w) (some fd, (w.sendResponse a idx fd client).2) ∧
      (w.sendResponse a idx fd client).2.fds = w.fds) := by
  obtain ⟨p, hp, rfl⟩ : ∃ p, w.pollFds[idx]? = some p ∧ p.fd = fd := by simpa using hidx
  have hremove : Move files (some p.fd, w) (none, w.removeClient idx a.reaped .sendError) :=
    .removed a.reaped (.inr rfl) hp (by simp [RemoveReason.forced]) (.inl (by simp [hg]))
  unfold sendResponse
  dsimp only
  split
  · exact ⟨fun _ => .single hremove, nofun⟩
  · exact ⟨fun _ => .single hremove, nofun⟩
  · next n _ =>
    have hmove : Move files (some p.fd, w) _ :=
      .sentResponse a.now (min n (client.response.length - client.responseOffset)) hg ha hh
    split
    · next hdone =>
      refine ⟨fun _ => .head hmove (.single (.completed a.reaped (.inr rfl) hp (getClient_setClient_self _ _ _)
        ⟨ha, (OffsetBuffer.size_eq_zero_iff _).mp hz, .inr ⟨hne, hdone⟩⟩)), nofun⟩
    · exact ⟨nofun, fun _ => ⟨.single hmove, rfl⟩⟩

/-! ## Handlers -/

theorem exists_of_isCgiFd {f : Fd} (h : w.isCgiFd f = true) : ∃ c, w.cgiFdToClientFd[f]? = some c := by
  rw [isCgiFd, Std.ExtTreeMap.contains_eq_isSome_getElem?] at h
  exact Option.isSome_iff_exists.mp h

theorem exists_of_isCgiStdinFd {f : Fd} (h : w.isCgiStdinFd f = true) :
    ∃ c, w.cgiStdinFdToClientFd[f]? = some c := by
  rw [isCgiStdinFd, Std.ExtTreeMap.contains_eq_isSome_getElem?] at h
  exact Option.isSome_iff_exists.mp h

theorem handlePollErrors_calm (a : Answers) {idx : ℕ} (hidx : idx < w.pollFds.length)
    (hn : (w.entry idx).revents.pollhup = true ∨ (w.entry idx).revents.pollerr = true ∨
      (w.entry idx).revents.pollnval = true → w.isListeningSocket (w.entry idx).fd = false →
      w.isCgiFd (w.entry idx).fd = false → w.isCgiStdinFd (w.entry idx).fd = false) :
    Moves a.files (none, w) (none, (w.handlePollErrors a idx).2) := by
  obtain ⟨p, hp⟩ : ∃ p, w.pollFds[idx]? = some p := ⟨_, List.getElem?_eq_getElem hidx⟩
  rw [entry_eq hp] at hn
  unfold handlePollErrors
  rw [entry_eq hp]
  dsimp only
  split
  · next hr =>
    split
    · exact .refl
    · next hl =>
      split
      · exact .refl
      · next ho =>
        split
        · next hi =>
          rw [hn (by simpa [or_assoc] using hr) (by simpa using hl) (by simpa using ho)] at hi
          cases hi
        · next hi =>
          exact .single (.removed a.reaped (.inl rfl) hp (by simp [RemoveReason.forced])
            (.inr ⟨by simpa using hl, by simpa using ho, by simpa using hi⟩))
  · exact .refl

theorem handlePollErrors_moves (a : Answers) {idx : ℕ} (hidx : idx < w.pollFds.length) :
    AnyMoves a.files (none, w) (none, (w.handlePollErrors a idx).2) := by
  obtain ⟨p, hp⟩ : ∃ p, w.pollFds[idx]? = some p := ⟨_, List.getElem?_eq_getElem hidx⟩
  cases hi : w.isCgiStdinFd p.fd with
  | false => exact (handlePollErrors_calm a hidx (fun _ _ _ => entry_eq hp ▸ hi)).any
  | true =>
    obtain ⟨c, hc⟩ := exists_of_isCgiStdinFd hi
    unfold handlePollErrors
    rw [entry_eq hp]
    simp only [hi, if_true]
    split
    · split
      · exact .refl
      · split
        · exact .refl
        · exact .single (.stdinHangup hp hc)
    · exact .refl

theorem handleCgiOutput_moves (a : Answers) {idx : ℕ} {p : PollFd} (hs : w.Sound) (hp : w.pollFds[idx]? = some p)
    (ho : w.isCgiFd p.fd = true) (hn : (w.handleCgiOutput a idx).2.aborted = false) :
    Moves a.files (none, w) (none, (w.handleCgiOutput a idx).2) := by
  obtain ⟨c, hc⟩ := exists_of_isCgiFd ho
  obtain ⟨client, hg, hout, ha⟩ := hs.owned p.fd c hc
  revert hn
  unfold handleCgiOutput
  rw [entry_eq hp]
  simp only [hc, hg]
  exact cgiOutputLoop_moves none a _ 0 (fds_of_entry hp) hc hg ha

theorem handleCgiStdinWritable_moves (a : Answers) {idx : ℕ} {p : PollFd} (hp : w.pollFds[idx]? = some p)
    (hi : w.isCgiStdinFd p.fd = true) :
    Moves files (some p.fd, w) (none, (w.handleCgiStdinWritable a idx).2) := by
  obtain ⟨c, hc⟩ := exists_of_isCgiStdinFd hi
  cases hg : w.getClient c with
  | none =>
    have hm : Move files (some p.fd, w) _ := .strayStdin (.inr rfl) hp hc hg
    unfold handleCgiStdinWritable
    rw [entry_eq hp]
    simp only [hc, hg]
    exact .single hm
  | some client => exact .single (.stdinWritable a (.inr rfl) hp hc hg)

theorem handleClientRead_moves (a : Answers) {idx : ℕ} {p : PollFd} (hp : w.pollFds[idx]? = some p)
    (hr : p.revents.pollin = true) : Moves files (none, w)
      ((w.handleClientRead a idx).2.fds[(w.handleClientRead a idx).1]?, (w.handleClientRead a idx).2) := by
  unfold handleClientRead
  rw [entry_eq hp]
  dsimp only
  split
  · exact .single (.turned _ w)
  next client hg =>
  split
  · next ha => exact bodyLoop_moves a _ _ 0 (fds_of_entry hp) hg ha
  next ha =>
  have ha : client.cgiActive = false := by simpa using ha
  have hclosed (reason : RemoveReason) : Move files (none, w)
      (none, (w.log (.requestRead p.fd (Answered client) .removed)).removeClient idx a.reaped reason) :=
    .closedByRead a.reaped hp hg ha
  split
  · exact .head (hclosed .closedByClient) (.single (.turned _ _))
  · exact .head (hclosed .readError) (.single (.turned _ _))
  · exact .head (.touched a.now hg) (.single (.turned _ _))
  · next bytes _ => exact .single (.requestRead a bytes hp hr hg ha)

theorem handlePollInput_moves (a : Answers) (idx : ℕ) (hs : w.Sound)
    (hn : (w.handlePollInput a idx).2.2.aborted = false) :
    ((w.handlePollInput a idx).1 = true → Moves a.files (none, w) (none, (w.handlePollInput a idx).2.2)) ∧
    ((w.handlePollInput a idx).1 = false → Moves a.files (none, w)
      ((w.handlePollInput a idx).2.2.fds[(w.handlePollInput a idx).2.1]?, (w.handlePollInput a idx).2.2)) := by
  cases hp : w.pollFds[idx]? with
  | none =>
    have he : w.entry idx = ⟨0, {}, {}⟩ := by simp [entry, hp]
    simp only [handlePollInput, he]
    exact ⟨by simp, fun _ => .single (.turned _ w)⟩
  | some p =>
    revert hn
    unfold handlePollInput
    rw [entry_eq hp]
    dsimp only
    split
    · next hr =>
      split
      · refine fun _ => ⟨by simp, fun _ => ?_⟩
        exact (acceptLoop_moves w none _ a.now a.accepts).tail (.turned _ _)
      · split
        · exact fun _ => ⟨fun _ => .refl, by simp⟩
        · split
          · next ho => exact fun hn => ⟨fun _ => handleCgiOutput_moves a hs hp ho hn, by simp⟩
          · exact fun _ => ⟨by simp, fun _ => handleClientRead_moves a hp hr⟩
    · split
      · next ho =>
        have ho : w.isCgiFd p.fd = true := by
          simp only [Bool.and_eq_true] at ho
          exact ho.2
        exact fun hn => ⟨fun _ => handleCgiOutput_moves a hs hp ho hn, by simp⟩
      · exact fun _ => ⟨by simp, fun _ => .single (.turned _ w)⟩

theorem handlePollOutput_moves (a : Answers) (idx : ℕ) (hs : w.Sound) :
    ((w.handlePollOutput a idx).1 = true → Moves a.files (w.fds[idx]?, w) (none, (w.handlePollOutput a idx).2.2)) ∧
    ((w.handlePollOutput a idx).1 = false → Moves a.files (w.fds[idx]?, w)
      (none, (w.handlePollOutput a idx).2.2.modifyEntry (w.handlePollOutput a idx).2.1 PollFd.clearRevents)) := by
  have hstay : Move a.files (w.fds[idx]?, w) (none, w.modifyEntry idx PollFd.clearRevents) := .cleared w idx
  cases hp : w.pollFds[idx]? with
  | none =>
    have he : w.entry idx = ⟨0, {}, {}⟩ := by simp [entry, hp]
    simp only [handlePollOutput, he]
    exact ⟨by simp, fun _ => .single hstay⟩
  | some p =>
    have hidx := fds_of_entry hp
    have hafter {w' : World} (hf : w'.fds = w.fds) :
        Move a.files (some p.fd, w') (none, w'.modifyEntry idx PollFd.clearRevents) := by
      rw [← hidx, ← hf]
      exact .cleared w' idx
    rw [hidx] at hstay ⊢
    unfold handlePollOutput
    rw [entry_eq hp]
    dsimp only
    split
    · split
      · next hi => exact ⟨fun _ => handleCgiStdinWritable_moves a hp hi, by simp⟩
      · split
        · exact ⟨by simp, fun _ => .single hstay⟩
        · next client hg =>
          split
          · next hr =>
            obtain ⟨htrue, hfalse⟩ := sendLoop_moves a (a.sends ++ [.again]) 0 hs hidx hg hr
            refine ⟨htrue, fun h => ?_⟩
            obtain ⟨hm, hf⟩ := hfalse h
            exact hm.tail (hafter hf)
          · next hr =>
            split
            · exact ⟨by simp, fun _ => .single hstay⟩
            · next hne =>
              simp only [not_or, Bool.not_eq_true] at hr
              obtain ⟨htrue, hfalse⟩ := sendResponse_moves a hidx hg hr.1 (by omega) hr.2.2 hne
              refine ⟨htrue, fun h => ?_⟩
              obtain ⟨hm, hf⟩ := hfalse h
              exact hm.tail (hafter hf)
    · exact ⟨by simp, fun _ => .single hstay⟩

end World

/-! ## Steps and runs of the loop -/

namespace LoopState

/-- The descriptor whose turn for input is over, as far as the loop has come. -/
def view (s : LoopState) : View :=
  match s.point with
  | .output idx => (s.world.fds[idx]?, s.world)
  | _ => (none, s.world)

@[simp] theorem view_world (s : LoopState) : s.view.2 = s.world := by
  unfold view
  split <;> rfl

theorem timeoutStep_moves (w : World) (a : Answers) {now i : ℕ} (hi : i < w.pollFds.length) :
    Moves a.files (none, w) (none, (timeoutStep w a now i).2) := by
  obtain ⟨p, hp⟩ : ∃ p, w.pollFds[i]? = some p := ⟨_, List.getElem?_eq_getElem hi⟩
  unfold timeoutStep
  rw [entry_eq hp]
  dsimp only
  split
  · exact .refl
  · split
    · exact .refl
    · next client hg =>
      split
      · exact .single (.removed a.reaped (.inl rfl) hp (by simp [RemoveReason.forced]) (.inl (by simp [hg])))
      · exact .refl

/-- The next step drops the pipe to a script, because it broke. -/
def hangsUp (s : LoopState) : Bool :=
  match s.point with
  | .errors idx =>
    let p := s.world.entry idx
    decide (idx < s.world.pollFds.length) && (p.revents.pollhup || p.revents.pollerr || p.revents.pollnval) &&
      !s.world.isListeningSocket p.fd && !s.world.isCgiFd p.fd && s.world.isCgiStdinFd p.fd
  | _ => false

/-- A step of the loop that drops no broken pipe is a run of moves. -/
theorem step_moves (s : LoopState) (a : Answers) (hs : s.world.Sound) (hn : s.hangsUp = false) :
    Moves a.files s.view (s.step a).view := by
  obtain ⟨w, point⟩ := s
  cases point with
  | poll =>
    simp only [step]
    split
    · exact .refl
    · exact .refl
    · exact .single (.reported w _)
  | errors idx =>
    simp only [step]
    split
    · next hidx =>
      have h := handlePollErrors_calm a hidx (by simpa [hangsUp, hidx, or_assoc] using hn)
      split <;> next hw => rw [hw] at h; exact h
    · exact .refl
  | input idx =>
    have hmoves := handlePollInput_moves a idx hs
    simp only [step]
    split <;> next v hw =>
      rw [hw] at hmoves
      cases hv : v.aborted with
      | true => exact .refl
      | false => first | exact (hmoves hv).1 rfl | exact (hmoves hv).2 rfl
  | output idx =>
    obtain ⟨htrue, hfalse⟩ := handlePollOutput_moves a idx hs
    simp only [step]
    split <;> next hw =>
      rw [hw] at htrue hfalse
      first | exact htrue rfl | exact hfalse rfl
  | timeouts now i =>
    simp only [step]
    split
    · next hi => exact timeoutStep_moves w a hi
    · exact .refl
  | stopped => exact .refl
  | aborted => exact .refl

theorem step_anyMoves (s : LoopState) (a : Answers) (hs : s.world.Sound) :
    AnyMoves a.files s.view (s.step a).view := by
  cases hn : s.hangsUp with
  | false => exact (s.step_moves a hs hn).any
  | true =>
    obtain ⟨w, point⟩ := s
    cases point with
    | errors idx =>
      have hidx : idx < w.pollFds.length := by
        simp only [hangsUp, Bool.and_eq_true, decide_eq_true_eq] at hn
        exact hn.1.1.1.1
      have h := handlePollErrors_moves a hidx
      simp only [step, hidx, if_true]
      split <;> next hw => rw [hw] at h; exact h
    | poll => cases hn
    | input idx => cases hn
    | output idx => cases hn
    | timeouts now i => cases hn
    | stopped => cases hn
    | aborted => cases hn

end LoopState

/-- The state of a server before its first poll. -/
def World.Created (w : World) : Prop := ∃ configs sockets, World.create configs sockets = some w

theorem World.openSockets_start {confs : List ServerConfig} {i : ℕ} {answers : List SocketAnswer} {w w' : World}
    (h : openSockets w confs i answers = some w') :
    w'.configs = w.configs ∧ w'.trace = w.trace ∧ w'.clients = w.clients ∧
      w'.cgiFdToClientFd = w.cgiFdToClientFd ∧ w'.cgiStdinFdToClientFd = w.cgiStdinFdToClientFd := by
  induction confs generalizing i answers w with
  | nil =>
    cases h
    exact ⟨rfl, rfl, rfl, rfl, rfl⟩
  | cons conf confs ih =>
    match answers with
    | .listening fd :: answers =>
      simp only [openSockets] at h
      split at h
      · cases h
      · have hnext := ih h
        exact hnext
    | [] | .failed :: _ | .bindFailed _ :: _ | .listenFailed _ :: _ => cases h

/-- Nothing has happened yet. -/
theorem World.Created.start {w : World} (h : w.Created) : w.trace = [] ∧ (∀ c, w.getClient c = none) ∧
    (∀ f : Fd, w.cgiFdToClientFd[f]? = none) ∧ ∀ f : Fd, w.cgiStdinFdToClientFd[f]? = none := by
  obtain ⟨configs, sockets, h⟩ := h
  obtain ⟨-, ht, hc, ho, hi⟩ := World.openSockets_start h
  refine ⟨ht, fun c => ?_, fun f => ?_, fun f => ?_⟩
  · simp [getClient, hc]
  · simp [ho]
  · simp [hi]

theorem World.Created.sound {w : World} (h : w.Created) : w.Sound := by
  obtain ⟨-, hc, ho, -⟩ := h.start
  exact ⟨fun c client hg => by simp [hc c] at hg, fun f c hf => by simp [ho f] at hf⟩

/-- A run in which no pipe to a script breaks. -/
def Calm (s : LoopState) (as : List Answers) : Prop :=
  ∀ bs a, bs ++ [a] <+: as → (s.run bs).hangsUp = false

section
variable {I : View → Prop}

/-- What the moves of each step keep, a run keeps. -/
theorem LoopState.run_invariant {R : FileSystem → View → View → Prop} {s : LoopState} {as : List Answers}
    (hmoves : ∀ bs a, bs ++ [a] <+: as → (s.run bs).world.Sound →
      Relation.ReflTransGen (R a.files) (s.run bs).view (s.run (bs ++ [a])).view)
    (hmove : ∀ files v v', v.2.Sound → I v → R files v v' → I v' ∧ v'.2.Sound) (hs : I s.view ∧ s.world.Sound) :
    I (s.run as).view ∧ (s.run as).world.Sound := by
  induction as using List.reverseRecOn with
  | nil => exact hs
  | append_singleton as a ih =>
    have hlast := ih (fun bs b hb => hmoves bs b (hb.trans (List.prefix_append as [a])))
    have hsteps := hmoves as a List.prefix_rfl hlast.2
    have hall {v v' : View} (h : Relation.ReflTransGen (R a.files) v v') (hv : I v ∧ v.2.Sound) :
        I v' ∧ v'.2.Sound := by
      induction h with
      | refl => exact hv
      | tail _ hm ih => exact hmove _ _ _ ih.2 ih.1 hm
    have h := hall hsteps ⟨hlast.1, by simpa using hlast.2⟩
    simpa using h

/-- What holds at the start and is kept by every move holds in every reachable state. -/
theorem Reachable.invariant (hstart : ∀ w : World, w.Created → I (none, w))
    (hmove : ∀ files v v', v.2.Sound → I v → AnyMove files v v' → I v') {s : LoopState} (h : Reachable s) :
    I s.view ∧ s.world.Sound := by
  obtain ⟨configs, sockets, w, as, hw, rfl⟩ := h
  have hcreated : w.Created := ⟨configs, sockets, hw⟩
  refine LoopState.run_invariant (R := AnyMove) ?_ ?_ ⟨hstart w hcreated, hcreated.sound⟩
  · intro bs a _ hs
    have h := (LoopState.run ⟨w, .poll⟩ bs).step_anyMoves a hs
    simpa [LoopState.run] using h
  · intro files v v' hs hI hm
    exact ⟨hmove files v v' hs hI hm, hm.sound hs⟩

end

theorem Reachable.sound {s : LoopState} (h : Reachable s) : s.world.Sound :=
  (h.invariant (I := fun _ => True) (fun _ _ => trivial) (fun _ _ _ _ _ _ => trivial)).2

/-- In one call a connection takes steps of its own. -/
theorem LoopState.step_connection (s : LoopState) (a : Answers) (hs : s.world.Sound) (c : Fd) : ∃ es,
    Connection.Steps s.world.configs a.files c (s.world.getClient c) es ((s.step a).world.getClient c) ∧
    (s.step a).world.history c = s.world.history c ++ es ∧ (s.step a).world.configs = s.world.configs := by
  have hall {v v' : View} (h : AnyMoves a.files v v') (hv : v.2.Sound) : v'.2.Sound ∧ ∃ es,
      Connection.Steps v.2.configs a.files c (v.2.getClient c) es (v'.2.getClient c) ∧
      v'.2.history c = v.2.history c ++ es ∧ v'.2.configs = v.2.configs := by
    induction h with
    | refl => exact ⟨hv, [], .refl _, (List.append_nil _).symm, rfl⟩
    | tail _ hm ih =>
      obtain ⟨hsound, es, hsteps, hhist, hconf⟩ := ih
      obtain ⟨d, fs, o, hmoves, hch⟩ := hm.changed hsound
      refine ⟨hm.sound hsound, es ++ if d = c then fs else [], ?_, ?_, hch.configs.trans hconf⟩
      · rw [hch.client]
        by_cases hd : c = d
        · subst hd
          rw [hconf] at hmoves
          simpa using hsteps.trans hmoves
        · simpa [hd, Ne.symm hd] using hsteps
      · rw [hch.history, hhist, List.append_assoc]
  have h := hall (s.step_anyMoves a hs) (by simpa using hs)
  simpa using h.2

/-- A connection reached its state by steps of its own. -/
theorem Reachable.connection {s : LoopState} (h : Reachable s) (c : Fd) :
    Connection.AnySteps s.world.configs c none (s.world.history c) (s.world.getClient c) := by
  have hinv := h.invariant (I := fun v => Connection.AnySteps v.2.configs c none (v.2.history c) (v.2.getClient c))
    ?_ ?_
  · simpa using hinv.1
  · intro w hw
    obtain ⟨ht, hc, -, -⟩ := hw.start
    have hnone : Connection.AnySteps w.configs c none [] none := .refl none
    simpa [World.history, ht, hc c] using hnone
  · intro files v v' hs hI hm
    obtain ⟨d, es, o, hsteps, hch⟩ := hm.changed hs
    rw [hch.configs, hch.client, hch.history]
    by_cases hd : c = d
    · subst hd
      simpa using hI.trans (hsteps.mono fun _ _ _ hstep => ⟨files, hstep⟩)
    · simpa [hd, Ne.symm hd] using hI

end WebServ
