import WebServ.Http.Answers
import WebServ.Server.Effects

/-! # Calls that throw

Only the making of a response throws, and only where a directory is read as a file. A
loop that has ended has met such a directory, or its `poll` has failed.
-/
namespace WebServ
open Search HTTPHandler HTTPResponse

namespace World
variable (w : World)

/-! ## Handlers that make no response -/

@[simp] theorem aborted_removeClient (index : ℕ) (reaped : Bool) (reason : RemoveReason) :
    (w.removeClient index reaped reason).aborted = w.aborted := by
  unfold removeClient
  simp only [log_frame, eraseEntry_frame, eraseClient_frame, closeFd_frame]
  split
  · rfl
  · split <;> split <;> simp

@[simp] theorem aborted_cgiOutputRead (c : Fd) (client : Client) (bytes : Bytes) :
    (w.cgiOutputRead c client bytes).1.aborted = w.aborted := by
  unfold cgiOutputRead
  dsimp only
  split
  · simp
  · split <;> simp

@[simp] theorem aborted_handleCgiStdinWritable (a : Answers) (idx : ℕ) :
    (w.handleCgiStdinWritable a idx).2.aborted = w.aborted := by
  unfold handleCgiStdinWritable
  dsimp only
  split
  · simp
  · split
    · simp
    · split
      · simp
      · split <;> split <;> simp

@[simp] theorem aborted_startCgiRun (a : Answers) (c : Fd) (client : Client) (pid stdinFd stdoutFd : ℕ) :
    (w.startCgiRun a c client pid stdinFd stdoutFd).aborted = w.aborted := by
  simp [startCgiRun]

@[simp] theorem aborted_endInput (c : Fd) (client : Client) : (w.endInput c client).aborted = w.aborted := by
  unfold endInput
  dsimp only
  split <;> simp

@[simp] theorem aborted_inputComplete (c : Fd) (client : Client) (stdinFd : Fd) :
    (w.inputComplete c client stdinFd).aborted = w.aborted := by
  unfold inputComplete
  split <;> simp

@[simp] theorem aborted_forwardPiece (c : Fd) (client : Client) (stdinFd : Fd) (piece : Bytes) (answer : ℕ) :
    (w.forwardPiece c client stdinFd piece answer).1.aborted = w.aborted := by
  unfold forwardPiece
  dsimp only
  split <;> simp

@[simp] theorem aborted_forwardBody (now : ℕ) (c : Fd) (client : Client) (bytes : Bytes) (answer : ℕ) :
    (w.forwardBody now c client bytes answer).1.aborted = w.aborted := by
  unfold forwardBody
  dsimp only
  split
  · simp
  · split
    · split
      · split <;> simp
      · simp
    · split <;> simp

@[simp] theorem aborted_bodyLoop (a : Answers) (idx : ℕ) (c : Fd) (answers : List ReadAnswer) (writes : List ℕ)
    (total : ℕ) (client : Client) : (bodyLoop a idx c answers writes total w client).aborted = w.aborted := by
  induction answers generalizing w client writes total with
  | nil => rfl
  | cons answer answers ih =>
    unfold bodyLoop
    split
    · split
      · simp
      · split
        · simp
        · simp
        · rfl
        · next bytes _ =>
          have hkept := w.aborted_forwardBody a.now c client bytes (writes.head?.getD 0)
          split <;> next hw =>
            rw [hw] at hkept
            simpa [ih] using hkept
    · rfl

@[simp] theorem aborted_sendPending (now : ℕ) (fd : Fd) (client : Client) (sent : ℕ)
    (hs : sent ≤ client.cgiSendPending.size) : (w.sendPending now fd client sent hs).1.aborted = w.aborted := by
  simp [sendPending]

@[simp] theorem aborted_sendLoop (a : Answers) (idx : ℕ) (fd : Fd) (answers : List SendAnswer) (total : ℕ)
    (client : Client) : (sendLoop a idx fd answers total w client).2.aborted = w.aborted := by
  induction answers generalizing w client total with
  | nil => rfl
  | cons answer answers ih =>
    unfold sendLoop
    split
    · split
      · split <;> simp
      · split
        · rfl
        · simp
        · dsimp only
          split <;> simp [ih]
    · rfl

@[simp] theorem aborted_sendResponse (a : Answers) (idx : ℕ) (fd : Fd) (client : Client) :
    (w.sendResponse a idx fd client).2.aborted = w.aborted := by
  unfold sendResponse
  dsimp only
  split
  · simp
  · simp
  · split <;> simp

@[simp] theorem aborted_handlePollOutput (a : Answers) (idx : ℕ) :
    (w.handlePollOutput a idx).2.2.aborted = w.aborted := by
  unfold handlePollOutput
  dsimp only
  split
  · split
    · simp
    · split
      · rfl
      · split
        · simp
        · split <;> simp
  · rfl

@[simp] theorem aborted_acceptFd (serverIndex now : ℕ) (fd : Fd) :
    (w.acceptFd serverIndex now fd).aborted = w.aborted := by
  unfold acceptFd
  dsimp only
  split <;> simp

@[simp] theorem aborted_acceptLoop (serverIndex now : ℕ) (fds : List Fd) :
    (acceptLoop serverIndex now fds w).aborted = w.aborted := by
  induction fds generalizing w with
  | nil => rfl
  | cons fd fds ih =>
    unfold acceptLoop
    split
    · rfl
    · simp [ih]

@[simp] theorem aborted_stdinHangup (idx : ℕ) (fd : Fd) : (w.stdinHangup idx fd).aborted = w.aborted := by
  unfold stdinHangup
  dsimp only
  split
  · simp
  · split <;> simp

@[simp] theorem aborted_handlePollErrors (a : Answers) (idx : ℕ) :
    (w.handlePollErrors a idx).2.aborted = w.aborted := by
  unfold handlePollErrors
  dsimp only
  split
  · split_ifs <;> simp
  · rfl

@[simp] theorem aborted_timeoutStep (a : Answers) (now i : ℕ) :
    (LoopState.timeoutStep w a now i).2.aborted = w.aborted := by
  unfold LoopState.timeoutStep
  dsimp only
  split
  · rfl
  · split
    · rfl
    · split <;> simp

end World

/-! ## Handlers that make a response -/

/-- Between the states something was thrown only if a directory was there to be read. -/
def World.ThrowsOn (files : FileSystem) (w w' : World) : Prop :=
  w'.aborted = true → w.aborted = true ∨ ∃ path, files.isDirectory path = true

namespace World
section
variable {w v u : World} {c : Fd} {client : Client}

@[simp] theorem aborted_respond (w : World) (c : Fd) (client : Client) (response : Option HTTPResponse) :
    (w.respond c client response).aborted = (w.aborted || response.isNone) := rfl

theorem ThrowsOn.of_eq {files : FileSystem} (h : v.aborted = w.aborted) : ThrowsOn files w v := by
  intro ht
  exact Or.inl (h ▸ ht)

theorem ThrowsOn.trans {files : FileSystem} (h : ThrowsOn files w v) (h' : ThrowsOn files v u) :
    ThrowsOn files w u := by
  intro ht
  exact (h' ht).elim h Or.inr

/-- A response is missing only where a directory is. -/
theorem ThrowsOn.of_response {files : FileSystem} (response : Option HTTPResponse)
    (hnone : response = none → ∃ path, files.isDirectory path = true)
    (h : v.aborted = (w.aborted || response.isNone)) : ThrowsOn files w v := by
  intro ht
  rw [h, Bool.or_eq_true] at ht
  exact ht.imp id (fun hr => hnone (Option.isNone_iff_eq_none.mp hr))

theorem finalizeCgi_throws (w : World) (a : Answers) (c : Fd) (client : Client) (idx : ℕ) :
    ThrowsOn a.files w (w.finalizeCgi a c client idx) := by
  unfold finalizeCgi
  dsimp only
  split
  · exact .of_eq (by simp)
  · refine .of_response (scriptResponse a.files client.cgiOutput (w.config client)) ?_ ?_
    · exact isDirectory_of_scriptResponse
    · simp [scriptResponse]

theorem cgiOutputEnd_throws (w : World) (a : Answers) (idx : ℕ) (cgiFd c : Fd) (client : Client) :
    ThrowsOn a.files w (w.cgiOutputEnd a idx cgiFd c client) := by
  have hclosed : ThrowsOn a.files w (((w.eraseCgiFd cgiFd).closeFd cgiFd).eraseEntry idx) := .of_eq (by simp)
  exact hclosed.trans (finalizeCgi_throws _ a c _ _)

theorem cgiOutputLoop_throws (a : Answers) (idx : ℕ) (cgiFd c : Fd) (answers : List ReadAnswer) (total : ℕ)
    (w : World) (client : Client) : ThrowsOn a.files w (cgiOutputLoop a idx cgiFd c answers total w client).2 := by
  induction answers generalizing w client total with
  | nil => exact .of_eq rfl
  | cons answer answers ih =>
    unfold cgiOutputLoop
    split
    · split
      · next bytes _ =>
        have hread : ThrowsOn a.files w (w.cgiOutputRead c client bytes).1 := .of_eq (by simp)
        dsimp only
        split
        · exact hread.trans (.of_eq (by simp))
        · exact hread.trans (ih _ _ _)
      · exact .of_eq rfl
      · exact cgiOutputEnd_throws w a idx cgiFd c client
      · exact cgiOutputEnd_throws w a idx cgiFd c client
    · exact .of_eq rfl

theorem handleCgiOutput_throws (w : World) (a : Answers) (idx : ℕ) :
    ThrowsOn a.files w (w.handleCgiOutput a idx).2 := by
  unfold handleCgiOutput
  dsimp only
  split
  · exact .of_eq (by simp)
  · split
    · exact .of_eq (by simp)
    · exact cgiOutputLoop_throws a idx _ _ _ _ w _

theorem dispatchFailed_throws (w : World) (a : Answers) (c : Fd) (client : Client) (idx : ℕ) :
    ThrowsOn a.files w (w.dispatchFailed a c client idx) := by
  refine .of_response (error500 a.files (getErrorPage 500 (w.config client))) ?_ (by simp [dispatchFailed])
  intro h
  exact ErrorThrows.isDirectory (errorPage_eq_none_iff.mp h)

theorem dispatchCgi_throws (w : World) (a : Answers) (c : Fd) (client : Client) (idx : ℕ) :
    ThrowsOn a.files w (w.dispatchCgi a c client idx) := by
  have hfailed {v : World} (hv : v.aborted = w.aborted) : ThrowsOn a.files w (v.dispatchFailed a c client idx) :=
    (ThrowsOn.of_eq hv).trans (dispatchFailed_throws v a c client idx)
  cases hroute : matchRoute (stripQueryString client.request.requestTarget) (w.config client) with
  | none =>
    have he : w.dispatchCgi a c client idx = w.setClient c client := by simp only [dispatchCgi, hroute]
    exact .of_eq (by simp [he])
  | some route =>
    have hsome : (matchRoute (stripQueryString client.request.requestTarget) (w.config client)).isSome := by
      rw [hroute, Option.isSome_some]
    rcases w.dispatchCgi_cases a c idx hsome with ⟨v, new, hv, he⟩ | ⟨v, pid, stdinFd, stdoutFd, hv, -, he⟩
    · rw [he]
      exact hfailed hv.aborted
    · refine .of_eq ?_
      rw [he, aborted_startCgiRun, hv.aborted]

/-- What is decided on a request has a response unless a directory is read for it. -/
theorem decideRequest_reads {a : Answers} {conf : ServerConfig} {complete : Bool}
    (h : decideRequest a conf client complete = .reject none ∨ decideRequest a conf client complete = .answer none) :
    ∃ path, a.files.isDirectory path = true := by
  unfold decideRequest at h
  split_ifs at h
  · simp only [Decision.reject.injEq, or_false] at h
    exact ErrorThrows.isDirectory (errorPage_eq_none_iff.mp h)
  · simp only [Decision.reject.injEq, or_false] at h
    exact ErrorThrows.isDirectory (errorPage_eq_none_iff.mp h)
  · simp at h
  · dsimp only at h
    split at h
    · simp at h
    · simp only [Decision.answer.injEq, reduceCtorEq, false_or] at h
      exact isDirectory_of_handleRequest h
  · simp at h

theorem readRequest_reads {a : Answers} {conf : ServerConfig} {bytes : Bytes}
    (h : (readRequest a conf client bytes).1 = .reject none ∨ (readRequest a conf client bytes).1 = .answer none) :
    ∃ path, a.files.isDirectory path = true := by
  unfold readRequest at h
  split at h
  · simp at h
  · exact decideRequest_reads h

theorem requestBytes_throws (w : World) (a : Answers) (c : Fd) (client : Client) (idx : ℕ) (bytes : Bytes) :
    ThrowsOn a.files w (w.requestBytes a c client idx bytes) := by
  have hreads (h : (readRequest a (w.config client) client bytes).1 = .reject none ∨
      (readRequest a (w.config client) client bytes).1 = .answer none) := readRequest_reads h
  unfold requestBytes
  split
  · exact .of_eq (by simp)
  · next response client' hr =>
    refine .of_response response (fun hnone => hreads (Or.inl ?_)) (by simp)
    rw [hr, hnone]
  · have hlog : ThrowsOn a.files w (w.log (.requestRead c (Answered client) .dispatched)) := .of_eq rfl
    exact hlog.trans (dispatchCgi_throws _ a c _ idx)
  · next response client' hr =>
    refine .of_response response (fun hnone => hreads (Or.inr ?_)) (by simp)
    rw [hr, hnone]

theorem handleClientRead_throws (w : World) (a : Answers) (idx : ℕ) :
    ThrowsOn a.files w (w.handleClientRead a idx).2 := by
  unfold handleClientRead
  dsimp only
  split
  · exact .of_eq rfl
  · split
    · exact .of_eq (by simp)
    · split
      · exact .of_eq (by simp)
      · exact .of_eq (by simp)
      · exact .of_eq (by simp)
      · exact requestBytes_throws w a _ _ idx _

theorem handlePollInput_throws (w : World) (a : Answers) (idx : ℕ) :
    ThrowsOn a.files w (w.handlePollInput a idx).2.2 := by
  unfold handlePollInput
  dsimp only
  split_ifs
  · exact .of_eq (by simp [acceptClient])
  · exact .of_eq rfl
  · exact handleCgiOutput_throws w a idx
  · exact handleClientRead_throws w a idx
  · exact handleCgiOutput_throws w a idx
  · exact .of_eq rfl

end
end World

/-! ## The loop -/

namespace LoopState

/-- The loop goes on with the next step. -/
structure Running (s : LoopState) : Prop where
  stopped : s.point ≠ .stopped
  aborted : s.point ≠ .aborted
  sound : s.world.aborted = false

/-- What is thrown in a step does not get into the state. -/
theorem step_unmarked {s : LoopState} (h : s.world.aborted = false) (a : Answers) :
    (s.step a).world.aborted = false := by
  obtain ⟨w, point⟩ := s
  have h : w.aborted = false := h
  cases point with
  | poll =>
    simp only [step]
    split <;> exact h
  | errors idx =>
    have herrors := w.aborted_handlePollErrors a idx
    simp only [step]
    split
    · split <;> next hw =>
        rw [hw] at herrors
        exact herrors.trans h
    · exact h
  | input idx =>
    simp only [step]
    split <;> next v hw =>
      cases hv : v.aborted with
      | true => exact h
      | false => exact hv
  | output idx =>
    have houtput := w.aborted_handlePollOutput a idx
    simp only [step]
    split <;> next hw =>
      rw [hw] at houtput
      exact houtput.trans h
  | timeouts now i =>
    simp only [step]
    split
    · exact (w.aborted_timeoutStep a now i).trans h
    · exact h
  | stopped => exact h
  | aborted => exact h

/-- Why a step is the last one. -/
def Ends (files : FileSystem) (poll : PollAnswer) : LoopPoint → Prop
  | .stopped => poll = .failed
  | .aborted => ∃ path, files.isDirectory path = true
  | _ => True

theorem Running.step_ends {s : LoopState} (h : s.Running) (a : Answers) : Ends a.files a.poll (s.step a).point := by
  obtain ⟨w, point⟩ := s
  have hw : w.aborted = false := h.sound
  cases point with
  | poll =>
    simp only [step]
    split
    · trivial
    · assumption
    · trivial
  | errors idx =>
    simp only [step]
    split
    · split <;> trivial
    · trivial
  | input idx =>
    have hthrows := w.handlePollInput_throws a idx
    simp only [step]
    split <;> next v hv =>
      rw [hv] at hthrows
      cases hb : v.aborted with
      | false => trivial
      | true => exact (hthrows hb).resolve_left (by simp [hw])
  | output idx =>
    simp only [step]
    split <;> trivial
  | timeouts now i =>
    simp only [step]
    split <;> trivial
  | stopped => exact absurd rfl h.stopped
  | aborted => exact absurd rfl h.aborted

/-- The loop has come to its end. -/
def Ended (s : LoopState) : Prop := s.point = .stopped ∨ s.point = .aborted

theorem Ended.step {s : LoopState} (h : s.Ended) (a : Answers) : s.step a = s := by
  obtain ⟨w, point⟩ := s
  rcases h with rfl | rfl <;> rfl

theorem Running.step_or {s : LoopState} (h : s.Running) (a : Answers) : (s.step a).Running ∨ (s.step a).Ended := by
  by_cases hended : (s.step a).Ended
  · exact Or.inr hended
  · exact Or.inl ⟨fun hs => hended (Or.inl hs), fun ha => hended (Or.inr ha), step_unmarked h.sound a⟩

theorem step_aborts {s : LoopState} (h : s.world.aborted = false) {a : Answers} (ha : (s.step a).point = .aborted) :
    s.point = .aborted ∨ ∃ path, a.files.isDirectory path = true := by
  by_cases hended : s.Ended
  · rw [hended.step] at ha
    exact Or.inl ha
  · have hrunning : s.Running := ⟨fun hs => hended (Or.inl hs), fun ha => hended (Or.inr ha), h⟩
    have hends := hrunning.step_ends a
    rw [ha] at hends
    exact Or.inr hends

/-- After any number of steps the loop runs, or one of them was the last. -/
theorem Running.run_ends {s : LoopState} (h : s.Running) (answers : ℕ → Answers) (m : ℕ) :
    (s.run ((List.range m).map answers)).Running ∨ (s.run ((List.range m).map answers)).Ended ∧
      ∃ k < m, Ends (answers k).files (answers k).poll (s.run ((List.range m).map answers)).point := by
  induction m with
  | zero => exact Or.inl h
  | succ m ih =>
    have hsucc : s.run ((List.range (m + 1)).map answers) = (s.run ((List.range m).map answers)).step (answers m) := by
      simp [run, List.range_succ]
    rw [hsucc]
    generalize s.run ((List.range m).map answers) = t at ih
    rcases ih with hrunning | ⟨hended, k, hk, hends⟩
    · exact (hrunning.step_or (answers m)).imp id fun hended =>
        ⟨hended, m, Nat.lt_succ_self m, hrunning.step_ends (answers m)⟩
    · rw [hended.step]
      exact Or.inr ⟨hended, k, Nat.lt_succ_of_lt hk, hends⟩

end LoopState

theorem World.openSockets_unmarked {confs : List ServerConfig} {i : ℕ} {answers : List SocketAnswer} {w w' : World}
    (h : openSockets w confs i answers = some w') : w'.aborted = w.aborted := by
  induction confs generalizing i answers w with
  | nil =>
    cases h
    rfl
  | cons conf confs ih =>
    cases answers with
    | nil => cases h
    | cons answer answers =>
      cases answer with
      | failed => cases h
      | bindFailed fd => cases h
      | listenFailed fd => cases h
      | listening fd =>
        simp only [openSockets] at h
        split at h
        · cases h
        · exact (ih h).trans rfl

theorem Reachable.unmarked {s : LoopState} (h : Reachable s) : s.world.aborted = false := by
  obtain ⟨configs, sockets, w, as, hcreate, rfl⟩ := h
  have hstart : w.aborted = false := World.openSockets_unmarked hcreate
  have hrun (s : LoopState) (hs : s.world.aborted = false) : (s.run as).world.aborted = false := by
    induction as generalizing s with
    | nil => exact hs
    | cons a as ih => exact ih (s.step a) (LoopState.step_unmarked hs a)
  exact hrun ⟨w, .poll⟩ hstart

end WebServ
