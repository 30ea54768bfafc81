import WebServ.Server.Turns

/-! # The uses of positions

The handlers and the loop again, with every use of a position in `poll_fds_` beside
the result. What they return is what the handlers return.
-/
namespace WebServ
open World

/-- A result, and the positions used on the way to it, each with the number of entries then. -/
structure Traced (α : Type) where
  uses : List (ℕ × ℕ)
  result : α

namespace Traced
variable {α β : Type}

def of (result : α) : Traced α := ⟨[], result⟩

def after (use : ℕ × ℕ) (t : Traced α) : Traced α := ⟨use :: t.uses, t.result⟩

def bind (t : Traced α) (f : α → Traced β) : Traced β := ⟨t.uses ++ (f t.result).uses, (f t.result).result⟩

def map (f : α → β) (t : Traced α) : Traced β := ⟨t.uses, f t.result⟩

@[simp] theorem result_of (x : α) : (of x).result = x := rfl

@[simp] theorem result_after (use : ℕ × ℕ) (t : Traced α) : (t.after use).result = t.result := rfl

@[simp] theorem result_bind (t : Traced α) (f : α → Traced β) : (t.bind f).result = (f t.result).result := rfl

@[simp] theorem result_map (f : α → β) (t : Traced α) : (t.map f).result = f t.result := rfl

@[simp] theorem result_ite (c : Prop) [Decidable c] (t u : Traced α) :
    (if c then t else u).result = if c then t.result else u.result := apply_ite result c t u

end Traced

namespace World

/-! ## The handlers -/

/-- A use of `poll_fds_[idx]`: the position and the number of entries. -/
def access (w : World) (idx : ℕ) : ℕ × ℕ := (idx, w.pollFds.length)

/-- The entry of a client is looked up first and dropped last. -/
def removeClientTraced (w : World) (index : ℕ) (reaped : Bool) (reason : RemoveReason) : Traced World :=
  let fd := (w.entry index).fd
  let (v, index') := w.removeScript index reaped
  .after (w.access index) <| .after (v.access index') <|
    .of ((((v.closeFd fd).eraseClient fd).eraseEntry index').log (.removed fd reason))

def handlePollErrorsTraced (w : World) (a : Answers) (idx : ℕ) : Traced (Bool × World) :=
  let p := w.entry idx
  .after (w.access idx) <|
    if p.revents.pollhup || p.revents.pollerr || p.revents.pollnval then
      if w.isListeningSocket p.fd then .of (false, w)
      else if w.isCgiFd p.fd then .of (false, w)
      else if w.isCgiStdinFd p.fd then .after (w.access idx) (.of (true, w.stdinHangup idx p.fd))
      else (w.removeClientTraced idx a.reaped .hangup).map (true, ·)
    else .of (false, w)

def cgiOutputLoopTraced (a : Answers) (idx : ℕ) (cgiFd c : Fd) :
    List ReadAnswer → ℕ → World → Client → Traced (ℕ × World)
  | [], _, w, _ => .of (idx + 1, w)
  | answer :: answers, totalRead, w, client =>
    if totalRead < fairIoLimit then
      match w.read cgiFd answer with
      | .data bytes =>
        let (w, client) := w.cgiOutputRead c client bytes
        if client.cgiSendPending.size > cgiBackpressureLimit then
          .after (w.access idx) (.of (idx + 1, w.modifyEntry idx PollFd.disablePollin))
        else cgiOutputLoopTraced a idx cgiFd c answers (totalRead + bytes.length) w client
      | .again => .of (idx + 1, w)
      | .eof => .after (w.access idx) (.of (idx, w.cgiOutputEnd a idx cgiFd c client))
      | .error => .after (w.access idx) (.of (idx, w.cgiOutputEnd a idx cgiFd c client))
    else .of (idx + 1, w)

def handleCgiOutputTraced (w : World) (a : Answers) (idx : ℕ) : Traced (ℕ × World) :=
  let cgiFd := (w.entry idx).fd
  .after (w.access idx) <|
    match w.cgiFdToClientFd[cgiFd]? with
    | none => .after (w.access idx) (.of (idx, ((w.closeFd cgiFd).eraseCgiFd cgiFd).eraseEntry idx))
    | some c =>
      match w.getClient c with
      | none => .after (w.access idx) (.of (idx, ((w.closeFd cgiFd).eraseCgiFd cgiFd).eraseEntry idx))
      | some client => cgiOutputLoopTraced a idx cgiFd c (a.reads ++ [.again]) 0 w client

def handleCgiStdinWritableTraced (w : World) (a : Answers) (idx : ℕ) : Traced (ℕ × World) :=
  let stdinFd := (w.entry idx).fd
  .after (w.access idx) <|
    match w.cgiStdinFdToClientFd[stdinFd]? with
    | none => .after (w.access idx) (.of (idx, (w.closeFd stdinFd).eraseEntry idx))
    | some c =>
      match w.getClient c with
      | none =>
        .after (w.access idx) (.of (idx, ((w.eraseCgiStdinFd stdinFd).closeFd stdinFd).eraseEntry idx))
      | some client =>
        let own := client.cgiStdinFd = some stdinFd
        let (pieces, client) := w.flushLoop stdinFd a.writes 0 client
        let w := w.logAll (pieces.map (.flushed c own))
        if client.cgiStdinPending.isEmpty && client.cgiStdinEof then
          let (w, client) := (w.eraseCgiStdinFd stdinFd).closeCgiStdin client
          .after (w.access idx) (.of (idx, (w.setClient c client).eraseEntry idx))
        else
          let w := w.setClient c client
          let w := if client.cgiStdinPending.size < cgiBackpressureLimit then
            w.modifyFd client.fd PollFd.enablePollin else w
          if client.cgiStdinPending.isEmpty then
            .after (w.access idx) (.of (idx + 1, w.modifyEntry idx PollFd.disablePollout))
          else .of (idx + 1, w)

def bodyLoopTraced (a : Answers) (idx : ℕ) (c : Fd) :
    List ReadAnswer → List ℕ → ℕ → World → Client → Traced World
  | [], _, _, w, _ => .of w
  | answer :: answers, writes, totalRead, w, client =>
    if totalRead < fairIoLimit then
      if client.cgiStdinPending.size > cgiBackpressureLimit then
        .after (w.access idx) (.of (w.modifyEntry idx PollFd.disablePollin))
      else
        match w.read client.fd answer with
        | .eof => .of (w.endInput c client)
        | .error => .of (w.endInput c client)
        | .again => .of w
        | .data bytes =>
          match w.forwardBody a.now c client bytes (writes.head?.getD 0) with
          | (w, none) => .of w
          | (w, some client) => bodyLoopTraced a idx c answers writes.tail (totalRead + bytes.length) w client
    else .of w

/-- A dispatch uses the position of its client only when it fails. -/
def dispatchCgiTraced (w : World) (a : Answers) (c : Fd) (client : Client) (idx : ℕ) : Traced World :=
  match matchRoute (stripQueryString client.request.requestTarget) (w.config client) with
  | none => .of (w.setClient c client)
  | some _ =>
    match w.pipe a.stdinPipe with
    | none => .after (w.access idx) (.of (w.dispatchFailed a c client idx))
    | some (stdinRead, stdinWrite, w) =>
      match w.pipe a.stdoutPipe with
      | none => .after (w.access idx) (.of (w.dispatchFailed a c client idx))
      | some (stdoutRead, stdoutWrite, w) =>
        match a.fork with
        | none => .after (w.access idx) (.of (((((w.closeFd stdinRead).closeFd stdinWrite).closeFd
            stdoutRead).closeFd stdoutWrite).dispatchFailed a c client idx))
        | some pid => .of ((((w.log (.forked pid)).closeFd stdinRead).closeFd stdoutWrite).startCgiRun a c client
            pid stdinWrite stdoutRead)

def requestBytesTraced (w : World) (a : Answers) (c : Fd) (client : Client) (idx : ℕ) (bytes : Bytes) :
    Traced World :=
  match readRequest a (w.config client) client bytes with
  | (.wait, client') => .of ((w.log (.requestRead c (Answered client) .wait)).setClient c client')
  | (.reject response, client') =>
    .after (w.access idx) <| .of (((w.log (.requestRead c (Answered client) .answered)).respond c client'
      response).modifyEntry idx PollFd.onlyPollout)
  | (.dispatch, client') =>
    (w.log (.requestRead c (Answered client) .dispatched)).dispatchCgiTraced a c client' idx
  | (.answer response, client') =>
    .after (w.access idx) <| .of (((w.log (.requestRead c (Answered client) .answered)).respond c client'
      response).modifyEntry idx PollFd.enablePollout)

def handleClientReadTraced (w : World) (a : Answers) (idx : ℕ) : Traced (ℕ × World) :=
  let c := (w.entry idx).fd
  .after (w.access idx) <|
    match w.getClient c with
    | none => .of (idx + 1, w)
    | some client =>
      if client.cgiActive then
        (bodyLoopTraced a idx c (a.reads ++ [.again]) a.writes 0 w client).map (idx, ·)
      else
        let client := client.updateActivity a.now
        match w.read client.fd (a.reads.head?.getD .again) with
        | .eof => ((w.log (.requestRead c (Answered client) .removed)).removeClientTraced idx a.reaped
            .closedByClient).map (idx, ·)
        | .error => ((w.log (.requestRead c (Answered client) .removed)).removeClientTraced idx a.reaped
            .readError).map (idx, ·)
        | .again => .of (idx, w.setClient c client)
        | .data bytes => (w.requestBytesTraced a c client idx bytes).map (idx, ·)

def handlePollInputTraced (w : World) (a : Answers) (idx : ℕ) : Traced (Bool × ℕ × World) :=
  let p := w.entry idx
  .after (w.access idx) <|
    if p.revents.pollin then
      if w.isListeningSocket p.fd then .of (false, idx, w.acceptClient a p.fd)
      else if w.isCgiStdinFd p.fd then .of (true, idx + 1, w)
      else if w.isCgiFd p.fd then (w.handleCgiOutputTraced a idx).map (true, ·)
      else (w.handleClientReadTraced a idx).map (false, ·)
    else if p.revents.pollhup && w.isCgiFd p.fd then (w.handleCgiOutputTraced a idx).map (true, ·)
    else .of (false, idx, w)

def sendLoopTraced (a : Answers) (idx : ℕ) (fd : Fd) :
    List SendAnswer → ℕ → World → Client → Traced (Bool × World)
  | [], _, w, _ => .of (false, w)
  | answer :: answers, totalSent, w, client =>
    if totalSent < fairIoLimit then
      if client.cgiSendPending.size = 0 then
        .after (w.access idx) <|
          if client.cgiActive then .of (false, w.modifyEntry idx PollFd.disablePollout)
          else (((w.setClient fd client.clearResponse).modifyEntry idx PollFd.disablePollout).removeClientTraced
            idx a.reaped .complete).map (true, ·)
      else
        match w.send fd answer with
        | .again => .of (false, w)
        | .error => (w.removeClientTraced idx a.reaped .sendError).map (true, ·)
        | .accepted n =>
          let sent := min n client.cgiSendPending.size
          if sent > 0 then
            let (w, client) := w.sendPending a.now fd client sent (Nat.min_le_right _ _)
            sendLoopTraced a idx fd answers (totalSent + sent) w client
          else sendLoopTraced a idx fd answers totalSent w client
    else .of (false, w)

def sendResponseTraced (w : World) (a : Answers) (idx : ℕ) (fd : Fd) (client : Client) : Traced (Bool × World) :=
  let remaining := client.response.length - client.responseOffset
  match w.send client.fd (a.sends.head?.getD .again) with
  | .again => (w.removeClientTraced idx a.reaped .sendError).map (true, ·)
  | .error => (w.removeClientTraced idx a.reaped .sendError).map (true, ·)
  | .accepted n =>
    let sent := min n remaining
    let w := w.log (.sent fd false ((client.response.drop client.responseOffset).take sent))
    let client := (client.advanceResponseOffset sent).updateActivity a.now
    let w := w.setClient fd client
    if client.responseOffset ≥ client.response.length then
      .after (w.access idx) <| (((w.setClient fd client.clearResponse).modifyEntry idx
        PollFd.disablePollout).removeClientTraced idx a.reaped .complete).map (true, ·)
    else .of (false, w)

def handlePollOutputTraced (w : World) (a : Answers) (idx : ℕ) : Traced (Bool × ℕ × World) :=
  let p := w.entry idx
  .after (w.access idx) <|
    if p.revents.pollout then
      if w.isCgiStdinFd p.fd then (w.handleCgiStdinWritableTraced a idx).map (true, ·)
      else
        match w.getClient p.fd with
        | none => .of (false, idx, w)
        | some client =>
          if client.cgiActive ∨ client.cgiSendPending.size > 0 ∨ client.cgiHeadersSent then
            (sendLoopTraced a idx p.fd (a.sends ++ [.again]) 0 w client).map fun (removed, w) => (removed, idx, w)
          else if client.response = [] then .of (false, idx, w)
          else (w.sendResponseTraced a idx p.fd client).map fun (removed, w) => (removed, idx, w)
    else .of (false, idx, w)

/-! ## The same results -/

variable (w : World)

@[simp] theorem removeClientTraced_result (index : ℕ) (reaped : Bool) (reason : RemoveReason) :
    (w.removeClientTraced index reaped reason).result = w.removeClient index reaped reason := rfl

theorem handlePollErrorsTraced_result (a : Answers) (idx : ℕ) :
    (w.handlePollErrorsTraced a idx).result = w.handlePollErrors a idx := by
  simp [handlePollErrorsTraced, handlePollErrors]

theorem cgiOutputLoopTraced_result (a : Answers) (idx : ℕ) (cgiFd c : Fd) (answers : List ReadAnswer) (total : ℕ)
    (client : Client) : (cgiOutputLoopTraced a idx cgiFd c answers total w client).result =
      cgiOutputLoop a idx cgiFd c answers total w client := by
  induction answers generalizing w client total with
  | nil => rfl
  | cons answer answers ih =>
    simp only [cgiOutputLoopTraced, cgiOutputLoop, Traced.result_ite, Traced.result_of]
    split
    · cases w.read cgiFd answer with
      | data bytes => simp [ih]
      | again => rfl
      | eof => rfl
      | error => rfl
    · rfl

theorem handleCgiOutputTraced_result (a : Answers) (idx : ℕ) :
    (w.handleCgiOutputTraced a idx).result = w.handleCgiOutput a idx := by
  simp only [handleCgiOutputTraced, handleCgiOutput, Traced.result_after]
  cases w.cgiFdToClientFd[(w.entry idx).fd]? with
  | none => rfl
  | some c =>
    dsimp only
    cases w.getClient c with
    | none => rfl
    | some client => exact cgiOutputLoopTraced_result w a idx _ c _ 0 client

theorem handleCgiStdinWritableTraced_result (a : Answers) (idx : ℕ) :
    (w.handleCgiStdinWritableTraced a idx).result = w.handleCgiStdinWritable a idx := by
  simp only [handleCgiStdinWritableTraced, handleCgiStdinWritable, Traced.result_after]
  cases w.cgiStdinFdToClientFd[(w.entry idx).fd]? with
  | none => rfl
  | some c =>
    dsimp only
    cases w.getClient c with
    | none => rfl
    | some client =>
      dsimp only
      split
      · rfl
      · split
        · rfl
        · rfl

theorem bodyLoopTraced_result (a : Answers) (idx : ℕ) (c : Fd) (answers : List ReadAnswer) (writes : List ℕ)
    (total : ℕ) (client : Client) : (bodyLoopTraced a idx c answers writes total w client).result =
      bodyLoop a idx c answers writes total w client := by
  induction answers generalizing w client writes total with
  | nil => rfl
  | cons answer answers ih =>
    simp only [bodyLoopTraced, bodyLoop, Traced.result_ite, Traced.result_after, Traced.result_of]
    split
    · split
      · rfl
      · cases w.read client.fd answer with
        | data bytes =>
          dsimp only
          rcases w.forwardBody a.now c client bytes (writes.head?.getD 0) with ⟨v, _ | client'⟩
          · rfl
          · exact ih v writes.tail _ client'
        | again => rfl
        | eof => rfl
        | error => rfl
    · rfl

theorem dispatchCgiTraced_result (a : Answers) (c : Fd) (client : Client) (idx : ℕ) :
    (w.dispatchCgiTraced a c client idx).result = w.dispatchCgi a c client idx := by
  unfold dispatchCgiTraced dispatchCgi
  cases matchRoute (stripQueryString client.request.requestTarget) (w.config client) with
  | none => rfl
  | some route =>
    rcases w.pipe a.stdinPipe with _ | ⟨stdinRead, stdinWrite, v⟩
    · rfl
    · dsimp only
      rcases v.pipe a.stdoutPipe with _ | ⟨stdoutRead, stdoutWrite, v'⟩
      · rfl
      · cases a.fork with
        | none => rfl
        | some pid => rfl

theorem requestBytesTraced_result (a : Answers) (c : Fd) (client : Client) (idx : ℕ) (bytes : Bytes) :
    (w.requestBytesTraced a c client idx bytes).result = w.requestBytes a c client idx bytes := by
  unfold requestBytesTraced requestBytes
  rcases readRequest a (w.config client) client bytes with ⟨_ | _ | _ | _, client'⟩
  · rfl
  · rfl
  · exact dispatchCgiTraced_result _ a c client' idx
  · rfl

theorem handleClientReadTraced_result (a : Answers) (idx : ℕ) :
    (w.handleClientReadTraced a idx).result = w.handleClientRead a idx := by
  simp only [handleClientReadTraced, handleClientRead, Traced.result_after]
  cases w.getClient (w.entry idx).fd with
  | none => rfl
  | some client =>
    dsimp only
    split
    · simp [bodyLoopTraced_result]
    · cases w.read (client.updateActivity a.now).fd (a.reads.head?.getD .again) with
      | data bytes => simp [requestBytesTraced_result]
      | again => rfl
      | eof => rfl
      | error => rfl

theorem handlePollInputTraced_result (a : Answers) (idx : ℕ) :
    (w.handlePollInputTraced a idx).result = w.handlePollInput a idx := by
  simp [handlePollInputTraced, handlePollInput, handleCgiOutputTraced_result, handleClientReadTraced_result]

theorem sendLoopTraced_result (a : Answers) (idx : ℕ) (fd : Fd) (answers : List SendAnswer) (total : ℕ)
    (client : Client) : (sendLoopTraced a idx fd answers total w client).result =
      sendLoop a idx fd answers total w client := by
  induction answers generalizing w client total with
  | nil => rfl
  | cons answer answers ih =>
    unfold sendLoop
    change Traced.result (if total < fairIoLimit then _ else _) = _
    split
    · split
      · rw [Traced.result_after, Traced.result_ite]
        rfl
      · cases w.send fd answer with
        | accepted n =>
          dsimp only
          split
          · exact ih _ _ _
          · exact ih w total client
        | again => rfl
        | error => rfl
    · rfl

theorem sendResponseTraced_result (a : Answers) (idx : ℕ) (fd : Fd) (client : Client) :
    (w.sendResponseTraced a idx fd client).result = w.sendResponse a idx fd client := by
  unfold sendResponseTraced sendResponse
  cases w.send client.fd (a.sends.head?.getD .again) with
  | accepted n => simp
  | again => rfl
  | error => rfl

theorem handlePollOutputTraced_result (a : Answers) (idx : ℕ) :
    (w.handlePollOutputTraced a idx).result = w.handlePollOutput a idx := by
  simp only [handlePollOutputTraced, handlePollOutput, Traced.result_after, Traced.result_ite, Traced.result_map,
    Traced.result_of, handleCgiStdinWritableTraced_result]
  split
  · split
    · rfl
    · cases w.getClient (w.entry idx).fd with
      | none => rfl
      | some client => simp [sendLoopTraced_result, sendResponseTraced_result]
  · rfl

end World

namespace LoopState

/-! ## The loop -/

def timeoutStepTraced (w : World) (a : Answers) (now i : ℕ) : Traced (ℕ × World) :=
  let fd := (w.entry i).fd
  .after (w.access i) <|
    if w.isListeningSocket fd then .of (i + 1, w)
    else
      match w.getClient fd with
      | none => .of (i + 1, w)
      | some client =>
        if now > client.lastActivity + clientTimeout then
          (w.removeClientTraced i a.reaped .timeout).map (i, ·)
        else .of (i + 1, w)

theorem timeoutStepTraced_result (w : World) (a : Answers) (now i : ℕ) :
    (timeoutStepTraced w a now i).result = timeoutStep w a now i := by
  simp only [timeoutStepTraced, timeoutStep, Traced.result_after, Traced.result_ite, Traced.result_of]
  split
  · rfl
  · cases w.getClient (w.entry i).fd with
    | none => rfl
    | some client => simp

def stepTraced (s : LoopState) (a : Answers) : Traced LoopState :=
  let w := s.world
  match s.point with
  | .poll => .of (s.step a)
  | .errors idx =>
    if idx < w.pollFds.length then
      (w.handlePollErrorsTraced a idx).map fun
        | (true, w) => ⟨w, .errors idx⟩
        | (false, w) => ⟨w, .input idx⟩
    else .of ⟨w, .timeouts a.now 0⟩
  | .input idx =>
    (w.handlePollInputTraced a idx).map fun
      | (true, idx, v) => if v.aborted then ⟨w, .aborted⟩ else ⟨v, .errors idx⟩
      | (false, idx, v) => if v.aborted then ⟨w, .aborted⟩ else ⟨v, .output idx⟩
  | .output idx =>
    (w.handlePollOutputTraced a idx).bind fun
      | (true, idx, w) => .of ⟨w, .errors idx⟩
      | (false, idx, w) => .after (w.access idx) (.of ⟨w.modifyEntry idx PollFd.clearRevents, .errors (idx + 1)⟩)
  | .timeouts now i =>
    if i < w.pollFds.length then
      (timeoutStepTraced w a now i).map fun (i, w) => ⟨w, .timeouts now i⟩
    else .of ⟨w, .poll⟩
  | .stopped => .of s
  | .aborted => .of s

/-- The uses are those on the way to the next state. -/
theorem stepTraced_result (s : LoopState) (a : Answers) : (s.stepTraced a).result = s.step a := by
  obtain ⟨w, point⟩ := s
  cases point with
  | errors idx =>
    rcases hres : w.handlePollErrors a idx with ⟨_ | _, v⟩ <;>
      simp only [stepTraced, step, Traced.result_ite, Traced.result_map, Traced.result_of,
        handlePollErrorsTraced_result, hres]
  | input idx =>
    rcases hres : w.handlePollInput a idx with ⟨_ | _, j, v⟩ <;>
      simp only [stepTraced, step, Traced.result_map, handlePollInputTraced_result, hres]
  | output idx =>
    rcases hres : w.handlePollOutput a idx with ⟨_ | _, j, v⟩ <;>
      simp only [stepTraced, step, Traced.result_bind, Traced.result_after, Traced.result_of,
        handlePollOutputTraced_result, hres]
  | timeouts now i =>
    simp only [stepTraced, step, Traced.result_ite, Traced.result_map, Traced.result_of, timeoutStepTraced_result]
  | poll => rfl
  | stopped => rfl
  | aborted => rfl

/-- The uses of positions in one step of the loop. -/
def accesses (s : LoopState) (a : Answers) : List (ℕ × ℕ) := (s.stepTraced a).uses

theorem accesses_errors {w : World} {idx : ℕ} (a : Answers) (hi : idx < w.pollFds.length) :
    accesses ⟨w, .errors idx⟩ a = (w.handlePollErrorsTraced a idx).uses := by
  simp only [accesses, stepTraced, if_pos hi]
  rfl

theorem accesses_output (w : World) (idx : ℕ) (a : Answers) :
    accesses ⟨w, .output idx⟩ a = (w.handlePollOutputTraced a idx).uses ++
      match w.handlePollOutput a idx with
      | (true, _, _) => []
      | (false, idx, w) => [w.access idx] := by
  rw [← handlePollOutputTraced_result]
  simp only [accesses, stepTraced, Traced.bind]
  rcases (w.handlePollOutputTraced a idx).result with ⟨_ | _, j, v⟩ <;> rfl

end LoopState
end WebServ
