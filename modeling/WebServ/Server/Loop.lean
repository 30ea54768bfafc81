import WebServ.Server.Handlers

/-! # The event loop

One step of the loop is one call of a handler, with everything the operating system
answers during it. A pass goes over the entries by position; the handlers may drop
entries and move the position. A call that throws is the last one.
-/
namespace WebServ
open Search World

/-- Where the loop stands: before `poll`, at an entry, in the check for timeouts, or at its end. -/
inductive LoopPoint
  | poll
  | errors (idx : ℕ)
  | input (idx : ℕ)
  | output (idx : ℕ)
  | timeouts (now i : ℕ)
  | stopped
  /-- The process is gone. -/
  | aborted
deriving DecidableEq, Repr

structure LoopState where
  world : World
  point : LoopPoint := .poll

namespace LoopState

/-- The inactivity check of one entry. -/
def timeoutStep (w : World) (a : Answers) (now i : ℕ) : ℕ × World :=
  let fd := (w.entry i).fd
  if w.isListeningSocket fd then (i + 1, w)
  else
    match w.getClient fd with
    | none => (i + 1, w)
    | some client =>
      if now > client.lastActivity + clientTimeout then (i, w.removeClient i a.reaped .timeout)
      else (i + 1, w)

def step (s : LoopState) (a : Answers) : LoopState :=
  let w := s.world
  match s.point with
  | .poll =>
    match a.poll with
    | .interrupted => s
    | .failed => ⟨w, .stopped⟩
    | .ready revents => ⟨{ w with pollFds := reportAll w.pollFds revents }, .errors 0⟩
  | .errors idx =>
    if idx < w.pollFds.length then
      match w.handlePollErrors a idx with
      | (true, w) => ⟨w, .errors idx⟩
      | (false, w) => ⟨w, .input idx⟩
    else ⟨w, .timeouts a.now 0⟩
  | .input idx =>
    -- only what is done on input makes responses, and of a call that throws nothing is left but its end
    match w.handlePollInput a idx with
    | (true, idx, v) => if v.aborted then ⟨w, .aborted⟩ else ⟨v, .errors idx⟩
    | (false, idx, v) => if v.aborted then ⟨w, .aborted⟩ else ⟨v, .output idx⟩
  | .output idx =>
    match w.handlePollOutput a idx with
    | (true, idx, w) => ⟨w, .errors idx⟩
    | (false, idx, w) => ⟨w.modifyEntry idx PollFd.clearRevents, .errors (idx + 1)⟩
  | .timeouts now i =>
    if i < w.pollFds.length then
      match timeoutStep w a now i with
      | (i, w) => ⟨w, .timeouts now i⟩
    else ⟨w, .poll⟩
  | .stopped => s
  | .aborted => s

def run (s : LoopState) (as : List Answers) : LoopState := as.foldl step s

end LoopState

/-! ## The start -/

inductive SocketAnswer
  | failed
  | bindFailed (fd : Fd)
  | listenFailed (fd : Fd)
  | listening (fd : Fd)
deriving DecidableEq, Repr

namespace World

/-- The constructor's loop over the configured servers; it stops at the first failure. -/
def openSockets (w : World) : List ServerConfig → ℕ → List SocketAnswer → Option World
  | [], _, _ => some w
  | conf :: confs, i, .listening fd :: answers =>
    if fd ∈ w.opened then none
    else
      let socket : ServerSocket := ⟨fd, conf.port, i⟩
      let w := { w with opened := w.opened ++ [fd], serverFds := w.serverFds ++ [socket] }
      openSockets (w.pushPoll fd { pollin := true }) confs (i + 1) answers
  | _ :: _, _, _ => none

/-- A server that is ready to start. -/
def create (configs : List ServerConfig) (answers : List SocketAnswer) : Option World :=
  openSockets { configs } configs 0 answers

end World

/-- The states between two calls of handlers, in any run of any server. A process that is gone is left in the state
before the call that threw. -/
def Reachable (s : LoopState) : Prop :=
  ∃ configs sockets w as, World.create configs sockets = some w ∧ LoopState.run ⟨w, .poll⟩ as = s

/-! ## A server with one script

Runs of it show that the conditions of the results are met.
-/

def scriptServer : ServerConfig := { routes := [{ path := ascii "/", cgiExtension := ascii ".py" }] }

def scriptStart : LoopState := ⟨(World.create [scriptServer] [.listening 3]).getD {}, .poll⟩

theorem scriptStart_reachable (as : List Answers) : Reachable (scriptStart.run as) :=
  ⟨[scriptServer], [.listening 3], _, as, rfl, rfl⟩

/-- One pass over `entries` entries, with the same answers for each of them. -/
def pass (entries : ℕ) (revents : List Readiness) (a : Answers) : List Answers :=
  { a with poll := .ready revents } :: List.replicate (4 * entries + 2) a

/-- A client connects. -/
def connects : List Answers := pass 2 [{ pollin := true }] { accepts := [4] }

/-- The client sends bytes, and a script could be started with the pipes 6 and 7. -/
def sends (entries : ℕ) (bytes : Bytes) : List Answers := pass entries [{}, { pollin := true }]
  { reads := [.data bytes], stdinPipe := some (5, 6), stdoutPipe := some (7, 8), fork := some 9 }

end WebServ
