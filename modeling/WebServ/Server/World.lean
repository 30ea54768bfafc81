import WebServ.Client.Client
import WebServ.Config.Route
import WebServ.Http.Response
import WebServ.Lib.KeyedList

/-! # The server and what surrounds it

The state holds the containers of the server, the descriptors the process has
open, and a record of what happened. The operating system answers every call; an
answer that it cannot give (a descriptor that is open already, bytes accepted on
a closed one) counts as a failure of the call.
-/
namespace WebServ
open KeyedList

/-! ## Limits -/

def readBufferSize : ℕ := 65536
def clientTimeout : ℕ := 120
def cgiBackpressureLimit : ℕ := 4194304
/-- Bytes moved for one descriptor before the next one has its turn. -/
def fairIoLimit : ℕ := 262144

/-! ## Polling -/

structure Interest where
  pollin : Bool := false
  pollout : Bool := false
deriving DecidableEq, Repr

structure Readiness where
  pollin : Bool := false
  pollout : Bool := false
  pollhup : Bool := false
  pollerr : Bool := false
  pollnval : Bool := false
deriving DecidableEq, Repr

structure PollFd where
  fd : Fd
  events : Interest
  revents : Readiness := {}
deriving DecidableEq, Repr

namespace PollFd

def enablePollin (p : PollFd) : PollFd := { p with events := { p.events with pollin := true } }
def disablePollin (p : PollFd) : PollFd := { p with events := { p.events with pollin := false } }
def enablePollout (p : PollFd) : PollFd := { p with events := { p.events with pollout := true } }
def disablePollout (p : PollFd) : PollFd := { p with events := { p.events with pollout := false } }
def onlyPollout (p : PollFd) : PollFd := { p with events := { pollout := true } }
def clearRevents (p : PollFd) : PollFd := { p with revents := {} }

/-- What `poll` reports: the requested events, and conditions that are always reported. -/
def report (p : PollFd) (r : Readiness) : PollFd :=
  { p with revents := { r with
      pollin := r.pollin && p.events.pollin
      pollout := r.pollout && p.events.pollout } }

end PollFd

def reportAll : List PollFd → List Readiness → List PollFd
  | [], _ => []
  | p :: ps, [] => p.report {} :: reportAll ps []
  | p :: ps, r :: rs => p.report r :: reportAll ps rs

/-! ## Answers of the operating system -/

inductive ReadAnswer
  | data (bytes : Bytes)
  | eof
  | again
  | error
deriving DecidableEq, Repr

inductive SendAnswer
  | accepted (bytes : ℕ)
  | again
  | error
deriving DecidableEq, Repr

inductive PollAnswer
  | interrupted
  | failed
  | ready (revents : List Readiness)
deriving DecidableEq, Repr

/-- The answers given during one call of a handler, in the order of the calls. A
list that ends stands for a call that would block or fail. -/
structure Answers where
  now : ℕ := 0
  poll : PollAnswer := .interrupted
  accepts : List Fd := []
  reads : List ReadAnswer := []
  writes : List ℕ := []
  sends : List SendAnswer := []
  stdinPipe : Option (Fd × Fd) := none
  stdoutPipe : Option (Fd × Fd) := none
  fork : Option ℕ := none
  reaped : Bool := false
  files : FileSystem := {}
  execute : Bytes := []

/-! ## What happens -/

inductive RemoveReason
  | hangup | closedByClient | readError | sendError | complete | timeout
deriving DecidableEq, Repr

/-- How a read outside a CGI run ends for its connection. -/
inductive ReadOutcome
  | wait | answered | dispatched | removed
deriving DecidableEq, Repr

inductive Event
  /-- A descriptor was returned, while `poll_fds_` held its number or not. -/
  | opened (fd : Fd) (stillPolled : Bool)
  | closed (fd : Fd) (wasOpen : Bool)
  /-- A connection was accepted, under a number that was known or not. -/
  | accepted (client : Fd) (known : Bool)
  | forked (pid : ℕ)
  | waited (pid : ℕ) (reaped : Bool)
  | dispatched (client stdin stdout : Fd)
  /-- Bytes of the body read for the script. -/
  | bodyRead (client : Fd) (bytes : Bytes)
  /-- A piece handed over for the script, what was pending then, and how much the pipe took. -/
  | forwarded (client : Fd) (pending piece : Bytes) (taken : ℕ)
  /-- Pending bytes the pipe took; `own` tells that it is the pipe of this client. -/
  | flushed (client : Fd) (own : Bool) (bytes : Bytes)
  | inputEnded (client : Fd) (pendingEmpty stdinOpen : Bool)
  | cgiRead (client : Fd) (bytes : Bytes)
  | streamed (client : Fd) (opening : Bool) (bytes : Bytes)
  | cgiEnded (client : Fd) (stdinOpen : Bool)
  | finalized (client : Fd)
  | requestRead (client : Fd) (answered : Bool) (outcome : ReadOutcome)
  | responded (client : Fd) (response : Bytes)
  | sent (client : Fd) (onCgiPath : Bool) (bytes : Bytes)
  | removed (client : Fd) (reason : RemoveReason)
deriving DecidableEq, Repr

/-- The connection that an event belongs to. -/
def Event.client : Event → Option Fd
  | .opened .. | .closed .. | .forked .. | .waited .. => none
  | .accepted c _ | .dispatched c _ _ | .bodyRead c _ | .forwarded c _ _ _ | .flushed c _ _
  | .inputEnded c _ _ | .cgiRead c _ | .streamed c _ _ | .cgiEnded c _ | .finalized c
  | .requestRead c _ _ | .responded c _ | .sent c _ _ | .removed c _ => some c

structure ServerSocket where
  fd : Fd
  port : ℤ
  index : ℕ
deriving DecidableEq, Repr

structure World where
  configs : List ServerConfig := []
  serverFds : List ServerSocket := []
  pollFds : List PollFd := []
  clients : Std.ExtTreeMap Fd Client := ∅
  cgiFdToClientFd : Std.ExtTreeMap Fd Fd := ∅
  cgiStdinFdToClientFd : Std.ExtTreeMap Fd Fd := ∅
  opened : List Fd := []
  trace : List Event := []
  /-- Something was thrown, and nothing catches it. -/
  aborted : Bool := false

namespace World

/-- The call goes on as if nothing was thrown, but the loop does not take what comes of it. -/
def mark (w : World) (thrown : Bool) : World := { w with aborted := w.aborted || thrown }

def log (w : World) (e : Event) : World := { w with trace := w.trace ++ [e] }

def logAll (w : World) (es : List Event) : World := { w with trace := w.trace ++ es }

/-- What happened on the connections that had the number `c`. -/
def history (w : World) (c : Fd) : List Event := w.trace.filter (·.client = some c)

/-- The descriptors that are polled, in the order of their entries. -/
@[simp] abbrev fds (w : World) : List Fd := w.pollFds.map PollFd.fd

def polls (w : World) (fd : Fd) : Bool := fd ∈ w.fds

/-! ## System calls -/

def openFd (w : World) (fd : Fd) : World :=
  { w with opened := w.opened ++ [fd] }.log (.opened fd (w.polls fd))

def closeFd (w : World) (fd : Fd) : World :=
  { w with opened := w.opened.erase fd }.log (.closed fd (fd ∈ w.opened))

def read (w : World) (fd : Fd) (answer : ReadAnswer) : ReadAnswer :=
  if fd ∈ w.opened then
    match answer with
    | .data bytes => if bytes = [] then .eof else .data (bytes.take readBufferSize)
    | other => other
  else .error

/-- The bytes of `len` that `write` accepts. -/
def write (w : World) (fd : Fd) (len answer : ℕ) : ℕ := if fd ∈ w.opened then min answer len else 0

def send (w : World) (fd : Fd) (answer : SendAnswer) : SendAnswer :=
  if fd ∈ w.opened then answer else .error

/-- The read end and the write end of a new pipe. -/
def pipe (w : World) (answer : Option (Fd × Fd)) : Option (Fd × Fd × World) :=
  match answer with
  | none => none
  | some (r, t) =>
    if r ∈ w.opened ∨ t ∈ w.opened ∨ r = t then none else some (r, t, (w.openFd r).openFd t)

theorem write_le (w : World) (fd : Fd) (len answer : ℕ) : w.write fd len answer ≤ len := by
  unfold write
  split <;> omega

/-! ## Containers -/

def getClient (w : World) (fd : Fd) : Option Client := w.clients[fd]?

def setClient (w : World) (fd : Fd) (client : Client) : World :=
  { w with clients := w.clients.insert fd client }

def eraseClient (w : World) (fd : Fd) : World := { w with clients := w.clients.erase fd }

def config (w : World) (client : Client) : ServerConfig := (w.configs[client.serverIndex]?).getD {}

def isListeningSocket (w : World) (fd : Fd) : Bool := w.serverFds.any (·.fd = fd)
def isCgiFd (w : World) (fd : Fd) : Bool := w.cgiFdToClientFd.contains fd
def isCgiStdinFd (w : World) (fd : Fd) : Bool := w.cgiStdinFdToClientFd.contains fd

/-- The entry at a position of the event pass; behind the last one nothing is ready. -/
def entry (w : World) (idx : ℕ) : PollFd := (w.pollFds[idx]?).getD ⟨0, {}, {}⟩

theorem entry_eq {w : World} {idx : ℕ} {p : PollFd} (h : w.pollFds[idx]? = some p) : w.entry idx = p := by
  simp [entry, h]

def modifyEntry (w : World) (idx : ℕ) (f : PollFd → PollFd) : World :=
  { w with pollFds := w.pollFds.modify idx f }

/-- The loops that look for the entry of a descriptor and change its mask. -/
def modifyFd (w : World) (fd : Fd) (f : PollFd → PollFd) : World :=
  { w with pollFds := updateFirst PollFd.fd fd f w.pollFds }

def pushPoll (w : World) (fd : Fd) (events : Interest) : World :=
  { w with pollFds := w.pollFds ++ [{ fd, events }] }

def eraseEntry (w : World) (idx : ℕ) : World := { w with pollFds := w.pollFds.eraseIdx idx }

def erasePollFd (w : World) (fd : Fd) : World :=
  { w with pollFds := eraseFirst PollFd.fd fd w.pollFds }

def eraseCgiFd (w : World) (fd : Fd) : World :=
  { w with cgiFdToClientFd := w.cgiFdToClientFd.erase fd }
def eraseCgiStdinFd (w : World) (fd : Fd) : World :=
  { w with cgiStdinFdToClientFd := w.cgiStdinFdToClientFd.erase fd }
def insertCgiFd (w : World) (fd client : Fd) : World :=
  { w with cgiFdToClientFd := w.cgiFdToClientFd.insert fd client }
def insertCgiStdinFd (w : World) (fd client : Fd) : World :=
  { w with cgiStdinFdToClientFd := w.cgiStdinFdToClientFd.insert fd client }

/-! ## The parts of a client that own descriptors -/

def closeCgiStdin (w : World) (client : Client) : World × Client :=
  match client.cgiStdinFd with
  | some fd => (w.closeFd fd, { client with cgiStdinFd := none })
  | none => (w, client)

def closeCgiStdout (w : World) (client : Client) : World × Client :=
  match client.cgiStdoutFd with
  | some fd => (w.closeFd fd, { client with cgiStdoutFd := none })
  | none => (w, client)

@[simp] theorem closeCgiStdin_client (w : World) (client : Client) :
    (w.closeCgiStdin client).2 = { client with cgiStdinFd := none } := by
  unfold closeCgiStdin
  split
  · rfl
  · next h => cases client; subst h; rfl

@[simp] theorem closeCgiStdout_client (w : World) (client : Client) :
    (w.closeCgiStdout client).2 = { client with cgiStdoutFd := none } := by
  unfold closeCgiStdout
  split
  · rfl
  · next h => cases client; subst h; rfl

/-- Closes both pipes and waits for the child without blocking. -/
def finishCgi (w : World) (client : Client) (reaped : Bool) : World × Client :=
  let (w, client) := w.closeCgiStdout client
  let (w, client) := w.closeCgiStdin client
  match client.cgiPid with
  | some pid => (w.log (.waited pid reaped), { client with cgiPid := none, cgiActive := false })
  | none => (w, { client with cgiActive := false })

theorem finishCgi_client (w : World) (client : Client) (reaped : Bool) :
    (w.finishCgi client reaped).2 = { client with
      cgiStdoutFd := none, cgiStdinFd := none, cgiPid := none, cgiActive := false } := by
  simp only [finishCgi, closeCgiStdin_client, closeCgiStdout_client]
  split
  · rfl
  · next h => cases client; simp_all

end World
end WebServ
