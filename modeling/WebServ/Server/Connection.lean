import WebServ.Lib.Runs
import WebServ.Server.Handlers

/-! # One connection

What the handlers do is seen from one connection: its client, or none, takes steps
that leave events in its history. Nothing here knows of descriptors or of polling.
-/
namespace WebServ
open Search World HTTPHandler

/-- The output side of a client is as it was; its pipe to the script may have been closed. -/
structure Client.SameOutput (client client' : Client) : Prop where
  fd : client'.fd = client.fd
  serverIndex : client'.serverIndex = client.serverIndex
  stdin : client'.cgiStdinFd = client.cgiStdinFd ∨ client'.cgiStdinFd = none
  stdout : client'.cgiStdoutFd = client.cgiStdoutFd
  active : client'.cgiActive = client.cgiActive
  output : client'.cgiOutput = client.cgiOutput
  headersSent : client'.cgiHeadersSent = client.cgiHeadersSent
  sendPending : client'.cgiSendPending = client.cgiSendPending
  response : client'.response = client.response
  responseOffset : client'.responseOffset = client.responseOffset

/-- A script was started for a client: nothing is read from it, and nothing sent. -/
structure Client.Started (client client' : Client) : Prop where
  fd : client'.fd = client.fd
  serverIndex : client'.serverIndex = client.serverIndex
  active : client'.cgiActive = true
  output : client'.cgiOutput = []
  headersSent : client'.cgiHeadersSent = false
  sendPending : client'.cgiSendPending = .empty
  response : client'.response = client.response
  responseOffset : client'.responseOffset = client.responseOffset

theorem Client.Started.of_same {client client' client'' : Client} (h : client'.Started client'')
    (ho : client.SameOutput client') : client.Started client'' where
  fd := h.fd.trans ho.fd
  serverIndex := h.serverIndex.trans ho.serverIndex
  active := h.active
  output := h.output
  headersSent := h.headersSent
  sendPending := h.sendPending
  response := h.response.trans ho.response
  responseOffset := h.responseOffset.trans ho.responseOffset

/-- Why a connection may be removed whatever was sent on it. -/
def RemoveReason.forced (reason : RemoveReason) : Prop :=
  reason = .hangup ∨ reason = .sendError ∨ reason = .timeout

/-- The response of a client is complete and sent. -/
def Drained (client : Client) : Prop :=
  client.cgiActive = false ∧ client.cgiSendPending.pending = [] ∧
    (client.cgiHeadersSent ∨ client.response ≠ [] ∧ client.responseOffset ≥ client.response.length)

/-- Events that say nothing about what was handed over or sent. -/
def Event.silent : Event → Bool
  | .bodyRead .. | .inputEnded .. | .requestRead _ _ .wait => true
  | _ => false

def Event.isDispatched : Event → Bool
  | .dispatched .. => true
  | _ => false

/-- What happened on a connection since its last script was started. -/
def scriptRun (history : List Event) : List Event := sinceLast Event.isDispatched history

theorem scriptRun_dispatched (history before after : List Event) (c stdin stdout : Fd)
    (h : after.any Event.isDispatched = false) :
    scriptRun (history ++ (before ++ .dispatched c stdin stdout :: after)) = after := by
  rw [← List.append_assoc]
  exact sinceLast_append_cons after rfl (by simpa using h)

/-- The head of a streamed response. -/
def cgiHead (headerPart : Bytes) : Bytes := (closing (parseCgiHeaders headerPart)).headerToString

/-- The response to a script that ended before its header did, if making it does not throw. -/
def cgiFallback (files : FileSystem) (conf : ServerConfig) (output : Bytes) : Option HTTPResponse :=
  if output = [] then HTTPResponse.error500 files (getErrorPage 500 conf)
  else parseCgiResponse files output conf

namespace Connection

/-- One step, with what the file system answers while it is taken. -/
inductive Step (configs : List ServerConfig) (files : FileSystem) (c : Fd) :
    Option Client → List Event → Option Client → Prop
  | accepted (serverIndex now : ℕ) :
      Step configs files c none [.accepted c false] (some (Client.create c serverIndex now))
  | acceptedAgain (client : Client) : Step configs files c (some client) [.accepted c true] (some client)
  | removed (o : Option Client) {reason : RemoveReason} (hr : reason.forced) :
      Step configs files c o [.removed c reason] none
  | closedByRead {client : Client} (reason : RemoveReason) (ha : client.cgiActive = false) :
      Step configs files c (some client)
        [.requestRead c (Answered client) .removed, .removed c reason] none
  | completed {client : Client} (hd : Drained client) :
      Step configs files c (some client) [.removed c .complete] none
  | idle {client client' : Client} (es : List Event) (ho : client.SameOutput client')
      (hp : client'.cgiStdinPending = client.cgiStdinPending) (hs : ∀ e ∈ es, e.silent) :
      Step configs files c (some client) es (some client')
  | forwarded {client client' : Client} (piece : Bytes) (taken : ℕ) (ha : client.cgiActive = true)
      (ho : client.SameOutput client')
      (hp : client'.cgiStdinPending.pending = client.cgiStdinPending.pending ++ piece.drop taken) :
      Step configs files c (some client)
        [.forwarded c client.cgiStdinPending.pending piece taken] (some client')
  | flushed {client client' : Client} (own : Bool) (pieces : List Bytes) (ho : client.SameOutput client')
      (hp : client.cgiStdinPending.pending = pieces.flatten ++ client'.cgiStdinPending.pending) :
      Step configs files c (some client) (pieces.map (.flushed c own)) (some client')
  | outputPart {client : Client} (bytes : Bytes) (ha : client.cgiActive = true)
      (hs : client.cgiHeadersSent = false)
      (hc : cutLine (ascii "\r\n\r\n") (client.cgiOutput ++ bytes) = none) :
      Step configs files c (some client) [.cgiRead c bytes] (some (client.appendCgiOutput bytes))
  | outputHead {client : Client} {bytes headerPart body : Bytes} (ha : client.cgiActive = true)
      (hs : client.cgiHeadersSent = false)
      (hc : cutLine (ascii "\r\n\r\n") (client.cgiOutput ++ bytes) = some (headerPart, body)) :
      Step configs files c (some client) [.cgiRead c bytes, .streamed c true (cgiHead headerPart ++ body)]
        (some { ((client.appendCgiOutput bytes).appendCgiSendPending (cgiHead headerPart)).appendCgiSendPending
          body with cgiHeadersSent := true })
  | outputBody {client : Client} (bytes : Bytes) (ha : client.cgiActive = true)
      (hs : client.cgiHeadersSent = true) :
      Step configs files c (some client) [.cgiRead c bytes, .streamed c false bytes]
        (some (client.appendCgiSendPending bytes))
  | streamEnded {client : Client} (stdinOpen : Bool) (ha : client.cgiActive = true)
      (hs : client.cgiHeadersSent = true) :
      Step configs files c (some client) [.cgiEnded c stdinOpen, .finalized c] (some { client.clearBuffer with
        cgiStdoutFd := none, cgiStdinFd := none, cgiPid := none, cgiActive := false })
  | outputFallback {client : Client} (stdinOpen : Bool) (ha : client.cgiActive = true)
      (hs : client.cgiHeadersSent = false) {response : HTTPResponse}
      (hr : cgiFallback files ((configs[client.serverIndex]?).getD {}) client.cgiOutput = some response) :
      Step configs files c (some client) [.cgiEnded c stdinOpen, .responded c (closing response).toString, .finalized c]
        (some { (client.setResponse (closing response).toString).clearBuffer with
          cgiStdoutFd := none, cgiStdinFd := none, cgiPid := none, cgiActive := false })
  | answered {client client' : Client} (outcome : ReadOutcome) (response : HTTPResponse)
      (hd : outcome = .answered ∨ outcome = .dispatched) (ha : client.cgiActive = false)
      (ho : client.SameOutput client') :
      Step configs files c (some client)
        [.requestRead c (Answered client) outcome, .responded c (closing response).toString]
        (some (client'.setResponse (closing response).toString).clearBuffer)
  | dispatched {client client' : Client} (stdin stdout : Fd) (body : Bytes) (taken : ℕ)
      (ha : client.cgiActive = false) (hs : client.Started client')
      (hp : client'.cgiStdinPending.pending = body.drop taken) :
      Step configs files c (some client) [.requestRead c (Answered client) .dispatched,
        .dispatched c stdin stdout, .forwarded c [] body taken] (some client')
  | sentPending {client : Client} (now sent : ℕ) (hs : sent ≤ client.cgiSendPending.size) :
      Step configs files c (some client) [.sent c true (client.cgiSendPending.pending.take sent)]
        (some ((client.consumeCgiSendPending sent hs).updateActivity now))
  | sentResponse {client : Client} (now sent : ℕ) (ha : client.cgiActive = false)
      (hs : client.cgiHeadersSent = false) :
      Step configs files c (some client)
        [.sent c false ((client.response.drop client.responseOffset).take sent)]
        (some ((client.advanceResponseOffset sent).updateActivity now))

/-- What can happen to a connection in one call. -/
abbrev Steps (configs : List ServerConfig) (files : FileSystem) (c : Fd) :
    Option Client → List Event → Option Client → Prop :=
  Run (Step configs files c)

/-- All that can happen to a connection. -/
abbrev AnySteps (configs : List ServerConfig) (c : Fd) : Option Client → List Event → Option Client → Prop :=
  Run fun o es o' => ∃ files, Step configs files c o es o'

end Connection

/-- What a client keeps in every state of the server. -/
structure Client.Sound (c : Fd) (client : Client) : Prop where
  fd : client.fd = c
  idle : client.cgiActive = false → client.cgiStdinFd = none ∧ client.cgiStdoutFd = none
  queued : client.cgiHeadersSent = false → client.cgiSendPending.pending = []

theorem Client.Sound.of_same {c : Fd} {client client' : Client} (h : client.Sound c)
    (ho : client.SameOutput client') : client'.Sound c where
  fd := ho.fd.trans h.fd
  idle ha := by
    obtain ⟨hi, ho'⟩ := h.idle (ho.active ▸ ha)
    exact ⟨ho.stdin.elim (fun he => he.trans hi) id, ho.stdout.trans ho'⟩
  queued hs := by
    rw [ho.sendPending]
    exact h.queued (ho.headersSent ▸ hs)

/-- The steps of a connection keep its client sound. -/
theorem Connection.Step.sound {configs : List ServerConfig} {files : FileSystem} {c : Fd} {o o' : Option Client}
    {es : List Event} (h : Step configs files c o es o') (hs : ∀ client ∈ o, client.Sound c) :
    ∀ client ∈ o', client.Sound c := by
  cases h with
  | accepted serverIndex now =>
    rintro client ⟨⟩
    exact ⟨rfl, fun _ => ⟨rfl, rfl⟩, fun _ => rfl⟩
  | acceptedAgain client => exact hs
  | removed o hr => simp
  | closedByRead reason ha => simp
  | completed hd => simp
  | idle es ho hp hsilent =>
    rintro client ⟨⟩
    exact (hs _ rfl).of_same ho
  | forwarded piece taken ha ho hp =>
    rintro client ⟨⟩
    exact (hs _ rfl).of_same ho
  | flushed own pieces ho hp =>
    rintro client ⟨⟩
    exact (hs _ rfl).of_same ho
  | outputPart bytes ha hsent hc =>
    rintro client ⟨⟩
    exact ⟨(hs _ rfl).fd, (hs _ rfl).idle, (hs _ rfl).queued⟩
  | outputHead ha hsent hc =>
    rintro client ⟨⟩
    exact ⟨(hs _ rfl).fd, (hs _ rfl).idle, nofun⟩
  | @outputBody client₀ bytes ha hsent =>
    rintro client ⟨⟩
    exact ⟨(hs _ rfl).fd, (hs _ rfl).idle, fun hn => by simp [Client.appendCgiSendPending, hsent] at hn⟩
  | @streamEnded client₀ stdinOpen ha hsent =>
    rintro client ⟨⟩
    exact ⟨(hs _ rfl).fd, fun _ => ⟨rfl, rfl⟩, fun hn => by simp [Client.clearBuffer, hsent] at hn⟩
  | outputFallback stdinOpen ha hsent hr =>
    rintro client ⟨⟩
    exact ⟨(hs _ rfl).fd, fun _ => ⟨rfl, rfl⟩, (hs _ rfl).queued⟩
  | answered outcome response hd ha ho =>
    rintro client ⟨⟩
    have h := (hs _ rfl).of_same ho
    exact ⟨h.fd, h.idle, h.queued⟩
  | dispatched stdin stdout body taken ha hst hp =>
    rintro client ⟨⟩
    exact ⟨hst.fd.trans (hs _ rfl).fd, fun hn => by simp [hst.active] at hn, fun _ => by simp [hst.sendPending]⟩
  | @sentPending client₀ now sent hsize =>
    rintro client ⟨⟩
    refine ⟨(hs _ rfl).fd, (hs _ rfl).idle, fun hn => ?_⟩
    have hq := (hs _ rfl).queued hn
    simp [Client.consumeCgiSendPending, Client.updateActivity, hq]
  | sentResponse now sent ha hsent =>
    rintro client ⟨⟩
    exact ⟨(hs _ rfl).fd, (hs _ rfl).idle, (hs _ rfl).queued⟩

theorem Connection.Steps.sound {configs : List ServerConfig} {files : FileSystem} {c : Fd} {o o' : Option Client}
    {es : List Event} (h : Steps configs files c o es o') (hs : ∀ client ∈ o, client.Sound c) :
    ∀ client ∈ o', client.Sound c := by
  induction h with
  | refl => exact hs
  | tail _ hstep ih => exact hstep.sound ih

end WebServ
