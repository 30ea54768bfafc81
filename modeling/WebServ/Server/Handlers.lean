import WebServ.Http.Handler
import WebServ.Server.World

/-! # The handlers of the event loop

Each handler takes the position of its entry and the answers it will get, and
returns whether the pass goes on at a new position. A client is read from the
container once, changed along the way and written back. A handler that throws returns
a marked world.
-/
namespace WebServ.World
open Search KeyedList HTTPHandler

/-- Every response closes the connection. -/
def closing (r : HTTPResponse) : HTTPResponse := r.setHeader (ascii "Connection") (ascii "close")

/-- The text of a response; where there is none because its making has thrown, the text is not seen by anyone. -/
def responseText (response : Option HTTPResponse) : Bytes := (closing (response.getD {})).toString

/-- Stores a response that is to be sent, and forgets the request. -/
def respond (w : World) (c : Fd) (client : Client) (response : Option HTTPResponse) : World :=
  ((w.mark response.isNone).log (.responded c (responseText response))).setClient c
    (client.setResponse (responseText response)).clearBuffer

/-! ## Removal -/

/-- Drops the entry of a descriptor that stands somewhere beside the one at `index`. -/
def dropBeside (w : World) (fd : Fd) (index : ℕ) : World × ℕ :=
  match w.pollFds.findIdx? (·.fd = fd) with
  | some i => (w.erasePollFd fd, if i < index then index - 1 else index)
  | none => (w, index)

def removeClient (w : World) (index : ℕ) (reaped : Bool) (reason : RemoveReason) : World :=
  let fd := (w.entry index).fd
  let (w, index) := match w.getClient fd with
    | none => (w, index)
    | some client =>
      let (w, index) := match client.cgiStdoutFd with
        | some cgiOut => (w.eraseCgiFd cgiOut).dropBeside cgiOut index
        | none => (w, index)
      let (w, index) := match client.cgiStdinFd with
        | some cgiIn => (w.eraseCgiStdinFd cgiIn).dropBeside cgiIn index
        | none => (w, index)
      let (w, client) := w.finishCgi client reaped
      (w.setClient fd client, index)
  (((w.closeFd fd).eraseClient fd).eraseEntry index).log (.removed fd reason)

/-! ## Output of scripts -/

/-- Polls a client for output, whose entry is expected at `idx`. -/
def enableOutput (w : World) (idx : ℕ) (fd : Fd) : World :=
  if idx < w.pollFds.length ∧ (w.entry idx).fd = fd then w.modifyEntry idx PollFd.enablePollout
  else w.modifyFd fd PollFd.enablePollout

/-- CGI stdout ended: the response is complete, or made from what there is. -/
def finalizeCgi (w : World) (a : Answers) (c : Fd) (client : Client) (idx : ℕ) : World :=
  let conf := w.config client
  let w := w.log (.cgiEnded c client.cgiStdinFd.isSome)
  if client.cgiHeadersSent then
    let (w, client) := w.finishCgi client a.reaped
    ((w.modifyFd client.fd PollFd.enablePollout).setClient c client.clearBuffer).log (.finalized c)
  else
    let response := if client.cgiOutput = [] then HTTPResponse.error500 a.files (getErrorPage 500 conf)
      else parseCgiResponse a.files client.cgiOutput conf
    let (w, client) := w.finishCgi client a.reaped
    ((w.respond c client response).enableOutput idx client.fd).log (.finalized c)

/-- The client fd is looked up before the entry of the pipe is dropped. -/
def cgiOutputEnd (w : World) (a : Answers) (idx : ℕ) (cgiFd c : Fd) (client : Client) : World :=
  let clientIdx := (w.pollFds.findIdx? (·.fd = client.fd)).getD 0
  let w := ((w.eraseCgiFd cgiFd).closeFd cgiFd).eraseEntry idx
  let clientIdx := if idx < clientIdx then clientIdx - 1 else clientIdx
  w.finalizeCgi a c { client with cgiStdoutFd := none } clientIdx

/-- Bytes from the script: part of its header, the end of it, or body bytes. -/
def cgiOutputRead (w : World) (c : Fd) (client : Client) (bytes : Bytes) : World × Client :=
  let w := w.log (.cgiRead c bytes)
  if client.cgiHeadersSent then
    let client := client.appendCgiSendPending bytes
    (((w.setClient c client).modifyFd client.fd PollFd.enablePollout).log (.streamed c false bytes), client)
  else
    let client := client.appendCgiOutput bytes
    match cutLine (ascii "\r\n\r\n") client.cgiOutput with
    | none => (w.setClient c client, client)
    | some (headerPart, body) =>
      let httpHeader := (closing (parseCgiHeaders headerPart)).headerToString
      let client := (client.appendCgiSendPending httpHeader).appendCgiSendPending body
      let client := { client with cgiHeadersSent := true }
      (((w.setClient c client).modifyFd client.fd PollFd.enablePollout).log
        (.streamed c true (httpHeader ++ body)), client)

def cgiOutputLoop (a : Answers) (idx : ℕ) (cgiFd c : Fd) :
    List ReadAnswer → ℕ → World → Client → ℕ × World
  | [], _, w, _ => (idx + 1, w)
  | answer :: answers, totalRead, w, client =>
    if totalRead < fairIoLimit then
      match w.read cgiFd answer with
      | .data bytes =>
        let (w, client) := w.cgiOutputRead c client bytes
        if client.cgiSendPending.size > cgiBackpressureLimit then
          (idx + 1, w.modifyEntry idx PollFd.disablePollin)
        else cgiOutputLoop a idx cgiFd c answers (totalRead + bytes.length) w client
      | .again => (idx + 1, w)
      | .eof => (idx, w.cgiOutputEnd a idx cgiFd c client)
      | .error => (idx, w.cgiOutputEnd a idx cgiFd c client)
    else (idx + 1, w)

def handleCgiOutput (w : World) (a : Answers) (idx : ℕ) : ℕ × World :=
  let cgiFd := (w.entry idx).fd
  match w.cgiFdToClientFd[cgiFd]? with
  | none => (idx, ((w.closeFd cgiFd).eraseCgiFd cgiFd).eraseEntry idx)
  | some c =>
    match w.getClient c with
    | none => (idx, ((w.closeFd cgiFd).eraseCgiFd cgiFd).eraseEntry idx)
    | some client => cgiOutputLoop a idx cgiFd c (a.reads ++ [.again]) 0 w client

/-! ## Input of scripts -/

/-- Writes pending bytes while the pipe takes them: the pieces taken and the client after it. -/
def flushLoop (w : World) (stdinFd : Fd) : List ℕ → ℕ → Client → List Bytes × Client
  | [], _, client => ([], client)
  | answer :: answers, totalWritten, client =>
    if client.cgiStdinPending.isEmpty = false ∧ totalWritten < fairIoLimit then
      let written := w.write stdinFd client.cgiStdinPending.size answer
      if written > 0 then
        let piece := client.cgiStdinPending.pending.take written
        let (pieces, client) := flushLoop w stdinFd answers (totalWritten + written)
          (client.consumeCgiStdinPending written (w.write_le _ _ _))
        (piece :: pieces, client)
      else ([], client)
    else ([], client)

def handleCgiStdinWritable (w : World) (a : Answers) (idx : ℕ) : ℕ × World :=
  let stdinFd := (w.entry idx).fd
  match w.cgiStdinFdToClientFd[stdinFd]? with
  | none => (idx, (w.closeFd stdinFd).eraseEntry idx)
  | some c =>
    match w.getClient c with
    | none => (idx, ((w.eraseCgiStdinFd stdinFd).closeFd stdinFd).eraseEntry idx)
    | some client =>
      let own := client.cgiStdinFd = some stdinFd
      let (pieces, client) := w.flushLoop stdinFd a.writes 0 client
      let w := w.logAll (pieces.map (.flushed c own))
      if client.cgiStdinPending.isEmpty && client.cgiStdinEof then
        let (w, client) := (w.eraseCgiStdinFd stdinFd).closeCgiStdin client
        (idx, (w.setClient c client).eraseEntry idx)
      else
        let w := w.setClient c client
        let w := if client.cgiStdinPending.size < cgiBackpressureLimit then
          w.modifyFd client.fd PollFd.enablePollin else w
        let w := if client.cgiStdinPending.isEmpty then w.modifyEntry idx PollFd.disablePollout else w
        (idx + 1, w)

/-! ## Dispatch -/

/-- A failed dispatch is answered with an error. -/
def dispatchFailed (w : World) (a : Answers) (c : Fd) (client : Client) (idx : ℕ) : World :=
  let err := HTTPResponse.error500 a.files (getErrorPage 500 (w.config client))
  (w.respond c client err).modifyEntry idx PollFd.enablePollout

/-- What the new CGI run knows of the request: the client, the first piece of the body
for the script, and whether that is all of it. -/
def cgiInput (client : Client) (pid stdinFd stdoutFd : ℕ) : Client × Bytes × Bool :=
  let req := client.request
  let clStr := req.getHeaderValue (ascii "content-length")
  let cl := if clStr = [] then 0 else toSizeT (atol clStr)
  let teChunked := contains (ascii "chunked")
    ((req.getHeaderValue (ascii "transfer-encoding")).map toLower)
  let bodyComplete := !teChunked && (cl = 0 || req.body.length ≥ cl)
  let client := { client.startCgi pid stdinFd stdoutFd with cgiBodyContentLength := cl }
  if teChunked then
    let decoder := Client.initCgiChunkDecoder req.getChunkedState req.chunkRemaining
    if req.buffer = [] then ({ client with cgiChunked := true, cgiChunk := decoder }, req.body, bodyComplete)
    else
      let r := Client.decodeChunkedForCgi decoder req.buffer
      ({ client with cgiChunked := true, cgiChunk := r.decoder }, req.body ++ r.decoded, bodyComplete || r.eof)
  else (client, req.body, bodyComplete)

/-- The end of a body that is known at dispatch: the pipe closes when nothing is pending. -/
def closeInput (w : World) (client : Client) (bodyComplete : Bool) : World × Client :=
  if bodyComplete then
    if client.cgiStdinPending.isEmpty then w.closeCgiStdin client
    else (w, { client with cgiStdinEof := true })
  else (w, client)

def registerPipes (w : World) (client : Client) (stdoutFd : Fd) (bodyComplete : Bool) : World :=
  let w := (w.insertCgiFd stdoutFd client.fd).pushPoll stdoutFd { pollin := true }
  match client.cgiStdinFd with
  | some fd =>
    if !bodyComplete || !client.cgiStdinPending.isEmpty then
      (w.insertCgiStdinFd fd client.fd).pushPoll fd { pollout := true }
    else w
  | none => w

/-- The child runs: hands over the first piece of the body and registers the pipes. -/
def startCgiRun (w : World) (a : Answers) (c : Fd) (client : Client) (pid stdinFd stdoutFd : ℕ) : World :=
  let (client, body, bodyComplete) := cgiInput client pid stdinFd stdoutFd
  let written := w.write stdinFd body.length (a.writes.head?.getD 0)
  let w := (w.log (.dispatched c stdinFd stdoutFd)).log (.forwarded c [] body written)
  let client := (client.addCgiBodyBytesForwarded body.length).appendCgiStdinPending (body.drop written)
  let (w, client) := w.closeInput client bodyComplete
  (w.setClient c client).registerPipes client stdoutFd bodyComplete

def dispatchCgi (w : World) (a : Answers) (c : Fd) (client : Client) (idx : ℕ) : World :=
  match matchRoute (stripQueryString client.request.requestTarget) (w.config client) with
  | none => w.setClient c client
  | some _ =>
    match w.pipe a.stdinPipe with
    | none => w.dispatchFailed a c client idx
    | some (stdinRead, stdinWrite, w) =>
      match w.pipe a.stdoutPipe with
      | none => w.dispatchFailed a c client idx
      | some (stdoutRead, stdoutWrite, w) =>
        match a.fork with
        | none => ((((w.closeFd stdinRead).closeFd stdinWrite).closeFd stdoutRead).closeFd
            stdoutWrite).dispatchFailed a c client idx
        | some pid => (((w.log (.forked pid)).closeFd stdinRead).closeFd stdoutWrite).startCgiRun a c client
            pid stdinWrite stdoutRead

/-! ## Reading from clients -/

/-- The client sends no more for the script, or nothing it can use. -/
def endInput (w : World) (c : Fd) (client : Client) : World :=
  let w := w.log (.inputEnded c client.cgiStdinPending.isEmpty client.cgiStdinFd.isSome)
  let client := { client with cgiStdinEof := true }
  if client.cgiStdinPending.isEmpty then
    let (w, client) := w.closeCgiStdin client
    w.setClient c client
  else w.setClient c client

/-- The whole body was handed over. -/
def inputComplete (w : World) (c : Fd) (client : Client) (stdinFd : Fd) : World :=
  if client.cgiStdinPending.isEmpty then
    let (w, client) := w.closeCgiStdin client
    ((w.setClient c client).eraseCgiStdinFd stdinFd).erasePollFd stdinFd
  else w.setClient c { client with cgiStdinEof := true }

/-- Makes sure that the pipe is polled for output. -/
def monitorStdin (w : World) (stdinFd clientFd : Fd) : World :=
  if w.isCgiStdinFd stdinFd then w.modifyFd stdinFd PollFd.enablePollout
  else (w.insertCgiStdinFd stdinFd clientFd).pushPoll stdinFd { pollout := true }

/-- Hands a piece over to the script: what the pipe does not take becomes pending. -/
def forwardPiece (w : World) (c : Fd) (client : Client) (stdinFd : Fd) (piece : Bytes) (answer : ℕ) :
    World × Client :=
  let taken := w.write stdinFd piece.length answer
  let w := w.log (.forwarded c client.cgiStdinPending.pending piece taken)
  if taken < piece.length then
    (w.monitorStdin stdinFd client.fd, client.appendCgiStdinPending (piece.drop taken))
  else (w, client)

/-- Bytes read from a client while its script runs; the client is returned when the loop goes on. -/
def forwardBody (w : World) (now : ℕ) (c : Fd) (client : Client) (bytes : Bytes) (answer : ℕ) :
    World × Option Client :=
  let client := client.updateActivity now
  let w := w.log (.bodyRead c bytes)
  match client.cgiStdinFd with
  | none => (w.setClient c client, none)
  | some stdinFd =>
    if client.cgiChunked then
      let r := Client.decodeChunkedForCgi client.cgiChunk bytes
      let client := { client with cgiChunk := r.decoder }
      if r.ok then
        let (w, client) := w.forwardPiece c client stdinFd r.decoded answer
        if r.eof then (w.inputComplete c client stdinFd, none)
        else (w.setClient c client, some client)
      else (w.endInput c client, none)
    else
      let client := client.addCgiBodyBytesForwarded bytes.length
      let (w, client) := w.forwardPiece c client stdinFd bytes answer
      if client.cgiBodyContentLength > 0 ∧ client.cgiBodyBytesForwarded ≥ client.cgiBodyContentLength then
        (w.inputComplete c client stdinFd, none)
      else (w.setClient c client, some client)

def bodyLoop (a : Answers) (idx : ℕ) (c : Fd) : List ReadAnswer → List ℕ → ℕ → World → Client → World
  | [], _, _, w, _ => w
  | answer :: answers, writes, totalRead, w, client =>
    if totalRead < fairIoLimit then
      if client.cgiStdinPending.size > cgiBackpressureLimit then w.modifyEntry idx PollFd.disablePollin
      else
        match w.read client.fd answer with
        | .eof => w.endInput c client
        | .error => w.endInput c client
        | .again => w
        | .data bytes =>
          match w.forwardBody a.now c client bytes (writes.head?.getD 0) with
          | (w, none) => w
          | (w, some client) => bodyLoop a idx c answers writes.tail (totalRead + bytes.length) w client
    else w

/-- The limit for the body, from the route of the URI found in the raw head. -/
def peekMaxBody (conf : ServerConfig) (buf : Bytes) : ℕ :=
  match find (ascii " ") buf with
  | none => conf.clientMaxBodySize
  | some sp1 =>
    match findFrom (ascii " ") buf (sp1 + 1) with
    | none => conf.clientMaxBodySize
    | some sp2 =>
      let uri := stripQueryString ((buf.drop (sp1 + 1)).take (sp2 - sp1 - 1))
      effectiveMaxBody (matchRoute uri conf) conf

/-- Feeds bytes to the request parser, once the whole head is there. -/
def feedRequest (conf : ServerConfig) (client : Client) (bytes : Bytes) : Option Bool × Client :=
  if client.requestStarted then
    let (complete, request) := client.request.parse bytes
    (some complete, { client with request }.clearRawBuffer)
  else
    let client := client.appendToBuffer bytes
    if client.hasCompleteHeader then
      let (complete, request) :=
        (client.request.setMaxBodySize (peekMaxBody conf client.buffer)).parse client.buffer
      (some complete, { client with request, requestStarted := true }.clearRawBuffer)
    else (none, client)

/-- The route has a CGI extension that the URI ends with, and allows the method. -/
def cgiGate (conf : ServerConfig) (client : Client) : Bool :=
  client.request.isHeadersDone && !client.cgiActive &&
    match matchRoute (stripQueryString client.request.requestTarget) conf with
    | some route => route.cgiExtension ≠ [] ∧
        route.matchesExtension (stripQueryString client.request.requestTarget) ∧
        route.allows client.request.method
    | none => false

/-- A directory asked for without its final slash is redirected. -/
def slashRedirect (conf : ServerConfig) (uri : Bytes) : Option HTTPResponse :=
  if uri ≠ [] ∧ uri.getLast? ≠ some 47 then
    match matchRoute (uri ++ ascii "/") conf with
    | some slashRoute =>
      if (matchRoute uri conf).all (fun route => slashRoute.path.length > route.path.length) then
        some (HTTPResponse.redirect301 (uri ++ ascii "/"))
      else none
    | none => none
  else none

inductive Decision
  | wait
  | reject (response : Option HTTPResponse)
  | dispatch
  | answer (response : Option HTTPResponse)

/-- What is done with the request after its bytes were fed to the parser. -/
def decideRequest (a : Answers) (conf : ServerConfig) (client : Client) (complete : Bool) : Decision :=
  if client.request.isError then
    if client.request.isBodyTooLarge then
      .reject (HTTPResponse.error413 a.files (getErrorPage 413 conf))
    else .reject (HTTPResponse.error400 a.files (getErrorPage 400 conf))
  else if cgiGate conf client then .dispatch
  else if complete then
    let uri := stripQueryString client.request.requestTarget
    match slashRedirect conf uri with
    | some response => .answer (some response)
    | none => .answer (handleRequest a.files a.execute client.request (matchRoute uri conf) conf).1
  else .wait

/-- The decision on newly read bytes and the client after the parser has seen them. -/
def readRequest (a : Answers) (conf : ServerConfig) (client : Client) (bytes : Bytes) :
    Decision × Client :=
  match feedRequest conf client bytes with
  | (none, client) => (.wait, client)
  | (some complete, client) => (decideRequest a conf client complete, client)

/-- A response was begun on the connection. -/
def Answered (client : Client) : Prop := client.response ≠ [] ∨ client.cgiHeadersSent

instance (client : Client) : Decidable (Answered client) := inferInstanceAs (Decidable (_ ∨ _))

def requestBytes (w : World) (a : Answers) (c : Fd) (client : Client) (idx : ℕ) (bytes : Bytes) : World :=
  match readRequest a (w.config client) client bytes with
  | (.wait, client') => (w.log (.requestRead c (Answered client) .wait)).setClient c client'
  | (.reject response, client') =>
    ((w.log (.requestRead c (Answered client) .answered)).respond c client' response).modifyEntry
      idx PollFd.onlyPollout
  | (.dispatch, client') =>
    (w.log (.requestRead c (Answered client) .dispatched)).dispatchCgi a c client' idx
  | (.answer response, client') =>
    ((w.log (.requestRead c (Answered client) .answered)).respond c client' response).modifyEntry
      idx PollFd.enablePollout

def handleClientRead (w : World) (a : Answers) (idx : ℕ) : ℕ × World :=
  let c := (w.entry idx).fd
  match w.getClient c with
  | none => (idx + 1, w)
  | some client =>
    if client.cgiActive then (idx, bodyLoop a idx c (a.reads ++ [.again]) a.writes 0 w client)
    else
      let client := client.updateActivity a.now
      match w.read client.fd (a.reads.head?.getD .again) with
      | .eof =>
        (idx, (w.log (.requestRead c (Answered client) .removed)).removeClient idx a.reaped .closedByClient)
      | .error =>
        (idx, (w.log (.requestRead c (Answered client) .removed)).removeClient idx a.reaped .readError)
      | .again => (idx, w.setClient c client)
      | .data bytes => (idx, w.requestBytes a c client idx bytes)

/-! ## Writing to clients -/

/-- Polls the output of the script again once the queue is below the limit. -/
def resumeCgiOutput (w : World) (client : Client) : World :=
  if client.cgiActive ∧ client.cgiSendPending.size < cgiBackpressureLimit then
    match client.cgiStdoutFd with
    | some fd => w.modifyFd fd PollFd.enablePollin
    | none => w
  else w

/-- Bytes of the queue that `send` accepted. -/
def sendPending (w : World) (now : ℕ) (fd : Fd) (client : Client) (sent : ℕ)
    (h : sent ≤ client.cgiSendPending.size) : World × Client :=
  let w := w.log (.sent fd true (client.cgiSendPending.pending.take sent))
  let client := (client.consumeCgiSendPending sent h).updateActivity now
  ((w.setClient fd client).resumeCgiOutput client, client)

def sendLoop (a : Answers) (idx : ℕ) (fd : Fd) : List SendAnswer → ℕ → World → Client → Bool × World
  | [], _, w, _ => (false, w)
  | answer :: answers, totalSent, w, client =>
    if totalSent < fairIoLimit then
      if client.cgiSendPending.size = 0 then
        if client.cgiActive then (false, w.modifyEntry idx PollFd.disablePollout)
        else (true, ((w.setClient fd client.clearResponse).modifyEntry idx PollFd.disablePollout).removeClient
          idx a.reaped .complete)
      else
        match w.send fd answer with
        | .again => (false, w)
        | .error => (true, w.removeClient idx a.reaped .sendError)
        | .accepted n =>
          let sent := min n client.cgiSendPending.size
          if sent > 0 then
            let (w, client) := w.sendPending a.now fd client sent (Nat.min_le_right _ _)
            sendLoop a idx fd answers (totalSent + sent) w client
          else sendLoop a idx fd answers totalSent w client
    else (false, w)

def sendResponse (w : World) (a : Answers) (idx : ℕ) (fd : Fd) (client : Client) : Bool × World :=
  let remaining := client.response.length - client.responseOffset
  match w.send client.fd (a.sends.head?.getD .again) with
  | .again => (true, w.removeClient idx a.reaped .sendError)
  | .error => (true, w.removeClient idx a.reaped .sendError)
  | .accepted n =>
    let sent := min n remaining
    let w := w.log (.sent fd false ((client.response.drop client.responseOffset).take sent))
    let client := (client.advanceResponseOffset sent).updateActivity a.now
    let w := w.setClient fd client
    if client.responseOffset ≥ client.response.length then
      (true, ((w.setClient fd client.clearResponse).modifyEntry idx PollFd.disablePollout).removeClient idx
        a.reaped .complete)
    else (false, w)

/-- Returns whether the pass goes on at the position that comes with it. -/
def handlePollOutput (w : World) (a : Answers) (idx : ℕ) : Bool × ℕ × World :=
  let p := w.entry idx
  if p.revents.pollout then
    if w.isCgiStdinFd p.fd then (true, w.handleCgiStdinWritable a idx)
    else
      match w.getClient p.fd with
      | none => (false, idx, w)
      | some client =>
        if client.cgiActive ∨ client.cgiSendPending.size > 0 ∨ client.cgiHeadersSent then
          let (removed, w) := sendLoop a idx p.fd (a.sends ++ [.again]) 0 w client
          (removed, idx, w)
        else if client.response = [] then (false, idx, w)
        else
          let (removed, w) := w.sendResponse a idx p.fd client
          (removed, idx, w)
  else (false, idx, w)

/-! ## Accepting, errors and input -/

/-- A connection under a number that is known already keeps the client it has. -/
def acceptFd (w : World) (serverIndex now : ℕ) (fd : Fd) : World :=
  let known := w.clients.contains fd
  let w := (w.openFd fd).log (.accepted fd known)
  let w := if known then w else w.setClient fd (Client.create fd serverIndex now)
  w.pushPoll fd { pollin := true }

def acceptLoop (serverIndex now : ℕ) : List Fd → World → World
  | [], w => w
  | fd :: fds, w =>
    if fd ∈ w.opened then w else acceptLoop serverIndex now fds (w.acceptFd serverIndex now fd)

def acceptClient (w : World) (a : Answers) (serverFd : Fd) : World :=
  let serverIndex := ((w.serverFds.find? (·.fd = serverFd)).map ServerSocket.index).getD 0
  acceptLoop serverIndex a.now a.accepts w

/-- The pipe to the script broke: it is dropped, and its client loses its own pipe. -/
def stdinHangup (w : World) (idx : ℕ) (fd : Fd) : World :=
  let owner := w.cgiStdinFdToClientFd[fd]?
  let w := (w.eraseCgiStdinFd fd).closeFd fd
  let w := match owner with
    | none => w
    | some c =>
      match w.getClient c with
      | none => w
      | some client =>
        let (w, client) := w.closeCgiStdin client
        w.setClient c client
  w.eraseEntry idx

def handlePollErrors (w : World) (a : Answers) (idx : ℕ) : Bool × World :=
  let p := w.entry idx
  if p.revents.pollhup || p.revents.pollerr || p.revents.pollnval then
    if w.isListeningSocket p.fd then (false, w)
    else if w.isCgiFd p.fd then (false, w)
    else if w.isCgiStdinFd p.fd then (true, w.stdinHangup idx p.fd)
    else (true, w.removeClient idx a.reaped .hangup)
  else (false, w)

def handlePollInput (w : World) (a : Answers) (idx : ℕ) : Bool × ℕ × World :=
  let p := w.entry idx
  if p.revents.pollin then
    if w.isListeningSocket p.fd then (false, idx, w.acceptClient a p.fd)
    else if w.isCgiStdinFd p.fd then (true, idx + 1, w)
    else if w.isCgiFd p.fd then (true, w.handleCgiOutput a idx)
    else (false, w.handleClientRead a idx)
  else if p.revents.pollhup && w.isCgiFd p.fd then (true, w.handleCgiOutput a idx)
  else (false, idx, w)

end WebServ.World
