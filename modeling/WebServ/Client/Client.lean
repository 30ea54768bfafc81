import WebServ.Client.ChunkDecoder
import WebServ.Lib.OffsetBuffer

/-! # Connections

What the server keeps for a connection: the bytes of the request head, the request
being parsed, the response being sent, and the state of a CGI run with one queue
towards the script and one towards the client.
-/
namespace WebServ
open Search Client

abbrev Fd := ℕ

structure Client where
  fd : Fd
  buffer : Bytes := []
  response : Bytes := []
  lastActivity : ℕ := 0
  responseOffset : ℕ := 0
  serverIndex : ℕ := 0
  request : HTTPRequest := {}
  requestStarted : Bool := false
  cgiPid : Option ℕ := none
  cgiStdinFd : Option Fd := none
  cgiStdoutFd : Option Fd := none
  cgiOutput : Bytes := []
  cgiActive : Bool := false
  cgiStdinPending : OffsetBuffer UInt8 := .empty
  cgiStdinEof : Bool := false
  cgiBodyBytesForwarded : ℕ := 0
  cgiBodyContentLength : ℕ := 0
  cgiHeadersSent : Bool := false
  cgiChunked : Bool := false
  cgiChunk : ChunkDecoder := {}
  cgiSendPending : OffsetBuffer UInt8 := .empty

namespace Client

/-- The offset at which the queues are cut back. -/
def compactThreshold : ℕ := 1048576

def create (fd serverIndex now : ℕ) : Client := { fd, serverIndex, lastActivity := now }

def updateActivity (c : Client) (now : ℕ) : Client := { c with lastActivity := now }

def appendToBuffer (c : Client) (data : Bytes) : Client := { c with buffer := c.buffer ++ data }
def hasCompleteHeader (c : Client) : Bool := contains (ascii "\r\n\r\n") c.buffer
def clearRawBuffer (c : Client) : Client := { c with buffer := [] }
def clearBuffer (c : Client) : Client :=
  { c with buffer := [], request := c.request.reset, requestStarted := false }

def setResponse (c : Client) (response : Bytes) : Client := { c with response, responseOffset := 0 }
def clearResponse (c : Client) : Client := { c with response := [], responseOffset := 0 }
def advanceResponseOffset (c : Client) (bytes : ℕ) : Client :=
  { c with responseOffset := c.responseOffset + bytes }

def startCgi (c : Client) (pid stdinFd stdoutFd : ℕ) : Client :=
  { c with
    cgiPid := some pid
    cgiStdinFd := some stdinFd
    cgiStdoutFd := some stdoutFd
    cgiActive := true
    cgiOutput := []
    cgiStdinPending := .empty
    cgiStdinEof := false
    cgiBodyBytesForwarded := 0
    cgiBodyContentLength := 0
    cgiHeadersSent := false
    cgiChunked := false
    cgiChunk := {}
    cgiSendPending := .empty }

def appendCgiOutput (c : Client) (data : Bytes) : Client := { c with cgiOutput := c.cgiOutput ++ data }
def appendCgiStdinPending (c : Client) (data : Bytes) : Client :=
  { c with cgiStdinPending := c.cgiStdinPending.append data }
def appendCgiSendPending (c : Client) (data : Bytes) : Client :=
  { c with cgiSendPending := c.cgiSendPending.append data }

/-- Takes bytes off the queue towards the script; `write` accepts no more than it was given. -/
def consumeCgiStdinPending (c : Client) (bytes : ℕ) (h : bytes ≤ c.cgiStdinPending.size) : Client :=
  { c with cgiStdinPending := c.cgiStdinPending.consume compactThreshold bytes h }

def consumeCgiSendPending (c : Client) (bytes : ℕ) (h : bytes ≤ c.cgiSendPending.size) : Client :=
  { c with cgiSendPending := c.cgiSendPending.consume compactThreshold bytes h }

def addCgiBodyBytesForwarded (c : Client) (n : ℕ) : Client :=
  { c with cgiBodyBytesForwarded := c.cgiBodyBytesForwarded + n }

end Client
end WebServ
