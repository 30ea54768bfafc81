import Std.Data.ExtTreeMap
import WebServ.Lib.Bytes

/-! # The incremental request parser

`parse` appends the bytes of one read to the buffer and consumes as much of it as
it can: a request line, header lines up to the empty one, and a body framed by
`Content-Length` or by chunks. Every loop of the source is a recursion here, on
the unread bytes or on the phase that is left.
-/
namespace WebServ
open Search

abbrev Headers := Std.ExtTreeMap Bytes Bytes

inductive ParseState
  | parssingRequestLine | parssingHeaders | parssingBody | parssingComplete | parssingError
deriving DecidableEq, Repr

inductive ChunkedState
  | chunkSize | chunkData | chunkDataCrlf | chunkTrailers
deriving DecidableEq, Repr

structure HTTPRequest where
  buffer : Bytes := []
  state : ParseState := .parssingRequestLine
  chunkedState : ChunkedState := .chunkSize
  chunkRemaining : ℕ := 0
  isChunked : Bool := false
  method : Bytes := []
  requestTarget : Bytes := []
  protocol : Bytes := []
  headers : Headers := ∅
  body : Bytes := []
  maxBodySize : ℕ := 0
  bodyTooLarge : Bool := false

namespace HTTPRequest

def fail (r : HTTPRequest) : HTTPRequest := { r with state := .parssingError }

def getHeaderValue (r : HTTPRequest) (key : Bytes) : Bytes :=
  (r.headers[key.map toLower]?).getD []

def isError (r : HTTPRequest) : Bool := r.state = .parssingError
def isBodyTooLarge (r : HTTPRequest) : Bool := r.bodyTooLarge
def isHeadersDone (r : HTTPRequest) : Bool :=
  r.state = .parssingBody ∨ r.state = .parssingComplete

/-- The number that stands for the chunked state outside the parser. -/
def getChunkedState (r : HTTPRequest) : ℕ :=
  match r.chunkedState with
  | .chunkSize => 0
  | .chunkData => 1
  | .chunkDataCrlf => 2
  | .chunkTrailers => 3

def setMaxBodySize (r : HTTPRequest) (size : ℕ) : HTTPRequest := { r with maxBodySize := size }

/-- `reset` also forgets the body limit. -/
def reset (_ : HTTPRequest) : HTTPRequest := {}

/-! ## Request line and headers -/

def parseRequestLine (r : HTTPRequest) : Bool × HTTPRequest :=
  match cutLine crlf r.buffer with
  | none => (false, r)
  | some (line, rest) =>
    let r := { r with buffer := rest }
    match find (ascii " ") line with
    | none => (false, r.fail)
    | some first =>
      match findFrom (ascii " ") line (first + 1) with
      | none => (false, r.fail)
      | some second =>
        let r := { r with
          method := line.take first
          requestTarget := (line.drop (first + 1)).take (second - first - 1)
          protocol := line.drop (second + 1) }
        if r.method = [] ∨ r.requestTarget = [] ∨ r.protocol = [] then (false, r.fail) else (true, r)

/-- Keys are stored in lower case, values without blanks around them. -/
def storeHeader (r : HTTPRequest) (key value : Bytes) : HTTPRequest :=
  { r with headers := r.headers.insert (key.map toLower) ((trim blanks value).getD []) }

def parseHeaders (r : HTTPRequest) : Bool × HTTPRequest :=
  match _h : cutLine crlf r.buffer with
  | none => (false, r)
  | some (line, rest) =>
    if line = [] then (true, { r with buffer := rest })
    else
      match find (ascii ":") line with
      | none => (false, fail { r with buffer := rest })
      | some colon =>
        parseHeaders (storeHeader { r with buffer := rest } (line.take colon) (line.drop (colon + 1)))
termination_by r.buffer.length
decreasing_by
  have hlen := cutLine_length _h
  simp only [crlf, List.length_cons, List.length_nil] at hlen
  simp only [storeHeader]
  omega

/-- Chunked transfer encoding takes precedence over `Content-Length`. -/
def hasBody (r : HTTPRequest) : Bool :=
  match r.headers[ascii "transfer-encoding"]? with
  | some value =>
    if contains (ascii "chunked") (value.map toLower) then true
    else (r.headers[ascii "content-length"]?).isSome
  | none => (r.headers[ascii "content-length"]?).isSome

/-! ## Chunked bodies -/

/-- Accumulates modulo `2 ^ 64`, as the 64-bit counter of the source does. -/
def parseHexString (str : Bytes) : Option ℕ :=
  if str.all (fun b => (hexDigit b).isSome) then
    some (str.foldl (fun out b => (out * 16 + (hexDigit b).getD 0) % 2 ^ 64) 0)
  else none

/-- The text of a size line before a chunk extension. -/
def stripExtension (line : Bytes) : Bytes := before (ascii ";") line

def parseChunkSize (r : HTTPRequest) : Bool × HTTPRequest :=
  match cutLine crlf r.buffer with
  | none => (false, r)
  | some (sizeLine, rest) =>
    let r := { r with buffer := rest }
    match trim blanks (stripExtension sizeLine) with
    | none => (false, r.fail)
    | some sizeText =>
      match parseHexString sizeText with
      | none => (false, r.fail)
      | some size =>
        (true, { r with
          chunkRemaining := size
          chunkedState := if size = 0 then .chunkTrailers else .chunkData })

def parseChunkData (r : HTTPRequest) : Bool × HTTPRequest :=
  if r.buffer.length ≥ r.chunkRemaining then
    let r := { r with
      body := r.body ++ r.buffer.take r.chunkRemaining
      buffer := r.buffer.drop r.chunkRemaining
      chunkRemaining := 0
      chunkedState := .chunkDataCrlf }
    if r.maxBodySize > 0 ∧ r.body.length > r.maxBodySize then
      (false, fail { r with bodyTooLarge := true })
    else (true, r)
  else
    -- an unfinished chunk is stored without looking at the limit
    (false, { r with
      chunkRemaining := r.chunkRemaining - r.buffer.length
      body := r.body ++ r.buffer
      buffer := [] })

def parseChunkDataCrlf (r : HTTPRequest) : Bool × HTTPRequest :=
  match r.buffer with
  | a :: b :: rest =>
    if [a, b] = crlf then (true, { r with buffer := rest, chunkedState := .chunkSize })
    else (false, r.fail)
  | _ => (false, r)

def parseChunkTrailers (r : HTTPRequest) : Bool × HTTPRequest :=
  match _h : cutLine crlf r.buffer with
  | none => (false, r)
  | some (line, rest) =>
    if line = [] then (true, { r with buffer := rest })
    else parseChunkTrailers { r with buffer := rest }
termination_by r.buffer.length
decreasing_by
  have hlen := cutLine_length _h
  simp only [crlf, List.length_cons, List.length_nil] at hlen
  omega

/-- Bounds the turns the chunk loop has left. -/
def chunkWeight (r : HTTPRequest) : ℕ :=
  2 * r.buffer.length + (if r.chunkedState = .chunkData then 1 else 0)

theorem parseChunkSize_weight_lt {r r' : HTTPRequest} (h : parseChunkSize r = (true, r')) :
    r'.chunkWeight < r.chunkWeight := by
  unfold parseChunkSize at h
  split at h
  · cases h
  · next hcut =>
    have hlen := cutLine_length hcut
    simp only [crlf, List.length_cons, List.length_nil] at hlen
    dsimp only at h
    split at h
    · cases h
    · split at h
      · cases h
      · cases h
        simp only [chunkWeight]
        split <;> split <;> omega

theorem parseChunkData_weight_lt {r r' : HTTPRequest} (hd : r.chunkedState = .chunkData)
    (h : parseChunkData r = (true, r')) : r'.chunkWeight < r.chunkWeight := by
  unfold parseChunkData at h
  split at h
  · dsimp only at h
    split at h
    · cases h
    · cases h
      simp only [chunkWeight, hd, List.length_drop, if_true, reduceCtorEq, if_false]
      omega
  · cases h

theorem parseChunkDataCrlf_weight_lt {r r' : HTTPRequest} (h : parseChunkDataCrlf r = (true, r')) :
    r'.chunkWeight < r.chunkWeight := by
  unfold parseChunkDataCrlf at h
  split at h
  · next hb =>
    split at h
    · cases h
      simp [chunkWeight, hb]
      omega
    · cases h
  · cases h

def parseChunkedBody (r : HTTPRequest) : Bool × HTTPRequest :=
  match _hs : r.chunkedState with
  | .chunkSize =>
    match _h : parseChunkSize r with
    | (true, r') => parseChunkedBody r'
    | (false, r') => (false, r')
  | .chunkData =>
    match _h : parseChunkData r with
    | (true, r') => parseChunkedBody r'
    | (false, r') => (false, r')
  | .chunkDataCrlf =>
    match _h : parseChunkDataCrlf r with
    | (true, r') => parseChunkedBody r'
    | (false, r') => (false, r')
  | .chunkTrailers => parseChunkTrailers r
termination_by r.chunkWeight
decreasing_by
  · exact parseChunkSize_weight_lt _h
  · exact parseChunkData_weight_lt _hs _h
  · exact parseChunkDataCrlf_weight_lt _h

/-! ## Body and main loop -/

def contentLength (r : HTTPRequest) : ℕ := toSizeT (atol (r.getHeaderValue (ascii "Content-Length")))

def parseBody (r : HTTPRequest) : Bool × HTTPRequest :=
  if r.isChunked then r.parseChunkedBody
  else if r.getHeaderValue (ascii "Content-Length") = [] then (true, r)
  else
    let len := r.contentLength
    if r.maxBodySize > 0 ∧ len > r.maxBodySize then (false, fail { r with bodyTooLarge := true })
    else if len > r.body.length then
      let needed := len - r.body.length
      if r.buffer.length ≥ needed then
        (true, { r with body := r.body ++ r.buffer.take needed, buffer := r.buffer.drop needed })
      else (false, { r with body := r.body ++ r.buffer, buffer := [] })
    else (true, r)

/-- The test made on the headers when the framing of the body is chosen. -/
def announcesChunked (r : HTTPRequest) : Bool :=
  contains (ascii "chunked") ((r.getHeaderValue (ascii "Transfer-Encoding")).map toLower)

def ParseState.rank : ParseState → ℕ
  | .parssingRequestLine => 3
  | .parssingHeaders => 2
  | .parssingBody => 1
  | .parssingComplete => 0
  | .parssingError => 0

def parseLoop (r : HTTPRequest) : Bool × HTTPRequest :=
  match _hs : r.state with
  | .parssingRequestLine =>
    match r.parseRequestLine with
    | (false, r') => (false, r')
    | (true, r') => parseLoop { r' with state := .parssingHeaders }
  | .parssingHeaders =>
    match r.parseHeaders with
    | (false, r') => (false, r')
    | (true, r') =>
      if r'.hasBody then
        parseLoop { r' with isChunked := r'.announcesChunked, state := .parssingBody }
      else parseLoop { r' with state := .parssingComplete }
  | .parssingBody =>
    match r.parseBody with
    | (false, r') => (false, r')
    | (true, r') => parseLoop { r' with state := .parssingComplete }
  | .parssingComplete => (true, r)
  | .parssingError => (false, r)
termination_by ParseState.rank r.state
decreasing_by all_goals simp [_hs, ParseState.rank]

def parse (r : HTTPRequest) (buffer : Bytes) : Bool × HTTPRequest :=
  parseLoop { r with buffer := r.buffer ++ buffer }

/-- Successive calls of `parse`, with the result of the last one. -/
def parsePieces (r : HTTPRequest) (pieces : List Bytes) : Bool × HTTPRequest :=
  pieces.foldl (fun acc piece => acc.2.parse piece) (false, r)

end HTTPRequest
end WebServ
