import WebServ.Config.Route
import WebServ.Http.Response

/-! # Responses of CGI scripts

The output of a script starts with header lines; its `Status` line sets the
status of the response. The header section ends at the first empty line.
-/
namespace WebServ.HTTPHandler
open Search HTTPResponse

def getErrorPage (statusCode : ℤ) (server : ServerConfig) : Bytes :=
  (server.errorPages[statusCode]?).getD []

/-- The value without the blanks in front of it. -/
def trimLeading (value : Bytes) : Bytes :=
  match findFirstNotOf blanks value with
  | some start => value.drop start
  | none => []

/-- The state of the header loop: the response and the last status seen. -/
structure CgiHead where
  response : HTTPResponse := ({} : HTTPResponse).setStatus 200 (ascii "OK")
  statusCode : ℤ := 200
  statusReason : Bytes := ascii "OK"

def cgiStatus (h : CgiHead) (value : Bytes) : CgiHead :=
  let h := match find (ascii " ") value with
    | some sp => { h with statusCode := atoi (value.take sp), statusReason := value.drop (sp + 1) }
    | none => { h with statusCode := atoi value }
  { h with response := h.response.setStatus h.statusCode h.statusReason }

/-- One line of the header section; lines without a colon are skipped. -/
def cgiHeaderLine (h : CgiHead) (line : Bytes) : CgiHead :=
  let line := if line.getLast? = some 13 then line.dropLast else line
  match find (ascii ":") line with
  | none => h
  | some colon =>
    let key := line.take colon
    let value := trimLeading (line.drop (colon + 1))
    if key = ascii "Status" then cgiStatus h value
    else { h with response := h.response.setHeader key value }

/-- Reads lines up to the end of the section; the last one needs no end mark. -/
def cgiHeaderLoop (h : CgiHead) (text : Bytes) : CgiHead :=
  if text = [] then h
  else
    match _h : cutLine (ascii "\n") text with
    | none => cgiHeaderLine h text
    | some (line, rest) => cgiHeaderLoop (cgiHeaderLine h line) rest
termination_by text.length
decreasing_by
  have hlen := cutLine_length _h
  have hone : (ascii "\n").length = 1 := by decide
  omega

def parseCgiHeaders (cgiHeaderSection : Bytes) : HTTPResponse :=
  (cgiHeaderLoop {} cgiHeaderSection).response

/-- The whole output of a script; without an empty line it is an error. -/
def parseCgiResponse (fs : FileSystem) (raw : Bytes) (server : ServerConfig) : Option HTTPResponse :=
  match cutLine (ascii "\r\n\r\n") raw with
  | some (headerSection, body) => some ((parseCgiHeaders headerSection).setBody body)
  | none =>
    match cutLine (ascii "\n\n") raw with
    | some (headerSection, body) => some ((parseCgiHeaders headerSection).setBody body)
    | none => error500 fs (getErrorPage 500 server)

end WebServ.HTTPHandler
