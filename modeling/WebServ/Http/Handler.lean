import WebServ.Http.CgiResponse

/-! # Request handling

A complete request is answered from its route: a redirection, a refusal, a file,
a stored upload, a deletion or the output of a script. Changes to files are
returned beside the response.
-/
namespace WebServ.HTTPHandler
open Search HTTPResponse

inductive FileEffect
  | write (path content : Bytes)
  | append (path content : Bytes)
  | unlink (path : Bytes)
deriving DecidableEq, Repr

/-! ## Paths -/

def stripRoutePrefix (uri routePath : Bytes) : Bytes :=
  if routePath = ascii "/" ∨ routePath = [] then uri
  else if uri.take routePath.length = routePath then
    let stripped := uri.drop routePath.length
    if stripped.head? = some 47 then stripped else ascii "/" ++ stripped
  else uri

def processPathSegment (segments : List Bytes) (segment : Bytes) : List Bytes :=
  if segment = ascii ".." then segments.dropLast
  else if segment = ascii "." then segments
  else segments ++ [segment]

/-- One byte of a path: the segments before it and the one being read. -/
def sanitizeByte (s : List Bytes × Bytes) (b : UInt8) : List Bytes × Bytes :=
  if b = 47 then
    if s.2 = [] then s else (processPathSegment s.1 s.2, [])
  else (s.1, s.2 ++ [b])

def joinSegments (segments : List Bytes) : Bytes := ascii "/" ++ (segments.intersperse (ascii "/")).flatten

def sanitizePath (path : Bytes) : Bytes :=
  let s := path.foldl sanitizeByte ([], [])
  joinSegments (if s.2 = [] then s.1 else processPathSegment s.1 s.2)

def rootDir (route : RouteConfig) : Bytes := if route.root = [] then ascii "files" else route.root

/-- The path a target stands for, below the root of its route. -/
def requestPath (request : HTTPRequest) (route : RouteConfig) : Bytes :=
  sanitizePath (stripRoutePrefix (stripQueryString request.requestTarget) route.path)

def mimeTypes : List (Bytes × Bytes) :=
  [(ascii "html", ascii "text/html"), (ascii "htm", ascii "text/html"), (ascii "css", ascii "text/css"),
    (ascii "js", ascii "application/javascript"), (ascii "json", ascii "application/json"),
    (ascii "xml", ascii "application/xml"), (ascii "txt", ascii "text/plain"),
    (ascii "jpg", ascii "image/jpeg"), (ascii "jpeg", ascii "image/jpeg"), (ascii "png", ascii "image/png"),
    (ascii "gif", ascii "image/gif"), (ascii "svg", ascii "image/svg+xml"),
    (ascii "ico", ascii "image/x-icon"), (ascii "pdf", ascii "application/pdf"),
    (ascii "zip", ascii "application/zip"), (ascii "mp4", ascii "video/mp4"),
    (ascii "mp3", ascii "audio/mpeg")]

def getMimeType (path : Bytes) : Bytes :=
  if 46 ∈ path then
    let ext := (path.reverse.takeWhile (· ≠ 46)).reverse
    (mimeTypes.lookup ext).getD (ascii "application/octet-stream")
  else ascii "application/octet-stream"

/-! ## Reading -/

def entryPath (path name : Bytes) : Bytes := (if path.getLast? = some 47 then path else path ++ ascii "/") ++ name

/-- The line for a name. The slash of the link follows the buffer of `stat`, which keeps what it
held when `stat` fails. -/
def autoindexEntry (fs : FileSystem) (path : Bytes) (held : Bool) (name : Bytes) : Bool × Bytes :=
  let stt := if (fs.entry (entryPath path name)).isSome then fs.isDirectory (entryPath path name) else held
  let displaySlash := if fs.isDirectory (entryPath path name) then ascii "/" else []
  let linkSlash := if stt then ascii "/" else []
  (stt, ascii "<a href=\"" ++ name ++ linkSlash ++ ascii "\">" ++ name ++ displaySlash ++ ascii "</a>\n")

/-- The lines for the names, with the buffer as the line before has left it. -/
def autoindexLines (fs : FileSystem) (path : Bytes) : Bool → List Bytes → List Bytes
  | _, [] => []
  | held, name :: names =>
    if name = ascii "." then autoindexLines fs path held names
    else
      let (held, line) := autoindexEntry fs path held name
      line :: autoindexLines fs path held names

def generateAutoindex (fs : FileSystem) (path uri : Bytes) (server : ServerConfig) : Option HTTPResponse :=
  match fs.entry path with
  | some (.directory names) =>
    some (success200 (ascii "<html>\n<head><title>Index of " ++ uri ++
      ascii "</title></head>\n<body>\n<h1>Index of " ++ uri ++ ascii "</h1><hr><pre>\n" ++
      (autoindexLines fs path fs.unsetStat names).flatten ++ ascii "</pre><hr></body>\n</html>")
      (ascii "text/html"))
  | _ => error404 fs (getErrorPage 404 server)

/-- Serves a path that exists, when it can be read. -/
def serveFile (fs : FileSystem) (filePath : Bytes) (server : ServerConfig) : Option HTTPResponse :=
  if fs.isReadable filePath then
    match fs.readFile filePath with
    | .content body => some (success200 body (getMimeType filePath))
    | .thrown => none
    | .unopened => error500 fs (getErrorPage 500 server)
  else error403 fs (getErrorPage 403 server)

def handleGet (fs : FileSystem) (request : HTTPRequest) (route : RouteConfig) (server : ServerConfig) :
    Option HTTPResponse :=
  let indexFile := if route.index = [] then ascii "index.html" else route.index
  let filePath := rootDir route ++ requestPath request route
  match fs.entry filePath with
  | none => error404 fs (getErrorPage 404 server)
  | some (.file _ _ _) => serveFile fs filePath server
  | some (.directory _) =>
    let indexPath := filePath ++ ascii "/" ++ indexFile
    if (fs.entry indexPath).isSome then serveFile fs indexPath server
    else if route.autoindex then generateAutoindex fs filePath (stripQueryString request.requestTarget) server
    else error404 fs (getErrorPage 404 server)

/-! ## Uploads and deletion -/

/-- What a system call sees of a path: a C string ends at its first zero byte. -/
def cStr (path : Bytes) : Bytes := path.takeWhile (· ≠ 0)

/-- What a stream extracts as a hexadecimal integer from the front of a text. -/
def readHexInt (s : Bytes) : Option ℤ :=
  let signed (negative : Bool) (t : Bytes) : Option ℤ :=
    let t := match t with
      | 48 :: x :: u => if x = 120 ∨ x = 88 then u else t
      | _ => t
    let digits := t.takeWhile (fun b => (hexDigit b).isSome)
    if digits = [] then none else some (if negative then -(hexValue digits : ℤ) else hexValue digits)
  match s.dropWhile isSpace with
  | 45 :: t => signed true t
  | 43 :: t => signed false t
  | t => signed false t

def urlDecode (value : Bytes) : Bytes :=
  match value with
  | [] => []
  | 37 :: a :: b :: rest =>
    match readHexInt [a, b] with
    | some v => UInt8.ofNat (v % 256).toNat :: urlDecode rest
    | none => 37 :: urlDecode (a :: b :: rest)
  | 43 :: rest => 32 :: urlDecode rest
  | c :: rest => c :: urlDecode rest
termination_by value.length

def uploadsDir (route : RouteConfig) : Bytes :=
  if route.uploadStore = [] then ascii "uploads" else route.uploadStore

/-- The file name and the content of the first file part of a multipart body. -/
def multipartFile (contentType body : Bytes) : Option (Bytes × Bytes) :=
  match find (ascii "boundary=") contentType, find (ascii "filename=\"") body with
  | some boundaryPos, some filenamePos =>
    let boundary := contentType.drop (boundaryPos + 9)
    let filenameStart := filenamePos + 10
    match findFrom (ascii "\"") body filenameStart with
    | none => none
    | some filenameEnd =>
      match findFrom (ascii "\r\n\r\n") body filenameEnd with
      | none => none
      | some headerEnd =>
        let dataStart := headerEnd + 4
        let dataEnd := (findFrom (ascii "\r\n--" ++ boundary) body dataStart).getD body.length
        some ((body.drop filenameStart).take (filenameEnd - filenameStart),
          (body.drop dataStart).take (dataEnd - dataStart))
  | _, _ => none

def bodyReceived (body : Bytes) : HTTPResponse :=
  success200 (ascii "<html><body><h1>200 OK</h1><p>Body received: " ++ decimal body.length ++
    ascii " bytes</p></body></html>") (ascii "text/html")

def handlePost (fs : FileSystem) (request : HTTPRequest) (route : RouteConfig) :
    HTTPResponse × List FileEffect :=
  let contentType := request.getHeaderValue (ascii "content-type")
  let body := request.body
  if contains (ascii "multipart/form-data") contentType then
    match multipartFile contentType body with
    | some (filename, fileData) =>
      let uploadPath := uploadsDir route ++ ascii "/" ++ filename
      if fs.creatable (cStr uploadPath) then
        (success201 (ascii "<html><body><h1>201 Created</h1><p>File uploaded: " ++ filename ++
          ascii "</p></body></html>") (ascii "text/html"), [.write (cStr uploadPath) fileData])
      else (bodyReceived body, [])
    | none => (bodyReceived body, [])
  else if contains (ascii "application/x-www-form-urlencoded") contentType then
    let decodedBody := urlDecode body
    let uploadPath := uploadsDir route ++ ascii "/form_data.txt"
    if fs.creatable (cStr uploadPath) then
      (success201 (ascii "<html><body><h1>201 Created</h1><p>Data received: " ++ decodedBody ++
        ascii "</p></body></html>") (ascii "text/html"), [.append (cStr uploadPath) (decodedBody ++ ascii "\n")])
    else (bodyReceived body, [])
  else (bodyReceived body, [])

def handleDelete (fs : FileSystem) (request : HTTPRequest) (route : RouteConfig) (server : ServerConfig) :
    Option HTTPResponse × List FileEffect :=
  let target := requestPath request route
  let filePath := rootDir route ++ target
  if target = ascii "/" then (error400 fs (getErrorPage 400 server), [])
  else
    match fs.entry filePath with
    | none => (error404 fs (getErrorPage 404 server), [])
    | some (.directory _) => (error400 fs (getErrorPage 400 server), [])
    | some (.file _ _ _) =>
      if fs.isWritable filePath then
        if fs.removable (cStr filePath) then
          (some (success200 (ascii "<html><body><h1>200 OK</h1><p>File deleted: " ++ target ++
            ascii "</p></body></html>") (ascii "text/html")), [.unlink (cStr filePath)])
        else (error500 fs (getErrorPage 500 server), [])
      else (error403 fs (getErrorPage 403 server), [])

/-! ## Dispatch by route and method -/

/-- The limit of the route, or of the server when the route has none. -/
def effectiveMaxBody (route : Option RouteConfig) (server : ServerConfig) : ℕ :=
  match route with
  | some route => if route.hasClientMaxBodySize then route.clientMaxBodySize else server.clientMaxBodySize
  | none => server.clientMaxBodySize

def redirection (route : RouteConfig) : Option HTTPResponse :=
  if route.redirectCode = 301 then some (redirect301 route.redirectUrl)
  else if route.redirectCode = 302 then some (redirect302 route.redirectUrl)
  else none

/-- The answer, if nothing throws, and what is done to files. `execute` stands for the output of the
script, should it be run here. -/
def handleRequest (fs : FileSystem) (execute : Bytes) (request : HTTPRequest) (route : Option RouteConfig)
    (server : ServerConfig) : Option HTTPResponse × List FileEffect :=
  match route with
  | none => (error404 fs (getErrorPage 404 server), [])
  | some route =>
    match redirection route with
    | some response => (some response, [])
    | none =>
      if ¬ route.allows request.method then (error405 fs (getErrorPage 405 server), [])
      else
        let maxBody := effectiveMaxBody (some route) server
        let contentLength := request.getHeaderValue (ascii "Content-Length")
        if contentLength ≠ [] ∧ maxBody > 0 ∧ toSizeT (atol contentLength) > maxBody then
          (error413 fs (getErrorPage 413 server), [])
        else if route.cgiExtension ≠ [] ∧
            route.matchesExtension (stripQueryString request.requestTarget) then
          if execute = [] then (error500 fs (getErrorPage 500 server), [])
          else (parseCgiResponse fs execute server, [])
        else if request.method = ascii "GET" then (handleGet fs request route server, [])
        else if request.method = ascii "HEAD" then ((handleGet fs request route server).map clearBody, [])
        else if request.method = ascii "POST" then
          let (response, effects) := handlePost fs request route
          (some response, effects)
        else if request.method = ascii "DELETE" then handleDelete fs request route server
        else (error405 fs (getErrorPage 405 server), [])

end WebServ.HTTPHandler
