import WebServ.Http.Request

/-! # Responses

A response is a status line, headers in the order of their names, and a body; it
is serialised as a whole or up to the body. Error pages come from the file system,
with a fixed text when there is none. What throws has no result: nothing in the program
catches an exception.
-/
namespace WebServ

/-- What a path names. -/
inductive FileEntry
  | directory (names : List Bytes)
  | file (content : Bytes) (readable writable : Bool)
deriving DecidableEq, Repr

/-- The answers of the file system during one call. -/
structure FileSystem where
  entry : Bytes → Option FileEntry := fun _ => none
  creatable : Bytes → Bool := fun _ => false
  removable : Bytes → Bool := fun _ => false
  realpath : Bytes → Option Bytes := fun _ => none
  /-- What the memory of a buffer for `stat` says of being a directory before `stat` writes to it. -/
  unsetStat : Bool := false

namespace FileSystem

def isDirectory (fs : FileSystem) (path : Bytes) : Bool :=
  match fs.entry path with
  | some (.directory _) => true
  | _ => false

def isReadable (fs : FileSystem) (path : Bytes) : Bool :=
  match fs.entry path with
  | some (.directory _) => true
  | some (.file _ readable _) => readable
  | none => false

def isWritable (fs : FileSystem) (path : Bytes) : Bool :=
  match fs.entry path with
  | some (.directory _) => true
  | some (.file _ _ writable) => writable
  | none => false

/-- What comes of opening a path and reading it to its end. -/
inductive Reading
  | unopened
  /-- A directory can be opened, but the first read from it throws. -/
  | thrown
  | content (bytes : Bytes)
deriving DecidableEq, Repr

def readFile (fs : FileSystem) (path : Bytes) : Reading :=
  match fs.entry path with
  | some (.directory _) => .thrown
  | some (.file content readable _) => if readable then .content content else .unopened
  | none => .unopened

theorem isDirectory_iff {fs : FileSystem} {path : Bytes} :
    fs.isDirectory path = true ↔ ∃ names, fs.entry path = some (.directory names) := by
  unfold isDirectory
  split
  · next names h => simp [h]
  · next h =>
    constructor
    · exact fun hfalse => Bool.noConfusion hfalse
    · rintro ⟨names, hdir⟩
      exact absurd hdir (h names)

theorem readFile_eq_thrown_iff {fs : FileSystem} {path : Bytes} :
    fs.readFile path = .thrown ↔ fs.isDirectory path = true := by
  rw [isDirectory_iff]
  unfold readFile
  split
  · next names h => simp [h]
  · next content readable writable h => cases readable <;> simp [h]
  · next h => simp [h]

end FileSystem

structure HTTPResponse where
  statusLine : Bytes := []
  headers : Headers := ∅
  body : Bytes := []

namespace HTTPResponse

def setStatus (r : HTTPResponse) (statusCode : ℤ) (reasonPhrase : Bytes) : HTTPResponse :=
  { r with statusLine := ascii "HTTP/1.1 " ++ decimalInt statusCode ++ ascii " " ++ reasonPhrase }

def setHeader (r : HTTPResponse) (key value : Bytes) : HTTPResponse :=
  { r with headers := r.headers.insert key value }

def setBody (r : HTTPResponse) (body : Bytes) : HTTPResponse :=
  { r with body }.setHeader (ascii "Content-Length") (decimal body.length)

/-- `Content-Length` stays as it is. -/
def clearBody (r : HTTPResponse) : HTTPResponse := { r with body := [] }

def headerToString (r : HTTPResponse) : Bytes :=
  r.statusLine ++ crlf ++
    (r.headers.toList.map (fun (key, value) => key ++ ascii ": " ++ value ++ crlf)).flatten ++ crlf

def toString (r : HTTPResponse) : Bytes := r.headerToString ++ r.body

/-! ## Code pages -/

def loadErrorPage (fs : FileSystem) (pagePath fallback : Bytes) : Option Bytes :=
  if pagePath = [] then some fallback
  else
    match fs.readFile pagePath with
    | .unopened => some fallback
    | .thrown => none
    | .content content => some content

/-- The shape all error responses share. -/
def errorPage (fs : FileSystem) (code : ℤ) (reason fallback pagePath : Bytes) : Option HTTPResponse :=
  (loadErrorPage fs pagePath fallback).map fun body =>
    ((({} : HTTPResponse).setStatus code reason).setBody body).setHeader (ascii "Content-Type") (ascii "text/html")

/-- The page is a directory, so that reading it throws. -/
def PageThrows (fs : FileSystem) (pagePath : Bytes) : Prop := pagePath ≠ [] ∧ fs.isDirectory pagePath = true

instance (fs : FileSystem) (pagePath : Bytes) : Decidable (PageThrows fs pagePath) :=
  inferInstanceAs (Decidable (_ ∧ _))

def statusOf (code : ℤ) (reason : Bytes) : Bytes := (({} : HTTPResponse).setStatus code reason).statusLine

theorem loadErrorPage_of_throws {fs : FileSystem} {pagePath : Bytes} (h : PageThrows fs pagePath) (fallback : Bytes) :
    loadErrorPage fs pagePath fallback = none := by
  rw [loadErrorPage, if_neg h.1, FileSystem.readFile_eq_thrown_iff.mpr h.2]

theorem exists_loadErrorPage {fs : FileSystem} {pagePath : Bytes} (h : ¬ PageThrows fs pagePath) (fallback : Bytes) :
    ∃ body, loadErrorPage fs pagePath fallback = some body := by
  unfold loadErrorPage
  split
  · exact ⟨fallback, rfl⟩
  · next hpage =>
    split
    · exact ⟨fallback, rfl⟩
    · next hthrown => exact absurd ⟨hpage, FileSystem.readFile_eq_thrown_iff.mp hthrown⟩ h
    · next content _ => exact ⟨content, rfl⟩

section
variable {fs : FileSystem} {code : ℤ} {reason fallback pagePath : Bytes}

theorem errorPage_of_throws (h : PageThrows fs pagePath) : errorPage fs code reason fallback pagePath = none := by
  rw [errorPage, loadErrorPage_of_throws h, Option.map_none]

theorem exists_errorPage (h : ¬ PageThrows fs pagePath) : ∃ response,
    errorPage fs code reason fallback pagePath = some response ∧ response.statusLine = statusOf code reason := by
  obtain ⟨body, hbody⟩ := exists_loadErrorPage h fallback
  have hpage : errorPage fs code reason fallback pagePath = some ((({} : HTTPResponse).setStatus code reason).setBody
      body |>.setHeader (ascii "Content-Type") (ascii "text/html")) := by rw [errorPage, hbody, Option.map_some]
  exact ⟨_, hpage, rfl⟩

theorem errorPage_eq_none_iff : errorPage fs code reason fallback pagePath = none ↔ PageThrows fs pagePath := by
  constructor
  · intro hnone
    by_contra h
    obtain ⟨response, hsome, -⟩ : ∃ response, errorPage fs code reason fallback pagePath = some response ∧
      response.statusLine = statusOf code reason := exists_errorPage h
    rw [hnone] at hsome
    cases hsome
  · exact errorPage_of_throws

theorem errorPage_statusLine {response : HTTPResponse}
    (h : errorPage fs code reason fallback pagePath = some response) :
    response.statusLine = statusOf code reason := by
  obtain ⟨body, -, rfl⟩ := Option.map_eq_some_iff.mp h
  rfl

theorem errorPage_body {response : HTTPResponse} (h : errorPage fs code reason fallback pagePath = some response) :
    loadErrorPage fs pagePath fallback = some response.body := by
  obtain ⟨body, hbody, rfl⟩ := Option.map_eq_some_iff.mp h
  exact hbody

end

def error400 (fs : FileSystem) (pagePath : Bytes) : Option HTTPResponse :=
  errorPage fs 400 (ascii "Bad Request") (ascii "400 Bad Request") pagePath
def error403 (fs : FileSystem) (pagePath : Bytes) : Option HTTPResponse :=
  errorPage fs 403 (ascii "Forbidden") (ascii "403 Forbidden") pagePath
def error404 (fs : FileSystem) (pagePath : Bytes) : Option HTTPResponse :=
  errorPage fs 404 (ascii "Not Found") (ascii "404 Not Found") pagePath
def error405 (fs : FileSystem) (pagePath : Bytes) : Option HTTPResponse :=
  errorPage fs 405 (ascii "Method Not Allowed") (ascii "405 Method Not Allowed") pagePath
def error413 (fs : FileSystem) (pagePath : Bytes) : Option HTTPResponse :=
  errorPage fs 413 (ascii "Payload Too Large") (ascii "413 Payload Too Large") pagePath
def error500 (fs : FileSystem) (pagePath : Bytes) : Option HTTPResponse :=
  errorPage fs 500 (ascii "Internal Server Error") (ascii "500 Internal Server Error") pagePath

def success200 (body contentType : Bytes) : HTTPResponse :=
  ((({} : HTTPResponse).setStatus 200 (ascii "OK")).setBody body).setHeader
    (ascii "Content-Type") contentType
def success201 (body contentType : Bytes) : HTTPResponse :=
  ((({} : HTTPResponse).setStatus 201 (ascii "Created")).setBody body).setHeader
    (ascii "Content-Type") contentType

def redirect301 (url : Bytes) : HTTPResponse :=
  (((({} : HTTPResponse).setStatus 301 (ascii "Moved Permanently")).setHeader (ascii "Location") url).setBody
    (ascii "<html><body><h1>301 Moved Permanently</h1></body></html>")).setHeader
    (ascii "Content-Type") (ascii "text/html")
def redirect302 (url : Bytes) : HTTPResponse :=
  (((({} : HTTPResponse).setStatus 302 (ascii "Found")).setHeader (ascii "Location") url).setBody
    (ascii "<html><body><h1>302 Found</h1></body></html>")).setHeader
    (ascii "Content-Type") (ascii "text/html")

end HTTPResponse
end WebServ
