import WebServ.Http.Handler

/-! # What a GET request is answered with

A directory is replaced by its index without a second look at what the index is. A directory
with the name of the index is opened as a file, and reading it throws; so does a directory
that is configured as the page of an error.
-/
namespace WebServ.HTTPHandler
open HTTPResponse FileSystem

def indexName (route : RouteConfig) : Bytes := if route.index = [] then ascii "index.html" else route.index

/-- Where the target of a request lies in the file system. -/
def targetPath (request : HTTPRequest) (route : RouteConfig) : Bytes := rootDir route ++ requestPath request route

def indexPath (request : HTTPRequest) (route : RouteConfig) : Bytes :=
  targetPath request route ++ ascii "/" ++ indexName route

/-! ## The answer that is due -/

/-- The file is served with its bytes, when it may be read. -/
def ServesFile (content : Bytes) (readable : Bool) (response : HTTPResponse) : Prop :=
  if readable then response.statusLine = statusOf 200 (ascii "OK") ∧ response.body = content
  else response.statusLine = statusOf 403 (ascii "Forbidden")

/-- A line of a listing: a link with the name. A slash stands behind the name of a directory, and the link
has it too where the system tells what the name stands for. -/
def ListsName (fs : FileSystem) (path name line : Bytes) : Prop := ∃ linkSlash displaySlash,
  line = ascii "<a href=\"" ++ name ++ linkSlash ++ ascii "\">" ++ name ++ displaySlash ++ ascii "</a>\n" ∧
    displaySlash = (if fs.isDirectory (entryPath path name) then ascii "/" else []) ∧
    (linkSlash = [] ∨ linkSlash = ascii "/") ∧
    ((fs.entry (entryPath path name)).isSome → linkSlash = displaySlash)

/-- A listing: a heading with the target, and a line for each name but that of the directory itself. -/
def ListsDirectory (fs : FileSystem) (path uri : Bytes) (names : List Bytes) (response : HTTPResponse) : Prop :=
  response.statusLine = statusOf 200 (ascii "OK") ∧ ∃ lines,
    List.Forall₂ (ListsName fs path) (names.filter (· ≠ ascii ".")) lines ∧
    response.body = ascii "<html>\n<head><title>Index of " ++ uri ++ ascii "</title></head>\n<body>\n<h1>Index of " ++
      uri ++ ascii "</h1><hr><pre>\n" ++ lines.flatten ++ ascii "</pre><hr></body>\n</html>"

/-- The answer that is due: a file, the index of a directory when that is a file, a
listing where listings are on, and otherwise that nothing was found. -/
def AnswersGet (fs : FileSystem) (request : HTTPRequest) (route : RouteConfig) (response : HTTPResponse) : Prop :=
  match fs.entry (targetPath request route) with
  | none => response.statusLine = statusOf 404 (ascii "Not Found")
  | some (.file content readable _) => ServesFile content readable response
  | some (.directory names) =>
    match fs.entry (indexPath request route) with
    | some (.file content readable _) => ServesFile content readable response
    | _ =>
      if route.autoindex then
        ListsDirectory fs (targetPath request route) (stripQueryString request.requestTarget) names response
      else response.statusLine = statusOf 404 (ascii "Not Found")

/-! ## What throws -/

/-- The page configured for an error is a directory. -/
def ErrorThrows (fs : FileSystem) (server : ServerConfig) (code : ℤ) : Prop := PageThrows fs (getErrorPage code server)

instance (fs : FileSystem) (server : ServerConfig) (code : ℤ) : Decidable (ErrorThrows fs server code) :=
  inferInstanceAs (Decidable (PageThrows _ _))

/-- Where a request leads to a directory that is read as a file: its target and the index in it are both
directories, or the page of the error that it gets is one. -/
def GetThrows (fs : FileSystem) (request : HTTPRequest) (route : RouteConfig) (server : ServerConfig) : Prop :=
  match fs.entry (targetPath request route) with
  | none => ErrorThrows fs server 404
  | some (.file _ readable _) => readable = false ∧ ErrorThrows fs server 403
  | some (.directory _) =>
    match fs.entry (indexPath request route) with
    | some (.directory _) => True
    | some (.file _ readable _) => readable = false ∧ ErrorThrows fs server 403
    | none => route.autoindex = false ∧ ErrorThrows fs server 404

theorem handleGet_eq (fs : FileSystem) (request : HTTPRequest) (route : RouteConfig) (server : ServerConfig) :
    handleGet fs request route server = match fs.entry (targetPath request route) with
      | none => error404 fs (getErrorPage 404 server)
      | some (.file _ _ _) => serveFile fs (targetPath request route) server
      | some (.directory _) =>
        if (fs.entry (indexPath request route)).isSome then serveFile fs (indexPath request route) server
        else if route.autoindex then generateAutoindex fs (targetPath request route)
          (stripQueryString request.requestTarget) server
        else error404 fs (getErrorPage 404 server) := rfl

section
variable {fs : FileSystem} {path content : Bytes} {readable writable : Bool} (server : ServerConfig)

theorem serveFile_file (h : fs.entry path = some (.file content readable writable)) :
    serveFile fs path server = if readable then some (success200 content (getMimeType path))
      else error403 fs (getErrorPage 403 server) := by
  unfold serveFile
  cases readable <;> simp [isReadable, readFile, h]

theorem serveFile_serves (h : fs.entry path = some (.file content readable writable))
    (hn : ¬ (readable = false ∧ ErrorThrows fs server 403)) :
    ∃ response, serveFile fs path server = some response ∧ ServesFile content readable response := by
  rw [serveFile_file server h]
  cases readable with
  | true => exact ⟨_, rfl, rfl, rfl⟩
  | false => exact exists_errorPage fun hthrows => hn ⟨rfl, hthrows⟩

theorem serveFile_throws (h : fs.entry path = some (.file content readable writable))
    (ht : readable = false ∧ ErrorThrows fs server 403) : serveFile fs path server = none := by
  obtain ⟨rfl, hthrows⟩ := ht
  rw [serveFile_file server h]
  exact errorPage_of_throws hthrows

theorem serveFile_directory (h : fs.isDirectory path = true) : serveFile fs path server = none := by
  obtain ⟨names, hentry⟩ := isDirectory_iff.mp h
  have hreadable : fs.isReadable path = true := by simp [isReadable, hentry]
  rw [serveFile, if_pos hreadable, readFile_eq_thrown_iff.mpr h]

end

/-! ## Listings -/

theorem autoindexEntry_lists (fs : FileSystem) (path : Bytes) (held : Bool) (name : Bytes) :
    ListsName fs path name (autoindexEntry fs path held name).2 := by
  refine ⟨_, _, rfl, rfl, ?_, fun hsome => ?_⟩
  · exact (ite_eq_or_eq _ _ _).symm
  · rw [if_pos hsome]

theorem autoindexLines_lists (fs : FileSystem) (path : Bytes) (held : Bool) (names : List Bytes) :
    List.Forall₂ (ListsName fs path) (names.filter (· ≠ ascii ".")) (autoindexLines fs path held names) := by
  induction names generalizing held with
  | nil => exact .nil
  | cons name names ih =>
    unfold autoindexLines
    by_cases hname : name = ascii "."
    · rw [if_pos hname, List.filter_cons_of_neg (by simpa using hname)]
      exact ih held
    · rw [if_neg hname, List.filter_cons_of_pos (by simpa using hname)]
      exact .cons (autoindexEntry_lists fs path held name) (ih _)

theorem generateAutoindex_lists {fs : FileSystem} {path : Bytes} {names : List Bytes} (uri : Bytes)
    (server : ServerConfig) (h : fs.entry path = some (.directory names)) :
    ∃ response, generateAutoindex fs path uri server = some response ∧ ListsDirectory fs path uri names response := by
  have hlines := autoindexLines_lists fs path fs.unsetStat names
  unfold generateAutoindex
  rw [h]
  exact ⟨_, rfl, rfl, _, hlines, rfl⟩

/-! ## The answer that is given -/

theorem handleGet_throws {fs : FileSystem} {request : HTTPRequest} {route : RouteConfig} {server : ServerConfig}
    (h : GetThrows fs request route server) : handleGet fs request route server = none := by
  rw [handleGet_eq]
  unfold GetThrows at h
  rcases hentry : fs.entry (targetPath request route) with _ | ⟨names⟩ | ⟨content, readable, writable⟩
  · rw [hentry] at h
    exact errorPage_of_throws h
  · simp only [hentry] at h
    rcases hindex : fs.entry (indexPath request route) with _ | ⟨names'⟩ | ⟨content, readable, writable⟩
    · rw [hindex] at h
      obtain ⟨hauto, hthrows⟩ := h
      simp only [hauto, Option.isSome_none, Bool.false_eq_true, if_false]
      exact errorPage_of_throws hthrows
    · exact serveFile_directory server (isDirectory_iff.mpr ⟨names', hindex⟩)
    · rw [hindex] at h
      exact serveFile_throws server hindex h
  · rw [hentry] at h
    exact serveFile_throws server hentry h

theorem handleGet_answers {fs : FileSystem} {request : HTTPRequest} {route : RouteConfig} {server : ServerConfig}
    (h : ¬ GetThrows fs request route server) :
    ∃ response, handleGet fs request route server = some response ∧ AnswersGet fs request route response := by
  rw [handleGet_eq]
  unfold AnswersGet
  unfold GetThrows at h
  rcases hentry : fs.entry (targetPath request route) with _ | ⟨names⟩ | ⟨content, readable, writable⟩
  · rw [hentry] at h
    exact exists_errorPage h
  · simp only [hentry] at h
    rcases hindex : fs.entry (indexPath request route) with _ | ⟨names'⟩ | ⟨content, readable, writable⟩
    · rw [hindex] at h
      cases hauto : route.autoindex with
      | true => simpa using generateAutoindex_lists (stripQueryString request.requestTarget) server hentry
      | false =>
        have hfound : ¬ ErrorThrows fs server 404 := fun hthrows => h ⟨hauto, hthrows⟩
        simp only [Option.isSome_none, Bool.false_eq_true, if_false]
        exact exists_errorPage hfound
    · rw [hindex] at h
      exact absurd trivial h
    · rw [hindex] at h
      exact serveFile_serves server hindex h
  · rw [hentry] at h
    exact serveFile_serves server hentry h

theorem handleGet_eq_none_iff {fs : FileSystem} {request : HTTPRequest} {route : RouteConfig} {server : ServerConfig} :
    handleGet fs request route server = none ↔ GetThrows fs request route server := by
  constructor
  · intro hnone
    by_contra h
    obtain ⟨response, hsome, -⟩ := handleGet_answers h
    rw [hnone] at hsome
    cases hsome
  · exact handleGet_throws

/-- GET requests are answered as is due exactly when they do not lead to a directory that is read as a file. -/
theorem get_answers_iff (fs : FileSystem) (request : HTTPRequest) (route : RouteConfig) (server : ServerConfig) :
    (∃ response, handleGet fs request route server = some response ∧ AnswersGet fs request route response) ↔
      ¬ GetThrows fs request route server := by
  constructor
  · rintro ⟨response, hsome, -⟩ h
    rw [handleGet_throws h] at hsome
    cases hsome
  · exact handleGet_answers

/-- A directory named like the index is opened as a file. -/
theorem directory_as_index : ¬ ∃ response, handleGet
      { entry := fun path =>
          if path = ascii "w/" ∨ path = ascii "w//index.html" then some (.directory []) else none }
      { requestTarget := ascii "/" } { root := ascii "w" } {} = some response ∧
    AnswersGet
      { entry := fun path =>
          if path = ascii "w/" ∨ path = ascii "w//index.html" then some (.directory []) else none }
      { requestTarget := ascii "/" } { root := ascii "w" } response := by
  have hnone : handleGet
      { entry := fun path =>
          if path = ascii "w/" ∨ path = ascii "w//index.html" then some (.directory []) else none }
      { requestTarget := ascii "/" } { root := ascii "w" } {} = none := by decide +kernel
  rw [hnone]
  simp

end WebServ.HTTPHandler
