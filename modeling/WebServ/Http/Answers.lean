import WebServ.Http.FileAnswers

/-! # How a request is answered

A request is answered by the first of a few checks that it does not pass, by the script
of its route, or by what its method asks for. What throws on the way is told from the
file system and the configuration alone.
-/
namespace WebServ.HTTPHandler
open Search HTTPResponse FileSystem

/-- The check that is made once more when a request is handled. -/
def OverLimit (request : HTTPRequest) (route : RouteConfig) (server : ServerConfig) : Prop :=
  request.getHeaderValue (ascii "Content-Length") ≠ [] ∧ effectiveMaxBody (some route) server > 0 ∧
    toSizeT (atol (request.getHeaderValue (ascii "Content-Length"))) > effectiveMaxBody (some route) server

/-- The checks before the script are passed, and the target has the extension of the route. -/
def Executes (request : HTTPRequest) (route : RouteConfig) (server : ServerConfig) : Prop :=
  redirection route = none ∧ route.allows request.method = true ∧ ¬ OverLimit request route server ∧
    route.cgiExtension ≠ [] ∧ route.matchesExtension (stripQueryString request.requestTarget) = true

/-- What `handle_request` makes of the output of a script. -/
def scriptResponse (fs : FileSystem) (output : Bytes) (server : ServerConfig) : Option HTTPResponse :=
  if output = [] then error500 fs (getErrorPage 500 server) else parseCgiResponse fs output server

/-- The answer by method, for what is not left to a script. -/
def byMethod (fs : FileSystem) (request : HTTPRequest) (route : RouteConfig) (server : ServerConfig) :
    Option HTTPResponse × List FileEffect :=
  if request.method = ascii "GET" then (handleGet fs request route server, [])
  else if request.method = ascii "HEAD" then ((handleGet fs request route server).map clearBody, [])
  else if request.method = ascii "POST" then
    let (response, effects) := handlePost fs request route
    (some response, effects)
  else if request.method = ascii "DELETE" then handleDelete fs request route server
  else (error405 fs (getErrorPage 405 server), [])

section
variable (fs : FileSystem) (execute : Bytes) {request : HTTPRequest} {route : RouteConfig} {server : ServerConfig}

theorem handleRequest_overLimit (hr : redirection route = none) (ha : route.allows request.method = true)
    (h : OverLimit request route server) : handleRequest fs execute request (some route) server =
      (error413 fs (getErrorPage 413 server), []) := by
  unfold handleRequest
  simp only [hr, ha, not_true_eq_false, if_false]
  exact if_pos h

theorem handleRequest_executes (h : Executes request route server) :
    handleRequest fs execute request (some route) server = (scriptResponse fs execute server, []) := by
  obtain ⟨hr, ha, hl, hext, hm⟩ := h
  unfold handleRequest scriptResponse
  unfold OverLimit at hl
  simp only [hr, ha, not_true_eq_false, if_false]
  rw [if_neg hl, if_pos ⟨hext, hm⟩]
  split <;> rfl

theorem handleRequest_byMethod (hr : redirection route = none) (ha : route.allows request.method = true)
    (hl : ¬ OverLimit request route server) (hs : ¬ Executes request route server) :
    handleRequest fs execute request (some route) server = byMethod fs request route server := by
  have hscript : ¬ (route.cgiExtension ≠ [] ∧
      route.matchesExtension (stripQueryString request.requestTarget) = true) := by
    rintro ⟨hext, hm⟩
    exact hs ⟨hr, ha, hl, hext, hm⟩
  unfold handleRequest byMethod
  simp only [hr, ha, not_true_eq_false, if_false]
  rw [OverLimit] at hl
  rw [if_neg hl, if_neg hscript]

theorem handleRequest_refused (server : ServerConfig) (hr : redirection route = none)
    (ha : route.allows request.method = false) : handleRequest fs execute request (some route) server =
      (error405 fs (getErrorPage 405 server), []) := by
  unfold handleRequest
  simp only [hr, ha, Bool.false_eq_true, not_false_eq_true, if_true]

theorem handleRequest_redirected (request : HTTPRequest) (server : ServerConfig) {response : HTTPResponse}
    (hr : redirection route = some response) :
    handleRequest fs execute request (some route) server = (some response, []) := by
  simp only [handleRequest, hr]

end

/-! ## What throws -/

/-- Where DELETE answers with an error whose page is a directory. -/
def DeleteThrows (fs : FileSystem) (request : HTTPRequest) (route : RouteConfig) (server : ServerConfig) : Prop :=
  if requestPath request route = ascii "/" then ErrorThrows fs server 400
  else
    match fs.entry (targetPath request route) with
    | none => ErrorThrows fs server 404
    | some (.directory _) => ErrorThrows fs server 400
    | some (.file _ _ writable) =>
      if writable then fs.removable (cStr (targetPath request route)) = false ∧ ErrorThrows fs server 500
      else ErrorThrows fs server 403

def MethodThrows (fs : FileSystem) (request : HTTPRequest) (route : RouteConfig) (server : ServerConfig) : Prop :=
  if request.method = ascii "GET" ∨ request.method = ascii "HEAD" then GetThrows fs request route server
  else if request.method = ascii "POST" then False
  else if request.method = ascii "DELETE" then DeleteThrows fs request route server
  else ErrorThrows fs server 405

section
variable {fs : FileSystem} {request : HTTPRequest} {route : RouteConfig} {server : ServerConfig}

theorem handleDelete_eq_none_iff :
    (handleDelete fs request route server).1 = none ↔ DeleteThrows fs request route server := by
  unfold handleDelete DeleteThrows
  change _ ↔ if _ then _ else match fs.entry (rootDir route ++ requestPath request route) with
    | none => _
    | some (.directory _) => _
    | some (.file _ _ writable) => _
  by_cases hroot : requestPath request route = ascii "/"
  · simp only [hroot, if_true]
    exact errorPage_eq_none_iff
  simp only [hroot, if_false]
  rcases hentry : fs.entry (rootDir route ++ requestPath request route) with _ | ⟨names⟩ | ⟨content, readable, writable⟩
  · exact errorPage_eq_none_iff
  · exact errorPage_eq_none_iff
  · have hwritable : fs.isWritable (rootDir route ++ requestPath request route) = writable := by
      simp [FileSystem.isWritable, hentry]
    simp only [hwritable]
    cases writable with
    | false => exact errorPage_eq_none_iff
    | true =>
      simp only [if_true]
      cases hremovable : fs.removable (cStr (rootDir route ++ requestPath request route)) with
      | true => simp [targetPath, hremovable]
      | false =>
        simp only [targetPath, hremovable, Bool.false_eq_true, if_false, true_and]
        exact errorPage_eq_none_iff

theorem byMethod_eq_none_iff :
    (byMethod fs request route server).1 = none ↔ MethodThrows fs request route server := by
  unfold byMethod MethodThrows
  by_cases hget : request.method = ascii "GET"
  · simp only [hget, if_true, true_or]
    exact handleGet_eq_none_iff
  by_cases hhead : request.method = ascii "HEAD"
  · simp only [hhead, if_true, or_true]
    rw [if_neg (by decide), Option.map_eq_none_iff]
    exact handleGet_eq_none_iff
  simp only [hget, hhead, or_self, if_false]
  by_cases hpost : request.method = ascii "POST"
  · simp [hpost]
  simp only [hpost, if_false]
  by_cases hdelete : request.method = ascii "DELETE"
  · simp only [hdelete, if_true]
    exact handleDelete_eq_none_iff
  · simp only [hdelete, if_false]
    exact errorPage_eq_none_iff

/-- Nothing is thrown where no directory is met. -/
theorem ErrorThrows.isDirectory {code : ℤ} (h : ErrorThrows fs server code) : ∃ path, fs.isDirectory path = true :=
  ⟨_, h.2⟩

theorem isDirectory_of_getThrows (h : GetThrows fs request route server) : ∃ path, fs.isDirectory path = true := by
  unfold GetThrows at h
  split at h
  · exact h.isDirectory
  · exact h.2.isDirectory
  · next names hentry => exact ⟨_, isDirectory_iff.mpr ⟨names, hentry⟩⟩

theorem isDirectory_of_deleteThrows (h : DeleteThrows fs request route server) :
    ∃ path, fs.isDirectory path = true := by
  unfold DeleteThrows at h
  split_ifs at h
  · exact h.isDirectory
  · split at h
    · exact h.isDirectory
    · exact h.isDirectory
    · split_ifs at h
      · exact h.2.isDirectory
      · exact h.isDirectory

theorem isDirectory_of_methodThrows (h : MethodThrows fs request route server) :
    ∃ path, fs.isDirectory path = true := by
  unfold MethodThrows at h
  split_ifs at h
  · exact isDirectory_of_getThrows h
  · exact isDirectory_of_deleteThrows h
  · exact h.isDirectory

theorem isDirectory_of_scriptResponse {output : Bytes} (h : scriptResponse fs output server = none) :
    ∃ path, fs.isDirectory path = true := by
  unfold scriptResponse at h
  split at h
  · exact ErrorThrows.isDirectory (errorPage_eq_none_iff.mp h)
  · unfold parseCgiResponse at h
    split at h
    · cases h
    · split at h
      · cases h
      · exact ErrorThrows.isDirectory (errorPage_eq_none_iff.mp h)

/-- A request makes the server throw only where a directory is read as a file. -/
theorem isDirectory_of_handleRequest {execute : Bytes} {chosen : Option RouteConfig}
    (h : (handleRequest fs execute request chosen server).1 = none) : ∃ path, fs.isDirectory path = true := by
  cases chosen with
  | none => exact ErrorThrows.isDirectory (errorPage_eq_none_iff.mp h)
  | some route =>
    cases hr : redirection route with
    | some response =>
      rw [handleRequest_redirected fs execute request server hr] at h
      cases h
    | none =>
      cases ha : route.allows request.method with
      | false =>
        rw [handleRequest_refused fs execute server hr ha] at h
        exact ErrorThrows.isDirectory (errorPage_eq_none_iff.mp h)
      | true =>
        by_cases hl : OverLimit request route server
        · rw [handleRequest_overLimit fs execute hr ha hl] at h
          exact ErrorThrows.isDirectory (errorPage_eq_none_iff.mp h)
        by_cases hs : Executes request route server
        · rw [handleRequest_executes fs execute hs] at h
          exact isDirectory_of_scriptResponse h
        · rw [handleRequest_byMethod fs execute hr ha hl hs] at h
          exact isDirectory_of_methodThrows (byMethod_eq_none_iff.mp h)

end

/-! ## Answers with 413 -/

/-- The status line of a refusal for the size. -/
abbrev tooLarge : Bytes := ascii "HTTP/1.1 413 Payload Too Large"

theorem error413_statusLine {fs : FileSystem} {pagePath : Bytes} {response : HTTPResponse}
    (h : error413 fs pagePath = some response) : response.statusLine = tooLarge := by
  rw [errorPage_statusLine h]
  decide

theorem errorPage_not_tooLarge {fs : FileSystem} {code : ℤ} {reason fallback pagePath : Bytes} {response : HTTPResponse}
    (h : errorPage fs code reason fallback pagePath = some response) (hcode : statusOf code reason ≠ tooLarge) :
    response.statusLine ≠ tooLarge := by
  rw [errorPage_statusLine h]
  exact hcode

theorem success200_statusLine (body contentType : Bytes) : (success200 body contentType).statusLine ≠ tooLarge := by
  change statusOf 200 (ascii "OK") ≠ tooLarge
  decide

theorem success201_statusLine (body contentType : Bytes) : (success201 body contentType).statusLine ≠ tooLarge := by
  change statusOf 201 (ascii "Created") ≠ tooLarge
  decide

def IsRedirect (response : HTTPResponse) : Prop :=
  ∃ url, response = redirect301 url ∨ response = redirect302 url

theorem redirection_isRedirect {route : RouteConfig} {response : HTTPResponse}
    (h : redirection route = some response) : IsRedirect response := by
  unfold redirection at h
  split at h
  · exact ⟨_, Or.inl (Option.some.inj h).symm⟩
  · split at h
    · exact ⟨_, Or.inr (Option.some.inj h).symm⟩
    · cases h

theorem IsRedirect.statusLine {response : HTTPResponse} (h : IsRedirect response) : response.statusLine ≠ tooLarge := by
  obtain ⟨url, rfl | rfl⟩ := h
  · change statusOf 301 (ascii "Moved Permanently") ≠ tooLarge
    decide
  · change statusOf 302 (ascii "Found") ≠ tooLarge
    decide

section
variable {fs : FileSystem} {request : HTTPRequest} {route : RouteConfig} {server : ServerConfig}
  {response : HTTPResponse}

theorem serveFile_statusLine {path : Bytes} (h : serveFile fs path server = some response) :
    response.statusLine ≠ tooLarge := by
  unfold serveFile at h
  split at h
  · split at h
    · obtain rfl := Option.some.inj h
      exact success200_statusLine _ _
    · cases h
    · exact errorPage_not_tooLarge h (by decide)
  · exact errorPage_not_tooLarge h (by decide)

theorem generateAutoindex_statusLine {path uri : Bytes} (h : generateAutoindex fs path uri server = some response) :
    response.statusLine ≠ tooLarge := by
  unfold generateAutoindex at h
  split at h
  · obtain rfl := Option.some.inj h
    exact success200_statusLine _ _
  · exact errorPage_not_tooLarge h (by decide)

theorem handleGet_statusLine (h : handleGet fs request route server = some response) :
    response.statusLine ≠ tooLarge := by
  rw [handleGet_eq] at h
  split at h
  · exact errorPage_not_tooLarge h (by decide)
  · exact serveFile_statusLine h
  · split_ifs at h
    · exact serveFile_statusLine h
    · exact generateAutoindex_statusLine h
    · exact errorPage_not_tooLarge h (by decide)

theorem handlePost_statusLine : (handlePost fs request route).1.statusLine ≠ tooLarge := by
  unfold handlePost
  dsimp only
  split
  · split
    · split
      · exact success201_statusLine _ _
      · exact success200_statusLine _ _
    · exact success200_statusLine _ _
  · split
    · split
      · exact success201_statusLine _ _
      · exact success200_statusLine _ _
    · exact success200_statusLine _ _

theorem handleDelete_statusLine (h : (handleDelete fs request route server).1 = some response) :
    response.statusLine ≠ tooLarge := by
  unfold handleDelete at h
  dsimp only at h
  split at h
  · exact errorPage_not_tooLarge h (by decide)
  · split at h
    · exact errorPage_not_tooLarge h (by decide)
    · exact errorPage_not_tooLarge h (by decide)
    · split at h
      · split at h
        · obtain rfl := Option.some.inj h
          exact success200_statusLine _ _
        · exact errorPage_not_tooLarge h (by decide)
      · exact errorPage_not_tooLarge h (by decide)

theorem byMethod_statusLine (h : (byMethod fs request route server).1 = some response) :
    response.statusLine ≠ tooLarge := by
  unfold byMethod at h
  split_ifs at h
  · exact handleGet_statusLine h
  · obtain ⟨whole, hget, rfl⟩ := Option.map_eq_some_iff.mp h
    change whole.statusLine ≠ tooLarge
    exact handleGet_statusLine hget
  · obtain rfl := Option.some.inj h
    exact handlePost_statusLine
  · exact handleDelete_statusLine h
  · exact errorPage_not_tooLarge h (by decide)

/-- Outside scripts only the check of the length answers with 413. -/
theorem handleRequest_not_tooLarge {execute : Bytes} {chosen : Option RouteConfig}
    (hlimit : ∀ route, chosen = some route → redirection route = none → route.allows request.method = true →
      ¬ OverLimit request route server ∧ ¬ Executes request route server)
    (h : (handleRequest fs execute request chosen server).1 = some response) : response.statusLine ≠ tooLarge := by
  cases chosen with
  | none => exact errorPage_not_tooLarge h (by decide)
  | some route =>
    cases hr : redirection route with
    | some redirected =>
      rw [handleRequest_redirected fs execute request server hr] at h
      obtain rfl := Option.some.inj h
      exact (redirection_isRedirect hr).statusLine
    | none =>
      cases ha : route.allows request.method with
      | false =>
        rw [handleRequest_refused fs execute server hr ha] at h
        exact errorPage_not_tooLarge h (by decide)
      | true =>
        obtain ⟨hl, hs⟩ := hlimit route rfl hr ha
        rw [handleRequest_byMethod fs execute hr ha hl hs] at h
        exact byMethod_statusLine h

end

end WebServ.HTTPHandler
