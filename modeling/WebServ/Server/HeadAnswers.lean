import WebServ.Server.ScriptGate

/-! # Requests without an answer body

The answer to a HEAD request is the one to a GET request, and its body is removed where
the methods are told apart. What is answered before that keeps its body.
-/
namespace WebServ.HTTPHandler
open Search HTTPResponse

/-- The same request, to get what it asks about. -/
def asGet (request : HTTPRequest) : HTTPRequest := { request with method := ascii "GET" }

/-- The request is not handed to the script of its route. -/
def OutsideScript (request : HTTPRequest) (route : Option RouteConfig) (server : ServerConfig) : Prop :=
  ∀ r, route = some r → ¬ Executes request r server

/-- The page configured for an error is an empty file. -/
def EmptyPage (fs : FileSystem) (server : ServerConfig) (code : ℤ) : Prop :=
  getErrorPage code server ≠ [] ∧ fs.readFile (getErrorPage code server) = .content []

/-- There is an answer, and it has no body. -/
def AnsweredBare (response : Option HTTPResponse) : Prop := ∃ answer, response = some answer ∧ answer.body = []

theorem answeredBare_some {answer : HTTPResponse} : AnsweredBare (some answer) ↔ answer.body = [] := by
  simp [AnsweredBare]

theorem loadErrorPage_eq_nil_iff {fs : FileSystem} {pagePath fallback : Bytes} (hf : fallback ≠ []) :
    loadErrorPage fs pagePath fallback = some [] ↔ pagePath ≠ [] ∧ fs.readFile pagePath = .content [] := by
  unfold loadErrorPage
  by_cases hp : pagePath = []
  · simp [hp, hf]
  · rw [if_neg hp]
    cases fs.readFile pagePath with
    | unopened => simp [hf]
    | thrown => simp
    | content page => simp [hp]

theorem errorPage_bare_iff {fs : FileSystem} {code : ℤ} {reason fallback pagePath : Bytes} (hf : fallback ≠ []) :
    AnsweredBare (errorPage fs code reason fallback pagePath) ↔
      pagePath ≠ [] ∧ fs.readFile pagePath = .content [] := by
  rw [← loadErrorPage_eq_nil_iff hf]
  constructor
  · rintro ⟨answer, hpage, hbody⟩
    rw [errorPage_body hpage, hbody]
  · intro hload
    refine ⟨_, by rw [errorPage, hload, Option.map_some], rfl⟩

theorem redirection_body {route : RouteConfig} {response : HTTPResponse}
    (h : redirection route = some response) : response.body ≠ [] := by
  obtain ⟨url, rfl | rfl⟩ := redirection_isRedirect h
  · have hbody : (redirect301 url).body = ascii "<html><body><h1>301 Moved Permanently</h1></body></html>" := rfl
    rw [hbody]
    decide
  · have hbody : (redirect302 url).body = ascii "<html><body><h1>302 Found</h1></body></html>" := rfl
    rw [hbody]
    decide

/-- Either the request gets to where bodies are removed and no directory is read as a file there, or it is
answered with an error page that is empty of itself. -/
def Bodiless (fs : FileSystem) (request : HTTPRequest) (route : Option RouteConfig) (server : ServerConfig) :
    Prop :=
  match route with
  | none => EmptyPage fs server 404
  | some route => redirection route = none ∧
      (route.allows request.method = false → EmptyPage fs server 405) ∧
      (route.allows request.method = true → OverLimit request route server → EmptyPage fs server 413) ∧
      (route.allows request.method = true → ¬ OverLimit request route server → ¬ GetThrows fs request route server)

theorem byMethod_head {fs : FileSystem} {request : HTTPRequest} {route : RouteConfig} {server : ServerConfig}
    (hm : request.method = ascii "HEAD") :
    (byMethod fs request route server).1 = (handleGet fs request route server).map clearBody := by
  have hget : ascii "HEAD" ≠ ascii "GET" := by decide
  rw [byMethod, hm, if_neg hget, if_pos rfl]

theorem map_clearBody_bare_iff {fs : FileSystem} {request : HTTPRequest} {route : RouteConfig} {server : ServerConfig} :
    AnsweredBare ((handleGet fs request route server).map clearBody) ↔ ¬ GetThrows fs request route server := by
  rw [← handleGet_eq_none_iff]
  cases handleGet fs request route server with
  | none => simp [AnsweredBare]
  | some whole => simp [answeredBare_some, clearBody]

theorem head_bare_iff (fs : FileSystem) (execute : Bytes) {request : HTTPRequest}
    {route : Option RouteConfig} {server : ServerConfig} (hm : request.method = ascii "HEAD")
    (hs : OutsideScript request route server) :
    AnsweredBare (handleRequest fs execute request route server).1 ↔ Bodiless fs request route server := by
  cases route with
  | none => exact errorPage_bare_iff (by decide)
  | some route =>
    cases hr : redirection route with
    | some response =>
      have hbody := redirection_body hr
      rw [handleRequest_redirected fs execute request server hr, answeredBare_some]
      simp [Bodiless, hr, hbody]
    | none =>
      cases ha : route.allows request.method with
      | false =>
        rw [handleRequest_refused fs execute server hr ha, error405, errorPage_bare_iff (by decide)]
        simp [Bodiless, EmptyPage, hr, ha]
      | true =>
        by_cases hl : OverLimit request route server
        · rw [handleRequest_overLimit fs execute hr ha hl, error413, errorPage_bare_iff (by decide)]
          simp [Bodiless, EmptyPage, hr, ha, hl]
        · rw [handleRequest_byMethod fs execute hr ha hl (hs route rfl), byMethod_head hm, map_clearBody_bare_iff]
          simp [Bodiless, hr, hl, ha]

/-- Up to the body two answers are the same. -/
def SameHead (response response' : Option HTTPResponse) : Prop := ∃ answer answer',
  response = some answer ∧ response' = some answer' ∧ answer.statusLine = answer'.statusLine ∧
    answer.headers = answer'.headers

theorem sameHead_refl {response : Option HTTPResponse} (h : ∃ answer, response = some answer) :
    SameHead response response := by
  obtain ⟨answer, rfl⟩ := h
  exact ⟨answer, answer, rfl, rfl, rfl, rfl⟩

/-- Up to the body the two methods are answered alike. -/
theorem head_agrees_get (fs : FileSystem) (execute : Bytes) {request : HTTPRequest} {route : Option RouteConfig}
    {server : ServerConfig} (hm : request.method = ascii "HEAD") (hs : OutsideScript request route server)
    (hboth : ∀ r, route = some r → r.allows (ascii "HEAD") = true ∧ r.allows (ascii "GET") = true)
    (hanswered : ∃ answer, (handleRequest fs execute request route server).1 = some answer) :
    SameHead (handleRequest fs execute request route server).1
      (handleRequest fs execute (asGet request) route server).1 := by
  cases route with
  | none => exact sameHead_refl hanswered
  | some route =>
    obtain ⟨hhead, hget⟩ := hboth route rfl
    cases hr : redirection route with
    | some response =>
      rw [handleRequest_redirected fs execute request server hr] at hanswered ⊢
      rw [handleRequest_redirected fs execute (asGet request) server hr]
      exact sameHead_refl hanswered
    | none =>
      have ha : route.allows request.method = true := by
        rw [hm]
        exact hhead
      have ha' : route.allows (asGet request).method = true := hget
      by_cases hl : OverLimit request route server
      · have hl' : OverLimit (asGet request) route server := hl
        rw [handleRequest_overLimit fs execute hr ha hl] at hanswered ⊢
        rw [handleRequest_overLimit fs execute hr ha' hl']
        exact sameHead_refl hanswered
      · have hl' : ¬ OverLimit (asGet request) route server := hl
        have hs' : ¬ Executes (asGet request) route server := by
          rintro ⟨-, -, -, hext, hmatch⟩
          exact hs route rfl ⟨hr, ha, hl, hext, hmatch⟩
        have hwhole : (byMethod fs (asGet request) route server).1 = handleGet fs request route server := by
          rw [byMethod, asGet, if_pos rfl]
          rfl
        rw [handleRequest_byMethod fs execute hr ha hl (hs route rfl), byMethod_head hm] at hanswered ⊢
        rw [handleRequest_byMethod fs execute hr ha' hl' hs', hwhole]
        obtain ⟨answer, hanswer⟩ := hanswered
        obtain ⟨whole, hget, rfl⟩ := Option.map_eq_some_iff.mp hanswer
        exact ⟨_, whole, hanswer, hget, rfl, rfl⟩

/-- What an answer to a HEAD request must be: without a body, and otherwise the one to
the GET request when the route allows both. -/
structure MirrorsGet (fs : FileSystem) (execute : Bytes) (request : HTTPRequest) (route : Option RouteConfig)
    (server : ServerConfig) : Prop where
  bodiless : AnsweredBare (handleRequest fs execute request route server).1
  alike : (∀ r, route = some r → r.allows (ascii "HEAD") = true ∧ r.allows (ascii "GET") = true) →
    SameHead (handleRequest fs execute request route server).1
      (handleRequest fs execute (asGet request) route server).1

/-- HEAD requests are answered as they must be exactly where the body is removed and nothing throws, or
where the page of the error is empty. -/
theorem head_mirrors_get_iff (fs : FileSystem) (execute : Bytes) (request : HTTPRequest)
    (route : Option RouteConfig) (server : ServerConfig) (hm : request.method = ascii "HEAD")
    (hs : OutsideScript request route server) :
    MirrorsGet fs execute request route server ↔ Bodiless fs request route server := by
  rw [← head_bare_iff fs execute hm hs]
  constructor
  · exact fun h => h.bodiless
  · intro hbare
    obtain ⟨answer, hanswer, -⟩ := id hbare
    exact ⟨hbare, fun hboth => head_agrees_get fs execute hm hs hboth ⟨answer, hanswer⟩⟩

theorem head_mirrors_get_served :
    MirrorsGet {} [] { method := ascii "HEAD", requestTarget := ascii "/a" } (some {}) {} := by
  have houtside : OutsideScript { method := ascii "HEAD", requestTarget := ascii "/a" } (some {}) {} := by
    rintro r hr ⟨-, -, -, hext, -⟩
    obtain rfl := Option.some.inj hr
    exact hext rfl
  have hserved : Bodiless {} { method := ascii "HEAD", requestTarget := ascii "/a" } (some {}) {} :=
    ⟨rfl, fun ha => absurd ha (by decide), fun _ hl => absurd rfl hl.1, fun _ _ hthrows => absurd rfl hthrows.1⟩
  exact (head_mirrors_get_iff {} [] _ (some {}) {} rfl houtside).mpr hserved

/-- Without a route a HEAD request gets the page of the error with its body. -/
theorem head_without_route : ¬ MirrorsGet {} [] { method := ascii "HEAD", requestTarget := ascii "/a" } none {} := by
  intro h
  obtain ⟨answer, hanswer, hbody⟩ := h.bodiless
  have hpage : (handleRequest {} [] { method := ascii "HEAD", requestTarget := ascii "/a" } none {}).1.map
      HTTPResponse.body = some (ascii "404 Not Found") := rfl
  rw [hanswer, Option.map_some, hbody, Option.some.injEq] at hpage
  exact absurd hpage (by decide)

end WebServ.HTTPHandler
