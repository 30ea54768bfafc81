import WebServ.Server.ScriptPath

/-! # What a script is called with

There are two copies of the code that starts a script. The one for requests that wait
resolves the path of the script before it is put in the environment; the one of the loop
resolves it for the command line only.
-/
namespace WebServ
open Search HTTPHandler Paths

/-- The arguments of the system calls in the child. -/
structure ScriptCall where
  env : List Bytes
  cgiPath : Bytes
  scriptPath : Bytes
  scriptDir : Bytes
deriving DecidableEq, Repr

def toUpper (b : UInt8) : UInt8 := if 97 ≤ b ∧ b ≤ 122 then b - 32 else b

/-- The path, resolved when that succeeds. -/
def FileSystem.resolve (fs : FileSystem) (path : Bytes) : Bytes := (fs.realpath (cStr path)).getD path

/-- What stands before the last slash of a path. -/
def dirOf (path : Bytes) : Bytes :=
  if 47 ∈ path then (path.reverse.dropWhile (· ≠ 47)).tail.reverse else path

/-- The loop over the header map: names in capitals, with lines below for dashes. -/
def pushHeaders (env : List Bytes) (headers : List (Bytes × Bytes)) : List Bytes :=
  headers.foldl (fun env header =>
    if header.1 = ascii "content-type" ∨ header.1 = ascii "content-length" then env
    else
      let envName := header.1.foldl (fun envName c =>
        if c = 45 then envName ++ ascii "_" else envName ++ [toUpper c]) (ascii "HTTP_")
      env ++ [envName ++ ascii "=" ++ header.2]) env

/-! ## Requests that wait for the script -/

namespace CGI

def getScriptPath (fs : FileSystem) (request : HTTPRequest) (route : RouteConfig) : Bytes :=
  let requestTarget := match find (ascii "?") request.requestTarget with
    | some queryPos => request.requestTarget.take queryPos
    | none => request.requestTarget
  let requestTarget :=
    if route.path ≠ [] ∧ route.path ≠ ascii "/" ∧
        requestTarget.take route.path.length = route.path then
      let stripped := requestTarget.drop route.path.length
      if stripped = [] ∨ stripped.head? ≠ some 47 then ascii "/" ++ stripped else stripped
    else requestTarget
  let relative := route.root ++ requestTarget
  match fs.realpath (cStr relative) with
  | some resolved => resolved
  | none => relative

def setEnvironment (fs : FileSystem) (request : HTTPRequest) (route : RouteConfig) : List Bytes :=
  let requestTarget := request.requestTarget
  let (scriptName, queryString) := match find (ascii "?") requestTarget with
    | some queryPos => (requestTarget.take queryPos, requestTarget.drop (queryPos + 1))
    | none => (requestTarget, [])
  let env :=
    [ascii "GATEWAY_INTERFACE=CGI/1.1",
      ascii "SERVER_PROTOCOL=" ++ request.protocol,
      ascii "SERVER_NAME=" ++ request.getHeaderValue (ascii "host"),
      ascii "REQUEST_METHOD=" ++ request.method,
      ascii "SCRIPT_NAME=" ++ scriptName,
      ascii "PATH_INFO=" ++ requestTarget,
      ascii "REQUEST_URI=" ++ requestTarget,
      ascii "QUERY_STRING=" ++ queryString,
      ascii "CONTENT_TYPE=" ++ request.getHeaderValue (ascii "content-type"),
      ascii "CONTENT_LENGTH=" ++ request.getHeaderValue (ascii "content-length")]
  pushHeaders env request.headers.toList ++
    [ascii "SCRIPT_FILENAME=" ++ getScriptPath fs request route, ascii "REDIRECT_STATUS=200"]

/-- The child of `execute`. -/
def execute (fs : FileSystem) (request : HTTPRequest) (route : RouteConfig) : ScriptCall :=
  let env := setEnvironment fs request route
  let scriptPath := fs.resolve (getScriptPath fs request route)
  { env, cgiPath := fs.resolve route.cgiPath, scriptPath, scriptDir := dirOf scriptPath }

end CGI

/-! ## Requests that the loop hands over -/

/-- The child of `dispatch_cgi`. -/
def dispatchedCall (fs : FileSystem) (req : HTTPRequest) (route : RouteConfig) : ScriptCall :=
  let requestTarget := req.requestTarget
  let (scriptName, queryString) := match find (ascii "?") requestTarget with
    | some qp => (requestTarget.take qp, requestTarget.drop (qp + 1))
    | none => (requestTarget, [])
  let envVec :=
    [ascii "GATEWAY_INTERFACE=CGI/1.1",
      ascii "SERVER_PROTOCOL=" ++ req.protocol,
      ascii "SERVER_NAME=" ++ req.getHeaderValue (ascii "host"),
      ascii "REQUEST_METHOD=" ++ req.method,
      ascii "SCRIPT_NAME=" ++ scriptName,
      ascii "PATH_INFO=" ++ requestTarget,
      ascii "REQUEST_URI=" ++ requestTarget,
      ascii "QUERY_STRING=" ++ queryString,
      ascii "CONTENT_TYPE=" ++ req.getHeaderValue (ascii "content-type"),
      ascii "CONTENT_LENGTH=" ++ req.getHeaderValue (ascii "content-length")]
  -- the path in the environment and the one on the command line are built one after the other
  let rt := match find (ascii "?") requestTarget with
    | some qp2 => requestTarget.take qp2
    | none => requestTarget
  let rt :=
    if route.path ≠ [] ∧ route.path ≠ ascii "/" ∧ rt.take route.path.length = route.path then
      let stripped := rt.drop route.path.length
      if stripped = [] ∨ stripped.head? ≠ some 47 then ascii "/" ++ stripped else stripped
    else rt
  let env := pushHeaders envVec req.headers.toList ++
    [ascii "SCRIPT_FILENAME=" ++ (route.root ++ rt), ascii "REDIRECT_STATUS=200"]
  let rt2 := match find (ascii "?") requestTarget with
    | some qp3 => requestTarget.take qp3
    | none => requestTarget
  let rt2 :=
    if route.path ≠ [] ∧ route.path ≠ ascii "/" ∧ rt2.take route.path.length = route.path then
      let stripped := rt2.drop route.path.length
      if stripped = [] ∨ stripped.head? ≠ some 47 then ascii "/" ++ stripped else stripped
    else rt2
  let scriptPath := fs.resolve (route.root ++ rt2)
  { env, cgiPath := fs.resolve route.cgiPath, scriptPath, scriptDir := dirOf scriptPath }

/-! ## The two calls -/

theorem stripRoutePrefix_inline (routePath uri : Bytes) :
    (if routePath ≠ [] ∧ routePath ≠ ascii "/" ∧ uri.take routePath.length = routePath then
      let stripped := uri.drop routePath.length
      if stripped = [] ∨ stripped.head? ≠ some 47 then ascii "/" ++ stripped else stripped
    else uri) = stripRoutePrefix uri routePath := by
  unfold stripRoutePrefix
  by_cases hroot : routePath = ascii "/" ∨ routePath = []
  · rw [if_pos hroot, if_neg]
    rintro ⟨hne, hnroot, -⟩
    exact hroot.elim hnroot hne
  · rw [if_neg hroot]
    rw [not_or] at hroot
    by_cases htake : uri.take routePath.length = routePath
    · rw [if_pos ⟨hroot.2, hroot.1, htake⟩, if_pos htake]
      dsimp only
      by_cases hslash : (uri.drop routePath.length).head? = some 47
      · have hne : uri.drop routePath.length ≠ [] := by
          intro hnil
          simp [hnil] at hslash
        rw [if_pos hslash, if_neg (by simp [hne, hslash])]
      · rw [if_neg hslash, if_pos (Or.inr hslash)]
    · rw [if_neg htake, if_neg (fun h => htake h.2.2)]

/-- Each copy takes the path of the route off the target in the same way. -/
theorem scriptPath_inline (route : RouteConfig) (requestTarget : Bytes) :
    (let rt := match find (ascii "?") requestTarget with
      | some qp => requestTarget.take qp
      | none => requestTarget
    let rt :=
      if route.path ≠ [] ∧ route.path ≠ ascii "/" ∧ rt.take route.path.length = route.path then
        let stripped := rt.drop route.path.length
        if stripped = [] ∨ stripped.head? ≠ some 47 then ascii "/" ++ stripped else stripped
      else rt
    route.root ++ rt) = scriptPath route requestTarget := by
  have hquery : (match find (ascii "?") requestTarget with
      | some qp => requestTarget.take qp
      | none => requestTarget) = stripQueryString requestTarget := rfl
  rw [hquery]
  exact congrArg (route.root ++ ·) (stripRoutePrefix_inline route.path (stripQueryString requestTarget))

theorem getScriptPath_eq (fs : FileSystem) (request : HTTPRequest) (route : RouteConfig) :
    CGI.getScriptPath fs request route = fs.resolve (scriptPath route request.requestTarget) := by
  rw [← scriptPath_inline]
  unfold CGI.getScriptPath FileSystem.resolve
  dsimp only
  split
  · next heq => rw [heq]; rfl
  · next heq => rw [heq]; rfl

theorem dispatchedCall_scriptPath (fs : FileSystem) (req : HTTPRequest) (route : RouteConfig) :
    (dispatchedCall fs req route).scriptPath = fs.resolve (scriptPath route req.requestTarget) := by
  rw [← scriptPath_inline]
  rfl

theorem execute_scriptPath (fs : FileSystem) (req : HTTPRequest) (route : RouteConfig) :
    (CGI.execute fs req route).scriptPath = fs.resolve (fs.resolve (scriptPath route req.requestTarget)) := by
  rw [← getScriptPath_eq]
  rfl

theorem dispatchedCall_env (fs : FileSystem) (req : HTTPRequest) (route : RouteConfig) :
    ∃ before, (dispatchedCall fs req route).env = before ++
        [ascii "SCRIPT_FILENAME=" ++ scriptPath route req.requestTarget, ascii "REDIRECT_STATUS=200"] ∧
      (CGI.execute fs req route).env = before ++
        [ascii "SCRIPT_FILENAME=" ++ fs.resolve (scriptPath route req.requestTarget),
          ascii "REDIRECT_STATUS=200"] := by
  rw [← getScriptPath_eq, ← scriptPath_inline]
  exact ⟨_, rfl, rfl⟩

theorem env_eq_iff (fs : FileSystem) (req : HTTPRequest) (route : RouteConfig) :
    (dispatchedCall fs req route).env = (CGI.execute fs req route).env ↔
      scriptPath route req.requestTarget = fs.resolve (scriptPath route req.requestTarget) := by
  obtain ⟨before, hdispatched, hexecuted⟩ := dispatchedCall_env fs req route
  rw [hdispatched, hexecuted, List.append_cancel_left_eq]
  simp

theorem resolve_eq_self_iff {fs : FileSystem} {path : Bytes} : path = fs.resolve path ↔
    fs.realpath (cStr path) = none ∨ fs.realpath (cStr path) = some path := by
  unfold FileSystem.resolve
  cases fs.realpath (cStr path) with
  | none => simp
  | some resolved => simp [eq_comm]

/-- Both copies call the script alike exactly when resolving its path changes nothing. -/
theorem script_calls_agree_iff (fs : FileSystem) (request : HTTPRequest) (route : RouteConfig) :
    ((dispatchedCall fs request route).env = (CGI.execute fs request route).env ∧
      (dispatchedCall fs request route).scriptPath = (CGI.execute fs request route).scriptPath) ↔
      fs.realpath (cStr (scriptPath route request.requestTarget)) = none ∨
        fs.realpath (cStr (scriptPath route request.requestTarget)) =
          some (scriptPath route request.requestTarget) := by
  rw [env_eq_iff, dispatchedCall_scriptPath, execute_scriptPath, ← resolve_eq_self_iff]
  constructor
  · exact fun h => h.1
  · intro h
    exact ⟨h, by rw [← h, ← h]⟩

/-- The server runs in the directory `/srv`. -/
def srvFiles : FileSystem where
  realpath path := if path = ascii "./files/cgi/hello.py" then some (ascii "/srv/files/cgi/hello.py") else none

/-- A script below a relative root is named by another path in its environment. -/
theorem relative_script_differs :
    let request : HTTPRequest := { method := ascii "GET", requestTarget := ascii "/cgi-bin/hello.py" }
    let route : RouteConfig := { path := ascii "/cgi-bin", root := ascii "./files/cgi" }
    ¬ ((dispatchedCall srvFiles request route).env = (CGI.execute srvFiles request route).env ∧
      (dispatchedCall srvFiles request route).scriptPath = (CGI.execute srvFiles request route).scriptPath) := by
  intro request route h
  have hpath := (env_eq_iff srvFiles request route).mp h.1
  exact absurd hpath (by decide +kernel)

/-! ## Where dispatched scripts are -/

/-- The path of a script goes on below the root of its route: the text that is built, and the path that is executed
when it cannot be resolved. -/
structure ScriptBelow (req : HTTPRequest) (route : RouteConfig) : Prop where
  built : Below 47 (ascii "..") route.root (scriptPath route req.requestTarget)
  executed : ∀ fs : FileSystem, fs.realpath (cStr (scriptPath route req.requestTarget)) = none →
    Below 47 (ascii "..") route.root (cStr (dispatchedCall fs req route).scriptPath)

/-- The target does not go up behind the path of its route, neither as a text nor where the system stops to read it,
and the system reads the whole root. -/
structure StaysDown (req : HTTPRequest) (route : RouteConfig) : Prop where
  whole : ascii ".." ∉ ((stripQueryString req.requestTarget).drop route.path.length).splitOn 47
  cut : ascii ".." ∉ (cStr ((stripQueryString req.requestTarget).drop route.path.length)).splitOn 47
  root : 0 ∉ route.root

theorem scriptBelow_iff {req : HTTPRequest} {route : RouteConfig}
    (h : route.covers (stripQueryString req.requestTarget) = true) (hne : route.path ≠ []) :
    ScriptBelow req route ↔ StaysDown req route := by
  have hexecuted {fs : FileSystem} (hfs : fs.realpath (cStr (scriptPath route req.requestTarget)) = none) :
      (dispatchedCall fs req route).scriptPath = scriptPath route req.requestTarget := by
    rw [dispatchedCall_scriptPath, FileSystem.resolve, hfs]
    rfl
  constructor
  · intro hbelow
    have hpath := hbelow.executed {} rfl
    rw [hexecuted rfl, cStr_scriptPath_below_iff h hne] at hpath
    exact ⟨(scriptPath_below_iff h hne).mp hbelow.built, hpath.2, hpath.1⟩
  · intro hdown
    refine ⟨(scriptPath_below_iff h hne).mpr hdown.whole, fun fs hfs => ?_⟩
    rw [hexecuted hfs, cStr_scriptPath_below_iff h hne]
    exact ⟨hdown.root, hdown.cut⟩

namespace World

/-- What is dispatched is executed below the root of its route exactly when the target stays down. -/
theorem dispatched_script_below {a : Answers} {conf : ServerConfig} {client client' : Client} {bytes : Bytes}
    (h : readRequest a conf client bytes = (.dispatch, client')) :
    ∃ route, matchRoute (stripQueryString client'.request.requestTarget) conf = some route ∧
      (ScriptBelow client'.request route ↔ StaysDown client'.request route) := by
  obtain ⟨route, hroute⟩ := Option.isSome_iff_exists.mp (readRequest_dispatch h)
  obtain ⟨-, hcovers, hne⟩ := matchRoute_covers hroute
  exact ⟨route, hroute, scriptBelow_iff hcovers hne⟩

theorem readRequest_of_gate (a : Answers) (conf : ServerConfig) (client : Client) (bytes : Bytes)
    (hfed : (feedRequest conf client bytes).1.isSome = true)
    (herr : (feedRequest conf client bytes).2.request.isError = false)
    (hgate : cgiGate conf (feedRequest conf client bytes).2 = true) :
    readRequest a conf client bytes = (.dispatch, (feedRequest conf client bytes).2) := by
  unfold readRequest
  match hresult : feedRequest conf client bytes with
  | (none, fed) => simp [hresult] at hfed
  | (some complete, fed) =>
    rw [hresult] at herr hgate
    simp only [decideRequest, herr, hgate, Bool.false_eq_true, if_false, if_true]

/-- A server with one directory of scripts, and a request to it. -/
def cgiServer : ServerConfig :=
  { routes := [{ path := ascii "/cgi-bin", root := ascii "./files/cgi", cgiExtension := ascii ".py" }] }

def asks (target : Bytes) : Bytes := ascii "GET " ++ target ++ ascii " HTTP/1.1\r\n\r\n"

theorem dispatched_script_below_hello : ∃ req route, req.requestTarget = ascii "/cgi-bin/hello.py" ∧
    matchRoute (ascii "/cgi-bin/hello.py") cgiServer = some route ∧ ScriptBelow req route := by
  have hread := readRequest_of_gate {} cgiServer (Client.create 4 0 0) (asks (ascii "/cgi-bin/hello.py"))
    (by decide +kernel) (by decide +kernel) (by decide +kernel)
  have htarget : (feedRequest cgiServer (Client.create 4 0 0)
      (asks (ascii "/cgi-bin/hello.py"))).2.request.requestTarget = ascii "/cgi-bin/hello.py" := by decide +kernel
  have hquery : stripQueryString (ascii "/cgi-bin/hello.py") = ascii "/cgi-bin/hello.py" := by decide
  obtain ⟨route, hroute, hbelow⟩ := dispatched_script_below hread
  rw [htarget, hquery] at hroute
  obtain ⟨hmem, -, -⟩ := matchRoute_covers hroute
  obtain rfl : route = _ := List.mem_singleton.mp hmem
  refine ⟨_, _, htarget, hroute, hbelow.mpr ⟨?_, ?_, by decide⟩⟩
  · rw [htarget, hquery]
    decide
  · rw [htarget, hquery]
    decide

/-- `GET /cgi-bin/../../x.py` runs a script two directories above the root. -/
theorem script_outside_root : ∃ client' route,
    readRequest {} cgiServer (Client.create 4 0 0) (asks (ascii "/cgi-bin/../../x.py")) = (.dispatch, client') ∧
      matchRoute (stripQueryString client'.request.requestTarget) cgiServer = some route ∧
      ¬ ScriptBelow client'.request route := by
  have hread := readRequest_of_gate {} cgiServer (Client.create 4 0 0) (asks (ascii "/cgi-bin/../../x.py"))
    (by decide +kernel) (by decide +kernel) (by decide +kernel)
  have htarget : (feedRequest cgiServer (Client.create 4 0 0)
      (asks (ascii "/cgi-bin/../../x.py"))).2.request.requestTarget = ascii "/cgi-bin/../../x.py" := by
    decide +kernel
  have hquery : stripQueryString (ascii "/cgi-bin/../../x.py") = ascii "/cgi-bin/../../x.py" := by decide
  have hroute : matchRoute (ascii "/cgi-bin/../../x.py") cgiServer =
      some { path := ascii "/cgi-bin", root := ascii "./files/cgi", cgiExtension := ascii ".py" } := by decide
  obtain ⟨-, hcovers, hne⟩ := matchRoute_covers hroute
  refine ⟨_, _, hread, by rw [htarget, hquery, hroute], ?_⟩
  intro hbelow
  have hbuilt := hbelow.built
  rw [htarget, scriptPath_below_iff (by rw [hquery]; exact hcovers) hne, hquery] at hbuilt
  exact hbuilt (by decide)

end World
end WebServ
