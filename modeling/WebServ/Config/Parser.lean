import WebServ.Config.Route

/-! # Reading a configuration file

The file is read line by line, without comments and blanks around the lines. A line is
a directive, the opening of a block, or a brace; what a directive sets is kept in the
server or the route whose block is open. The whole is checked once it was read.
-/
namespace WebServ.Configuration
open Search

/-- Why a file is not accepted: with the text of `error_`, or because a token is read
that the line does not have. -/
inductive Fault
  | rejected (error : Bytes)
  | outOfRange
deriving DecidableEq, Repr

abbrev Parsed (α : Type) := Except Fault α

def reject {α : Type} (error : Bytes) : Parsed α := .error (.rejected error)

/-- The token at a position, when there is one. -/
def word (words : List Bytes) (i : ℕ) : Parsed Bytes :=
  match words[i]? with
  | some text => .ok text
  | none => .error .outOfRange

/-! ## Lines and tokens -/

def cleanLine (line : Bytes) : Bytes := (trim (ascii " \t\r\n") (before (ascii "#") line)).getD []

/-- The words of a line; a semicolon at its end belongs to none. -/
def tokenize (line : Bytes) : List Bytes :=
  let clean := if line.getLast? = some 59 then line.dropLast else line
  (clean.splitOnP isSpace).filter (· ≠ [])

def expectArgs (words : List Bytes) (min : ℕ) (directive : Bytes) : Parsed Unit :=
  if words.length ≥ min then .ok () else reject (directive ++ ascii " requires a value")

/-- The file is what was not read of it. -/
def getline (file : Bytes) : Option (Bytes × Bytes) :=
  if file = [] then none else some (file.takeWhile (· ≠ 10), (file.dropWhile (· ≠ 10)).tail)

theorem getline_length {file line rest : Bytes} (h : getline file = some (line, rest)) :
    rest.length < file.length := by
  unfold getline at h
  split at h
  · cases h
  · next hne =>
    cases h
    have hpos := List.length_pos_iff.mpr hne
    have hsuffix : file.dropWhile (· ≠ 10) <:+ file := List.dropWhile_suffix _
    have hle := hsuffix.length_le
    rw [List.length_tail]
    omega

def readNextLine (file : Bytes) : Option (Bytes × Bytes) :=
  match _h : getline file with
  | none => none
  | some (line, rest) => if cleanLine line = [] then readNextLine rest else some (cleanLine line, rest)
termination_by file.length
decreasing_by exact getline_length _h

theorem readNextLine_length {file line rest : Bytes} (h : readNextLine file = some (line, rest)) :
    rest.length < file.length := by
  fun_induction readNextLine file with
  | case1 file hget => cases h
  | case2 file text left hget hblank ih => exact (ih h).trans (getline_length hget)
  | case3 file text left hget hblank =>
    cases h
    exact getline_length hget

/-- Braces stand alone on their lines. -/
abbrev openBrace : Bytes := [123]
abbrev closeBrace : Bytes := [125]

def expectOpenBrace (file context : Bytes) : Parsed Bytes :=
  match readNextLine file with
  | none => reject (ascii "expected '\x7b' after '" ++ context ++ ascii "'")
  | some (line, rest) =>
    if line = openBrace then .ok rest
    else reject (ascii "expected '\x7b' after '" ++ context ++ ascii "', got '" ++ line ++ ascii "'")

/-! ## Values -/

/-- The sign and the digits that a stream extracts as a decimal number. -/
def readDecimal (s : Bytes) : Option (Bool × ℕ) :=
  let number (negative : Bool) (t : Bytes) :=
    let digits := t.takeWhile (fun b => (decDigit b).isSome)
    if digits = [] then none else some (negative, decValue digits)
  match s.dropWhile isSpace with
  | 45 :: t => number true t
  | 43 :: t => number false t
  | t => number false t

/-- What a stream extracts as an `int`; out of range the extraction fails. -/
def readInt (s : Bytes) : Option ℤ :=
  (readDecimal s).bind fun (negative, magnitude) =>
    let value : ℤ := if negative then -magnitude else magnitude
    if -2 ^ 31 ≤ value ∧ value < 2 ^ 31 then some value else none

/-- What a stream extracts as a `size_t`: a negative number wraps around. -/
def readSizeT (s : Bytes) : Option ℕ :=
  (readDecimal s).bind fun (negative, magnitude) =>
    if magnitude < 2 ^ 64 then some (if negative then toSizeT (-magnitude) else magnitude) else none

def parsePort (text : Bytes) (srv : ServerConfig) : Parsed ServerConfig :=
  match readInt text with
  | some port => .ok { srv with port }
  | none => reject (ascii "invalid port: '" ++ text ++ ascii "'")

def parseListen (value : Bytes) (srv : ServerConfig) : Parsed ServerConfig :=
  match find (ascii ":") value with
  | some colon => parsePort (value.drop (colon + 1)) { srv with host := value.take colon }
  | none => parsePort value srv

def bytesPerKb : ℕ := 1024
def bytesPerMb : ℕ := 1024 * 1024

/-- The number before a suffix, times what the suffix stands for, modulo `2 ^ 64`. -/
def parseSize (value : Bytes) : Parsed ℕ :=
  if value = [] then reject (ascii "empty body size value")
  else
    let suffix := value.getLast?
    let (multiplier, number) :=
      if suffix = some 75 ∨ suffix = some 107 then (bytesPerKb, value.dropLast)
      else if suffix = some 77 ∨ suffix = some 109 then (bytesPerMb, value.dropLast)
      else (1, value)
    match readSizeT number with
    | some size => .ok (size * multiplier % 2 ^ 64)
    | none => reject (ascii "invalid body size: '" ++ value ++ ascii "'")

/-! ## Directives of a server -/

def parseErrorPage (srv : ServerConfig) (words : List Bytes) : Parsed ServerConfig :=
  if words.length < 3 then reject (ascii "error_page requires a code and a path")
  else do
    let text ← word words 1
    match readInt text with
    | none => reject (ascii "invalid error code: '" ++ text ++ ascii "'")
    | some code => do
      let path ← word words 2
      return { srv with errorPages := srv.errorPages.insert code path }

def parseDirective (srv : ServerConfig) (words : List Bytes) : Parsed ServerConfig := do
  let key ← word words 0
  if key = ascii "listen" then do
    expectArgs words 2 (ascii "listen")
    if srv.hasListen then reject (ascii "duplicate listen directive")
    else do
      let value ← word words 1
      parseListen value { srv with hasListen := true }
  else if key = ascii "server_name" then do
    expectArgs words 2 (ascii "server_name")
    return { srv with serverNames := srv.serverNames ++ words.drop 1 }
  else if key = ascii "error_page" then parseErrorPage srv words
  else if key = ascii "client_max_body_size" then do
    expectArgs words 2 (ascii "client_max_body_size")
    let value ← word words 1
    let size ← parseSize value
    return { srv with clientMaxBodySize := size }
  else reject (ascii "unknown directive: '" ++ key ++ ascii "'")

/-! ## Directives of a route -/

/-- The value of a directive that sets a text. -/
def parseRouteStringDirective (words : List Bytes) (directive : Bytes) : Parsed Bytes := do
  expectArgs words 2 directive
  word words 1

def parseAutoindex (route : RouteConfig) (words : List Bytes) : Parsed RouteConfig := do
  expectArgs words 2 (ascii "autoindex")
  let value ← word words 1
  if value = ascii "on" then return { route with autoindex := true }
  else if value = ascii "off" then return { route with autoindex := false }
  else reject (ascii "autoindex must be 'on' or 'off', got '" ++ value ++ ascii "'")

def parseAllowMethods (route : RouteConfig) (words : List Bytes) : Parsed RouteConfig := do
  expectArgs words 2 (ascii "allow_methods")
  return { route with allowedMethods := words.drop 1 }

def parseReturn (route : RouteConfig) (words : List Bytes) : Parsed RouteConfig :=
  if words.length < 3 then reject (ascii "return requires a code and a URL")
  else do
    let text ← word words 1
    match readInt text with
    | none => reject (ascii "invalid redirect code: '" ++ text ++ ascii "'")
    | some code => do
      let url ← word words 2
      return { route with redirectCode := code, redirectUrl := url }

def parseRouteBodySize (route : RouteConfig) (words : List Bytes) : Parsed RouteConfig := do
  expectArgs words 2 (ascii "client_max_body_size")
  let value ← word words 1
  let size ← parseSize value
  return { route with clientMaxBodySize := size, hasClientMaxBodySize := true }

def parseRouteDirective (route : RouteConfig) (words : List Bytes) : Parsed RouteConfig := do
  let key ← word words 0
  if key = ascii "root" then
    return { route with root := ← parseRouteStringDirective words (ascii "root") }
  else if key = ascii "index" then
    return { route with index := ← parseRouteStringDirective words (ascii "index") }
  else if key = ascii "autoindex" then parseAutoindex route words
  else if key = ascii "allow_methods" then parseAllowMethods route words
  else if key = ascii "return" then parseReturn route words
  else if key = ascii "upload_store" then
    return { route with uploadStore := ← parseRouteStringDirective words (ascii "upload_store") }
  else if key = ascii "cgi_extension" then
    return { route with cgiExtension := ← parseRouteStringDirective words (ascii "cgi_extension") }
  else if key = ascii "cgi_path" then
    return { route with cgiPath := ← parseRouteStringDirective words (ascii "cgi_path") }
  else if key = ascii "client_max_body_size" then parseRouteBodySize route words
  else reject (ascii "unknown directive in location block: '" ++ key ++ ascii "'")

/-! ## Blocks -/

/-- The lines of a location up to its closing brace. -/
def locationLoop (file : Bytes) (route : RouteConfig) : Parsed (RouteConfig × Bytes) :=
  match _h : readNextLine file with
  | none => reject (ascii "unexpected end of config: missing '\x7d'")
  | some (line, rest) =>
    if line = closeBrace then .ok (route, rest)
    else
      match parseRouteDirective route (tokenize line) with
      | .error fault => .error fault
      | .ok route => locationLoop rest route
termination_by file.length
decreasing_by exact readNextLine_length _h

def parseLocationBlock (file path : Bytes) : Parsed (RouteConfig × Bytes) := locationLoop file { path }

/-- A location whose opening line has the words. -/
def parseLocation (file : Bytes) (words : List Bytes) : Parsed (RouteConfig × Bytes) :=
  if words.length ≠ 2 then reject (ascii "location requires exactly a path")
  else do
    let path ← word words 1
    let rest ← expectOpenBrace file (ascii "location")
    parseLocationBlock rest path

theorem bind_eq_ok {α β : Type} {x : Parsed α} {f : α → Parsed β} {b : β} (h : x >>= f = .ok b) :
    ∃ a, x = .ok a ∧ f a = .ok b := by
  cases x with
  | error fault => cases h
  | ok a => exact ⟨a, rfl, h⟩

theorem locationLoop_length {file rest : Bytes} {route route' : RouteConfig}
    (h : locationLoop file route = .ok (route', rest)) : rest.length < file.length := by
  fun_induction locationLoop file route with
  | case1 file route hnext => cases h
  | case2 file route left hnext =>
    cases h
    exact readNextLine_length hnext
  | case3 file route line left hnext hbrace fault hparse => cases h
  | case4 file route line left hnext hbrace next hparse ih => exact (ih h).trans (readNextLine_length hnext)

theorem expectOpenBrace_eq {file context rest : Bytes} (h : expectOpenBrace file context = .ok rest) :
    readNextLine file = some (openBrace, rest) := by
  unfold expectOpenBrace at h
  cases hnext : readNextLine file with
  | none =>
    rw [hnext] at h
    cases h
  | some next =>
    obtain ⟨line, left⟩ := next
    rw [hnext] at h
    dsimp only at h
    split at h
    · next hbrace =>
      cases h
      rw [hbrace]
    · cases h

theorem parseLocation_length {file rest : Bytes} {words : List Bytes} {route : RouteConfig}
    (h : parseLocation file words = .ok (route, rest)) : rest.length < file.length := by
  unfold parseLocation at h
  split at h
  · cases h
  · obtain ⟨path, -, h⟩ := bind_eq_ok h
    obtain ⟨left, hbrace, h⟩ := bind_eq_ok h
    exact (locationLoop_length h).trans (readNextLine_length (expectOpenBrace_eq hbrace))

/-- The lines of a server up to its closing brace. -/
def parseServerBlock (file : Bytes) (srv : ServerConfig) : Parsed (ServerConfig × Bytes) :=
  match _h : readNextLine file with
  | none => reject (ascii "unexpected end of config: missing '\x7d'")
  | some (line, rest) =>
    if line = closeBrace then .ok (srv, rest)
    else
      match word (tokenize line) 0 with
      | .error fault => .error fault
      | .ok key =>
        if key = ascii "location" then
          match _hl : parseLocation rest (tokenize line) with
          | .error fault => .error fault
          | .ok (route, left) => parseServerBlock left { srv with routes := srv.routes ++ [route] }
        else
          match parseDirective srv (tokenize line) with
          | .error fault => .error fault
          | .ok srv => parseServerBlock rest srv
termination_by file.length
decreasing_by
  · exact (parseLocation_length _hl).trans (readNextLine_length _h)
  · exact readNextLine_length _h

theorem parseServerBlock_length {file rest : Bytes} {srv srv' : ServerConfig}
    (h : parseServerBlock file srv = .ok (srv', rest)) : rest.length < file.length := by
  fun_induction parseServerBlock file srv with
  | case1 file srv hnext => cases h
  | case2 file srv left hnext =>
    cases h
    exact readNextLine_length hnext
  | case3 file srv line left hnext hbrace fault hword => cases h
  | case4 file srv line left hnext hbrace fault hparse hword => cases h
  | case5 file srv line left hnext hbrace route left' hparse hword ih =>
    exact (ih h).trans ((parseLocation_length hparse).trans (readNextLine_length hnext))
  | case6 file srv line left hnext hbrace key hword hkey fault hparse => cases h
  | case7 file srv line left hnext hbrace key hword hkey next hparse ih =>
    exact (ih h).trans (readNextLine_length hnext)

/-- A server whose opening line has the words. -/
def parseServer (file : Bytes) (words : List Bytes) : Parsed (ServerConfig × Bytes) := do
  let key ← word words 0
  if key = ascii "server" then
    if words.length ≠ 1 then reject (ascii "expected 'server' alone on its line")
    else do
      let rest ← expectOpenBrace file (ascii "server")
      parseServerBlock rest {}
  else reject (ascii "expected 'server' block, got '" ++ key ++ ascii "'")

theorem parseServer_length {file rest : Bytes} {words : List Bytes} {srv : ServerConfig}
    (h : parseServer file words = .ok (srv, rest)) : rest.length < file.length := by
  obtain ⟨key, -, h⟩ := bind_eq_ok h
  split at h
  · split at h
    · cases h
    · obtain ⟨left, hbrace, h⟩ := bind_eq_ok h
      exact (parseServerBlock_length h).trans (readNextLine_length (expectOpenBrace_eq hbrace))
  · cases h

/-- The blocks of the file, behind the servers read before. -/
def parseLoop (file : Bytes) (servers : List ServerConfig) : Parsed (List ServerConfig) :=
  match _h : readNextLine file with
  | none => .ok servers
  | some (line, rest) =>
    match _hs : parseServer rest (tokenize line) with
    | .error fault => .error fault
    | .ok (srv, left) => parseLoop left (servers ++ [srv])
termination_by file.length
decreasing_by exact (parseServer_length _hs).trans (readNextLine_length _h)

/-! ## Validation -/

def validateRoute (route : RouteConfig) : Parsed Unit :=
  if route.path.head? ≠ some 47 then
    reject (ascii "route path must start with '/': '" ++ route.path ++ ascii "'")
  else if route.redirectCode ≠ 0 ∧ route.redirectCode ≠ 301 ∧ route.redirectCode ≠ 302 then
    reject (ascii "redirect code must be 301 or 302, got " ++ decimalInt route.redirectCode)
  else .ok ()

def validateServer (srv : ServerConfig) : Parsed Unit :=
  if srv.port < 1 ∨ srv.port > 65535 then reject (ascii "port must be between 1 and 65535")
  else srv.routes.forM validateRoute

def validateListens : List ServerConfig → Parsed Unit
  | [] => .ok ()
  | srv :: servers =>
    if servers.any (fun other => srv.host = other.host ∧ srv.port = other.port) then
      reject (ascii "duplicate listen: " ++ srv.host ++ ascii ":" ++ decimalInt srv.port)
    else validateListens servers

def validate (servers : List ServerConfig) : Parsed Unit := do
  servers.forM validateServer
  validateListens servers

/-- The servers of a file, which may not be there; a configuration is filled once. -/
def parse (filepath : Bytes) (file : Option Bytes) : Parsed (List ServerConfig) :=
  match file with
  | none => reject (ascii "cannot open config file: " ++ filepath)
  | some file => do
    let servers ← parseLoop file []
    if servers = [] then reject (ascii "config file is empty")
    else do
      validate servers
      return servers

end WebServ.Configuration
