import WebServ.Config.Parser

/-! # What an accepted configuration is

The lines of an accepted file are blocks inside each other, and each directive belongs
to the block that is open. What it sets is set in the server or the route of that
block, which starts from the defaults; the servers and their routes stand in the order
of the file.
-/
namespace WebServ.Configuration
open Search

/-! ## Lines -/

/-- The lines of a file, without comments and blanks around them, and without empty ones. -/
def configLines (file : Bytes) : List Bytes := ((file.splitOn 10).map cleanLine).filter (· ≠ [])

theorem configLines_nil : configLines [] = [] := by decide

/-- One line is read off the front. -/
theorem configLines_of_getline {file line rest : Bytes} (h : getline file = some (line, rest)) :
    configLines file = if cleanLine line = [] then configLines rest else cleanLine line :: configLines rest := by
  unfold getline at h
  split at h
  · cases h
  · cases h
    have hclean : (10 : UInt8) ∉ file.takeWhile (· ≠ 10) := by
      intro hmem
      have hne := List.mem_takeWhile_imp hmem
      exact absurd hne (by decide)
    have hsplit := List.takeWhile_append_dropWhile (p := fun b : UInt8 => decide (b ≠ 10)) (l := file)
    generalize file.takeWhile (· ≠ 10) = line at hclean hsplit ⊢
    cases hrest : file.dropWhile (· ≠ 10) with
    | nil =>
      rw [hrest, List.append_nil] at hsplit
      rw [configLines, ← hsplit, List.splitOn_eq_singleton hclean, List.tail_nil, configLines_nil]
      by_cases hempty : cleanLine line = [] <;> simp [hempty]
    | cons b rest =>
      have hb : b = 10 := by
        have hhead := List.head?_dropWhile_not (fun b : UInt8 => decide (b ≠ 10)) file
        rw [hrest] at hhead
        simpa using hhead
      rw [hrest, hb] at hsplit
      rw [configLines, ← hsplit, List.splitOn_append_cons_self, List.splitOn_eq_singleton hclean, List.tail_cons,
        configLines]
      by_cases hempty : cleanLine line = [] <;> simp [hempty]

theorem configLines_of_none {file : Bytes} (h : readNextLine file = none) : configLines file = [] := by
  fun_induction readNextLine file with
  | case1 file hget =>
    unfold getline at hget
    split at hget
    · next hnil => rw [hnil, configLines_nil]
    · cases hget
  | case2 file line rest hget hempty ih => rw [configLines_of_getline hget, if_pos hempty, ih h]
  | case3 file line rest hget hempty => cases h

theorem configLines_of_some {file line rest : Bytes} (h : readNextLine file = some (line, rest)) :
    configLines file = line :: configLines rest := by
  fun_induction readNextLine file with
  | case1 file hget => cases h
  | case2 file text left hget hempty ih => rw [configLines_of_getline hget, if_pos hempty, ih h]
  | case3 file text left hget hempty =>
    cases h
    rw [configLines_of_getline hget, if_neg hempty]

/-! ## Blocks of a file -/

/-- A location of a file: the path that its opening line names, and its directives. -/
structure Location where
  line : Bytes
  path : Bytes
  directives : List Bytes
  opens : tokenize line = [ascii "location", path]
  inside : closeBrace ∉ directives

def Location.lines (l : Location) : List Bytes := l.line :: openBrace :: (l.directives ++ [closeBrace])

/-- What stands in a server: a directive or a location. -/
inductive Item
  | directive (line : Bytes) (inside : line ≠ closeBrace)
      (key : (tokenize line).head? ≠ some (ascii "location"))
  | location (location : Location)

def Item.lines : Item → List Bytes
  | .directive line _ _ => [line]
  | .location l => l.lines

def Item.directiveLine : Item → Option Bytes
  | .directive line _ _ => some line
  | .location _ => none

def Item.locationBlock : Item → Option Location
  | .directive _ _ _ => none
  | .location l => some l

/-- A server of a file. -/
structure Block where
  line : Bytes
  items : List Item
  opens : tokenize line = [ascii "server"]

def Block.lines (b : Block) : List Bytes := b.line :: openBrace :: (b.items.flatMap Item.lines ++ [closeBrace])

def Block.directives (b : Block) : List Bytes := b.items.filterMap Item.directiveLine

def Block.locations (b : Block) : List Location := b.items.filterMap Item.locationBlock

/-! ## What the blocks set -/

/-- The directives of a server, one after the other. -/
def applyDirectives (srv : ServerConfig) (directives : List Bytes) : Parsed ServerConfig :=
  directives.foldlM (fun srv line => parseDirective srv (tokenize line)) srv

def applyRouteDirectives (route : RouteConfig) (directives : List Bytes) : Parsed RouteConfig :=
  directives.foldlM (fun route line => parseRouteDirective route (tokenize line)) route

/-- All fields of the route are those the location sets, at the path written. -/
structure Location.Means (l : Location) (route : RouteConfig) : Prop where
  fields : applyRouteDirectives { path := l.path } l.directives = .ok route
  path : route.path = l.path

/-- All fields of the server are those its own directives set, and its routes are those
of its own locations. -/
structure Block.Means (b : Block) (srv : ServerConfig) : Prop where
  fields : applyDirectives {} b.directives = .ok { srv with routes := [] }
  routes : List.Forall₂ Location.Means b.locations srv.routes

/-! ## Directives keep to their fields -/

theorem parseAutoindex_path {route route' : RouteConfig} {words : List Bytes}
    (h : parseAutoindex route words = .ok route') : route'.path = route.path := by
  obtain ⟨_, -, h⟩ := bind_eq_ok h
  obtain ⟨value, -, h⟩ := bind_eq_ok h
  split at h
  · cases h
    rfl
  · split at h
    · cases h
      rfl
    · cases h

theorem parseReturn_path {route route' : RouteConfig} {words : List Bytes}
    (h : parseReturn route words = .ok route') : route'.path = route.path := by
  unfold parseReturn at h
  split at h
  · cases h
  · obtain ⟨text, -, h⟩ := bind_eq_ok h
    split at h
    · cases h
    · obtain ⟨url, -, h⟩ := bind_eq_ok h
      cases h
      rfl

theorem parseRouteBodySize_path {route route' : RouteConfig} {words : List Bytes}
    (h : parseRouteBodySize route words = .ok route') : route'.path = route.path := by
  obtain ⟨_, -, h⟩ := bind_eq_ok h
  obtain ⟨value, -, h⟩ := bind_eq_ok h
  obtain ⟨size, -, h⟩ := bind_eq_ok h
  cases h
  rfl

theorem parseRouteDirective_path {route route' : RouteConfig} {words : List Bytes}
    (h : parseRouteDirective route words = .ok route') : route'.path = route.path := by
  obtain ⟨key, -, h⟩ := bind_eq_ok h
  -- a directive that sets a text reads it and keeps all other fields
  have text : ∀ {name : Bytes} {f : Bytes → RouteConfig},
      (do return f (← parseRouteStringDirective words name) : Parsed RouteConfig) = .ok route' →
      (∀ value, (f value).path = route.path) → route'.path = route.path := by
    intro name f h hf
    obtain ⟨value, -, h⟩ := bind_eq_ok h
    cases h
    exact hf value
  repeat' split at h
  · exact text h (fun value => rfl)
  · exact text h (fun value => rfl)
  · exact parseAutoindex_path h
  · obtain ⟨_, -, h⟩ := bind_eq_ok h
    cases h
    rfl
  · exact parseReturn_path h
  · exact text h (fun value => rfl)
  · exact text h (fun value => rfl)
  · exact text h (fun value => rfl)
  · exact parseRouteBodySize_path h
  · cases h

theorem applyRouteDirectives_path {directives : List Bytes} {route route' : RouteConfig}
    (h : applyRouteDirectives route directives = .ok route') : route'.path = route.path := by
  induction directives generalizing route with
  | nil =>
    cases h
    rfl
  | cons line directives ih =>
    obtain ⟨next, hline, h⟩ := bind_eq_ok h
    exact (ih h).trans (parseRouteDirective_path hline)

/-! Directives of a server neither read nor set its routes. -/

theorem parseListen_routes (value : Bytes) (srv : ServerConfig) (routes : List RouteConfig) :
    parseListen value { srv with routes } = ({ · with routes }) <$> parseListen value srv := by
  have port : ∀ (text : Bytes) (srv : ServerConfig),
      parsePort text { srv with routes } = ({ · with routes }) <$> parsePort text srv := by
    intro text srv
    unfold parsePort
    cases readInt text <;> rfl
  unfold parseListen
  cases find (ascii ":") value with
  | none => exact port value srv
  | some colon => exact port _ { srv with host := value.take colon }

theorem parseErrorPage_routes (words : List Bytes) (srv : ServerConfig) (routes : List RouteConfig) :
    parseErrorPage { srv with routes } words = ({ · with routes }) <$> parseErrorPage srv words := by
  unfold parseErrorPage
  split
  · rfl
  · rw [map_bind]
    apply bind_congr
    intro text
    cases readInt text with
    | none => rfl
    | some code =>
      dsimp only
      rw [map_bind]
      rfl

theorem parseDirective_routes (words : List Bytes) (srv : ServerConfig) (routes : List RouteConfig) :
    parseDirective { srv with routes } words = ({ · with routes }) <$> parseDirective srv words := by
  unfold parseDirective
  rw [map_bind]
  apply bind_congr
  intro key
  by_cases hlisten : key = ascii "listen"
  · rw [if_pos hlisten, if_pos hlisten, map_bind]
    apply bind_congr
    intro _
    by_cases hseen : srv.hasListen = true
    · rw [if_pos hseen, if_pos hseen]
      rfl
    · rw [if_neg hseen, if_neg hseen, map_bind]
      apply bind_congr
      intro value
      exact parseListen_routes value { srv with hasListen := true } routes
  rw [if_neg hlisten, if_neg hlisten]
  by_cases hname : key = ascii "server_name"
  · rw [if_pos hname, if_pos hname, map_bind]
    rfl
  rw [if_neg hname, if_neg hname]
  by_cases hpage : key = ascii "error_page"
  · rw [if_pos hpage, if_pos hpage]
    exact parseErrorPage_routes words srv routes
  rw [if_neg hpage, if_neg hpage]
  by_cases hsize : key = ascii "client_max_body_size"
  · rw [if_pos hsize, if_pos hsize, map_bind]
    apply bind_congr
    intro _
    rw [map_bind]
    apply bind_congr
    intro value
    rw [map_bind]
    rfl
  · rw [if_neg hsize, if_neg hsize]
    rfl

/-- An accepted directive is accepted whatever the routes are, and leaves them. -/
theorem parseDirective_frame {words : List Bytes} {srv srv' : ServerConfig}
    (h : parseDirective srv words = .ok srv') :
    srv'.routes = srv.routes ∧
      ∀ routes, parseDirective { srv with routes } words = .ok { srv' with routes } := by
  have hall : ∀ routes, parseDirective { srv with routes } words = .ok { srv' with routes } := by
    intro routes
    rw [parseDirective_routes, h]
    rfl
  have hsame := (hall srv.routes).symm.trans h
  have hkept : { srv' with routes := srv.routes } = srv' := Except.ok.inj hsame
  exact ⟨(congrArg ServerConfig.routes hkept).symm, hall⟩

/-! ## What the loops read -/

theorem word_eq_ok {words : List Bytes} {i : ℕ} {text : Bytes} (h : word words i = .ok text) :
    words[i]? = some text := by
  unfold word at h
  split at h
  · next hsome =>
    cases h
    exact hsome
  · cases h

/-- One token, and it was read. -/
theorem eq_singleton_of_word {words : List Bytes} {key : Bytes} (hone : words.length = 1)
    (hkey : word words 0 = .ok key) : words = [key] := by
  obtain ⟨first, rfl⟩ := List.length_eq_one_iff.mp hone
  cases word_eq_ok hkey
  rfl

/-- Two tokens, and both were read. -/
theorem eq_pair_of_words {words : List Bytes} {key value : Bytes} (htwo : words.length = 2)
    (hkey : word words 0 = .ok key) (hvalue : word words 1 = .ok value) : words = [key, value] := by
  obtain ⟨first, second, rfl⟩ := List.length_eq_two.mp htwo
  cases word_eq_ok hkey
  cases word_eq_ok hvalue
  rfl

theorem locationLoop_ok {file rest : Bytes} {route route' : RouteConfig}
    (h : locationLoop file route = .ok (route', rest)) :
    ∃ directives, configLines file = directives ++ closeBrace :: configLines rest ∧
      closeBrace ∉ directives ∧ applyRouteDirectives route directives = .ok route' := by
  fun_induction locationLoop file route with
  | case1 file route hnext => cases h
  | case2 file route left hnext =>
    cases h
    exact ⟨[], configLines_of_some hnext, List.not_mem_nil, rfl⟩
  | case3 file route line left hnext hbrace fault hparse => cases h
  | case4 file route line left hnext hbrace next hparse ih =>
    obtain ⟨directives, hlines, hinside, happly⟩ := ih h
    have hfirst : applyRouteDirectives route (line :: directives) = applyRouteDirectives next directives := by
      change (parseRouteDirective route (tokenize line) >>= fun next => applyRouteDirectives next directives) = _
      rw [hparse]
      rfl
    refine ⟨line :: directives, ?_, ?_, hfirst.trans happly⟩
    · rw [configLines_of_some hnext, hlines]
      rfl
    · intro hmem
      obtain rfl | hmem := List.mem_cons.mp hmem
      · exact hbrace rfl
      · exact hinside hmem

theorem parseLocation_ok {file line rest left : Bytes} {route : RouteConfig}
    (hnext : readNextLine file = some (line, rest)) (hkey : word (tokenize line) 0 = .ok (ascii "location"))
    (h : parseLocation rest (tokenize line) = .ok (route, left)) :
    ∃ l : Location, configLines file = l.lines ++ configLines left ∧ l.Means route := by
  unfold parseLocation at h
  split at h
  · cases h
  · next htwo =>
    obtain ⟨path, hpath, h⟩ := bind_eq_ok h
    obtain ⟨body, hopen, h⟩ := bind_eq_ok h
    obtain ⟨directives, hlines, hinside, happly⟩ := locationLoop_ok h
    have hopens := eq_pair_of_words (not_not.mp htwo) hkey hpath
    refine ⟨⟨line, path, directives, hopens, hinside⟩, ?_, happly, applyRouteDirectives_path happly⟩
    rw [configLines_of_some hnext, configLines_of_some (expectOpenBrace_eq hopen), hlines]
    simp [Location.lines]

/-- The items of a server up to its closing brace, behind the routes read before. -/
theorem parseServerBlock_ok {file rest : Bytes} {srv srv' : ServerConfig}
    (h : parseServerBlock file srv = .ok (srv', rest)) :
    ∃ (items : List Item) (routes : List RouteConfig), configLines file = items.flatMap Item.lines ++ closeBrace :: configLines rest ∧
      srv'.routes = srv.routes ++ routes ∧
      List.Forall₂ Location.Means (items.filterMap Item.locationBlock) routes ∧
      applyDirectives { srv with routes := [] } (items.filterMap Item.directiveLine) =
        .ok { srv' with routes := [] } := by
  fun_induction parseServerBlock file srv with
  | case1 file srv hnext => cases h
  | case2 file srv left hnext =>
    cases h
    exact ⟨[], [], configLines_of_some hnext, (List.append_nil _).symm, .nil, rfl⟩
  | case3 file srv line left hnext hbrace fault hword => cases h
  | case4 file srv line left hnext hbrace fault hparse hword => cases h
  | case5 file srv line left hnext hbrace route left' hparse hword ih =>
    obtain ⟨items, routes, hlines, hroutes, hmeans, hfields⟩ := ih h
    obtain ⟨l, hl, hroute⟩ := parseLocation_ok hnext hword hparse
    refine ⟨.location l :: items, route :: routes, ?_, ?_, .cons hroute hmeans, hfields⟩
    · rw [hl, hlines]
      simp [Item.lines]
    · rw [hroutes]
      simp
  | case6 file srv line left hnext hbrace key hword hkey fault hparse => cases h
  | case7 file srv line left hnext hbrace key hword hkey next hparse ih =>
    obtain ⟨items, routes, hlines, hroutes, hmeans, hfields⟩ := ih h
    obtain ⟨hkept, hall⟩ := parseDirective_frame hparse
    have hother : (tokenize line).head? ≠ some (ascii "location") := by
      rw [List.head?_eq_getElem?, word_eq_ok hword]
      intro hsame
      exact hkey (Option.some.inj hsame)
    refine ⟨.directive line hbrace hother :: items, routes, ?_, ?_, hmeans, ?_⟩
    · rw [configLines_of_some hnext, hlines]
      rfl
    · rw [hroutes, hkept]
    · change (parseDirective { srv with routes := [] } (tokenize line) >>= fun next =>
        applyDirectives next (items.filterMap Item.directiveLine)) = _
      rw [hall]
      exact hfields

theorem parseServer_ok {file line rest left : Bytes} {srv : ServerConfig}
    (hnext : readNextLine file = some (line, rest)) (h : parseServer rest (tokenize line) = .ok (srv, left)) :
    ∃ b : Block, configLines file = b.lines ++ configLines left ∧ b.Means srv := by
  obtain ⟨key, hkey, h⟩ := bind_eq_ok h
  split at h
  · next hserver =>
    split at h
    · cases h
    · next hone =>
      obtain ⟨body, hopen, h⟩ := bind_eq_ok h
      obtain ⟨items, routes, hlines, hroutes, hmeans, hfields⟩ := parseServerBlock_ok h
      have hopens := eq_singleton_of_word (not_not.mp hone) (hserver ▸ hkey)
      rw [List.nil_append] at hroutes
      refine ⟨⟨line, items, hopens⟩, ?_, hfields, ?_⟩
      · rw [configLines_of_some hnext, configLines_of_some (expectOpenBrace_eq hopen), hlines]
        simp [Block.lines]
      · rw [hroutes]
        exact hmeans
  · cases h

theorem parseLoop_ok {file : Bytes} {before servers : List ServerConfig} (h : parseLoop file before = .ok servers) :
    ∃ (blocks : List Block) (read : List ServerConfig), configLines file = blocks.flatMap Block.lines ∧
      servers = before ++ read ∧ List.Forall₂ Block.Means blocks read := by
  fun_induction parseLoop file before with
  | case1 file before hnext =>
    cases h
    exact ⟨[], [], configLines_of_none hnext, (List.append_nil _).symm, .nil⟩
  | case2 file before line rest hnext fault hparse => cases h
  | case3 file before line rest hnext srv left hparse ih =>
    obtain ⟨blocks, read, hlines, hservers, hmeans⟩ := ih h
    obtain ⟨b, hb, hsrv⟩ := parseServer_ok hnext hparse
    refine ⟨b :: blocks, srv :: read, ?_, ?_, .cons hsrv hmeans⟩
    · rw [hb, hlines, List.flatMap_cons]
    · rw [hservers, List.append_assoc, List.singleton_append]

/-! ## What the validation admits -/

theorem forM_eq_ok {α : Type} {check : α → Parsed Unit} {l : List α} (h : l.forM check = .ok ()) :
    ∀ a ∈ l, check a = .ok () := by
  induction l with
  | nil =>
    intro a ha
    cases ha
  | cons first l ih =>
    obtain ⟨_, hfirst, hrest⟩ := bind_eq_ok h
    intro a ha
    obtain rfl | ha := List.mem_cons.mp ha
    · exact hfirst
    · exact ih hrest a ha

/-- What the rest of the server relies on in a route. -/
structure ValidRoute (route : RouteConfig) : Prop where
  path : route.path.head? = some 47
  redirect : route.redirectCode = 0 ∨ route.redirectCode = 301 ∨ route.redirectCode = 302

/-- A server that can listen, with routes to rely on. -/
structure ValidServer (srv : ServerConfig) : Prop where
  port : 1 ≤ srv.port ∧ srv.port ≤ 65535
  routes : ∀ route ∈ srv.routes, ValidRoute route

theorem validateRoute_ok {route : RouteConfig} (h : validateRoute route = .ok ()) : ValidRoute route := by
  unfold validateRoute at h
  split at h
  · cases h
  · next hpath =>
    split at h
    · cases h
    · next hcode => exact ⟨not_not.mp hpath, by omega⟩

theorem validateServer_ok {srv : ServerConfig} (h : validateServer srv = .ok ()) : ValidServer srv := by
  unfold validateServer at h
  split at h
  · cases h
  · next hport =>
    have hroutes := forM_eq_ok h
    exact ⟨by omega, fun route hroute => validateRoute_ok (hroutes route hroute)⟩

theorem validateListens_ok {servers : List ServerConfig} (h : validateListens servers = .ok ()) :
    servers.Pairwise fun srv other => ¬ (srv.host = other.host ∧ srv.port = other.port) := by
  fun_induction validateListens servers with
  | case1 => exact .nil
  | case2 srv servers hany => cases h
  | case3 srv servers hany ih =>
    refine .cons ?_ (ih h)
    intro other hother hsame
    exact hany (List.any_eq_true.mpr ⟨other, hother, decide_eq_true hsame⟩)

/-! ## The accepted file -/

/-- An accepted file is one or more blocks, and there is one server for each of them, in
their order. Lines without a token need no mention here: they make no file accepted. -/
theorem parse_accepted (filepath file : Bytes) (servers : List ServerConfig)
    (h : parse filepath (some file) = .ok servers) :
    ∃ blocks : List Block, blocks ≠ [] ∧ configLines file = blocks.flatMap Block.lines ∧
      List.Forall₂ Block.Means blocks servers ∧ (∀ srv ∈ servers, ValidServer srv) ∧
      servers.Pairwise fun srv other => ¬ (srv.host = other.host ∧ srv.port = other.port) := by
  obtain ⟨read, hloop, h⟩ := bind_eq_ok h
  split at h
  · cases h
  · next hsome =>
    obtain ⟨_, hvalid, h⟩ := bind_eq_ok h
    cases h
    obtain ⟨_, hservers, hlistens⟩ := bind_eq_ok hvalid
    obtain ⟨blocks, read', hlines, hread, hmeans⟩ := parseLoop_ok hloop
    rw [List.nil_append] at hread
    subst hread
    refine ⟨blocks, ?_, hlines, hmeans, ?_, validateListens_ok hlistens⟩
    · rintro rfl
      cases hmeans
      exact hsome rfl
    · intro srv hsrv
      exact validateServer_ok (forM_eq_ok hservers srv hsrv)

def twoServers : Bytes :=
  ascii "server\n\x7b\n\tlisten 127.0.0.1:8080; # local\n\tlocation /old\n\t\x7b\n\t\treturn 301 /new;\n\t\x7d\n" ++
    ascii "\tserver_name one;\n\x7d\n\nserver\n\x7b\n\tlisten 8081;\n\x7d\n"

theorem parse_accepted_two : ∃ servers, servers.map ServerConfig.port = [8080, 8081] ∧
    ∃ blocks : List Block, blocks ≠ [] ∧ configLines twoServers = blocks.flatMap Block.lines ∧
      List.Forall₂ Block.Means blocks servers ∧ (∀ srv ∈ servers, ValidServer srv) ∧
      servers.Pairwise fun srv other => ¬ (srv.host = other.host ∧ srv.port = other.port) := by
  have hports : (parse (ascii "default.conf") (some twoServers)).toOption.map (List.map ServerConfig.port) =
      some [8080, 8081] := by decide +kernel
  obtain ⟨servers, hsome, hports⟩ := Option.map_eq_some_iff.mp hports
  have hok : parse (ascii "default.conf") (some twoServers) = .ok servers := by
    generalize parse (ascii "default.conf") (some twoServers) = result at hsome
    cases result with
    | error fault => cases hsome
    | ok read =>
      cases hsome
      rfl
  exact ⟨servers, hports, parse_accepted _ _ servers hok⟩

end WebServ.Configuration
