import WebServ.Config.Accepted

/-! # Reads of tokens

Directives look at the number of their tokens before they read them, and the opening
lines of blocks do not. A line that is not empty and still has no token, such as a lone
semicolon, is read out of range where a block or a directive is expected.
-/
namespace WebServ.Configuration
open Search

/-! ## Directives -/

/-- No token is read that is not there. -/
def Guarded {α : Type} (x : Parsed α) : Prop := x ≠ .error .outOfRange

section
variable {α β : Type}

theorem guarded_ok (a : α) : Guarded (.ok a : Parsed α) := by
  intro h
  cases h

theorem guarded_reject (error : Bytes) : Guarded (reject error : Parsed α) := by
  intro h
  cases h

theorem Guarded.bind {x : Parsed α} {f : α → Parsed β} (hx : Guarded x)
    (hf : ∀ a, x = .ok a → Guarded (f a)) : Guarded (x >>= f) := by
  cases x with
  | error fault =>
    intro h
    cases h
    exact hx rfl
  | ok a => exact hf a rfl

/-- Behind a guarded step the fault comes from what follows it. -/
theorem Guarded.fault_behind {x : Parsed α} {f : α → Parsed β} (hx : Guarded x)
    (h : x >>= f = .error .outOfRange) : ∃ a, x = .ok a ∧ f a = .error .outOfRange := by
  cases x with
  | error fault =>
    cases h
    exact absurd rfl hx
  | ok a => exact ⟨a, rfl, h⟩

theorem guarded_word {words : List Bytes} {i : ℕ} (h : i < words.length) : Guarded (word words i) := by
  unfold word
  rw [List.getElem?_eq_getElem h]
  exact guarded_ok _

theorem expectArgs_guarded (words : List Bytes) (min : ℕ) (directive : Bytes) :
    Guarded (expectArgs words min directive) := by
  unfold expectArgs
  split
  · exact guarded_ok ()
  · exact guarded_reject _

theorem expectArgs_eq_ok {words : List Bytes} {min : ℕ} {directive : Bytes} {u : Unit}
    (h : expectArgs words min directive = .ok u) : min ≤ words.length := by
  unfold expectArgs at h
  split at h
  · next hmin => exact hmin
  · cases h

/-- Behind the check of the number of tokens a token is read in range. -/
theorem guarded_expectArgs {words : List Bytes} {min : ℕ} {directive : Bytes} {f : Unit → Parsed β}
    (hf : min ≤ words.length → Guarded (f ())) : Guarded (expectArgs words min directive >>= f) :=
  (expectArgs_guarded words min directive).bind (fun _ h => hf (expectArgs_eq_ok h))

end

theorem parsePort_guarded (text : Bytes) (srv : ServerConfig) : Guarded (parsePort text srv) := by
  unfold parsePort
  split
  · exact guarded_ok _
  · exact guarded_reject _

theorem parseListen_guarded (value : Bytes) (srv : ServerConfig) : Guarded (parseListen value srv) := by
  unfold parseListen
  split
  · exact parsePort_guarded _ _
  · exact parsePort_guarded _ _

theorem parseSize_guarded (value : Bytes) : Guarded (parseSize value) := by
  unfold parseSize
  split
  · exact guarded_reject _
  · dsimp only
    split
    · exact guarded_ok _
    · exact guarded_reject _

/-- A directive of a number and a text is read in range once there are three tokens. -/
theorem guarded_numbered {α : Type} {words : List Bytes} (hthree : ¬ words.length < 3) (invalid : Bytes → Bytes)
    (f : ℤ → Bytes → α) : Guarded (do
      let text ← word words 1
      match readInt text with
      | none => reject (invalid text)
      | some code => do
        let value ← word words 2
        return f code value : Parsed α) := by
  refine (guarded_word (by omega)).bind (fun text _ => ?_)
  cases readInt text with
  | none => exact guarded_reject _
  | some code => exact (guarded_word (by omega)).bind (fun _ _ => guarded_ok _)

theorem parseErrorPage_guarded (srv : ServerConfig) (words : List Bytes) :
    Guarded (parseErrorPage srv words) := by
  unfold parseErrorPage
  split
  · exact guarded_reject _
  · next hthree =>
    exact guarded_numbered hthree (fun text => ascii "invalid error code: '" ++ text ++ ascii "'")
      (fun code path => { srv with errorPages := srv.errorPages.insert code path })

/-- A directive of a server with a token reads no token out of range. -/
theorem parseDirective_guarded {words : List Bytes} (hne : words ≠ []) (srv : ServerConfig) :
    Guarded (parseDirective srv words) := by
  unfold parseDirective
  refine (guarded_word (List.length_pos_iff.mpr hne)).bind (fun key _ => ?_)
  by_cases hlisten : key = ascii "listen"
  · rw [if_pos hlisten]
    refine guarded_expectArgs (fun htwo => ?_)
    split
    · exact guarded_reject _
    · exact (guarded_word htwo).bind (fun _ _ => parseListen_guarded _ _)
  rw [if_neg hlisten]
  by_cases hname : key = ascii "server_name"
  · rw [if_pos hname]
    exact guarded_expectArgs (fun _ => guarded_ok _)
  rw [if_neg hname]
  by_cases hpage : key = ascii "error_page"
  · rw [if_pos hpage]
    exact parseErrorPage_guarded srv words
  rw [if_neg hpage]
  by_cases hsize : key = ascii "client_max_body_size"
  · rw [if_pos hsize]
    refine guarded_expectArgs (fun htwo => ?_)
    exact (guarded_word htwo).bind (fun value _ => (parseSize_guarded value).bind (fun _ _ => guarded_ok _))
  · rw [if_neg hsize]
    exact guarded_reject _

theorem parseRouteStringDirective_guarded (words : List Bytes) (directive : Bytes) :
    Guarded (parseRouteStringDirective words directive) :=
  guarded_expectArgs (fun htwo => guarded_word htwo)

theorem parseAutoindex_guarded (route : RouteConfig) (words : List Bytes) :
    Guarded (parseAutoindex route words) := by
  refine guarded_expectArgs (fun htwo => (guarded_word htwo).bind (fun value _ => ?_))
  split
  · exact guarded_ok _
  · split
    · exact guarded_ok _
    · exact guarded_reject _

theorem parseReturn_guarded (route : RouteConfig) (words : List Bytes) : Guarded (parseReturn route words) := by
  unfold parseReturn
  split
  · exact guarded_reject _
  · next hthree =>
    exact guarded_numbered hthree (fun text => ascii "invalid redirect code: '" ++ text ++ ascii "'")
      (fun code url => { route with redirectCode := code, redirectUrl := url })

theorem parseRouteBodySize_guarded (route : RouteConfig) (words : List Bytes) :
    Guarded (parseRouteBodySize route words) :=
  guarded_expectArgs (fun htwo => (guarded_word htwo).bind (fun value _ =>
    (parseSize_guarded value).bind (fun _ _ => guarded_ok _)))

theorem parseRouteDirective_guarded {words : List Bytes} (hne : words ≠ []) (route : RouteConfig) :
    Guarded (parseRouteDirective route words) := by
  unfold parseRouteDirective
  refine (guarded_word (List.length_pos_iff.mpr hne)).bind (fun key _ => ?_)
  have text : ∀ {name : Bytes} {f : Bytes → RouteConfig},
      Guarded (do return f (← parseRouteStringDirective words name) : Parsed RouteConfig) :=
    fun {name _} => (parseRouteStringDirective_guarded words name).bind (fun _ _ => guarded_ok _)
  repeat' split
  · exact text
  · exact text
  · exact parseAutoindex_guarded route words
  · exact guarded_expectArgs (fun _ => guarded_ok _)
  · exact parseReturn_guarded route words
  · exact text
  · exact text
  · exact text
  · exact parseRouteBodySize_guarded route words
  · exact guarded_reject _

/-! ## Where the next line is a block or a directive -/

/-- Directives inside a location that is not closed yet. -/
def LocationOpen (route : RouteConfig) (lines : List Bytes) : Prop :=
  closeBrace ∉ lines ∧ ∃ route', applyRouteDirectives route lines = .ok route'

/-- Items of a server whose directives and locations are accepted. -/
structure AcceptedItems (srv : ServerConfig) (items : List Item) : Prop where
  fields : ∃ srv', applyDirectives srv (items.filterMap Item.directiveLine) = .ok srv'
  locations : ∀ l ∈ items.filterMap Item.locationBlock, ∃ route, l.Means route

/-- Lines inside a server that is not closed yet, in a location or beside them. -/
inductive ServerOpen (srv : ServerConfig) : List Bytes → Prop
  | items (items : List Item) (accepted : AcceptedItems srv items) : ServerOpen srv (items.flatMap Item.lines)
  | location (items : List Item) (accepted : AcceptedItems srv items) (line path : Bytes)
      (directives : List Bytes) (opens : tokenize line = [ascii "location", path])
      (inside : LocationOpen { path } directives) :
      ServerOpen srv (items.flatMap Item.lines ++ line :: openBrace :: directives)

/-- The front of a file behind which the next line is to open a block or be a directive. -/
inductive FileOpen : List Bytes → Prop
  | blocks (blocks : List Block) (accepted : ∀ b ∈ blocks, ∃ srv, b.Means srv) :
      FileOpen (blocks.flatMap Block.lines)
  | server (blocks : List Block) (accepted : ∀ b ∈ blocks, ∃ srv, b.Means srv) (line : Bytes)
      (lines : List Bytes) (opens : tokenize line = [ascii "server"]) (inside : ServerOpen {} lines) :
      FileOpen (blocks.flatMap Block.lines ++ line :: openBrace :: lines)

/-- Such a front, and a line without a token behind it. -/
def BareLine (lines : List Bytes) (front : List Bytes → Prop) : Prop :=
  ∃ before line after, lines = before ++ line :: after ∧ tokenize line = [] ∧ front before

theorem ne_closeBrace {line : Bytes} (h : (tokenize line).length ≠ 1) : line ≠ closeBrace := by
  rintro rfl
  exact h (by decide)

theorem word_eq_error {words : List Bytes} {i : ℕ} {fault : Fault} (h : word words i = .error fault) :
    words.length ≤ i := by
  unfold word at h
  split at h
  · cases h
  · next hnone => exact List.getElem?_eq_none_iff.mp hnone

theorem Block.Means.accepted {b : Block} {srv : ServerConfig} (h : b.Means srv) : AcceptedItems {} b.items where
  fields := ⟨_, h.fields⟩
  locations := by
    have hroutes := h.routes
    unfold Block.locations at hroutes
    generalize b.items.filterMap Item.locationBlock = locations at hroutes
    generalize srv.routes = routes at hroutes
    induction hroutes with
    | nil => simp
    | cons hroute _ ih =>
      intro l hl
      obtain rfl | hl := List.mem_cons.mp hl
      · exact ⟨_, hroute⟩
      · exact ih l hl

/-! ### The front of a rest is a front of the whole -/

theorem AcceptedItems.cons_directive {srv next : ServerConfig} {items : List Item} {line : Bytes}
    (inside : line ≠ closeBrace) (key : (tokenize line).head? ≠ some (ascii "location"))
    (hparse : parseDirective srv (tokenize line) = .ok next) (h : AcceptedItems next items) :
    AcceptedItems srv (.directive line inside key :: items) where
  fields := by
    obtain ⟨srv', happly⟩ := h.fields
    refine ⟨srv', ?_⟩
    change (parseDirective srv (tokenize line) >>= fun next =>
      applyDirectives next (items.filterMap Item.directiveLine)) = _
    rw [hparse]
    exact happly
  locations := h.locations

theorem AcceptedItems.cons_location {srv : ServerConfig} {items : List Item} {l : Location} {route : RouteConfig}
    (hroute : l.Means route) (h : AcceptedItems srv items) : AcceptedItems srv (.location l :: items) where
  fields := h.fields
  locations l' hl' := by
    change l' ∈ l :: items.filterMap Item.locationBlock at hl'
    obtain rfl | hl' := List.mem_cons.mp hl'
    · exact ⟨route, hroute⟩
    · exact h.locations l' hl'

theorem ServerOpen.cons_directive {srv next : ServerConfig} {lines : List Bytes} {line : Bytes}
    (inside : line ≠ closeBrace) (key : (tokenize line).head? ≠ some (ascii "location"))
    (hparse : parseDirective srv (tokenize line) = .ok next) (h : ServerOpen next lines) :
    ServerOpen srv (line :: lines) := by
  cases h with
  | items items accepted => exact .items (.directive line inside key :: items) (accepted.cons_directive _ _ hparse)
  | location items accepted line' path directives opens hinside =>
    exact .location (.directive line inside key :: items) (accepted.cons_directive _ _ hparse) line' path
      directives opens hinside

theorem ServerOpen.cons_location {srv : ServerConfig} {lines : List Bytes} {l : Location} {route : RouteConfig}
    (hroute : l.Means route) (h : ServerOpen srv lines) : ServerOpen srv (l.lines ++ lines) := by
  cases h with
  | items items accepted => exact .items (.location l :: items) (accepted.cons_location hroute)
  | location items accepted line path directives opens inside =>
    rw [← List.append_assoc]
    exact .location (.location l :: items) (accepted.cons_location hroute) line path directives opens inside

theorem FileOpen.cons_block {lines : List Bytes} {b : Block} {srv : ServerConfig} (hb : b.Means srv)
    (h : FileOpen lines) : FileOpen (b.lines ++ lines) := by
  cases h with
  | blocks blocks accepted =>
    refine .blocks (b :: blocks) ?_
    intro b' hb'
    obtain rfl | hb' := List.mem_cons.mp hb'
    · exact ⟨srv, hb⟩
    · exact accepted b' hb'
  | server blocks accepted line lines opens inside =>
    rw [← List.append_assoc]
    refine .server (b :: blocks) ?_ line lines opens inside
    intro b' hb'
    obtain rfl | hb' := List.mem_cons.mp hb'
    · exact ⟨srv, hb⟩
    · exact accepted b' hb'

/-! ## A read out of range comes from such a line -/

theorem word_zero_fault {words : List Bytes} {fault : Fault} (h : word words 0 = .error fault) : words = [] :=
  List.eq_nil_of_length_eq_zero (Nat.le_zero.mp (word_eq_error h))

theorem BareLine.cons {line : Bytes} {lines : List Bytes} {front front' : List Bytes → Prop}
    (h : BareLine lines front) (hf : ∀ before, front before → front' (line :: before)) :
    BareLine (line :: lines) front' := by
  obtain ⟨before, bare, after, rfl, hbare, hfront⟩ := h
  exact ⟨line :: before, bare, after, rfl, hbare, hf before hfront⟩

theorem BareLine.append {lines : List Bytes} {front front' : List Bytes → Prop} (block : List Bytes)
    (h : BareLine lines front) (hf : ∀ before, front before → front' (block ++ before)) :
    BareLine (block ++ lines) front' := by
  obtain ⟨before, bare, after, rfl, hbare, hfront⟩ := h
  exact ⟨block ++ before, bare, after, (List.append_assoc ..).symm, hbare, hf before hfront⟩

theorem locationLoop_fault {file : Bytes} {route : RouteConfig}
    (h : locationLoop file route = .error .outOfRange) : BareLine (configLines file) (LocationOpen route) := by
  fun_induction locationLoop file route with
  | case1 file route hnext => cases h
  | case2 file route left hnext => cases h
  | case3 file route line left hnext hbrace fault hparse =>
    have hbare : tokenize line = [] := by
      by_contra hne
      obtain rfl : fault = .outOfRange := by simpa using h
      exact parseRouteDirective_guarded hne route hparse
    exact ⟨[], line, configLines left, configLines_of_some hnext, hbare, List.not_mem_nil, route, rfl⟩
  | case4 file route line left hnext hbrace next hparse ih =>
    rw [configLines_of_some hnext]
    refine (ih h).cons ?_
    rintro lines ⟨hinside, route', happly⟩
    refine ⟨?_, route', ?_⟩
    · intro hmem
      obtain rfl | hmem := List.mem_cons.mp hmem
      · exact hbrace rfl
      · exact hinside hmem
    · change (parseRouteDirective route (tokenize line) >>= fun next => applyRouteDirectives next lines) = _
      rw [hparse]
      exact happly

theorem expectOpenBrace_guarded (file context : Bytes) : Guarded (expectOpenBrace file context) := by
  unfold expectOpenBrace
  split
  · exact guarded_reject _
  · split
    · exact guarded_ok _
    · exact guarded_reject _

/-- In a location with its path the fault lies behind the brace. -/
theorem parseLocation_fault {file line rest : Bytes} (hnext : readNextLine file = some (line, rest))
    (hkey : word (tokenize line) 0 = .ok (ascii "location"))
    (h : parseLocation rest (tokenize line) = .error .outOfRange) (srv : ServerConfig) :
    BareLine (configLines file) (ServerOpen srv) := by
  unfold parseLocation at h
  split at h
  · cases h
  · next htwo =>
    have hlength := not_not.mp htwo
    obtain ⟨path, hpath, h⟩ := (guarded_word (by omega)).fault_behind h
    obtain ⟨body, hopen, h⟩ := (expectOpenBrace_guarded _ _).fault_behind h
    have hopens := eq_pair_of_words hlength hkey hpath
    rw [configLines_of_some hnext, configLines_of_some (expectOpenBrace_eq hopen)]
    exact (locationLoop_fault h).append [line, openBrace] (fun directives hfront =>
      .location [] ⟨⟨srv, rfl⟩, by simp⟩ line path directives hopens hfront)

theorem parseServerBlock_fault {file : Bytes} {srv : ServerConfig}
    (h : parseServerBlock file srv = .error .outOfRange) :
    BareLine (configLines file) (ServerOpen { srv with routes := [] }) := by
  fun_induction parseServerBlock file srv with
  | case1 file srv hnext => cases h
  | case2 file srv left hnext => cases h
  | case3 file srv line left hnext hbrace fault hword =>
    exact ⟨[], line, configLines left, configLines_of_some hnext, word_zero_fault hword,
      .items [] ⟨⟨_, rfl⟩, by simp⟩⟩
  | case4 file srv line left hnext hbrace fault hparse hword =>
    obtain rfl : fault = .outOfRange := by simpa using h
    exact parseLocation_fault hnext hword hparse _
  | case5 file srv line left hnext hbrace route left' hparse hword ih =>
    obtain ⟨l, hl, hroute⟩ := parseLocation_ok hnext hword hparse
    rw [hl]
    exact (ih h).append l.lines (fun before hfront => hfront.cons_location hroute)
  | case6 file srv line left hnext hbrace key hword hkey fault hparse =>
    exfalso
    obtain rfl : fault = .outOfRange := by simpa using h
    refine parseDirective_guarded ?_ srv hparse
    intro hnil
    rw [hnil] at hword
    cases hword
  | case7 file srv line left hnext hbrace key hword hkey next hparse ih =>
    have hother : (tokenize line).head? ≠ some (ascii "location") := by
      rw [List.head?_eq_getElem?, word_eq_ok hword]
      intro hsame
      exact hkey (Option.some.inj hsame)
    rw [configLines_of_some hnext]
    exact (ih h).cons (fun before hfront =>
      hfront.cons_directive hbrace hother ((parseDirective_frame hparse).2 []))

/-- Where a server is expected, the fault is the line itself or lies inside the server. -/
theorem parseServer_fault {file line rest : Bytes} (hnext : readNextLine file = some (line, rest))
    (h : parseServer rest (tokenize line) = .error .outOfRange) : BareLine (configLines file) FileOpen := by
  by_cases hne : tokenize line = []
  · exact ⟨[], line, configLines rest, configLines_of_some hnext, hne, .blocks [] (by simp)⟩
  obtain ⟨key, hkey, h⟩ := (guarded_word (List.length_pos_iff.mpr hne)).fault_behind h
  split at h
  · next hserver =>
    split at h
    · cases h
    · next hone =>
      obtain ⟨body, hopen, h⟩ := (expectOpenBrace_guarded _ _).fault_behind h
      have hopens := eq_singleton_of_word (not_not.mp hone) (hserver ▸ hkey)
      rw [configLines_of_some hnext, configLines_of_some (expectOpenBrace_eq hopen)]
      have hinside : BareLine (configLines body) (ServerOpen {}) := parseServerBlock_fault h
      exact hinside.append [line, openBrace] (fun lines hfront =>
        .server [] (by simp) line lines hopens hfront)
  · cases h

theorem parseLoop_fault {file : Bytes} {servers : List ServerConfig}
    (h : parseLoop file servers = .error .outOfRange) : BareLine (configLines file) FileOpen := by
  fun_induction parseLoop file servers with
  | case1 file servers hnext => cases h
  | case2 file servers line rest hnext fault hparse =>
    obtain rfl : fault = .outOfRange := by simpa using h
    exact parseServer_fault hnext hparse
  | case3 file servers line rest hnext srv left hparse ih =>
    obtain ⟨b, hb, hsrv⟩ := parseServer_ok hnext hparse
    rw [hb]
    exact (ih h).append b.lines (fun before hfront => hfront.cons_block hsrv)

/-! ## Such a line is read out of range -/

/-- The first line of a file is the one read next. -/
theorem readNextLine_of_lines {file line : Bytes} {lines : List Bytes} (h : configLines file = line :: lines) :
    ∃ rest, readNextLine file = some (line, rest) ∧ configLines rest = lines := by
  cases hnext : readNextLine file with
  | none =>
    rw [configLines_of_none hnext] at h
    cases h
  | some next =>
    obtain ⟨line', rest⟩ := next
    rw [configLines_of_some hnext] at h
    obtain ⟨rfl, hrest⟩ := List.cons.inj h
    exact ⟨rest, rfl, hrest⟩

theorem expectOpenBrace_of_lines {file : Bytes} {lines : List Bytes} (context : Bytes)
    (h : configLines file = openBrace :: lines) :
    ∃ rest, expectOpenBrace file context = .ok rest ∧ configLines rest = lines := by
  obtain ⟨rest, hnext, hrest⟩ := readNextLine_of_lines h
  refine ⟨rest, ?_, hrest⟩
  unfold expectOpenBrace
  rw [hnext]
  exact if_pos rfl

theorem locationLoop_cons {file line rest : Bytes} {route : RouteConfig}
    (hnext : readNextLine file = some (line, rest)) (hbrace : line ≠ closeBrace) :
    locationLoop file route = parseRouteDirective route (tokenize line) >>= fun next => locationLoop rest next := by
  rw [locationLoop]
  split
  · next hnone => rw [hnone] at hnext; cases hnext
  · next hsome =>
    rw [hsome] at hnext
    cases hnext
    rw [if_neg hbrace]
    cases parseRouteDirective route (tokenize line) <;> rfl

/-- The loop gets through accepted directives. -/
theorem locationLoop_of_lines {file : Bytes} {directives lines : List Bytes} {route route' : RouteConfig}
    (h : configLines file = directives ++ lines) (hinside : closeBrace ∉ directives)
    (happly : applyRouteDirectives route directives = .ok route') :
    ∃ rest, configLines rest = lines ∧ locationLoop file route = locationLoop rest route' := by
  induction directives generalizing file route with
  | nil =>
    cases happly
    exact ⟨file, h, rfl⟩
  | cons line directives ih =>
    obtain ⟨left, hnext, hleft⟩ := readNextLine_of_lines h
    obtain ⟨next, hline, happly⟩ := bind_eq_ok happly
    obtain ⟨rest, hrest, hloop⟩ := ih hleft (fun hmem => hinside (List.mem_cons_of_mem _ hmem)) happly
    have hfirst : parseRouteDirective route (tokenize line) = .ok next := hline
    refine ⟨rest, hrest, ?_⟩
    rw [locationLoop_cons hnext (fun heq => hinside (heq ▸ List.mem_cons_self ..)), hfirst]
    exact hloop

theorem locationLoop_closed {file : Bytes} {lines : List Bytes} (route : RouteConfig)
    (h : configLines file = closeBrace :: lines) :
    ∃ rest, locationLoop file route = .ok (route, rest) ∧ configLines rest = lines := by
  obtain ⟨rest, hnext, hrest⟩ := readNextLine_of_lines h
  refine ⟨rest, ?_, hrest⟩
  rw [locationLoop]
  split
  · next hnone => rw [hnone] at hnext; cases hnext
  · next hsome =>
    rw [hsome] at hnext
    cases hnext
    exact if_pos rfl

/-- A location is read from its own lines. -/
theorem parseLocation_of_lines {file : Bytes} {lines : List Bytes} (l : Location) {route : RouteConfig}
    (h : configLines file = openBrace :: (l.directives ++ closeBrace :: lines)) (hroute : l.Means route) :
    ∃ rest, parseLocation file (tokenize l.line) = .ok (route, rest) ∧ configLines rest = lines := by
  obtain ⟨body, hopen, hbody⟩ := expectOpenBrace_of_lines (ascii "location") h
  obtain ⟨left, hleft, hloop⟩ := locationLoop_of_lines hbody l.inside hroute.fields
  obtain ⟨rest, hclosed, hrest⟩ := locationLoop_closed route hleft
  refine ⟨rest, ?_, hrest⟩
  unfold parseLocation
  rw [l.opens, if_neg (by simp)]
  change (expectOpenBrace file (ascii "location") >>= fun rest => parseLocationBlock rest l.path) = _
  rw [hopen]
  exact hloop.trans hclosed

theorem ok_bind {α β : Type} (a : α) (f : α → Parsed β) : (.ok a : Parsed α) >>= f = f a := rfl

theorem parseServerBlock_cons {file line rest : Bytes} {srv : ServerConfig}
    (hnext : readNextLine file = some (line, rest)) (hbrace : line ≠ closeBrace) :
    parseServerBlock file srv = word (tokenize line) 0 >>= fun key =>
      if key = ascii "location" then
        parseLocation rest (tokenize line) >>= fun read =>
          parseServerBlock read.2 { srv with routes := srv.routes ++ [read.1] }
      else parseDirective srv (tokenize line) >>= fun next => parseServerBlock rest next := by
  rw [parseServerBlock]
  split
  · next hnone => rw [hnone] at hnext; cases hnext
  · next hsome =>
    rw [hsome] at hnext
    cases hnext
    rw [if_neg hbrace]
    cases word (tokenize line) 0 with
    | error fault => rfl
    | ok key =>
      by_cases hkey : key = ascii "location"
      · rw [ok_bind, if_pos hkey]
        dsimp only
        rw [if_pos hkey]
        split
        · next hparse => rw [hparse]; rfl
        · next hparse => rw [hparse]; rfl
      · rw [ok_bind, if_neg hkey]
        dsimp only
        rw [if_neg hkey]
        cases parseDirective srv (tokenize line) <;> rfl

/-- One accepted item is read off the front of a server. -/
theorem parseServerBlock_directive {file line : Bytes} {lines : List Bytes} {srv next : ServerConfig}
    (h : configLines file = line :: lines) (hbrace : line ≠ closeBrace)
    (hother : (tokenize line).head? ≠ some (ascii "location"))
    (hparse : parseDirective srv (tokenize line) = .ok next) :
    ∃ rest, configLines rest = lines ∧ parseServerBlock file srv = parseServerBlock rest next := by
  obtain ⟨rest, hnext, hrest⟩ := readNextLine_of_lines h
  obtain ⟨key, hkey, -⟩ := bind_eq_ok hparse
  have hne : key ≠ ascii "location" := by
    rintro rfl
    exact hother (by rw [List.head?_eq_getElem?]; exact word_eq_ok hkey)
  refine ⟨rest, hrest, ?_⟩
  rw [parseServerBlock_cons hnext hbrace, hkey, ok_bind, if_neg hne, hparse]
  rfl

/-- A line that opens a location. -/
theorem parseServerBlock_opens {file line path body : Bytes} (hnext : readNextLine file = some (line, body))
    (hopens : tokenize line = [ascii "location", path]) (srv : ServerConfig) :
    parseServerBlock file srv = parseLocation body (tokenize line) >>= fun read =>
      parseServerBlock read.2 { srv with routes := srv.routes ++ [read.1] } := by
  have hkey : word (tokenize line) 0 = .ok (ascii "location") := by
    rw [hopens]
    rfl
  rw [parseServerBlock_cons hnext (ne_closeBrace (by simp [hopens])), hkey, ok_bind, if_pos rfl]

theorem parseServerBlock_location {file : Bytes} {lines : List Bytes} {l : Location} {route : RouteConfig}
    (srv : ServerConfig) (h : configLines file = l.lines ++ lines) (hroute : l.Means route) :
    ∃ rest, configLines rest = lines ∧ parseServerBlock file srv =
      parseServerBlock rest { srv with routes := srv.routes ++ [route] } := by
  have hlines : configLines file = l.line :: openBrace :: (l.directives ++ closeBrace :: lines) := by
    rw [h]
    simp [Location.lines]
  obtain ⟨body, hnext, hbody⟩ := readNextLine_of_lines hlines
  obtain ⟨rest, hparse, hrest⟩ := parseLocation_of_lines l hbody hroute
  refine ⟨rest, hrest, ?_⟩
  rw [parseServerBlock_opens hnext l.opens, hparse]
  rfl

/-- The loop gets through accepted items, whatever routes there are already. -/
theorem parseServerBlock_of_lines {file : Bytes} {items : List Item} {lines : List Bytes} {srv : ServerConfig}
    (h : configLines file = items.flatMap Item.lines ++ lines)
    (haccepted : AcceptedItems { srv with routes := [] } items) :
    ∃ rest read, configLines rest = lines ∧ parseServerBlock file srv = parseServerBlock rest read := by
  induction items generalizing file srv with
  | nil =>
    exact ⟨file, srv, h, rfl⟩
  | cons item items ih =>
    rw [List.flatMap_cons, List.append_assoc] at h
    cases item with
    | directive line inside key =>
      obtain ⟨srv', hfields⟩ := haccepted.fields
      obtain ⟨next, hline, hfields⟩ := bind_eq_ok hfields
      obtain ⟨hkept, hall⟩ := parseDirective_frame hline
      have hparse : parseDirective srv (tokenize line) = .ok { next with routes := srv.routes } := hall srv.routes
      obtain ⟨left, hleft, hloop⟩ := parseServerBlock_directive h inside key hparse
      have hnext : { { next with routes := srv.routes } with routes := [] } = next := by
        have hnil : next.routes = [] := hkept
        cases next
        cases hnil
        rfl
      obtain ⟨rest, read, hrest, hloop'⟩ := @ih left { next with routes := srv.routes } hleft
        ⟨⟨srv', by rw [hnext]; exact hfields⟩, haccepted.locations⟩
      exact ⟨rest, read, hrest, hloop.trans hloop'⟩
    | location l =>
      obtain ⟨route, hroute⟩ := haccepted.locations l (List.mem_cons_self ..)
      obtain ⟨left, hleft, hloop⟩ := parseServerBlock_location srv h hroute
      obtain ⟨rest, read, hrest, hloop'⟩ := @ih left { srv with routes := srv.routes ++ [route] } hleft
        ⟨haccepted.fields, fun l' hl' => haccepted.locations l' (List.mem_cons_of_mem _ hl')⟩
      exact ⟨rest, read, hrest, hloop.trans hloop'⟩

theorem parseServerBlock_closed {file : Bytes} {lines : List Bytes} (srv : ServerConfig)
    (h : configLines file = closeBrace :: lines) :
    ∃ rest, parseServerBlock file srv = .ok (srv, rest) ∧ configLines rest = lines := by
  obtain ⟨rest, hnext, hrest⟩ := readNextLine_of_lines h
  refine ⟨rest, ?_, hrest⟩
  rw [parseServerBlock]
  split
  · next hnone => rw [hnone] at hnext; cases hnext
  · next hsome =>
    rw [hsome] at hnext
    cases hnext
    exact if_pos rfl

theorem parseServer_open {file line : Bytes} (opens : tokenize line = [ascii "server"]) :
    parseServer file (tokenize line) =
      expectOpenBrace file (ascii "server") >>= fun rest => parseServerBlock rest {} := by
  rw [opens]
  rfl

theorem parseLoop_cons {file line rest : Bytes} {servers : List ServerConfig}
    (hnext : readNextLine file = some (line, rest)) :
    parseLoop file servers =
      parseServer rest (tokenize line) >>= fun read => parseLoop read.2 (servers ++ [read.1]) := by
  rw [parseLoop]
  split
  · next hnone => rw [hnone] at hnext; cases hnext
  · next hsome =>
    rw [hsome] at hnext
    cases hnext
    split
    · next hparse => rw [hparse]; rfl
    · next hparse => rw [hparse]; rfl

/-- An accepted block is read off the front of a file, whatever servers there are already. -/
theorem parseLoop_block {file : Bytes} {lines : List Bytes} {b : Block} {srv : ServerConfig}
    (servers : List ServerConfig) (h : configLines file = b.lines ++ lines) (hb : b.Means srv) :
    ∃ rest servers', configLines rest = lines ∧ parseLoop file servers = parseLoop rest servers' := by
  have hlines : configLines file = b.line :: openBrace :: (b.items.flatMap Item.lines ++ closeBrace :: lines) := by
    rw [h]
    simp [Block.lines]
  obtain ⟨body, hnext, hbody⟩ := readNextLine_of_lines hlines
  obtain ⟨inside, hopen, hinside⟩ := expectOpenBrace_of_lines (ascii "server") hbody
  obtain ⟨left, read, hleft, hloop⟩ := @parseServerBlock_of_lines inside b.items _ {} hinside hb.accepted
  obtain ⟨rest, hclosed, hrest⟩ := parseServerBlock_closed read hleft
  refine ⟨rest, servers ++ [read], hrest, ?_⟩
  rw [parseLoop_cons hnext, parseServer_open b.opens, hopen, ok_bind, hloop, hclosed, ok_bind]

theorem locationLoop_bare {file line : Bytes} {lines : List Bytes} (route : RouteConfig)
    (h : configLines file = line :: lines) (hbare : tokenize line = []) :
    locationLoop file route = .error .outOfRange := by
  obtain ⟨rest, hnext, -⟩ := readNextLine_of_lines h
  have hbrace := ne_closeBrace (by simp [hbare] : (tokenize line).length ≠ 1)
  rw [locationLoop_cons hnext hbrace, hbare]
  rfl

/-- A front of a server and a line without a token. -/
theorem parseServerBlock_bare {file line : Bytes} {before after : List Bytes} {srv : ServerConfig}
    (h : configLines file = before ++ line :: after) (hbare : tokenize line = [])
    (hfront : ServerOpen { srv with routes := [] } before) :
    parseServerBlock file srv = .error .outOfRange := by
  have hbrace := ne_closeBrace (by simp [hbare] : (tokenize line).length ≠ 1)
  cases hfront with
  | items items accepted =>
    obtain ⟨rest, read, hrest, hloop⟩ := parseServerBlock_of_lines h accepted
    obtain ⟨left, hnext, -⟩ := readNextLine_of_lines hrest
    rw [hloop, parseServerBlock_cons hnext hbrace, hbare]
    rfl
  | location items accepted opening path directives opens inside =>
    rw [List.append_assoc] at h
    obtain ⟨rest, read, hrest, hloop⟩ := parseServerBlock_of_lines h accepted
    obtain ⟨body, hnext, hbody⟩ := readNextLine_of_lines hrest
    obtain ⟨left, hopen, hleft⟩ := expectOpenBrace_of_lines (ascii "location") hbody
    obtain ⟨hinside, route', happly⟩ := inside
    obtain ⟨last, hlast, hlocation⟩ := locationLoop_of_lines hleft hinside happly
    have hparse : parseLocation body (tokenize opening) = .error .outOfRange := by
      unfold parseLocation
      rw [opens, if_neg (by simp)]
      change (expectOpenBrace body (ascii "location") >>= fun rest => parseLocationBlock rest path) = _
      rw [hopen]
      exact hlocation.trans (locationLoop_bare route' hlast hbare)
    rw [hloop, parseServerBlock_opens hnext opens, hparse]
    rfl

/-- The loop gets through accepted blocks. -/
theorem parseLoop_of_lines {file : Bytes} {blocks : List Block} {lines : List Bytes} (servers : List ServerConfig)
    (h : configLines file = blocks.flatMap Block.lines ++ lines) (haccepted : ∀ b ∈ blocks, ∃ srv, b.Means srv) :
    ∃ rest servers', configLines rest = lines ∧ parseLoop file servers = parseLoop rest servers' := by
  induction blocks generalizing file servers with
  | nil => exact ⟨file, servers, h, rfl⟩
  | cons b blocks ih =>
    rw [List.flatMap_cons, List.append_assoc] at h
    obtain ⟨srv, hb⟩ := haccepted b (List.mem_cons_self ..)
    obtain ⟨left, servers', hleft, hloop⟩ := parseLoop_block servers h hb
    obtain ⟨rest, servers'', hrest, hloop'⟩ := ih servers' hleft
      (fun b' hb' => haccepted b' (List.mem_cons_of_mem _ hb'))
    exact ⟨rest, servers'', hrest, hloop.trans hloop'⟩

theorem parseLoop_bare {file : Bytes} (servers : List ServerConfig) (h : BareLine (configLines file) FileOpen) :
    parseLoop file servers = .error .outOfRange := by
  obtain ⟨before, line, after, hlines, hbare, hfront⟩ := h
  cases hfront with
  | blocks blocks accepted =>
    obtain ⟨rest, servers', hrest, hloop⟩ := parseLoop_of_lines servers hlines accepted
    obtain ⟨left, hnext, -⟩ := readNextLine_of_lines hrest
    rw [hloop, parseLoop_cons hnext, hbare]
    rfl
  | server blocks accepted opening lines opens inside =>
    rw [List.append_assoc] at hlines
    obtain ⟨rest, servers', hrest, hloop⟩ := parseLoop_of_lines servers hlines accepted
    obtain ⟨body, hnext, hbody⟩ := readNextLine_of_lines hrest
    obtain ⟨left, hopen, hleft⟩ := expectOpenBrace_of_lines (ascii "server") hbody
    rw [hloop, parseLoop_cons hnext, parseServer_open opens, hopen, ok_bind,
      @parseServerBlock_bare _ _ _ _ {} hleft hbare inside]
    rfl

/-! ## The whole file -/

theorem validateRoute_guarded (route : RouteConfig) : Guarded (validateRoute route) := by
  unfold validateRoute
  split
  · exact guarded_reject _
  · split
    · exact guarded_reject _
    · exact guarded_ok _

theorem forM_guarded {α : Type} {check : α → Parsed Unit} (h : ∀ a, Guarded (check a)) (l : List α) :
    Guarded (l.forM check) := by
  induction l with
  | nil => exact guarded_ok _
  | cons a l ih => exact (h a).bind (fun _ _ => ih)

theorem validateServer_guarded (srv : ServerConfig) : Guarded (validateServer srv) := by
  unfold validateServer
  split
  · exact guarded_reject _
  · exact forM_guarded validateRoute_guarded _

theorem validateListens_guarded (servers : List ServerConfig) : Guarded (validateListens servers) := by
  fun_induction validateListens servers with
  | case1 => exact guarded_ok _
  | case2 srv servers hany => exact guarded_reject _
  | case3 srv servers hany ih => exact ih

theorem validate_guarded (servers : List ServerConfig) : Guarded (validate servers) :=
  (forM_guarded validateServer_guarded servers).bind (fun _ _ => validateListens_guarded servers)

theorem parse_bare (filepath : Bytes) {file : Bytes} (h : BareLine (configLines file) FileOpen) :
    parse filepath (some file) = .error .outOfRange := by
  unfold parse
  dsimp only
  rw [parseLoop_bare [] h]
  rfl

/-- All tokens are read in range exactly when no line without a token stands where a
block is to open or a directive is expected. -/
theorem tokens_in_range_iff (filepath file : Bytes) :
    Guarded (parse filepath (some file)) ↔ ¬ BareLine (configLines file) FileOpen := by
  constructor
  · intro h hbare
    exact h (parse_bare filepath hbare)
  · intro h
    refine Guarded.bind (fun hfault => h (parseLoop_fault hfault)) (fun servers _ => ?_)
    split
    · exact guarded_reject _
    · exact (validate_guarded servers).bind (fun _ _ => guarded_ok _)

/-- A lone semicolon is a line, and has no token. -/
theorem semicolon_out_of_range : ¬ Guarded (parse (ascii "default.conf") (some (ascii ";\n"))) := by
  intro h
  have hlines : configLines (ascii ";\n") = [ascii ";"] := by decide +kernel
  have hbare : BareLine (configLines (ascii ";\n")) FileOpen :=
    ⟨[], ascii ";", [], hlines, by decide, .blocks [] (by simp)⟩
  exact h (parse_bare _ hbare)

end WebServ.Configuration
