import WebServ.Config.TokenReads

/-! # Exactly the files that are accepted

Whatever lines are blocks that mean valid servers are accepted, and the servers are the
ones that the blocks mean.
-/
namespace WebServ.Configuration

/-! ## Blocks are read as what they mean -/

theorem parseServerBlock_means {file : Bytes} {items : List Item} {lines : List Bytes} {srv srv' : ServerConfig}
    {routes : List RouteConfig} (h : configLines file = items.flatMap Item.lines ++ lines)
    (hfields : applyDirectives { srv with routes := [] } (items.filterMap Item.directiveLine) =
      .ok { srv' with routes := [] })
    (hroutes : List.Forall₂ Location.Means (items.filterMap Item.locationBlock) routes) :
    ∃ rest, configLines rest = lines ∧
      parseServerBlock file srv = parseServerBlock rest { srv' with routes := srv.routes ++ routes } := by
  induction items generalizing file srv routes with
  | nil =>
    cases hroutes
    have hsame : { srv with routes := [] } = { srv' with routes := [] } := Except.ok.inj hfields
    refine ⟨file, h, ?_⟩
    rw [List.append_nil]
    cases srv
    cases srv'
    simp_all
  | cons item items ih =>
    rw [List.flatMap_cons, List.append_assoc] at h
    cases item with
    | directive line inside key =>
      obtain ⟨next, hline, hfields⟩ := bind_eq_ok hfields
      obtain ⟨hkept, hall⟩ := parseDirective_frame hline
      have hparse : parseDirective srv (tokenize line) = .ok { next with routes := srv.routes } := hall srv.routes
      obtain ⟨left, hleft, hloop⟩ := parseServerBlock_directive h inside key hparse
      have hnext : { { next with routes := srv.routes } with routes := [] } = next := by
        have hnil : next.routes = [] := hkept
        cases next
        cases hnil
        rfl
      obtain ⟨rest, hrest, hloop'⟩ := @ih left { next with routes := srv.routes } routes hleft
        (by rw [hnext]; exact hfields) hroutes
      exact ⟨rest, hrest, hloop.trans hloop'⟩
    | location l =>
      cases hroutes with
      | @cons _ route _ routes hroute hroutes =>
        obtain ⟨left, hleft, hloop⟩ := parseServerBlock_location srv h hroute
        obtain ⟨rest, hrest, hloop'⟩ := @ih left { srv with routes := srv.routes ++ [route] } routes hleft hfields hroutes
        refine ⟨rest, hrest, hloop.trans ?_⟩
        rw [hloop', List.append_assoc, List.singleton_append]

theorem parseLoop_means {file : Bytes} {blocks : List Block} {servers : List ServerConfig} (read : List ServerConfig)
    (h : configLines file = blocks.flatMap Block.lines) (hmeans : List.Forall₂ Block.Means blocks servers) :
    parseLoop file read = .ok (read ++ servers) := by
  induction hmeans generalizing file read with
  | nil =>
    rw [parseLoop]
    split
    · rw [List.append_nil]
    · next hnext =>
      rw [configLines_of_some hnext] at h
      cases h
  | @cons b srv blocks servers hb hmeans ih =>
    have hlines : configLines file = b.line :: openBrace :: (b.items.flatMap Item.lines ++
        closeBrace :: blocks.flatMap Block.lines) := by
      rw [h]
      simp [Block.lines]
    obtain ⟨body, hnext, hbody⟩ := readNextLine_of_lines hlines
    obtain ⟨inside, hopen, hinside⟩ := expectOpenBrace_of_lines (ascii "server") hbody
    obtain ⟨left, hleft, hloop⟩ := @parseServerBlock_means inside b.items _ {} srv srv.routes hinside hb.fields hb.routes
    obtain ⟨rest, hclosed, hrest⟩ := parseServerBlock_closed { srv with routes := [] ++ srv.routes } hleft
    rw [parseLoop_cons hnext, parseServer_open b.opens, hopen, ok_bind, hloop, hclosed, ok_bind, ih _ hrest]
    simp

/-! ## The checks pass what is valid -/

theorem validateRoute_eq_ok {route : RouteConfig} (h : ValidRoute route) : validateRoute route = .ok () := by
  have hcode := h.redirect
  unfold validateRoute
  rw [if_neg (by simp [h.path]), if_neg (by omega)]

theorem forM_ok {α : Type} {check : α → Parsed Unit} {l : List α} (h : ∀ a ∈ l, check a = .ok ()) :
    l.forM check = .ok () := by
  induction l with
  | nil => rfl
  | cons a l ih =>
    have hrest := ih fun b hb => h b (List.mem_cons_of_mem a hb)
    change (check a >>= fun _ => l.forM check) = _
    rw [h a (List.mem_cons_self ..), ok_bind]
    exact hrest

theorem validateServer_eq_ok {srv : ServerConfig} (h : ValidServer srv) : validateServer srv = .ok () := by
  have hport := h.port
  unfold validateServer
  rw [if_neg (by omega)]
  exact forM_ok fun route hroute => validateRoute_eq_ok (h.routes route hroute)

theorem validateListens_eq_ok {servers : List ServerConfig}
    (h : servers.Pairwise fun srv other => ¬ (srv.host = other.host ∧ srv.port = other.port)) :
    validateListens servers = .ok () := by
  induction h with
  | nil => rfl
  | @cons srv servers hfirst hrest ih =>
    unfold validateListens
    rw [if_neg, ih]
    simpa using hfirst

/-- The servers can be run side by side. -/
structure ValidServers (servers : List ServerConfig) : Prop where
  nonempty : servers ≠ []
  valid : ∀ srv ∈ servers, ValidServer srv
  apart : servers.Pairwise fun srv other => ¬ (srv.host = other.host ∧ srv.port = other.port)

theorem parse_of_means {filepath file : Bytes} {blocks : List Block} {servers : List ServerConfig}
    (h : configLines file = blocks.flatMap Block.lines) (hmeans : List.Forall₂ Block.Means blocks servers)
    (hv : ValidServers servers) : parse filepath (some file) = .ok servers := by
  have hchecked : validate servers = .ok () := by
    unfold validate
    rw [forM_ok fun srv hsrv => validateServer_eq_ok (hv.valid srv hsrv), ok_bind]
    exact validateListens_eq_ok hv.apart
  unfold parse
  dsimp only
  rw [parseLoop_means [] h hmeans, ok_bind, List.nil_append, if_neg hv.nonempty, hchecked]
  rfl

/-- A file is accepted as a list of servers exactly when its lines are blocks that mean these servers, one for each
of them, and the servers are valid. -/
theorem parse_exactly (filepath file : Bytes) (servers : List ServerConfig) :
    parse filepath (some file) = .ok servers ↔
      (∃ blocks : List Block, configLines file = blocks.flatMap Block.lines ∧
        List.Forall₂ Block.Means blocks servers) ∧ ValidServers servers := by
  constructor
  · intro h
    obtain ⟨blocks, hne, hlines, hmeans, hvalid, hapart⟩ := parse_accepted filepath file servers h
    refine ⟨⟨blocks, hlines, hmeans⟩, ?_, hvalid, hapart⟩
    rintro rfl
    cases hmeans
    exact hne rfl
  · rintro ⟨⟨blocks, hlines, hmeans⟩, hv⟩
    exact parse_of_means hlines hmeans hv

end WebServ.Configuration
