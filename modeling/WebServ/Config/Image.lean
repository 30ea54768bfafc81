import WebServ.Config.Rendering

/-! # What is read can be written

The servers of an accepted file have no fields but those that can be written, so that the
written files have all lists of servers that any file has.
-/
namespace WebServ.Configuration
open Search

theorem mem_splitOnP {α : Type} {p : α → Bool} {s w : List α} (h : w ∈ s.splitOnP p) :
    (∀ b ∈ w, p b = false) ∧ w ⊆ s := by
  induction s generalizing w with
  | nil =>
    obtain rfl := List.mem_singleton.mp h
    simp
  | cons a s ih =>
    rw [List.splitOnP_cons_eq_if_modifyHead] at h
    by_cases ha : p a = true
    · rw [if_pos ha] at h
      rcases List.mem_cons.mp h with rfl | h
      · simp
      · exact ⟨(ih h).1, List.subset_cons_of_subset a (ih h).2⟩
    · rw [if_neg ha] at h
      cases hsplit : s.splitOnP p with
      | nil =>
        rw [hsplit] at h
        cases h
      | cons v words =>
        rw [hsplit, List.modifyHead_cons] at h
        rcases List.mem_cons.mp h with rfl | h
        · obtain ⟨hv, hsub⟩ := ih (hsplit ▸ List.mem_cons_self ..)
          refine ⟨?_, List.cons_subset_cons a hsub⟩
          simpa using ⟨by simpa using ha, hv⟩
        · obtain ⟨hw, hsub⟩ := ih (hsplit ▸ List.mem_cons_of_mem v h)
          exact ⟨hw, List.subset_cons_of_subset a hsub⟩

/-- The words of a line without a comment. -/
theorem isWord_of_tokenize {line : Bytes} (hmark : 35 ∉ line) : ∀ w ∈ tokenize line, IsWord w := by
  intro w hw
  obtain ⟨hw, hne⟩ := List.mem_filter.mp hw
  obtain ⟨hspace, hsub⟩ := mem_splitOnP hw
  refine ⟨by simpa using hne, ?_⟩
  intro b hb
  refine ⟨hspace b hb, ?_⟩
  rintro rfl
  have hline := hsub hb
  split at hline
  · exact hmark (List.mem_of_mem_dropLast hline)
  · exact hmark hline

theorem trim_subset (set s : Bytes) : (trim set s).getD [] ⊆ s := by
  unfold trim
  split
  · exact fun b hb => List.mem_of_mem_drop (List.mem_of_mem_take hb)
  · simp

theorem cleanLine_no_comment (line : Bytes) : 35 ∉ cleanLine line := by
  intro hmem
  have hmark : ascii "#" = [35] := by decide
  have hbefore := trim_subset _ _ hmem
  by_cases hline : 35 ∈ line
  · obtain ⟨hfind, htake, -⟩ := find_singleton_of_mem hline
    rw [hmark, before, hfind] at hbefore
    dsimp only at hbefore
    rw [htake] at hbefore
    simpa using List.mem_takeWhile_imp hbefore
  · rw [hmark, before_eq_self hline] at hbefore
    exact hline hbefore

theorem configLines_no_comment (file : Bytes) : ∀ line ∈ configLines file, 35 ∉ line := by
  intro line hline
  obtain ⟨raw, -, rfl⟩ := List.mem_map.mp (List.mem_filter.mp hline).1
  exact cleanLine_no_comment raw

theorem intRange_of_readInt {text : Bytes} {z : ℤ} (h : readInt text = some z) : IntRange z := by
  have hinside (value : ℤ) (hvalue : (if -2 ^ 31 ≤ value ∧ value < 2 ^ 31 then some value else none) = some z) :
      IntRange z := by
    split at hvalue
    · next hrange =>
      cases hvalue
      exact hrange
    · cases hvalue
  obtain ⟨⟨negative, magnitude⟩, -, h⟩ := Option.bind_eq_some_iff.mp h
  exact hinside _ h

theorem parseSize_lt {value : Bytes} {size : ℕ} (h : parseSize value = .ok size) : size < 2 ^ 64 := by
  unfold parseSize at h
  split at h
  · cases h
  · dsimp only at h
    split at h
    · cases h
      exact Nat.mod_lt _ (by decide)
    · cases h

theorem isWord_word {words : List Bytes} {i : ℕ} {text : Bytes} (hw : ∀ w ∈ words, IsWord w)
    (h : word words i = .ok text) : IsWord text := hw text (List.mem_of_getElem? (word_eq_ok h))

/-! ### Routes -/

theorem writableRoute_default {path : Bytes} (h : IsWord path) : WritableRoute { path } := by
  have hnone : Plain [] := by
    intro b hb
    cases hb
  have hindex : IsWord (ascii "index.html") := by
    refine ⟨by decide, ?_⟩
    unfold Plain
    decide +kernel
  exact ⟨h, hnone, hindex, by simp, hnone, rfl, hnone, hnone, hnone, rfl⟩

theorem parseReturn_writable {route route' : RouteConfig} {words : List Bytes} (hw : ∀ w ∈ words, IsWord w)
    (hroute : WritableRoute route) (h : parseReturn route words = .ok route') : WritableRoute route' := by
  unfold parseReturn at h
  split at h
  · cases h
  · obtain ⟨text, -, h⟩ := bind_eq_ok h
    split at h
    · cases h
    · next code hcode =>
      obtain ⟨url, hurl, h⟩ := bind_eq_ok h
      have hword := isWord_word hw hurl
      cases h
      exact { hroute with
        redirectUrl := hword.plain
        redirectCode := (if_neg hword.nonempty).symm ▸ intRange_of_readInt hcode }

theorem parseRouteDirective_writable {route route' : RouteConfig} {words : List Bytes} (hw : ∀ w ∈ words, IsWord w)
    (hroute : WritableRoute route) (h : parseRouteDirective route words = .ok route') : WritableRoute route' := by
  obtain ⟨key, -, h⟩ := bind_eq_ok h
  -- a directive that sets a text sets a word of its line
  have text {name : Bytes} {f : Bytes → RouteConfig}
      (h : (do return f (← parseRouteStringDirective words name) : Parsed RouteConfig) = .ok route')
      (hf : ∀ value, IsWord value → WritableRoute (f value)) : WritableRoute route' := by
    obtain ⟨value, hvalue, h⟩ := bind_eq_ok h
    obtain ⟨_, -, hvalue⟩ := bind_eq_ok hvalue
    cases h
    exact hf value (isWord_word hw hvalue)
  split at h
  · exact text h fun value hvalue => { hroute with root := hvalue.plain }
  split at h
  · exact text h fun value hvalue => { hroute with index := hvalue }
  split at h
  · obtain ⟨_, -, h⟩ := bind_eq_ok h
    obtain ⟨value, -, h⟩ := bind_eq_ok h
    split at h
    · cases h
      exact { hroute with }
    · split at h
      · cases h
        exact { hroute with }
      · cases h
  split at h
  · obtain ⟨_, -, h⟩ := bind_eq_ok h
    cases h
    exact { hroute with allowedMethods := fun method hmethod => hw method (List.mem_of_mem_drop hmethod) }
  split at h
  · exact parseReturn_writable hw hroute h
  split at h
  · exact text h fun value hvalue => { hroute with uploadStore := hvalue.plain }
  split at h
  · exact text h fun value hvalue => { hroute with cgiExtension := hvalue.plain }
  split at h
  · exact text h fun value hvalue => { hroute with cgiPath := hvalue.plain }
  split at h
  · obtain ⟨_, -, h⟩ := bind_eq_ok h
    obtain ⟨value, -, h⟩ := bind_eq_ok h
    obtain ⟨size, hsize, h⟩ := bind_eq_ok h
    cases h
    exact { hroute with bodySize := parseSize_lt hsize }
  · cases h

theorem applyRouteDirectives_writable {route route' : RouteConfig} {directives : List Bytes}
    (hmark : ∀ line ∈ directives, 35 ∉ line) (hroute : WritableRoute route)
    (h : applyRouteDirectives route directives = .ok route') : WritableRoute route' := by
  induction directives generalizing route with
  | nil =>
    cases h
    exact hroute
  | cons line directives ih =>
    obtain ⟨next, hline, h⟩ := bind_eq_ok h
    have hwords := isWord_of_tokenize (hmark line (List.mem_cons_self ..))
    exact ih (fun other hother => hmark other (List.mem_cons_of_mem line hother))
      (parseRouteDirective_writable hwords hroute hline) h

/-- A route that a location means can be written. -/
theorem Location.Means.writable {l : Location} {route : RouteConfig} (hmark : ∀ line ∈ l.lines, 35 ∉ line)
    (h : l.Means route) : WritableRoute route := by
  have hwords := isWord_of_tokenize (hmark l.line (List.mem_cons_self ..))
  rw [l.opens] at hwords
  have hpath : IsWord l.path := hwords l.path (by simp)
  refine applyRouteDirectives_writable ?_ (writableRoute_default hpath) h.fields
  intro line hline
  exact hmark line (by simp [Location.lines, hline])

/-! ### Servers -/

theorem plain_any : Plain (ascii "0.0.0.0") := by
  unfold Plain
  decide +kernel

theorem writableServer_default : WritableServer {} where
  listen := ⟨rfl, rfl⟩
  serverNames := by simp
  errorPages := by simp
  bodySize := by decide

theorem parseListen_writable {srv srv' : ServerConfig} {value : Bytes} (hvalue : IsWord value)
    (hserver : WritableServer srv) (hfirst : srv.hasListen = false)
    (h : parseListen value { srv with hasListen := true } = .ok srv') : WritableServer srv' := by
  have hcolon : ascii ":" = [58] := by decide
  have port {host text : Bytes} (hhost : Plain host ∧ 58 ∉ host)
      (h : parsePort text { srv with host, hasListen := true } = .ok srv') : WritableServer srv' := by
    unfold parsePort at h
    split at h
    · next port hport =>
      cases h
      exact { hserver with listen := ⟨hhost.1, hhost.2, intRange_of_readInt hport⟩ }
    · cases h
  unfold parseListen at h
  split at h
  · next colon hfind =>
    rw [hcolon] at hfind
    obtain ⟨host, text, rfl, hhost, rfl⟩ := find_singleton_eq_some hfind
    rw [List.take_left'] at h
    · refine port ⟨?_, hhost⟩ h
      intro b hb
      exact hvalue.plain b (List.mem_append_left _ hb)
    · rfl
  · have hlisten := hserver.listen
    rw [hfirst, if_neg (by simp)] at hlisten
    have hhost : Plain srv.host ∧ 58 ∉ srv.host := by
      rw [hlisten.1]
      exact ⟨plain_any, by decide +kernel⟩
    exact port hhost h

theorem parseErrorPage_writable {srv srv' : ServerConfig} {words : List Bytes} (hw : ∀ w ∈ words, IsWord w)
    (hserver : WritableServer srv) (h : parseErrorPage srv words = .ok srv') : WritableServer srv' := by
  unfold parseErrorPage at h
  split at h
  · cases h
  · obtain ⟨text, -, h⟩ := bind_eq_ok h
    split at h
    · cases h
    · next code hcode =>
      obtain ⟨path, hpath, h⟩ := bind_eq_ok h
      have hword := isWord_word hw hpath
      cases h
      refine { hserver with errorPages := ?_ }
      intro other page hpage
      rw [Std.ExtTreeMap.getElem?_insert] at hpage
      split at hpage
      · next hsame =>
        cases hpage
        have hsame := Std.LawfulEqCmp.eq_of_compare hsame
        exact hsame ▸ ⟨intRange_of_readInt hcode, hword⟩
      · exact hserver.errorPages other page hpage

theorem parseDirective_writable {srv srv' : ServerConfig} {words : List Bytes} (hw : ∀ w ∈ words, IsWord w)
    (hserver : WritableServer srv) (h : parseDirective srv words = .ok srv') : WritableServer srv' := by
  obtain ⟨key, -, h⟩ := bind_eq_ok h
  split at h
  · obtain ⟨_, -, h⟩ := bind_eq_ok h
    split at h
    · cases h
    · next hfirst =>
      obtain ⟨value, hvalue, h⟩ := bind_eq_ok h
      exact parseListen_writable (isWord_word hw hvalue) hserver (by simpa using hfirst) h
  split at h
  · obtain ⟨_, -, h⟩ := bind_eq_ok h
    cases h
    refine { hserver with serverNames := ?_ }
    intro name hname
    rcases List.mem_append.mp hname with hname | hname
    · exact hserver.serverNames name hname
    · exact hw name (List.mem_of_mem_drop hname)
  split at h
  · exact parseErrorPage_writable hw hserver h
  split at h
  · obtain ⟨_, -, h⟩ := bind_eq_ok h
    obtain ⟨value, -, h⟩ := bind_eq_ok h
    obtain ⟨size, hsize, h⟩ := bind_eq_ok h
    cases h
    exact { hserver with bodySize := parseSize_lt hsize }
  · cases h

theorem applyDirectives_writable {srv srv' : ServerConfig} {directives : List Bytes}
    (hmark : ∀ line ∈ directives, 35 ∉ line) (hserver : WritableServer srv)
    (h : applyDirectives srv directives = .ok srv') : WritableServer srv' := by
  induction directives generalizing srv with
  | nil =>
    cases h
    exact hserver
  | cons line directives ih =>
    obtain ⟨next, hline, h⟩ := bind_eq_ok h
    have hwords := isWord_of_tokenize (hmark line (List.mem_cons_self ..))
    exact ih (fun other hother => hmark other (List.mem_cons_of_mem line hother))
      (parseDirective_writable hwords hserver hline) h

theorem exists_related {α β : Type} {R : α → β → Prop} {l : List α} {l' : List β} (h : List.Forall₂ R l l') :
    ∀ b ∈ l', ∃ a ∈ l, R a b := by
  induction h with
  | nil => simp
  | @cons a b l l' hfirst hrest ih =>
    intro c hc
    rcases List.mem_cons.mp hc with rfl | hc
    · exact ⟨a, List.mem_cons_self .., hfirst⟩
    · obtain ⟨d, hd, hrel⟩ := ih c hc
      exact ⟨d, List.mem_cons_of_mem a hd, hrel⟩

theorem Block.mem_lines {b : Block} {item : Item} {line : Bytes} (hitem : item ∈ b.items) (h : line ∈ item.lines) :
    line ∈ b.lines := by
  have hmem : line ∈ b.items.flatMap Item.lines := List.mem_flatMap.mpr ⟨item, hitem, h⟩
  simp [Block.lines, hmem]

/-- A server that a block means can be written. -/
theorem Block.Means.writable {b : Block} {srv : ServerConfig} (hmark : ∀ line ∈ b.lines, 35 ∉ line)
    (h : b.Means srv) : Writable srv where
  server := by
    have hfields : WritableServer { srv with routes := [] } := by
      refine applyDirectives_writable ?_ writableServer_default h.fields
      intro line hline
      obtain ⟨item, hitem, hsome⟩ := List.mem_filterMap.mp hline
      cases item with
      | directive text inside key =>
        cases hsome
        exact hmark line (mem_lines hitem (List.mem_cons_self ..))
      | location l => cases hsome
    exact { hfields with }
  routes := by
    intro route hroute
    obtain ⟨l, hl, hmeans⟩ := exists_related h.routes route hroute
    refine hmeans.writable ?_
    obtain ⟨item, hitem, hsome⟩ := List.mem_filterMap.mp hl
    cases item with
    | directive line inside key => cases hsome
    | location l =>
      cases hsome
      exact fun line hline => hmark line (mem_lines hitem hline)

/-- All servers of an accepted file are valid and can be written. -/
theorem parse_writable {filepath file : Bytes} {servers : List ServerConfig}
    (h : parse filepath (some file) = .ok servers) : ValidServers servers ∧ ∀ srv ∈ servers, Writable srv := by
  obtain ⟨⟨blocks, hlines, hmeans⟩, hv⟩ := (parse_exactly filepath file servers).mp h
  refine ⟨hv, ?_⟩
  intro srv hsrv
  obtain ⟨b, hb, hmeans⟩ := exists_related hmeans srv hsrv
  refine hmeans.writable ?_
  intro line hline
  apply configLines_no_comment file
  rw [hlines]
  exact List.mem_flatMap.mpr ⟨b, hb, hline⟩

/-- The lists of servers that some file is accepted as are the valid ones that can be written, and the file that is
written for such a list is one of them. -/
theorem parse_image (filepath : Bytes) (servers : List ServerConfig) :
    ((∃ file, parse filepath (some file) = .ok servers) ↔ ValidServers servers ∧ ∀ srv ∈ servers, Writable srv) ∧
      (parse filepath (some (render servers)) = .ok servers ↔
        ValidServers servers ∧ ∀ srv ∈ servers, Writable srv) := by
  have hback (h : ValidServers servers ∧ ∀ srv ∈ servers, Writable srv) :
      parse filepath (some (render servers)) = .ok servers := parse_render filepath h.2 h.1
  constructor
  · constructor
    · rintro ⟨file, h⟩
      exact parse_writable h
    · exact fun h => ⟨render servers, hback h⟩
  · exact ⟨parse_writable, hback⟩

end WebServ.Configuration
