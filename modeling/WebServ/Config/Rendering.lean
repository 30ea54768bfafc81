import WebServ.Config.Grammar
import WebServ.Config.SizeValues
import WebServ.Http.HeadLines
import WebServ.Lib.FieldMap

/-! # Writing a configuration

A list of servers is written as a file: the words of a directive on one line, which ends
with a semicolon. What can be written is read back.
-/
namespace WebServ.Configuration
open Search

/-! ## Words and lines -/

/-- No byte of the text ends a word or begins a comment. -/
def Plain (text : Bytes) : Prop := ∀ b ∈ text, isSpace b = false ∧ b ≠ 35

/-- What a word of a line can be. -/
structure IsWord (text : Bytes) : Prop where
  nonempty : text ≠ []
  plain : Plain text

def renderLine (words : List Bytes) : Bytes := [32].intercalate words ++ [59]

theorem getLast?_renderLine (words : List Bytes) : (renderLine words).getLast? = some 59 := by
  simp [renderLine]

theorem Plain.append {s t : Bytes} (hs : Plain s) (ht : Plain t) : Plain (s ++ t) := by
  intro b hb
  exact (List.mem_append.mp hb).elim (hs b) (ht b)

theorem splitOnP_intercalate {words : List Bytes} (hne : words ≠ []) (h : ∀ w ∈ words, IsWord w) :
    ([32].intercalate words).splitOnP isSpace = words := by
  induction words with
  | nil => exact absurd rfl hne
  | cons w words ih =>
    have hw : ∀ b ∈ w, isSpace b = false := fun b hb => ((h w (List.mem_cons_self ..)).plain b hb).1
    cases words with
    | nil => simpa [List.intercalate] using List.splitOnP_eq_singleton hw
    | cons v words =>
      have hrest := ih (by simp) fun u hu => h u (List.mem_cons_of_mem w hu)
      have hsplit : [32].intercalate (w :: v :: words) = w ++ 32 :: [32].intercalate (v :: words) := by
        simp [List.intercalate]
      rw [hsplit, List.splitOnP_append_cons_of_forall_mem hw 32 (by decide), hrest]

/-- The words of a written line are read. -/
theorem tokenize_renderLine {words : List Bytes} (hne : words ≠ []) (h : ∀ w ∈ words, IsWord w) :
    tokenize (renderLine words) = words := by
  have hlast := getLast?_renderLine words
  have hall : words.filter (· ≠ []) = words := by
    rw [List.filter_eq_self]
    intro w hw
    simpa using (h w hw).nonempty
  unfold tokenize
  rw [if_pos hlast, renderLine, List.dropLast_concat]
  dsimp only
  rw [splitOnP_intercalate hne h, hall]

/-- A line that is read as it is. -/
structure PlainLine (line : Bytes) : Prop where
  nonempty : line ≠ []
  inside : 10 ∉ line
  clean : cleanLine line = line

theorem PlainLine.of_ends {line : Bytes} {a b : UInt8} (hhead : line.head? = some a) (hlast : line.getLast? = some b)
    (ha : isSpace a = false) (hb : isSpace b = false) (hinside : 10 ∉ line) (hplain : 35 ∉ line) : PlainLine line where
  nonempty := by
    rintro rfl
    cases hhead
  inside := hinside
  clean := by
    have hblank (c : UInt8) (hc : isSpace c = false) : c ∉ ascii " \t\r\n" := by
      have hset : ∀ c ∈ ascii " \t\r\n", isSpace c = true := by decide +kernel
      intro hmem
      rw [hset c hmem] at hc
      cases hc
    have hmark : ascii "#" = [35] := by decide
    have htrim := trim_pad (l := []) (r := []) (by simp) (by simp) (hblank a ha) (hblank b hb) hhead hlast
    rw [List.nil_append, List.append_nil] at htrim
    rw [cleanLine, hmark, before_eq_self hplain, htrim, Option.getD_some]

theorem mem_renderLine {words : List Bytes} {b : UInt8} (h : b ∈ renderLine words) :
    b = 32 ∨ b = 59 ∨ ∃ w ∈ words, b ∈ w := by
  have hinside : b ∈ [32].intercalate words → b = 32 ∨ ∃ w ∈ words, b ∈ w := by
    intro hb
    induction words with
    | nil => simp [List.intercalate] at hb
    | cons w words ih =>
      cases words with
      | nil => exact Or.inr ⟨w, by simp, by simpa [List.intercalate] using hb⟩
      | cons v words =>
        have hb : b ∈ w ∨ b = 32 ∨ b ∈ [32].intercalate (v :: words) := by simpa [List.intercalate] using hb
        rcases hb with hb | hb | hb
        · exact Or.inr ⟨w, by simp, hb⟩
        · exact Or.inl hb
        · rcases ih (by simp [renderLine, hb]) hb with hb | ⟨u, hu, hb⟩
          · exact Or.inl hb
          · exact Or.inr ⟨u, List.mem_cons_of_mem w hu, hb⟩
  rcases List.mem_append.mp h with hb | hb
  · exact (hinside hb).imp_right Or.inr
  · exact Or.inr (Or.inl (List.mem_singleton.mp hb))

theorem plainLine_renderLine {words : List Bytes} (hne : words ≠ []) (h : ∀ w ∈ words, IsWord w) :
    PlainLine (renderLine words) := by
  have hbyte {b : UInt8} (hb : b ∈ renderLine words) : b ≠ 10 ∧ b ≠ 35 := by
    rcases mem_renderLine hb with rfl | rfl | ⟨w, hw, hb⟩
    · decide
    · decide
    · obtain ⟨hspace, hmark⟩ := (h w hw).plain b hb
      refine ⟨?_, hmark⟩
      rintro rfl
      cases hspace
  obtain ⟨w, words, rfl⟩ := List.exists_cons_of_ne_nil hne
  have hw := h w (List.mem_cons_self ..)
  obtain ⟨a, t, rfl⟩ := List.exists_cons_of_ne_nil hw.nonempty
  refine .of_ends (a := a) (b := 59) ?_ (getLast?_renderLine _) (hw.plain a (List.mem_cons_self ..)).1 (by decide) ?_ ?_
  · cases words <;> simp [renderLine, List.intercalate]
  · exact fun hb => (hbyte hb).1 rfl
  · exact fun hb => (hbyte hb).2 rfl

/-- A file with the lines. -/
def renderFile (lines : List Bytes) : Bytes := lines.flatMap (· ++ [10])

theorem configLines_renderFile {lines : List Bytes} (h : ∀ line ∈ lines, PlainLine line) :
    configLines (renderFile lines) = lines := by
  induction lines with
  | nil => exact configLines_nil
  | cons line lines ih =>
    have hline := h line (List.mem_cons_self ..)
    have hfile : renderFile (line :: lines) = line ++ 10 :: renderFile lines := by simp [renderFile]
    have hget : getline (renderFile (line :: lines)) = some (line, renderFile lines) := by
      rw [hfile, getline, if_neg (by simp), takeWhile_ne_append _ hline.inside, dropWhile_ne_append _ hline.inside,
        List.tail_cons]
    rw [configLines_of_getline hget, hline.clean, if_neg hline.nonempty,
      ih fun other hother => h other (List.mem_cons_of_mem line hother)]

/-! ## Numbers -/

theorem digits_decimal (n : ℕ) : ∀ b ∈ decimal n, (decDigit b).isSome = true := by
  intro b hb
  obtain ⟨hlow, hhigh⟩ := mem_decimal hb
  have hdigit : 48 ≤ b ∧ b ≤ 57 := by
    rw [UInt8.le_iff_toNat_le, UInt8.le_iff_toNat_le]
    exact ⟨hlow, hhigh⟩
  rw [decDigit, if_pos hdigit, Option.isSome_some]

theorem decimal_ne_nil (n : ℕ) : decimal n ≠ [] := by
  simp [decimal, Nat.toDigits_ne_nil]

/-- The digits that are written denote the number. -/
theorem decValue_decimal (n : ℕ) : decValue (decimal n) = n := by
  have hread (cs : List Char) (hcs : ∀ c ∈ cs, 48 ≤ c.toNat ∧ c.toNat ≤ 57) (v : ℕ) :
      readDigits 10 decDigit v (cs.map fun c => UInt8.ofNat c.toNat) = Nat.ofDigitChars 10 cs v := by
    induction cs generalizing v with
    | nil => simp [readDigits]
    | cons c cs ih =>
      obtain ⟨hlow, hhigh⟩ := hcs c (List.mem_cons_self ..)
      have hbyte : (UInt8.ofNat c.toNat).toNat = c.toNat := by
        rw [UInt8.toNat_ofNat', Nat.mod_eq_of_lt (by omega)]
      have hdigit : decDigit (UInt8.ofNat c.toNat) = some (c.toNat - 48) := by
        rw [decDigit, if_pos, hbyte]
        rw [UInt8.le_iff_toNat_le, UInt8.le_iff_toNat_le, hbyte]
        exact ⟨hlow, hhigh⟩
      have hrest := ih (fun d hd => hcs d (List.mem_cons_of_mem c hd)) (10 * v + (c.toNat - 48))
      rw [Nat.ofDigitChars_cons]
      simp only [readDigits, List.map_cons, List.foldl_cons, hdigit, Option.getD_some] at hrest ⊢
      rw [Nat.mul_comm v 10]
      exact hrest
  refine (hread _ ?_ 0).trans Nat.ofDigitChars_ten_toDigits
  intro c hc
  have hdigit := Nat.isDigit_of_mem_toDigits (by decide) le_rfl hc
  simp only [Char.isDigit, Bool.and_eq_true, decide_eq_true_eq, ge_iff_le, UInt32.le_iff_toNat_le] at hdigit
  exact hdigit

theorem isWord_of_digits {text : Bytes} (hne : text ≠ []) (h : ∀ b ∈ text, (decDigit b).isSome = true) : IsWord text where
  nonempty := hne
  plain b hb := by
    refine ⟨(decDigit_not_sign (h b hb)).1, ?_⟩
    rintro rfl
    cases h 35 hb

theorem isWord_decimal (n : ℕ) : IsWord (decimal n) := isWord_of_digits (decimal_ne_nil n) (digits_decimal n)

theorem isWord_decimalInt (z : ℤ) : IsWord (decimalInt z) := by
  cases z with
  | ofNat n => exact isWord_decimal n
  | negSucc n =>
    refine ⟨by simp [decimalInt, decimal_ne_nil], ?_⟩
    have hminus : Plain (ascii "-") := by
      unfold Plain
      decide +kernel
    exact hminus.append (isWord_decimal (n + 1)).plain

theorem parseSize_decimal {n : ℕ} (h : n < 2 ^ 64) : parseSize (decimal n) = .ok n := by
  have hunit : (([] : Bytes), 1) ∈ sizeUnits := by decide
  have hparts := digits_parts hunit (digits_decimal n)
  rw [List.append_nil] at hparts
  rw [parseSize_ok_iff hparts]
  have hread := (StreamNumber.of_digits (decimal_ne_nil n) (digits_decimal n)).readSizeT_eq
  rw [decValue_decimal, if_pos h, if_neg (by decide)] at hread
  exact ⟨n, hread, by omega⟩

theorem readInt_decimalInt {z : ℤ} (h : -2 ^ 31 ≤ z ∧ z < 2 ^ 31) : readInt (decimalInt z) = some z := by
  cases z with
  | ofNat n =>
    have hread := (StreamNumber.of_digits (decimal_ne_nil n) (digits_decimal n)).readDecimal_eq
    have hplus : decide (([] : Bytes) = ascii "-") = false := by decide
    rw [decValue_decimal, hplus] at hread
    rw [readInt, decimalInt, hread, Option.bind_some]
    exact if_pos h
  | negSucc n =>
    have hnumber : StreamNumber (ascii "-" ++ decimal (n + 1)) [] (ascii "-") (decimal (n + 1)) [] := by
      refine ⟨by simp, by simp, by decide, decimal_ne_nil _, digits_decimal _, by simp⟩
    have hread := hnumber.readDecimal_eq
    rw [decValue_decimal, decide_eq_true rfl] at hread
    rw [readInt, decimalInt, hread, Option.bind_some]
    exact if_pos h

/-! ## Directives -/

/-- A directive with one value, unless the value is empty. -/
def optional (key value : Bytes) : List (List Bytes) := if value = [] then [] else [[key, value]]

def pageWords (page : ℤ × Bytes) : List Bytes := [ascii "error_page", decimalInt page.1, page.2]

def serverDirectives (srv : ServerConfig) : List (List Bytes) :=
  (if srv.hasListen then [[ascii "listen", srv.host ++ ascii ":" ++ decimalInt srv.port]] else []) ++
    (if srv.serverNames = [] then [] else [ascii "server_name" :: srv.serverNames]) ++
    srv.errorPages.toList.map pageWords ++ [[ascii "client_max_body_size", decimal srv.clientMaxBodySize]]

def routeDirectives (route : RouteConfig) : List (List Bytes) :=
  optional (ascii "root") route.root ++ [[ascii "index", route.index]] ++
    [[ascii "autoindex", if route.autoindex then ascii "on" else ascii "off"]] ++
    (if route.allowedMethods = [] then [] else [ascii "allow_methods" :: route.allowedMethods]) ++
    (if route.redirectUrl = [] then []
      else [[ascii "return", decimalInt route.redirectCode, route.redirectUrl]]) ++
    optional (ascii "upload_store") route.uploadStore ++ optional (ascii "cgi_extension") route.cgiExtension ++
    optional (ascii "cgi_path") route.cgiPath ++
    (if route.hasClientMaxBodySize then [[ascii "client_max_body_size", decimal route.clientMaxBodySize]] else [])

def renderLocation (route : RouteConfig) : List Bytes :=
  renderLine [ascii "location", route.path] :: openBrace :: ((routeDirectives route).map renderLine ++ [closeBrace])

def renderServer (srv : ServerConfig) : List Bytes :=
  ascii "server" :: openBrace :: ((serverDirectives srv).map renderLine ++ srv.routes.flatMap renderLocation ++
    [closeBrace])

/-- A file from which the servers are read. -/
def render (servers : List ServerConfig) : Bytes := renderFile (servers.flatMap renderServer)

/-! ## What can be written -/

def IntRange (z : ℤ) : Prop := -2 ^ 31 ≤ z ∧ z < 2 ^ 31

/-- The fields of a route are defaults or values that a directive can have. -/
structure WritableRoute (route : RouteConfig) : Prop where
  path : IsWord route.path
  root : Plain route.root
  index : IsWord route.index
  allowedMethods : ∀ method ∈ route.allowedMethods, IsWord method
  redirectUrl : Plain route.redirectUrl
  redirectCode : if route.redirectUrl = [] then route.redirectCode = 0 else IntRange route.redirectCode
  uploadStore : Plain route.uploadStore
  cgiExtension : Plain route.cgiExtension
  cgiPath : Plain route.cgiPath
  bodySize : if route.hasClientMaxBodySize then route.clientMaxBodySize < 2 ^ 64 else route.clientMaxBodySize = 0

/-- The same for the fields that a server has of its own. -/
structure WritableServer (srv : ServerConfig) : Prop where
  listen : if srv.hasListen then Plain srv.host ∧ 58 ∉ srv.host ∧ IntRange srv.port
    else srv.host = ascii "0.0.0.0" ∧ srv.port = 8080
  serverNames : ∀ name ∈ srv.serverNames, IsWord name
  errorPages : ∀ code path, srv.errorPages[code]? = some path → IntRange code ∧ IsWord path
  bodySize : srv.clientMaxBodySize < 2 ^ 64

structure Writable (srv : ServerConfig) : Prop where
  server : WritableServer srv
  routes : ∀ route ∈ srv.routes, WritableRoute route

/-! ### The words of directives -/

/-- Words that a line can be made of. -/
def IsDirective (words : List Bytes) : Prop := words ≠ [] ∧ ∀ w ∈ words, IsWord w

def keys : List Bytes := [ascii "listen", ascii "server_name", ascii "error_page", ascii "client_max_body_size",
  ascii "location", ascii "root", ascii "index", ascii "autoindex", ascii "on", ascii "off", ascii "allow_methods",
  ascii "return", ascii "upload_store", ascii "cgi_extension", ascii "cgi_path", ascii "server"]

theorem isWord_keys : ∀ key ∈ keys, IsWord key := by
  have hkeys : ∀ key ∈ keys, key ≠ [] ∧ ∀ b ∈ key, isSpace b = false ∧ b ≠ 35 := by decide +kernel
  intro key hkey
  exact ⟨(hkeys key hkey).1, (hkeys key hkey).2⟩

theorem isDirective_cons {key : Bytes} {words : List Bytes} (hkey : key ∈ keys) (h : ∀ w ∈ words, IsWord w) :
    IsDirective (key :: words) := by
  refine ⟨by simp, ?_⟩
  intro w hw
  rcases List.mem_cons.mp hw with rfl | hw
  · exact isWord_keys _ hkey
  · exact h w hw

theorem optional_isDirective {key value : Bytes} (hkey : key ∈ keys) (h : Plain value) :
    ∀ words ∈ optional key value, IsDirective words := by
  unfold optional
  split
  · simp
  · next hne =>
    intro words hwords
    obtain rfl := List.mem_singleton.mp hwords
    exact isDirective_cons hkey (by simpa using ⟨hne, h⟩)

theorem serverDirectives_isDirective {srv : ServerConfig} (h : WritableServer srv) :
    ∀ words ∈ serverDirectives srv, IsDirective words := by
  have hlisten := h.listen
  intro words hwords
  simp only [serverDirectives, List.append_assoc, List.mem_append] at hwords
  rcases hwords with hwords | hwords | hwords | hwords
  · split at hwords
    · next hl =>
      rw [if_pos hl] at hlisten
      have hcolon : Plain (ascii ":") := by
        unfold Plain
        decide +kernel
      have hport := isWord_decimalInt srv.port
      obtain rfl := List.mem_singleton.mp hwords
      refine isDirective_cons (by decide +kernel) ?_
      simp only [List.mem_singleton, forall_eq]
      exact ⟨by simp [hport.nonempty], hlisten.1.append (hcolon.append hport.plain)⟩
    · cases hwords
  · split at hwords
    · cases hwords
    · obtain rfl := List.mem_singleton.mp hwords
      exact isDirective_cons (by decide +kernel) h.serverNames
  · obtain ⟨⟨code, path⟩, hpage, rfl⟩ := List.mem_map.mp hwords
    have hpath := (h.errorPages code path (Std.ExtTreeMap.mem_toList_iff_getElem?_eq_some.mp hpage)).2
    refine isDirective_cons (by decide +kernel) ?_
    simpa using ⟨isWord_decimalInt code, hpath⟩
  · obtain rfl := List.mem_singleton.mp hwords
    refine isDirective_cons (by decide +kernel) ?_
    simpa using isWord_decimal srv.clientMaxBodySize

theorem routeDirectives_isDirective {route : RouteConfig} (h : WritableRoute route) :
    ∀ words ∈ routeDirectives route, IsDirective words := by
  intro words hwords
  simp only [routeDirectives, List.append_assoc, List.mem_append] at hwords
  rcases hwords with hwords | hwords | hwords | hwords | hwords | hwords | hwords | hwords | hwords
  · exact optional_isDirective (by decide +kernel) h.root words hwords
  · obtain rfl := List.mem_singleton.mp hwords
    exact isDirective_cons (by decide +kernel) (by simpa using h.index)
  · obtain rfl := List.mem_singleton.mp hwords
    refine isDirective_cons (by decide +kernel) ?_
    simp only [List.mem_singleton, forall_eq]
    split
    · exact isWord_keys _ (by decide +kernel)
    · exact isWord_keys _ (by decide +kernel)
  · split at hwords
    · cases hwords
    · obtain rfl := List.mem_singleton.mp hwords
      exact isDirective_cons (by decide +kernel) h.allowedMethods
  · split at hwords
    · cases hwords
    · next hne =>
      obtain rfl := List.mem_singleton.mp hwords
      refine isDirective_cons (by decide +kernel) ?_
      simpa using ⟨isWord_decimalInt route.redirectCode, hne, h.redirectUrl⟩
  · exact optional_isDirective (by decide +kernel) h.uploadStore words hwords
  · exact optional_isDirective (by decide +kernel) h.cgiExtension words hwords
  · exact optional_isDirective (by decide +kernel) h.cgiPath words hwords
  · split at hwords
    · obtain rfl := List.mem_singleton.mp hwords
      refine isDirective_cons (by decide +kernel) ?_
      simpa using isWord_decimal route.clientMaxBodySize
    · cases hwords

/-! ## What is written is read back -/

theorem applyDirectives_map {directives : List (List Bytes)} (h : ∀ words ∈ directives, IsDirective words)
    (srv : ServerConfig) : applyDirectives srv (directives.map renderLine) = directives.foldlM parseDirective srv := by
  induction directives generalizing srv with
  | nil => rfl
  | cons words directives ih =>
    have hfirst := h words (List.mem_cons_self ..)
    have hrest := ih fun other hother => h other (List.mem_cons_of_mem words hother)
    change (parseDirective srv (tokenize (renderLine words)) >>= fun next => applyDirectives next (directives.map renderLine)) = _
    rw [tokenize_renderLine hfirst.1 hfirst.2, List.foldlM_cons]
    exact bind_congr hrest

theorem applyRouteDirectives_map {directives : List (List Bytes)} (h : ∀ words ∈ directives, IsDirective words)
    (route : RouteConfig) :
    applyRouteDirectives route (directives.map renderLine) = directives.foldlM parseRouteDirective route := by
  induction directives generalizing route with
  | nil => rfl
  | cons words directives ih =>
    have hfirst := h words (List.mem_cons_self ..)
    have hrest := ih fun other hother => h other (List.mem_cons_of_mem words hother)
    change (parseRouteDirective route (tokenize (renderLine words)) >>= fun next => applyRouteDirectives next (directives.map renderLine)) = _
    rw [tokenize_renderLine hfirst.1 hfirst.2, List.foldlM_cons]
    exact bind_congr hrest

/-! ### One directive of a server -/

theorem parseDirective_listen {srv : ServerConfig} {host : Bytes} {port : ℤ} (hfirst : srv.hasListen = false)
    (hhost : 58 ∉ host) (hport : IntRange port) :
    parseDirective srv [ascii "listen", host ++ ascii ":" ++ decimalInt port] =
      .ok { srv with host, port, hasListen := true } := by
  have hcolon : ascii ":" = [58] := by decide
  have hfind : find (ascii ":") (host ++ ascii ":" ++ decimalInt port) = some host.length := by
    rw [hcolon, List.append_assoc, List.singleton_append]
    exact find_singleton_append _ hhost
  have hread : parseListen (host ++ ascii ":" ++ decimalInt port) { srv with hasListen := true } =
      .ok { srv with host, port, hasListen := true } := by
    unfold parseListen parsePort
    rw [hfind]
    dsimp only
    have hdrop : (host ++ ascii ":" ++ decimalInt port).drop (host.length + 1) = decimalInt port := by
      rw [hcolon]
      simp
    have htake : (host ++ ascii ":" ++ decimalInt port).take host.length = host := by simp
    rw [hdrop, htake, readInt_decimalInt hport]
  change (if srv.hasListen then _ else _) = _
  rw [hfirst]
  exact hread

theorem parseDirective_serverName (srv : ServerConfig) {names : List Bytes} (h : names ≠ []) :
    parseDirective srv (ascii "server_name" :: names) = .ok { srv with serverNames := srv.serverNames ++ names } := by
  obtain ⟨name, names, rfl⟩ := List.exists_cons_of_ne_nil h
  rfl

theorem parseDirective_errorPage (srv : ServerConfig) {page : ℤ × Bytes} (h : IntRange page.1) :
    parseDirective srv (pageWords page) = .ok { srv with errorPages := srv.errorPages.insert page.1 page.2 } := by
  have hread := readInt_decimalInt h
  change parseErrorPage srv [ascii "error_page", decimalInt page.1, page.2] = _
  simp [parseErrorPage, word, hread, ok_bind]

theorem parseDirective_errorPages {pages : List (ℤ × Bytes)} (h : ∀ page ∈ pages, IntRange page.1)
    (srv : ServerConfig) : (pages.map pageWords).foldlM parseDirective srv =
      .ok { srv with errorPages := FieldMap.storeAll pages srv.errorPages } := by
  induction pages generalizing srv with
  | nil => rfl
  | cons page pages ih =>
    rw [List.map_cons, List.foldlM_cons, parseDirective_errorPage srv (h page (List.mem_cons_self ..)), ok_bind,
      ih fun other hother => h other (List.mem_cons_of_mem page hother)]
    rfl

theorem parseDirective_bodySize (srv : ServerConfig) {size : ℕ} (h : size < 2 ^ 64) :
    parseDirective srv [ascii "client_max_body_size", decimal size] = .ok { srv with clientMaxBodySize := size } := by
  change (parseSize (decimal size) >>= fun size => .ok { srv with clientMaxBodySize := size }) = _
  rw [parseSize_decimal h, ok_bind]

theorem storeAll_toList (m : Std.ExtTreeMap ℤ Bytes) : FieldMap.storeAll m.toList ∅ = m := by
  apply Std.ExtTreeMap.ext_getElem?
  intro code
  rw [FieldMap.getElem?_storeAll, Std.ExtTreeMap.getElem?_empty, Option.or_none]
  cases hpage : m[code]? with
  | none =>
    by_contra hne
    obtain ⟨path, hlast⟩ := Option.ne_none_iff_exists'.mp hne
    have hmem := Std.ExtTreeMap.mem_toList_iff_getElem?_eq_some.mp (FieldMap.mem_of_lastOf hlast)
    rw [hpage] at hmem
    cases hmem
  | some path =>
    obtain ⟨last, hlast⟩ := FieldMap.lastOf_isSome (Std.ExtTreeMap.mem_toList_iff_getElem?_eq_some.mpr hpage)
    have hmem := Std.ExtTreeMap.mem_toList_iff_getElem?_eq_some.mp (FieldMap.mem_of_lastOf hlast)
    rw [hpage] at hmem
    rw [hlast, hmem]

/-! ### One directive of a route -/

theorem parseRouteDirective_autoindex (route : RouteConfig) (autoindex : Bool) :
    parseRouteDirective route [ascii "autoindex", if autoindex then ascii "on" else ascii "off"] =
      .ok { route with autoindex } := by
  cases autoindex <;> rfl

theorem parseRouteDirective_methods (route : RouteConfig) {methods : List Bytes} (h : methods ≠ []) :
    parseRouteDirective route (ascii "allow_methods" :: methods) = .ok { route with allowedMethods := methods } := by
  obtain ⟨method, methods, rfl⟩ := List.exists_cons_of_ne_nil h
  rfl

theorem parseRouteDirective_return (route : RouteConfig) {code : ℤ} (url : Bytes) (h : IntRange code) :
    parseRouteDirective route [ascii "return", decimalInt code, url] =
      .ok { route with redirectCode := code, redirectUrl := url } := by
  have hread := readInt_decimalInt h
  change parseReturn route [ascii "return", decimalInt code, url] = _
  simp [parseReturn, word, hread, ok_bind]

theorem parseRouteDirective_bodySize (route : RouteConfig) {size : ℕ} (h : size < 2 ^ 64) :
    parseRouteDirective route [ascii "client_max_body_size", decimal size] =
      .ok { route with clientMaxBodySize := size, hasClientMaxBodySize := true } := by
  change (parseSize (decimal size) >>= fun size =>
    .ok { route with clientMaxBodySize := size, hasClientMaxBodySize := true }) = _
  rw [parseSize_decimal h, ok_bind]

/-! ### All of them -/

section
variable {α : Type} {f : α → List Bytes → Parsed α}

theorem foldlM_append_ok {l l' : List (List Bytes)} {a b c : α} (h : l.foldlM f a = .ok b) (h' : l'.foldlM f b = .ok c) :
    (l ++ l').foldlM f a = .ok c := by
  rw [List.foldlM_append, h, ok_bind, h']

theorem foldlM_singleton_ok {words : List Bytes} {a b : α} (h : f a words = .ok b) : [words].foldlM f a = .ok b := by
  rw [List.foldlM_cons, h, ok_bind]
  rfl

/-- A directive that stands when its value is no default. -/
theorem foldlM_ite_ok {p : Prop} [Decidable p] {words : List Bytes} {a b : α} (hdefault : p → b = a)
    (h : ¬ p → f a words = .ok b) : (if p then [] else [words]).foldlM f a = .ok b := by
  by_cases hp : p
  · rw [if_pos hp, hdefault hp]
    rfl
  · rw [if_neg hp]
    exact foldlM_singleton_ok (h hp)

end

/-- The directives of a server set what they were written from. -/
theorem foldlM_serverDirectives {srv : ServerConfig} (h : WritableServer srv) :
    (serverDirectives srv).foldlM parseDirective {} = .ok { srv with routes := [] } := by
  have hlisten : (if srv.hasListen then [[ascii "listen", srv.host ++ ascii ":" ++ decimalInt srv.port]]
      else []).foldlM parseDirective {} =
        .ok ({ host := srv.host, port := srv.port, hasListen := srv.hasListen } : ServerConfig) := by
    have hfields := h.listen
    cases hl : srv.hasListen with
    | false =>
      rw [hl, if_neg (by simp)] at hfields
      rw [if_neg (by simp), hfields.1, hfields.2]
      rfl
    | true =>
      rw [hl, if_pos rfl] at hfields
      rw [if_pos rfl]
      exact foldlM_singleton_ok (parseDirective_listen rfl hfields.2.1 hfields.2.2)
  have hpages : ∀ page ∈ srv.errorPages.toList, IntRange page.1 := by
    intro page hpage
    exact (h.errorPages page.1 page.2 (Std.ExtTreeMap.mem_toList_iff_getElem?_eq_some.mp hpage)).1
  have hnames (s : ServerConfig) (hempty : s.serverNames = []) :
      (if srv.serverNames = [] then [] else [ascii "server_name" :: srv.serverNames]).foldlM parseDirective s =
        .ok { s with serverNames := srv.serverNames } := by
    refine foldlM_ite_ok (fun hnone => by rw [hnone, ← hempty]) fun hsome => ?_
    rw [parseDirective_serverName s hsome, hempty, List.nil_append]
  have hall := foldlM_append_ok (foldlM_append_ok (foldlM_append_ok hlisten (hnames _ rfl))
    (parseDirective_errorPages hpages _)) (foldlM_singleton_ok (parseDirective_bodySize _ h.bodySize))
  rw [serverDirectives, hall, storeAll_toList]

/-- And the directives of a route. -/
theorem foldlM_routeDirectives {route : RouteConfig} (h : WritableRoute route) :
    (routeDirectives route).foldlM parseRouteDirective { path := route.path } = .ok route := by
  have hcode := h.redirectCode
  have hroot : (optional (ascii "root") route.root).foldlM parseRouteDirective { path := route.path } =
      .ok { path := route.path, root := route.root } :=
    foldlM_ite_ok (fun hnone => by rw [hnone]) fun _ => rfl
  have hmethods (r : RouteConfig) (hempty : r.allowedMethods = []) :
      (if route.allowedMethods = [] then [] else [ascii "allow_methods" :: route.allowedMethods]).foldlM
        parseRouteDirective r = .ok { r with allowedMethods := route.allowedMethods } :=
    foldlM_ite_ok (fun hnone => by rw [hnone, ← hempty]) (parseRouteDirective_methods r)
  have hreturn (r : RouteConfig) (hempty : r.redirectUrl = [] ∧ r.redirectCode = 0) :
      (if route.redirectUrl = [] then []
        else [[ascii "return", decimalInt route.redirectCode, route.redirectUrl]]).foldlM parseRouteDirective r =
          .ok { r with redirectUrl := route.redirectUrl, redirectCode := route.redirectCode } := by
    apply foldlM_ite_ok
    · intro hnone
      rw [if_pos hnone] at hcode
      rw [hnone, hcode, ← hempty.1, ← hempty.2]
    · intro hsome
      rw [if_neg hsome] at hcode
      exact parseRouteDirective_return r route.redirectUrl hcode
  have hupload (r : RouteConfig) (hempty : r.uploadStore = []) :
      (optional (ascii "upload_store") route.uploadStore).foldlM parseRouteDirective r =
        .ok { r with uploadStore := route.uploadStore } :=
    foldlM_ite_ok (fun hnone => by rw [hnone, ← hempty]) fun _ => rfl
  have hextension (r : RouteConfig) (hempty : r.cgiExtension = []) :
      (optional (ascii "cgi_extension") route.cgiExtension).foldlM parseRouteDirective r =
        .ok { r with cgiExtension := route.cgiExtension } :=
    foldlM_ite_ok (fun hnone => by rw [hnone, ← hempty]) fun _ => rfl
  have hpath (r : RouteConfig) (hempty : r.cgiPath = []) :
      (optional (ascii "cgi_path") route.cgiPath).foldlM parseRouteDirective r =
        .ok { r with cgiPath := route.cgiPath } :=
    foldlM_ite_ok (fun hnone => by rw [hnone, ← hempty]) fun _ => rfl
  have hsize (r : RouteConfig) (hempty : r.clientMaxBodySize = 0 ∧ r.hasClientMaxBodySize = false) :
      (if route.hasClientMaxBodySize then [[ascii "client_max_body_size", decimal route.clientMaxBodySize]]
        else []).foldlM parseRouteDirective r = .ok { r with
          clientMaxBodySize := route.clientMaxBodySize, hasClientMaxBodySize := route.hasClientMaxBodySize } := by
    have hfield := h.bodySize
    cases hset : route.hasClientMaxBodySize with
    | false =>
      rw [hset, if_neg (by simp)] at hfield
      rw [if_neg (by simp), hfield, ← hempty.1, ← hempty.2]
      rfl
    | true =>
      rw [hset, if_pos rfl] at hfield
      rw [if_pos rfl]
      exact foldlM_singleton_ok (parseRouteDirective_bodySize r hfield)
  exact foldlM_append_ok (foldlM_append_ok (foldlM_append_ok (foldlM_append_ok (foldlM_append_ok (foldlM_append_ok
    (foldlM_append_ok (foldlM_append_ok hroot (foldlM_singleton_ok rfl))
      (foldlM_singleton_ok (parseRouteDirective_autoindex _ _)))
    (hmethods _ rfl)) (hreturn _ ⟨rfl, rfl⟩)) (hupload _ rfl)) (hextension _ rfl)) (hpath _ rfl)) (hsize _ ⟨rfl, rfl⟩)

/-! ## The file that is written -/

theorem renderLine_ne_closeBrace (words : List Bytes) : renderLine words ≠ closeBrace := by
  intro hsame
  have hlast := getLast?_renderLine words
  rw [hsame] at hlast
  cases hlast

/-- The location that is written for a route. -/
def locationOf (route : RouteConfig) (h : WritableRoute route) : Location where
  line := renderLine [ascii "location", route.path]
  path := route.path
  directives := (routeDirectives route).map renderLine
  opens := by
    have hwords : IsDirective [ascii "location", route.path] :=
      isDirective_cons (by decide +kernel) (by simpa using h.path)
    exact tokenize_renderLine hwords.1 hwords.2
  inside := by
    intro hmem
    obtain ⟨words, hwords, hsame⟩ := List.mem_map.mp hmem
    exact renderLine_ne_closeBrace words hsame

theorem locationOf_means {route : RouteConfig} (h : WritableRoute route) : (locationOf route h).Means route where
  fields := (applyRouteDirectives_map (routeDirectives_isDirective h) _).trans (foldlM_routeDirectives h)
  path := rfl

theorem exists_locations {routes : List RouteConfig} (h : ∀ route ∈ routes, WritableRoute route) :
    ∃ items : List Item, items.flatMap Item.lines = routes.flatMap renderLocation ∧
      items.filterMap Item.directiveLine = [] ∧
      List.Forall₂ Location.Means (items.filterMap Item.locationBlock) routes := by
  induction routes with
  | nil => exact ⟨[], rfl, rfl, .nil⟩
  | cons route routes ih =>
    have hroute := h route (List.mem_cons_self ..)
    obtain ⟨items, hlines, hdirectives, hmeans⟩ := ih fun other hother => h other (List.mem_cons_of_mem route hother)
    refine ⟨.location (locationOf route hroute) :: items, ?_, hdirectives, .cons (locationOf_means hroute) hmeans⟩
    rw [List.flatMap_cons, List.flatMap_cons, hlines]
    rfl

theorem exists_directives {directives : List (List Bytes)} (h : ∀ words ∈ directives, IsDirective words)
    (hkey : ∀ words ∈ directives, words.head? ≠ some (ascii "location")) :
    ∃ items : List Item, items.flatMap Item.lines = directives.map renderLine ∧
      items.filterMap Item.directiveLine = directives.map renderLine ∧ items.filterMap Item.locationBlock = [] := by
  induction directives with
  | nil => exact ⟨[], rfl, rfl, rfl⟩
  | cons words directives ih =>
    have hfirst := h words (List.mem_cons_self ..)
    have hother : (tokenize (renderLine words)).head? ≠ some (ascii "location") := by
      rw [tokenize_renderLine hfirst.1 hfirst.2]
      exact hkey words (List.mem_cons_self ..)
    obtain ⟨items, hlines, hdirectives, hlocations⟩ := ih (fun other hmem => h other (List.mem_cons_of_mem words hmem))
      fun other hmem => hkey other (List.mem_cons_of_mem words hmem)
    refine ⟨.directive (renderLine words) (renderLine_ne_closeBrace words) hother :: items, ?_, ?_, hlocations⟩
    · rw [List.flatMap_cons, hlines]
      rfl
    · rw [List.map_cons, ← hdirectives]
      rfl

theorem serverDirectives_key (srv : ServerConfig) :
    ∀ words ∈ serverDirectives srv, words.head? ≠ some (ascii "location") := by
  have hother : ascii "listen" ≠ ascii "location" ∧ ascii "server_name" ≠ ascii "location" ∧
      ascii "error_page" ≠ ascii "location" ∧ ascii "client_max_body_size" ≠ ascii "location" := by decide +kernel
  intro words hwords
  simp only [serverDirectives, List.append_assoc, List.mem_append] at hwords
  rcases hwords with hwords | hwords | hwords | hwords
  · split at hwords
    · obtain rfl := List.mem_singleton.mp hwords
      simpa using hother.1
    · cases hwords
  · split at hwords
    · cases hwords
    · obtain rfl := List.mem_singleton.mp hwords
      simpa using hother.2.1
  · obtain ⟨page, -, rfl⟩ := List.mem_map.mp hwords
    simpa [pageWords] using hother.2.2.1
  · obtain rfl := List.mem_singleton.mp hwords
    simpa using hother.2.2.2

/-- What is written for a server is a block that means it. -/
theorem exists_block {srv : ServerConfig} (h : Writable srv) : ∃ b : Block, b.lines = renderServer srv ∧ b.Means srv := by
  obtain ⟨front, hfront, hset, hnone⟩ :=
    exists_directives (serverDirectives_isDirective h.server) (serverDirectives_key srv)
  obtain ⟨back, hback, hunset, hmeans⟩ := exists_locations h.routes
  refine ⟨⟨ascii "server", front ++ back, by decide +kernel⟩, ?_, ?_, ?_⟩
  · simp [Block.lines, renderServer, hfront, hback]
  · rw [Block.directives, List.filterMap_append, hset, hunset, List.append_nil,
      applyDirectives_map (serverDirectives_isDirective h.server)]
    exact foldlM_serverDirectives h.server
  · rw [Block.locations, List.filterMap_append, hnone, List.nil_append]
    exact hmeans

theorem plainLine_fixed : PlainLine (ascii "server") ∧ PlainLine openBrace ∧ PlainLine closeBrace := by
  refine ⟨⟨?_, ?_, ?_⟩, ⟨?_, ?_, ?_⟩, ⟨?_, ?_, ?_⟩⟩ <;> decide +kernel

theorem plainLine_renderServer {srv : ServerConfig} (h : Writable srv) : ∀ line ∈ renderServer srv, PlainLine line := by
  obtain ⟨hserver, hopen, hclose⟩ := plainLine_fixed
  have hdirectives {directives : List (List Bytes)} (hall : ∀ words ∈ directives, IsDirective words) :
      ∀ line ∈ directives.map renderLine, PlainLine line := by
    intro line hline
    obtain ⟨words, hwords, rfl⟩ := List.mem_map.mp hline
    exact plainLine_renderLine (hall words hwords).1 (hall words hwords).2
  have hlocation : ∀ route ∈ srv.routes, ∀ line ∈ renderLocation route, PlainLine line := by
    intro route hroute line hline
    have hwritable := h.routes route hroute
    have hwords : IsDirective [ascii "location", route.path] :=
      isDirective_cons (by decide +kernel) (by simpa using hwritable.path)
    simp only [renderLocation, List.mem_cons, List.mem_append, List.not_mem_nil, or_false] at hline
    rcases hline with rfl | rfl | hline | rfl
    · exact plainLine_renderLine hwords.1 hwords.2
    · exact hopen
    · exact hdirectives (routeDirectives_isDirective hwritable) line hline
    · exact hclose
  intro line hline
  simp only [renderServer, List.mem_cons, List.mem_append, List.mem_flatMap, List.not_mem_nil, or_false] at hline
  rcases hline with rfl | rfl | (hline | ⟨route, hroute, hline⟩) | rfl
  · exact hserver
  · exact hopen
  · exact hdirectives (serverDirectives_isDirective h.server) line hline
  · exact hlocation route hroute line hline
  · exact hclose

/-- Valid servers are read from the file that is written for them. -/
theorem parse_render (filepath : Bytes) {servers : List ServerConfig} (h : ∀ srv ∈ servers, Writable srv)
    (hv : ValidServers servers) : parse filepath (some (render servers)) = .ok servers := by
  have hblocks : ∃ blocks : List Block, servers.flatMap renderServer = blocks.flatMap Block.lines ∧
      List.Forall₂ Block.Means blocks servers := by
    clear hv
    induction servers with
    | nil => exact ⟨[], rfl, .nil⟩
    | cons srv servers ih =>
      obtain ⟨blocks, hlines, hmeans⟩ := ih fun other hother => h other (List.mem_cons_of_mem srv hother)
      obtain ⟨b, hb, hsrv⟩ := exists_block (h srv (List.mem_cons_self ..))
      refine ⟨b :: blocks, ?_, .cons hsrv hmeans⟩
      rw [List.flatMap_cons, List.flatMap_cons, hlines, hb]
  obtain ⟨blocks, hlines, hmeans⟩ := hblocks
  refine parse_of_means ?_ hmeans hv
  rw [render, configLines_renderFile, hlines]
  intro line hline
  obtain ⟨srv, hsrv, hline⟩ := List.mem_flatMap.mp hline
  exact plainLine_renderServer (h srv hsrv) line hline

end WebServ.Configuration
