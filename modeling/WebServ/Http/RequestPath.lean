import WebServ.Http.Handler
import WebServ.Lib.Paths

/-! # Paths of requests

The target of a request is reduced to components that lead nowhere but down before it
is put behind the root of its route; this is what `GET` and `DELETE` look up.
-/
namespace WebServ.HTTPHandler
open Paths

/-- Names of a component that does not go down. -/
abbrev upward : Bytes := ascii ".."
abbrev here : Bytes := ascii "."

/-- A text behind the first slash of a path: nothing, or components that go down. -/
def Descends (rest : Bytes) : Prop := rest = [] ∨ ∀ c ∈ rest.splitOn 47, Proper upward here c

/-- What is left when the last component is read. -/
def sanitizeEnd (s : List Bytes × Bytes) : List Bytes :=
  if s.2 = [] then s.1 else processPathSegment s.1 s.2

theorem sanitizeEnd_eq (kept : List Bytes) (c : Bytes) : sanitizeEnd (kept, c) = follow upward here kept c := by
  unfold sanitizeEnd
  split
  · next hc =>
    change c = [] at hc
    rw [hc, follow_nil (by decide)]
  · next hc =>
    have hself : (c = here ∨ c = []) ↔ c = here := or_iff_left hc
    simp only [processPathSegment, follow, hself]

/-- The loop over the bytes reads the components one after the other; `current` is the part
of a component read so far. -/
theorem sanitize_loop (path : Bytes) (kept : List Bytes) {current : Bytes} (hc : 47 ∉ current) :
    sanitizeEnd (path.foldl sanitizeByte (kept, current)) =
      ((current ++ path).splitOn 47).foldl (follow upward here) kept := by
  induction path generalizing kept current with
  | nil =>
    rw [List.append_nil, List.splitOn_eq_singleton hc]
    exact sanitizeEnd_eq kept current
  | cons b path ih =>
    by_cases hb : b = 47
    · subst hb
      have hbyte : sanitizeByte (kept, current) 47 = (sanitizeEnd (kept, current), []) := by
        unfold sanitizeByte sanitizeEnd
        by_cases hnil : current = [] <;> simp [hnil]
      have hcut : (current ++ 47 :: path).splitOn 47 = current :: path.splitOn 47 := by
        rw [List.splitOn_append_cons_self, List.splitOn_eq_singleton hc, List.singleton_append]
      rw [List.foldl_cons, hbyte, ih _ List.not_mem_nil, hcut, List.foldl_cons, sanitizeEnd_eq, List.nil_append]
    · have hbyte : sanitizeByte (kept, current) b = (kept, current ++ [b]) := if_neg hb
      have hc' : 47 ∉ current ++ [b] := by
        simp only [List.mem_append, List.mem_singleton, not_or]
        exact ⟨hc, Ne.symm hb⟩
      rw [List.foldl_cons, hbyte, ih kept hc', List.append_assoc, List.singleton_append]

/-- The components of a path, read from the left. -/
def components (path : Bytes) : List Bytes := resolve upward here (path.splitOn 47)

theorem sanitizePath_eq (path : Bytes) : sanitizePath path = 47 :: [47].intercalate (components path) := by
  have hloop := sanitize_loop path [] List.not_mem_nil
  rw [List.nil_append] at hloop
  change joinSegments (sanitizeEnd (path.foldl sanitizeByte ([], []))) = _
  rw [hloop]
  rfl

theorem mem_components {path c : Bytes} (h : c ∈ components path) : 47 ∉ c ∧ Proper upward here c := by
  obtain ⟨hmem, hproper⟩ := mem_resolve h
  exact ⟨not_mem_of_mem_splitOn hmem, hproper⟩

theorem descends_components (path : Bytes) : Descends ([47].intercalate (components path)) := by
  by_cases hne : components path = []
  · left
    rw [hne]
    rfl
  · right
    rw [List.splitOn_intercalate 47 (fun c hc => (mem_components hc).1) hne]
    exact fun c hc => (mem_components hc).2

theorem components_sanitizePath (path : Bytes) : components (sanitizePath path) = components path := by
  rw [sanitizePath_eq]
  exact resolve_splitOn_joined (by decide) (fun c hc => mem_components hc)

/-- What GET does with a path that it looks up: a file is served, a directory is replaced by the index
in it, listed or not found. -/
structure GetsAt (request : HTTPRequest) (route : RouteConfig) (path : Bytes) : Prop where
  missing : ∀ fs server, fs.entry path = none →
    handleGet fs request route server = HTTPResponse.error404 fs (getErrorPage 404 server)
  file : ∀ fs server content readable writable, fs.entry path = some (.file content readable writable) →
    handleGet fs request route server = serveFile fs path server
  directory : ∀ fs server names, fs.entry path = some (.directory names) →
    let indexPath := path ++ ascii "/" ++ (if route.index = [] then ascii "index.html" else route.index)
    handleGet fs request route server =
      if (fs.entry indexPath).isSome then serveFile fs indexPath server
      else if route.autoindex then generateAutoindex fs path (stripQueryString request.requestTarget) server
      else HTTPResponse.error404 fs (getErrorPage 404 server)

/-- What DELETE does with what stands behind the root: the root itself and directories are refused, and a file
that may be written is removed where the system allows it. -/
structure DeletesAt (request : HTTPRequest) (route : RouteConfig) (rest : Bytes) : Prop where
  root : rest = [] → ∀ fs server,
    handleDelete fs request route server = (HTTPResponse.error400 fs (getErrorPage 400 server), [])
  missing : rest ≠ [] → ∀ fs server, fs.entry (rootDir route ++ 47 :: rest) = none →
    handleDelete fs request route server = (HTTPResponse.error404 fs (getErrorPage 404 server), [])
  directory : rest ≠ [] → ∀ fs server names, fs.entry (rootDir route ++ 47 :: rest) = some (.directory names) →
    handleDelete fs request route server = (HTTPResponse.error400 fs (getErrorPage 400 server), [])
  file : rest ≠ [] → ∀ fs server content readable writable,
    fs.entry (rootDir route ++ 47 :: rest) = some (.file content readable writable) →
    handleDelete fs request route server =
      if writable then
        if fs.removable (cStr (rootDir route ++ 47 :: rest)) then
          (some (HTTPResponse.success200 (ascii "<html><body><h1>200 OK</h1><p>File deleted: " ++ 47 :: rest ++
            ascii "</p></body></html>") (ascii "text/html")), [.unlink (cStr (rootDir route ++ 47 :: rest))])
        else (HTTPResponse.error500 fs (getErrorPage 500 server), [])
      else (HTTPResponse.error403 fs (getErrorPage 403 server), [])

theorem getsAt_requestPath (request : HTTPRequest) (route : RouteConfig) :
    GetsAt request route (rootDir route ++ requestPath request route) where
  missing fs server h := by simp only [handleGet, h]
  file fs server content readable writable h := by simp only [handleGet, h]
  directory fs server names h := by simp only [handleGet, h]

theorem deletesAt_requestPath {request : HTTPRequest} {route : RouteConfig} {rest : Bytes}
    (hpath : requestPath request route = 47 :: rest) : DeletesAt request route rest := by
  have hslash : ascii "/" = [47] := by decide
  have hroot (h : rest ≠ []) : ¬ 47 :: rest = ascii "/" := by
    rw [hslash, List.cons.injEq]
    exact fun heq => h heq.2
  refine ⟨?_, ?_, ?_, ?_⟩
  · rintro rfl fs server
    simp only [handleDelete, hpath, hslash, if_true]
  · intro h fs server hentry
    simp only [handleDelete, hpath, if_neg (hroot h), hentry]
  · intro h fs server names hentry
    simp only [handleDelete, hpath, if_neg (hroot h), hentry]
  · intro h fs server content readable writable hentry
    have hwritable : fs.isWritable (rootDir route ++ 47 :: rest) = writable := by
      simp [FileSystem.isWritable, hentry]
    simp only [handleDelete, hpath, if_neg (hroot h), hentry, hwritable]

/-- A path is reduced to its components, which do not lead up, and reducing it again changes
nothing. What GET looks up and DELETE looks up and removes lies below the root of the route. -/
theorem sanitizePath_descends (path : Bytes) (request : HTTPRequest) (route : RouteConfig) :
    (∃ rest, sanitizePath path = 47 :: rest ∧ Descends rest) ∧
    sanitizePath path = 47 :: [47].intercalate (resolve upward here (path.splitOn 47)) ∧
    sanitizePath (sanitizePath path) = sanitizePath path ∧
    ∃ rest, Descends rest ∧ GetsAt request route (rootDir route ++ 47 :: rest) ∧ DeletesAt request route rest := by
  refine ⟨⟨_, sanitizePath_eq path, descends_components path⟩, sanitizePath_eq path, ?_, ?_⟩
  · rw [sanitizePath_eq (sanitizePath path), components_sanitizePath, ← sanitizePath_eq]
  · let target := stripRoutePrefix (stripQueryString request.requestTarget) route.path
    have hpath : requestPath request route = 47 :: [47].intercalate (components target) := sanitizePath_eq target
    have hget := getsAt_requestPath request route
    rw [hpath] at hget
    exact ⟨_, descends_components target, hget, deletesAt_requestPath hpath⟩

example : sanitizePath (ascii "/a//./b/../../../c") = ascii "/c" := by decide +kernel

end WebServ.HTTPHandler
