import WebServ.Http.Handler
import WebServ.Lib.Paths

/-! # Where uploads are stored

The name of an uploaded file is cut out of the body as it stands, so a name that goes
up leaves the upload directory.
-/
namespace WebServ.HTTPHandler
open Search Paths

def FileEffect.path : FileEffect → Bytes
  | .write path _ => path
  | .append path _ => path
  | .unlink path => path

/-- The first `filename="` of the body is closed by a quote, and an empty line comes behind it. -/
def NamesFile (contentType body filename : Bytes) : Prop :=
  contains (ascii "boundary=") contentType = true ∧ ∃ front rest,
    body = front ++ ascii "filename=\"" ++ (filename ++ 34 :: rest) ∧
      find (ascii "filename=\"") body = some front.length ∧ 34 ∉ filename ∧
      contains (ascii "\r\n\r\n") rest = true

theorem contains_headEnd_cons (rest : Bytes) :
    contains (ascii "\r\n\r\n") (34 :: rest) = contains (ascii "\r\n\r\n") rest := by
  have hfront : ¬ ascii "\r\n\r\n" <+: 34 :: rest := by
    intro h
    have hhead : ascii "\r\n\r\n" = [13, 10, 13, 10] := by decide
    rw [hhead, List.cons_prefix_cons] at h
    exact absurd h.1 (by decide)
  rw [contains, contains, find, if_neg hfront, Option.isSome_map]

/-- Where the name stands first, the content is what follows the head of the part, up to the
boundary as it is read. -/
theorem multipartFile_of_name (contentType : Bytes) {front filename rest : Bytes}
    (hname : find (ascii "filename=\"") (front ++ ascii "filename=\"" ++ (filename ++ 34 :: rest)) =
      some front.length) (hquote : 34 ∉ filename) :
    multipartFile contentType (front ++ ascii "filename=\"" ++ (filename ++ 34 :: rest)) =
      (find (ascii "boundary=") contentType).bind (fun pos => (cutLine (ascii "\r\n\r\n") (34 :: rest)).map
        (fun cut => (filename, before (ascii "\r\n--" ++ contentType.drop (pos + 9)) cut.2))) := by
  have hten : (ascii "filename=\"").length = 10 := by decide
  have hfour : (ascii "\r\n\r\n").length = 4 := by decide
  have hquoted : ascii "\"" = [34] := by decide
  generalize hbody : front ++ ascii "filename=\"" ++ (filename ++ 34 :: rest) = body at hname
  have hstart : body.drop (front.length + 10) = filename ++ 34 :: rest := by
    rw [← hbody, ← hten, ← List.length_append, List.drop_left]
  have hend : findFrom (ascii "\"") body (front.length + 10) =
      some (filename.length + (front.length + 10)) := by
    rw [findFrom, hstart, hquoted, find_singleton_append _ hquote, Option.map_some]
  have hbehind : body.drop (filename.length + (front.length + 10)) = 34 :: rest := by
    rw [Nat.add_comm, ← List.drop_drop, hstart, List.drop_left]
  have hname' : (body.drop (front.length + 10)).take
      (filename.length + (front.length + 10) - (front.length + 10)) = filename := by
    rw [hstart, Nat.add_sub_cancel, List.take_left]
  unfold multipartFile
  rw [hname]
  cases find (ascii "boundary=") contentType with
  | none => rfl
  | some pos =>
    dsimp only
    rw [hend]
    dsimp only
    rw [findFrom, hbehind, cutLine]
    cases find (ascii "\r\n\r\n") (34 :: rest) with
    | none => rfl
    | some k =>
      have hdata : body.drop (k + (filename.length + (front.length + 10)) + 4) = (34 :: rest).drop (k + 4) := by
        rw [← hbehind, List.drop_drop]
        congr 1
        omega
      simp only [Option.map_some, Option.bind_some, hname', findFrom, hdata, before, hfour]
      -- the content ends at the delimiter, or with the body
      cases find (ascii "\r\n--" ++ contentType.drop (pos + 9)) ((34 :: rest).drop (k + 4)) with
      | none =>
        have hlen : body.length - (k + (filename.length + (front.length + 10)) + 4) =
            ((34 :: rest).drop (k + 4)).length := by
          rw [← hdata, List.length_drop]
        simp only [Option.map_none, Option.getD_none, hlen, List.take_length]
      | some i => simp only [Option.map_some, Option.getD_some, Nat.add_sub_cancel]

theorem multipartFile_names {contentType body filename : Bytes} :
    (∃ data, multipartFile contentType body = some (filename, data)) ↔ NamesFile contentType body filename := by
  constructor
  · rintro ⟨data, h⟩
    cases hname : find (ascii "filename=\"") body with
    | none => simp [multipartFile, hname] at h
    | some pos =>
      obtain ⟨t, ht⟩ := prefix_of_find hname
      have hbody : body = body.take pos ++ ascii "filename=\"" ++ t := by
        rw [List.append_assoc, ht, List.take_append_drop]
      have hlen : (body.take pos).length = pos := by
        rw [List.length_take, Nat.min_eq_left (find_le_length hname)]
      generalize body.take pos = front at hbody hlen
      subst hbody hlen
      by_cases hq : 34 ∈ t
      · obtain ⟨name, rest, rfl, hquote⟩ := List.eq_append_cons_of_mem hq
        rw [multipartFile_of_name contentType hname hquote] at h
        obtain ⟨boundaryPos, hb, h⟩ := Option.bind_eq_some_iff.mp h
        obtain ⟨cut, hcut, hfile⟩ := Option.map_eq_some_iff.mp h
        obtain ⟨rfl, -⟩ := Prod.mk.injEq .. ▸ hfile
        refine ⟨by simp [contains, hb], front, rest, rfl, hname, hquote, ?_⟩
        obtain ⟨headEnd, hd, -⟩ := Option.map_eq_some_iff.mp hcut
        rw [← contains_headEnd_cons, contains, hd]
        rfl
      · have hten : (ascii "filename=\"").length = 10 := by decide
        have hstart : (front ++ ascii "filename=\"" ++ t).drop (front.length + 10) = t := by
          rw [← hten, ← List.length_append, List.drop_left]
        have hend : findFrom (ascii "\"") (front ++ ascii "filename=\"" ++ t) (front.length + 10) = none := by
          have hquote : ascii "\"" = [34] := by decide
          rw [findFrom, hstart, hquote, find_singleton_eq_none hq, Option.map_none]
        unfold multipartFile at h
        rw [hname] at h
        cases hb : find (ascii "boundary=") contentType with
        | none => simp [hb] at h
        | some boundaryPos =>
          rw [hb] at h
          dsimp only at h
          rw [hend] at h
          cases h
  · rintro ⟨hboundary, front, rest, rfl, hname, hquote, hrest⟩
    rw [← contains_headEnd_cons] at hrest
    obtain ⟨pos, hb⟩ := Option.isSome_iff_exists.mp hboundary
    obtain ⟨k, hk⟩ := Option.isSome_iff_exists.mp hrest
    exists before (ascii "\r\n--" ++ contentType.drop (pos + 9))
      ((34 :: rest).drop (k + (ascii "\r\n\r\n").length))
    rw [multipartFile_of_name contentType hname hquote, hb, cutLine, hk]
    rfl

/-! ## The path that is opened -/

theorem cStr_append {dir : Bytes} (h : 0 ∉ dir) (t : Bytes) : cStr (dir ++ t) = dir ++ cStr t := by
  have hall : ∀ b ∈ dir, decide (b ≠ 0) = true := by
    intro b hb
    have hne : b ≠ 0 := fun heq => h (heq ▸ hb)
    simp [hne]
  exact List.takeWhile_append_of_pos hall

/-- A zero byte in the directory cuts the path short of it. -/
theorem cStr_cut {dir : Bytes} (h : 0 ∈ dir) (t : Bytes) : (cStr (dir ++ t)).length < dir.length := by
  obtain ⟨front, rest, rfl, hfront⟩ := List.eq_append_cons_of_mem h
  have hcut : cStr (front ++ 0 :: rest ++ t) = front := by
    rw [List.append_assoc, List.cons_append]
    exact takeWhile_ne_append _ hfront
  rw [hcut, List.length_append, List.length_cons]
  omega

theorem below_cStr_iff (dir name : Bytes) : Below 47 (ascii "..") dir (cStr (dir ++ ascii "/" ++ name)) ↔
    0 ∉ dir ∧ ascii ".." ∉ (cStr name).splitOn 47 := by
  have hslash : ascii "/" = [47] := by decide
  by_cases hz : 0 ∈ dir
  · constructor
    · rintro ⟨components, hpath, -⟩
      have hcut := cStr_cut hz (ascii "/" ++ name)
      rw [← List.append_assoc, hpath, List.length_append] at hcut
      omega
    · intro h
      exact absurd hz h.1
  · have hpath : cStr (dir ++ ascii "/" ++ name) = dir ++ 47 :: cStr name := by
      rw [List.append_assoc, cStr_append hz, hslash]
      simp [cStr]
    rw [hpath, below_append_iff]
    simp [hz]

/-! ## Confinement -/

/-- The upload directory is a path for the system, and no uploaded name goes up, as far as it is read. -/
def StoresBelow (request : HTTPRequest) (route : RouteConfig) : Prop :=
  (contains (ascii "multipart/form-data") (request.getHeaderValue (ascii "content-type")) = true →
    ∀ filename, NamesFile (request.getHeaderValue (ascii "content-type")) request.body filename →
      0 ∉ uploadsDir route ∧ ascii ".." ∉ (cStr filename).splitOn 47) ∧
  (contains (ascii "multipart/form-data") (request.getHeaderValue (ascii "content-type")) = false →
    contains (ascii "application/x-www-form-urlencoded") (request.getHeaderValue (ascii "content-type")) = true →
      0 ∉ uploadsDir route)

theorem handlePost_multipart {fs : FileSystem} {request : HTTPRequest} {route : RouteConfig}
    (h : contains (ascii "multipart/form-data") (request.getHeaderValue (ascii "content-type")) = true)
    (e : FileEffect) : e ∈ (handlePost fs request route).2 ↔ ∃ filename data,
      multipartFile (request.getHeaderValue (ascii "content-type")) request.body = some (filename, data) ∧
        fs.creatable (cStr (uploadsDir route ++ ascii "/" ++ filename)) = true ∧
        e = .write (cStr (uploadsDir route ++ ascii "/" ++ filename)) data := by
  unfold handlePost
  simp only [h, if_true]
  cases hfile : multipartFile (request.getHeaderValue (ascii "content-type")) request.body with
  | none => simp
  | some file =>
    obtain ⟨filename, data⟩ := file
    by_cases hopen : fs.creatable (cStr (uploadsDir route ++ ascii "/" ++ filename)) = true
    · simp only [hopen, if_true, List.mem_singleton]
      constructor
      · rintro rfl
        exact ⟨filename, data, rfl, hopen, rfl⟩
      · rintro ⟨name, content, hsome, -, rfl⟩
        obtain ⟨rfl, rfl⟩ := Prod.mk.inj (Option.some.inj hsome)
        rfl
    · simp only [hopen, Bool.false_eq_true, if_false]
      constructor
      · intro hmem
        cases hmem
      · rintro ⟨name, content, hsome, hcreated, -⟩
        obtain ⟨rfl, rfl⟩ := Prod.mk.inj (Option.some.inj hsome)
        exact absurd hcreated hopen

theorem handlePost_plain {fs : FileSystem} {request : HTTPRequest} {route : RouteConfig}
    (h : contains (ascii "multipart/form-data") (request.getHeaderValue (ascii "content-type")) = false)
    (e : FileEffect) : e ∈ (handlePost fs request route).2 ↔
      contains (ascii "application/x-www-form-urlencoded") (request.getHeaderValue (ascii "content-type")) = true ∧
        fs.creatable (cStr (uploadsDir route ++ ascii "/form_data.txt")) = true ∧
        e = .append (cStr (uploadsDir route ++ ascii "/form_data.txt")) (urlDecode request.body ++ ascii "\n") := by
  unfold handlePost
  simp only [h, Bool.false_eq_true, if_false]
  by_cases hform :
      contains (ascii "application/x-www-form-urlencoded") (request.getHeaderValue (ascii "content-type")) = true
  · by_cases hopen : fs.creatable (cStr (uploadsDir route ++ ascii "/form_data.txt")) = true
    · simp [hform, hopen]
    · simp [hform, hopen]
  · simp [hform]

theorem below_formData_iff (dir : Bytes) :
    Below 47 (ascii "..") dir (cStr (dir ++ ascii "/form_data.txt")) ↔ 0 ∉ dir := by
  have hsplit : dir ++ ascii "/form_data.txt" = dir ++ ascii "/" ++ ascii "form_data.txt" := by
    rw [List.append_assoc]
    exact congrArg (dir ++ ·) (by decide)
  rw [hsplit, below_cStr_iff]
  have hclean : ascii ".." ∉ (cStr (ascii "form_data.txt")).splitOn 47 := by decide
  simp [hclean]

/-- Whatever file can be created, `handle_post` writes below the upload directory, if and only if no name
in the body goes up. -/
theorem handlePost_below_iff (request : HTTPRequest) (route : RouteConfig) :
    (∀ fs, ∀ e ∈ (handlePost fs request route).2, Below 47 (ascii "..") (uploadsDir route) e.path) ↔
      StoresBelow request route := by
  cases hmulti : contains (ascii "multipart/form-data") (request.getHeaderValue (ascii "content-type")) with
  | true =>
    constructor
    · intro h
      refine ⟨fun _ filename hname => ?_, by simp [hmulti]⟩
      obtain ⟨data, hfile⟩ := multipartFile_names.mpr hname
      have hpath := h { creatable := fun _ => true } _
        ((handlePost_multipart hmulti _).mpr ⟨filename, data, hfile, rfl, rfl⟩)
      exact (below_cStr_iff _ _).mp hpath
    · intro h fs e he
      obtain ⟨filename, data, hfile, -, rfl⟩ := (handlePost_multipart hmulti e).mp he
      exact (below_cStr_iff _ _).mpr (h.1 hmulti filename (multipartFile_names.mp ⟨data, hfile⟩))
  | false =>
    constructor
    · intro h
      refine ⟨by simp [hmulti], fun _ hform => ?_⟩
      have hpath := h { creatable := fun _ => true } _ ((handlePost_plain hmulti _).mpr ⟨hform, rfl, rfl⟩)
      exact (below_formData_iff _).mp hpath
    · intro h fs e he
      obtain ⟨hform, -, rfl⟩ := (handlePost_plain hmulti e).mp he
      exact (below_formData_iff _).mpr (h.2 hmulti hform)

/-- A request with one multipart part of this file name. -/
def uploadRequest (filename : Bytes) : HTTPRequest :=
  let body := ascii "--b\r\nContent-Disposition: form-data; filename=\"" ++ filename ++
    ascii "\"\r\n\r\nhello\r\n--b--"
  (({} : HTTPRequest).parse (ascii "POST / HTTP/1.1\r\nContent-Type: multipart/form-data; boundary=b\r\n" ++
    ascii "Content-Length: " ++ decimal body.length ++ ascii "\r\n\r\n" ++ body)).2

/-- The name `../../evil` is written two directories above the upload directory. -/
theorem upload_outside : ∃ e ∈ (handlePost { creatable := fun _ => true } (uploadRequest (ascii "../../evil")) {}).2,
    ¬ Below 47 (ascii "..") (uploadsDir {}) e.path := by
  refine ⟨.write (ascii "uploads/../../evil") (ascii "hello"), by decide +kernel, ?_⟩
  have hpath : (FileEffect.write (ascii "uploads/../../evil") (ascii "hello")).path =
      uploadsDir {} ++ 47 :: ascii "../../evil" := by decide
  rw [hpath, below_append_iff]
  decide

end WebServ.HTTPHandler
