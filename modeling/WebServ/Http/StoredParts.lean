import WebServ.Http.FileAnswers
import WebServ.Http.HeadLines
import WebServ.Http.Uploads

/-! # What is stored of an upload

The content of the first file part lies between the empty line behind its headers and
the next delimiter. The boundary is taken from its first mention in the content type, so
that a parameter with a name that ends in `boundary` hides the one that follows.
-/
namespace WebServ.HTTPHandler
open Search Chunked HTTPResponse

/-! ## Header lines -/

theorem not_crlf_of_line {line : Bytes} (hne : line ≠ []) (hl : IsLine line) (rest : Bytes) :
    ¬ crlf <+: line ++ crlf ++ rest := by
  intro h
  have hfind : find crlf (line ++ crlf ++ rest) = some line.length :=
    find_pair_append (by decide) rest hl
  have hpos : 0 < line.length := List.length_pos_iff.mpr hne
  exact not_prefix_of_lt_find hfind hpos h

/-- The empty line is not found in the first of two header lines. -/
theorem find_headEnd_line {line : Bytes} (hl : IsLine line) (rest : Bytes) (hrest : ¬ crlf <+: rest) :
    find (ascii "\r\n\r\n") (line ++ crlf ++ rest) =
      (find (ascii "\r\n\r\n") rest).map (· + (line ++ crlf).length) := by
  have hend : ascii "\r\n\r\n" = crlf ++ crlf := by decide
  have hfind : find crlf (line ++ crlf ++ rest) = some line.length :=
    find_pair_append (by decide) rest hl
  have hpos : ∀ j < (line ++ crlf).length, ¬ ascii "\r\n\r\n" <+: (line ++ crlf ++ rest).drop j := by
    intro j hj hp
    rw [hend] at hp
    have hcrlf := (List.prefix_append crlf crlf).trans hp
    by_cases hbefore : j < line.length
    · exact not_prefix_of_lt_find hfind hbefore hcrlf
    · have hj' : j = line.length ∨ j = line.length + 1 := by
        simp only [List.length_append, crlf, List.length_cons, List.length_nil] at hj
        omega
      rcases hj' with rfl | rfl
      · rw [List.append_assoc, List.drop_left] at hp
        exact hrest ((List.prefix_append_right_inj crlf).mp hp)
      · rw [List.append_assoc, ← List.drop_drop, List.drop_left] at hcrlf
        have hhead := List.cons_prefix_cons.mp hcrlf
        exact absurd hhead.1 (by decide)
  rw [find_skip (by simp) hpos, List.drop_left]

theorem cutLine_headEnd_line {line rest head tail : Bytes} (hl : IsLine line) (hrest : ¬ crlf <+: rest)
    (h : cutLine (ascii "\r\n\r\n") rest = some (head, tail)) :
    cutLine (ascii "\r\n\r\n") (line ++ crlf ++ rest) = some (line ++ crlf ++ head, tail) := by
  obtain ⟨i, hi, heq⟩ := Option.map_eq_some_iff.mp h
  simp only [Prod.mk.injEq] at heq
  obtain ⟨rfl, rfl⟩ := heq
  rw [cutLine, find_headEnd_line hl rest hrest, hi, Option.map_some, Option.map_some]
  have htake : (line ++ crlf ++ rest).take (i + (line ++ crlf).length) = line ++ crlf ++ rest.take i := by
    rw [Nat.add_comm, List.take_length_add_append]
  have hdrop : (line ++ crlf ++ rest).drop (i + (line ++ crlf).length + (ascii "\r\n\r\n").length) =
      rest.drop (i + (ascii "\r\n\r\n").length) := by
    rw [Nat.add_comm i, Nat.add_assoc, List.drop_length_add_append]
  rw [htake, hdrop]

theorem cutLine_headEnd_last {line : Bytes} (hl : IsLine line) (rest : Bytes) :
    cutLine (ascii "\r\n\r\n") (line ++ crlf ++ (crlf ++ rest)) = some (line, rest) := by
  have hend : ascii "\r\n\r\n" = crlf ++ crlf := by decide
  have htext : line ++ crlf ++ (crlf ++ rest) = line ++ (crlf ++ crlf ++ rest) := by simp
  have hcrlf : find crlf (line ++ crlf ++ (crlf ++ rest)) = some line.length :=
    find_pair_append (by decide) (crlf ++ rest) hl
  have hfind : find (crlf ++ crlf) (line ++ crlf ++ (crlf ++ rest)) = some line.length := by
    apply find_eq_of_prefix
    · rw [htext, List.drop_left]
      exact List.prefix_append _ _
    · simp
    · intro j hj hp
      exact not_prefix_of_lt_find hcrlf hj ((List.prefix_append crlf crlf).trans hp)
  rw [hend, cutLine, hfind, Option.map_some, htext, List.take_left, ← List.drop_drop, List.drop_left,
    List.drop_left]

/-- Behind header lines the empty line is found where it stands. -/
theorem cutLine_headEnd {line : Bytes} {lines : List Bytes} (hl : IsLine line)
    (h : ∀ l ∈ lines, l ≠ [] ∧ IsLine l) (rest : Bytes) :
    ∃ head, cutLine (ascii "\r\n\r\n") (line ++ crlf ++ ((lines.map (· ++ crlf)).flatten ++ (crlf ++ rest))) =
      some (head, rest) := by
  induction lines generalizing line with
  | nil => exact ⟨line, cutLine_headEnd_last hl rest⟩
  | cons next lines ih =>
    obtain ⟨hne, hnext⟩ := h next (List.mem_cons_self ..)
    obtain ⟨head, hcut⟩ := ih hnext (fun l hm => h l (List.mem_cons_of_mem _ hm))
    have hrest : (((next :: lines).map (· ++ crlf)).flatten ++ (crlf ++ rest)) =
        next ++ crlf ++ ((lines.map (· ++ crlf)).flatten ++ (crlf ++ rest)) := by simp
    rw [hrest]
    exact ⟨_, cutLine_headEnd_line hl (not_crlf_of_line hne hnext _) hcut⟩

/-! ## Requests with a file -/

/-- A body with one part, which is a file, and the content type it is sent with. -/
structure FilePart where
  /-- The content type in front of the parameter for the boundary. -/
  mediaType : Bytes
  boundary : Bytes
  above : List Bytes
  /-- The line with the name, around its `filename="` and the name. -/
  front : Bytes
  filename : Bytes
  back : Bytes
  below : List Bytes
  content : Bytes

namespace FilePart

def contentType (p : FilePart) : Bytes := p.mediaType ++ ascii "boundary=" ++ p.boundary

def nameLine (p : FilePart) : Bytes := p.front ++ ascii "filename=\"" ++ (p.filename ++ 34 :: p.back)

def lines (p : FilePart) : List Bytes := p.above ++ p.nameLine :: p.below

def delimiter (p : FilePart) : Bytes := ascii "--" ++ p.boundary

def body (p : FilePart) : Bytes :=
  p.delimiter ++ crlf ++ (p.lines.map (· ++ crlf)).flatten ++ crlf ++ p.content ++ crlf ++ p.delimiter ++
    ascii "--"

/-- What stands in the body in front of the first `filename="`. -/
def opening (p : FilePart) : Bytes := p.delimiter ++ crlf ++ (p.above.map (· ++ crlf)).flatten ++ p.front

/-- As a sender writes it: the boundary is the last parameter, the headers are lines, the
name is quoted and stands in the first `filename="`, and the content holds no delimiter. -/
structure Valid (p : FilePart) : Prop where
  multipart : ∃ others gap, p.mediaType = ascii "multipart/form-data" ++ others ++ ascii ";" ++ gap ∧
    ∀ b ∈ gap, b ∈ blanks
  boundary_ne : p.boundary ≠ []
  boundary_clean : 13 ∉ p.boundary
  lines : ∀ l ∈ p.lines, l ≠ [] ∧ IsLine l
  filename_clean : 34 ∉ p.filename
  first : find (ascii "filename=\"") p.body = some p.opening.length
  content : ¬ crlf ++ p.delimiter <:+: p.content

/-- The body from the closing quote of the name on. -/
def rest (p : FilePart) : Bytes :=
  p.back ++ crlf ++ ((p.below.map (· ++ crlf)).flatten ++ (crlf ++ (p.content ++ (crlf ++ p.delimiter ++ ascii "--"))))

theorem body_eq (p : FilePart) :
    p.body = p.opening ++ ascii "filename=\"" ++ (p.filename ++ 34 :: p.rest) := by
  simp [body, opening, rest, lines, nameLine]

theorem Valid.nameLine_isLine {p : FilePart} (h : p.Valid) : IsLine (34 :: p.back) := by
  have hline := (h.lines p.nameLine (by simp [FilePart.lines])).2
  intro hi
  apply hline
  refine hi.trans ⟨p.front ++ ascii "filename=\"" ++ p.filename, [], ?_⟩
  simp [nameLine]

/-- The head of the part ends where it was written to end. -/
theorem Valid.cutLine_rest {p : FilePart} (h : p.Valid) : ∃ head,
    cutLine (ascii "\r\n\r\n") (34 :: p.rest) =
      some (head, p.content ++ (crlf ++ p.delimiter ++ ascii "--")) := by
  have hbelow : ∀ l ∈ p.below, l ≠ [] ∧ IsLine l := fun l hm => h.lines l (by simp [FilePart.lines, hm])
  obtain ⟨head, hcut⟩ := cutLine_headEnd h.nameLine_isLine hbelow
    (p.content ++ (crlf ++ p.delimiter ++ ascii "--"))
  exact ⟨head, by simpa [rest] using hcut⟩

/-- With the boundary it was sent with the content is cut out exactly. -/
theorem Valid.before_delimiter {p : FilePart} (h : p.Valid) :
    before (ascii "\r\n--" ++ p.boundary) (p.content ++ (crlf ++ p.delimiter ++ ascii "--")) = p.content := by
  have hpattern : ascii "\r\n--" ++ p.boundary = 13 :: ([10, 45, 45] ++ p.boundary) := by
    have hmark : ascii "\r\n--" = [13, 10, 45, 45] := by decide
    rw [hmark]
    rfl
  have hdelimiter : crlf ++ p.delimiter = 13 :: ([10, 45, 45] ++ p.boundary) := by
    have hmark : ascii "--" = [45, 45] := by decide
    rw [delimiter, hmark]
    rfl
  have hcr : (13 : UInt8) ∉ [10, 45, 45] ++ p.boundary := by
    intro hmem
    rcases List.mem_append.mp hmem with hmem | hmem
    · exact absurd hmem (by decide)
    · exact h.boundary_clean hmem
  have hcontent := h.content
  rw [hdelimiter] at hcontent
  rw [hpattern, hdelimiter]
  exact before_append_of_head (ascii "--") hcr hcontent

/-- A longer boundary is not found behind the content. -/
theorem before_longer_ne {p : FilePart} {boundary : Bytes} (h : p.boundary.length + 2 < boundary.length) :
    before (ascii "\r\n--" ++ boundary) (p.content ++ (crlf ++ p.delimiter ++ ascii "--")) ≠ p.content := by
  have hmark : (ascii "\r\n--").length = 4 := by decide
  have hdashes : (ascii "--").length = 2 := by decide
  intro heq
  unfold before at heq
  split at heq
  · next i hi =>
    have hlen := congrArg List.length heq
    have hfits := find_add_length_le hi
    simp only [List.length_take, List.length_append, delimiter, hmark, hdashes, crlf, List.length_cons,
      List.length_nil] at hlen hfits
    omega
  · have hlen := congrArg List.length heq
    simp only [List.length_append, delimiter, hdashes, crlf, List.length_cons, List.length_nil] at hlen
    omega

/-- The first mention of a boundary is the parameter, or stands in front of it. -/
theorem boundary_read (p : FilePart) : ∃ pos, find (ascii "boundary=") p.contentType = some pos ∧
    (¬ ascii "boundary=" <:+: p.mediaType → p.contentType.drop (pos + 9) = p.boundary) ∧
    (ascii "boundary=" <:+: p.mediaType → p.boundary.length + 2 < (p.contentType.drop (pos + 9)).length) := by
  have hnine : (ascii "boundary=").length = 9 := by decide
  by_cases hearly : ascii "boundary=" <:+: p.mediaType
  · obtain ⟨pos, hpos⟩ : ∃ pos, find (ascii "boundary=") p.mediaType = some pos := by
      apply Option.ne_none_iff_exists'.mp
      rw [Ne, find_eq_none_iff, not_not]
      exact hearly
    have hle := find_add_length_le hpos
    have hfind : find (ascii "boundary=") p.contentType = some pos := by
      rw [contentType, List.append_assoc]
      exact find_append_of_some _ hpos
    refine ⟨pos, hfind, fun hnot => absurd hearly hnot, fun _ => ?_⟩
    simp only [contentType, List.length_drop, List.length_append]
    omega
  · have hhead : ascii "boundary=" = 98 :: ascii "oundary=" := by decide
    have hfind : find (ascii "boundary=") p.contentType = some p.mediaType.length := by
      rw [contentType, List.append_assoc, hhead]
      rw [hhead] at hearly
      exact find_append_of_head p.boundary (by decide) hearly
    refine ⟨p.mediaType.length, hfind, fun _ => ?_, fun h => absurd h hearly⟩
    rw [contentType, ← hnine, ← List.length_append, List.drop_left]

theorem Valid.contains_multipart {p : FilePart} (h : p.Valid) :
    contains (ascii "multipart/form-data") p.contentType = true := by
  obtain ⟨others, gap, hmedia, -⟩ := h.multipart
  have hfront : ascii "multipart/form-data" <+: p.contentType.drop 0 := by
    rw [List.drop_zero, contentType, hmedia]
    simp only [List.append_assoc]
    exact List.prefix_append _ _
  obtain ⟨i, -, hi⟩ := find_isSome_of_prefix hfront (Nat.zero_le _)
  rw [contains, hi]
  rfl

end FilePart

/-! ## Uploads -/

def uploadPath (route : RouteConfig) (filename : Bytes) : Bytes :=
  cStr (uploadsDir route ++ ascii "/" ++ filename)

/-- The answer says whether the file could be opened, and then its bytes are those of the content. -/
structure StoredExactly (fs : FileSystem) (request : HTTPRequest) (route : RouteConfig) (p : FilePart) :
    Prop where
  answer : (handlePost fs request route).1.statusLine = statusOf 201 (ascii "Created") ↔
    fs.creatable (uploadPath route p.filename) = true
  stored : fs.creatable (uploadPath route p.filename) = true →
    (handlePost fs request route).2 = [.write (uploadPath route p.filename) p.content]

/-- What `handle_post` does with a part, whatever it cut out as the content. -/
theorem handlePost_part (fs : FileSystem) {request : HTTPRequest} (route : RouteConfig) {data : Bytes}
    {p : FilePart} (hv : p.Valid) (htype : request.getHeaderValue (ascii "content-type") = p.contentType)
    (hfile : multipartFile p.contentType request.body = some (p.filename, data)) :
    ((handlePost fs request route).1.statusLine = statusOf 201 (ascii "Created") ↔
      fs.creatable (uploadPath route p.filename) = true) ∧
    (fs.creatable (uploadPath route p.filename) = true →
      (handlePost fs request route).2 = [.write (uploadPath route p.filename) data]) := by
  have hdiffers : statusOf 200 (ascii "OK") ≠ statusOf 201 (ascii "Created") := by decide
  have hreceived : (bodyReceived request.body).statusLine = statusOf 200 (ascii "OK") := rfl
  unfold handlePost uploadPath
  simp only [htype, hv.contains_multipart, if_true, hfile]
  by_cases hopen : fs.creatable (cStr (uploadsDir route ++ ascii "/" ++ p.filename)) = true
  · simp only [hopen, if_true]
    exact ⟨iff_of_true rfl trivial, fun _ => trivial⟩
  · simp only [hopen, Bool.false_eq_true, if_false, hreceived]
    exact ⟨iff_of_false hdiffers id, fun h => h.elim⟩

/-- A file is stored as it was sent exactly when no earlier parameter mentions a boundary. -/
theorem upload_stored_iff (fs : FileSystem) (request : HTTPRequest) (route : RouteConfig) (p : FilePart)
    (hv : p.Valid) (htype : request.getHeaderValue (ascii "content-type") = p.contentType)
    (hbody : request.body = p.body) : StoredExactly fs request route p ↔
      (fs.creatable (uploadPath route p.filename) = true → ¬ ascii "boundary=" <:+: p.mediaType) := by
  obtain ⟨pos, hpos, hlast, hearly⟩ := p.boundary_read
  obtain ⟨head, hcut⟩ := hv.cutLine_rest
  have hfirst := hv.first
  rw [p.body_eq] at hfirst
  have hfile := multipartFile_of_name p.contentType hfirst hv.filename_clean
  simp only [hpos, hcut, Option.bind_some, Option.map_some] at hfile
  rw [← p.body_eq, ← hbody] at hfile
  have hpost := handlePost_part fs route hv htype hfile
  constructor
  · intro h hopen hmention
    have hstored := (hpost.2 hopen).symm.trans (h.stored hopen)
    simp only [List.cons.injEq, FileEffect.write.injEq, true_and, and_true] at hstored
    exact FilePart.before_longer_ne (hearly hmention) hstored
  · intro h
    refine ⟨hpost.1, fun hopen => ?_⟩
    rw [hpost.2 hopen, hlast (h hopen), hv.before_delimiter]

/-- A POST request that carries the part. -/
def FilePart.request (p : FilePart) : HTTPRequest where
  method := ascii "POST"
  headers := Std.ExtTreeMap.empty.insert (ascii "content-type") p.contentType
  body := p.body

theorem FilePart.request_contentType (p : FilePart) :
    p.request.getHeaderValue (ascii "content-type") = p.contentType := by
  have hlower : (ascii "content-type").map toLower = ascii "content-type" := by decide
  rw [HTTPRequest.getHeaderValue, hlower, request]
  simp

/-- A file `a` of five bytes, sent with some parameters in front of the boundary. -/
def helloPart (others : Bytes) : FilePart where
  mediaType := ascii "multipart/form-data" ++ others ++ ascii ";" ++ ascii " "
  boundary := ascii "b"
  above := []
  front := ascii "Content-Disposition: form-data; "
  filename := ascii "a"
  back := []
  below := []
  content := ascii "hello"

theorem helloPart_valid (others : Bytes) : (helloPart others).Valid where
  multipart := ⟨others, ascii " ", rfl, by decide +kernel⟩
  boundary_ne := by
    change ascii "b" ≠ []
    decide
  boundary_clean := by
    change 13 ∉ ascii "b"
    decide
  lines := by
    change ∀ l ∈ (helloPart []).lines, l ≠ [] ∧ IsLine l
    decide +kernel
  filename_clean := by
    change 34 ∉ ascii "a"
    decide
  first := by
    change find (ascii "filename=\"") (helloPart []).body = some (helloPart []).opening.length
    decide +kernel
  content := by
    change ¬ crlf ++ (helloPart []).delimiter <:+: ascii "hello"
    decide +kernel

theorem upload_stored_hello :
    StoredExactly { creatable := fun _ => true } (helloPart []).request {} (helloPart []) :=
  (upload_stored_iff { creatable := fun _ => true } _ {} _ (helloPart_valid [])
    (FilePart.request_contentType _) rfl).mpr (fun _ => by decide +kernel)

/-- A parameter `x-boundary` in front makes the closing delimiter part of the file. -/
theorem early_boundary_stored : (helloPart (ascii "; x-boundary=q")).Valid ∧
    ¬ StoredExactly { creatable := fun _ => true } (helloPart (ascii "; x-boundary=q")).request {}
      (helloPart (ascii "; x-boundary=q")) := by
  refine ⟨helloPart_valid _, fun h => ?_⟩
  have hstored : (handlePost { creatable := fun _ => true } (helloPart (ascii "; x-boundary=q")).request {}).2 =
      [.write (ascii "uploads/a") (ascii "hello")] := h.stored rfl
  exact absurd hstored (by decide +kernel)

end WebServ.HTTPHandler
