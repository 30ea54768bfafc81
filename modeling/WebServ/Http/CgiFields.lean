import WebServ.Http.CgiResponse
import WebServ.Http.HeadLines
import WebServ.Lib.Paths

/-! # Header fields of scripts

The loop over the header section of a script's output takes one field after the other: a
`Status` field sets the status line, any other one is stored under its name. No field
holds the end of a line.
-/
namespace WebServ.HTTPHandler
open Search HTTPResponse FieldMap

/-- The field that a line holds, if it has a colon. -/
def cgiField (line : Bytes) : Option (Bytes × Bytes) :=
  let line := if line.getLast? = some 13 then line.dropLast else line
  (find (ascii ":") line).map (fun colon => (line.take colon, trimLeading (line.drop (colon + 1))))

/-- The fields of a header section, line by line. -/
def cgiFields (headerSection : Bytes) : List (Bytes × Bytes) := (headerSection.splitOn 10).filterMap cgiField

def takeField (h : CgiHead) (p : Bytes × Bytes) : CgiHead :=
  if p.1 = ascii "Status" then cgiStatus h p.2 else { h with response := h.response.setHeader p.1 p.2 }

theorem cgiHeaderLine_eq (h : CgiHead) (line : Bytes) :
    cgiHeaderLine h line = (cgiField line).elim h (takeField h) := by
  unfold cgiHeaderLine cgiField
  dsimp only
  generalize (if line.getLast? = some 13 then line.dropLast else line) = l
  cases find (ascii ":") l <;> rfl

theorem cgiHeaderLoop_eq (h : CgiHead) (text : Bytes) :
    cgiHeaderLoop h text = (cgiFields text).foldl takeField h := by
  have hline (h : CgiHead) (line : Bytes) (lines : List Bytes) :
      ((line :: lines).filterMap cgiField).foldl takeField h =
        (lines.filterMap cgiField).foldl takeField (cgiHeaderLine h line) := by
    rw [cgiHeaderLine_eq, List.filterMap_cons]
    cases cgiField line <;> rfl
  have hone (h : CgiHead) {line : Bytes} (hl : 10 ∉ line) :
      (cgiFields line).foldl takeField h = cgiHeaderLine h line := by
    rw [cgiFields, List.splitOn_eq_singleton hl, hline]
    rfl
  have heol : ascii "\n" = [10] := by decide
  fun_induction cgiHeaderLoop h text with
  | case1 h => exact (hone h List.not_mem_nil).symm
  | case2 h text hne hcut =>
    refine (hone h ?_).symm
    intro hmem
    obtain ⟨front, back, rfl⟩ := List.append_of_mem hmem
    rw [heol, cutLine_eq_none_iff] at hcut
    exact hcut ⟨front, back, by simp⟩
  | case3 h text hne line rest hcut ih =>
    have hl : 10 ∉ line := by
      intro hmem
      obtain ⟨front, back, rfl⟩ := List.append_of_mem hmem
      refine cutLine_no_eol hcut (by decide) ⟨front, back, ?_⟩
      simp [heol]
    have hsplit : text.splitOn 10 = line :: rest.splitOn 10 := by
      rw [cutLine_eq_some hcut, heol, List.append_assoc, List.singleton_append, List.splitOn_append_cons_self,
        List.splitOn_eq_singleton hl, List.singleton_append]
    rw [ih, cgiFields, cgiFields, hsplit, hline]

/-! ## What is stored -/

theorem foldl_takeField_headers (fields : List (Bytes × Bytes)) (h : CgiHead) :
    (fields.foldl takeField h).response.headers =
      storeAll (fields.filter (fun p => p.1 ≠ ascii "Status")) h.response.headers := by
  induction fields generalizing h with
  | nil => rfl
  | cons p fields ih =>
    rw [List.foldl_cons, ih, List.filter_cons]
    by_cases hp : p.1 = ascii "Status"
    · have hsame : (takeField h p).response.headers = h.response.headers := by
        rw [takeField, if_pos hp, cgiStatus]
        dsimp only
        split <;> rfl
      rw [hsame, if_neg (by simpa using hp)]
    · have hset : (takeField h p).response.headers = h.response.headers.insert p.1 p.2 := by
        rw [takeField, if_neg hp]
        rfl
      rw [hset, if_pos (by simpa using hp)]
      rfl

/-- A header of the response is the last field of its name. -/
theorem parseCgiHeaders_lookup (headerSection key : Bytes) : (parseCgiHeaders headerSection).headers[key]? =
    if key ≠ ascii "Status" then lastOf key (cgiFields headerSection) else none := by
  rw [parseCgiHeaders, cgiHeaderLoop_eq, foldl_takeField_headers, getElem?_storeAll]
  have hnone : (({} : CgiHead).response.headers)[key]? = none := Std.ExtTreeMap.getElem?_empty
  rw [hnone, Option.or_none]
  exact lastOf_filter key (· ≠ ascii "Status") (cgiFields headerSection)

theorem parseCgiHeaders_header (headerSection : Bytes) {key : Bytes} (hk : key ≠ ascii "Status") :
    (parseCgiHeaders headerSection).headers[key]? = lastOf key (cgiFields headerSection) :=
  (parseCgiHeaders_lookup headerSection key).trans (if_pos hk)

theorem parseCgiHeaders_status (headerSection : Bytes) :
    (parseCgiHeaders headerSection).headers[ascii "Status"]? = none :=
  (parseCgiHeaders_lookup headerSection _).trans (if_neg (not_not.mpr rfl))

/-! ## What is printed -/

/-- A field without the end of a line, and a name that ends at the colon. -/
structure CleanField (p : Bytes × Bytes) : Prop where
  colon : 58 ∉ p.1
  name : 10 ∉ p.1
  value : 10 ∉ p.2

theorem trimLeading_subset (value : Bytes) : trimLeading value ⊆ value := by
  unfold trimLeading
  split
  · exact List.drop_subset _ _
  · exact List.nil_subset _

theorem cgiField_clean {line : Bytes} {p : Bytes × Bytes} (hl : 10 ∉ line) (h : cgiField line = some p) :
    CleanField p := by
  unfold cgiField at h
  dsimp only at h
  have hsub : (if line.getLast? = some 13 then line.dropLast else line) ⊆ line := by
    split
    · exact List.dropLast_subset line
    · exact List.Subset.refl line
  generalize (if line.getLast? = some 13 then line.dropLast else line) = l at h hsub
  obtain ⟨colon, hfind, rfl⟩ := Option.map_eq_some_iff.mp h
  have hcolon : ascii ":" = [58] := by decide
  rw [hcolon] at hfind
  obtain ⟨name, rest, hsplit, hnot, rfl⟩ := find_singleton_eq_some hfind
  have hname : l.take name.length = name := by rw [hsplit, List.take_left]
  refine ⟨by rwa [hname], ?_, ?_⟩
  · exact fun hm => hl (hsub (List.mem_of_mem_take hm))
  · exact fun hm => hl (hsub (List.mem_of_mem_drop (trimLeading_subset _ hm)))

theorem clean_of_mem {headerSection : Bytes} {p : Bytes × Bytes} (h : p ∈ cgiFields headerSection) : CleanField p := by
  obtain ⟨line, hline, hp⟩ := List.mem_filterMap.mp h
  exact cgiField_clean (Paths.not_mem_of_mem_splitOn hline) hp

/-- The response of the loop can be printed, and the reason of its next status too. -/
structure PrintableHead (h : CgiHead) : Prop where
  response : h.response.Printable
  reason : 10 ∉ h.statusReason

theorem PrintableHead.take {h : CgiHead} (hh : PrintableHead h) {p : Bytes × Bytes} (hp : CleanField p) :
    PrintableHead (takeField h p) := by
  unfold takeField
  split
  · unfold cgiStatus
    dsimp only
    split
    · next sp hsp =>
      have hreason : 10 ∉ p.2.drop (sp + 1) := fun hm => hp.value (List.mem_of_mem_drop hm)
      exact ⟨hh.response.setStatus _ hreason, hreason⟩
    · exact ⟨hh.response.setStatus _ hh.reason, hh.reason⟩
  · exact ⟨hh.response.setHeader hp.name hp.value, hh.reason⟩

theorem parseCgiHeaders_printable (headerSection : Bytes) : (parseCgiHeaders headerSection).Printable := by
  have hstart : PrintableHead {} := by
    have hempty : Printable {
        statusLine := ascii "HTTP/1.1 " ++ decimalInt 200 ++ ascii " " ++ ascii "OK" } := by
      refine ⟨by decide, ?_⟩
      intro key value hv
      rw [Std.ExtTreeMap.getElem?_empty] at hv
      cases hv
    exact ⟨hempty, by decide⟩
  rw [parseCgiHeaders, cgiHeaderLoop_eq]
  refine PrintableHead.response (List.foldlRecOn (motive := PrintableHead) (cgiFields headerSection) takeField hstart ?_)
  intro h hh p hp
  exact hh.take (clean_of_mem hp)

/-- The names of the headers have no colon. -/
theorem parseCgiHeaders_colon (headerSection key value : Bytes)
    (h : (parseCgiHeaders headerSection).headers[key]? = some value) : 58 ∉ key := by
  by_cases hk : key = ascii "Status"
  · rw [hk, parseCgiHeaders_status] at h
    cases h
  · rw [parseCgiHeaders_header headerSection hk] at h
    exact (clean_of_mem (mem_of_lastOf h)).colon

end WebServ.HTTPHandler
