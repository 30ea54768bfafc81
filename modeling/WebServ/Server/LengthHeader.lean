import WebServ.Http.BodyLimit
import WebServ.Server.HeaderGate

/-! # What a length in the head does

The number announced in the head is read by `atol` and kept as an unsigned size: any
text is a number for it. The parser uses it for messages that are not chunked, and
the handler compares it with the limit once more, whatever the message is.
-/
namespace WebServ
open Search Chunked

namespace HTTPRequest

/-- A length that is not written as a number: not one digit after the other. -/
def Malformed (value : Bytes) : Prop := value = [] ∨ ∃ b ∈ value, decDigit b = none

/-- The head is refused, and whatever comes behind it stays unread. -/
def Rejected (limit : ℕ) (head : Bytes) : Prop :=
  ∀ pieces : List Bytes, pieces ≠ [] → head <+: pieces.flatten →
    let r := ((fresh limit).parsePieces pieces).2
    r.isError = true ∧ r.body = [] ∧ r.buffer = pieces.flatten.drop head.length

theorem getHeaderValue_contentLength {r : HTTPRequest} {value : Bytes}
    (hv : r.headers[ascii "content-length"]? = some value) : r.getHeaderValue (ascii "Content-Length") = value := by
  have hkey : (ascii "Content-Length").map toLower = ascii "content-length" := by decide
  rw [getHeaderValue, hkey, hv, Option.getD_some]

/-- With the header the parser goes on to a body, even to an empty one. -/
theorem endHeaders_announced {r : HTTPRequest} {value : Bytes} (hte : r.announcesChunked = false)
    (hv : r.headers[ascii "content-length"]? = some value) :
    r.endHeaders = { r with isChunked := false, state := .parssingBody } := by
  have hbody : r.hasBody = true := by
    unfold hasBody
    rw [hv, Option.isSome_some]
    split
    · exact ite_self true
    · rfl
  rw [endHeaders, if_pos hbody, hte]

section
variable {limit : ℕ} {head value : Bytes} {r : HTTPRequest} (h : HeadAccepted limit head r)
  (hte : r.announcesChunked = false) (hv : r.headers[ascii "content-length"]? = some value)
include h hte hv

/-- Any other text is taken for a length: the parser is done, or waits for the body. -/
theorem HeadAccepted.feed_taken (hfit : value = [] ∨ limit = 0 ∨ toSizeT (atol value) ≤ limit) :
    (machine.feed (fresh limit) head).isError = false := by
  have hvalue := getHeaderValue_contentLength hv
  by_cases hne : value = []
  · have hsteps := h.steps []
    rw [endHeaders_announced hte hv, List.append_nil] at hsteps
    let waiting : HTTPRequest := push { r with isChunked := false, state := .parssingBody } []
    have hgate : waiting.getHeaderValue (ascii "Content-Length") = [] := hvalue.trans hne
    have hstep : waiting.step = some { waiting with state := .parssingComplete } := by
      change waiting.lengthStep = _
      rw [lengthStep, if_pos hgate]
    have hstuck : HTTPRequest.step { waiting with state := .parssingComplete } = none :=
      step_eq_none_of_terminal (Or.inl rfl)
    have hfeed : machine.feed (fresh limit) head = { waiting with state := .parssingComplete } :=
      (hsteps.trans (Machine.Steps.single hstep)).run_eq_of_stuck hstuck
    rw [hfeed]
    rfl
  · have hlen : r.contentLength = toSizeT (atol value) := by rw [contentLength, hvalue]
    have hsome : r.getHeaderValue (ascii "Content-Length") ≠ [] := by rwa [hvalue]
    have hfeed := h.feed_length [] hte hsome (by
      rw [hlen]
      exact hfit.resolve_left hne)
    rw [List.append_nil] at hfeed
    rw [hfeed, isError]
    dsimp only
    split <;> rfl

end

/-- A head with a length, digits or not, is refused exactly when what `atol` makes of it
exceeds the limit as an unsigned size. -/
theorem malformed_length_iff (limit : ℕ) (head value : Bytes) (r : HTTPRequest) (hhead : HeadAccepted limit head r)
    (hte : r.announcesChunked = false) (hv : r.headers[ascii "content-length"]? = some value) :
    Rejected limit head ↔ value ≠ [] ∧ 0 < limit ∧ limit < toSizeT (atol value) := by
  constructor
  · intro hreject
    by_contra hcond
    have htaken := hhead.feed_taken hte hv (by
      by_cases hne : value = []
      · exact Or.inl hne
      · right
        by_contra hno
        apply hcond
        exact ⟨hne, by omega, by omega⟩)
    obtain ⟨herror, -, -⟩ := hreject [head] (by simp) (by simp)
    rw [parsePieces_state, List.flatten_singleton, htaken] at herror
    cases herror
  · rintro ⟨hne, hlim, hlen⟩ pieces - ⟨rest, hrest⟩
    have hbody : r.body = [] := hhead.sameBody.body
    have hvalue := getHeaderValue_contentLength hv
    rw [← hvalue] at hne hlen
    dsimp only
    rw [parsePieces_state, ← hrest, hhead.feed_over rest hte hne hlim hlen, List.drop_left]
    refine ⟨rfl, ?_, rfl⟩
    rw [endHeaders_announced hte hv]
    exact hbody

/-- A negative length is a large unsigned one. -/
theorem malformed_length_iff_negative :
    Rejected 9 (ascii "POST / H\r\nContent-Length: -1\r\n\r\n") ↔
      ascii "-1" ≠ [] ∧ 0 < 9 ∧ 9 < toSizeT (atol (ascii "-1")) := by
  have hhead : (parseHead ((fresh 9).push (ascii "POST / H\r\nContent-Length: -1\r\n\r\n"))).any
      (fun r => r.buffer = [] ∧ r.announcesChunked = false ∧
        r.headers[ascii "content-length"]? = some (ascii "-1")) := by decide +kernel
  obtain ⟨r, hr, hprop⟩ := (Option.any_eq_true _ _).mp hhead
  simp only [decide_eq_true_eq] at hprop
  exact malformed_length_iff 9 _ _ r ⟨hr, hprop.1⟩ hprop.2.1 hprop.2.2

/-- Two bytes of what follows a malformed length become a body. -/
theorem malformed_length_taken : ¬ ∀ limit head value r, HeadAccepted limit head r →
    r.announcesChunked = false → r.headers[ascii "content-length"]? = some value → Malformed value →
    Rejected limit head := by
  intro h
  have hhead : (parseHead ((fresh 9).push (ascii "POST / H\r\nContent-Length: 2x\r\n\r\n"))).any
      (fun r => r.buffer = [] ∧ r.announcesChunked = false ∧
        r.headers[ascii "content-length"]? = some (ascii "2x")) := by decide +kernel
  obtain ⟨r, hr, hprop⟩ := (Option.any_eq_true _ _).mp hhead
  simp only [decide_eq_true_eq] at hprop
  have hbad : Malformed (ascii "2x") := Or.inr ⟨120, by decide, by decide⟩
  have hreject := h 9 _ _ r ⟨hr, hprop.1⟩ hprop.2.1 hprop.2.2 hbad
    [ascii "POST / H\r\nContent-Length: 2x\r\n\r\n", ascii "abc"] (by decide) (by decide +kernel)
  revert hreject
  decide +kernel

/-! ## Chunked messages -/

/-- Two requests whose heads are alike but for what they say about the length. -/
structure SameButLength (r r' : HTTPRequest) : Prop where
  method : r'.method = r.method
  requestTarget : r'.requestTarget = r.requestTarget
  protocol : r'.protocol = r.protocol
  headers : ∀ key : Bytes, key ≠ ascii "content-length" → r'.headers[key]? = r.headers[key]?

theorem SameButLength.getHeaderValue {r r' : HTTPRequest} (h : SameButLength r r') {key : Bytes}
    (hkey : key.map toLower ≠ ascii "content-length") : r'.getHeaderValue key = r.getHeaderValue key := by
  rw [HTTPRequest.getHeaderValue, HTTPRequest.getHeaderValue, h.headers _ hkey]

theorem SameButLength.announcesChunked {r r' : HTTPRequest} (h : SameButLength r r') :
    r'.announcesChunked = r.announcesChunked := by
  rw [HTTPRequest.announcesChunked, HTTPRequest.announcesChunked, h.getHeaderValue (by decide)]

/-- Behind a chunked head the body decides alone whether the request is complete. -/
theorem HeadAccepted.parse_chunked {limit : ℕ} {head : Bytes} {r : HTTPRequest} (h : HeadAccepted limit head r)
    (hte : r.announcesChunked = true) (rest : Bytes) :
    let c := (Chunked.machine chunkSizeOf (admits limit)).run ⟨.size, 0, [], rest, .running⟩
    (fresh limit).parse (head ++ rest) =
      (decide (ofStatus c.status = .parssingComplete), r.endHeaders.withChunk c) := by
  intro c
  have hsteps := (Chunked.machine chunkSizeOf (admits limit)).steps_run ⟨.size, 0, [], rest, .running⟩
  have hstuck := (Chunked.machine chunkSizeOf (admits limit)).step_run ⟨.size, 0, [], rest, .running⟩
  rw [parse_eq_feed, h.feed_chunked hte rest hsteps hstuck]
  rfl

/-- The body phase leaves the head as it is. -/
theorem withChunk_sameHead (r : HTTPRequest) (c : Config) :
    (r.endHeaders.withChunk c).method = r.method ∧ (r.endHeaders.withChunk c).requestTarget = r.requestTarget ∧
      (r.endHeaders.withChunk c).protocol = r.protocol ∧ (r.endHeaders.withChunk c).headers = r.headers := by
  unfold endHeaders
  split <;> exact ⟨rfl, rfl, rfl, rfl⟩

theorem SameButLength.withChunk {r r' : HTTPRequest} (h : SameButLength r r') (c : Config) :
    SameButLength (r.endHeaders.withChunk c) (r'.endHeaders.withChunk c) := by
  obtain ⟨hm, ht, hp, hh⟩ := withChunk_sameHead r c
  obtain ⟨hm', ht', hp', hh'⟩ := withChunk_sameHead r' c
  refine ⟨?_, ?_, ?_, ?_⟩
  · rw [hm, hm', h.method]
  · rw [ht, ht', h.requestTarget]
  · rw [hp, hp', h.protocol]
  · intro key hkey
    rw [hh, hh', h.headers key hkey]

end HTTPRequest
namespace HTTPHandler
open HTTPRequest HTTPResponse

/-! ## The check of the handler -/

/-- The request comes to the check of its length, and fails it. -/
def LengthRefused (request : HTTPRequest) (route : Option RouteConfig) (server : ServerConfig) : Prop :=
  ∃ chosen, route = some chosen ∧ redirection chosen = none ∧ chosen.allows request.method = true ∧
    OverLimit request chosen server

variable {fs : FileSystem} {execute : Bytes} {request request' : HTTPRequest} {route : Option RouteConfig}
  {server : ServerConfig}

theorem handleRequest_lengthRefused (h : LengthRefused request route server) :
    handleRequest fs execute request route server = (error413 fs (getErrorPage 413 server), []) := by
  obtain ⟨chosen, rfl, hredirect, hallowed, hover⟩ := h
  exact handleRequest_overLimit fs execute hredirect hallowed hover

/-- The answer to a request whose length is not looked at. -/
def uncheckedAnswer (fs : FileSystem) (request : HTTPRequest) (route : Option RouteConfig) (server : ServerConfig) :
    Option HTTPResponse × List FileEffect :=
  match route with
  | none => (error404 fs (getErrorPage 404 server), [])
  | some chosen =>
    match redirection chosen with
    | some response => (some response, [])
    | none =>
      if chosen.allows request.method then byMethod fs request chosen server
      else (error405 fs (getErrorPage 405 server), [])

/-- Where the answer to such a request throws. -/
def UncheckedThrows (fs : FileSystem) (request : HTTPRequest) (route : Option RouteConfig) (server : ServerConfig) :
    Prop :=
  match route with
  | none => ErrorThrows fs server 404
  | some chosen => redirection chosen = none ∧
      if chosen.allows request.method then MethodThrows fs request chosen server else ErrorThrows fs server 405

/-- Without a refusal the length has no part in the answer. -/
theorem handleRequest_unchecked (hcgi : ∀ chosen ∈ route, chosen.cgiExtension = [])
    (h : ¬ LengthRefused request route server) :
    handleRequest fs execute request route server = uncheckedAnswer fs request route server := by
  cases route with
  | none => rfl
  | some chosen =>
    have hspared : ¬ Executes request chosen server := fun hs => hs.2.2.2.1 (hcgi chosen rfl)
    unfold uncheckedAnswer
    cases hredirect : redirection chosen with
    | some response => simp only [handleRequest_redirected fs execute request server hredirect, hredirect]
    | none =>
      cases hallowed : chosen.allows request.method with
      | false => simp [handleRequest_refused fs execute server hredirect hallowed, hredirect, hallowed]
      | true =>
        have hfits : ¬ OverLimit request chosen server := by
          intro hover
          exact h ⟨chosen, rfl, hredirect, hallowed, hover⟩
        simp only [handleRequest_byMethod fs execute hredirect hallowed hfits hspared, hredirect, hallowed, if_true]

theorem uncheckedAnswer_eq_none_iff :
    (uncheckedAnswer fs request route server).1 = none ↔ UncheckedThrows fs request route server := by
  unfold uncheckedAnswer UncheckedThrows
  cases route with
  | none => exact errorPage_eq_none_iff
  | some chosen =>
    cases hredirect : redirection chosen with
    | some response => simp [hredirect]
    | none =>
      cases hallowed : chosen.allows request.method with
      | false =>
        simp only [hredirect, hallowed, Bool.false_eq_true, if_false, true_and]
        exact errorPage_eq_none_iff
      | true =>
        simp only [hredirect, hallowed, if_true, true_and]
        exact byMethod_eq_none_iff

/-- What throws depends on the method and the target only. -/
theorem uncheckedThrows_congr (hmethod : request'.method = request.method)
    (htarget : request'.requestTarget = request.requestTarget) :
    UncheckedThrows fs request' route server ↔ UncheckedThrows fs request route server := by
  have hpath (chosen : RouteConfig) : requestPath request' chosen = requestPath request chosen := by
    rw [requestPath, htarget, requestPath]
  have hget (chosen : RouteConfig) : GetThrows fs request' chosen server = GetThrows fs request chosen server := by
    simp only [GetThrows, indexPath, targetPath, hpath]
  have hdelete (chosen : RouteConfig) :
      DeleteThrows fs request' chosen server = DeleteThrows fs request chosen server := by
    simp only [DeleteThrows, targetPath, hpath]
  simp only [UncheckedThrows, MethodThrows, hmethod, hget, hdelete]

theorem byMethod_congr (chosen : RouteConfig) (hsame : SameButLength request request')
    (hbody : request'.body = request.body) : byMethod fs request' chosen server = byMethod fs request chosen server := by
  have hpath : requestPath request' chosen = requestPath request chosen := by
    rw [requestPath, hsame.requestTarget, requestPath]
  have hget : handleGet fs request' chosen server = handleGet fs request chosen server := by
    unfold handleGet
    rw [hpath, hsame.requestTarget]
  have hpost : handlePost fs request' chosen = handlePost fs request chosen := by
    unfold handlePost
    rw [hsame.getHeaderValue (by decide), hbody]
  have hdelete : handleDelete fs request' chosen server = handleDelete fs request chosen server := by
    unfold handleDelete
    rw [hpath]
  unfold byMethod
  rw [hsame.method, hget, hpost, hdelete]

theorem uncheckedAnswer_congr (hsame : SameButLength request request') (hbody : request'.body = request.body) :
    uncheckedAnswer fs request' route server = uncheckedAnswer fs request route server := by
  unfold uncheckedAnswer
  cases route with
  | none => rfl
  | some chosen =>
    dsimp only
    cases redirection chosen with
    | some response => rfl
    | none =>
      dsimp only
      rw [hsame.method, byMethod_congr chosen hsame hbody]

/-- The request is answered with 413. -/
def AnsweredTooLarge (response : Option HTTPResponse) : Prop :=
  ∃ answer, response = some answer ∧ answer.statusLine = tooLarge

/-- An answer with 413 comes from a length that is refused, and from a page that can be read. -/
theorem answeredTooLarge_iff (hcgi : ∀ chosen ∈ route, chosen.cgiExtension = []) :
    AnsweredTooLarge (handleRequest fs execute request route server).1 ↔
      LengthRefused request route server ∧ ¬ ErrorThrows fs server 413 := by
  by_cases h : LengthRefused request route server
  · rw [handleRequest_lengthRefused h, AnsweredTooLarge]
    constructor
    · rintro ⟨answer, hanswer, -⟩
      refine ⟨h, fun hthrows => ?_⟩
      rw [error413, errorPage_of_throws hthrows] at hanswer
      cases hanswer
    · rintro ⟨-, hread⟩
      obtain ⟨answer, hanswer, -⟩ : ∃ answer, error413 fs (getErrorPage 413 server) = some answer ∧ _ :=
        exists_errorPage hread
      exact ⟨answer, hanswer, error413_statusLine hanswer⟩
  · refine iff_of_false ?_ (fun hrefused => h hrefused.1)
    rintro ⟨answer, hanswer, hstatus⟩
    refine handleRequest_not_tooLarge (fun chosen hroute hredirect hallowed => ⟨fun hover => ?_, fun hs => ?_⟩)
      hanswer hstatus
    · exact h ⟨chosen, hroute, hredirect, hallowed, hover⟩
    · exact hs.2.2.2.1 (hcgi chosen hroute)

/-- A refusal depends on the method and on the length only. -/
theorem lengthRefused_congr (hmethod : request'.method = request.method) (hheaders : request'.headers = request.headers) :
    LengthRefused request' route server ↔ LengthRefused request route server := by
  unfold LengthRefused OverLimit getHeaderValue
  rw [hmethod, hheaders]

/-- Two requests that differ in their lengths only are answered alike where both lengths are refused or none,
and where neither gets an answer because the page of a refusal and what is done without one both throw. -/
theorem handleRequest_eq_iff (hcgi : ∀ chosen ∈ route, chosen.cgiExtension = [])
    (hsame : SameButLength request request') (hbody : request'.body = request.body) :
    (handleRequest fs execute request' route server).1 = (handleRequest fs execute request route server).1 ↔
      (LengthRefused request route server ↔ LengthRefused request' route server) ∨
        ErrorThrows fs server 413 ∧ UncheckedThrows fs request route server := by
  -- of a refused and an unrefused request only the first can be answered with 413
  have hdiffer {x y : HTTPRequest} (hx : LengthRefused x route server) (hy : ¬ LengthRefused y route server) :
      (handleRequest fs execute x route server).1 = (handleRequest fs execute y route server).1 ↔
        ErrorThrows fs server 413 ∧ UncheckedThrows fs y route server := by
    have hunchecked : handleRequest fs execute y route server = uncheckedAnswer fs y route server :=
      handleRequest_unchecked hcgi hy
    rw [← uncheckedAnswer_eq_none_iff, ← hunchecked]
    have hnone : (handleRequest fs execute x route server).1 = none ↔ ErrorThrows fs server 413 := by
      rw [handleRequest_lengthRefused hx]
      exact errorPage_eq_none_iff
    constructor
    · intro heq
      have hthrows : ErrorThrows fs server 413 := by
        by_contra hread
        have hlarge : AnsweredTooLarge (handleRequest fs execute x route server).1 :=
          (answeredTooLarge_iff hcgi).mpr ⟨hx, hread⟩
        rw [heq] at hlarge
        exact hy ((answeredTooLarge_iff hcgi).mp hlarge).1
      exact ⟨hthrows, heq ▸ hnone.mpr hthrows⟩
    · rintro ⟨hthrows, hyNone⟩
      rw [hyNone, hnone.mpr hthrows]
  have hthrows : UncheckedThrows fs request' route server ↔ UncheckedThrows fs request route server :=
    uncheckedThrows_congr hsame.method hsame.requestTarget
  by_cases hx : LengthRefused request route server
  · by_cases hy : LengthRefused request' route server
    · rw [handleRequest_lengthRefused hx, handleRequest_lengthRefused hy]
      simp [hx, hy]
    · rw [eq_comm, hdiffer hx hy, hthrows]
      simp [hx, hy]
  · by_cases hy : LengthRefused request' route server
    · rw [hdiffer hy hx]
      simp [hx, hy]
    · rw [handleRequest_unchecked hcgi hx, handleRequest_unchecked hcgi hy, uncheckedAnswer_congr hsame hbody]
      simp [hx, hy]

/-- Of two chunked requests that differ in their lengths both are complete or none is, under
whatever limit they are parsed; they are answered alike exactly when the handler refuses
both lengths or none, or when both would throw, and the answer is 413 exactly when it refuses
the length and the page for that can be read. -/
theorem chunked_length_iff (fs : FileSystem) (execute : Bytes) (limit : ℕ) (head head' rest : Bytes)
    (r r' q : HTTPRequest) (route : Option RouteConfig) (server : ServerConfig)
    (hhead : HeadAccepted limit head r) (hhead' : HeadAccepted limit head' r') (hsame : SameButLength r r')
    (hte : r.announcesChunked = true) (hcgi : ∀ chosen ∈ route, chosen.cgiExtension = [])
    (hparse : (fresh limit).parse (head ++ rest) = (true, q)) :
    ∃ q', (fresh limit).parse (head' ++ rest) = (true, q') ∧
      ((handleRequest fs execute q' route server).1 = (handleRequest fs execute q route server).1 ↔
        (LengthRefused r route server ↔ LengthRefused r' route server) ∨
          ErrorThrows fs server 413 ∧ UncheckedThrows fs r route server) ∧
      (AnsweredTooLarge (handleRequest fs execute q route server).1 ↔
        LengthRefused r route server ∧ ¬ ErrorThrows fs server 413) := by
  have hte' : r'.announcesChunked = true := hsame.announcesChunked.trans hte
  have hparse' := hhead'.parse_chunked hte' rest
  dsimp only at hparse'
  rw [hhead.parse_chunked hte, Prod.mk.injEq] at hparse
  generalize (Chunked.machine chunkSizeOf (admits limit)).run ⟨.size, 0, [], rest, .running⟩ = c at hparse hparse'
  obtain ⟨hcomplete, rfl⟩ := hparse
  rw [hcomplete] at hparse'
  obtain ⟨hmethod, htarget, -, hheaders⟩ := withChunk_sameHead r c
  obtain ⟨hmethod', -, -, hheaders'⟩ := withChunk_sameHead r' c
  have hbody : (r'.endHeaders.withChunk c).body = (r.endHeaders.withChunk c).body := rfl
  refine ⟨_, hparse', ?_, ?_⟩
  · rw [handleRequest_eq_iff hcgi (hsame.withChunk c) hbody, lengthRefused_congr hmethod hheaders,
      lengthRefused_congr hmethod' hheaders', uncheckedThrows_congr hmethod htarget]
  · rw [answeredTooLarge_iff hcgi, lengthRefused_congr hmethod hheaders]

/-- Maps that are the same without a key agree on every other key. -/
theorem headers_of_erase {a b : Headers} {k key : Bytes} (h : (b.erase k).toList = (a.erase k).toList)
    (hne : key ≠ k) : b[key]? = a[key]? := by
  have hcmp : ¬ compare k key = .eq := by
    rw [Std.LawfulEqCmp.compare_eq_iff_eq]
    exact Ne.symm hne
  have herase : (b.erase k)[key]? = (a.erase k)[key]? := by
    apply Option.ext
    intro value
    rw [← Std.ExtTreeMap.mem_toList_iff_getElem?_eq_some, h, Std.ExtTreeMap.mem_toList_iff_getElem?_eq_some]
  rwa [Std.ExtTreeMap.getElem?_erase, Std.ExtTreeMap.getElem?_erase, if_neg hcmp, if_neg hcmp] at herase

/-- A chunked request of three bytes that announces nine, and one that announces none. -/
abbrev nineHead : Bytes := ascii "POST / H\r\nContent-Length: 9\r\nTransfer-Encoding: chunked\r\n\r\n"
abbrev plainHead : Bytes := ascii "POST / H\r\nTransfer-Encoding: chunked\r\n\r\n"
abbrev threeBytes : Bytes := ascii "3\r\nabc\r\n0\r\n\r\n"

theorem nineHead_plainHead : ∃ r r', HeadAccepted 5 nineHead r ∧ HeadAccepted 5 plainHead r' ∧ SameButLength r r' ∧
    r.announcesChunked = true := by
  have hheads : (parseHead ((fresh 5).push nineHead)).any (fun r => (parseHead ((fresh 5).push plainHead)).any (fun r' =>
      r.buffer = [] ∧ r'.buffer = [] ∧ r'.method = r.method ∧ r'.requestTarget = r.requestTarget ∧
      r'.protocol = r.protocol ∧ r.announcesChunked = true ∧
      (r'.headers.erase (ascii "content-length")).toList = (r.headers.erase (ascii "content-length")).toList)) =
      true := by decide +kernel
  obtain ⟨r, hr, hrest⟩ := (Option.any_eq_true _ _).mp hheads
  obtain ⟨r', hr', hprop⟩ := (Option.any_eq_true _ _).mp hrest
  simp only [decide_eq_true_eq] at hprop
  obtain ⟨hbuf, hbuf', hmethod, htarget, hprotocol, hte, herase⟩ := hprop
  have hsame : SameButLength r r' := ⟨hmethod, htarget, hprotocol, fun key hkey => headers_of_erase herase hkey⟩
  exact ⟨r, r', ⟨hr, hbuf⟩, ⟨hr', hbuf'⟩, hsame, hte⟩

theorem nineHead_parse : (fresh 5).parse (nineHead ++ threeBytes) =
    (true, ((fresh 5).parse (nineHead ++ threeBytes)).2) := by
  have hcomplete : ((fresh 5).parse (nineHead ++ threeBytes)).1 = true := by decide +kernel
  exact Prod.ext hcomplete rfl

/-- Nine bytes are within a megabyte. -/
theorem chunked_length_iff_nine : ∃ r r' q q', (fresh 5).parse (nineHead ++ threeBytes) = (true, q) ∧
    (fresh 5).parse (plainHead ++ threeBytes) = (true, q') ∧
    ((handleRequest {} [] q' (some {}) {}).1 = (handleRequest {} [] q (some {}) {}).1 ↔
      (LengthRefused r (some {}) {} ↔ LengthRefused r' (some {}) {}) ∨
        ErrorThrows {} {} 413 ∧ UncheckedThrows {} r (some {}) {}) ∧
    (AnsweredTooLarge (handleRequest {} [] q (some {}) {}).1 ↔
      LengthRefused r (some {}) {} ∧ ¬ ErrorThrows {} {} 413) := by
  obtain ⟨r, r', hhead, hhead', hsame, hte⟩ := nineHead_plainHead
  have hcgi : ∀ chosen ∈ some ({} : RouteConfig), chosen.cgiExtension = [] := by simp
  obtain ⟨q', hparse', hiff⟩ :=
    chunked_length_iff {} [] 5 _ _ _ r r' _ (some {}) {} hhead hhead' hsame hte hcgi nineHead_parse
  exact ⟨r, r', _, q', nineHead_parse, hparse', hiff⟩

/-- With a limit of five bytes the announced nine are refused, although three were sent. -/
theorem chunked_length_refused : ¬ ∀ fs execute limit head rest r q route server,
    HeadAccepted limit head r → r.announcesChunked = true → (∀ chosen ∈ route, chosen.cgiExtension = []) →
    effectiveMaxBody route server = limit → (fresh limit).parse (head ++ rest) = (true, q) → q.body.length ≤ limit →
    ¬ AnsweredTooLarge (handleRequest fs execute q route server).1 := by
  intro h
  obtain ⟨r, -, hhead, -, -, hte⟩ := nineHead_plainHead
  refine h {} [] 5 _ _ r _ (some {}) { clientMaxBodySize := 5 } hhead hte (by simp) rfl nineHead_parse
    (by decide +kernel) ?_
  have hstatus : ((handleRequest {} [] ((fresh 5).parse (nineHead ++ threeBytes)).2 (some {})
      { clientMaxBodySize := 5 }).1.any fun answer => decide (answer.statusLine = tooLarge)) = true := by
    decide +kernel
  obtain ⟨answer, hanswer, hline⟩ := (Option.any_eq_true _ _).mp hstatus
  exact ⟨answer, hanswer, of_decide_eq_true hline⟩

end HTTPHandler
end WebServ
