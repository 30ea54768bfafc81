import WebServ.Server.HeaderGate
import WebServ.Server.Loop

/-! # Scripts are started by the loop only

The handler of requests can run a script and wait for it. The gate in front of it
sends every request that would get there to the loop instead.
-/
namespace WebServ
open Search HTTPResponse

namespace HTTPHandler

/-- Short of the script its output does not matter. -/
theorem handleRequest_spared (fs : FileSystem) (output output' : Bytes) {request : HTTPRequest}
    {route : Option RouteConfig} {server : ServerConfig} (h : ∀ r, route = some r → ¬ Executes request r server) :
    handleRequest fs output request route server = handleRequest fs output' request route server := by
  cases route with
  | none => rfl
  | some route =>
    have hspared := h route rfl
    cases hr : redirection route with
    | some response => rw [handleRequest_redirected _ _ _ _ hr, handleRequest_redirected _ _ _ _ hr]
    | none =>
      cases ha : route.allows request.method with
      | false => rw [handleRequest_refused _ _ _ hr ha, handleRequest_refused _ _ _ hr ha]
      | true =>
        by_cases hl : OverLimit request route server
        · rw [handleRequest_overLimit _ _ hr ha hl, handleRequest_overLimit _ _ hr ha hl]
        · rw [handleRequest_byMethod _ _ hr ha hl hspared, handleRequest_byMethod _ _ hr ha hl hspared]

/-- A method that the route does not allow is answered without a script. -/
theorem handleRequest_disallowed (fs : FileSystem) (output : Bytes) {request : HTTPRequest} {route : RouteConfig}
    (server : ServerConfig) (ha : route.allows request.method = false) :
    (∃ response, (handleRequest fs output request (some route) server).1 = some response ∧ IsRedirect response) ∨
      (handleRequest fs output request (some route) server).1 = error405 fs (getErrorPage 405 server) := by
  cases hr : redirection route with
  | some response =>
    rw [handleRequest_redirected fs output request server hr]
    exact Or.inl ⟨response, rfl, redirection_isRedirect hr⟩
  | none =>
    rw [handleRequest_refused fs output server hr ha]
    exact Or.inr rfl

end HTTPHandler

namespace World
open HTTPRequest HTTPHandler

/-! ## One read -/

/-- The read gets to the call of `handle_request`. -/
def CallsHandler (conf : ServerConfig) (client : Client) (complete : Bool) : Prop :=
  client.request.isError = false ∧ cgiGate conf client = false ∧ complete = true ∧
    slashRedirect conf (stripQueryString client.request.requestTarget) = none

theorem decideRequest_calls (a : Answers) {conf : ServerConfig} {client : Client} {complete : Bool}
    (h : CallsHandler conf client complete) : decideRequest a conf client complete =
      .answer (handleRequest a.files a.execute client.request
        (matchRoute (stripQueryString client.request.requestTarget) conf) conf).1 := by
  obtain ⟨herr, hgate, rfl, hslash⟩ := h
  simp only [decideRequest, herr, hgate, hslash, Bool.false_eq_true, if_false, if_true]

theorem feedRequest_complete {conf : ServerConfig} {client client' : Client} {bytes : Bytes} {complete : Bool}
    (h : feedRequest conf client bytes = (some complete, client')) : client'.cgiActive = client.cgiActive ∧
      (complete = true → client'.request.isHeadersDone = true) := by
  have hdone : ∀ (r : HTTPRequest) (input : Bytes), (r.parse input).1 = true →
      (r.parse input).2.isHeadersDone = true := by
    intro r input hcomplete
    rw [parse_eq_feed] at hcomplete ⊢
    simp only [decide_eq_true_eq] at hcomplete
    simp [isHeadersDone, hcomplete]
  unfold feedRequest at h
  split at h
  · obtain ⟨rfl, rfl⟩ : _ ∧ _ := by simpa using h
    exact ⟨rfl, hdone _ _⟩
  · dsimp only at h
    split at h
    · obtain ⟨rfl, rfl⟩ : _ ∧ _ := by simpa using h
      exact ⟨rfl, hdone _ _⟩
    · simp at h

/-- Behind the gate a target with the extension of its route has a method that the route refuses. -/
theorem not_allowed_of_gate {conf : ServerConfig} {client : Client} {route : RouteConfig}
    (hdone : client.request.isHeadersDone = true) (hidle : client.cgiActive = false)
    (hgate : cgiGate conf client = false)
    (hroute : matchRoute (stripQueryString client.request.requestTarget) conf = some route)
    (hext : route.cgiExtension ≠ [])
    (hm : route.matchesExtension (stripQueryString client.request.requestTarget) = true) :
    route.allows client.request.method = false := by
  by_contra ha
  rw [Bool.not_eq_false] at ha
  simp [cgiGate, hdone, hidle, hroute, hext, hm, ha] at hgate

theorem not_executes_of_gate {conf : ServerConfig} {client : Client} {route : RouteConfig}
    (hdone : client.request.isHeadersDone = true) (hidle : client.cgiActive = false)
    (hgate : cgiGate conf client = false)
    (hroute : matchRoute (stripQueryString client.request.requestTarget) conf = some route) :
    ¬ Executes client.request route conf := by
  rintro ⟨-, hallows, -, hext, hm⟩
  have hrefused := not_allowed_of_gate hdone hidle hgate hroute hext hm
  rw [hallows] at hrefused
  cases hrefused

/-- How a read ends for a request to a script. -/
def SettledByLoop (a : Answers) (conf : ServerConfig) (client : Client) (complete : Bool) : Prop :=
  match decideRequest a conf client complete with
  | .wait => complete = false
  | .dispatch => True
  | .reject response => client.request.isError = true ∧
      (response = error400 a.files (getErrorPage 400 conf) ∨ response = error413 a.files (getErrorPage 413 conf))
  | .answer response => (∃ redirect, response = some redirect ∧ IsRedirect redirect) ∨
      response = error405 a.files (getErrorPage 405 conf)

theorem slashRedirect_isRedirect {conf : ServerConfig} {uri : Bytes} {response : HTTPResponse}
    (h : slashRedirect conf uri = some response) : IsRedirect response := by
  unfold slashRedirect at h
  split at h
  · split at h
    · split at h
      · exact ⟨_, Or.inl (Option.some.inj h).symm⟩
      · cases h
    · cases h
  · cases h

theorem decideRequest_settled (a : Answers) {conf : ServerConfig} {client : Client} {complete : Bool}
    {route : RouteConfig} (hdone : complete = true → client.request.isHeadersDone = true)
    (hidle : client.cgiActive = false)
    (hroute : matchRoute (stripQueryString client.request.requestTarget) conf = some route)
    (hext : route.cgiExtension ≠ [])
    (hm : route.matchesExtension (stripQueryString client.request.requestTarget) = true) :
    SettledByLoop a conf client complete := by
  unfold SettledByLoop decideRequest
  by_cases herr : client.request.isError = true
  · by_cases hlarge : client.request.isBodyTooLarge = true
    · simp [herr, hlarge]
    · simp [herr, hlarge]
  · rw [Bool.not_eq_true] at herr
    cases hgate : cgiGate conf client with
    | true => simp only [herr, Bool.false_eq_true, if_false, if_true]
    | false =>
      cases complete with
      | false => simp only [herr, Bool.false_eq_true, if_false]
      | true =>
        cases hslash : slashRedirect conf (stripQueryString client.request.requestTarget) with
        | some response =>
          simp only [herr, hslash, Bool.false_eq_true, if_false, if_true]
          exact Or.inl ⟨response, rfl, slashRedirect_isRedirect hslash⟩
        | none =>
          have hrefused := not_allowed_of_gate (hdone rfl) hidle hgate hroute hext hm
          simp only [herr, hslash, hroute, Bool.false_eq_true, if_false, if_true]
          exact handleRequest_disallowed a.files a.execute conf hrefused

/-- `handle_client_read` at `idx` reads bytes of a request, with no script running for the client. -/
def ReadsRequest (w : World) (a : Answers) (idx : ℕ) (client : Client) (bytes : Bytes) : Prop :=
  ∃ held, w.getClient (w.entry idx).fd = some held ∧ held.cgiActive = false ∧
    client = held.updateActivity a.now ∧ w.read held.fd (a.reads.head?.getD .again) = .data bytes

theorem handleClientRead_request {w : World} {a : Answers} {idx : ℕ} {client : Client} {bytes : Bytes}
    (h : w.ReadsRequest a idx client bytes) :
    w.handleClientRead a idx = (idx, w.requestBytes a (w.entry idx).fd client idx bytes) := by
  obtain ⟨held, hget, hidle, rfl, hread⟩ := h
  have hread' : w.read (held.updateActivity a.now).fd (a.reads.head?.getD .again) = .data bytes := hread
  simp only [handleClientRead, hget, hidle, hread', Bool.false_eq_true, if_false]

/-- What holds when `handle_client_read` is called for the entry at `idx`. -/
structure AsyncOnly (w : World) (a : Answers) (idx : ℕ) : Prop where
  /-- The call of `handle_request` does not get to the script. -/
  spared : ∀ client bytes complete client' route, w.ReadsRequest a idx client bytes →
    feedRequest (w.config client) client bytes = (some complete, client') →
    CallsHandler (w.config client) client' complete →
    matchRoute (stripQueryString client'.request.requestTarget) (w.config client) = some route →
    ¬ Executes client'.request route (w.config client)
  settled : ∀ client bytes complete client' route, w.ReadsRequest a idx client bytes →
    feedRequest (w.config client) client bytes = (some complete, client') →
    matchRoute (stripQueryString client'.request.requestTarget) (w.config client) = some route →
    route.cgiExtension ≠ [] →
    route.matchesExtension (stripQueryString client'.request.requestTarget) = true →
    SettledByLoop a (w.config client) client' complete

theorem asyncOnly (w : World) (a : Answers) (idx : ℕ) : w.AsyncOnly a idx := by
  constructor
  · intro client bytes complete client' route hread hfed hcalls hroute
    obtain ⟨held, -, hidle, rfl, -⟩ := hread
    obtain ⟨hactive, hdone⟩ := feedRequest_complete hfed
    obtain ⟨-, hgate, hcomplete, -⟩ := hcalls
    exact not_executes_of_gate (hdone hcomplete) (hactive.trans hidle) hgate hroute
  · intro client bytes complete client' route hread hfed hroute hext hm
    obtain ⟨held, -, hidle, rfl, -⟩ := hread
    obtain ⟨hactive, hdone⟩ := feedRequest_complete hfed
    exact decideRequest_settled a hdone (hactive.trans hidle) hroute hext hm

/-! ## The output of scripts does not matter -/

variable (a : Answers) (output : Bytes)

theorem cgiOutputLoop_spared (idx : ℕ) (cgiFd c : Fd) (reads : List ReadAnswer) (total : ℕ) (w : World)
    (client : Client) : cgiOutputLoop { a with execute := output } idx cgiFd c reads total w client =
      cgiOutputLoop a idx cgiFd c reads total w client := by
  induction reads generalizing total w client with
  | nil => rfl
  | cons answer answers ih =>
    simp only [cgiOutputLoop, ih]
    rfl

theorem handleCgiOutput_spared (w : World) (idx : ℕ) :
    w.handleCgiOutput { a with execute := output } idx = w.handleCgiOutput a idx := by
  simp only [handleCgiOutput, cgiOutputLoop_spared]

theorem bodyLoop_spared (idx : ℕ) (c : Fd) (reads : List ReadAnswer) (writes : List ℕ) (total : ℕ) (w : World)
    (client : Client) : bodyLoop { a with execute := output } idx c reads writes total w client =
      bodyLoop a idx c reads writes total w client := by
  induction reads generalizing writes total w client with
  | nil => rfl
  | cons answer answers ih => simp only [bodyLoop, ih]

theorem sendLoop_spared (idx : ℕ) (fd : Fd) (sends : List SendAnswer) (total : ℕ) (w : World) (client : Client) :
    sendLoop { a with execute := output } idx fd sends total w client =
      sendLoop a idx fd sends total w client := by
  induction sends generalizing total w client with
  | nil => rfl
  | cons answer answers ih => simp only [sendLoop, ih]

theorem readRequest_spared (conf : ServerConfig) {client : Client} (bytes : Bytes)
    (hidle : client.cgiActive = false) :
    readRequest { a with execute := output } conf client bytes = readRequest a conf client bytes := by
  unfold readRequest
  match hfed : feedRequest conf client bytes with
  | (none, client') => rfl
  | (some complete, client') =>
    obtain ⟨hactive, hdone⟩ := feedRequest_complete hfed
    simp only [decideRequest]
    cases hgate : cgiGate conf client' with
    | true => rfl
    | false =>
      cases complete with
      | false => rfl
      | true =>
        have hspared : ∀ route, matchRoute (stripQueryString client'.request.requestTarget) conf = some route →
            ¬ Executes client'.request route conf := fun _ =>
          not_executes_of_gate (hdone rfl) (hactive.trans hidle) hgate
        rw [handleRequest_spared a.files output a.execute hspared]

theorem handleClientRead_spared (w : World) (idx : ℕ) :
    w.handleClientRead { a with execute := output } idx = w.handleClientRead a idx := by
  unfold handleClientRead
  dsimp only
  cases hget : w.getClient (w.entry idx).fd with
  | none => rfl
  | some client =>
    cases hidle : client.cgiActive with
    | true =>
      simp only [hidle, if_true]
      rw [bodyLoop_spared]
    | false =>
      have hread : ∀ bytes, readRequest { a with execute := output } (w.config (client.updateActivity a.now))
          (client.updateActivity a.now) bytes = readRequest a (w.config (client.updateActivity a.now))
          (client.updateActivity a.now) bytes := fun bytes => readRequest_spared a output _ bytes hidle
      simp only [hidle, Bool.false_eq_true, if_false, requestBytes, hread]
      rfl

end World

theorem LoopState.step_spared (s : LoopState) (a : Answers) (output : Bytes) :
    s.step { a with execute := output } = s.step a := by
  unfold LoopState.step
  cases s.point with
  | poll => rfl
  | errors idx => rfl
  | input idx =>
    simp only [World.handlePollInput, World.handleClientRead_spared, World.handleCgiOutput_spared]
    rfl
  | output idx =>
    simp only [World.handlePollOutput, World.sendLoop_spared]
    rfl
  | timeouts now i => rfl
  | stopped => rfl
  | aborted => rfl

/-- No run of the loop depends on what a script run by `handle_request` would print, and every read
of every run leaves the scripts to the loop. -/
theorem LoopState.blocking_executor_unreachable (s : LoopState) (as : List Answers) (output : Answers → Bytes) :
    s.run (as.map fun a => { a with execute := output a }) = s.run as ∧
      ∀ a idx, (s.run as).world.AsyncOnly a idx := by
  constructor
  · induction as generalizing s with
    | nil => rfl
    | cons a as ih =>
      calc s.run ((a :: as).map fun a => { a with execute := output a })
          = (s.step { a with execute := output a }).run (as.map fun a => { a with execute := output a }) := rfl
        _ = (s.step a).run (as.map fun a => { a with execute := output a }) := by rw [LoopState.step_spared]
        _ = s.run (a :: as) := ih (s.step a)
  · intro a idx
    exact World.asyncOnly _ a idx

end WebServ
