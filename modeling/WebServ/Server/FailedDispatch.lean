import WebServ.Http.FileAnswers
import WebServ.Server.Effects

/-! # Dispatches that fail

Two pipes and a child are asked for, one after the other. The descriptors made before a
failure are closed where the child could not be made, and forgotten where the second
pipe could not.
-/
namespace WebServ.World
open HTTPHandler

/-- The call answers that the server failed. -/
def Answers500 (w w' : World) (a : Answers) (c : Fd) (client : Client) : Prop :=
  ∃ new err, w'.history c = w.history c ++ new ∧
    HTTPResponse.error500 a.files (getErrorPage 500 (w.config client)) = some err ∧
    .responded c (closing err).toString ∈ new

/-- Nothing changed but the request and the response of the client, and whether its
entry is polled for output. -/
structure Untouched (w w' : World) (c : Fd) (client : Client) (idx : ℕ) : Prop where
  opened : ∀ fd, fd ∈ w'.opened ↔ fd ∈ w.opened
  pollFds : w'.pollFds = w.pollFds.modify idx PollFd.enablePollout
  others : ∀ d, d ≠ c → w'.getClient d = w.getClient d
  own : ∃ response responseOffset buffer request requestStarted, w'.getClient c = some { client with
    response, responseOffset, buffer, request, requestStarted }
  cgiFds : w'.cgiFdToClientFd = w.cgiFdToClientFd
  cgiStdinFds : w'.cgiStdinFdToClientFd = w.cgiStdinFdToClientFd

/-- The second of the two pipes is the one that cannot be made. -/
def SecondPipeFails (w : World) (a : Answers) : Prop :=
  ∃ r t v, w.pipe a.stdinPipe = some (r, t, v) ∧ v.pipe a.stdoutPipe = none

section
variable {w v : World} {new : List Fd} (a : Answers) (c : Fd) (client : Client) (idx : ℕ)

/-- The answer to a failure leaves what the pipes left. -/
theorem PipesMade.untouched_iff (h : PipesMade w v new none) :
    Untouched w (v.dispatchFailed a c client idx) c client idx ↔ new = [] := by
  have hopened : (v.dispatchFailed a c client idx).opened = w.opened ++ new := by
    simp [dispatchFailed, respond, h.opened]
  constructor
  · intro hu
    rcases new with _ | ⟨fd, new⟩
    · rfl
    · have hfresh : fd ∉ w.opened := h.fresh (List.mem_cons_self ..)
      have hleft : fd ∈ (v.dispatchFailed a c client idx).opened := by simp [hopened]
      exact absurd ((hu.opened fd).mp hleft) hfresh
  · rintro rfl
    refine ⟨fun fd => by simp [hopened], ?_, ?_, ?_, ?_, ?_⟩
    · simp [dispatchFailed, respond, modifyEntry, h.pollFds]
    · intro d hd
      simp [dispatchFailed, respond, hd, h.getClient]
    · have hown : (v.dispatchFailed a c client idx).getClient c = some (client.setResponse (responseText
          (HTTPResponse.error500 a.files (getErrorPage 500 (v.config client))))).clearBuffer := by
        simp [dispatchFailed, respond]
      exact ⟨_, _, _, _, _, hown⟩
    · simp [dispatchFailed, respond, h.cgiFds]
    · simp [dispatchFailed, respond, h.cgiStdinFds]

/-- The failure is answered unless the page for it throws. -/
theorem PipesMade.answers500_iff (h : PipesMade w v new none) :
    Answers500 w (v.dispatchFailed a c client idx) a c client ↔ ¬ ErrorThrows a.files (w.config client) 500 := by
  constructor
  · rintro ⟨-, err, -, herr, -⟩ hthrows
    rw [HTTPResponse.error500, HTTPResponse.errorPage_of_throws hthrows] at herr
    cases herr
  · intro hread
    obtain ⟨err, herr, -⟩ : ∃ err, HTTPResponse.error500 a.files (getErrorPage 500 (w.config client)) = some err ∧ _ :=
      HTTPResponse.exists_errorPage hread
    have hconfig : v.config client = w.config client := by rw [config, config, h.configs]
    refine ⟨[.responded c (closing err).toString], err, ?_, herr, List.mem_singleton_self _⟩
    simp [dispatchFailed, respond, responseText, h.history, hconfig, herr, Event.client]

theorem not_answers500 {w' : World} {es : List Event} {o : Option Client} (h : Changed w w' c es o)
    (hes : ∀ e ∈ es, ∀ response, e ≠ .responded c response) : ¬ Answers500 w w' a c client := by
  rintro ⟨new, err, hnew, -, hmem⟩
  have hsame : new = es := by
    have hhistory := (h.history c).symm.trans hnew
    rw [if_pos rfl] at hhistory
    exact (List.append_cancel_left hhistory).symm
  rw [hsame] at hmem
  exact hes _ hmem _ rfl

/-- Where all three calls succeed the script is started, and nothing is answered. -/
theorem started_not_answers500 {child : Option ℕ} (h : PipesMade w v new child) (pid stdinFd stdoutFd : ℕ) :
    ¬ Answers500 w (v.startCgiRun a c client pid stdinFd stdoutFd) a c client := by
  obtain ⟨client', body, taken, -, -, -, -, hch⟩ := v.startCgiRun_changed a c client pid stdinFd stdoutFd
  refine not_answers500 a c client (h.changed hch) ?_
  intro e he response
  simp only [List.mem_cons, List.not_mem_nil, or_false] at he
  rcases he with rfl | rfl
  · simp
  · simp

end

/-- A dispatch that fails leaves no trace, unless it is the second pipe that fails and the failure is answered. -/
theorem failed_dispatch_untouched_iff (w : World) (a : Answers) (c : Fd) (client : Client) (idx : ℕ) :
    (Answers500 w (w.dispatchCgi a c client idx) a c client →
        Untouched w (w.dispatchCgi a c client idx) c client idx) ↔
      ¬ ((matchRoute (stripQueryString client.request.requestTarget) (w.config client)).isSome ∧
        SecondPipeFails w a ∧ ¬ ErrorThrows a.files (w.config client) 500) := by
  unfold dispatchCgi SecondPipeFails
  cases hroute : matchRoute (stripQueryString client.request.requestTarget) (w.config client) with
  | none =>
    have hquiet : ¬ Answers500 w (w.setClient c client) a c client := by
      have hch : Changed w (w.setClient c client) c [] (some client) :=
        ⟨fun d => getClient_setClient w c d client, fun d => by simp, rfl⟩
      exact not_answers500 a c client hch (by simp)
    simp [hquiet]
  | some route =>
    cases hstdin : w.pipe a.stdinPipe with
    | none =>
      have huntouched := (PipesMade.refl w).untouched_iff a c client idx
      simp [huntouched]
    | some made =>
      obtain ⟨r, t, v⟩ := made
      have h1 := (PipesMade.refl w).pipe hstdin
      cases hstdout : v.pipe a.stdoutPipe with
      | none =>
        have hanswer := h1.answers500_iff a c client idx
        have htouched := h1.untouched_iff a c client idx
        simp [hanswer, htouched, hstdout]
      | some made' =>
        obtain ⟨r', t', u⟩ := made'
        have h2 := h1.pipe hstdout
        cases hfork : a.fork with
        | none =>
          have hclosed := (((h2.closeFd (f := r) (by simp)).closeFd (f := t) (by simp)).closeFd (f := r')
            (by simp)).closeFd (f := t') (by simp)
          have hnil : (((([] ++ [r] ++ [t] ++ [r'] ++ [t']).erase r).erase t).erase r').erase t' = [] := by
            simp
          rw [hnil] at hclosed
          have huntouched := hclosed.untouched_iff a c client idx
          simp [huntouched, hstdout]
        | some pid =>
          have hmade := ((h2.forked pid).closeFd (f := r) (by simp)).closeFd (f := t') (by simp)
          have hstarted := started_not_answers500 a c client hmade pid t r'
          simp [hstarted, hstdout]

/-- A request to a script, on the only connection of the server. -/
def askingClient : Client :=
  { fd := 4, request := { state := .parssingComplete, method := ascii "GET", requestTarget := ascii "/a.py" } }

def askedServer : World where
  configs := [{ routes := [{ cgiExtension := ascii ".py" }] }]
  serverFds := [⟨3, 8080, 0⟩]
  pollFds := [⟨3, { pollin := true }, {}⟩, ⟨4, { pollin := true }, {}⟩]
  clients := Std.ExtTreeMap.empty.insert 4 askingClient
  opened := [3, 4]

/-- With two descriptors left the first pipe takes them, and keeps them. -/
theorem first_pipe_kept :
    let w' := askedServer.dispatchCgi { stdinPipe := some (5, 6) } 4 askingClient 1
    ¬ (Answers500 askedServer w' { stdinPipe := some (5, 6) } 4 askingClient →
      Untouched askedServer w' 4 askingClient 1) := by
  intro w' h
  have hpipe : askedServer.pipe (some (5, 6)) = some (5, 6, (askedServer.openFd 5).openFd 6) := by rfl
  have hmade := (PipesMade.refl askedServer).pipe hpipe
  have hfailed : w' = ((askedServer.openFd 5).openFd 6).dispatchFailed { stdinPipe := some (5, 6) } 4
      askingClient 1 := by rfl
  rw [hfailed] at h
  have hanswered : ¬ ErrorThrows ({} : FileSystem) (askedServer.config askingClient) 500 := by decide
  have hempty := (hmade.untouched_iff _ 4 askingClient 1).mp
    (h ((hmade.answers500_iff _ 4 askingClient 1).mpr hanswered))
  simp at hempty

end WebServ.World
