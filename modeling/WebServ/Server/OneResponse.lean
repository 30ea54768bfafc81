import WebServ.Server.Steps

/-! # One response on a connection

From its acceptance on, a connection decides on one request, begins one response
and sends a front part of it. Reading goes on while a response is sent, so this
holds only as long as nothing that is read then is taken for a new request or for
the end of the connection.
-/
namespace WebServ
open Search World HTTPHandler

/-! ## What a connection answers -/

def Event.isAccepted : Event → Bool
  | .accepted _ false => true
  | _ => false

/-- What happened since the connection was accepted. -/
def connectionRun (history : List Event) : List Event := sinceLast Event.isAccepted history

/-- A request was answered, or a script was chosen for it. -/
def Event.decides : Event → Bool
  | .requestRead _ _ outcome => outcome = .answered || outcome = .dispatched
  | _ => false

/-- A response is stored, or the head of a streamed one is queued. -/
def Event.begins : Event → Bool
  | .responded .. | .streamed _ true _ => true
  | _ => false

def Event.responseBytes : Event → Bytes
  | .responded _ response => response
  | .streamed _ _ bytes => bytes
  | _ => []

def Event.sentBytes : Event → Bytes
  | .sent _ _ bytes => bytes
  | _ => []

/-- Neither is a begun response followed by anything but incomplete input, nor is the
connection's number given to another one. -/
def Event.calm : Event → Bool
  | .requestRead _ answered outcome => !answered || outcome = .wait
  | .accepted _ known => !known
  | _ => true

section
variable (es : List Event)

def decisions : ℕ := es.countP Event.decides
def begun : ℕ := es.countP Event.begins
def responseBytes : Bytes := es.flatMap Event.responseBytes
def sentBytes : Bytes := es.flatMap Event.sentBytes

end

section
variable (e : Event) (es fs : List Event)

@[simp] theorem decisions_nil : decisions [] = 0 := rfl
@[simp] theorem begun_nil : begun [] = 0 := rfl
@[simp] theorem responseBytes_nil : responseBytes [] = [] := rfl
@[simp] theorem sentBytes_nil : sentBytes [] = [] := rfl
@[simp] theorem decisions_cons : decisions (e :: es) = decisions es + if e.decides then 1 else 0 := List.countP_cons
@[simp] theorem begun_cons : begun (e :: es) = begun es + if e.begins then 1 else 0 := List.countP_cons
@[simp] theorem responseBytes_cons : responseBytes (e :: es) = e.responseBytes ++ responseBytes es := rfl
@[simp] theorem sentBytes_cons : sentBytes (e :: es) = e.sentBytes ++ sentBytes es := rfl
@[simp] theorem decisions_append : decisions (es ++ fs) = decisions es + decisions fs := List.countP_append
@[simp] theorem begun_append : begun (es ++ fs) = begun es + begun fs := List.countP_append
@[simp] theorem responseBytes_append : responseBytes (es ++ fs) = responseBytes es ++ responseBytes fs :=
  List.flatMap_append
@[simp] theorem sentBytes_append : sentBytes (es ++ fs) = sentBytes es ++ sentBytes fs := List.flatMap_append

end

/-- Events that neither decide, begin, add to a response nor send, and end nothing. -/
structure Neutral (c : Fd) (es : List Event) : Prop where
  decisions : decisions es = 0
  begun : begun es = 0
  responseBytes : responseBytes es = []
  sentBytes : sentBytes es = []
  dispatched : ∀ stdin stdout, .dispatched c stdin stdout ∉ es
  staying : ∀ reason, .removed c reason ∉ es

theorem Neutral.of_silent {c : Fd} {es : List Event} (h : ∀ e ∈ es, e.silent = true) : Neutral c es := by
  have hquiet (e : Event) (he : e ∈ es) : e.decides = false ∧ e.begins = false ∧ e.responseBytes = [] ∧
      e.sentBytes = [] := by
    have hs := h e he
    cases e with
    | requestRead _ _ outcome => cases outcome <;> first | exact ⟨rfl, rfl, rfl, rfl⟩ | cases hs
    | _ => first | exact ⟨rfl, rfl, rfl, rfl⟩ | cases hs
  refine ⟨?_, ?_, ?_, ?_, fun stdin stdout he => ?_, fun reason he => ?_⟩
  · simpa [WebServ.decisions] using fun e he => (hquiet e he).1
  · simpa [WebServ.begun] using fun e he => (hquiet e he).2.1
  · simpa [WebServ.responseBytes] using fun e he => (hquiet e he).2.2.1
  · simpa [WebServ.sentBytes] using fun e he => (hquiet e he).2.2.2
  · cases h _ he
  · cases h _ he

/-- The response says that the connection is closed after it. -/
def Closes (r : HTTPResponse) : Prop := r.headers[ascii "Connection"]? = some (ascii "close")

/-- A script that was started has been finished. -/
def ScriptDone (c : Fd) (es : List Event) : Prop :=
  (∃ stdin stdout, .dispatched c stdin stdout ∈ es) → .finalized c ∈ es

/-- One request is decided on, one response begun; a front part of it is sent, and all of it
before the connection ends, unless that was forced. -/
structure OneResponse (c : Fd) (es : List Event) : Prop where
  decided : decisions es ≤ 1
  begun : begun es ≤ decisions es
  closes : ∀ e ∈ es, e.begins → ∃ r, Closes r ∧ responseBytes es = r.toString
  sent : sentBytes es <+: responseBytes es
  complete : ∀ reason, .removed c reason ∈ es → ¬reason.forced → (∃ e ∈ es, e.begins) →
    sentBytes es = responseBytes es ∧ ScriptDone c es

/-! ## How far a connection has come -/

inductive Progress (es : List Event) (client : Client) : Prop
  | unanswered (ha : client.cgiActive = false) (hh : client.cgiHeadersSent = false)
      (hr : client.response = []) (hd : decisions es = 0) (hb : begun es = 0)
      (hR : responseBytes es = []) (hS : sentBytes es = [])
  | running (ha : client.cgiActive = true) (hh : client.cgiHeadersSent = false)
      (hr : client.response = []) (hd : decisions es = 1) (hb : begun es = 0)
      (hR : responseBytes es = []) (hS : sentBytes es = [])
  | streaming (r : HTTPResponse) (hc : Closes r) (hh : client.cgiHeadersSent = true)
      (hr : client.response = []) (hd : decisions es = 1) (hb : begun es = 1)
      (hR : responseBytes es = r.toString)
      (hS : sentBytes es ++ client.cgiSendPending.pending = responseBytes es)
  | responded (r : HTTPResponse) (hc : Closes r) (ha : client.cgiActive = false)
      (hh : client.cgiHeadersSent = false) (hr : client.response = r.toString) (hd : decisions es = 1)
      (hb : begun es = 1) (hR : responseBytes es = r.toString)
      (hS : sentBytes es = client.response.take client.responseOffset)

/-- What an open connection keeps. -/
structure Alive (c : Fd) (es : List Event) (client : Client) : Prop where
  sound : client.Sound c
  progress : Progress es client
  staying : ∀ reason, .removed c reason ∉ es
  done : client.cgiActive = false → ScriptDone c es

theorem toString_ne_nil (r : HTTPResponse) : r.toString ≠ [] := by
  simp [HTTPResponse.toString, HTTPResponse.headerToString, crlf_ne_nil]

theorem closing_closes (r : HTTPResponse) : Closes (closing r) := by
  simp [Closes, closing, HTTPResponse.setHeader]

theorem Progress.oneResponse {c : Fd} {es : List Event} {client : Client} (h : Progress es client)
    (hcomplete : ∀ reason, .removed c reason ∈ es → ¬reason.forced → (∃ e ∈ es, e.begins) →
      sentBytes es = responseBytes es ∧ ScriptDone c es) : OneResponse c es := by
  have hnone (hb : begun es = 0) : ∀ e ∈ es, ¬e.begins := by simpa [begun] using hb
  cases h with
  | unanswered ha hh hr hd hb hR hS =>
    exact ⟨by omega, by omega, fun e he hbe => absurd hbe (hnone hb e he), by simp [hS], hcomplete⟩
  | running ha hh hr hd hb hR hS =>
    exact ⟨by omega, by omega, fun e he hbe => absurd hbe (hnone hb e he), by simp [hS], hcomplete⟩
  | streaming r hc hh hr hd hb hR hS =>
    exact ⟨by omega, by omega, fun _ _ _ => ⟨r, hc, hR⟩, ⟨_, hS⟩, hcomplete⟩
  | responded r hc ha hh hr hd hb hR hS =>
    refine ⟨by omega, by omega, fun _ _ _ => ⟨r, hc, hR⟩, ?_, hcomplete⟩
    rw [hS, hR, hr]
    exact List.take_prefix _ _

section
variable {c : Fd} {es fs : List Event} {client client' : Client}

theorem ScriptDone.append (h : ScriptDone c es) (hf : ∀ stdin stdout, .dispatched c stdin stdout ∉ fs) :
    ScriptDone c (es ++ fs) := by
  rintro ⟨stdin, stdout, he⟩
  rcases List.mem_append.mp he with he | he
  · exact List.mem_append_left _ (h ⟨stdin, stdout, he⟩)
  · exact absurd he (hf stdin stdout)

theorem Progress.of_neutral (h : Progress es client) (hn : Neutral c fs) (ho : client.SameOutput client') :
    Progress (es ++ fs) client' := by
  obtain ⟨hd', hb', hR', hS', -, -⟩ := hn
  cases h with
  | unanswered ha hh hr hd hb hR hS =>
    exact .unanswered (ho.active.trans ha) (ho.headersSent.trans hh) (ho.response.trans hr) (by simp [*])
      (by simp [*]) (by simp [*]) (by simp [*])
  | running ha hh hr hd hb hR hS =>
    exact .running (ho.active.trans ha) (ho.headersSent.trans hh) (ho.response.trans hr) (by simp [*])
      (by simp [*]) (by simp [*]) (by simp [*])
  | streaming r hc hh hr hd hb hR hS =>
    exact .streaming r hc (ho.headersSent.trans hh) (ho.response.trans hr) (by simp [*]) (by simp [*])
      (by simp [*]) (by simp [ho.sendPending, *])
  | responded r hc ha hh hr hd hb hR hS =>
    exact .responded r hc (ho.active.trans ha) (ho.headersSent.trans hh) (ho.response.trans hr) (by simp [*])
      (by simp [*]) (by simp [*]) (by simp [ho.response, ho.responseOffset, *])

theorem Alive.of_neutral (h : Alive c es client) (hn : Neutral c fs) (ho : client.SameOutput client') :
    Alive c (es ++ fs) client' where
  sound := h.sound.of_same ho
  progress := h.progress.of_neutral hn ho
  staying reason he := (List.mem_append.mp he).elim (h.staying reason) (hn.staying reason)
  done ha := (h.done (ho.active ▸ ha)).append hn.dispatched

theorem Alive.oneResponse (h : Alive c es client) : OneResponse c es :=
  h.progress.oneResponse fun reason he => absurd he (h.staying reason)

theorem Alive.next (h : Alive c es client) (hs : client'.Sound c) (hp : Progress (es ++ fs) client')
    (hstay : ∀ reason, .removed c reason ∉ fs) (hd : client'.cgiActive = false → ScriptDone c (es ++ fs)) :
    Alive c (es ++ fs) client' :=
  ⟨hs, hp, fun reason he => (List.mem_append.mp he).elim (h.staying reason) (hstay reason), hd⟩

/-- Without a begun response there was no decision, unless a script runs. -/
theorem Progress.of_not_answered (h : Progress es client) (ha : client.cgiActive = false)
    (hn : ¬Answered client) : decisions es = 0 ∧ begun es = 0 ∧ responseBytes es = [] ∧ sentBytes es = [] := by
  cases h with
  | unanswered ha hh hr hd hb hR hS => exact ⟨hd, hb, hR, hS⟩
  | running ha' => simp [ha] at ha'
  | streaming r hc hh => exact absurd (Or.inr hh) hn
  | responded r hc ha hh hr => exact absurd (Or.inl (hr ▸ toString_ne_nil r)) hn

theorem Progress.of_running (h : Progress es client) (ha : client.cgiActive = true)
    (hh : client.cgiHeadersSent = false) : client.response = [] ∧ decisions es = 1 ∧ begun es = 0 ∧
      responseBytes es = [] ∧ sentBytes es = [] := by
  cases h with
  | unanswered ha' => simp [ha] at ha'
  | running ha hh hr hd hb hR hS => exact ⟨hr, hd, hb, hR, hS⟩
  | streaming r hc hh' => simp [hh] at hh'
  | responded r hc ha' => simp [ha] at ha'

theorem Progress.of_streaming (h : Progress es client) (hh : client.cgiHeadersSent = true) :
    ∃ r, Closes r ∧ client.response = [] ∧ decisions es = 1 ∧ begun es = 1 ∧ responseBytes es = r.toString ∧
      sentBytes es ++ client.cgiSendPending.pending = responseBytes es := by
  cases h with
  | unanswered ha hh' => simp [hh] at hh'
  | running ha hh' => simp [hh] at hh'
  | streaming r hc hh hr hd hb hR hS => exact ⟨r, hc, hr, hd, hb, hR, hS⟩
  | responded r hc ha hh' => simp [hh] at hh'

theorem Progress.of_drained (h : Progress es client) (hd : Drained client) : sentBytes es = responseBytes es := by
  obtain ⟨ha, hp, hend⟩ := hd
  cases h with
  | unanswered ha hh hr hd hb hR hS => rw [hS, hR]
  | running ha' => simp [ha] at ha'
  | streaming r hc hh hr hd hb hR hS => simpa [hp] using hS
  | responded r hc ha hh hr hd hb hR hS =>
    have hlen : client.response.length ≤ client.responseOffset := by simpa [hh, hr, toString_ne_nil] using hend
    rw [hS, List.take_of_length_le hlen, hR, hr]

/-- Queued bytes were sent; there are such bytes only of a streamed response. -/
theorem Progress.of_sentPending (h : Progress es client) (hs : client.Sound c) (d : Fd) (now : ℕ) {sent : ℕ}
    (hsent : sent ≤ client.cgiSendPending.size) :
    Progress (es ++ [.sent d true (client.cgiSendPending.pending.take sent)])
      ((client.consumeCgiSendPending sent hsent).updateActivity now) := by
  cases h with
  | unanswered ha hh hr hd hb hR hS =>
    exact .unanswered ha hh hr (by simp [hd, Event.decides]) (by simp [hb, Event.begins])
      (by simp [hR, Event.responseBytes]) (by simp [hS, Event.sentBytes, hs.queued hh])
  | running ha hh hr hd hb hR hS =>
    exact .running ha hh hr (by simp [hd, Event.decides]) (by simp [hb, Event.begins])
      (by simp [hR, Event.responseBytes]) (by simp [hS, Event.sentBytes, hs.queued hh])
  | streaming r hc hh hr hd hb hR hS =>
    exact .streaming r hc hh hr (by simp [hd, Event.decides]) (by simp [hb, Event.begins])
      (by simp [hR, Event.responseBytes])
      (by simp [← hS, Event.sentBytes, Event.responseBytes, Client.consumeCgiSendPending, Client.updateActivity])
  | responded r hc ha hh hr hd hb hR hS =>
    exact .responded r hc ha hh hr (by simp [hd, Event.decides]) (by simp [hb, Event.begins])
      (by simp [hR, Event.responseBytes]) (by simp [hS, Event.sentBytes, hs.queued hh,
        Client.consumeCgiSendPending, Client.updateActivity])

theorem Progress.of_sentResponse (h : Progress es client) (d : Fd) (now sent : ℕ)
    (ha : client.cgiActive = false) (hh : client.cgiHeadersSent = false) :
    Progress (es ++ [.sent d false ((client.response.drop client.responseOffset).take sent)])
      ((client.advanceResponseOffset sent).updateActivity now) := by
  cases h with
  | unanswered ha hh hr hd hb hR hS =>
    exact .unanswered ha hh hr (by simp [hd, Event.decides]) (by simp [hb, Event.begins])
      (by simp [hR, Event.responseBytes]) (by simp [hS, Event.sentBytes, hr])
  | running ha' => simp [ha] at ha'
  | streaming r hc hh' => simp [hh] at hh'
  | responded r hc ha hh hr hd hb hR hS =>
    refine .responded r hc ha hh hr (by simp [hd, Event.decides]) (by simp [hb, Event.begins])
      (by simp [hR, Event.responseBytes]) ?_
    simp [hS, Event.sentBytes, Client.advanceResponseOffset, Client.updateActivity, List.take_add]

/-! ### Output of the script -/

theorem Progress.of_outputPart (h : Progress es client) (d : Fd) (bytes : Bytes) (ha : client.cgiActive = true)
    (hs : client.cgiHeadersSent = false) : Progress (es ++ [.cgiRead d bytes]) (client.appendCgiOutput bytes) := by
  obtain ⟨hr, hd, hb, hR, hS⟩ := h.of_running ha hs
  exact .running ha hs hr (by simp [hd, Event.decides]) (by simp [hb, Event.begins])
    (by simp [hR, Event.responseBytes]) (by simp [hS, Event.sentBytes])

/-- The header is complete: the response begins with it. -/
theorem Progress.of_outputHead (h : Progress es client) (hsound : client.Sound c) (d : Fd)
    (bytes headerPart body : Bytes) (ha : client.cgiActive = true) (hs : client.cgiHeadersSent = false) :
    Progress (es ++ [.cgiRead d bytes, .streamed d true (cgiHead headerPart ++ body)])
      { ((client.appendCgiOutput bytes).appendCgiSendPending (cgiHead headerPart)).appendCgiSendPending body with
        cgiHeadersSent := true } := by
  obtain ⟨hr, hd, hb, hR, hS⟩ := h.of_running ha hs
  have hpend := hsound.queued hs
  refine .streaming { closing (parseCgiHeaders headerPart) with body } (closing_closes _) rfl hr ?_ ?_ ?_ ?_
  · simp [hd, Event.decides]
  · simp [hb, Event.begins]
  · simp [hR, Event.responseBytes, cgiHead, HTTPResponse.toString, HTTPResponse.headerToString]
  · simp [hR, hS, Event.responseBytes, Event.sentBytes, hpend, Client.appendCgiOutput, Client.appendCgiSendPending]

theorem Progress.of_outputBody (h : Progress es client) (d : Fd) (bytes : Bytes)
    (hs : client.cgiHeadersSent = true) :
    Progress (es ++ [.cgiRead d bytes, .streamed d false bytes]) (client.appendCgiSendPending bytes) := by
  obtain ⟨r, hc, hr, hd, hb, hR, hS⟩ := h.of_streaming hs
  refine .streaming { r with body := r.body ++ bytes } hc hs hr ?_ ?_ ?_ ?_
  · simp [hd, Event.decides]
  · simp [hb, Event.begins]
  · simp [hR, Event.responseBytes, HTTPResponse.toString, HTTPResponse.headerToString]
  · simp [← hS, Event.responseBytes, Event.sentBytes, Client.appendCgiSendPending]

theorem Progress.of_streamEnded (h : Progress es client) (d : Fd) (stdinOpen : Bool)
    (hs : client.cgiHeadersSent = true) :
    Progress (es ++ [.cgiEnded d stdinOpen, .finalized d]) { client.clearBuffer with
      cgiStdoutFd := none, cgiStdinFd := none, cgiPid := none, cgiActive := false } := by
  obtain ⟨r, hc, hr, hd, hb, hR, hS⟩ := h.of_streaming hs
  exact .streaming r hc hs hr (by simp [hd, Event.decides]) (by simp [hb, Event.begins])
    (by simp [hR, Event.responseBytes])
    (by simp [← hS, Event.responseBytes, Event.sentBytes, Client.clearBuffer])

theorem Progress.of_outputFallback (h : Progress es client) (d : Fd) (stdinOpen : Bool) (response : HTTPResponse)
    (ha : client.cgiActive = true) (hs : client.cgiHeadersSent = false) :
    Progress (es ++ [.cgiEnded d stdinOpen, .responded d (closing response).toString, .finalized d])
      { (client.setResponse (closing response).toString).clearBuffer with
        cgiStdoutFd := none, cgiStdinFd := none, cgiPid := none, cgiActive := false } := by
  obtain ⟨-, hd, hb, hR, hS⟩ := h.of_running ha hs
  exact .responded (closing response) (closing_closes _) rfl hs rfl (by simp [hd, Event.decides])
    (by simp [hb, Event.begins]) (by simp [hR, Event.responseBytes])
    (by simp [hS, Event.sentBytes, Client.clearBuffer, Client.setResponse])

/-! ### Decisions on requests -/

theorem Progress.of_answered (h : Progress es client) {outcome : ReadOutcome} (d : Fd) (response : HTTPResponse)
    (hd : outcome = .answered ∨ outcome = .dispatched) (ha : client.cgiActive = false) (hn : ¬ Answered client)
    (ho : client.SameOutput client') :
    Progress (es ++ [.requestRead d (Answered client) outcome, .responded d (closing response).toString])
      (client'.setResponse (closing response).toString).clearBuffer := by
  obtain ⟨hd₀, hb₀, hR₀, hS₀⟩ := h.of_not_answered ha hn
  simp only [Answered, not_or, Bool.not_eq_true] at hn
  exact .responded (closing response) (closing_closes _) (ho.active.trans ha) (ho.headersSent.trans hn.2) rfl
    (by rcases hd with rfl | rfl <;> simp [hd₀, Event.decides]) (by simp [hb₀, Event.begins])
    (by simp [hR₀, Event.responseBytes])
    (by simp [hS₀, Event.sentBytes, Client.clearBuffer, Client.setResponse])

theorem Progress.of_dispatched (h : Progress es client) (d stdin stdout : Fd) (body : Bytes) (taken : ℕ)
    (ha : client.cgiActive = false) (hn : ¬ Answered client) (hst : client.Started client') :
    Progress (es ++ [.requestRead d (Answered client) .dispatched, .dispatched d stdin stdout,
      .forwarded d [] body taken]) client' := by
  obtain ⟨hd₀, hb₀, hR₀, hS₀⟩ := h.of_not_answered ha hn
  simp only [Answered, not_or, not_not] at hn
  exact .running hst.active hst.headersSent (hst.response.trans hn.1) (by simp [hd₀, Event.decides])
    (by simp [hb₀, Event.begins]) (by simp [hR₀, Event.responseBytes]) (by simp [hS₀, Event.sentBytes])

/-! ### The end -/

/-- The end of a connection adds nothing to what was answered on it. -/
theorem OneResponse.ends (h : OneResponse c es) (hd : decisions fs = 0) (hb : WebServ.begun fs = 0)
    (hR : responseBytes fs = []) (hS : sentBytes fs = []) (hf : ∀ stdin stdout, .dispatched c stdin stdout ∉ fs)
    (hcomplete : ∀ reason, .removed c reason ∈ fs → ¬reason.forced → (∃ e ∈ es, e.begins) →
      sentBytes es = responseBytes es ∧ ScriptDone c es) : OneResponse c (es ++ fs) := by
  have hbegins (e : Event) (he : e ∈ es ++ fs) (hbe : e.begins) : e ∈ es := by
    have hnone : ∀ e ∈ fs, ¬e.begins := by simpa [WebServ.begun] using hb
    exact (List.mem_append.mp he).resolve_right fun he => hnone e he hbe
  constructor
  · simpa [hd] using h.decided
  · simpa [hd, hb] using h.begun
  · intro e he hbe
    simpa [hR] using h.closes e (hbegins e he hbe) hbe
  · simpa [hR, hS] using h.sent
  · rintro reason he hforced ⟨e, hes, hbe⟩
    have hbegun : ∃ e ∈ es, e.begins := ⟨e, hbegins e hes hbe, hbe⟩
    have hall : sentBytes es = responseBytes es ∧ ScriptDone c es :=
      (List.mem_append.mp he).elim (fun he => h.complete reason he hforced hbegun)
        fun he => hcomplete reason he hforced hbegun
    simp only [sentBytes_append, responseBytes_append, hS, hR, List.append_nil]
    exact ⟨hall.1, hall.2.append hf⟩

end

section
variable {configs : List ServerConfig} {files : FileSystem} {c : Fd} {es fs : List Event} {client client' : Client}

/-- A calm step that ends a connection. -/
theorem Alive.ends (h : Alive c es client) (hstep : Connection.Step configs files c (some client) fs none)
    (hcalm : ∀ e ∈ fs, e.calm) : OneResponse c (es ++ fs) := by
  cases hstep with
  | removed o hr =>
    refine h.oneResponse.ends rfl rfl rfl rfl (by simp) ?_
    rintro reason he hforced -
    simp only [List.mem_singleton, Event.removed.injEq, true_and] at he
    exact absurd (he ▸ hr) hforced
  | closedByRead reason ha =>
    have hn : ¬ Answered client := by simpa [Event.calm] using hcalm
    obtain ⟨-, hb, -, -⟩ := h.progress.of_not_answered ha hn
    refine h.oneResponse.ends rfl rfl rfl rfl (by simp) ?_
    rintro _ - - ⟨e, he, hbe⟩
    simp only [begun, List.countP_eq_zero] at hb
    exact absurd hbe (hb e he)
  | completed hd =>
    refine h.oneResponse.ends rfl rfl rfl rfl (by simp) ?_
    exact fun _ _ _ _ => ⟨h.progress.of_drained hd, h.done hd.1⟩

/-- A calm step that an open connection survives. -/
theorem Alive.step (h : Alive c es client) (hstep : Connection.Step configs files c (some client) fs (some client'))
    (hcalm : ∀ e ∈ fs, e.calm) : Alive c (es ++ fs) client' := by
  have hsound := hstep.sound (by simpa using h.sound) _ rfl
  cases hstep with
  | acceptedAgain client => simp [Event.calm] at hcalm
  | idle fs ho hp hs => exact h.of_neutral (.of_silent hs) ho
  | forwarded piece taken ha ho hp => exact h.of_neutral ⟨rfl, rfl, rfl, rfl, by simp, by simp⟩ ho
  | flushed own pieces ho hp =>
    refine h.of_neutral ⟨?_, ?_, ?_, ?_, by simp, by simp⟩ ho
    · simp [decisions, Event.decides]
    · simp [begun, Event.begins]
    · simp [responseBytes, Event.responseBytes]
    · simp [sentBytes, Event.sentBytes]
  | outputPart bytes ha hs hc =>
    exact h.next hsound (h.progress.of_outputPart c bytes ha hs) (by simp) fun hn => absurd (ha.symm.trans hn) nofun
  | outputHead ha hs hc =>
    exact h.next hsound (h.progress.of_outputHead h.sound c _ _ _ ha hs) (by simp)
      fun hn => absurd (ha.symm.trans hn) nofun
  | outputBody bytes ha hs =>
    exact h.next hsound (h.progress.of_outputBody c bytes hs) (by simp) fun hn => absurd (ha.symm.trans hn) nofun
  | streamEnded stdinOpen ha hs =>
    exact h.next hsound (h.progress.of_streamEnded c stdinOpen hs) (by simp) fun _ _ => by simp
  | outputFallback stdinOpen ha hs hr =>
    exact h.next hsound (h.progress.of_outputFallback c stdinOpen _ ha hs) (by simp) fun _ _ => by simp
  | answered outcome response hd ha ho =>
    have hn : ¬ Answered client := by
      rcases hd with rfl | rfl <;> simpa [Event.calm] using hcalm
    exact h.next hsound (h.progress.of_answered c response hd ha hn ho) (by simp)
      fun _ => (h.done ha).append (by simp)
  | dispatched stdin stdout body taken ha hst hp =>
    have hn : ¬ Answered client := by simpa [Event.calm] using hcalm
    exact h.next hsound (h.progress.of_dispatched c stdin stdout body taken ha hn hst) (by simp)
      fun hn => absurd (hst.active.symm.trans hn) nofun
  | sentPending now sent hs =>
    exact h.next hsound (h.progress.of_sentPending h.sound c now hs) (by simp)
      fun hn => (h.done hn).append (by simp)
  | sentResponse now sent ha hs =>
    exact h.next hsound (h.progress.of_sentResponse c now sent ha hs) (by simp)
      fun _ => (h.done ha).append (by simp)

end

/-! ## Whole runs -/

/-- Only a connection without a client is accepted anew. -/
theorem Connection.Step.not_accepted {configs : List ServerConfig} {files : FileSystem} {c : Fd} {client : Client}
    {o : Option Client} {es : List Event} (h : Connection.Step configs files c (some client) es o) :
    es.any Event.isAccepted = false := by
  cases h with
  | idle es ho hp hs =>
    simp only [List.any_eq_false]
    intro e he
    have hsilent := hs e he
    cases e <;> first | exact Bool.false_ne_true | cases hsilent
  | flushed own pieces ho hp => simp [Event.isAccepted]
  | _ => rfl

/-- In calm runs an open connection is on its way to one response, and a closed one is done. -/
def ResponseKept (c : Fd) (history : List Event) (o : Option Client) : Prop :=
  (∀ e ∈ connectionRun history, e.calm) →
    (∀ client ∈ o, Alive c (connectionRun history) client) ∧ (o = none → OneResponse c (connectionRun history))

theorem connectionRun_append {history es : List Event} (h : es.any Event.isAccepted = false) :
    connectionRun (history ++ es) = connectionRun history ++ es := sinceLast_append (by simpa using h)

theorem ResponseKept.step {configs : List ServerConfig} {files : FileSystem} {c : Fd} {history es : List Event}
    {o o' : Option Client} (hk : ResponseKept c history o) (hstep : Connection.Step configs files c o es o') :
    ResponseKept c (history ++ es) o' := by
  cases o with
  | none =>
    cases hstep with
    | accepted serverIndex now =>
      have hrun : connectionRun (history ++ [.accepted c false]) = [] := sinceLast_append_singleton _
      rw [ResponseKept, hrun]
      refine fun _ => ⟨?_, nofun⟩
      rintro _ ⟨⟩
      exact ⟨⟨rfl, fun _ => ⟨rfl, rfl⟩, fun _ => rfl⟩, .unanswered rfl rfl rfl rfl rfl rfl rfl, by simp,
        by simp [ScriptDone]⟩
    | @removed _ reason hr =>
      rw [ResponseKept, connectionRun_append rfl]
      intro hcalm
      have hone := (hk fun e he => hcalm e (List.mem_append_left _ he)).2 rfl
      refine ⟨by simp, fun _ => hone.ends rfl rfl rfl rfl (by simp) ?_⟩
      rintro reason' he hforced -
      simp only [List.mem_singleton, Event.removed.injEq, true_and] at he
      exact absurd (he ▸ hr) hforced
  | some client =>
    have hany : es.any Event.isAccepted = false := hstep.not_accepted
    rw [ResponseKept, connectionRun_append hany]
    intro hcalm
    obtain ⟨halive, -⟩ := hk fun e he => hcalm e (List.mem_append_left _ he)
    have hnew (e : Event) (he : e ∈ es) : e.calm := hcalm e (List.mem_append_right _ he)
    refine ⟨?_, ?_⟩
    · rintro client' rfl
      exact (halive client rfl).step hstep hnew
    · rintro rfl
      exact (halive client rfl).ends hstep hnew

/-- On every connection one request is decided on and one response begun, which says that the
connection closes; a front part of it is sent, and all of it unless the end is forced. -/
theorem one_response {s : LoopState} (h : Reachable s) (c : Fd)
    (hcalm : ∀ e ∈ connectionRun (s.world.history c), e.calm) :
    OneResponse c (connectionRun (s.world.history c)) := by
  have hstart : ResponseKept c [] none := fun _ => ⟨by simp, fun _ => ⟨by decide, by decide, by simp [connectionRun],
    by simp [connectionRun], by simp [connectionRun]⟩⟩
  have hkept := (h.connection c).invariant (fun hk ⟨_, hs⟩ => hk.step hs) hstart
  rw [List.nil_append] at hkept
  obtain ⟨halive, hdead⟩ := hkept hcalm
  cases hg : s.world.getClient c with
  | none => exact hdead hg
  | some client => exact (halive client hg).oneResponse

/-- A request whose response is sent in two pieces, the rest of it whole. -/
def answeredOnce : List Answers :=
  connects ++ sends 2 (ascii "GET / HTTP/1.1\r\n\r\n") ++
    pass 2 [{}, { pollout := true }] { sends := [.accepted 5] } ++
    pass 2 [{}, { pollout := true }] { sends := [.accepted 1000] }

theorem one_response_once : OneResponse 4 (connectionRun ((scriptStart.run answeredOnce).world.history 4)) :=
  one_response (scriptStart_reachable answeredOnce) 4 (by decide +kernel)

/-- A second request while the first response is sent in part. -/
def answeredTwice : List Answers :=
  connects ++ sends 2 (ascii "GET / HTTP/1.1\r\n\r\n") ++
    pass 2 [{}, { pollout := true }] { sends := [.accepted 5] } ++
    sends 2 (ascii "GET / HTTP/1.1\r\n\r\n") ++
    pass 2 [{}, { pollout := true }] { sends := [.accepted 5] }

/-- The second response starts over before the first one is sent. -/
theorem response_restarted :
    ¬ ∀ s, Reachable s → ∀ c, OneResponse c (connectionRun (s.world.history c)) := by
  intro h
  have hsent := (h _ (scriptStart_reachable answeredTwice) 4).sent
  revert hsent
  decide +kernel

end WebServ
