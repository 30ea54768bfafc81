import WebServ.Server.Steps

/-! # The output of scripts

While a script runs, what was sent for it and what is still queued is the head made
from its header lines and the rest of its output; before its header is complete
nothing is queued.
-/
namespace WebServ
open Search World HTTPHandler

def Event.outputBytes : Event → Bytes
  | .cgiRead _ bytes => bytes
  | _ => []

def Event.cgiSentBytes : Event → Bytes
  | .sent _ true bytes => bytes
  | _ => []

/-- All that was read from the last script of a connection. -/
def scriptOutput (history : List Event) : Bytes := (scriptRun history).flatMap Event.outputBytes

/-- All that was sent for the last script of a connection while it was streamed. -/
def scriptSent (history : List Event) : Bytes := (scriptRun history).flatMap Event.cgiSentBytes

/-- The events of a step that neither reads from the script nor sends for it. -/
def Event.noOutput (e : Event) : Prop := e.isDispatched = false ∧ e.outputBytes = [] ∧ e.cgiSentBytes = []

theorem Event.noOutput_of_silent {e : Event} (h : e.silent = true) : e.noOutput := by
  cases e with
  | bodyRead => exact ⟨rfl, rfl, rfl⟩
  | inputEnded => exact ⟨rfl, rfl, rfl⟩
  | requestRead => exact ⟨rfl, rfl, rfl⟩
  | _ => cases h

section
variable {h : List Event} {es : List Event}

theorem scriptOutput_append (hes : es.any Event.isDispatched = false) :
    scriptOutput (h ++ es) = scriptOutput h ++ es.flatMap Event.outputBytes :=
  flatMap_sinceLast_append _ hes

theorem scriptSent_append (hes : es.any Event.isDispatched = false) :
    scriptSent (h ++ es) = scriptSent h ++ es.flatMap Event.cgiSentBytes :=
  flatMap_sinceLast_append _ hes

theorem scriptOutput_quiet (hes : ∀ e ∈ es, e.noOutput) : scriptOutput (h ++ es) = scriptOutput h := by
  have hany : es.any Event.isDispatched = false := by simpa using fun e he => (hes e he).1
  have hnil : es.flatMap Event.outputBytes = [] := List.flatMap_eq_nil_iff.mpr fun e he => (hes e he).2.1
  rw [scriptOutput_append hany, hnil, List.append_nil]

theorem scriptSent_quiet (hes : ∀ e ∈ es, e.noOutput) : scriptSent (h ++ es) = scriptSent h := by
  have hany : es.any Event.isDispatched = false := by simpa using fun e he => (hes e he).1
  have hnil : es.flatMap Event.cgiSentBytes = [] := List.flatMap_eq_nil_iff.mpr fun e he => (hes e he).2.2
  rw [scriptSent_append hany, hnil, List.append_nil]

end

/-- What a client keeps of the output of its script, while the script runs. -/
def Streaming (history : List Event) (client : Client) : Prop :=
  if client.cgiHeadersSent then ∃ headerPart rest,
    cutLine (ascii "\r\n\r\n") (scriptOutput history) = some (headerPart, rest) ∧
    scriptSent history ++ client.cgiSendPending.pending = cgiHead headerPart ++ rest
  else client.cgiOutput = scriptOutput history ∧
    cutLine (ascii "\r\n\r\n") (scriptOutput history) = none ∧ scriptSent history = []

/-- What a finished script leaves: a stream that goes on, or a response made with what the file system
answers in the call that finishes it. -/
def Delivered (files : FileSystem) (configs : List ServerConfig) (history : List Event) (client : Client) : Prop :=
  match cutLine (ascii "\r\n\r\n") (scriptOutput history) with
  | some (headerPart, rest) =>
    scriptSent history ++ client.cgiSendPending.pending = cgiHead headerPart ++ rest
  | none => scriptSent history = [] ∧ client.cgiSendPending.pending = [] ∧ ∃ response,
      cgiFallback files ((configs[client.serverIndex]?).getD {}) (scriptOutput history) = some response ∧
      client.response = (closing response).toString

section
variable {h es : List Event} {client client' : Client}

theorem streaming_iff_of_sent (hs : client.cgiHeadersSent = true) : Streaming h client ↔ ∃ headerPart rest,
    cutLine (ascii "\r\n\r\n") (scriptOutput h) = some (headerPart, rest) ∧
    scriptSent h ++ client.cgiSendPending.pending = cgiHead headerPart ++ rest := by
  rw [Streaming, if_pos hs]

theorem streaming_iff_of_not_sent (hs : client.cgiHeadersSent = false) : Streaming h client ↔
    client.cgiOutput = scriptOutput h ∧ cutLine (ascii "\r\n\r\n") (scriptOutput h) = none ∧ scriptSent h = [] := by
  rw [Streaming, if_neg (by simp [hs])]

theorem Streaming.of_quiet (hk : Streaming h client) (hes : ∀ e ∈ es, e.noOutput) (hs : client.SameOutput client') :
    Streaming (h ++ es) client' := by
  unfold Streaming at *
  rwa [scriptOutput_quiet hes, scriptSent_quiet hes, hs.headersSent, hs.sendPending, hs.output]

theorem Delivered.of_same {files : FileSystem} {configs : List ServerConfig} (hd : Delivered files configs h client)
    (hs : client.SameOutput client') : Delivered files configs h client' := by
  unfold Delivered at *
  rwa [hs.sendPending, hs.response, hs.serverIndex]

/-! ### Bytes of a script are read, or sent -/

theorem scriptOutput_read (c : Fd) (bytes : Bytes) (after : List Event)
    (ha : after = [] ∨ ∃ opening sent, after = [.streamed c opening sent]) :
    scriptOutput (h ++ .cgiRead c bytes :: after) = scriptOutput h ++ bytes ∧
      scriptSent (h ++ .cgiRead c bytes :: after) = scriptSent h := by
  rcases ha with rfl | ⟨opening, sent, rfl⟩ <;>
    simp [scriptOutput_append, scriptSent_append, Event.isDispatched, Event.outputBytes, Event.cgiSentBytes]

theorem Streaming.outputPart {c : Fd} {bytes : Bytes} (hk : Streaming h client) (hs : client.cgiHeadersSent = false)
    (hc : cutLine (ascii "\r\n\r\n") (client.cgiOutput ++ bytes) = none) :
    Streaming (h ++ [.cgiRead c bytes]) (client.appendCgiOutput bytes) := by
  obtain ⟨hout, -, hsent⟩ := (streaming_iff_of_not_sent hs).mp hk
  obtain ⟨ho, hn⟩ := scriptOutput_read (h := h) c bytes [] (Or.inl rfl)
  refine (streaming_iff_of_not_sent (by exact hs)).mpr ?_
  rw [ho, hn]
  exact ⟨congrArg (· ++ bytes) hout, hout ▸ hc, hsent⟩

theorem Streaming.outputHead {c : Fd} {bytes headerPart body sent : Bytes} (hk : Streaming h client)
    (hs : client.cgiHeadersSent = false) (hq : client.cgiSendPending.pending = [])
    (hc : cutLine (ascii "\r\n\r\n") (client.cgiOutput ++ bytes) = some (headerPart, body)) :
    Streaming (h ++ [.cgiRead c bytes, .streamed c true sent])
      { ((client.appendCgiOutput bytes).appendCgiSendPending (cgiHead headerPart)).appendCgiSendPending body with
        cgiHeadersSent := true } := by
  obtain ⟨hout, -, hsent⟩ := (streaming_iff_of_not_sent hs).mp hk
  obtain ⟨ho, hn⟩ := scriptOutput_read (h := h) c bytes _ (Or.inr ⟨true, sent, rfl⟩)
  refine (streaming_iff_of_sent rfl).mpr ?_
  rw [ho, hn]
  refine ⟨headerPart, body, hout ▸ hc, ?_⟩
  simp [hsent, Client.appendCgiSendPending, Client.appendCgiOutput, hq]

theorem Streaming.outputBody {c : Fd} {bytes sent : Bytes} (hk : Streaming h client)
    (hs : client.cgiHeadersSent = true) :
    Streaming (h ++ [.cgiRead c bytes, .streamed c false sent]) (client.appendCgiSendPending bytes) := by
  obtain ⟨headerPart, rest, hcut, hsent⟩ := (streaming_iff_of_sent hs).mp hk
  obtain ⟨ho, hn⟩ := scriptOutput_read (h := h) c bytes _ (Or.inr ⟨false, sent, rfl⟩)
  refine (streaming_iff_of_sent (by exact hs)).mpr ?_
  rw [ho, hn]
  refine ⟨headerPart, rest ++ bytes, cutLine_append bytes hcut, ?_⟩
  simp [Client.appendCgiSendPending, ← List.append_assoc, hsent]

theorem Streaming.sentPending {c : Fd} {now sent : ℕ} (hk : Streaming h client)
    (hq : client.cgiHeadersSent = false → client.cgiSendPending.pending = [])
    (hle : sent ≤ client.cgiSendPending.size) :
    Streaming (h ++ [.sent c true (client.cgiSendPending.pending.take sent)])
      ((client.consumeCgiSendPending sent hle).updateActivity now) := by
  have ho : scriptOutput (h ++ [.sent c true (client.cgiSendPending.pending.take sent)]) = scriptOutput h := by
    simp [scriptOutput_append, Event.isDispatched, Event.outputBytes]
  have hn : scriptSent (h ++ [.sent c true (client.cgiSendPending.pending.take sent)]) =
      scriptSent h ++ client.cgiSendPending.pending.take sent := by
    simp [scriptSent_append, Event.isDispatched, Event.cgiSentBytes]
  cases hs : client.cgiHeadersSent with
  | true =>
    obtain ⟨headerPart, rest, hcut, hsent⟩ := (streaming_iff_of_sent hs).mp hk
    refine (streaming_iff_of_sent (by exact hs)).mpr ?_
    rw [ho, hn]
    refine ⟨headerPart, rest, hcut, ?_⟩
    simp [Client.consumeCgiSendPending, Client.updateActivity, hsent]
  | false =>
    obtain ⟨hout, hcut, hsent⟩ := (streaming_iff_of_not_sent hs).mp hk
    refine (streaming_iff_of_not_sent (by exact hs)).mpr ?_
    rw [ho, hn, hq hs, hsent]
    exact ⟨hout, hcut, by simp⟩

/-- A script that was just started has written nothing. -/
theorem streaming_of_started {c stdin stdout : Fd} {answered : Bool} {body : Bytes} {taken : ℕ}
    (hst : client.Started client') :
    Streaming (h ++ [.requestRead c answered .dispatched, .dispatched c stdin stdout, .forwarded c [] body taken])
      client' := by
  have hrun := scriptRun_dispatched h [.requestRead c answered .dispatched] [.forwarded c [] body taken]
    c stdin stdout rfl
  simp only [List.singleton_append] at hrun
  have hnil : cutLine (ascii "\r\n\r\n") [] = none := by decide
  simp [Streaming, scriptOutput, scriptSent, hrun, hst.headersSent, hst.output, Event.outputBytes,
    Event.cgiSentBytes, hnil]

end

/-! ## What the steps of a connection keep -/

/-- The output of the scripts of a connection is accounted for. -/
structure OutputKept (c : Fd) (history : List Event) (o : Option Client) : Prop where
  sound : ∀ client ∈ o, client.Sound c
  streaming : ∀ client ∈ o, client.cgiActive = true → Streaming history client

section
variable {configs : List ServerConfig} {files : FileSystem} {c : Fd} {h es : List Event} {o o' : Option Client}

theorem Streaming.step {client client' : Client} (hk : OutputKept c h (some client))
    (hstep : Connection.Step configs files c (some client) es (some client')) (hact : client'.cgiActive = true) :
    Streaming (h ++ es) client' := by
  have hsound := hk.sound client rfl
  cases hstep with
  | acceptedAgain =>
    refine (hk.streaming client rfl hact).of_quiet ?_ (by constructor <;> simp)
    simp [Event.noOutput, Event.isDispatched, Event.outputBytes, Event.cgiSentBytes]
  | idle _ ho hp hs =>
    exact (hk.streaming client rfl (ho.active ▸ hact)).of_quiet (fun e he => Event.noOutput_of_silent (hs e he)) ho
  | forwarded piece taken ha ho hp =>
    refine (hk.streaming client rfl ha).of_quiet ?_ ho
    simp [Event.noOutput, Event.isDispatched, Event.outputBytes, Event.cgiSentBytes]
  | flushed own pieces ho hp =>
    refine (hk.streaming client rfl (ho.active ▸ hact)).of_quiet ?_ ho
    simp [Event.noOutput, Event.isDispatched, Event.outputBytes, Event.cgiSentBytes]
  | outputPart bytes ha hs hc => exact (hk.streaming client rfl ha).outputPart hs hc
  | outputHead ha hs hc => exact (hk.streaming client rfl ha).outputHead hs (hsound.queued hs) hc
  | outputBody bytes ha hs => exact (hk.streaming client rfl ha).outputBody hs
  | streamEnded stdinOpen ha hs => cases hact
  | outputFallback stdinOpen ha hs hr => cases hact
  | answered outcome response hd ha ho => exact absurd (hact.symm.trans (ho.active.trans ha)) nofun
  | dispatched stdin stdout body taken ha hst hp => exact streaming_of_started hst
  | sentPending now sent hs => exact (hk.streaming client rfl hact).sentPending hsound.queued hs
  | sentResponse now sent ha hs => exact absurd (hact.symm.trans ha) nofun

theorem OutputKept.step (hk : OutputKept c h o) (hstep : Connection.Step configs files c o es o') :
    OutputKept c (h ++ es) o' where
  sound := hstep.sound hk.sound
  streaming := by
    rintro client' rfl hact
    cases o with
    | some client => exact Streaming.step hk hstep hact
    | none =>
      cases hstep with
      | accepted serverIndex now => cases hact

/-- The step that finishes a script. -/
theorem OutputKept.finalized (hk : OutputKept c h o) (hstep : Connection.Step configs files c o es o')
    (hlast : es.getLast? = some (.finalized c)) : ∃ client ∈ o', Delivered files configs (h ++ es) client := by
  cases hstep with
  | @streamEnded client stdinOpen ha hs =>
    obtain ⟨headerPart, rest, hcut, hsent⟩ := (streaming_iff_of_sent hs).mp (hk.streaming client rfl ha)
    refine ⟨_, rfl, ?_⟩
    simpa [Delivered, scriptOutput_append, scriptSent_append, Event.isDispatched, Event.outputBytes,
      Event.cgiSentBytes, hcut, Client.clearBuffer] using hsent
  | @outputFallback client stdinOpen ha hs response hr =>
    obtain ⟨hout, hcut, hsent⟩ := (streaming_iff_of_not_sent hs).mp (hk.streaming client rfl ha)
    refine ⟨_, rfl, ?_⟩
    simp only [Delivered, scriptOutput_append, scriptSent_append, Event.isDispatched, List.any_cons, List.any_nil,
      Bool.or_false, List.flatMap_cons, List.flatMap_nil, Event.outputBytes, Event.cgiSentBytes, List.append_nil,
      hcut, hsent]
    exact ⟨trivial, (hk.sound client rfl).queued hs, response, hout ▸ hr, rfl⟩
  | idle _ ho hp hs => simpa [Event.silent] using hs _ (List.mem_of_getLast? hlast)
  | flushed own pieces ho hp => simpa using List.mem_of_getLast? hlast
  | _ => simp at hlast

/-- A step that adds nothing to the history leaves the output of the client as it is. -/
theorem Connection.Step.of_nil {client : Client} (hstep : Connection.Step configs files c (some client) es o')
    (hes : es = []) : ∃ client', o' = some client' ∧ client.SameOutput client' := by
  cases hstep with
  | idle _ ho hp hs => exact ⟨_, rfl, ho⟩
  | flushed own pieces ho hp => exact ⟨_, rfl, ho⟩
  | _ => cases hes

theorem OutputKept.steps (hk : OutputKept c h o) (hsteps : Connection.Steps configs files c o es o') :
    OutputKept c (h ++ es) o' := hsteps.invariant (fun hk hstep => hk.step hstep) hk

/-- A call that finishes a script. -/
theorem OutputKept.finalized_steps (hk : OutputKept c h o) (hsteps : Connection.Steps configs files c o es o')
    (hlast : es.getLast? = some (.finalized c)) : ∃ client ∈ o', Delivered files configs (h ++ es) client := by
  induction hsteps with
  | refl => cases hlast
  | @tail t u es fs hrun hstep ih =>
    by_cases hfs : fs = []
    · subst hfs
      rw [List.append_nil] at hlast ⊢
      obtain ⟨client, rfl, hd⟩ := ih hlast
      obtain ⟨client', rfl, hsame⟩ := hstep.of_nil rfl
      exact ⟨client', rfl, hd.of_same hsame⟩
    · rw [List.getLast?_append_of_ne_nil _ hfs] at hlast
      rw [← List.append_assoc]
      exact (hk.steps hrun).finalized hstep hlast

/-- Calls that add nothing to the history. -/
theorem Delivered.of_steps {files' : FileSystem} {client : Client} (hd : Delivered files' configs h client)
    (hsteps : Connection.Steps configs files c (some client) es o') (hes : es = []) :
    ∃ client' ∈ o', Delivered files' configs h client' := by
  induction hsteps with
  | refl => exact ⟨client, rfl, hd⟩
  | @tail t u es fs hrun hstep ih =>
    obtain ⟨rfl, rfl⟩ := List.append_eq_nil_iff.mp hes
    obtain ⟨client₁, rfl, hd₁⟩ := ih rfl
    obtain ⟨client₂, rfl, hsame⟩ := hstep.of_nil rfl
    exact ⟨client₂, rfl, hd₁.of_same hsame⟩

end

/-! ## Runs -/

/-- The call behind `bs`, with the answers `a`, is the last one of a run that added to the history of a connection. -/
structure LastActs (s : LoopState) (as : List Answers) (c : Fd) (bs : List Answers) (a : Answers) : Prop where
  isPrefix : bs ++ [a] <+: as
  adds : (s.run bs).world.history c ≠ (s.run (bs ++ [a])).world.history c
  last : (s.run (bs ++ [a])).world.history c = (s.run as).world.history c

theorem Reachable.outputKept {s : LoopState} (h : Reachable s) (c : Fd) :
    OutputKept c (s.world.history c) (s.world.getClient c) := by
  have hstart : OutputKept c [] none := ⟨by simp, by simp⟩
  have hkept := (h.connection c).invariant (fun hk ⟨_, hstep⟩ => hk.step hstep) hstart
  simpa using hkept

/-- What a script wrote reaches its client, however it was read and sent: when the script
is finished, what was sent and what is queued is the head made from its header lines
and the rest, or its whole output is in the response. -/
theorem cgi_output_delivered {w : World} (hw : w.Created) (as : List Answers) (c : Fd)
    (hlast : ((LoopState.run ⟨w, .poll⟩ as).world.history c).getLast? = some (.finalized c)) :
    let t := (LoopState.run ⟨w, .poll⟩ as).world
    ∃ bs a client, LastActs ⟨w, .poll⟩ as c bs a ∧ t.getClient c = some client ∧
      Delivered a.files t.configs (t.history c) client := by
  obtain ⟨configs, sockets, hcreate⟩ := hw
  have hreach (bs : List Answers) : Reachable (LoopState.run ⟨w, .poll⟩ bs) := ⟨configs, sockets, w, bs, hcreate, rfl⟩
  induction as using List.reverseRecOn with
  | nil =>
    have hnil : w.trace = [] := (World.Created.start ⟨configs, sockets, hcreate⟩).1
    simp [LoopState.run, World.history, hnil] at hlast
  | append_singleton as a ih =>
    have hstep : LoopState.run ⟨w, .poll⟩ (as ++ [a]) = (LoopState.run ⟨w, .poll⟩ as).step a := by simp [LoopState.run]
    obtain ⟨es, hsteps, hhist, hconf⟩ := (LoopState.run ⟨w, .poll⟩ as).step_connection a (hreach as).sound c
    rw [← hstep] at hsteps hhist hconf
    by_cases hes : es = []
    · -- nothing happened on the connection: what the call before has left is still there
      rw [hes, List.append_nil] at hhist
      obtain ⟨bs, b, client, hacts, hg, hd⟩ := ih (hhist ▸ hlast)
      rw [hg] at hsteps
      obtain ⟨client', hg', hd'⟩ := hd.of_steps hsteps hes
      refine ⟨bs, b, client', ⟨?_, hacts.adds, hacts.last.trans hhist.symm⟩, hg', ?_⟩
      · exact hacts.isPrefix.trans (List.prefix_append as [a])
      · rw [hhist, hconf]
        exact hd'
    · rw [hhist, List.getLast?_append_of_ne_nil _ hes] at hlast
      obtain ⟨client, hg, hd⟩ := ((hreach as).outputKept c).finalized_steps hsteps hlast
      refine ⟨as, a, client, ⟨List.prefix_rfl, ?_, rfl⟩, hg, ?_⟩
      · rw [hhist]
        simpa using hes
      · rw [hhist, hconf]
        exact hd

/-- A script whose header comes in two pieces, and which is partly sent when it ends. -/
def splitOutput : List Answers :=
  connects ++ sends 3 (ascii "GET /a.py HTTP/1.1\r\n\r\n") ++
    pass 3 [{}, {}, { pollin := true }]
      { reads := [.data (ascii "Status: 200 OK\r\n"), .data (ascii "\r\nhi")], sends := [.accepted 5] } ++
    pass 2 [{}, { pollout := true }, { pollin := true }] { reads := [.eof], sends := [.accepted 5] }

theorem cgi_output_delivered_split : ∃ bs a client, LastActs scriptStart splitOutput 4 bs a ∧
    (scriptStart.run splitOutput).world.getClient 4 = some client ∧
    Delivered a.files (scriptStart.run splitOutput).world.configs ((scriptStart.run splitOutput).world.history 4)
      client :=
  cgi_output_delivered ⟨[scriptServer], [.listening 3], rfl⟩ splitOutput 4 (by decide +kernel)

end WebServ
