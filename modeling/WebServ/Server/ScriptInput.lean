import WebServ.Server.Steps

/-! # The input of scripts

What the pipe to a script took and what is still pending are the pieces handed over,
in their order. A piece that is written while bytes are pending overtakes them, so
the order is kept only as long as the pipe takes nothing of such a piece.
-/
namespace WebServ
open Search World

/-- Bytes handed over for the script. -/
def Event.handedBytes : Event → Bytes
  | .forwarded _ _ piece _ => piece
  | _ => []

/-- Bytes that the pipe to the script took. -/
def Event.acceptedBytes : Event → Bytes
  | .forwarded _ _ piece taken => piece.take taken
  | .flushed _ _ bytes => bytes
  | _ => []

/-- What is taken of a piece does not overtake pending bytes, and pending bytes are
written to the pipe of their client. -/
def Event.inOrder : Event → Bool
  | .forwarded _ pending piece taken => piece.take taken ++ pending = pending ++ piece.take taken
  | .flushed _ own bytes => own || bytes = []
  | _ => true

/-- All that was handed over for the last script of a connection. -/
def scriptHanded (history : List Event) : Bytes := (scriptRun history).flatMap Event.handedBytes

/-- All that the pipe to the last script of a connection took. -/
def scriptAccepted (history : List Event) : Bytes := (scriptRun history).flatMap Event.acceptedBytes

section
variable {h es : List Event}

theorem scriptHanded_append (hes : es.any Event.isDispatched = false) :
    scriptHanded (h ++ es) = scriptHanded h ++ es.flatMap Event.handedBytes :=
  flatMap_sinceLast_append _ hes

theorem scriptAccepted_append (hes : es.any Event.isDispatched = false) :
    scriptAccepted (h ++ es) = scriptAccepted h ++ es.flatMap Event.acceptedBytes :=
  flatMap_sinceLast_append _ hes

/-- What a step does to the input of a script that runs after it: nothing, one piece more, a
write of pending bytes, or the start of the script. -/
theorem Connection.Step.input {configs : List ServerConfig} {files : FileSystem} {c : Fd} {o : Option Client}
    {client' : Client} (hstep : Connection.Step configs files c o es (some client')) (hact : client'.cgiActive = true) :
    (∃ client, o = some client ∧ client.cgiActive = true ∧ es.any Event.isDispatched = false ∧
      (es.flatMap Event.handedBytes = [] ∧ es.flatMap Event.acceptedBytes = [] ∧
          client'.cgiStdinPending = client.cgiStdinPending ∨
        (∃ piece taken, es = [.forwarded c client.cgiStdinPending.pending piece taken] ∧
          client'.cgiStdinPending.pending = client.cgiStdinPending.pending ++ piece.drop taken) ∨
        ∃ (own : Bool) (pieces : List Bytes), es = pieces.map (Event.flushed c own) ∧
          client.cgiStdinPending.pending = pieces.flatten ++ client'.cgiStdinPending.pending)) ∨
    ∃ body taken, (∀ h, scriptRun (h ++ es) = [.forwarded c [] body taken]) ∧
      client'.cgiStdinPending.pending = body.drop taken := by
  cases hstep with
  | accepted serverIndex now => cases hact
  | acceptedAgain client => exact Or.inl ⟨client', rfl, hact, rfl, Or.inl ⟨rfl, rfl, rfl⟩⟩
  | idle es ho hp hs =>
    have hquiet (e : Event) (he : e ∈ es) :
        e.isDispatched = false ∧ e.handedBytes = [] ∧ e.acceptedBytes = [] := by
      have := hs e he
      cases e <;> first | exact ⟨rfl, rfl, rfl⟩ | cases this
    exact Or.inl ⟨_, rfl, ho.active ▸ hact, by simpa using fun e he => (hquiet e he).1,
      Or.inl ⟨List.flatMap_eq_nil_iff.mpr fun e he => (hquiet e he).2.1,
        List.flatMap_eq_nil_iff.mpr fun e he => (hquiet e he).2.2, hp⟩⟩
  | forwarded piece taken ha ho hp => exact Or.inl ⟨_, rfl, ha, rfl, Or.inr (Or.inl ⟨piece, taken, rfl, hp⟩)⟩
  | flushed own pieces ho hp =>
    exact Or.inl ⟨_, rfl, ho.active ▸ hact, by simp [Event.isDispatched], Or.inr (Or.inr ⟨own, pieces, rfl, hp⟩)⟩
  | outputPart bytes ha hs hc => exact Or.inl ⟨_, rfl, ha, rfl, Or.inl ⟨rfl, rfl, rfl⟩⟩
  | outputHead ha hs hc => exact Or.inl ⟨_, rfl, ha, rfl, Or.inl ⟨rfl, rfl, rfl⟩⟩
  | outputBody bytes ha hs => exact Or.inl ⟨_, rfl, ha, rfl, Or.inl ⟨rfl, rfl, rfl⟩⟩
  | streamEnded stdinOpen ha hs => cases hact
  | outputFallback stdinOpen ha hs hr => cases hact
  | @answered client client' outcome response hd ha ho =>
    have hact : client'.cgiActive = true := hact
    rw [ho.active, ha] at hact
    cases hact
  | @dispatched client client' stdin stdout body taken ha hst hp =>
    refine Or.inr ⟨body, taken, ?_, hp⟩
    intro h
    exact scriptRun_dispatched h [.requestRead c (Answered client) .dispatched] [.forwarded c [] body taken]
      c stdin stdout rfl
  | sentPending now sent hs => exact Or.inl ⟨_, rfl, hact, rfl, Or.inl ⟨rfl, rfl, rfl⟩⟩
  | sentResponse now sent ha hs => exact Or.inl ⟨_, rfl, hact, rfl, Or.inl ⟨rfl, rfl, rfl⟩⟩

theorem acceptedBytes_flushed (c : Fd) (own : Bool) (pieces : List Bytes) :
    (pieces.map (Event.flushed c own)).flatMap Event.acceptedBytes = pieces.flatten := by
  simp [List.flatMap_def, Function.comp_def, Event.acceptedBytes]

theorem handedBytes_flushed (c : Fd) (own : Bool) (pieces : List Bytes) :
    (pieces.map (Event.flushed c own)).flatMap Event.handedBytes = [] := by
  simp [List.flatMap_map, Event.handedBytes]

end

/-- The queue of a client holds what was handed over and not taken. -/
def InputKept (history : List Event) (o : Option Client) : Prop :=
  (∀ e ∈ scriptRun history, e.inOrder) → ∀ client ∈ o, client.cgiActive = true →
    scriptAccepted history ++ client.cgiStdinPending.pending = scriptHanded history

theorem InputKept.step {configs : List ServerConfig} {files : FileSystem} {c : Fd} {h es : List Event}
    {o o' : Option Client} (hk : InputKept h o) (hstep : Connection.Step configs files c o es o') :
    InputKept (h ++ es) o' := by
  intro hin client' ho' hact
  obtain rfl := Option.mem_def.mp ho'
  rcases hstep.input hact with ⟨client, rfl, ha, hd, hcases⟩ | ⟨body, taken, hrun, hp⟩
  · rw [scriptRun, sinceLast_append (by simpa using hd)] at hin
    have hkept := hk (fun e he => hin e (List.mem_append_left _ he)) client rfl ha
    rw [scriptAccepted_append hd, scriptHanded_append hd]
    rcases hcases with ⟨hh, hacc, hp⟩ | ⟨piece, taken, rfl, hp⟩ | ⟨own, pieces, rfl, hp⟩
    · rw [hh, hacc, List.append_nil, List.append_nil, hp]
      exact hkept
    · have hcomm : piece.take taken ++ client.cgiStdinPending.pending =
          client.cgiStdinPending.pending ++ piece.take taken :=
        of_decide_eq_true (hin _ (List.mem_append_right _ (List.mem_singleton_self _)))
      rw [hp]
      simp only [List.flatMap_singleton, Event.acceptedBytes, Event.handedBytes]
      calc scriptAccepted h ++ piece.take taken ++ (client.cgiStdinPending.pending ++ piece.drop taken)
          = scriptAccepted h ++ (piece.take taken ++ client.cgiStdinPending.pending) ++ piece.drop taken := by simp
        _ = scriptAccepted h ++ client.cgiStdinPending.pending ++ (piece.take taken ++ piece.drop taken) := by
            rw [hcomm]
            simp
        _ = scriptHanded h ++ piece := by rw [hkept, List.take_append_drop]
    · rw [acceptedBytes_flushed, handedBytes_flushed, List.append_nil, List.append_assoc, ← hp, hkept]
  · simp [scriptAccepted, scriptHanded, hrun, Event.acceptedBytes, Event.handedBytes, hp]

/-- The body reaches a running script in the order it was read, if no write overtakes
pending bytes and each write of pending bytes goes to the pipe of its client. -/
theorem input_accepted_in_order {s : LoopState} (h : Reachable s) {c : Fd} {client : Client}
    (hg : s.world.getClient c = some client) (ha : client.cgiActive = true)
    (hin : ∀ e ∈ scriptRun (s.world.history c), e.inOrder) :
    scriptAccepted (s.world.history c) ++ client.cgiStdinPending.pending = scriptHanded (s.world.history c) := by
  have hstart : InputKept [] none := by simp [InputKept]
  have hkept := (h.connection c).invariant (fun hk ⟨_, hs⟩ => hk.step hs) hstart
  rw [List.nil_append] at hkept
  exact hkept hin client hg ha

/-- A body in two pieces, of which the pipe takes as many bytes as `first` and `second` allow. -/
def twoPieces (first second : ℕ) : List Answers :=
  connects ++ pass 4 [{}, { pollin := true }]
    { reads := [.data (ascii "POST /a.py HTTP/1.1\r\nContent-Length: 2\r\n\r\na")], writes := [first],
      stdinPipe := some (5, 6), stdoutPipe := some (7, 8), fork := some 9 } ++
  pass 4 [{}, { pollin := true }] { reads := [.data (ascii "b")], writes := [second] }

theorem input_accepted_in_order_two :
    ∃ client, (scriptStart.run (twoPieces 1 0)).world.getClient 4 = some client ∧
      scriptAccepted ((scriptStart.run (twoPieces 1 0)).world.history 4) ++ client.cgiStdinPending.pending =
        scriptHanded ((scriptStart.run (twoPieces 1 0)).world.history 4) := by
  have hsome : ((scriptStart.run (twoPieces 1 0)).world.getClient 4).any (·.cgiActive) := by decide +kernel
  obtain ⟨client, hg, ha⟩ := (Option.any_eq_true _ _).mp hsome
  exact ⟨client, hg, input_accepted_in_order (scriptStart_reachable _) hg ha (by decide +kernel)⟩

/-- The second piece is written while the first one is pending, and arrives before it. -/
theorem input_overtaken : ¬ ∀ s, Reachable s → ∀ c client, s.world.getClient c = some client →
    client.cgiActive = true →
    scriptAccepted (s.world.history c) ++ client.cgiStdinPending.pending = scriptHanded (s.world.history c) := by
  intro h
  have hsome : ((scriptStart.run (twoPieces 0 1)).world.getClient 4).any (fun client =>
      client.cgiActive && scriptAccepted ((scriptStart.run (twoPieces 0 1)).world.history 4) ++
        client.cgiStdinPending.pending ≠ scriptHanded ((scriptStart.run (twoPieces 0 1)).world.history 4)) := by
    decide +kernel
  obtain ⟨client, hg, hc⟩ := (Option.any_eq_true _ _).mp hsome
  simp only [Bool.and_eq_true, decide_eq_true_eq] at hc
  exact hc.2 (h _ (scriptStart_reachable _) 4 client hg hc.1)

end WebServ
