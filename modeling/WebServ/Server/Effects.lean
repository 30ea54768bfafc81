import WebServ.Server.Connection
import WebServ.Server.Frames
import WebServ.Registry.Tables

/-! # What the handlers do to connections

For each handler: the client it leaves behind, what it adds to the history of a
connection, and what becomes of the output pipes. The poll list is not spoken of.
-/
namespace WebServ.World

variable (w : World)

@[simp] theorem dropBeside_frame (fd : Fd) (index : ℕ) :
    (w.dropBeside fd index).1.configs = w.configs ∧
    (w.dropBeside fd index).1.cgiFdToClientFd = w.cgiFdToClientFd ∧
    (w.dropBeside fd index).1.cgiStdinFdToClientFd = w.cgiStdinFdToClientFd ∧
    (w.dropBeside fd index).1.serverFds = w.serverFds ∧ (w.dropBeside fd index).1.opened = w.opened ∧
    (∀ c, (w.dropBeside fd index).1.getClient c = w.getClient c) ∧
    (∀ c, (w.dropBeside fd index).1.history c = w.history c) ∧
    (w.dropBeside fd index).1.aborted = w.aborted := by
  unfold dropBeside
  split <;> simp

@[simp] theorem ite_append_ite_nil {α : Type*} (p : Prop) [Decidable p] (xs ys : List α) :
    (if p then xs else []) ++ (if p then ys else []) = if p then xs ++ ys else [] := by
  split <;> simp

/-- At most the connection `c` changed, and `es` was added to its history. -/
structure Changed (w w' : World) (c : Fd) (es : List Event) (o : Option Client) : Prop where
  client : ∀ d, w'.getClient d = if d = c then o else w.getClient d
  history : ∀ d, w'.history d = w.history d ++ if c = d then es else []
  configs : w'.configs = w.configs

theorem Changed.of_eq {w w' : World} (c : Fd) (hg : ∀ d, w'.getClient d = w.getClient d)
    (hh : ∀ d, w'.history d = w.history d) (hf : w'.configs = w.configs) :
    Changed w w' c [] (w.getClient c) where
  client d := by
    rw [hg]
    split
    · next h => rw [h]
    · rfl
  history d := by simp [hh]
  configs := hf

theorem Changed.trans {w v u : World} {c : Fd} {es fs : List Event} {o o' : Option Client}
    (h : Changed w v c es o) (h' : Changed v u c fs o') : Changed w u c (es ++ fs) o' where
  client d := by
    rw [h'.client, h.client]
    split <;> rfl
  history d := by rw [h'.history, h.history, List.append_assoc, ite_append_ite_nil]
  configs := h'.configs.trans h.configs

theorem log_changed {c : Fd} {e : Event} (he : e.client = some c) :
    Changed w (w.log e) c [e] (w.getClient c) where
  client d := by
    split
    · next h => rw [h]; rfl
    · rfl
  history d := by simp [he]
  configs := rfl

theorem setClient_changed (c : Fd) (client : Client) : Changed w (w.setClient c client) c [] (some client) := by
  constructor <;> simp

/-- A change of the connection that changes anyway does not show. -/
theorem Changed.of_setClient {w w' : World} {c : Fd} {client : Client} {es : List Event} {o : Option Client}
    (h : Changed (w.setClient c client) w' c es o) : Changed w w' c es o where
  client d := by
    rw [h.client]
    split
    · rfl
    · next hd => simp [hd]
  history d := by simp [h.history]
  configs := h.configs

theorem Changed.of_frame {w v w' : World} {c : Fd} {es : List Event} {o : Option Client}
    (h : Changed v w' c es o) (hg : ∀ d, v.getClient d = w.getClient d)
    (hh : ∀ d, v.history d = w.history d) (hf : v.configs = w.configs) : Changed w w' c es o where
  client d := by rw [h.client, hg]
  history d := by rw [h.history, hh]
  configs := h.configs.trans hf

/-! ## Removal -/

theorem removeClient_changed (index : ℕ) (reaped : Bool) (reason : RemoveReason) :
    Changed w (w.removeClient index reaped reason) (w.entry index).fd
      [.removed (w.entry index).fd reason] none := by
  unfold removeClient
  constructor
  · intro d
    simp only [log_frame, eraseEntry_frame, getClient_eraseClient]
    split
    · rfl
    · next hd =>
      split
      · simp
      · split <;> split <;> simp [hd]
  · intro d
    simp only [history_log, eraseEntry_frame, eraseClient_frame, Event.client, Option.some.injEq]
    congr 1
    split
    · simp
    · split <;> split <;> simp
  · simp only [log_frame, eraseEntry_frame, eraseClient_frame]
    split
    · simp
    · split <;> split <;> simp

theorem cgiFdToClientFd_removeClient (index : ℕ) (reaped : Bool) (reason : RemoveReason) (f : Fd) :
    (w.removeClient index reaped reason).cgiFdToClientFd[f]? =
      if (w.getClient (w.entry index).fd).bind Client.cgiStdoutFd = some f then none
      else w.cgiFdToClientFd[f]? := by
  unfold removeClient
  simp only [log_frame, eraseEntry_frame, eraseClient_frame]
  split
  · next h => simp [h]
  · next h => split <;> split <;> simp [*, eq_comm]

/-! ## Input of scripts -/

/-- The pieces that the pipe took, in order, are what is no longer pending. -/
theorem flushLoop_spec (stdinFd : Fd) (answers : List ℕ) (total : ℕ) (client : Client) :
    ∃ q, (w.flushLoop stdinFd answers total client).2 = { client with cgiStdinPending := q } ∧
      client.cgiStdinPending.pending =
        (w.flushLoop stdinFd answers total client).1.flatten ++ q.pending := by
  induction answers generalizing total client with
  | nil => exact ⟨client.cgiStdinPending, by simp [flushLoop]⟩
  | cons answer answers ih =>
    unfold flushLoop
    split
    · dsimp only
      split
      · obtain ⟨q, hq, hp⟩ := ih (total + w.write stdinFd client.cgiStdinPending.size answer)
          (client.consumeCgiStdinPending _ (w.write_le stdinFd _ answer))
        refine ⟨q, hq, ?_⟩
        simp only [List.flatten_cons, List.append_assoc, ← hp]
        simp [Client.consumeCgiStdinPending]
      · exact ⟨client.cgiStdinPending, by simp⟩
    · exact ⟨client.cgiStdinPending, by simp⟩

theorem filter_client_map (c d : Fd) (f : Bytes → Event) (hf : ∀ bs, (f bs).client = some c)
    (pieces : List Bytes) : (pieces.map f).filter (·.client = some d) =
      if c = d then pieces.map f else [] := by
  induction pieces with
  | nil => simp
  | cons piece pieces ih => by_cases h : c = d <;> simp_all

theorem stdinHangup_changed (idx : ℕ) {fd c : Fd} (hc : w.cgiStdinFdToClientFd[fd]? = some c) :
    Changed w (w.stdinHangup idx fd) c [] ((w.getClient c).map ({ · with cgiStdinFd := none })) := by
  unfold stdinHangup
  simp only [hc]
  cases hg : w.getClient c with
  | none =>
    have h : Changed w (((w.eraseCgiStdinFd fd).closeFd fd).eraseEntry idx) c [] (w.getClient c) :=
      .of_eq c (by simp) (by simp) (by simp)
    simpa [hg] using h
  | some client => constructor <;> simp [hg]

theorem handleCgiStdinWritable_changed {a : Answers} {idx : ℕ} {c : Fd} {client : Client}
    (hc : w.cgiStdinFdToClientFd[(w.entry idx).fd]? = some c) (hg : w.getClient c = some client) :
    ∃ (pieces : List Bytes) (q : OffsetBuffer UInt8) (s : Option Fd),
      (s = client.cgiStdinFd ∨ s = none ∧ client.cgiStdinEof = true) ∧
      client.cgiStdinPending.pending = pieces.flatten ++ q.pending ∧
      Changed w (w.handleCgiStdinWritable a idx).2 c
        (pieces.map (.flushed c (client.cgiStdinFd = some (w.entry idx).fd)))
        (some { client with cgiStdinPending := q, cgiStdinFd := s }) := by
  obtain ⟨q, hq, hp⟩ := w.flushLoop_spec (w.entry idx).fd a.writes 0 client
  have hf (d : Fd) := filter_client_map c d
    (.flushed c (client.cgiStdinFd = some (w.entry idx).fd)) (fun _ => rfl)
    (w.flushLoop (w.entry idx).fd a.writes 0 client).1
  refine ⟨_, q, if q.isEmpty && client.cgiStdinEof then none else client.cgiStdinFd, ?_, hp, ?_⟩
  · split <;> simp_all
  unfold handleCgiStdinWritable
  simp only [hc, hg, hq]
  split
  · constructor <;> simp [hf]
  · dsimp only
    split <;> split <;> constructor <;> simp [hf]

/-- The pipe closes at once when nothing is pending. -/
theorem endInput_exact (c : Fd) (client : Client) : Changed w (w.endInput c client) c
    [.inputEnded c client.cgiStdinPending.isEmpty client.cgiStdinFd.isSome]
    (some { client with
      cgiStdinEof := true, cgiStdinFd := if client.cgiStdinPending.isEmpty then none else client.cgiStdinFd }) := by
  unfold endInput
  dsimp only
  split <;> constructor <;> simp [Event.client]

theorem endInput_changed (c : Fd) (client : Client) :
    ∃ s, (s = client.cgiStdinFd ∨ s = none) ∧ Changed w (w.endInput c client) c
      [.inputEnded c client.cgiStdinPending.isEmpty client.cgiStdinFd.isSome]
      (some { client with cgiStdinEof := true, cgiStdinFd := s }) := by
  refine ⟨_, ?_, w.endInput_exact c client⟩
  split
  · exact Or.inr rfl
  · exact Or.inl rfl

theorem inputComplete_exact (c : Fd) (client : Client) (stdinFd : Fd) :
    Changed w (w.inputComplete c client stdinFd) c [] (some { client with
      cgiStdinEof := if client.cgiStdinPending.isEmpty then client.cgiStdinEof else true
      cgiStdinFd := if client.cgiStdinPending.isEmpty then none else client.cgiStdinFd }) := by
  unfold inputComplete
  split <;> constructor <;> simp

theorem inputComplete_changed (c : Fd) (client : Client) (stdinFd : Fd) :
    ∃ s e, (s = client.cgiStdinFd ∨ s = none) ∧ (e = true ∨ s = none) ∧
      Changed w (w.inputComplete c client stdinFd) c []
        (some { client with cgiStdinEof := e, cgiStdinFd := s }) := by
  refine ⟨_, _, ?_, ?_, w.inputComplete_exact c client stdinFd⟩
  · split
    · exact Or.inr rfl
    · exact Or.inl rfl
  · split
    · exact Or.inr rfl
    · exact Or.inl rfl

@[simp] theorem monitorStdin_frame (stdinFd clientFd : Fd) :
    (w.monitorStdin stdinFd clientFd).configs = w.configs ∧
    (w.monitorStdin stdinFd clientFd).cgiFdToClientFd = w.cgiFdToClientFd ∧
    (∀ c, (w.monitorStdin stdinFd clientFd).getClient c = w.getClient c) ∧
    (∀ c, (w.monitorStdin stdinFd clientFd).history c = w.history c) ∧
    (w.monitorStdin stdinFd clientFd).aborted = w.aborted := by
  unfold monitorStdin
  split <;> simp

/-- What becomes pending is what the pipe did not take. -/
theorem forwardPiece_changed (c : Fd) (client : Client) (stdinFd : Fd) (piece : Bytes) (answer : ℕ) :
    ∃ q, q.pending = client.cgiStdinPending.pending ++ piece.drop (w.write stdinFd piece.length answer) ∧
      (w.forwardPiece c client stdinFd piece answer).2 = { client with cgiStdinPending := q } ∧
      Changed w ((w.forwardPiece c client stdinFd piece answer).1.setClient c
          (w.forwardPiece c client stdinFd piece answer).2) c
        [.forwarded c client.cgiStdinPending.pending piece (w.write stdinFd piece.length answer)]
        (some { client with cgiStdinPending := q }) := by
  unfold forwardPiece
  dsimp only
  split
  · exact ⟨_, OffsetBuffer.pending_append _ _, rfl, by constructor <;> simp [Event.client, Client.appendCgiStdinPending]⟩
  · next h =>
    refine ⟨client.cgiStdinPending, ?_, rfl, by constructor <;> simp [Event.client]⟩
    simp [List.drop_of_length_le (Nat.le_of_not_lt h)]

/-! ## Output of scripts -/

@[simp] theorem enableOutput_frame (idx : ℕ) (fd : Fd) : (w.enableOutput idx fd).configs = w.configs ∧
    (w.enableOutput idx fd).serverFds = w.serverFds ∧
    (w.enableOutput idx fd).cgiFdToClientFd = w.cgiFdToClientFd ∧
    (w.enableOutput idx fd).cgiStdinFdToClientFd = w.cgiStdinFdToClientFd ∧
    (w.enableOutput idx fd).opened = w.opened ∧
    (∀ c, (w.enableOutput idx fd).getClient c = w.getClient c) ∧
    (∀ c, (w.enableOutput idx fd).history c = w.history c) ∧
    (w.enableOutput idx fd).aborted = w.aborted := by
  unfold enableOutput
  split <;> simp

theorem cgiOutputRead_changed (files : FileSystem) (c : Fd) {client : Client} (bytes : Bytes)
    (ha : client.cgiActive = true) : ∃ es,
      Connection.Step w.configs files c (some client) es (some (w.cgiOutputRead c client bytes).2) ∧
      Changed w (w.cgiOutputRead c client bytes).1 c es (some (w.cgiOutputRead c client bytes).2) := by
  unfold cgiOutputRead
  dsimp only
  split
  · next hs => exact ⟨_, .outputBody bytes ha hs, by constructor <;> simp [Event.client]⟩
  · next hs =>
    have hs : client.cgiHeadersSent = false := by simpa using hs
    split
    · next hc => exact ⟨_, .outputPart bytes ha hs hc, by constructor <;> simp [Event.client]⟩
    · next headerPart body hc =>
      exact ⟨_, .outputHead ha hs hc, by constructor <;> simp [Event.client, cgiHead]⟩

theorem respond_eq_of_not_aborted {c : Fd} {client : Client} {response : Option HTTPResponse}
    (hn : (w.respond c client response).aborted = false) : ∃ r, response = some r := by
  have hmark : (w.aborted || response.isNone) = false := hn
  simp only [Bool.or_eq_false_iff] at hmark
  exact Option.isSome_iff_exists.mp (by simpa using hmark.2)

theorem finalizeCgi_changed (a : Answers) (c : Fd) {client : Client} (idx : ℕ)
    (ha : client.cgiActive = true)
    (hn : (w.finalizeCgi a c { client with cgiStdoutFd := none } idx).aborted = false) :
    ∃ es o, Connection.Step w.configs a.files c (some client) es o ∧
      Changed w (w.finalizeCgi a c { client with cgiStdoutFd := none } idx) c es o := by
  unfold finalizeCgi at hn ⊢
  dsimp only at hn ⊢
  split at hn
  · next hs =>
    rw [if_pos hs]
    refine ⟨_, _, .streamEnded client.cgiStdinFd.isSome ha hs, ?_⟩
    constructor <;> simp [Event.client, finishCgi_client, Client.clearBuffer]
  · next hs =>
    rw [if_neg hs]
    have hs : client.cgiHeadersSent = false := by simpa using hs
    obtain ⟨r, hr⟩ := respond_eq_of_not_aborted _ (by simpa using hn)
    have hfallback : cgiFallback a.files ((w.configs[client.serverIndex]?).getD {}) client.cgiOutput = some r := hr
    rw [hr]
    refine ⟨_, _, .outputFallback client.cgiStdinFd.isSome ha hs hfallback, ?_⟩
    constructor <;> simp [respond, responseText, finishCgi_client, Client.setResponse, Client.clearBuffer,
      Event.client]

theorem cgiOutputEnd_changed (a : Answers) (c : Fd) {client : Client} (idx : ℕ) (cgiFd : Fd)
    (ha : client.cgiActive = true) (hn : (w.cgiOutputEnd a idx cgiFd c client).aborted = false) :
    ∃ es o, Connection.Step w.configs a.files c (some client) es o ∧
      Changed w (w.cgiOutputEnd a idx cgiFd c client) c es o := by
  unfold cgiOutputEnd at hn ⊢
  obtain ⟨es, o, hs, h⟩ := finalizeCgi_changed (((w.eraseCgiFd cgiFd).closeFd cgiFd).eraseEntry idx) a c _ ha hn
  exact ⟨es, o, hs, h.of_frame (by simp) (by simp) (by simp)⟩

/-! ## Requests -/

theorem answered_changed (c : Fd) (client : Client) (response : Option HTTPResponse) (idx : ℕ)
    (g : PollFd → PollFd) :
    Changed w ((w.respond c client response).modifyEntry idx g) c [.responded c (responseText response)]
      (some (client.setResponse (responseText response)).clearBuffer) := by
  constructor <;> simp [respond, Event.client]

theorem dispatchFailed_changed (a : Answers) (c : Fd) (client : Client) (idx : ℕ) :
    ∃ response, Changed w (w.dispatchFailed a c client idx) c [.responded c (responseText response)]
      (some (client.setResponse (responseText response)).clearBuffer) :=
  ⟨_, w.answered_changed c client _ idx _⟩

theorem cgiInput_client (client : Client) (pid stdinFd stdoutFd : ℕ) : ∃ n b d,
    (cgiInput client pid stdinFd stdoutFd).1 = { client.startCgi pid stdinFd stdoutFd with
      cgiBodyContentLength := n, cgiChunked := b, cgiChunk := d } := by
  unfold cgiInput
  dsimp only
  split
  · split <;> exact ⟨_, _, _, rfl⟩
  · exact ⟨_, false, {}, rfl⟩

@[simp] theorem closeInput_frame (client : Client) (bodyComplete : Bool) :
    (w.closeInput client bodyComplete).1.configs = w.configs ∧
    (w.closeInput client bodyComplete).1.serverFds = w.serverFds ∧
    (w.closeInput client bodyComplete).1.pollFds = w.pollFds ∧
    (w.closeInput client bodyComplete).1.cgiFdToClientFd = w.cgiFdToClientFd ∧
    (w.closeInput client bodyComplete).1.cgiStdinFdToClientFd = w.cgiStdinFdToClientFd ∧
    (∀ c, (w.closeInput client bodyComplete).1.getClient c = w.getClient c) ∧
    (∀ c, (w.closeInput client bodyComplete).1.history c = w.history c) ∧
    (w.closeInput client bodyComplete).1.aborted = w.aborted := by
  unfold closeInput
  split
  · split <;> simp
  · simp

theorem closeInput_client (client : Client) (bodyComplete : Bool) : ∃ s e,
    (bodyComplete = true → s = none ∨ e = true) ∧
    (bodyComplete = false → s = client.cgiStdinFd ∧ e = client.cgiStdinEof) ∧
    (w.closeInput client bodyComplete).2 = { client with cgiStdinFd := s, cgiStdinEof := e } := by
  unfold closeInput
  split
  · next h =>
    split
    · exact ⟨none, client.cgiStdinEof, fun _ => Or.inl rfl, by simp [h], closeCgiStdin_client w client⟩
    · exact ⟨client.cgiStdinFd, true, fun _ => Or.inr rfl, by simp [h], rfl⟩
  · next h => exact ⟨client.cgiStdinFd, client.cgiStdinEof, by simp [h], fun _ => ⟨rfl, rfl⟩, rfl⟩

@[simp] theorem registerPipes_frame (client : Client) (stdoutFd : Fd) (bodyComplete : Bool) :
    (w.registerPipes client stdoutFd bodyComplete).configs = w.configs ∧
    (w.registerPipes client stdoutFd bodyComplete).serverFds = w.serverFds ∧
    (w.registerPipes client stdoutFd bodyComplete).opened = w.opened ∧
    (w.registerPipes client stdoutFd bodyComplete).cgiFdToClientFd =
      (w.insertCgiFd stdoutFd client.fd).cgiFdToClientFd ∧
    (∀ c, (w.registerPipes client stdoutFd bodyComplete).getClient c = w.getClient c) ∧
    (∀ c, (w.registerPipes client stdoutFd bodyComplete).history c = w.history c) ∧
    (w.registerPipes client stdoutFd bodyComplete).aborted = w.aborted := by
  unfold registerPipes
  dsimp only
  split
  · split <;> simp
  · simp

/-- The new run of a script starts with what its pipe did not take, and the end of the
body is recorded when it is known. -/
theorem startCgiRun_input (a : Answers) (c : Fd) (client : Client) (pid stdinFd stdoutFd : ℕ) :
    let input := cgiInput client pid stdinFd stdoutFd
    ∃ (q : OffsetBuffer UInt8) (s : Option Fd) (e : Bool) (taken : ℕ),
      q.pending = input.2.1.drop taken ∧ (input.2.2 = true → s = none ∨ e = true) ∧
      (input.2.2 = false → s = some stdinFd ∧ e = false) ∧
      (w.startCgiRun a c client pid stdinFd stdoutFd).cgiFdToClientFd =
        w.cgiFdToClientFd.insert stdoutFd client.fd ∧
      Changed w (w.startCgiRun a c client pid stdinFd stdoutFd) c
        [.dispatched c stdinFd stdoutFd, .forwarded c [] input.2.1 taken]
        (some { input.1 with
          cgiBodyBytesForwarded := input.2.1.length, cgiStdinPending := q, cgiStdinFd := s, cgiStdinEof := e }) := by
  intro input
  obtain ⟨n, b, d, hc⟩ := cgiInput_client client pid stdinFd stdoutFd
  unfold startCgiRun
  dsimp only
  generalize hw : (w.log _).log _ = w'
  generalize hcl : Client.appendCgiStdinPending _ _ = client'
  have hclient : client' = { input.1 with
      cgiBodyBytesForwarded := input.2.1.length
      cgiStdinPending := OffsetBuffer.empty.append (input.2.1.drop (w.write stdinFd input.2.1.length
        (a.writes.head?.getD 0))) } := by
    rw [← hcl]
    simp only [input, hc, Client.appendCgiStdinPending, Client.addCgiBodyBytesForwarded, Client.startCgi,
      Nat.zero_add]
  obtain ⟨s, e, hdone, hmore, hci⟩ := w'.closeInput_client client' input.2.2
  have hfd : client'.fd = client.fd := by
    rw [hclient]
    simp only [input, hc, Client.startCgi]
  have hin : client'.cgiStdinFd = some stdinFd ∧ client'.cgiStdinEof = false := by
    rw [hclient]
    simp only [input, hc, Client.startCgi, and_self]
  refine ⟨client'.cgiStdinPending, s, e, w.write stdinFd input.2.1.length (a.writes.head?.getD 0), ?_, hdone,
    ?_, ?_, ?_⟩
  · rw [hclient]
    exact OffsetBuffer.pending_append _ _
  · intro hb
    exact ⟨(hmore hb).1.trans hin.1, (hmore hb).2.trans hin.2⟩
  · subst hw
    simp [input, hci, hfd, insertCgiFd]
  · subst hw
    rw [hci]
    rw [hclient]
    constructor <;> simp [Event.client, input]

theorem startCgiRun_changed (a : Answers) (c : Fd) (client : Client) (pid stdinFd stdoutFd : ℕ) :
    ∃ (client' : Client) (body : Bytes) (taken : ℕ), client.Started client' ∧
      client'.cgiStdoutFd = some stdoutFd ∧ client'.cgiStdinPending.pending = body.drop taken ∧
      (w.startCgiRun a c client pid stdinFd stdoutFd).cgiFdToClientFd =
        w.cgiFdToClientFd.insert stdoutFd client.fd ∧
      Changed w (w.startCgiRun a c client pid stdinFd stdoutFd) c
        [.dispatched c stdinFd stdoutFd, .forwarded c [] body taken] (some client') := by
  obtain ⟨n, b, d, hc⟩ := cgiInput_client client pid stdinFd stdoutFd
  obtain ⟨q, s, e, taken, hq, -, -, hf, h⟩ := w.startCgiRun_input a c client pid stdinFd stdoutFd
  refine ⟨_, _, taken, ?_, ?_, hq, hf, h⟩
  · rw [hc]
    constructor <;> rfl
  · rw [hc]
    rfl

theorem pipe_eq_some {answer : Option (Fd × Fd)} {r t : Fd} {v : World} (h : w.pipe answer = some (r, t, v)) :
    r ∉ w.opened ∧ t ∉ w.opened ∧ r ≠ t ∧ v = (w.openFd r).openFd t := by
  unfold pipe at h
  split at h
  · cases h
  · split at h
    · cases h
    · next hn =>
      cases h
      simp only [not_or] at hn
      exact ⟨hn.1, hn.2.1, hn.2.2, rfl⟩

/-- Pipes and a child were asked for; the ends `new` are open now, and nothing else changed. -/
structure PipesMade (w v : World) (new : List Fd) (child : Option ℕ) : Prop where
  configs : v.configs = w.configs
  serverFds : v.serverFds = w.serverFds
  pollFds : v.pollFds = w.pollFds
  clients : v.clients = w.clients
  cgiFds : v.cgiFdToClientFd = w.cgiFdToClientFd
  cgiStdinFds : v.cgiStdinFdToClientFd = w.cgiStdinFdToClientFd
  aborted : v.aborted = w.aborted
  opened : v.opened = w.opened ++ new
  events : ∃ es, v.trace = w.trace ++ es ∧ PipeEvents w.opened w.fds new child es

section
variable {w v : World} {new : List Fd} {child : Option ℕ}

theorem PipesMade.history (h : PipesMade w v new child) (c : Fd) : v.history c = w.history c := by
  obtain ⟨es, he, hes⟩ := h.events
  have hnone : es.filter (fun e => e.client = some c) = [] := by
    rw [List.filter_eq_nil_iff]
    intro e hmem
    simp [hes.quiet e hmem]
  simp only [World.history, he, List.filter_append, hnone, List.append_nil]

theorem PipesMade.getClient (h : PipesMade w v new child) (c : Fd) : v.getClient c = w.getClient c := by
  rw [World.getClient, World.getClient, h.clients]

theorem PipesMade.changed {w' : World} {c : Fd} {es : List Event} {o : Option Client}
    (h : PipesMade w v new child) (hc : Changed v w' c es o) : Changed w w' c es o :=
  hc.of_frame h.getClient h.history h.configs

theorem PipesMade.nodup (h : PipesMade w v new child) : new.Nodup := by
  obtain ⟨es, -, hes⟩ := h.events
  exact hes.nodup

theorem PipesMade.fresh (h : PipesMade w v new child) {f : Fd} (hf : f ∈ new) : f ∉ w.opened := by
  obtain ⟨es, -, hes⟩ := h.events
  exact (hes.fresh f hf).1

theorem PipesMade.refl (w : World) : PipesMade w w [] none where
  configs := rfl
  serverFds := rfl
  pollFds := rfl
  clients := rfl
  cgiFds := rfl
  cgiStdinFds := rfl
  aborted := rfl
  opened := (List.append_nil _).symm
  events := ⟨[], (List.append_nil _).symm, by constructor <;> simp⟩

theorem PipesMade.openFd (h : PipesMade w v new child) {f : Fd} (hf : f ∉ v.opened) :
    PipesMade w (v.openFd f) (new ++ [f]) child := by
  rw [h.opened, List.mem_append, not_or] at hf
  obtain ⟨es, he, hes⟩ := h.events
  refine ⟨h.configs, h.serverFds, h.pollFds, h.clients, h.cgiFds, h.cgiStdinFds, h.aborted, ?_,
    es ++ [.opened f (v.polls f)], ?_, ?_⟩
  · simp [World.openFd, log, h.opened]
  · simp [World.openFd, log, he]
  · have hpolls : v.polls f = decide (f ∈ w.fds) := by simp only [polls, World.fds, h.pollFds]
    refine ⟨?_, ?_, ?_, ?_, ?_, ?_⟩
    · intro e hmem
      rcases List.mem_append.mp hmem with hmem | hmem
      · exact hes.quiet e hmem
      · rw [List.mem_singleton.mp hmem]
        rfl
    · simpa [List.nodup_append, hes.nodup] using fun a ha => ne_of_mem_of_not_mem ha hf.2
    · intro g hg
      rcases List.mem_append.mp hg with hg | hg
      · exact ⟨(hes.fresh g hg).1, List.mem_append_left _ (hes.fresh g hg).2⟩
      · rw [List.mem_singleton.mp hg, ← hpolls]
        exact ⟨hf.1, List.mem_append_right _ List.mem_cons_self⟩
    · simpa using hes.closed
    · simpa using hes.waited
    · simpa using hes.forked

theorem PipesMade.closeFd (h : PipesMade w v new child) {f : Fd} (hf : f ∈ new) :
    PipesMade w (v.closeFd f) (new.erase f) child := by
  obtain ⟨es, he, hes⟩ := h.events
  have hopen : f ∈ v.opened := by
    rw [h.opened]
    exact List.mem_append_right _ hf
  refine ⟨h.configs, h.serverFds, h.pollFds, h.clients, h.cgiFds, h.cgiStdinFds, h.aborted, ?_,
    es ++ [.closed f true], ?_, ?_⟩
  · simp [World.closeFd, log, h.opened, List.erase_append, h.fresh hf]
  · simp [World.closeFd, log, he, hopen]
  · refine ⟨?_, hes.nodup.erase f, ?_, ?_, ?_, ?_⟩
    · intro e hmem
      rcases List.mem_append.mp hmem with hmem | hmem
      · exact hes.quiet e hmem
      · rw [List.mem_singleton.mp hmem]
        rfl
    · intro g hg
      obtain ⟨hg, ho⟩ := hes.fresh g (List.mem_of_mem_erase hg)
      exact ⟨hg, List.mem_append_left _ ho⟩
    · intro g b hg
      rcases List.mem_append.mp hg with hg | hg
      · exact hes.closed g b hg
      · simp only [List.mem_singleton, Event.closed.injEq] at hg
        obtain ⟨rfl, rfl⟩ := hg
        exact ⟨rfl, h.fresh hf⟩
    · simpa using hes.waited
    · simpa using hes.forked

theorem PipesMade.forked (h : PipesMade w v new none) (pid : ℕ) :
    PipesMade w (v.log (.forked pid)) new (some pid) := by
  obtain ⟨es, he, hes⟩ := h.events
  refine ⟨h.configs, h.serverFds, h.pollFds, h.clients, h.cgiFds, h.cgiStdinFds, h.aborted, h.opened,
    es ++ [.forked pid], by simp [log, he], ?_⟩
  refine ⟨?_, hes.nodup, ?_, ?_, ?_, ?_⟩
  · intro e hmem
    rcases List.mem_append.mp hmem with hmem | hmem
    · exact hes.quiet e hmem
    · rw [List.mem_singleton.mp hmem]
      rfl
  · intro g hg
    exact ⟨(hes.fresh g hg).1, List.mem_append_left _ (hes.fresh g hg).2⟩
  · simpa using hes.closed
  · simpa using hes.waited
  · intro pid' hmem
    rcases List.mem_append.mp hmem with hmem | hmem
    · exact absurd (hes.forked pid' hmem) (by simp)
    · simp only [List.mem_singleton, Event.forked.injEq] at hmem
      rw [hmem]

theorem PipesMade.pipe (h : PipesMade w v new child) {answer : Option (Fd × Fd)} {r t : Fd} {u : World}
    (hp : v.pipe answer = some (r, t, u)) : PipesMade w u (new ++ [r] ++ [t]) child := by
  obtain ⟨hr, ht, hrt, rfl⟩ := pipe_eq_some v hp
  refine (h.openFd hr).openFd ?_
  simpa [World.openFd, log, ht] using Ne.symm hrt

end

/-- A dispatch starts the script, or is answered with an error; the ends of one pipe
stay open when the second one could not be made. -/
theorem dispatchCgi_cases (a : Answers) (c : Fd) {client : Client} (idx : ℕ)
    (hroute : (matchRoute (stripQueryString client.request.requestTarget) (w.config client)).isSome) :
    (∃ v new, PipesMade w v new none ∧ w.dispatchCgi a c client idx = v.dispatchFailed a c client idx) ∨
    ∃ v pid stdinFd stdoutFd, PipesMade w v [stdinFd, stdoutFd] (some pid) ∧ .forked pid ∈ v.trace ∧
      w.dispatchCgi a c client idx = v.startCgiRun a c client pid stdinFd stdoutFd := by
  unfold dispatchCgi
  split
  · next h => simp [h] at hroute
  split
  · exact Or.inl ⟨w, [], .refl w, rfl⟩
  next r t w1 hp1 =>
  have h1 := (PipesMade.refl w).pipe hp1
  split
  · exact Or.inl ⟨w1, _, h1, rfl⟩
  next r' t' w2 hp2 =>
  have h2 := h1.pipe hp2
  have hnodup : [r, t, r', t'].Nodup := h2.nodup
  simp only [List.nodup_cons, List.mem_cons, List.not_mem_nil, or_false, not_or] at hnodup
  obtain ⟨⟨hrt, hrr, hrt'⟩, ⟨htr, htt⟩, hr't', -⟩ := hnodup
  split
  · have hclosed := (((h2.closeFd (f := r) (by simp)).closeFd (f := t) (by simp)).closeFd (f := r')
      (by simp)).closeFd (f := t') (by simp)
    exact Or.inl ⟨_, _, hclosed, rfl⟩
  · next pid hpid =>
    have hmade := ((h2.forked pid).closeFd (f := r) (by simp)).closeFd (f := t') (by simp)
    have hnew : (([] ++ [r] ++ [t] ++ [r'] ++ [t']).erase r).erase t' = [t, r'] := by
      simp [htt, hr't']
    rw [hnew] at hmade
    exact Or.inr ⟨_, pid, t, r', hmade, by simp [World.closeFd, log], rfl⟩

/-- What is parsed leaves all of a client but its request as it is. -/
theorem feedRequest_client (conf : ServerConfig) (client : Client) (bytes : Bytes) :
    ∃ b r s, (feedRequest conf client bytes).2 =
      { client with buffer := b, request := r, requestStarted := s } := by
  unfold feedRequest
  split
  · exact ⟨[], _, client.requestStarted, rfl⟩
  · dsimp only
    split
    · exact ⟨[], _, true, rfl⟩
    · exact ⟨_, client.request, client.requestStarted, rfl⟩

theorem readRequest_client (a : Answers) (conf : ServerConfig) (client : Client) (bytes : Bytes) :
    ∃ b r s, (readRequest a conf client bytes).2 =
      { client with buffer := b, request := r, requestStarted := s } := by
  obtain ⟨b, r, s, h⟩ := feedRequest_client conf client bytes
  unfold readRequest
  split <;> next hf => exact ⟨b, r, s, by rw [hf] at h; exact h⟩

/-- A dispatch is decided only for a route. -/
theorem readRequest_dispatch {a : Answers} {conf : ServerConfig} {client client' : Client} {bytes : Bytes}
    (h : readRequest a conf client bytes = (.dispatch, client')) :
    (matchRoute (stripQueryString client'.request.requestTarget) conf).isSome := by
  unfold readRequest at h
  split at h
  · cases h
  · next complete client'' _ =>
    simp only [Prod.mk.injEq] at h
    obtain ⟨hd, rfl⟩ := h
    unfold decideRequest at hd
    split at hd
    · split at hd <;> cases hd
    · split at hd
      · next hg =>
        unfold cgiGate at hg
        split at hg
        · next hr => simp [hr]
        · simp at hg
      · split at hd
        · dsimp only at hd
          split at hd <;> cases hd
        · cases hd

/-- What bytes of a request lead to: the client waits for more of them, it is answered, or its script
is started. The ends of a pipe may stay open behind a failed start. -/
theorem requestBytes_cases (a : Answers) (c : Fd) (client : Client) (idx : ℕ) (bytes : Bytes) :
    let parsed := readRequest a (w.config client) client bytes
    w.requestBytes a c client idx bytes = (w.log (.requestRead c (Answered client) .wait)).setClient c parsed.2 ∨
    (∃ v new outcome response g, (outcome = .answered ∨ outcome = .dispatched) ∧
      PipesMade (w.log (.requestRead c (Answered client) outcome)) v new none ∧
      (g = PollFd.onlyPollout ∨ g = PollFd.enablePollout) ∧
      w.requestBytes a c client idx bytes = (v.respond c parsed.2 response).modifyEntry idx g) ∨
    parsed.1 = .dispatch ∧ ∃ v pid stdinFd stdoutFd,
      PipesMade (w.log (.requestRead c (Answered client) .dispatched)) v [stdinFd, stdoutFd] (some pid) ∧
      w.requestBytes a c client idx bytes = v.startCgiRun a c parsed.2 pid stdinFd stdoutFd := by
  intro parsed
  obtain ⟨b, r, s, hcl⟩ := readRequest_client a (w.config client) client bytes
  unfold requestBytes
  split
  · next client' hr =>
    left
    simp only [parsed, hr]
  · next response client' hr =>
    refine Or.inr (Or.inl ⟨_, [], .answered, response, _, Or.inl rfl, .refl _, Or.inl rfl, ?_⟩)
    simp only [parsed, hr]
  · next client' hr =>
    have hi : client'.serverIndex = client.serverIndex := by
      rw [hr] at hcl
      rw [show client' = _ from hcl]
    have hroute := readRequest_dispatch hr
    have hconf : w.config client = (w.log (.requestRead c (Answered client) .dispatched)).config client' := by
      simp [config, hi]
    rw [hconf] at hroute
    have hparsed : parsed = (.dispatch, client') := hr
    rw [hparsed]
    rcases dispatchCgi_cases (w.log (.requestRead c (Answered client) .dispatched)) a c idx hroute with
      ⟨v, new, hv, he⟩ | ⟨v, pid, stdinFd, stdoutFd, hv, -, he⟩
    · exact Or.inr (Or.inl ⟨v, new, .dispatched, _, _, Or.inr rfl, hv, Or.inr rfl, he⟩)
    · exact Or.inr (Or.inr ⟨rfl, v, pid, stdinFd, stdoutFd, hv, he⟩)
  · next response client' hr =>
    refine Or.inr (Or.inl ⟨_, [], .answered, response, _, Or.inl rfl, .refl _, Or.inr rfl, ?_⟩)
    simp only [parsed, hr]

theorem requestBytes_changed (files : FileSystem) (a : Answers) {c : Fd} {client : Client} (idx : ℕ) (bytes : Bytes)
    (ha : client.cgiActive = false) :
    (∃ es client', Connection.Step w.configs files c (some client) es (some client') ∧
      client'.cgiStdoutFd = client.cgiStdoutFd ∧ client'.cgiActive = false ∧
      (w.requestBytes a c client idx bytes).cgiFdToClientFd = w.cgiFdToClientFd ∧
      Changed w (w.requestBytes a c client idx bytes) c es (some client')) ∨
    ∃ es client' stdout, Connection.Step w.configs files c (some client) es (some client') ∧
      client'.cgiStdoutFd = some stdout ∧ client'.cgiActive = true ∧
      (w.requestBytes a c client idx bytes).cgiFdToClientFd = (w.insertCgiFd stdout client.fd).cgiFdToClientFd ∧
      Changed w (w.requestBytes a c client idx bytes) c es (some client') := by
  obtain ⟨b, r, s, hcl⟩ := readRequest_client a (w.config client) client bytes
  have hcases := w.requestBytes_cases a c client idx bytes
  generalize readRequest a (w.config client) client bytes = parsed at hcl hcases
  have hsame : client.SameOutput parsed.2 := by
    rw [hcl]
    constructor <;> simp
  rcases hcases with he | ⟨v, new, outcome, response, g, ho, hv, -, he⟩ | ⟨-, v, pid, stdinFd, stdoutFd, hv, he⟩
  · rw [he]
    refine Or.inl ⟨[.requestRead c (Answered client) .wait], parsed.2, .idle _ hsame (by rw [hcl]) ?_, hsame.stdout,
      hsame.active.trans ha, rfl, (log_changed w rfl).trans (setClient_changed _ c _)⟩
    simp [Event.silent]
  · rw [he]
    refine Or.inl ⟨_, _, .answered outcome (response.getD {}) ho ha hsame, hsame.stdout, hsame.active.trans ha, ?_,
      (log_changed w rfl).trans (hv.changed (v.answered_changed c parsed.2 response idx g))⟩
    simp [respond, hv.cgiFds]
  · obtain ⟨client', body, taken, hstarted, hout, hp, hf, h⟩ := v.startCgiRun_changed a c parsed.2 pid stdinFd stdoutFd
    rw [he]
    refine Or.inr ⟨_, client', stdoutFd, .dispatched stdinFd stdoutFd body taken ha (hstarted.of_same hsame) hp, hout,
      hstarted.active, ?_, (log_changed w rfl).trans (hv.changed h)⟩
    rw [hf, hv.cgiFds, hsame.fd]
    rfl

/-! ## Connections -/

@[simp] theorem resumeCgiOutput_frame (client : Client) : (w.resumeCgiOutput client).configs = w.configs ∧
    (w.resumeCgiOutput client).serverFds = w.serverFds ∧
    (w.resumeCgiOutput client).cgiFdToClientFd = w.cgiFdToClientFd ∧
    (w.resumeCgiOutput client).cgiStdinFdToClientFd = w.cgiStdinFdToClientFd ∧
    (w.resumeCgiOutput client).opened = w.opened ∧ (w.resumeCgiOutput client).trace = w.trace ∧
    (∀ c, (w.resumeCgiOutput client).getClient c = w.getClient c) ∧
    (∀ c, (w.resumeCgiOutput client).history c = w.history c) ∧
    (w.resumeCgiOutput client).aborted = w.aborted := by
  unfold resumeCgiOutput
  split
  · split <;> simp
  · simp

theorem sendPending_changed (now : ℕ) (fd : Fd) (client : Client) (sent : ℕ)
    (hs : sent ≤ client.cgiSendPending.size) : Changed w (w.sendPending now fd client sent hs).1 fd
      [.sent fd true (client.cgiSendPending.pending.take sent)]
      (some ((client.consumeCgiSendPending sent hs).updateActivity now)) := by
  unfold sendPending
  constructor <;> simp [Event.client]

theorem acceptFd_changed (files : FileSystem) (serverIndex now : ℕ) (fd : Fd) : ∃ es client',
    Connection.Step w.configs files fd (w.getClient fd) es (some client') ∧
    (∀ client ∈ w.getClient fd, client' = client) ∧ (w.getClient fd = none → client'.Sound fd) ∧
    Changed w (w.acceptFd serverIndex now fd) fd es (some client') := by
  have hknown : w.clients.contains fd = (w.getClient fd).isSome := Std.ExtTreeMap.contains_eq_isSome_getElem?
  unfold acceptFd
  cases hg : w.getClient fd with
  | none =>
    refine ⟨_, _, .accepted serverIndex now, by simp, fun _ => by constructor <;> simp [Client.create], ?_⟩
    constructor <;> simp [hknown, hg, Event.client]
  | some client =>
    refine ⟨_, client, .acceptedAgain client, by simp, by simp, ?_⟩
    constructor <;> simp [hknown, hg, Event.client]

/-! ## Output pipes -/

section
variable (c : Fd) (client : Client)

@[simp] theorem handleCgiStdinWritable_cgiFds (a : Answers) (idx : ℕ) :
    (w.handleCgiStdinWritable a idx).2.cgiFdToClientFd = w.cgiFdToClientFd := by
  unfold handleCgiStdinWritable
  dsimp only
  split
  · simp
  · split
    · simp
    · split
      · simp
      · dsimp only
        split <;> split <;> simp

@[simp] theorem stdinHangup_cgiFds (idx : ℕ) (fd : Fd) :
    (w.stdinHangup idx fd).cgiFdToClientFd = w.cgiFdToClientFd := by
  unfold stdinHangup
  dsimp only
  split
  · simp
  · split <;> simp

@[simp] theorem endInput_cgiFds : (w.endInput c client).cgiFdToClientFd = w.cgiFdToClientFd := by
  unfold endInput
  dsimp only
  split <;> simp

@[simp] theorem inputComplete_cgiFds (stdinFd : Fd) :
    (w.inputComplete c client stdinFd).cgiFdToClientFd = w.cgiFdToClientFd := by
  unfold inputComplete
  split <;> simp

@[simp] theorem forwardPiece_cgiFds (stdinFd : Fd) (piece : Bytes) (answer : ℕ) :
    (w.forwardPiece c client stdinFd piece answer).1.cgiFdToClientFd = w.cgiFdToClientFd := by
  unfold forwardPiece
  dsimp only
  split <;> simp

@[simp] theorem cgiOutputRead_cgiFds (bytes : Bytes) :
    (w.cgiOutputRead c client bytes).1.cgiFdToClientFd = w.cgiFdToClientFd := by
  unfold cgiOutputRead
  dsimp only
  split
  · simp
  · split <;> simp

theorem cgiOutputRead_client (bytes : Bytes) :
    (w.cgiOutputRead c client bytes).2.cgiStdoutFd = client.cgiStdoutFd ∧
    (w.cgiOutputRead c client bytes).2.cgiActive = client.cgiActive := by
  unfold cgiOutputRead
  dsimp only
  split
  · exact ⟨rfl, rfl⟩
  · split <;> exact ⟨rfl, rfl⟩

@[simp] theorem finalizeCgi_cgiFds (a : Answers) (idx : ℕ) :
    (w.finalizeCgi a c client idx).cgiFdToClientFd = w.cgiFdToClientFd := by
  unfold finalizeCgi
  dsimp only
  split <;> simp [respond]

theorem cgiOutputEnd_cgiFds (a : Answers) (idx : ℕ) (cgiFd : Fd) :
    (w.cgiOutputEnd a idx cgiFd c client).cgiFdToClientFd = (w.eraseCgiFd cgiFd).cgiFdToClientFd := by
  simp [cgiOutputEnd]

@[simp] theorem acceptFd_cgiFds (serverIndex now : ℕ) (fd : Fd) :
    (w.acceptFd serverIndex now fd).cgiFdToClientFd = w.cgiFdToClientFd := by
  unfold acceptFd
  dsimp only
  split <;> simp

end
end WebServ.World
