import WebServ.Server.BodyTurns

/-! # The hand-over of a chunked body

What the parser decoded before the dispatch and what the decoder of the connection adds
to it are the body, wherever it is cut. The end of the input is recorded with the last
byte, unless the parser had read that byte already: then nothing is left that could
tell the connection.
-/
namespace WebServ
open Search Chunked HTTPRequest World Client

/-- The dispatch of a request of an idle client starts a script. -/
structure Dispatches (w : World) (a : Answers) (c : Fd) (client : Client) (idx : ℕ) : Prop where
  idle : client.cgiActive = false
  started : ∃ client', (w.dispatchCgi a c client idx).getClient c = some client' ∧ client'.cgiActive = true

theorem Dispatches.startCgiRun {w : World} {a : Answers} {c : Fd} {client : Client} {idx : ℕ}
    (h : Dispatches w a c client idx) : ∃ v pid stdinFd stdoutFd, PipesMade w v [stdinFd, stdoutFd] (some pid) ∧
      w.dispatchCgi a c client idx = v.startCgiRun a c client pid stdinFd stdoutFd := by
  obtain ⟨client', hg, ha⟩ := h.started
  have hidle (client'' : Client) (hc : client''.cgiActive = client.cgiActive)
      (hg' : (w.dispatchCgi a c client idx).getClient c = some client'') : False := by
    obtain rfl : client' = client'' := Option.some.inj (hg.symm.trans hg')
    rw [hc, h.idle] at ha
    cases ha
  by_cases hroute : (matchRoute (stripQueryString client.request.requestTarget) (w.config client)).isSome
  · rcases w.dispatchCgi_cases a c idx hroute with ⟨v, new, hv, he⟩ | ⟨v, pid, stdin, stdout, hv, -, he⟩
    · obtain ⟨response, hch⟩ := dispatchFailed_changed v a c client idx
      refine (hidle (client.setResponse (responseText response)).clearBuffer rfl ?_).elim
      rw [he, hch.client, if_pos rfl]
    · exact ⟨v, pid, stdin, stdout, hv, he⟩
  · have hnone := Option.not_isSome_iff_eq_none.mp hroute
    refine (hidle client rfl ?_).elim
    simp [dispatchCgi, hnone]

/-- The decoder of a client has part of a body before it, and the pipe is open. -/
structure Decoding (body : Body) (client : Client) (handed rest : Bytes) : Prop where
  chunked : client.cgiChunked = true
  opened : client.cgiStdinFd ≠ none
  noEof : client.cgiStdinEof = false
  running : client.cgiChunk.state ≠ .chunkDecDone
  left : rest ≠ []
  resumes : (Chunked.machine decoderSizeOf anyOutput).run ((client.cgiChunk.config handed).push rest) =
    bodyEnd body

/-- What the dispatch leaves to the decoder: the rest of the body, or nothing to wait for. -/
theorem cgiInput_cut {body : Body} {rest : Bytes} {client : Client} (h : CutBody body rest client.request)
    (pid stdinFd stdoutFd : ℕ) :
    let input := cgiInput client pid stdinFd stdoutFd
    input.2.2 = false ∧ input.1.cgiChunked = true ∧
      (rest ≠ [] ∧ input.1.cgiChunk.state ≠ .chunkDecDone ∧
          (Chunked.machine decoderSizeOf anyOutput).run ((input.1.cgiChunk.config input.2.1).push rest) =
            bodyEnd body ∨
        rest = [] ∧ input.2.1 = body.content) := by
  obtain ⟨c, hte, hbody, hbuf, hstart, hrun, hcut⟩ := h.paused
  have hkey : (ascii "Transfer-Encoding").map toLower = (ascii "transfer-encoding").map toLower := by decide
  have hte' : contains (ascii "chunked")
      ((client.request.getHeaderValue (ascii "transfer-encoding")).map toLower) = true := by
    simpa only [announcesChunked, getHeaderValue, hkey] using hte
  have hconf (hs : c.status = .running) : (initCgiChunkDecoder client.request.getChunkedState
      client.request.chunkRemaining).config c.out = { c with buf := [] } := by
    rw [initCgiChunkDecoder_config, hstart, hs]
  have hnd := initCgiChunkDecoder_not_done client.request.getChunkedState client.request.chunkRemaining
  unfold cgiInput
  dsimp only
  generalize initCgiChunkDecoder client.request.getChunkedState client.request.chunkRemaining = d at hconf hnd ⊢
  rw [if_pos hte', hte', hbody, hbuf]
  rcases hcut with ⟨hs, hne⟩ | ⟨rfl, rfl⟩
  · have hpush : (d.config c.out).push (c.buf ++ rest) = c.push rest := by
      rw [hconf hs]
      simp [Config.push]
    rw [← hpush] at hrun
    split
    · next hnil =>
      rw [hnil, List.nil_append] at hrun
      exact ⟨rfl, rfl, Or.inl ⟨hne, hnd, hrun⟩⟩
    · obtain ⟨-, hends, hmore⟩ := decode_progress hnd hrun
      have heof : (decodeChunkedForCgi d c.buf).eof = false := by
        by_contra hn
        exact hne (hends (by simpa using hn)).2.1
      obtain ⟨-, hnd', hrun'⟩ := hmore heof
      exact ⟨by simp [heof], rfl, Or.inl ⟨hne, hnd', hrun'⟩⟩
  · rw [if_pos (show (bodyEnd body).buf = [] from rfl)]
    exact ⟨rfl, rfl, Or.inr ⟨rfl, rfl⟩⟩

/-- How far the hand-over of a body has come. -/
def HandingOver (body : Body) (w : World) (c : Fd) (rest : Bytes) : Prop :=
  ∃ client, w.getClient c = some client ∧
    (Decoding body client (scriptHanded (w.history c)) rest ∨
      rest = [] ∧ scriptHanded (w.history c) = body.content ∧ client.InputEnded)

/-- A turn takes its bytes off the rest. -/
theorem HandingOver.turn {body : Body} {w : World} {c : Fd} {rest : Bytes} {turn : Turn}
    (h : HandingOver body w c (turn.bytes ++ rest)) (hproper : turn.Proper) :
    HandingOver body (turn.apply c w) c rest := by
  obtain ⟨client, hg, hstate⟩ := h
  cases turn with
  | read now bytes answer =>
    change Decoding body client (scriptHanded (w.history c)) (bytes ++ rest) ∨ bytes ++ rest = [] ∧ _ at hstate
    rcases hstate with hdec | ⟨hnil, -, -⟩
    · obtain ⟨stdinFd, hin⟩ := Option.ne_none_iff_exists'.mp hdec.opened
      obtain ⟨hok, hends, hmore⟩ := decode_progress hdec.running hdec.resumes
      obtain ⟨q, s, e, taken, -, hlast, hgoes, hch⟩ :=
        forwardBody_decoded (w := w) (c := c) now answer hin hdec.chunked hok
      have happly : Turn.apply c w (.read now bytes answer) = (w.forwardBody now c client bytes answer).1 := by
        simp only [Turn.apply, hg]
      have hhanded : scriptHanded ((w.forwardBody now c client bytes answer).1.history c) =
          scriptHanded (w.history c) ++ (decodeChunkedForCgi client.cgiChunk bytes).decoded := by
        rw [hch.history, if_pos rfl, scriptHanded_append rfl]
        simp [Event.handedBytes]
      rw [happly]
      refine ⟨_, by rw [hch.client, if_pos rfl], ?_⟩
      cases heof : (decodeChunkedForCgi client.cgiChunk bytes).eof with
      | true =>
        obtain ⟨-, hrest, hcontent⟩ := hends heof
        exact Or.inr ⟨hrest, hhanded.trans hcontent, hlast heof⟩
      | false =>
        obtain ⟨hleft, hnd, hrun⟩ := hmore heof
        obtain ⟨hs, he⟩ := hgoes heof
        exact Or.inl ⟨hdec.chunked, hs ▸ hdec.opened, he.trans hdec.noEof, hnd, hleft, by rw [hhanded]; exact hrun⟩
    · exact absurd (List.append_eq_nil_iff.mp hnil).1 hproper
  | writable a idx =>
    obtain ⟨q, s, hs, hg', es, hhist, hnd, hno⟩ := writable_input a idx hg
    have hhanded : scriptHanded ((w.handleCgiStdinWritable a idx).2.history c) = scriptHanded (w.history c) := by
      rw [hhist, scriptHanded_append hnd, hno, List.append_nil]
    refine ⟨_, hg', ?_⟩
    rcases hstate with hdec | ⟨hnil, hcontent, hend⟩
    · left
      have hs : s = client.cgiStdinFd := by
        rcases hs with hs | ⟨-, he⟩
        · exact hs
        · rw [hdec.noEof] at he
          cases he
      exact ⟨hdec.chunked, hs ▸ hdec.opened, hdec.noEof, hdec.running, hdec.left, hhanded.symm ▸ hdec.resumes⟩
    · right
      refine ⟨hnil, hhanded.trans hcontent, ?_⟩
      rcases hs with hs | ⟨hs, -⟩
      · exact hend.imp id (fun hclosed => hs.trans hclosed)
      · exact Or.inr hs

theorem HandingOver.turns {body : Body} {w : World} {c : Fd} (turns : List Turn)
    (h : HandingOver body w c (turns.flatMap Turn.bytes)) (hproper : ∀ turn ∈ turns, turn.Proper) :
    HandingOver body (applyTurns c w turns) c [] := by
  induction turns generalizing w with
  | nil => exact h
  | cons turn turns ih =>
    refine ih (h.turn (hproper turn List.mem_cons_self)) ?_
    intro turn' hmem
    exact hproper turn' (List.mem_cons_of_mem _ hmem)

/-- Nothing is left to read, and the connection does not know it. -/
def Unnoticed (body : Body) (w : World) (c : Fd) : Prop :=
  scriptHanded (w.history c) = body.content ∧
    ∃ client, w.getClient c = some client ∧ client.cgiStdinFd ≠ none ∧ client.cgiStdinEof = false

theorem Unnoticed.turns {body : Body} {w : World} {c : Fd} (turns : List Turn) (h : Unnoticed body w c)
    (hproper : ∀ turn ∈ turns, turn.Proper) (hnil : turns.flatMap Turn.bytes = []) :
    Unnoticed body (applyTurns c w turns) c := by
  induction turns generalizing w with
  | nil => exact h
  | cons turn turns ih =>
    rw [List.flatMap_cons] at hnil
    obtain ⟨hturn, hturns⟩ := List.append_eq_nil_iff.mp hnil
    have hproper' := fun turn' hmem => hproper turn' (List.mem_cons_of_mem turn hmem)
    cases turn with
    | read now bytes answer => exact absurd hturn (hproper _ List.mem_cons_self)
    | writable a idx =>
      obtain ⟨hcontent, client, hg, hopen, heof⟩ := h
      obtain ⟨q, s, hs, hg', es, hhist, hnd, hno⟩ := writable_input a idx hg
      refine ih ⟨?_, _, hg', ?_, heof⟩ hproper' hturns
      · change scriptHanded ((w.handleCgiStdinWritable a idx).2.history c) = _
        rw [hhist, scriptHanded_append hnd, hno, List.append_nil, hcontent]
      · rcases hs with hs | ⟨-, he⟩
        · exact fun hclosed => hopen (hs.symm.trans hclosed)
        · rw [heof] at he
          cases he

/-- What the request has of its body is handed over first. -/
theorem World.startCgiRun_handed (v : World) (a : Answers) (c : Fd) (client : Client) (pid stdinFd stdoutFd : ℕ) :
    scriptHanded ((v.startCgiRun a c client pid stdinFd stdoutFd).history c) =
      (cgiInput client pid stdinFd stdoutFd).2.1 := by
  obtain ⟨q, s, e, taken, -, -, -, -, hch⟩ := v.startCgiRun_input a c client pid stdinFd stdoutFd
  have hrun := scriptRun_dispatched (v.history c) [] [.forwarded c [] (cgiInput client pid stdinFd stdoutFd).2.1
    taken] c stdinFd stdoutFd rfl
  rw [List.nil_append] at hrun
  rw [hch.history, if_pos rfl, scriptHanded, hrun, List.flatMap_singleton]
  rfl

/-- The body was handed over, and its end recorded. -/
def HandedOver (body : Body) (w : World) (c : Fd) : Prop :=
  scriptHanded (w.history c) = body.content ∧ ∃ client, w.getClient c = some client ∧ client.InputEnded

/-- A chunked body reaches the script whole, however it is cut; its end is recorded with
the last byte exactly when the parser had not read all of it before the dispatch. -/
theorem handed_over_iff {body : Body} {w : World} {a : Answers} {c : Fd} {client : Client} {idx : ℕ}
    (hd : Dispatches w a c client idx) (turns : List Turn) (hproper : ∀ turn ∈ turns, turn.Proper)
    (hcut : CutBody body (turns.flatMap Turn.bytes) client.request) :
    HandedOver body (applyTurns c (w.dispatchCgi a c client idx) turns) c ↔
      turns.flatMap Turn.bytes ≠ [] := by
  obtain ⟨v, pid, stdinFd, stdoutFd, hv, hstart⟩ := hd.startCgiRun
  obtain ⟨q, s, e, taken, -, -, hmore, -, hch⟩ := v.startCgiRun_input a c client pid stdinFd stdoutFd
  obtain ⟨hpart, hchunked, hrest⟩ := cgiInput_cut hcut pid stdinFd stdoutFd
  obtain ⟨hs, he⟩ := hmore hpart
  have hhanded := v.startCgiRun_handed a c client pid stdinFd stdoutFd
  have hg := hch.client c
  rw [if_pos rfl] at hg
  rw [hstart]
  rcases hrest with ⟨hne, hnd, hrun⟩ | ⟨hnil, hcontent⟩
  · have hover : HandingOver body (v.startCgiRun a c client pid stdinFd stdoutFd) c
        (turns.flatMap Turn.bytes) :=
      ⟨_, hg, Or.inl ⟨hchunked, by simp [hs], he, hnd, hne, by rw [hhanded]; exact hrun⟩⟩
    obtain ⟨client', hg', hdec | ⟨-, hcontent, hend⟩⟩ := hover.turns turns hproper
    · exact absurd rfl hdec.left
    · exact iff_of_true ⟨hcontent, client', hg', hend⟩ hne
  · have hun : Unnoticed body (v.startCgiRun a c client pid stdinFd stdoutFd) c :=
      ⟨hhanded.trans hcontent, _, hg, by simp [hs], he⟩
    obtain ⟨-, client', hg', hopen, heof⟩ := hun.turns turns hproper hnil
    refine iff_of_false ?_ (by simp [hnil])
    rintro ⟨-, client'', hg'', hend⟩
    obtain rfl : client' = client'' := Option.some.inj (hg'.symm.trans hg'')
    rcases hend with hend | hend
    · rw [heof] at hend
      cases hend
    · exact hopen hend

/-! ## A body of two bytes -/

/-- The parser of a new client gets its first bytes in one piece, when they hold a head. -/
theorem readRequest_whole {conf : ServerConfig} {bytes : Bytes} {limit : ℕ}
    (hwhole : contains (ascii "\r\n\r\n") bytes = true) (hlimit : peekMaxBody conf bytes = limit) :
    (readRequest {} conf (Client.create 4 0 0) bytes).2.request = ((fresh limit).parsePieces [bytes]).2 := by
  have hbuf : ((Client.create 4 0 0).appendToBuffer bytes).buffer = bytes := rfl
  have hcomplete : ((Client.create 4 0 0).appendToBuffer bytes).hasCompleteHeader = true := hwhole
  have hstarted : (Client.create 4 0 0).requestStarted = false := rfl
  simp only [readRequest, feedRequest, hstarted, hcomplete, hbuf, hlimit, if_true, if_false, Bool.false_eq_true]
  rfl

/-- A script is seen to be started by its client. -/
theorem Dispatches.of_any {w : World} {a : Answers} {c : Fd} {client : Client} {idx : ℕ}
    (hidle : client.cgiActive = false)
    (h : ((w.dispatchCgi a c client idx).getClient c).any (fun client => client.cgiActive) = true) :
    Dispatches w a c client idx := by
  obtain ⟨client', hg, ha⟩ := (Option.any_eq_true _ _).mp h
  exact ⟨hidle, client', hg, ha⟩

def shortBody : Body := ⟨[⟨ascii "2", ascii "ab"⟩], ascii "0", []⟩

def chunkedPost : Bytes := ascii "POST /a.py HTTP/1.1\r\nTransfer-Encoding: chunked\r\n\r\n"

/-- A client whose first bytes hold the head and some of the short body. -/
def shortClient (sent : Bytes) : Client :=
  (readRequest {} scriptServer (Client.create 4 0 0) (chunkedPost ++ sent)).2

/-- Pipes and a child for a script. -/
def scriptAnswers : Answers := { stdinPipe := some (5, 6), stdoutPipe := some (7, 8), fork := some 9 }

theorem shortBody_valid : shortBody.Valid plainSizeOf where
  chunks := by
    intro k hk
    obtain rfl := List.mem_singleton.mp hk
    exact ⟨by decide +kernel, by decide +kernel, by decide⟩
  last_line := by decide
  last_size := by decide +kernel
  trailers := by simp [shortBody]

theorem shortBody_cut {sent rest : Bytes} (hsplit : sent ++ rest = shortBody.encode)
    (hwhole : contains (ascii "\r\n\r\n") (chunkedPost ++ sent) = true)
    (hlimit : peekMaxBody scriptServer (chunkedPost ++ sent) = 1048576)
    (hok : (shortClient sent).request.isError = false) : CutBody shortBody rest (shortClient sent).request := by
  have hhead : (parseHead ((fresh 1048576).push chunkedPost)).any
      (fun r => r.buffer = [] ∧ r.announcesChunked = true) := by decide +kernel
  obtain ⟨r, hr, hprop⟩ := (Option.any_eq_true _ _).mp hhead
  simp only [decide_eq_true_eq] at hprop
  refine ⟨shortBody_valid, ⟨1048576, chunkedPost, r, sent, [chunkedPost ++ sent], ⟨hr, hprop.1⟩, hprop.2, hsplit,
    by simp, by simp, readRequest_whole hwhole hlimit⟩, hok⟩

/-- The world in which a client is connected to the server with one script. -/
def connected : World := (scriptStart.run connects).world

/-- The body is cut inside its block, and its end is cut once more. -/
theorem handed_over_iff_short :
    let turns : List Turn := [.read 0 (ascii "b\r\n0\r") 1, .writable { writes := [1] } 3,
      .read 0 (ascii "\n\r\n") 0]
    HandedOver shortBody (applyTurns 4 (connected.dispatchCgi scriptAnswers 4 (shortClient (ascii "2\r\na")) 1)
      turns) 4 ↔ turns.flatMap Turn.bytes ≠ [] :=
  handed_over_iff (.of_any (by decide +kernel) (by decide +kernel)) _
    (by
      simp only [List.mem_cons, List.not_mem_nil, or_false, forall_eq_or_imp, forall_eq, Turn.Proper]
      decide)
    (shortBody_cut (by decide) (by decide +kernel) (by decide +kernel) (by decide +kernel))

/-- A body that arrives together with its head is handed over, and its end is missed. -/
theorem end_of_body_missed : ¬ ∀ body w a c client idx, Dispatches w a c client idx →
    ∀ turns : List Turn, (∀ turn ∈ turns, turn.Proper) → CutBody body (turns.flatMap Turn.bytes) client.request →
    HandedOver body (applyTurns c (w.dispatchCgi a c client idx) turns) c := by
  intro h
  obtain ⟨-, client, hg, hend⟩ := h shortBody connected scriptAnswers 4 (shortClient shortBody.encode) 1
    (.of_any (by decide +kernel) (by decide +kernel)) [] (by simp)
    (shortBody_cut (by decide) (by decide +kernel) (by decide +kernel) (by decide +kernel))
  have hmissed : ((connected.dispatchCgi scriptAnswers 4 (shortClient shortBody.encode) 1).getClient 4).all
      (fun client => ¬ client.InputEnded) = true := by decide +kernel
  rw [applyTurns, List.foldl_nil] at hg
  rw [hg] at hmissed
  simp only [Option.all_some, decide_eq_true_eq] at hmissed
  exact hmissed hend

end WebServ
