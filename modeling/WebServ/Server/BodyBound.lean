import WebServ.Server.BodySteps

/-! # How much of a body a script gets

The limit for bodies is checked by the request parser, which leaves a request for a
script as soon as its head is read. What comes after that is handed over as it comes:
a script gets as much as its client sends.
-/
namespace WebServ
open Search World

/-! ## What a client sends -/

namespace Client

/-- What a read adds to the body: nothing if the decoder refuses it. -/
def decodedRead (d : ChunkDecoder) (bytes : Bytes) : Bytes :=
  let r := decodeChunkedForCgi d bytes
  if r.ok then r.decoded else []

def decoderAfter (d : ChunkDecoder) (reads : List Bytes) : ChunkDecoder :=
  reads.foldl (fun d bytes => (decodeChunkedForCgi d bytes).decoder) d

def decodedReads : ChunkDecoder → List Bytes → Bytes
  | _, [] => []
  | d, bytes :: reads => decodedRead d bytes ++ decodedReads (decodeChunkedForCgi d bytes).decoder reads

theorem decodedReads_concat (d : ChunkDecoder) (reads : List Bytes) (bytes : Bytes) :
    decodedReads d (reads ++ [bytes]) = decodedReads d reads ++ decodedRead (decoderAfter d reads) bytes := by
  induction reads generalizing d with
  | nil => simp [decodedReads, decoderAfter]
  | cons first reads ih =>
    simp only [List.cons_append, decodedReads, ih, decoderAfter, List.foldl_cons, List.append_assoc]

theorem decoderAfter_concat (d : ChunkDecoder) (reads : List Bytes) (bytes : Bytes) :
    decoderAfter d (reads ++ [bytes]) = (decodeChunkedForCgi (decoderAfter d reads) bytes).decoder := by
  simp [decoderAfter]

/-- The body as far as the client has sent it: what the request has of it when the script is
started, and what is read from then on. -/
def bodySent (client : Client) (reads : List Bytes) : Bytes :=
  let input := cgiInput client 0 0 0
  input.2.1 ++ if input.1.cgiChunked then decodedReads input.1.cgiChunk reads else reads.flatten

end Client

namespace World

/-- The input of a script is a matter of the request. -/
theorem cgiInput_congr {client client' : Client} (h : client'.request = client.request)
    (pid stdinFd stdoutFd pid' stdinFd' stdoutFd' : ℕ) :
    (cgiInput client' pid' stdinFd' stdoutFd').2 = (cgiInput client pid stdinFd stdoutFd).2 ∧
    (cgiInput client' pid' stdinFd' stdoutFd').1.cgiChunked = (cgiInput client pid stdinFd stdoutFd).1.cgiChunked ∧
    (cgiInput client' pid' stdinFd' stdoutFd').1.cgiChunk = (cgiInput client pid stdinFd stdoutFd).1.cgiChunk := by
  unfold cgiInput
  rw [h]
  dsimp only
  split
  · split <;> simp
  · simp [Client.startCgi]

end World

theorem Client.bodySent_congr {client client' : Client} (h : client'.request = client.request) :
    client'.bodySent = client.bodySent := by
  obtain ⟨hbody, hchunked, hdecoder⟩ := cgiInput_congr h 0 0 0 0 0 0
  funext reads
  rw [Client.bodySent, Client.bodySent, hbody, hchunked, hdecoder]

/-- More is sent with every read. -/
theorem Client.bodySent_prefix (client : Client) (reads : List Bytes) (bytes : Bytes) :
    client.bodySent reads <+: client.bodySent (reads ++ [bytes]) := by
  unfold Client.bodySent
  dsimp only
  rw [List.prefix_append_right_inj]
  split
  · rw [Client.decodedReads_concat]
    exact List.prefix_append _ _
  · rw [List.flatten_append]
    exact List.prefix_append _ _

/-! ## What is read and handed over -/

def Event.reads : Event → List Bytes
  | .bodyRead _ bytes => [bytes]
  | _ => []

/-- All that was read from the client for the last script of a connection. -/
def scriptReads (history : List Event) : List Bytes := (scriptRun history).flatMap Event.reads

theorem scriptReads_append {h es : List Event} (hes : es.any Event.isDispatched = false) :
    scriptReads (h ++ es) = scriptReads h ++ es.flatMap Event.reads := flatMap_sinceLast_append _ hes

/-- The script has got what its client has sent, as far as its pipe was open. -/
structure Client.Reading (client : Client) (history : List Event) : Prop where
  chunked : client.cgiChunked = (cgiInput client 0 0 0).1.cgiChunked
  handed : scriptHanded history <+: client.bodySent (scriptReads history)
  whole : client.cgiStdinFd ≠ none → scriptHanded history = client.bodySent (scriptReads history)
  decoder : client.cgiStdinFd ≠ none → client.cgiChunked = true →
    client.cgiChunk = Client.decoderAfter (cgiInput client 0 0 0).1.cgiChunk (scriptReads history)

/-- Events that have nothing to do with the body. -/
theorem quiet_events {es : List Event} (hes : ∀ e ∈ es, e.ofBody = false) :
    es.any Event.isDispatched = false ∧ es.flatMap Event.handedBytes = [] ∧ es.flatMap Event.reads = [] := by
  have hquiet (e : Event) (he : e ∈ es) : e.isDispatched = false ∧ e.handedBytes = [] ∧ e.reads = [] := by
    have hno := hes e he
    cases e <;> first | exact ⟨rfl, rfl, rfl⟩ | cases hno
  refine ⟨?_, List.flatMap_eq_nil_iff.mpr (fun e he => (hquiet e he).2.1),
    List.flatMap_eq_nil_iff.mpr (fun e he => (hquiet e he).2.2)⟩
  rw [List.any_eq_false]
  intro e he
  simp [(hquiet e he).1]

theorem Client.Reading.of_same {client client' : Client} {h es : List Event} (hr : client.Reading h)
    (hes : ∀ e ∈ es, e.ofBody = false) (hsame : client.SameBody client') : client'.Reading (h ++ es) := by
  obtain ⟨hd, hnoneHanded, hnoneRead⟩ := quiet_events hes
  have hhanded : scriptHanded (h ++ es) = scriptHanded h := by
    rw [scriptHanded_append hd, hnoneHanded, List.append_nil]
  have hreads : scriptReads (h ++ es) = scriptReads h := by
    rw [scriptReads_append hd, hnoneRead, List.append_nil]
  have hopen (hin : client'.cgiStdinFd ≠ none) : client.cgiStdinFd ≠ none := by
    intro hnone
    rcases hsame.stdin with hs | hs
    · exact hin (hs.trans hnone)
    · exact hin hs
  obtain ⟨-, hchunked, hdecoder⟩ := cgiInput_congr hsame.request 0 0 0 0 0 0
  have hsent := Client.bodySent_congr hsame.request
  constructor
  · rw [hsame.chunked, hchunked]
    exact hr.chunked
  · rw [hhanded, hreads, hsent]
    exact hr.handed
  · intro hin
    rw [hhanded, hreads, hsent]
    exact hr.whole (hopen hin)
  · intro hin hch
    rw [hsame.decoder, hreads, hdecoder]
    exact hr.decoder (hopen hin) (hsame.chunked ▸ hch)

/-- What a read adds to the body of a client. -/
def Client.brings (client : Client) (bytes : Bytes) : Bytes :=
  if client.cgiChunked then Client.decodedRead client.cgiChunk bytes else bytes

theorem Client.Reading.bodySent_concat {client : Client} {h : List Event} (hr : client.Reading h)
    (hopen : client.cgiStdinFd ≠ none) (bytes : Bytes) :
    client.bodySent (scriptReads h ++ [bytes]) = client.bodySent (scriptReads h) ++ client.brings bytes := by
  have hchunked := hr.chunked
  unfold Client.bodySent Client.brings
  dsimp only
  rw [← hchunked]
  cases hch : client.cgiChunked with
  | true =>
    rw [if_pos rfl, if_pos rfl, if_pos rfl, Client.decodedReads_concat, hr.decoder hopen hch, List.append_assoc]
  | false => simp

/-- What a read brings is handed over as long as the pipe is open. -/
theorem Client.Reading.read {client client' : Client} {h es : List Event} (hr : client.Reading h) (bytes : Bytes)
    (hrequest : client'.request = client.request) (hchunked : client'.cgiChunked = client.cgiChunked)
    (hes : es.any Event.isDispatched = false) (hreads : es.flatMap Event.reads = [bytes])
    (hopen : client.cgiStdinFd ≠ none) (hhanded : es.flatMap Event.handedBytes = client.brings bytes)
    (hdecoder : client.cgiChunked = true →
      client'.cgiChunk = (Client.decodeChunkedForCgi client.cgiChunk bytes).decoder) : client'.Reading (h ++ es) := by
  obtain ⟨-, hstart, hfirst⟩ := cgiInput_congr hrequest 0 0 0 0 0 0
  have hwhole : scriptHanded (h ++ es) = client'.bodySent (scriptReads (h ++ es)) := by
    rw [scriptHanded_append hes, scriptReads_append hes, hreads, Client.bodySent_congr hrequest,
      hr.bodySent_concat hopen, hr.whole hopen, hhanded]
  constructor
  · rw [hchunked, hstart]
    exact hr.chunked
  · rw [hwhole]
  · exact fun _ => hwhole
  · intro _ hch
    rw [hchunked] at hch
    rw [hdecoder hch, hr.decoder hopen hch, hfirst, scriptReads_append hes, hreads, Client.decoderAfter_concat]

/-- What comes after the pipe was closed is dropped. -/
theorem Client.Reading.drop {client client' : Client} {h es : List Event} (hr : client.Reading h) (bytes : Bytes)
    (hrequest : client'.request = client.request) (hchunked : client'.cgiChunked = client.cgiChunked)
    (hes : es.any Event.isDispatched = false) (hreads : es.flatMap Event.reads = [bytes])
    (hhanded : es.flatMap Event.handedBytes = []) (hclosed : client'.cgiStdinFd = none) :
    client'.Reading (h ++ es) := by
  obtain ⟨-, hstart, -⟩ := cgiInput_congr hrequest 0 0 0 0 0 0
  refine ⟨?_, ?_, fun hopen => absurd hclosed hopen, fun hopen => absurd hclosed hopen⟩
  · rw [hchunked, hstart]
    exact hr.chunked
  · rw [scriptHanded_append hes, scriptReads_append hes, hreads, hhanded, List.append_nil,
      Client.bodySent_congr hrequest]
    exact hr.handed.trans (client.bodySent_prefix _ bytes)

/-- Every running script is at the point to which its client has sent. -/
def World.AllReading (w : World) : Prop :=
  ∀ c client, w.getClient c = some client → client.cgiActive = true → client.Reading (w.history c)

theorem World.AllReading.of_changed {w w' : World} (h : w.AllReading) {c : Fd} {es : List Event} {o : Option Client}
    (hch : Changed w w' c es o)
    (hc : ∀ client' ∈ o, client'.cgiActive = true → client'.Reading (w.history c ++ es)) : w'.AllReading :=
  hch.scripts (P := fun _ client history => client.Reading history) h hc

theorem World.AllReading.kept {w w' : World} (h : w.AllReading) (hkeeps : w.KeepsBodies w') : w'.AllReading :=
  hkeeps.scripts (P := fun _ client history => client.Reading history) h
    (fun _ _ _ _ _ hr hquiet hsame => hr.of_same hquiet hsame)

/-- Bytes are read for a running script. -/
theorem World.AllReading.read {w : World} (h : w.AllReading) {c : Fd} {client : Client}
    (hg : w.getClient c = some client) (ha : client.cgiActive = true) (now : ℕ) (bytes : Bytes) (answer : ℕ) :
    (w.forwardBody now c client bytes answer).1.AllReading := by
  have hr := h c client hg ha
  cases hin : client.cgiStdinFd with
  | none =>
    refine h.of_changed (forwardBody_closed w c client now bytes answer hin) ?_
    rintro _ ⟨⟩ -
    exact hr.drop bytes rfl rfl rfl rfl rfl hin
  | some stdinFd =>
    have hopen : client.cgiStdinFd ≠ none := by simp [hin]
    cases hch : client.cgiChunked with
    | false =>
      obtain ⟨q, s, e, taken, -, -, -, hchange⟩ :=
        @forwardBody_counted w c client now bytes answer stdinFd hin hch
      refine h.of_changed hchange ?_
      rintro _ ⟨⟩ -
      exact hr.read bytes rfl rfl rfl rfl hopen (by simp [Event.handedBytes, Client.brings, hch])
        (fun hch' => absurd (hch.symm.trans hch') (by simp))
    | true =>
      cases hok : (Client.decodeChunkedForCgi client.cgiChunk bytes).ok with
      | true =>
        obtain ⟨q, s, e, taken, -, -, -, hchange⟩ := forwardBody_decoded (w := w) (c := c) now answer hin hch hok
        refine h.of_changed hchange ?_
        rintro _ ⟨⟩ -
        exact hr.read bytes rfl rfl rfl rfl hopen
          (by simp [Event.handedBytes, Client.brings, Client.decodedRead, hch, hok]) (fun _ => rfl)
      | false =>
        have hchange := forwardBody_failed (w := w) (c := c) now answer hin hch hok
        refine h.of_changed hchange ?_
        rintro _ ⟨⟩ -
        exact hr.read bytes rfl rfl rfl rfl hopen
          (by simp [Event.handedBytes, Client.brings, Client.decodedRead, hch, hok]) (fun _ => rfl)

/-- A script is started with what the request has of its body. -/
theorem World.AllReading.request {w : World} (h : w.AllReading) (a : Answers) {c : Fd} {client : Client} (idx : ℕ)
    (bytes : Bytes) (ha : client.cgiActive = false) : (w.requestBytes a c client idx bytes).AllReading := by
  rcases w.requestBytes_starts a idx bytes ha with hkeeps | ⟨parsed, pid, stdinFd, stdoutFd, q, s, e, taken, hch⟩
  · exact h.kept hkeeps
  · refine h.of_changed hch ?_
    rintro _ ⟨⟩ -
    obtain ⟨n, b, d, hclient⟩ := cgiInput_client parsed pid stdinFd stdoutFd
    generalize hcl : ({ (cgiInput parsed pid stdinFd stdoutFd).1 with
      cgiBodyBytesForwarded := (cgiInput parsed pid stdinFd stdoutFd).2.1.length, cgiStdinPending := q,
      cgiStdinFd := s, cgiStdinEof := e } : Client) = client'
    have hrequest : client'.request = parsed.request := by
      rw [← hcl, hclient]
      rfl
    obtain ⟨hbody, hchunked, hdecoder⟩ := cgiInput_congr hrequest pid stdinFd stdoutFd 0 0 0
    have hrun := scriptRun_dispatched (w.history c) [.requestRead c (Answered client) .dispatched]
      [.forwarded c [] (cgiInput parsed pid stdinFd stdoutFd).2.1 taken] c stdinFd stdoutFd rfl
    simp only [List.singleton_append] at hrun
    have hsent : client'.bodySent [] = (cgiInput parsed pid stdinFd stdoutFd).2.1 := by
      simp [Client.bodySent, hbody, Client.decodedReads]
    generalize hes : ([.requestRead c (Answered client) .dispatched, .dispatched c stdinFd stdoutFd,
      .forwarded c [] (cgiInput parsed pid stdinFd stdoutFd).2.1 taken] : List Event) = es at hrun ⊢
    have hreads : scriptReads (w.history c ++ es) = [] := by simp [scriptReads, hrun, Event.reads]
    have hhanded : scriptHanded (w.history c ++ es) = (cgiInput parsed pid stdinFd stdoutFd).2.1 := by
      simp [scriptHanded, hrun, Event.handedBytes]
    constructor
    · rw [hchunked, ← hcl]
    · rw [hhanded, hreads, hsent]
    · intro _
      rw [hhanded, hreads, hsent]
    · intro _ _
      rw [hreads, hdecoder, ← hcl]
      rfl

theorem BodyStep.allReading {w w' : World} (hstep : BodyStep w w') (h : w.AllReading) : w'.AllReading := by
  cases hstep with
  | kept hkeeps => exact h.kept hkeeps
  | read now bytes answer hg ha => exact h.read hg ha now bytes answer
  | request a idx bytes ha => exact h.request a idx bytes ha

theorem Reachable.allReading {s : LoopState} (h : Reachable s) : s.world.AllReading := by
  refine h.bodies ?_ ?_
  · intro w hw c client hg
    obtain ⟨-, hnone, -, -⟩ := hw.start
    rw [hnone] at hg
    cases hg
  · intro w w' hI hstep
    exact hstep.allReading hI

/-! ## The queue -/

/-- What the pipe took and what is pending make up what was handed over. -/
def InputCounted (history : List Event) (o : Option Client) : Prop := ∀ client ∈ o, client.cgiActive = true →
  (scriptAccepted history).length + client.cgiStdinPending.size = (scriptHanded history).length

theorem InputCounted.step {configs : List ServerConfig} {files : FileSystem} {c : Fd} {h es : List Event}
    {o o' : Option Client}
    (hk : InputCounted h o) (hstep : Connection.Step configs files c o es o') : InputCounted (h ++ es) o' := by
  intro client' ho' hact
  obtain rfl := Option.mem_def.mp ho'
  rcases hstep.input hact with ⟨client, rfl, ha, hd, hcases⟩ | ⟨body, taken, hrun, hp⟩
  · have hkept := hk client rfl ha
    rw [scriptAccepted_append hd, scriptHanded_append hd]
    rcases hcases with ⟨hh, hacc, hp⟩ | ⟨piece, taken, rfl, hp⟩ | ⟨own, pieces, rfl, hp⟩
    · rw [hh, hacc, List.append_nil, List.append_nil, hp]
      exact hkept
    · have hsize : client'.cgiStdinPending.size = client.cgiStdinPending.size + (piece.length - taken) := by
        rw [← OffsetBuffer.length_pending, ← OffsetBuffer.length_pending, hp, List.length_append, List.length_drop]
      rw [hsize]
      simp only [List.flatMap_singleton, Event.acceptedBytes, Event.handedBytes, List.length_append, List.length_take]
      omega
    · have hsize : client.cgiStdinPending.size = pieces.flatten.length + client'.cgiStdinPending.size := by
        rw [← OffsetBuffer.length_pending, ← OffsetBuffer.length_pending, hp, List.length_append]
      rw [acceptedBytes_flushed, handedBytes_flushed, List.append_nil, List.length_append]
      omega
  · simp only [scriptAccepted, scriptHanded, hrun, List.flatMap_singleton, Event.acceptedBytes, Event.handedBytes,
      ← OffsetBuffer.length_pending, hp, List.length_take, List.length_drop]
    omega

theorem Reachable.inputCounted {s : LoopState} (h : Reachable s) {c : Fd} {client : Client}
    (hg : s.world.getClient c = some client) (ha : client.cgiActive = true) :
    (scriptAccepted (s.world.history c)).length + client.cgiStdinPending.size =
      (scriptHanded (s.world.history c)).length := by
  have hstart : InputCounted [] none := by simp [InputCounted]
  have hkept := (h.connection c).invariant (fun hk ⟨_, hs⟩ => hk.step hs) hstart
  rw [List.nil_append] at hkept
  exact hkept client hg ha

/-! ## The limit -/

/-- The limit for the body of the client's request. -/
def World.bodyLimit (w : World) (client : Client) : ℕ :=
  HTTPHandler.effectiveMaxBody (matchRoute (stripQueryString client.request.requestTarget)
    (w.config client)) (w.config client)

/-- The bytes that the pipe to the script took, and those that wait for it. -/
def World.handedSize (w : World) (c : Fd) (client : Client) : ℕ :=
  (scriptAccepted (w.history c)).length + client.cgiStdinPending.size

/-- A script gets no more than the limit if its client sends no more; and as long as
its pipe is open, only then. -/
theorem script_body_limit {s : LoopState} (h : Reachable s) {c : Fd} {client : Client}
    (hg : s.world.getClient c = some client) (ha : client.cgiActive = true) :
    let sent := client.bodySent (scriptReads (s.world.history c))
    (sent.length ≤ s.world.bodyLimit client → s.world.handedSize c client ≤ s.world.bodyLimit client) ∧
    (client.cgiStdinFd ≠ none →
      (s.world.handedSize c client ≤ s.world.bodyLimit client ↔ sent.length ≤ s.world.bodyLimit client)) := by
  have hreading := h.allReading c client hg ha
  have hsize : s.world.handedSize c client = (scriptHanded (s.world.history c)).length := h.inputCounted hg ha
  have hle := hreading.handed.length_le
  refine ⟨fun hsent => by omega, ?_⟩
  intro hopen
  rw [hsize, hreading.whole hopen]

/-- The server with one script, and a limit of four bytes for bodies. -/
def limitedStart : LoopState :=
  ⟨(World.create [{ scriptServer with clientMaxBodySize := 4 }] [.listening 3]).getD {}, .poll⟩

theorem limitedStart_reachable (as : List Answers) : Reachable (limitedStart.run as) :=
  ⟨[{ scriptServer with clientMaxBodySize := 4 }], [.listening 3], _, as, rfl, rfl⟩

/-- The head of a chunked request starts a script, and bytes of its body follow. -/
def sendsChunked (bytes : Bytes) : List Answers :=
  connects ++ sends 4 (ascii "POST /a.py HTTP/1.1\r\nTransfer-Encoding: chunked\r\n\r\n") ++
    pass 4 [{}, { pollin := true }] { reads := [.data bytes], writes := [5] }

theorem script_body_limit_three : ∃ client,
    (limitedStart.run (sendsChunked (ascii "3\r\nabc\r\n"))).world.getClient 4 = some client ∧
    (limitedStart.run (sendsChunked (ascii "3\r\nabc\r\n"))).world.handedSize 4 client ≤ 4 := by
  have hclient : ((limitedStart.run (sendsChunked (ascii "3\r\nabc\r\n"))).world.getClient 4).map (fun client =>
      (client.cgiActive, (client.bodySent (scriptReads ((limitedStart.run (sendsChunked
        (ascii "3\r\nabc\r\n"))).world.history 4))).length,
        (limitedStart.run (sendsChunked (ascii "3\r\nabc\r\n"))).world.bodyLimit client)) = some (true, 3, 4) := by
    decide +kernel
  obtain ⟨client, hg, hparts⟩ := Option.map_eq_some_iff.mp hclient
  simp only [Prod.mk.injEq] at hparts
  obtain ⟨ha, hsent, hlimit⟩ := hparts
  have hbound := (script_body_limit (limitedStart_reachable _) hg ha).1
  rw [hsent, hlimit] at hbound
  exact ⟨client, hg, hbound (by decide)⟩

/-- A chunk of five bytes that comes after the head is handed over. -/
theorem script_body_unlimited : ¬ ∀ s, Reachable s → ∀ c client, s.world.getClient c = some client →
    client.cgiActive = true → 0 < s.world.bodyLimit client →
    s.world.handedSize c client ≤ s.world.bodyLimit client := by
  intro h
  have hclient : ((limitedStart.run (sendsChunked (ascii "5\r\nhello\r\n"))).world.getClient 4).map (fun client =>
      (client.cgiActive, (limitedStart.run (sendsChunked (ascii "5\r\nhello\r\n"))).world.handedSize 4 client,
        (limitedStart.run (sendsChunked (ascii "5\r\nhello\r\n"))).world.bodyLimit client)) = some (true, 5, 4) := by
    decide +kernel
  obtain ⟨client, hg, hparts⟩ := Option.map_eq_some_iff.mp hclient
  simp only [Prod.mk.injEq] at hparts
  obtain ⟨ha, hhanded, hlimit⟩ := hparts
  have hbound := h _ (limitedStart_reachable _) 4 client hg ha (by rw [hlimit]; decide)
  rw [hhanded, hlimit] at hbound
  exact absurd hbound (by decide)

end WebServ
