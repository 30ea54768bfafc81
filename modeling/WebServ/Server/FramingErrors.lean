import WebServ.Server.BodyBound
import WebServ.Server.Requests

/-! # Framing errors in the body of a script

When the decoder refuses bytes, the input of the script is over, and its pipe closes. But
with bytes pending the pipe stays open until they are written, and what is read until
then goes to the decoder again.
-/
namespace WebServ
open World Client

/-- The decoder after these events of a script's run. -/
def Client.decoderAt (client : Client) (before : List Event) : ChunkDecoder :=
  decoderAfter (cgiInput client 0 0 0).1.cgiChunk (before.flatMap Event.reads)

/-- A read in the run of a script that the decoder refused, and what follows it. -/
structure Client.Refused (c : Fd) (client : Client) (run before : List Event) (bytes : Bytes) (after : List Event) :
    Prop where
  read : run = before ++ .bodyRead c bytes :: after
  refused : (decodeChunkedForCgi (client.decoderAt before) bytes).ok = false

/-- Nothing more can be handed over: the pipe is closed, or the decoder refuses everything. -/
def Client.Silenced (client : Client) : Prop := client.cgiStdinFd = none ∨ client.cgiChunk.Halted

/-- A refused read is the last one that counts, unless pending bytes kept the pipe open for a
decoder that goes on. -/
def Client.Settled (c : Fd) (client : Client) (history : List Event) : Prop := client.cgiChunked = true →
  ∀ before bytes after, client.Refused c (scriptRun history) before bytes after →
    (∀ rest, after = .inputEnded c false true :: rest → LacksEndMark (client.decoderAt before) bytes) →
    after.flatMap Event.handedBytes = [] ∧ client.Silenced

theorem Client.decoderAt_congr {client client' : Client} (h : client'.request = client.request) :
    client'.decoderAt = client.decoderAt := by
  obtain ⟨-, -, hdecoder⟩ := cgiInput_congr h 0 0 0 0 0 0
  funext before
  rw [Client.decoderAt, Client.decoderAt, hdecoder]

/-- An occurrence in a record that has grown is an old one or lies in what was added. -/
theorem occurs_append {α : Type*} {xs ys before after : List α} {e : α} (h : xs ++ ys = before ++ e :: after) :
    (∃ mid, xs = before ++ e :: mid ∧ after = mid ++ ys) ∨ ∃ front, before = xs ++ front ∧ ys = front ++ e :: after := by
  rcases List.append_eq_append_iff.mp h with ⟨front, hbefore, hys⟩ | ⟨mid, hxs, hafter⟩
  · exact Or.inr ⟨front, hbefore, hys⟩
  · rcases List.cons_eq_append_iff.mp hafter with ⟨rfl, hys⟩ | ⟨mid', rfl, hmid⟩
    · exact Or.inr ⟨[], by rw [hxs, List.append_nil, List.append_nil], hys⟩
    · exact Or.inl ⟨mid', hxs, hmid⟩

/-- What a step adds to the run keeps the refused reads settled, if it does for the reads it adds itself. -/
theorem Client.Settled.append {c : Fd} {client client' : Client} {h es : List Event} (hs : client.Settled c h)
    (hes : es.any Event.isDispatched = false) (hrequest : client'.request = client.request)
    (hchunked : client'.cgiChunked = client.cgiChunked)
    (hquiet : client.cgiChunked = true → client.Silenced → es.flatMap Event.handedBytes = [] ∧ client'.Silenced)
    (hnew : client.cgiChunked = true → ∀ front bytes after, es = front ++ .bodyRead c bytes :: after →
      (decodeChunkedForCgi (client.decoderAt (scriptRun h ++ front)) bytes).ok = false →
      (∀ rest, after = .inputEnded c false true :: rest →
        LacksEndMark (client.decoderAt (scriptRun h ++ front)) bytes) →
      after.flatMap Event.handedBytes = [] ∧ client'.Silenced) : client'.Settled c (h ++ es) := by
  intro hch before bytes after hread hmark
  rw [hchunked] at hch
  have hrun : scriptRun (h ++ es) = scriptRun h ++ es := sinceLast_append (by simpa using hes)
  obtain ⟨hsplit, hrefused⟩ := hread
  rw [decoderAt_congr hrequest] at hrefused hmark
  rw [hrun] at hsplit
  rcases occurs_append hsplit with ⟨mid, hold, rfl⟩ | ⟨front, rfl, hadded⟩
  · obtain ⟨hhanded, hsilenced⟩ := hs hch before bytes mid ⟨hold, hrefused⟩ (by
      rintro rest rfl
      exact hmark (rest ++ es) rfl)
    obtain ⟨hno, hsilenced'⟩ := hquiet hch hsilenced
    exact ⟨by rw [List.flatMap_append, hhanded, hno, List.append_nil], hsilenced'⟩
  · exact hnew hch front bytes after hadded hrefused hmark

/-- Events that have nothing to do with the body. -/
theorem Client.Settled.of_same {c : Fd} {client client' : Client} {h es : List Event} (hs : client.Settled c h)
    (hes : ∀ e ∈ es, e.ofBody = false) (hsame : client.SameBody client') : client'.Settled c (h ++ es) := by
  obtain ⟨hd, hhanded, -⟩ := quiet_events hes
  refine hs.append hd hsame.request hsame.chunked ?_ ?_
  · intro _ hsilenced
    refine ⟨hhanded, ?_⟩
    rcases hsilenced with hnone | hhalted
    · exact Or.inl (hsame.stdin.elim (fun hs => hs.trans hnone) id)
    · exact Or.inr (hsame.decoder ▸ hhalted)
  · intro _ front bytes after hsplit
    have hno := hes (.bodyRead c bytes) (by rw [hsplit]; simp)
    cases hno

/-- Every read so far is settled for every running script. -/
def World.AllSettled (w : World) : Prop :=
  ∀ c client, w.getClient c = some client → client.cgiActive = true → client.Settled c (w.history c)

theorem World.AllSettled.kept {w w' : World} (h : w.AllSettled) (hkeeps : w.KeepsBodies w') : w'.AllSettled :=
  hkeeps.scripts (P := Client.Settled) h
    (fun _ _ _ _ _ hs hquiet hsame => hs.of_same hquiet hsame)

/-- The read is the only one among the events it leaves. -/
theorem read_eq {c : Fd} {e : Event} {front after : List Event} {bytes bytes' : Bytes}
    (he : e.reads = []) (h : [.bodyRead c bytes, e] = front ++ .bodyRead c bytes' :: after) :
    front = [] ∧ bytes' = bytes ∧ after = [e] := by
  cases front with
  | nil =>
    simp only [List.nil_append, List.cons.injEq, Event.bodyRead.injEq, true_and] at h
    exact ⟨rfl, h.1.symm, h.2.symm⟩
  | cons e₀ front =>
    simp only [List.cons_append, List.cons.injEq] at h
    cases front with
    | nil =>
      simp only [List.nil_append, List.cons.injEq] at h
      rw [h.2.1] at he
      cases he
    | cons e₁ front => simp at h

theorem World.AllSettled.read {w : World} (h : w.AllSettled) (hreading : w.AllReading) {c : Fd} {client : Client}
    (hg : w.getClient c = some client) (ha : client.cgiActive = true) (now : ℕ) (bytes : Bytes) (answer : ℕ) :
    (w.forwardBody now c client bytes answer).1.AllSettled := by
  have hs := h c client hg ha
  cases hin : client.cgiStdinFd with
  | none =>
    refine (forwardBody_closed w c client now bytes answer hin).scripts (P := Client.Settled) h ?_
    rintro _ ⟨⟩ -
    refine hs.append rfl rfl rfl (fun _ _ => ⟨rfl, Or.inl hin⟩) ?_
    intro _ front bytes' after hsplit _ _
    cases front with
    | nil =>
      simp only [List.nil_append, List.cons.injEq] at hsplit
      rw [← hsplit.2]
      exact ⟨rfl, Or.inl hin⟩
    | cons e front => simp at hsplit
  | some stdinFd =>
    have hopen : client.cgiStdinFd ≠ none := by simp [hin]
    have hdecoder (hch : client.cgiChunked = true) : client.decoderAt (scriptRun (w.history c)) = client.cgiChunk :=
      ((hreading c client hg ha).decoder hopen hch).symm
    have hhalted (hsilenced : client.Silenced) : client.cgiChunk.Halted := hsilenced.resolve_left hopen
    cases hch : client.cgiChunked with
    | false =>
      obtain ⟨q, s, e, taken, -, -, -, hchange⟩ := @forwardBody_counted w c client now bytes answer stdinFd hin hch
      refine hchange.scripts (P := Client.Settled) h ?_
      rintro _ ⟨⟩ - hch'
      cases hch.symm.trans hch'
    | true =>
      cases hok : (decodeChunkedForCgi client.cgiChunk bytes).ok with
      | true =>
        obtain ⟨q, s, e, taken, -, -, -, hchange⟩ := forwardBody_decoded (w := w) (c := c) now answer hin hch hok
        refine hchange.scripts (P := Client.Settled) h ?_
        rintro _ ⟨⟩ -
        refine hs.append rfl rfl rfl ?_ ?_
        · -- a decoder that is stuck would have refused these bytes
          intro _ hsilenced
          cases hok.symm.trans ((hhalted hsilenced).call bytes).1
        · intro _ front bytes' after hsplit hno _
          obtain ⟨rfl, rfl, -⟩ := read_eq rfl hsplit
          rw [List.append_nil, hdecoder hch, hok] at hno
          cases hno
      | false =>
        refine (forwardBody_failed (w := w) (c := c) now answer hin hch hok).scripts (P := Client.Settled) h ?_
        rintro _ ⟨⟩ -
        refine hs.append rfl rfl rfl ?_ ?_
        · exact fun _ hsilenced => ⟨rfl, Or.inr ((hhalted hsilenced).call bytes).2⟩
        · intro _ front bytes' after hsplit _ hmark
          obtain ⟨rfl, rfl, rfl⟩ := read_eq rfl hsplit
          refine ⟨rfl, ?_⟩
          cases hpending : client.cgiStdinPending.isEmpty with
          | true => exact Or.inl (by simp)
          | false =>
            have hlacks := hmark [] (by rw [hpending])
            rw [List.append_nil, hdecoder hch] at hlacks
            exact Or.inr (hlacks.halted hok)

/-- A script starts with nothing read for it. -/
theorem World.AllSettled.request {w : World} (h : w.AllSettled) (a : Answers) {c : Fd} {client : Client} (idx : ℕ)
    (bytes : Bytes) (ha : client.cgiActive = false) : (w.requestBytes a c client idx bytes).AllSettled := by
  rcases w.requestBytes_starts a idx bytes ha with hkeeps | ⟨parsed, pid, stdinFd, stdoutFd, q, s, e, taken, hch⟩
  · exact h.kept hkeeps
  · refine hch.scripts (P := Client.Settled) h ?_
    rintro _ ⟨⟩ - - before read after ⟨hsplit, -⟩
    have hrun := scriptRun_dispatched (w.history c) [.requestRead c (Answered client) .dispatched]
      [.forwarded c [] (cgiInput parsed pid stdinFd stdoutFd).2.1 taken] c stdinFd stdoutFd rfl
    simp only [List.singleton_append] at hrun
    rw [hrun] at hsplit
    cases before with
    | nil => cases hsplit
    | cons e before => simp at hsplit

theorem Reachable.allSettled {s : LoopState} (h : Reachable s) : s.world.AllSettled := by
  have hboth := h.bodies (I := fun w => w.AllReading ∧ w.AllSettled) ?_ ?_
  · exact hboth.2
  · intro w hw
    obtain ⟨-, hnone, -, -⟩ := hw.start
    constructor
    · intro c client hg
      rw [hnone] at hg
      cases hg
    · intro c client hg
      rw [hnone] at hg
      cases hg
  · rintro w w' ⟨hreading, hsettled⟩ hstep
    refine ⟨hstep.allReading hreading, ?_⟩
    cases hstep with
    | kept hkeeps => exact hsettled.kept hkeeps
    | read now bytes answer hg ha => exact hsettled.read hreading hg ha now bytes answer
    | request a idx bytes ha => exact hsettled.request a idx bytes ha

theorem cgiInput_chunked (client : Client) (pid stdinFd stdoutFd : ℕ) :
    (cgiInput client pid stdinFd stdoutFd).1.cgiChunked = client.request.announcesChunked := by
  have hkey : (ascii "Transfer-Encoding").map toLower = (ascii "transfer-encoding").map toLower := by decide
  unfold cgiInput HTTPRequest.announcesChunked HTTPRequest.getHeaderValue
  rw [hkey]
  dsimp only
  split
  · next hte => split <;> simp [hte]
  · next hte => simpa [Client.startCgi] using hte

/-- What the parser leaves to the decoder is not refused. Where bytes from the client are,
nothing read later is handed over to the script, if whenever bytes were pending the error
was at the end mark of a block. -/
theorem framing_errors_final {s : LoopState} (h : Reachable s) {c : Fd} {client : Client}
    (hg : s.world.getClient c = some client) (ha : client.cgiActive = true) (hch : client.cgiChunked = true)
    (hmark : ∀ before bytes rest,
      client.Refused c (scriptRun (s.world.history c)) before bytes (.inputEnded c false true :: rest) →
      LacksEndMark (client.decoderAt before) bytes) :
    (leftoverCall client.request).ok = true ∧ ∀ before bytes after,
      client.Refused c (scriptRun (s.world.history c)) before bytes after → after.flatMap Event.handedBytes = [] := by
  have hte : client.request.announcesChunked = true := by
    rw [← cgiInput_chunked client 0 0 0, ← (h.allReading c client hg ha).chunked]
    exact hch
  refine ⟨(h.parsing c client hg).2 ha hte, fun before bytes after hrefused => ?_⟩
  refine (h.allSettled c client hg ha hch before bytes after hrefused ?_).1
  rintro rest rfl
  exact hmark before bytes rest hrefused

/-- The head of a chunked request starts a script, and its body comes in pieces, of each of which
the pipe takes at most `taken` bytes. -/
def sendsPieces (taken : ℕ) (pieces : List Bytes) : List Answers :=
  connects ++ sends 4 (ascii "POST /a.py HTTP/1.1\r\nTransfer-Encoding: chunked\r\n\r\n") ++
    pieces.flatMap (fun bytes => pass 4 [{}, { pollin := true }] { reads := [.data bytes], writes := [taken] })

/-- A chunk, a size line that is no number, and another chunk. -/
def brokenBody : List Bytes := [ascii "5\r\nhello\r\n", ascii "zz\r\n", ascii "1\r\nx"]

theorem framing_errors_final_zz : ∃ client,
    (scriptStart.run (sendsPieces 5 brokenBody)).world.getClient 4 = some client ∧
    (leftoverCall client.request).ok = true ∧ ∀ before bytes after,
      client.Refused 4 (scriptRun ((scriptStart.run (sendsPieces 5 brokenBody)).world.history 4)) before bytes after →
      after.flatMap Event.handedBytes = [] := by
  have hclient : ((scriptStart.run (sendsPieces 5 brokenBody)).world.getClient 4).any (fun client =>
      client.cgiActive && client.cgiChunked) := by decide +kernel
  obtain ⟨client, hg, hprop⟩ := (Option.any_eq_true _ _).mp hclient
  rw [Bool.and_eq_true] at hprop
  refine ⟨client, hg, framing_errors_final (scriptStart_reachable _) hg hprop.1 hprop.2 ?_⟩
  intro before bytes rest hrefused
  have hnever : .inputEnded 4 false true ∉
      scriptRun ((scriptStart.run (sendsPieces 5 brokenBody)).world.history 4) := by decide +kernel
  rw [hrefused.read] at hnever
  exact absurd (by simp) hnever

/-- What happened up to the size line. -/
def beforeError : List Event :=
  [.forwarded 4 [] [] 0, .bodyRead 4 (ascii "5\r\nhello\r\n"), .forwarded 4 [] (ascii "hello") 0]

/-- What happened after it. -/
def afterError : List Event :=
  [.inputEnded 4 false true, .bodyRead 4 (ascii "1\r\nx"), .forwarded 4 (ascii "hello") (ascii "x") 0]

/-- The pipe takes nothing of the first chunk, and the last one is queued behind it. -/
theorem framing_error_passed : ¬ ∀ s, Reachable s → ∀ c client, s.world.getClient c = some client →
    client.cgiActive = true → client.cgiChunked = true → ∀ before bytes after,
    client.Refused c (scriptRun (s.world.history c)) before bytes after → after.flatMap Event.handedBytes = [] := by
  intro h
  have hrun : scriptRun ((scriptStart.run (sendsPieces 0 brokenBody)).world.history 4) =
      beforeError ++ .bodyRead 4 (ascii "zz\r\n") :: afterError := by decide +kernel
  have hclient : ((scriptStart.run (sendsPieces 0 brokenBody)).world.getClient 4).any (fun client =>
      client.cgiActive && client.cgiChunked &&
        !(decodeChunkedForCgi (client.decoderAt beforeError) (ascii "zz\r\n")).ok) := by decide +kernel
  obtain ⟨client, hg, hprop⟩ := (Option.any_eq_true _ _).mp hclient
  simp only [Bool.and_eq_true, Bool.not_eq_true'] at hprop
  have hnone := h _ (scriptStart_reachable _) 4 client hg hprop.1.1 hprop.1.2 beforeError (ascii "zz\r\n")
    afterError ⟨hrun, hprop.2⟩
  revert hnone
  decide

end WebServ
