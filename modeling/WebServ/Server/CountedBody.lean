import WebServ.Server.HandOver

/-! # The hand-over of a counted body

What the parser took of a body of known length and the reads after the dispatch are
handed over as they come. They are the body as long as no read that is handed over
goes past its end.
-/
namespace WebServ
open Search HTTPRequest World

/-! ## The front part -/

/-- A request on whose counted body the parser works, or has worked; `rest` is what the
client sends after that. -/
structure CutCounted (body rest : Bytes) (request : HTTPRequest) : Prop where
  parsed : ∃ limit head r sent pieces suffix, HeadAccepted limit head r ∧ r.announcesChunked = false ∧
    Announces r body body ∧ sent ++ rest = body ++ suffix ∧ pieces ≠ [] ∧ pieces.flatten = head ++ sent ∧
    request = ((fresh limit).parsePieces pieces).2
  noError : request.isError = false

/-- The parser has taken as much of the body as there was. -/
theorem CutCounted.taken {body rest : Bytes} {request : HTTPRequest} (h : CutCounted body rest request) :
    request.announcesChunked = false ∧ request.getHeaderValue (ascii "Content-Length") ≠ [] ∧
      request.contentLength = body.length ∧ ∃ sent suffix, sent ++ rest = body ++ suffix ∧
        request.body = sent.take body.length := by
  obtain ⟨limit, head, r, sent, pieces, suffix, hhead, hte, hann, hcut, hne, hpieces, hreq⟩ := h.parsed
  obtain ⟨p, ps, rfl⟩ := List.exists_cons_of_ne_nil hne
  rw [parsePieces_eq_parse, hpieces] at hreq
  cases hann with
  | chunked _ hte' =>
    rw [hte] at hte'
    cases hte'
  | length _ hv hdigits hval hbound =>
    have hlen : r.contentLength = body.length := by
      rw [contentLength, atol_digits hv hdigits (by omega), hval, toSizeT_natCast (by omega)]
    have hfit : limit = 0 ∨ r.contentLength ≤ limit := by
      by_contra hover
      obtain ⟨r', hparse, herr, -⟩ := hhead.length_refused sent hte hv (by omega) (by omega)
      have hok := h.noError
      rw [hreq, hparse, herr] at hok
      cases hok
    have hfeed := hhead.feed_length sent hte hv hfit
    have hbody := congrArg HTTPRequest.body hfeed
    have hheaders : (machine.feed (fresh limit) (head ++ sent)).headers = r.headers := by rw [hfeed]
    rw [parse_eq_feed] at hreq
    subst hreq
    have hvalue (key : Bytes) : (machine.feed (fresh limit) (head ++ sent)).getHeaderValue key = r.getHeaderValue key := by
      rw [getHeaderValue, hheaders, getHeaderValue]
    refine ⟨(announcesChunked_congr hheaders).trans hte, hvalue _ ▸ hv, ?_, sent, suffix, hcut, hlen ▸ hbody⟩
    rw [contentLength, hvalue]
    exact hlen

/-- The dispatch hands over what was taken, and knows the length. -/
theorem cgiInput_counted {body rest : Bytes} {client : Client} (h : CutCounted body rest client.request)
    (pid stdinFd stdoutFd : ℕ) :
    let input := cgiInput client pid stdinFd stdoutFd
    input.1.cgiChunked = false ∧ input.1.cgiBodyContentLength = body.length ∧
      (body.length ≤ input.2.1.length ∧ input.2.2 = true ∧ input.2.1 = body ∨
        input.2.1.length < body.length ∧ input.2.2 = false ∧ body <+: input.2.1 ++ rest) := by
  obtain ⟨hte, hv, hlen, sent, suffix, hcut, hbody⟩ := h.taken
  have hlength : (ascii "Content-Length").map toLower = (ascii "content-length").map toLower := by decide
  have hcoding : (ascii "Transfer-Encoding").map toLower = (ascii "transfer-encoding").map toLower := by decide
  have hte' : contains (ascii "chunked")
      ((client.request.getHeaderValue (ascii "transfer-encoding")).map toLower) = false := by
    simpa only [announcesChunked, getHeaderValue, hcoding] using hte
  have hv' : client.request.getHeaderValue (ascii "content-length") ≠ [] := by
    simpa only [getHeaderValue, hlength] using hv
  have hlen' : toSizeT (atol (client.request.getHeaderValue (ascii "content-length"))) = body.length := by
    simpa only [contentLength, getHeaderValue, hlength] using hlen
  unfold cgiInput
  dsimp only
  rw [hte', if_neg hv', hlen']
  refine ⟨rfl, rfl, ?_⟩
  simp only [Bool.not_false, Bool.true_and, Bool.false_eq_true, if_false, hbody]
  by_cases hall : body.length ≤ sent.length
  · have htake : sent.take body.length = body := by
      have hfront := congrArg (List.take body.length) hcut
      rwa [List.take_append_of_le_length hall, List.take_left] at hfront
    rw [htake]
    exact Or.inl ⟨le_rfl, by simp, rfl⟩
  · have htake : sent.take body.length = sent := List.take_of_length_le (by omega)
    rw [htake, hcut]
    refine Or.inr ⟨by omega, ?_, List.prefix_append _ _⟩
    rw [Bool.or_eq_false_iff, decide_eq_false_iff_not, decide_eq_false_iff_not]
    omega

/-! ## Turns -/

/-- A read that finds the pipe open brings no more than is missing. -/
def Turn.Within (c : Fd) (w : World) : Turn → Prop
  | .read _ bytes _ => ∀ client, w.getClient c = some client → client.cgiStdinFd ≠ none →
      client.cgiBodyBytesForwarded + bytes.length ≤ client.cgiBodyContentLength
  | .writable .. => True

/-- The connection counts what it hands over of a body. -/
structure Counting (body : Bytes) (client : Client) (handed : Bytes) : Prop where
  chunked : client.cgiChunked = false
  length : client.cgiBodyContentLength = body.length
  count : client.cgiBodyBytesForwarded = handed.length

/-- The hand-over goes on, with `rest` still to be read, or its end is recorded. -/
def InHand (body : Bytes) (client : Client) (handed rest : Bytes) : Prop :=
  handed.length < body.length ∧ client.cgiStdinFd ≠ none ∧ client.cgiStdinEof = false ∧ body <+: handed ++ rest ∨
    handed = body ∧ client.InputEnded

/-- A turn that hands nothing over. -/
structure Idles (client client' : Client) (turn : Turn) : Prop where
  ended : client.InputEnded → client'.InputEnded
  going : ¬ client.InputEnded → client'.cgiStdinFd = client.cgiStdinFd ∧ client'.cgiStdinEof = client.cgiStdinEof
  nothing : client.cgiStdinFd = none ∨ turn.bytes = []

/-- A turn whose bytes are handed over; with enough of them the end is recorded. -/
structure Hands (body : Bytes) (client client' : Client) (handed : Bytes) (turn : Turn) : Prop where
  opened : client.cgiStdinFd ≠ none
  read : turn.Proper → turn.bytes ≠ []
  ended : 0 < body.length → body.length ≤ (handed ++ turn.bytes).length → client'.InputEnded
  going : (handed ++ turn.bytes).length < body.length →
    client'.cgiStdinFd = client.cgiStdinFd ∧ client'.cgiStdinEof = client.cgiStdinEof

/-- What a turn does to a connection that counts. -/
theorem Counting.turn {body : Bytes} {w : World} {c : Fd} {client : Client} (hg : w.getClient c = some client)
    (h : Counting body client (scriptHanded (w.history c))) (turn : Turn) :
    ∃ client', (turn.apply c w).getClient c = some client' ∧
      Counting body client' (scriptHanded ((turn.apply c w).history c)) ∧
      (scriptHanded ((turn.apply c w).history c) = scriptHanded (w.history c) ∧ Idles client client' turn ∨
        scriptHanded ((turn.apply c w).history c) = scriptHanded (w.history c) ++ turn.bytes ∧
          Hands body client client' (scriptHanded (w.history c)) turn) := by
  obtain ⟨hchunked, hlength, hcount⟩ := h
  cases turn with
  | read now bytes answer =>
    have happly : Turn.apply c w (.read now bytes answer) = (w.forwardBody now c client bytes answer).1 := by
      simp only [Turn.apply, hg]
    rw [happly]
    cases hin : client.cgiStdinFd with
    | none =>
      have hch := forwardBody_closed w c client now bytes answer hin
      have hhanded : scriptHanded ((w.forwardBody now c client bytes answer).1.history c) =
          scriptHanded (w.history c) := by
        rw [hch.history, if_pos rfl, scriptHanded_append rfl]
        simp [Event.handedBytes]
      refine ⟨client.updateActivity now, by rw [hch.client, if_pos rfl], ?_, Or.inl ⟨hhanded, id, ?_, Or.inl hin⟩⟩
      · rw [hhanded]
        exact ⟨hchunked, hlength, hcount⟩
      · exact fun _ => ⟨rfl, rfl⟩
    | some stdinFd =>
      obtain ⟨q, s, e, taken, -, hlast, hmore, hch⟩ :=
        @forwardBody_counted w c client now bytes answer stdinFd hin hchunked
      have hhanded : scriptHanded ((w.forwardBody now c client bytes answer).1.history c) =
          scriptHanded (w.history c) ++ bytes := by
        rw [hch.history, if_pos rfl, scriptHanded_append rfl]
        simp [Event.handedBytes]
      have hsum : client.cgiBodyBytesForwarded + bytes.length = (scriptHanded (w.history c) ++ bytes).length := by
        rw [hcount, List.length_append]
      rw [hsum, hlength] at hlast hmore
      refine ⟨_, by rw [hch.client, if_pos rfl], ?_, Or.inr ⟨hhanded, by simp [hin], id, ?_, ?_⟩⟩
      · rw [hhanded]
        exact ⟨hchunked, hlength, hsum⟩
      · intro hpos hle
        exact hlast (decide_eq_true ⟨hpos, hle⟩)
      · intro hlt
        exact hmore (decide_eq_false (fun hend => by exact absurd hend.2 (Nat.not_le_of_lt hlt)))
  | writable a idx =>
    obtain ⟨q, s, hs, hg', es, hhist, hnd, hno⟩ := writable_input a idx hg
    have hhanded : scriptHanded ((w.handleCgiStdinWritable a idx).2.history c) = scriptHanded (w.history c) := by
      rw [hhist, scriptHanded_append hnd, hno, List.append_nil]
    refine ⟨_, hg', ?_, Or.inl ⟨hhanded, ?_, ?_, Or.inr rfl⟩⟩
    · change Counting body _ (scriptHanded ((w.handleCgiStdinWritable a idx).2.history c))
      rw [hhanded]
      exact ⟨hchunked, hlength, hcount⟩
    · intro hend
      rcases hs with hs | ⟨hs, -⟩
      · exact hend.imp id (fun hclosed => hs.trans hclosed)
      · exact Or.inr hs
    · intro hgoing
      rcases hs with hs | ⟨-, he⟩
      · exact ⟨hs, rfl⟩
      · exact absurd (Or.inl he) hgoing

/-- A turn within the body keeps the hand-over in hand. -/
theorem InHand.turn {body : Bytes} {w : World} {c : Fd} {client : Client} {rest : Bytes} {turn : Turn}
    (hg : w.getClient c = some client) (hcount : Counting body client (scriptHanded (w.history c)))
    (h : InHand body client (scriptHanded (w.history c)) (turn.bytes ++ rest)) (hproper : turn.Proper)
    (hwithin : turn.Within c w) : ∃ client', (turn.apply c w).getClient c = some client' ∧
      Counting body client' (scriptHanded ((turn.apply c w).history c)) ∧
      InHand body client' (scriptHanded ((turn.apply c w).history c)) rest := by
  obtain ⟨client', hg', hcount', hcases⟩ := hcount.turn hg turn
  refine ⟨client', hg', hcount', ?_⟩
  rcases hcases with ⟨hhanded, hidle⟩ | ⟨hhanded, hhands⟩
  · rw [hhanded]
    rcases h with ⟨hlt, hopen, heof, hprefix⟩ | ⟨hall, hend⟩
    · obtain ⟨hs, he⟩ := hidle.going (by simp [Client.InputEnded, hopen, heof])
      rw [hidle.nothing.resolve_left hopen, List.nil_append] at hprefix
      exact Or.inl ⟨hlt, hs ▸ hopen, he.trans heof, hprefix⟩
    · exact Or.inr ⟨hall, hidle.ended hend⟩
  · have hfit : (scriptHanded (w.history c) ++ turn.bytes).length ≤ body.length := by
      cases turn with
      | read now bytes answer =>
        have hle := hwithin client hg hhands.opened
        rw [hcount.count, hcount.length] at hle
        rwa [List.length_append]
      | writable a idx => exact absurd rfl (hhands.read hproper)
    rw [hhanded]
    rcases h with ⟨hlt, hopen, heof, hprefix⟩ | ⟨hall, hend⟩
    · rw [← List.append_assoc] at hprefix
      rcases Nat.lt_or_eq_of_le hfit with hmore | hdone
      · obtain ⟨hs, he⟩ := hhands.going hmore
        exact Or.inl ⟨hmore, hs ▸ hopen, he.trans heof, hprefix⟩
      · right
        refine ⟨?_, hhands.ended (by omega) hdone.ge⟩
        have hwhole := List.prefix_of_prefix_length_le hprefix (List.prefix_append _ rest) hdone.ge
        exact (hwhole.eq_of_length hdone.symm).symm
    · -- nothing can follow the whole body
      rw [hall, List.length_append] at hfit
      exact absurd (List.length_eq_zero_iff.mp (by omega)) (hhands.read hproper)

/-! ## Runs of turns -/

theorem applyTurns_concat (c : Fd) (w : World) (turns : List Turn) (turn : Turn) :
    applyTurns c w (turns ++ [turn]) = turn.apply c (applyTurns c w turns) := by
  simp [applyTurns]

/-- The connection counts, and the hand-over is in hand. -/
def CountedTo (body : Bytes) (w : World) (c : Fd) (rest : Bytes) : Prop :=
  ∃ client, w.getClient c = some client ∧ Counting body client (scriptHanded (w.history c)) ∧
    InHand body client (scriptHanded (w.history c)) rest

theorem CountedTo.turns {body : Bytes} {w : World} {c : Fd} {turns : List Turn}
    (h : CountedTo body w c (turns.flatMap Turn.bytes)) (hproper : ∀ turn ∈ turns, turn.Proper)
    (hwithin : ∀ ts turn, ts ++ [turn] <+: turns → turn.Within c (applyTurns c w ts)) (ts us : List Turn)
    (hsplit : ts ++ us = turns) : CountedTo body (applyTurns c w ts) c (us.flatMap Turn.bytes) := by
  induction ts using List.reverseRecOn generalizing us with
  | nil =>
    subst hsplit
    exact h
  | append_singleton ts turn ih =>
    have hsplit' : ts ++ turn :: us = turns := by rw [← hsplit, List.append_assoc, List.singleton_append]
    obtain ⟨client, hg, hcount, hin⟩ := ih (turn :: us) hsplit'
    rw [List.flatMap_cons] at hin
    have hmem : turn ∈ turns := by simp [← hsplit]
    rw [applyTurns_concat]
    exact hin.turn hg hcount (hproper turn hmem) (hwithin ts turn ⟨us, hsplit⟩)

theorem Counting.turns {body : Bytes} {w : World} {c : Fd} {client : Client} (hg : w.getClient c = some client)
    (h : Counting body client (scriptHanded (w.history c))) (turns : List Turn) :
    ∃ client', (applyTurns c w turns).getClient c = some client' ∧
      Counting body client' (scriptHanded ((applyTurns c w turns).history c)) := by
  induction turns using List.reverseRecOn with
  | nil => exact ⟨client, hg, h⟩
  | append_singleton turns turn ih =>
    obtain ⟨client', hg', hcount⟩ := ih
    obtain ⟨client'', hg'', hcount', -⟩ := hcount.turn hg' turn
    rw [applyTurns_concat]
    exact ⟨client'', hg'', hcount'⟩

/-- What was handed over is a front part of the body, and its end is recorded when, and only
when, that is all of it. -/
def FramedBody (body : Bytes) (w : World) (c : Fd) : Prop := scriptHanded (w.history c) <+: body ∧
  ∃ client, w.getClient c = some client ∧ (client.InputEnded ↔ scriptHanded (w.history c) = body)

theorem CountedTo.framed {body : Bytes} {w : World} {c : Fd} {rest : Bytes} (h : CountedTo body w c rest) :
    FramedBody body w c := by
  obtain ⟨client, hg, -, ⟨hlt, hopen, heof, hprefix⟩ | ⟨hall, hend⟩⟩ := h
  · refine ⟨List.prefix_of_prefix_length_le (List.prefix_append _ rest) hprefix hlt.le, client, hg, ?_⟩
    refine iff_of_false (by simp [Client.InputEnded, hopen, heof]) ?_
    intro heq
    rw [heq] at hlt
    exact absurd hlt (lt_irrefl _)
  · exact ⟨hall ▸ List.prefix_rfl, client, hg, iff_of_true hend hall⟩

theorem CountedTo.whole {body : Bytes} {w : World} {c : Fd} (h : CountedTo body w c []) :
    scriptHanded (w.history c) = body := by
  obtain ⟨client, -, -, ⟨hlt, -, -, hprefix⟩ | ⟨hall, -⟩⟩ := h
  · rw [List.append_nil] at hprefix
    exact absurd hprefix.length_le (Nat.not_le_of_lt hlt)
  · exact hall

/-- The dispatch of a request with a counted body. -/
theorem Dispatches.countedTo {body rest : Bytes} {w : World} {a : Answers} {c : Fd} {client : Client} {idx : ℕ}
    (hd : Dispatches w a c client idx) (hcut : CutCounted body rest client.request) :
    CountedTo body (w.dispatchCgi a c client idx) c rest := by
  obtain ⟨v, pid, stdinFd, stdoutFd, hv, hstart⟩ := hd.startCgiRun
  obtain ⟨q, s, e, taken, -, hdone, hmore, -, hch⟩ := v.startCgiRun_input a c client pid stdinFd stdoutFd
  obtain ⟨hchunked, hlength, hcases⟩ := cgiInput_counted hcut pid stdinFd stdoutFd
  have hhanded := v.startCgiRun_handed a c client pid stdinFd stdoutFd
  rw [hstart]
  refine ⟨_, by rw [hch.client, if_pos rfl], ?_, ?_⟩
  · rw [hhanded]
    exact ⟨hchunked, hlength, rfl⟩
  · rw [hhanded]
    rcases hcases with ⟨-, hall, hbody⟩ | ⟨hlt, hpart, hprefix⟩
    · exact Or.inr ⟨hbody, (hdone hall).symm⟩
    · obtain ⟨hs, he⟩ := hmore hpart
      exact Or.inl ⟨hlt, by simp [hs], he, hprefix⟩

/-- A counted body reaches the script whole and alone, and its end is recorded when all of it
has been handed over, exactly when no read that finds the pipe open goes past the end. -/
theorem counted_body_iff {body : Bytes} {w : World} {a : Answers} {c : Fd} {client : Client} {idx : ℕ}
    (hd : Dispatches w a c client idx) (turns : List Turn) (hproper : ∀ turn ∈ turns, turn.Proper)
    (hcut : CutCounted body (turns.flatMap Turn.bytes) client.request) :
    ((∀ ts, ts <+: turns → FramedBody body (applyTurns c (w.dispatchCgi a c client idx) ts) c) ∧
      scriptHanded ((applyTurns c (w.dispatchCgi a c client idx) turns).history c) = body) ↔
    ∀ ts turn, ts ++ [turn] <+: turns → turn.Within c (applyTurns c (w.dispatchCgi a c client idx) ts) := by
  have hstart := hd.countedTo hcut
  constructor
  · rintro ⟨hframed, -⟩ ts turn hts
    obtain ⟨client₀, hg₀, hcount₀, -⟩ := hstart
    obtain ⟨client₁, hg₁, hcount₁⟩ := hcount₀.turns hg₀ ts
    obtain ⟨client₂, -, -, hcases⟩ := hcount₁.turn hg₁ turn
    cases turn with
    | writable a idx => trivial
    | read now bytes answer =>
      intro client' hg' hopen
      obtain rfl : client₁ = client' := Option.some.inj (hg₁.symm.trans hg')
      have hne : bytes ≠ [] := hproper (.read now bytes answer) (hts.subset (by simp))
      have hhanded := hcases.resolve_left (fun h => h.2.nothing.elim hopen hne)
      have hle := (hframed _ hts).1.length_le
      rw [applyTurns_concat, hhanded.1, List.length_append] at hle
      rw [hcount₁.count, hcount₁.length]
      exact hle
  · intro hwithin
    refine ⟨?_, ?_⟩
    · rintro ts ⟨us, hsplit⟩
      exact (hstart.turns hproper hwithin ts us hsplit).framed
    · exact (hstart.turns hproper hwithin turns [] (List.append_nil turns)).whole

/-! ## A body of three bytes -/

def countedPost : Bytes := ascii "POST /a.py HTTP/1.1\r\nContent-Length: 3\r\n\r\n"

/-- A client whose first bytes hold the head and some of the body. -/
def countedClient (sent : Bytes) : Client :=
  (readRequest {} scriptServer (Client.create 4 0 0) (countedPost ++ sent)).2

theorem countedClient_cut {body sent rest suffix : Bytes} (hlength : body.length = 3)
    (hsplit : sent ++ rest = body ++ suffix) (hwhole : contains (ascii "\r\n\r\n") (countedPost ++ sent) = true)
    (hlimit : peekMaxBody scriptServer (countedPost ++ sent) = 1048576)
    (hok : (countedClient sent).request.isError = false) : CutCounted body rest (countedClient sent).request := by
  have hhead : (parseHead ((fresh 1048576).push countedPost)).any (fun r => r.buffer = [] ∧
      r.announcesChunked = false ∧ r.getHeaderValue (ascii "Content-Length") = ascii "3") := by decide +kernel
  obtain ⟨r, hr, hprop⟩ := (Option.any_eq_true _ _).mp hhead
  simp only [decide_eq_true_eq] at hprop
  obtain ⟨hbuffer, hplain, hvalue⟩ := hprop
  have hann : Announces r body body := by
    apply Announces.length hplain
    · rw [hvalue]
      decide
    · rw [hvalue]
      decide +kernel
    · rw [hvalue, hlength]
      decide
    · omega
  refine ⟨⟨1048576, countedPost, r, sent, [countedPost ++ sent], suffix, ⟨hr, hbuffer⟩, hplain, hann, hsplit,
    by simp, by simp, readRequest_whole hwhole hlimit⟩, hok⟩

/-- Three reads with a byte each, and a write in between. -/
theorem counted_body_iff_abc :
    let w := connected.dispatchCgi scriptAnswers 4 (countedClient (ascii "a")) 1
    let turns : List Turn := [.read 0 (ascii "b") 1, .writable { writes := [1] } 3, .read 0 (ascii "c") 0]
    ((∀ ts, ts <+: turns → FramedBody (ascii "abc") (applyTurns 4 w ts) 4) ∧
      scriptHanded ((applyTurns 4 w turns).history 4) = ascii "abc") ↔
    ∀ ts turn, ts ++ [turn] <+: turns → turn.Within 4 (applyTurns 4 w ts) :=
  counted_body_iff (.of_any (by decide +kernel) (by decide +kernel)) _
    (by
      simp only [List.mem_cons, List.not_mem_nil, or_false, forall_eq_or_imp, forall_eq, Turn.Proper]
      decide)
    (countedClient_cut (by decide) (by decide : ascii "a" ++ ascii "bc" = ascii "abc" ++ []) (by decide +kernel) (by decide +kernel)
      (by decide +kernel))

/-- A read that brings the end of the body and more is handed over whole. -/
theorem bytes_past_the_body : ¬ ∀ body w a c client idx, Dispatches w a c client idx →
    ∀ turns : List Turn, (∀ turn ∈ turns, turn.Proper) →
    CutCounted body (turns.flatMap Turn.bytes) client.request →
    (∀ ts, ts <+: turns → FramedBody body (applyTurns c (w.dispatchCgi a c client idx) ts) c) ∧
      scriptHanded ((applyTurns c (w.dispatchCgi a c client idx) turns).history c) = body := by
  intro h
  have hcut : CutCounted (ascii "abc") ([Turn.read 0 (ascii "bcX") 3].flatMap Turn.bytes)
      (countedClient (ascii "a")).request := by
    have hsplit : ascii "a" ++ [Turn.read 0 (ascii "bcX") 3].flatMap Turn.bytes = ascii "abc" ++ ascii "X" := by decide
    exact countedClient_cut (by decide) hsplit (by decide +kernel) (by decide +kernel) (by decide +kernel)
  have hproper : ∀ turn ∈ [Turn.read 0 (ascii "bcX") 3], turn.Proper := by
    simp only [List.mem_singleton, forall_eq, Turn.Proper]
    decide
  obtain ⟨-, hhanded⟩ := h (ascii "abc") connected scriptAnswers 4 (countedClient (ascii "a")) 1
    (.of_any (by decide +kernel) (by decide +kernel)) _ hproper hcut
  have hmore : scriptHanded ((applyTurns 4 (connected.dispatchCgi scriptAnswers 4 (countedClient (ascii "a")) 1)
      [.read 0 (ascii "bcX") 3]).history 4) = ascii "abcX" := by decide +kernel
  rw [hmore] at hhanded
  exact absurd hhanded (by decide)

end WebServ
