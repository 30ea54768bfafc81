import WebServ.Server.Delivery
import WebServ.Server.InputStream

/-! # From request to response

Once the bytes of a request are complete, the response that they call for is what the
client gets, all of it and nothing else.
-/
namespace WebServ
open World

namespace World

/-- The response that a decision on a request leads to, when it can be made. -/
def Decision.response : Decision → Option HTTPResponse
  | .reject response => response
  | .answer response => response
  | .wait | .dispatch => none

theorem Decision.response_cases {decision : Decision} {response : HTTPResponse} (h : decision.response = some response) :
    decision = .reject (some response) ∨ decision = .answer (some response) := by
  cases decision with
  | reject r => exact Or.inl (congrArg Decision.reject h)
  | answer r => exact Or.inr (congrArg Decision.answer h)
  | wait => cases h
  | dispatch => cases h

/-- A client that is answered has its response before it. -/
theorem requestBytes_answered (w : World) (a : Answers) {c : Fd} {client : Client} (idx : ℕ) {bytes : Bytes}
    {response : HTTPResponse} (h : (readRequest a (w.config client) client bytes).1.response = some response) :
    (w.requestBytes a c client idx bytes).aborted = w.aborted ∧
      ∃ client', (w.requestBytes a c client idx bytes).getClient c = some client' ∧
        client'.cgiActive = client.cgiActive ∧ client'.cgiHeadersSent = client.cgiHeadersSent ∧
        client'.response = (closing response).toString ∧ client'.responseOffset = 0 := by
  obtain ⟨b, r, s, hclient⟩ := readRequest_client a (w.config client) client bytes
  have hstored (v : World) (g : PollFd → PollFd) :
      ∃ client', ((v.respond c (readRequest a (w.config client) client bytes).2 (some response)).modifyEntry
          idx g).getClient c = some client' ∧
        client'.cgiActive = client.cgiActive ∧ client'.cgiHeadersSent = client.cgiHeadersSent ∧
        client'.response = (closing response).toString ∧ client'.responseOffset = 0 := by
    rw [hclient]
    exact ⟨_, getClient_setClient_self _ _ _, rfl, rfl, rfl, rfl⟩
  unfold requestBytes
  rcases hread : readRequest a (w.config client) client bytes with ⟨decision, parsed⟩
  rw [hread] at h hstored
  rcases Decision.response_cases h with hd | hd
  · obtain rfl : decision = .reject (some response) := hd
    exact ⟨by simp, hstored _ _⟩
  · obtain rfl : decision = .answer (some response) := hd
    exact ⟨by simp, hstored _ _⟩

/-- Nothing is sent while a decision is taken. -/
theorem Records.unsent {files : FileSystem} {conf : ServerConfig} {c : Fd} {request : HTTPRequest} {decision : Decision}
    {recorded : Option (List Event)} (h : Records files conf c request decision recorded) :
    ∀ es ∈ recorded, sentBytes es = [] := by
  intro es hes
  cases h with
  | wait => cases hes; rfl
  | started => cases hes; rfl
  | reject | answer | failed =>
    obtain ⟨response, -, rfl⟩ := Option.map_eq_some_iff.mp hes
    rfl

end World

/-- A state that the loop comes to, with what has come in. -/
def Tracked.Reached (t : Tracked) : Prop := ∃ w as, World.Created w ∧ t = Tracked.run ⟨⟨w, .poll⟩, fun _ => []⟩ as

theorem Tracked.Reached.reachable {t : Tracked} (h : t.Reached) : Reachable t.loop := by
  obtain ⟨w, as, ⟨configs, sockets, hw⟩, rfl⟩ := h
  rw [Tracked.run_loop]
  exact ⟨configs, sockets, w, as, hw, rfl⟩

theorem Tracked.Reached.faithful {t : Tracked} (h : t.Reached) : t.Faithful := by
  obtain ⟨w, as, hw, rfl⟩ := h
  obtain ⟨-, hnone, -, -⟩ := hw.start
  obtain ⟨configs, sockets, hcreate⟩ := hw
  refine (Tracked.Faithful.run ?_ (openSockets_unmarked hcreate) as).1
  intro _ c client hg
  simp [hnone] at hg

/-- The step that reads the last bytes of a request puts the response before the client. -/
theorem Tracked.Reached.step_answered {t : Tracked} (h : t.Reached) {a : Answers} {c : Fd} {bytes : Bytes}
    (hr : t.loop.requestInput a = some (c, bytes)) {client : Client} (hg : t.loop.world.getClient c = some client)
    {response : HTTPResponse}
    (hd : (decideStream a (t.loop.world.config client) (t.input c ++ bytes)).1.response = some response) :
    ∃ client' es, (t.loop.step a).world.getClient c = some client' ∧ client'.cgiActive = false ∧
      client'.cgiHeadersSent = client.cgiHeadersSent ∧ client'.response = (closing response).toString ∧
      client'.responseOffset = 0 ∧ (t.loop.step a).world.history c = t.loop.world.history c ++ es ∧ sentBytes es = [] := by
  have hunmarked := h.reachable.unmarked
  have hreading : t.loop.point ≠ .aborted := by
    intro haborted
    simp [LoopState.requestInput, haborted] at hr
  obtain ⟨client', idx, hg', ha, hstep⟩ := LoopState.step_requestBytes hr
  obtain rfl : client = client' := Option.some.inj (hg.symm.trans hg')
  have hgated : Gated (t.loop.world.config client) (t.input c) (client.updateActivity a.now) := by
    refine (h.faithful hreading c client hg).of_same ?_
    constructor <;> simp [Client.updateActivity]
  obtain ⟨hdecision, -⟩ := hgated.decides ha a bytes
  rw [← hdecision] at hd
  have hread : (readRequest a (t.loop.world.config (client.updateActivity a.now)) (client.updateActivity a.now)
      bytes).1.response = some response := hd
  obtain ⟨haborted, client', hnew, hactive, hsent, hresponse, hoffset⟩ :=
    t.loop.world.requestBytes_answered a (c := c) idx hread
  obtain ⟨recorded, hrec, hmade, hsome⟩ :=
    t.loop.world.requestBytes_records a c (client.updateActivity a.now) idx bytes
  -- a response that there is was made without throwing
  rw [haborted, hunmarked] at hstep hmade
  obtain ⟨es, rfl⟩ : ∃ es, recorded = some es := by
    cases recorded with
    | none => cases hmade
    | some es => exact ⟨es, rfl⟩
  obtain ⟨parsed', -, hch⟩ := hsome es rfl
  have hworld : (t.loop.step a).world = _ := congrArg LoopState.world hstep
  simp only [Bool.false_eq_true, if_false] at hworld
  have hhistory := hch.history c
  rw [if_pos rfl, ← hworld] at hhistory
  rw [← hworld] at hnew
  refine ⟨client', _, hnew, hactive.trans ha, hsent, hresponse, hoffset, hhistory, ?_⟩
  rw [sentBytes_cons, hrec.unsent es rfl]
  rfl

/-- When the bytes of a request call for a response, no response of a script is under way, and the client takes what is
sent to it, it gets that response, whole and nothing else, and is removed, where the server goes on and no pipe is
closed while it is registered; the bytes may have come in any pieces. -/
theorem request_answered {t : Tracked} (ht : t.Reached) {a : Answers} {c : Fd} {bytes : Bytes}
    (hr : t.loop.requestInput a = some (c, bytes)) {client : Client} (hg : t.loop.world.getClient c = some client)
    (hs : client.cgiHeadersSent = false) {response : HTTPResponse}
    (hd : (decideStream a (t.loop.world.config client) (t.input c ++ bytes)).1.response = some response)
    {answers : ℕ → Answers} (ho : Obliging c (t.loop.step a) answers) :
    ∃ n es, ((t.loop.step a).after answers n).world.getClient c = none ∧
      ((t.loop.step a).after answers n).world.history c = t.loop.world.history c ++ es ∧
      sentBytes es = (closing response).toString ∧ .removed c .complete ∈ es := by
  obtain ⟨client', fs, hg', ha', hs', hresponse, hoffset, hfs, hquiet⟩ := ht.step_answered hr hg hd
  have hanswered : Answered client' := Or.inl (hresponse ▸ toString_ne_nil _)
  have hunsent : client'.unsent = (closing response).toString := by
    rw [Client.unsent, hs', hs, hresponse, hoffset]
    rfl
  obtain ⟨n, hgone, es, hes, hall, hmem⟩ := ho.finished (ht.reachable.step a) hg' ⟨ha', hanswered⟩
  refine ⟨n, fs ++ es, hgone, ?_, ?_, List.mem_append_right _ hmem⟩
  · rw [hes, hfs, List.append_assoc]
  · rw [sentBytes_append, hquiet, hall, hunsent, List.nil_append]

/-- The second part of a request for something that is not there. -/
def lastPart : Answers := { reads := [.data crlf] }

theorem request_answered_cut : ∃ n es,
    (((scriptStart.run cutRequest).step lastPart).after obliges n).world.getClient 4 = none ∧
      (((scriptStart.run cutRequest).step lastPart).after obliges n).world.history 4 =
        (scriptStart.run cutRequest).world.history 4 ++ es ∧
      (sentBytes es).length = 103 ∧ .removed 4 .complete ∈ es := by
  obtain ⟨t, ht, hloop⟩ : ∃ t, t = Tracked.run ⟨scriptStart, fun _ => []⟩ cutRequest ∧
      t.loop = scriptStart.run cutRequest := ⟨_, rfl, Tracked.run_loop _ _⟩
  have hreached : t.Reached := ⟨_, cutRequest, ⟨[scriptServer], [.listening 3], rfl⟩, ht⟩
  have hr : t.loop.requestInput lastPart = some (4, crlf) := by
    rw [ht]
    decide +kernel
  have hclient : (t.loop.world.getClient 4).map (fun client => (client.cgiHeadersSent,
      (decideStream lastPart (t.loop.world.config client) (t.input 4 ++ crlf)).1.response.map
        fun response => (closing response).toString.length)) = some (false, some 103) := by
    rw [ht]
    decide +kernel
  obtain ⟨client, hg, hparts⟩ := Option.map_eq_some_iff.mp hclient
  obtain ⟨hs, hparts⟩ := Prod.mk.inj hparts
  obtain ⟨response, hd, hlen⟩ := Option.map_eq_some_iff.mp hparts
  have hgone : ((((scriptStart.run cutRequest).step lastPart).after obliges 12).world.getClient 4).isSome = false := by
    decide +kernel
  have hwilling : ∀ n < 12, (((scriptStart.run cutRequest).step lastPart).after obliges n).Willing 4 (obliges n) := by
    decide +kernel
  have hclean : ∀ n < 13, ¬ (((scriptStart.run cutRequest).step lastPart).after obliges n).world.ClosedEarly := by
    decide +kernel
  have ho : Obliging 4 ((scriptStart.run cutRequest).step lastPart) obliges := .of_gone hgone hwilling hclean
  rw [← hloop] at ho ⊢
  obtain ⟨n, es, hnone, hes, hall, hmem⟩ := request_answered hreached hr hg hs hd ho
  exact ⟨n, es, hnone, hes, hall ▸ hlen, hmem⟩

end WebServ
