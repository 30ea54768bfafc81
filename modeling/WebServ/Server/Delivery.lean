import WebServ.Server.OneResponse
import WebServ.Server.Outgoing

/-! # Responses are delivered

A client that takes what is sent to it gets all of its response: each time it is
reported as writable, it has its turn in the pass and less is left afterwards.
-/
namespace WebServ
open World KeyedList

/-- What is left to be sent to a client. -/
def Client.unsent (client : Client) : Bytes :=
  if client.cgiHeadersSent then client.cgiSendPending.pending else client.response.drop client.responseOffset

def SendAnswer.takes : SendAnswer → Bool
  | .accepted n => 0 < n
  | _ => false

namespace LoopState

/-- All that is reported for the client is that it can be written to, it takes some of what is sent then, and the time
has not come to give it up. -/
def Willing (c : Fd) (s : LoopState) (a : Answers) : Prop :=
  match s.point with
  | .errors idx =>
    let p := s.world.entry idx
    p.fd = c → (p.revents.pollhup || p.revents.pollerr || p.revents.pollnval) = false
  | .input idx =>
    let p := s.world.entry idx
    p.fd = c → p.revents.pollin = false
  | .output idx =>
    let p := s.world.entry idx
    p.fd = c → p.revents.pollout = true → a.sends.head?.any SendAnswer.takes = true ∧ .error ∉ a.sends
  | .timeouts now i =>
    (s.world.entry i).fd = c → ∀ client ∈ s.world.getClient c, now ≤ client.lastActivity + clientTimeout
  | .poll | .stopped | .aborted => True

instance (c : Fd) : (s : LoopState) → (a : Answers) → Decidable (s.Willing c a)
  | ⟨w, .errors idx⟩, _ => inferInstanceAs (Decidable ((w.entry idx).fd = c → _ = false))
  | ⟨w, .input idx⟩, _ => inferInstanceAs (Decidable ((w.entry idx).fd = c → _ = false))
  | ⟨w, .output idx⟩, a =>
    inferInstanceAs (Decidable ((w.entry idx).fd = c → (w.entry idx).revents.pollout = true →
      a.sends.head?.any SendAnswer.takes = true ∧ .error ∉ a.sends))
  | ⟨w, .timeouts now i⟩, _ =>
    inferInstanceAs (Decidable ((w.entry i).fd = c → ∀ client ∈ w.getClient c, now ≤ client.lastActivity + clientTimeout))
  | ⟨_, .poll⟩, _ | ⟨_, .stopped⟩, _ | ⟨_, .aborted⟩, _ => instDecidableTrue

/-- `poll` finds that the client can be written to. -/
def writable (c : Fd) (s : LoopState) (a : Answers) : Bool :=
  match s.point, a.poll with
  | .poll, .ready revents => (s.world.fds.zip revents).any (fun report => report.1 = c && report.2.pollout)
  | _, _ => false

/-- The pass has not come to the client, for which is reported that it can be written to; one that was broken off
will not. -/
def Coming (c : Fd) (s : LoopState) : Prop :=
  match s.point with
  | .errors idx | .input idx | .output idx =>
    ∃ report ∈ s.world.reports.drop idx, report.1 = c ∧ report.2.pollout = true
  | .poll | .timeouts .. | .stopped => False
  | .aborted => True

/-- It is the client's turn to be written to. -/
def AtTurn (c : Fd) (s : LoopState) : Prop :=
  ∃ idx, s.point = .output idx ∧ (s.world.entry idx).fd = c ∧ (s.world.entry idx).revents.pollout = true

end LoopState

/-! ## Steps that serve others -/

section
variable {w : World} {c : Fd} {client : Client}

theorem sentBytes_accepted {es : List Event} (h : ∀ e ∈ es, e = .accepted c true) : sentBytes es = [] := by
  rw [sentBytes, List.flatMap_eq_nil_iff]
  rintro e he
  rw [h e he]
  rfl

/-- A client that waits is served by its own entry. -/
theorem serves_outgoing (hs : w.Sound) (hx : w.registry.Exact) (hg : w.getClient c = some client) (ho : client.Outgoing)
    {f : Fd} (h : w.Serves f c) : f = c := by
  rcases h with h | h | h
  · exact h.symm
  · obtain ⟨client', hg', -, ha⟩ := hs.owned f c h
    obtain rfl : client = client' := Option.some.inj (hg.symm.trans hg')
    rw [ho.idle] at ha
    cases ha
  · obtain ⟨client', hg', hin⟩ := w.stdin_eq_some.mp ((hx.in_iff f c).mp h)
    obtain rfl : client = client' := Option.some.inj (hg.symm.trans hg')
    rw [((hs.clients c client hg).idle ho.idle).1] at hin
    cases hin

theorem isCgiFd_client (hx : w.registry.Exact) (hg : w.getClient c = some client) : w.isCgiFd c = false := by
  have hnone : w.cgiFdToClientFd[c]? = none :=
    (hx.registered.client_only (c := c) (by simp [scripts_of_client hg])).1
  rw [isCgiFd, Std.ExtTreeMap.contains_eq_isSome_getElem?, hnone]
  rfl

end

/-- What does not concern the client leaves it as it is. -/
theorem step_waits {s : LoopState} (hs : s.world.Sound) (hx : s.world.registry.Exact) {c : Fd} {client : Client}
    (hg : s.world.getClient c = some client) (ho : client.Outgoing) {a : Answers} (hw : s.Willing c a)
    (hturn : ¬ s.AtTurn c) : (s.step a).world.getClient c = some client ∧
      ∃ es, (s.step a).world.history c = s.world.history c ++ es ∧ sentBytes es = [] := by
  have hsame {v : World} (hc : v.clients = s.world.clients) (ht : v.trace = s.world.trace) :
      v.getClient c = some client ∧ ∃ es, v.history c = s.world.history c ++ es ∧ sentBytes es = [] := by
    refine ⟨?_, [], ?_, rfl⟩
    · rw [World.getClient, hc]
      exact hg
    · rw [World.history, ht, List.append_nil]
      rfl
  obtain ⟨d, hserves, hiso⟩ := step_isolated s a
  by_cases hd : c = d
  swap
  · obtain ⟨hg', es, hes, hall⟩ := hiso c hd client hg
    exact ⟨hg', es, hes, sentBytes_accepted hall⟩
  subst hd
  have hown {f : Fd} (h : s.world.Serves f c) : f = c := serves_outgoing hs hx hg ho h
  obtain ⟨w, point⟩ := s
  cases point with
  | poll =>
    simp only [LoopState.step]
    split <;> exact hsame rfl rfl
  | stopped => exact hsame rfl rfl
  | aborted => exact hsame rfl rfl
  | errors idx =>
    have hquiet := hw (hown hserves)
    simp only [LoopState.step, handlePollErrors, hquiet]
    split <;> exact hsame rfl rfl
  | input idx =>
    have hfd := hown hserves
    have hquiet := hw hfd
    have hcgi : w.isCgiFd (w.entry idx).fd = false := by
      rw [hfd]
      exact isCgiFd_client hx hg
    simp only [LoopState.step, handlePollInput, hquiet, hcgi, Bool.and_false, Bool.false_eq_true, if_false]
    cases w.aborted <;> exact hsame rfl rfl
  | output idx =>
    have hquiet : (w.entry idx).revents.pollout = false := by
      rw [← Bool.not_eq_true]
      exact fun hout => hturn ⟨idx, rfl, hown hserves, hout⟩
    simp only [LoopState.step, handlePollOutput, hquiet]
    exact hsame rfl rfl
  | timeouts now i =>
    have hfd := hown hserves
    have hkept := hw hfd client hg
    simp only [LoopState.step]
    split
    · unfold LoopState.timeoutStep
      dsimp only
      split
      · exact hsame rfl rfl
      · rw [hfd]
        simp only [hg]
        rw [if_neg (Nat.not_lt.mpr hkept)]
        exact hsame rfl rfl
    · exact hsame rfl rfl

/-! ## Passes that come to the client -/

namespace World
variable {w v : World} {c : Fd} {idx : ℕ} {report : Fd × Readiness}

theorem drop_reports_modifyEntry (w : World) (idx : ℕ) (f : PollFd → PollFd) :
    (w.modifyEntry idx f).reports.drop (idx + 1) = w.reports.drop (idx + 1) := by
  unfold reports modifyEntry
  rw [← List.map_drop, ← List.map_drop]
  congr 1
  apply List.ext_getElem?
  intro i
  have hne : ¬ idx = idx + 1 + i := by omega
  simp [List.getElem?_drop, hne]

theorem lt_length_of_mem_drop (h : report ∈ w.reports.drop idx) : idx < w.pollFds.length := by
  have hpos := List.length_pos_of_mem h
  rw [List.length_drop, length_reports] at hpos
  omega

/-- What stands at the position is the entry there. -/
theorem mem_drop_reports (h : report ∈ w.reports.drop idx) :
    report = ((w.entry idx).fd, (w.entry idx).revents) ∨ report ∈ w.reports.drop (idx + 1) := by
  have hidx := lt_length_of_mem_drop h
  have hlt : idx < w.reports.length := by rwa [length_reports]
  have hentry : w.reports[idx] = ((w.entry idx).fd, (w.entry idx).revents) := by
    simp [reports, entry, List.getElem?_eq_getElem hidx]
  rw [List.drop_eq_getElem_cons hlt, hentry] at h
  exact List.mem_cons.mp h

theorem mem_drop_of_ne (h : report ∈ w.reports.drop idx) (hne : (w.entry idx).fd ≠ report.1) :
    report ∈ w.reports.drop (idx + 1) := by
  refine (mem_drop_reports h).resolve_left ?_
  rintro rfl
  exact hne rfl

theorem mem_drop_of_turn (hn : w.fds.Nodup) {kept : Bool} (h : Turn idx w kept v)
    (hr : report ∈ w.reports.drop (idx + 1)) (hmem : report.1 ∈ v.fds) :
    report ∈ v.reports.drop (if kept then idx + 1 else idx) := by
  rw [← map_fst_reports] at hn hmem
  exact Sweep.Turn.stays h hn hr hmem

theorem mem_drop_succ (h : report ∈ w.reports.drop (idx + 1)) : report ∈ w.reports.drop idx := by
  rw [← List.drop_drop] at h
  exact List.mem_of_mem_drop h

/-- The pass goes on in front of those that it has not come to. -/
theorem handlePollInput_comes (hn : w.fds.Nodup) (hb : w.PipesBehind idx) (a : Answers)
    (hr : report ∈ w.reports.drop (idx + 1)) (hmem : report.1 ∈ (w.handlePollInput a idx).2.2.fds) :
    report ∈ (w.handlePollInput a idx).2.2.reports.drop (w.handlePollInput a idx).2.1 := by
  have hidx := lt_length_of_mem_drop (mem_drop_succ hr)
  by_cases hkeeps : w.readsClient idx = true → w.ReadKeeps a idx
  · obtain ⟨htrue, hfalse⟩ := handlePollInput_tells a hidx hb hkeeps
    cases hgo : (w.handlePollInput a idx).1 with
    | true =>
      obtain ⟨kept, hturn, hres⟩ := htrue hgo
      rw [hres]
      exact mem_drop_of_turn hn hturn hr hmem
    | false =>
      obtain ⟨hres, hturn⟩ := hfalse hgo
      rw [hres]
      exact mem_drop_succ (mem_drop_of_turn hn hturn hr hmem)
  · obtain ⟨hreads, hlost⟩ := Classical.not_imp.mp hkeeps
    have hread : w.handlePollInput a idx = (false, w.handleClientRead a idx) := by
      simp only [readsClient, Bool.and_eq_true, Bool.not_eq_true'] at hreads
      simp [handlePollInput, hreads]
    have hremoved (e : Event) (reason : RemoveReason)
        (hmem : report.1 ∈ ((w.log e).removeClient idx a.reaped reason).fds) :
        report ∈ ((w.log e).removeClient idx a.reaped reason).reports.drop idx := by
      have hturn : Turn idx w false ((w.log e).removeClient idx a.reaped reason) :=
        removeClient_turn (w := w.log e) a.reaped reason hidx hb
      exact mem_drop_of_turn hn hturn hr hmem
    rw [hread] at hmem ⊢
    revert hmem
    unfold handleClientRead
    dsimp only
    split
    · exact fun _ => hr
    · next client hg =>
      split
      · next ha => exact absurd ⟨client, hg, Or.inl ha⟩ hlost
      · split
        · exact hremoved _ _
        · exact hremoved _ _
        · next he =>
          have hread : w.read client.fd (a.reads.head?.getD .again) = .again := he
          exact absurd ⟨client, hg, Or.inr ⟨by simp [hread], by simp [hread]⟩⟩ hlost
        · next bytes he =>
          have hread : w.read client.fd (a.reads.head?.getD .again) = .data bytes := he
          exact absurd ⟨client, hg, Or.inr ⟨by simp [hread], by simp [hread]⟩⟩ hlost

end World

/-- The pass stays in front of the client until it is its turn. -/
theorem step_coming {s : LoopState} (hx : s.world.registry.Exact) (hb : s.world.registry.Behind) {c : Fd}
    {client : Client} (hg : s.world.getClient c = some client) {a : Answers} (hw : s.Willing c a)
    (hturn : ¬ s.AtTurn c) (hcoming : s.Coming c) (hmem : c ∈ (s.step a).world.fds) : (s.step a).Coming c := by
  have hn : s.world.fds.Nodup := hx.registered.nodup
  have hpipes {idx : ℕ} (hidx : idx < s.world.pollFds.length) : s.world.PipesBehind idx := hb.pipesBehind hx hidx
  obtain ⟨w, point⟩ := s
  cases point with
  | poll => exact hcoming.elim
  | timeouts now i => exact hcoming.elim
  | stopped => exact hcoming.elim
  | aborted => trivial
  | errors idx =>
    obtain ⟨report, hr, rfl, hout⟩ := hcoming
    have hidx := lt_length_of_mem_drop hr
    have hd := handlePollErrors_turn a hidx (hpipes hidx)
    simp only [LoopState.step, if_pos hidx] at hmem ⊢
    by_cases hown : (w.entry idx).fd = report.1
    · have hquiet := hw hown
      simp only [handlePollErrors, hquiet]
      exact ⟨report, hr, rfl, hout⟩
    · have hr' := mem_drop_of_ne hr hown
      revert hmem
      split
      · next w' he =>
        rw [he] at hd
        exact fun hmem => ⟨report, mem_drop_of_turn hn hd hr' hmem, rfl, hout⟩
      · next w' he =>
        rw [he] at hd
        obtain rfl : w' = w := hd
        exact fun _ => ⟨report, hr, rfl, hout⟩
  | input idx =>
    obtain ⟨report, hr, rfl, hout⟩ := hcoming
    have hidx := lt_length_of_mem_drop hr
    simp only [LoopState.step] at hmem ⊢
    by_cases hown : (w.entry idx).fd = report.1
    · have hquiet := hw hown
      have hcgi : w.isCgiFd (w.entry idx).fd = false := hown ▸ isCgiFd_client hx hg
      simp only [handlePollInput, hquiet, hcgi, Bool.and_false, Bool.false_eq_true, if_false]
      cases w.aborted with
      | true => trivial
      | false => exact ⟨report, hr, rfl, hout⟩
    · have hcomes := handlePollInput_comes hn (hpipes hidx) a (mem_drop_of_ne hr hown)
      revert hmem
      split <;> next v he =>
        rw [he] at hcomes
        cases v.aborted with
        | true => exact fun _ => trivial
        | false => exact fun hmem => ⟨report, hcomes hmem, rfl, hout⟩
  | output idx =>
    obtain ⟨report, hr, rfl, hout⟩ := hcoming
    have hidx := lt_length_of_mem_drop hr
    have hown : (w.entry idx).fd ≠ report.1 := by
      intro hfd
      refine hturn ⟨idx, rfl, hfd, ?_⟩
      have hkeys : (w.reports.map Prod.fst).Nodup := by rwa [map_fst_reports]
      have hsame : report = ((w.entry idx).fd, (w.entry idx).revents) := by
        refine List.inj_on_of_nodup_map hkeys (List.mem_of_mem_drop hr) ?_ hfd.symm
        exact List.mem_map.mpr ⟨w.entry idx, by simp [entry, List.getElem?_eq_getElem hidx], rfl⟩
      rw [hsame] at hout
      exact hout
    have hr' := mem_drop_of_ne hr hown
    obtain ⟨htrue, hfalse⟩ := handlePollOutput_tells a hidx (hpipes hidx)
    simp only [LoopState.step] at hmem ⊢
    revert hmem
    split
    · next idx' w' he =>
      rw [he] at htrue
      obtain ⟨kept, ht, hres⟩ := htrue rfl
      intro hmem
      refine ⟨report, ?_, rfl, hout⟩
      rw [show idx' = _ from hres]
      exact mem_drop_of_turn hn ht hr' hmem
    · next idx' w' he =>
      rw [he] at hfalse
      obtain ⟨hres, ht⟩ := hfalse rfl
      obtain rfl : idx' = idx := hres
      intro hmem
      refine ⟨report, ?_, rfl, hout⟩
      rw [drop_reports_modifyEntry]
      exact mem_drop_of_turn hn ht hr' (by simpa using hmem)

/-! ## The turn of the client -/

namespace World
variable {w v u : World} {c : Fd} {client client' : Client}

/-- Bytes were sent, `least` of them or more; the client is removed once it has all. -/
def Sends (c : Fd) (w v : World) (client : Client) (least : ℕ) : Prop :=
  ∃ es, v.history c = w.history c ++ es ∧
    (v.getClient c = none ∧ sentBytes es = client.unsent ∧ .removed c .complete ∈ es ∨
      ∃ client', v.getClient c = some client' ∧ client'.Outgoing ∧ sentBytes es ++ client'.unsent = client.unsent ∧
        client'.unsent.length + least ≤ client.unsent.length)

theorem Sends.nothing (hg : v.getClient c = some client) (ho : client.Outgoing) (hh : v.history c = w.history c) :
    Sends c w v client 0 := ⟨[], by rw [hh, List.append_nil], Or.inr ⟨client, hg, ho, rfl, le_refl _⟩⟩

/-- Some bytes are sent before others. -/
theorem Sends.after {es : List Event} {least : ℕ} (h : Sends c v u client' least)
    (hes : v.history c = w.history c ++ es) (hb : sentBytes es ++ client'.unsent = client.unsent) :
    Sends c w u client ((sentBytes es).length + least) := by
  obtain ⟨fs, hfs, hcases⟩ := h
  refine ⟨es ++ fs, by rw [hfs, hes, List.append_assoc], ?_⟩
  rcases hcases with ⟨hgone, hall, hmem⟩ | ⟨client'', hg, ho, hsplit, hle⟩
  · refine Or.inl ⟨hgone, ?_, List.mem_append_right _ hmem⟩
    rw [sentBytes_append, hall, hb]
  · refine Or.inr ⟨client'', hg, ho, ?_, ?_⟩
    · rw [sentBytes_append, List.append_assoc, hsplit, hb]
    · rw [← hb, List.length_append]
      omega

theorem Sends.mono {least least' : ℕ} (h : Sends c w v client least) (hle : least' ≤ least) :
    Sends c w v client least' := by
  obtain ⟨es, hes, hcases⟩ := h
  refine ⟨es, hes, hcases.imp_right ?_⟩
  rintro ⟨client', hg, ho, hsplit, hlen⟩
  exact ⟨client', hg, ho, hsplit, by omega⟩

/-- With nothing left to be sent, the client is removed. -/
theorem completed_sends {idx : ℕ} (hfd : (w.entry idx).fd = c) (hnone : client.unsent = []) (u : Client) (reaped : Bool) :
    Sends c w (((w.setClient c u).modifyEntry idx PollFd.disablePollout).removeClient idx reaped .complete) client 1 := by
  have hentry : (((w.setClient c u).modifyEntry idx PollFd.disablePollout).entry idx).fd = c :=
    (entry_fd_of_fds (by simp) idx).trans hfd
  have hremoved := removeClient_changed ((w.setClient c u).modifyEntry idx PollFd.disablePollout) idx reaped .complete
  rw [hentry] at hremoved
  refine ⟨[.removed c .complete], ?_, Or.inl ⟨?_, ?_, by simp⟩⟩
  · rw [hremoved.history, if_pos rfl]
    simp
  · rw [hremoved.client, if_pos rfl]
  · rw [hnone]
    rfl

/-- Bytes of the queue are sent. -/
theorem sendPending_sends (now : ℕ) {sent : ℕ} (hs : sent ≤ client.cgiSendPending.size)
    (hh : client.cgiHeadersSent = true) {least : ℕ}
    (h : Sends c (w.sendPending now c client sent hs).1 v (w.sendPending now c client sent hs).2 least) :
    Sends c w v client (sent + least) := by
  have hsent := w.sendPending_changed now c client sent hs
  have htaken : (sentBytes [.sent c true (client.cgiSendPending.pending.take sent)]).length = sent := by
    simp [Event.sentBytes, hs]
  rw [← htaken]
  refine h.after ?_ ?_
  · rw [hsent.history, if_pos rfl]
  · simp [Event.sentBytes, sendPending, Client.unsent, Client.updateActivity, Client.consumeCgiSendPending, hh]

theorem sendPending_keeps {idx : ℕ} (hopen : c ∈ w.opened) (ho : client.Outgoing) (hfd : (w.entry idx).fd = c) (now : ℕ)
    {sent : ℕ} (hs : sent ≤ client.cgiSendPending.size) : c ∈ (w.sendPending now c client sent hs).1.opened ∧
      (w.sendPending now c client sent hs).1.getClient c = some (w.sendPending now c client sent hs).2 ∧
      (w.sendPending now c client sent hs).2.Outgoing ∧ ((w.sendPending now c client sent hs).1.entry idx).fd = c := by
  have hfds : (w.sendPending now c client sent hs).1.fds = w.fds := fds_resumeCgiOutput _
  refine ⟨?_, ?_, ⟨ho.idle, ho.answered⟩, (entry_fd_of_fds hfds idx).trans hfd⟩
  · simpa [sendPending] using hopen
  · simp [sendPending]

section
variable (hopen : c ∈ w.opened) (ho : client.Outgoing)
include hopen ho

theorem sendLoop_sends (hg : w.getClient c = some client) (hh : client.cgiHeadersSent = true) (a : Answers) {idx : ℕ} (hfd : (w.entry idx).fd = c)
    {answers : List SendAnswer} (hanswers : .error ∉ answers) (total : ℕ) :
    Sends c w (sendLoop a idx c answers total w client).2 client 0 := by
  induction answers generalizing total w client with
  | nil => exact .nothing hg ho rfl
  | cons answer answers ih =>
    have hrest : .error ∉ answers := fun h => hanswers (List.mem_cons_of_mem answer h)
    unfold sendLoop
    split
    · split
      · next hsize =>
        rw [ho.idle]
        refine (completed_sends hfd ?_ _ a.reaped).mono (Nat.zero_le 1)
        simpa [Client.unsent, hh] using (OffsetBuffer.size_eq_zero_iff _).mp hsize
      · rw [World.send, if_pos hopen]
        split
        · exact .nothing hg ho rfl
        · exact absurd (List.mem_cons_self ..) hanswers
        · next n =>
          dsimp only
          split
          · obtain ⟨hopen', hg', ho', hfd'⟩ := sendPending_keeps hopen ho hfd a.now
              (Nat.min_le_right n client.cgiSendPending.size)
            have hlater := ih hopen' ho' hg' hh hfd' hrest (total + min n client.cgiSendPending.size)
            exact (sendPending_sends a.now (Nat.min_le_right _ _) hh hlater).mono (Nat.zero_le _)
          · exact ih hopen ho hg hh hfd hrest _
    · exact .nothing hg ho rfl

/-- A client that takes bytes gets some, or has all. -/
theorem sendLoop_progress (hh : client.cgiHeadersSent = true) (a : Answers) {idx : ℕ} (hfd : (w.entry idx).fd = c)
    {n : ℕ} (hn : 0 < n) {answers : List SendAnswer} (hanswers : .error ∉ answers) :
    Sends c w (sendLoop a idx c (.accepted n :: answers) 0 w client).2 client 1 := by
  unfold sendLoop
  rw [if_pos (by decide : 0 < fairIoLimit)]
  split
  · next hsize =>
    rw [ho.idle]
    refine completed_sends hfd ?_ _ a.reaped
    simpa [Client.unsent, hh] using (OffsetBuffer.size_eq_zero_iff _).mp hsize
  · next hsize =>
    have hpos : min n client.cgiSendPending.size > 0 := by omega
    rw [World.send, if_pos hopen]
    dsimp only
    rw [if_pos hpos]
    obtain ⟨hopen', hg', ho', hfd'⟩ := sendPending_keeps hopen ho hfd a.now (Nat.min_le_right n client.cgiSendPending.size)
    have hlater := sendLoop_sends hopen' ho' hg' hh a hfd' hanswers
      (0 + min n client.cgiSendPending.size)
    exact (sendPending_sends a.now (Nat.min_le_right _ _) hh hlater).mono (by omega)

theorem sendResponse_progress (hc : client.fd = c) (hh : client.cgiHeadersSent = false) (a : Answers) {idx : ℕ}
    (hfd : (w.entry idx).fd = c) {n : ℕ} (hn : 0 < n) (ha : a.sends.head?.getD .again = .accepted n) :
    Sends c w (w.sendResponse a idx c client).2 client 1 := by
  unfold sendResponse
  rw [World.send, hc, if_pos hopen, ha]
  dsimp only
  generalize hk : min n (client.response.length - client.responseOffset) = k
  have hsplit : sentBytes [.sent c false ((client.response.drop client.responseOffset).take k)] ++
      Client.unsent ((client.advanceResponseOffset k).updateActivity a.now) = client.unsent := by
    simp [Event.sentBytes, Client.unsent, Client.updateActivity, Client.advanceResponseOffset, hh, ← List.drop_drop]
  have hlog {u : Client} : ((w.log (.sent c false ((client.response.drop client.responseOffset).take k))).setClient c
      u).history c = w.history c ++ [.sent c false ((client.response.drop client.responseOffset).take k)] := by
    simp [Event.client]
  split
  · next hdone =>
    refine ((completed_sends ?_ ?_ _ a.reaped).after hlog hsplit).mono (Nat.le_add_left 1 _)
    · exact hfd
    · simpa [Client.unsent, Client.updateActivity, Client.advanceResponseOffset, hh] using hdone
  · next hmore =>
    have hlen : 1 ≤ (sentBytes [.sent c false ((client.response.drop client.responseOffset).take k)]).length := by
      simp only [Client.updateActivity, Client.advanceResponseOffset] at hmore
      simp [Event.sentBytes]
      omega
    have ho' : Client.Outgoing ((client.advanceResponseOffset k).updateActivity a.now) := ⟨ho.idle, ho.answered⟩
    refine (Sends.after (.nothing (getClient_setClient_self _ _ _) ho' rfl) hlog hsplit).mono ?_
    omega

end
end World

/-! ## Delivery -/

/-- When it is the client's turn, it gets some bytes, or has all. -/
theorem step_turn {s : LoopState} (hs : s.world.Sound) (hx : s.world.registry.Exact) {c : Fd} {client : Client}
    (hg : s.world.getClient c = some client) (ho : client.Outgoing) {a : Answers} (hw : s.Willing c a)
    (hturn : s.AtTurn c) : Sends c s.world (s.step a).world client 1 := by
  obtain ⟨idx, hpoint, hfd, hout⟩ := hturn
  obtain ⟨w, point⟩ := s
  obtain rfl : point = .output idx := hpoint
  have hapart : w.Apart c := apart_of_exact hx hg
  obtain ⟨htakes, herror⟩ := hw hfd hout
  obtain ⟨n, rest, hsends, hn⟩ : ∃ n rest, a.sends = .accepted n :: rest ∧ 0 < n := by
    cases hs : a.sends with
    | nil => simp [hs] at htakes
    | cons answer rest =>
      cases answer with
      | accepted n => exact ⟨n, rest, rfl, by simpa [hs, SendAnswer.takes] using htakes⟩
      | again => simp [hs, SendAnswer.takes] at htakes
      | error => simp [hs, SendAnswer.takes] at htakes
  have hsound := hs.clients c client hg
  have hsent : Sends c w (w.handlePollOutput a idx).2.2 client 1 := by
    unfold handlePollOutput
    simp only [hfd, hg, hapart.unpiped, Bool.false_eq_true, if_false]
    rw [if_pos hout]
    cases hh : client.cgiHeadersSent with
    | true =>
      rw [if_pos (Or.inr (Or.inr rfl)), hsends]
      refine sendLoop_progress hapart.opened ho hh a hfd hn ?_
      rw [hsends] at herror
      simpa using herror
    | false =>
      have hqueue : ¬ (client.cgiActive = true ∨ client.cgiSendPending.size > 0 ∨ false = true) := by
        simp [ho.idle, (OffsetBuffer.size_eq_zero_iff _).mpr (hsound.queued hh)]
      have hresponse : client.response ≠ [] := ho.answered.resolve_right (by simp [hh])
      rw [if_neg hqueue, if_neg hresponse]
      exact sendResponse_progress hapart.opened ho hsound.fd hh a hfd hn (by rw [hsends]; rfl)
  simp only [LoopState.step]
  split
  · next he =>
    rw [he] at hsent
    exact hsent
  · next he =>
    rw [he] at hsent
    exact hsent

/-- A client that is found writable is in the pass that begins. -/
theorem step_writable {s : LoopState} {c : Fd} (hasks : s.world.AsksOutput c) {a : Answers}
    (hw : s.writable c a = true) : ¬ s.Coming c ∧ (s.step a).Coming c := by
  have hreported {ps : List PollFd} {rs : List Readiness} {r : Readiness} (h : (c, r) ∈ (ps.map PollFd.fd).zip rs) :
      ∃ p ∈ ps, p.fd = c ∧ p.report r ∈ reportAll ps rs := by
    induction ps generalizing rs with
    | nil => simp at h
    | cons p ps ih =>
      cases rs with
      | nil => simp at h
      | cons r' rs =>
        rcases List.mem_cons.mp h with h | h
        · obtain ⟨rfl, rfl⟩ := Prod.mk.inj h
          exact ⟨p, List.mem_cons_self .., rfl, List.mem_cons_self ..⟩
        · obtain ⟨q, hq, hfd, hmem⟩ := ih h
          exact ⟨q, List.mem_cons_of_mem p hq, hfd, List.mem_cons_of_mem _ hmem⟩
  obtain ⟨w, point⟩ := s
  unfold LoopState.writable at hw
  split at hw
  · next revents hpoint hready =>
    obtain rfl : point = .poll := hpoint
    refine ⟨id, ?_⟩
    obtain ⟨⟨f, r⟩, hmem, hboth⟩ := List.any_eq_true.mp hw
    obtain ⟨rfl, hr⟩ : f = c ∧ r.pollout = true := by simpa using hboth
    obtain ⟨p, hp, hfd, hreport⟩ := hreported hmem
    simp only [LoopState.step, hready, LoopState.Coming, reports, List.drop_zero]
    refine ⟨_, List.mem_map_of_mem hreport, hfd, ?_⟩
    simp [PollFd.report, hr, hasks p hp hfd]
  · cases hw

/-- All of the bytes were sent since the record began, and the client is gone. -/
def Finished (c : Fd) (record : List Event) (bytes : Bytes) (s : LoopState) : Prop :=
  s.world.getClient c = none ∧
    ∃ es, s.world.history c = record ++ es ∧ sentBytes es = bytes ∧ .removed c .complete ∈ es

/-- The client waits for the rest of the bytes, and has less than `n` turns to come. -/
structure Waiting (c : Fd) (record : List Event) (bytes : Bytes) (s : LoopState) (n : ℕ) : Prop where
  reachable : Reachable s
  clean : ¬ s.world.ClosedEarly
  rest : ∃ client es, s.world.getClient c = some client ∧ client.Outgoing ∧ s.world.history c = record ++ es ∧
    sentBytes es ++ client.unsent = bytes ∧ (client.unsent.length < n ∨ client.unsent.length ≤ n ∧ s.Coming c)

theorem Waiting.step {c : Fd} {record : List Event} {bytes : Bytes} {s : LoopState} {n : ℕ}
    (h : Waiting c record bytes s n) {a : Answers} (hw : s.Willing c a) (hn : ¬ (s.step a).world.ClosedEarly) :
    Finished c record bytes (s.step a) ∨
      ∃ m ≤ n, Waiting c record bytes (s.step a) m ∧ (s.writable c a = true → m < n) := by
  obtain ⟨client, es, hg, ho, hes, hsplit, hrank⟩ := h.rest
  have hs := h.reachable.sound
  have hx := h.reachable.exact h.clean
  have hreach := h.reachable.step a
  by_cases hturn : s.AtTurn c
  · obtain ⟨fs, hfs, hcases⟩ := step_turn hs hx hg ho hw hturn
    rcases hcases with ⟨hgone, hall, hmem⟩ | ⟨client', hg', ho', hrest, hless⟩
    · refine Or.inl ⟨hgone, es ++ fs, by rw [hfs, hes, List.append_assoc], ?_, List.mem_append_right _ hmem⟩
      rw [sentBytes_append, hall, hsplit]
    · refine Or.inr ⟨n, le_refl n, ⟨hreach, hn, client', es ++ fs, hg', ho', ?_, ?_, Or.inl ?_⟩, ?_⟩
      · rw [hfs, hes, List.append_assoc]
      · rw [sentBytes_append, List.append_assoc, hrest, hsplit]
      · have hle : client.unsent.length ≤ n := hrank.elim Nat.le_of_lt And.left
        omega
      · obtain ⟨idx, hpoint, -⟩ := hturn
        intro hwritable
        simp [LoopState.writable, hpoint] at hwritable
  · obtain ⟨hg', fs, hfs, hnone⟩ := step_waits hs hx hg ho hw hturn
    have hes' : (s.step a).world.history c = record ++ (es ++ fs) := by rw [hfs, hes, List.append_assoc]
    have hsplit' : sentBytes (es ++ fs) ++ client.unsent = bytes := by
      rw [sentBytes_append, hnone, List.append_nil, hsplit]
    right
    by_cases hwritable : s.writable c a = true
    · obtain ⟨hnot, hcoming⟩ := step_writable (h.reachable.ready h.clean c client hg ho) hwritable
      have hlt : client.unsent.length < n := hrank.resolve_right (fun hr => hnot hr.2)
      refine ⟨n - 1, Nat.sub_le n 1, ⟨hreach, hn, client, es ++ fs, hg', ho, hes', hsplit', Or.inr ⟨?_, hcoming⟩⟩, ?_⟩
      · omega
      · omega
    · refine ⟨n, le_refl n, ⟨hreach, hn, client, es ++ fs, hg', ho, hes', hsplit', ?_⟩, fun h => absurd h hwritable⟩
      refine hrank.imp_right (And.imp_right fun hcoming => ?_)
      have hmem := (hreach.exact hn).registered.client_polled (scripts_of_client hg')
      exact step_coming hx (h.reachable.behind h.clean) hg hw hturn hcoming hmem

/-- The state after the first `n` calls of handlers. -/
abbrev LoopState.after (s : LoopState) (answers : ℕ → Answers) (n : ℕ) : LoopState := stateAfter LoopState.step s answers n

/-- What the system does while the client `c` is there: the client takes what is sent to it, and is found writable time
and again, so the process is not gone; no pipe of any connection is closed while it is registered. -/
structure Obliging (c : Fd) (s : LoopState) (answers : ℕ → Answers) : Prop where
  willing : ∀ n, (∀ m ≤ n, ((s.after answers m).world.getClient c).isSome) → (s.after answers n).Willing c (answers n)
  clean : ∀ n, (∀ m < n, ((s.after answers m).world.getClient c).isSome) → ¬ (s.after answers n).world.ClosedEarly
  writable : (∀ m, ((s.after answers m).world.getClient c).isSome) →
    ∀ n, ∃ m ≥ n, (s.after answers m).writable c (answers m) = true

/-- All that a client waits for is sent to it in the end. -/
theorem Obliging.finished {s : LoopState} (h : Reachable s) {c : Fd} {client : Client}
    (hg : s.world.getClient c = some client) (hout : client.Outgoing) {answers : ℕ → Answers}
    (ho : Obliging c s answers) : ∃ n, Finished c (s.world.history c) client.unsent (s.after answers n) := by
  have hstart : Waiting c (s.world.history c) client.unsent s (client.unsent.length + 1) :=
    ⟨h, ho.clean 0 (by simp), client, [], hg, hout, by simp, rfl, Or.inl (Nat.lt_succ_self _)⟩
  have hthere {t : LoopState} (hw : ∃ n, Waiting c (s.world.history c) client.unsent t n) :
      (t.world.getClient c).isSome := by
    obtain ⟨n, hw⟩ := hw
    obtain ⟨client', -, hg', -⟩ := hw.rest
    simp [hg']
  have hstep (t : LoopState) (a : Answers) (n : ℕ) (hw : Waiting c (s.world.history c) client.unsent t n)
      (hok : t.Willing c a ∧ ¬ (t.step a).world.ClosedEarly) := hw.step hok.1 hok.2
  refine exists_of_chances hstep s answers hstart ?_ ?_
  · intro k hall
    refine ⟨ho.willing k (fun m hm => hthere (hall m hm)), ?_⟩
    exact ho.clean (k + 1) (fun m hm => hthere (hall m (Nat.le_of_lt_succ hm)))
  · exact fun hall => ho.writable (fun m => hthere (hall m))

/-- A system that lets the client go after `k` steps has to oblige it only up to then. -/
theorem Obliging.of_gone {c : Fd} {s : LoopState} {answers : ℕ → Answers} {k : ℕ}
    (hgone : ((s.after answers k).world.getClient c).isSome = false)
    (hwilling : ∀ n < k, (s.after answers n).Willing c (answers n))
    (hclean : ∀ n < k + 1, ¬ (s.after answers n).world.ClosedEarly) : Obliging c s answers := by
  refine ⟨fun n hall => ?_, fun n hall => ?_, fun hall => ?_⟩
  · by_cases hn : n < k
    · exact hwilling n hn
    · exact absurd (hall k (by omega)) (by simp [hgone])
  · by_cases hn : n < k + 1
    · exact hclean n hn
    · exact absurd (hall k (by omega)) (by simp [hgone])
  · exact absurd (hall k) (by simp [hgone])

/-- Where the server goes on and no pipe is closed while it is registered, a client that waits for its response, and
takes what is sent to it, gets all that it has not got, and is removed. -/
theorem response_delivered {s : LoopState} (h : Reachable s) {c : Fd} {client : Client}
    (hg : s.world.getClient c = some client) (ha : client.cgiActive = false) (hr : Answered client)
    {answers : ℕ → Answers} (ho : Obliging c s answers) : ∃ n es, (s.after answers n).world.getClient c = none ∧
      (s.after answers n).world.history c = s.world.history c ++ es ∧ sentBytes es = client.unsent ∧
      .removed c .complete ∈ es := by
  obtain ⟨n, hgone, es, hes, hall, hmem⟩ := ho.finished h hg ⟨ha, hr⟩
  exact ⟨n, es, hgone, hes, hall, hmem⟩

/-- The client takes five bytes of the answer, and then all of it. -/
def obliges : ℕ → Answers := fun n =>
  { poll := .ready [{}, { pollout := true }], sends := [.accepted (if n < 10 then 5 else 1000)] }

theorem response_delivered_once : ∃ n es,
    ((scriptStart.run asksOnce).after obliges n).world.getClient 4 = none ∧
      ((scriptStart.run asksOnce).after obliges n).world.history 4 =
        (scriptStart.run asksOnce).world.history 4 ++ es ∧
      (sentBytes es).length = 103 ∧ .removed 4 .complete ∈ es := by
  have hclient : ((scriptStart.run asksOnce).world.getClient 4).map (fun client =>
      (client.cgiActive, decide (Answered client), client.unsent.length)) = some (false, true, 103) := by decide +kernel
  obtain ⟨client, hg, hparts⟩ := Option.map_eq_some_iff.mp hclient
  obtain ⟨ha, hparts⟩ := Prod.mk.inj hparts
  obtain ⟨hr, hlen⟩ := Prod.mk.inj hparts
  have hgone : ((((scriptStart.run asksOnce).after obliges 18).world.getClient 4).isSome) = false := by decide +kernel
  have hwilling : ∀ n < 18, ((scriptStart.run asksOnce).after obliges n).Willing 4 (obliges n) := by decide +kernel
  have hclean : ∀ n < 19, ¬ ((scriptStart.run asksOnce).after obliges n).world.ClosedEarly := by decide +kernel
  have ho : Obliging 4 (scriptStart.run asksOnce) obliges := .of_gone hgone hwilling hclean
  obtain ⟨n, es, hnone, hes, hall, hmem⟩ := response_delivered (scriptStart_reachable asksOnce) hg ha
    (of_decide_eq_true hr) ho
  exact ⟨n, es, hnone, hes, hall ▸ hlen, hmem⟩

end WebServ
