import WebServ.Server.Loop

/-! # What the operations leave alone

Each operation on the world changes one or two of its parts. The frame lemmas say
that the others stay as they are, so that a handler is read through the operations
it is made of.
-/
namespace WebServ.World
open KeyedList

variable (w : World)

/-! ## Histories -/

@[simp] theorem history_logAll (c : Fd) (es : List Event) :
    (w.logAll es).history c = w.history c ++ es.filter (·.client = some c) := by simp [history, logAll]

@[simp] theorem history_log (c : Fd) (e : Event) :
    (w.log e).history c = w.history c ++ if e.client = some c then [e] else [] := by
  simp only [history, log, List.filter_append, List.filter_singleton]
  split <;> simp_all

@[simp] theorem history_openFd (fd c : Fd) : (w.openFd fd).history c = w.history c := by
  simp [history, openFd, log, Event.client]

@[simp] theorem history_closeFd (fd c : Fd) : (w.closeFd fd).history c = w.history c := by
  simp [history, closeFd, log, Event.client]

/-! ## System calls -/

@[simp] theorem log_frame (e : Event) : (w.log e).configs = w.configs ∧ (w.log e).serverFds = w.serverFds ∧
    (w.log e).pollFds = w.pollFds ∧ (w.log e).cgiFdToClientFd = w.cgiFdToClientFd ∧
    (w.log e).cgiStdinFdToClientFd = w.cgiStdinFdToClientFd ∧ (w.log e).opened = w.opened ∧
    (∀ c, (w.log e).getClient c = w.getClient c) ∧
    (w.log e).aborted = w.aborted := ⟨rfl, rfl, rfl, rfl, rfl, rfl, fun _ => rfl, rfl⟩

@[simp] theorem logAll_frame (es : List Event) : (w.logAll es).configs = w.configs ∧
    (w.logAll es).serverFds = w.serverFds ∧ (w.logAll es).pollFds = w.pollFds ∧
    (w.logAll es).cgiFdToClientFd = w.cgiFdToClientFd ∧
    (w.logAll es).cgiStdinFdToClientFd = w.cgiStdinFdToClientFd ∧ (w.logAll es).opened = w.opened ∧
    (∀ c, (w.logAll es).getClient c = w.getClient c) ∧
    (w.logAll es).aborted = w.aborted := ⟨rfl, rfl, rfl, rfl, rfl, rfl, fun _ => rfl, rfl⟩

@[simp] theorem mark_frame (b : Bool) : (w.mark b).configs = w.configs ∧ (w.mark b).serverFds = w.serverFds ∧
    (w.mark b).pollFds = w.pollFds ∧ (w.mark b).cgiFdToClientFd = w.cgiFdToClientFd ∧
    (w.mark b).cgiStdinFdToClientFd = w.cgiStdinFdToClientFd ∧ (w.mark b).opened = w.opened ∧
    (w.mark b).trace = w.trace ∧ (∀ c, (w.mark b).getClient c = w.getClient c) ∧
    (∀ c, (w.mark b).history c = w.history c) ∧ (w.mark b).aborted = (w.aborted || b) :=
  ⟨rfl, rfl, rfl, rfl, rfl, rfl, rfl, fun _ => rfl, fun _ => rfl, rfl⟩

@[simp] theorem openFd_frame (fd : Fd) : (w.openFd fd).configs = w.configs ∧
    (w.openFd fd).serverFds = w.serverFds ∧ (w.openFd fd).pollFds = w.pollFds ∧
    (w.openFd fd).cgiFdToClientFd = w.cgiFdToClientFd ∧
    (w.openFd fd).cgiStdinFdToClientFd = w.cgiStdinFdToClientFd ∧
    (∀ c, (w.openFd fd).getClient c = w.getClient c) ∧
    (w.openFd fd).aborted = w.aborted := ⟨rfl, rfl, rfl, rfl, rfl, fun _ => rfl, rfl⟩

@[simp] theorem closeFd_frame (fd : Fd) : (w.closeFd fd).configs = w.configs ∧
    (w.closeFd fd).serverFds = w.serverFds ∧ (w.closeFd fd).pollFds = w.pollFds ∧
    (w.closeFd fd).cgiFdToClientFd = w.cgiFdToClientFd ∧
    (w.closeFd fd).cgiStdinFdToClientFd = w.cgiStdinFdToClientFd ∧
    (∀ c, (w.closeFd fd).getClient c = w.getClient c) ∧
    (w.closeFd fd).aborted = w.aborted := ⟨rfl, rfl, rfl, rfl, rfl, fun _ => rfl, rfl⟩

/-! ## Containers -/

@[simp] theorem setClient_frame (fd : Fd) (client : Client) : (w.setClient fd client).configs = w.configs ∧
    (w.setClient fd client).serverFds = w.serverFds ∧ (w.setClient fd client).pollFds = w.pollFds ∧
    (w.setClient fd client).cgiFdToClientFd = w.cgiFdToClientFd ∧
    (w.setClient fd client).cgiStdinFdToClientFd = w.cgiStdinFdToClientFd ∧
    (w.setClient fd client).opened = w.opened ∧ (w.setClient fd client).trace = w.trace ∧
    (∀ c, (w.setClient fd client).history c = w.history c) ∧
    (w.setClient fd client).aborted = w.aborted :=
  ⟨rfl, rfl, rfl, rfl, rfl, rfl, rfl, fun _ => rfl, rfl⟩

@[simp] theorem getClient_setClient (fd c : Fd) (client : Client) :
    (w.setClient fd client).getClient c = if c = fd then some client else w.getClient c := by
  simp only [getClient, setClient, Std.ExtTreeMap.getElem?_insert, compare_eq_iff_eq]
  simp only [eq_comm]

theorem getClient_setClient_self (fd : Fd) (client : Client) :
    (w.setClient fd client).getClient fd = some client := by simp

@[simp] theorem eraseClient_frame (fd : Fd) : (w.eraseClient fd).configs = w.configs ∧
    (w.eraseClient fd).serverFds = w.serverFds ∧ (w.eraseClient fd).pollFds = w.pollFds ∧
    (w.eraseClient fd).cgiFdToClientFd = w.cgiFdToClientFd ∧
    (w.eraseClient fd).cgiStdinFdToClientFd = w.cgiStdinFdToClientFd ∧
    (w.eraseClient fd).opened = w.opened ∧ (w.eraseClient fd).trace = w.trace ∧
    (∀ c, (w.eraseClient fd).history c = w.history c) ∧
    (w.eraseClient fd).aborted = w.aborted :=
  ⟨rfl, rfl, rfl, rfl, rfl, rfl, rfl, fun _ => rfl, rfl⟩

@[simp] theorem getClient_eraseClient (fd c : Fd) :
    (w.eraseClient fd).getClient c = if c = fd then none else w.getClient c := by
  simp only [getClient, eraseClient, Std.ExtTreeMap.getElem?_erase, compare_eq_iff_eq]
  simp only [eq_comm]

@[simp] theorem setClient_setClient (fd : Fd) (client client' : Client) :
    (w.setClient fd client).setClient fd client' = w.setClient fd client' := by
  unfold setClient
  congr 1
  refine Std.ExtTreeMap.ext_getElem? fun {k} => ?_
  simp only [Std.ExtTreeMap.getElem?_insert]
  split <;> rfl

theorem setClient_log (fd : Fd) (client : Client) (e : Event) :
    (w.setClient fd client).log e = (w.log e).setClient fd client := rfl

/-! ## The poll list -/

@[simp] theorem modifyEntry_frame (idx : ℕ) (f : PollFd → PollFd) :
    (w.modifyEntry idx f).configs = w.configs ∧ (w.modifyEntry idx f).serverFds = w.serverFds ∧
    (w.modifyEntry idx f).cgiFdToClientFd = w.cgiFdToClientFd ∧
    (w.modifyEntry idx f).cgiStdinFdToClientFd = w.cgiStdinFdToClientFd ∧
    (w.modifyEntry idx f).opened = w.opened ∧ (w.modifyEntry idx f).trace = w.trace ∧
    (∀ c, (w.modifyEntry idx f).getClient c = w.getClient c) ∧
    (∀ c, (w.modifyEntry idx f).history c = w.history c) ∧
    (w.modifyEntry idx f).aborted = w.aborted :=
  ⟨rfl, rfl, rfl, rfl, rfl, rfl, fun _ => rfl, fun _ => rfl, rfl⟩

@[simp] theorem modifyFd_frame (fd : Fd) (f : PollFd → PollFd) : (w.modifyFd fd f).configs = w.configs ∧
    (w.modifyFd fd f).serverFds = w.serverFds ∧ (w.modifyFd fd f).cgiFdToClientFd = w.cgiFdToClientFd ∧
    (w.modifyFd fd f).cgiStdinFdToClientFd = w.cgiStdinFdToClientFd ∧ (w.modifyFd fd f).opened = w.opened ∧
    (w.modifyFd fd f).trace = w.trace ∧ (∀ c, (w.modifyFd fd f).getClient c = w.getClient c) ∧
    (∀ c, (w.modifyFd fd f).history c = w.history c) ∧
    (w.modifyFd fd f).aborted = w.aborted :=
  ⟨rfl, rfl, rfl, rfl, rfl, rfl, fun _ => rfl, fun _ => rfl, rfl⟩

@[simp] theorem pushPoll_frame (fd : Fd) (events : Interest) : (w.pushPoll fd events).configs = w.configs ∧
    (w.pushPoll fd events).serverFds = w.serverFds ∧
    (w.pushPoll fd events).cgiFdToClientFd = w.cgiFdToClientFd ∧
    (w.pushPoll fd events).cgiStdinFdToClientFd = w.cgiStdinFdToClientFd ∧
    (w.pushPoll fd events).opened = w.opened ∧ (w.pushPoll fd events).trace = w.trace ∧
    (∀ c, (w.pushPoll fd events).getClient c = w.getClient c) ∧
    (∀ c, (w.pushPoll fd events).history c = w.history c) ∧
    (w.pushPoll fd events).aborted = w.aborted :=
  ⟨rfl, rfl, rfl, rfl, rfl, rfl, fun _ => rfl, fun _ => rfl, rfl⟩

@[simp] theorem eraseEntry_frame (idx : ℕ) : (w.eraseEntry idx).configs = w.configs ∧
    (w.eraseEntry idx).serverFds = w.serverFds ∧ (w.eraseEntry idx).cgiFdToClientFd = w.cgiFdToClientFd ∧
    (w.eraseEntry idx).cgiStdinFdToClientFd = w.cgiStdinFdToClientFd ∧
    (w.eraseEntry idx).opened = w.opened ∧ (w.eraseEntry idx).trace = w.trace ∧
    (∀ c, (w.eraseEntry idx).getClient c = w.getClient c) ∧
    (∀ c, (w.eraseEntry idx).history c = w.history c) ∧
    (w.eraseEntry idx).aborted = w.aborted :=
  ⟨rfl, rfl, rfl, rfl, rfl, rfl, fun _ => rfl, fun _ => rfl, rfl⟩

@[simp] theorem erasePollFd_frame (fd : Fd) : (w.erasePollFd fd).configs = w.configs ∧
    (w.erasePollFd fd).serverFds = w.serverFds ∧ (w.erasePollFd fd).cgiFdToClientFd = w.cgiFdToClientFd ∧
    (w.erasePollFd fd).cgiStdinFdToClientFd = w.cgiStdinFdToClientFd ∧
    (w.erasePollFd fd).opened = w.opened ∧ (w.erasePollFd fd).trace = w.trace ∧
    (∀ c, (w.erasePollFd fd).getClient c = w.getClient c) ∧
    (∀ c, (w.erasePollFd fd).history c = w.history c) ∧
    (w.erasePollFd fd).aborted = w.aborted :=
  ⟨rfl, rfl, rfl, rfl, rfl, rfl, fun _ => rfl, fun _ => rfl, rfl⟩

@[simp] theorem fd_mask (p : PollFd) : p.enablePollin.fd = p.fd ∧ p.disablePollin.fd = p.fd ∧
    p.enablePollout.fd = p.fd ∧ p.disablePollout.fd = p.fd ∧ p.onlyPollout.fd = p.fd ∧
    p.clearRevents.fd = p.fd ∧ ∀ r, (p.report r).fd = p.fd := ⟨rfl, rfl, rfl, rfl, rfl, rfl, fun _ => rfl⟩

section
variable {f : PollFd → PollFd} (hf : ∀ p, (f p).fd = p.fd)
include hf

/-- Where a descriptor stands does not depend on the masks. -/
@[simp] theorem fds_modifyEntry (idx : ℕ) : (w.modifyEntry idx f).fds = w.fds := map_key_modify hf idx w.pollFds

@[simp] theorem fds_modifyFd (fd : Fd) : (w.modifyFd fd f).fds = w.fds := map_key_updateFirst hf w.pollFds

end

@[simp] theorem fds_pushPoll (fd : Fd) (events : Interest) : (w.pushPoll fd events).fds = w.fds ++ [fd] := by
  simp [pushPoll]

@[simp] theorem fds_eraseEntry (idx : ℕ) : (w.eraseEntry idx).fds = w.fds.eraseIdx idx := by
  simp [eraseEntry, List.eraseIdx_map]

@[simp] theorem fds_erasePollFd (fd : Fd) : (w.erasePollFd fd).fds = w.fds.erase fd :=
  map_key_eraseFirst fd w.pollFds

theorem fds_reportAll (ps : List PollFd) (rs : List Readiness) :
    (reportAll ps rs).map PollFd.fd = ps.map PollFd.fd := by
  induction ps generalizing rs with
  | nil => cases rs <;> rfl
  | cons p ps ih => cases rs <;> simp [reportAll, ih]

variable {w} in
theorem fds_of_entry {idx : ℕ} {p : PollFd} (hp : w.pollFds[idx]? = some p) : w.fds[idx]? = some p.fd := by
  simp [hp]

variable {w} in
theorem entry_fd {idx : ℕ} {fd : Fd} (h : w.fds[idx]? = some fd) : (w.entry idx).fd = fd := by
  rw [List.getElem?_map, Option.map_eq_some_iff] at h
  obtain ⟨p, hp, rfl⟩ := h
  rw [entry_eq hp]

/-! ## The pipes of scripts -/

@[simp] theorem eraseCgiFd_frame (fd : Fd) : (w.eraseCgiFd fd).configs = w.configs ∧
    (w.eraseCgiFd fd).serverFds = w.serverFds ∧ (w.eraseCgiFd fd).pollFds = w.pollFds ∧
    (w.eraseCgiFd fd).cgiStdinFdToClientFd = w.cgiStdinFdToClientFd ∧ (w.eraseCgiFd fd).opened = w.opened ∧
    (w.eraseCgiFd fd).trace = w.trace ∧ (∀ c, (w.eraseCgiFd fd).getClient c = w.getClient c) ∧
    (∀ c, (w.eraseCgiFd fd).history c = w.history c) ∧
    (w.eraseCgiFd fd).aborted = w.aborted :=
  ⟨rfl, rfl, rfl, rfl, rfl, rfl, fun _ => rfl, fun _ => rfl, rfl⟩

@[simp] theorem insertCgiFd_frame (fd client : Fd) : (w.insertCgiFd fd client).configs = w.configs ∧
    (w.insertCgiFd fd client).serverFds = w.serverFds ∧ (w.insertCgiFd fd client).pollFds = w.pollFds ∧
    (w.insertCgiFd fd client).cgiStdinFdToClientFd = w.cgiStdinFdToClientFd ∧
    (w.insertCgiFd fd client).opened = w.opened ∧ (w.insertCgiFd fd client).trace = w.trace ∧
    (∀ c, (w.insertCgiFd fd client).getClient c = w.getClient c) ∧
    (∀ c, (w.insertCgiFd fd client).history c = w.history c) ∧
    (w.insertCgiFd fd client).aborted = w.aborted :=
  ⟨rfl, rfl, rfl, rfl, rfl, rfl, fun _ => rfl, fun _ => rfl, rfl⟩

@[simp] theorem eraseCgiStdinFd_frame (fd : Fd) : (w.eraseCgiStdinFd fd).configs = w.configs ∧
    (w.eraseCgiStdinFd fd).serverFds = w.serverFds ∧ (w.eraseCgiStdinFd fd).pollFds = w.pollFds ∧
    (w.eraseCgiStdinFd fd).cgiFdToClientFd = w.cgiFdToClientFd ∧ (w.eraseCgiStdinFd fd).opened = w.opened ∧
    (w.eraseCgiStdinFd fd).trace = w.trace ∧ (∀ c, (w.eraseCgiStdinFd fd).getClient c = w.getClient c) ∧
    (∀ c, (w.eraseCgiStdinFd fd).history c = w.history c) ∧
    (w.eraseCgiStdinFd fd).aborted = w.aborted :=
  ⟨rfl, rfl, rfl, rfl, rfl, rfl, fun _ => rfl, fun _ => rfl, rfl⟩

@[simp] theorem insertCgiStdinFd_frame (fd client : Fd) :
    (w.insertCgiStdinFd fd client).configs = w.configs ∧
    (w.insertCgiStdinFd fd client).serverFds = w.serverFds ∧
    (w.insertCgiStdinFd fd client).pollFds = w.pollFds ∧
    (w.insertCgiStdinFd fd client).cgiFdToClientFd = w.cgiFdToClientFd ∧
    (w.insertCgiStdinFd fd client).opened = w.opened ∧ (w.insertCgiStdinFd fd client).trace = w.trace ∧
    (∀ c, (w.insertCgiStdinFd fd client).getClient c = w.getClient c) ∧
    (∀ c, (w.insertCgiStdinFd fd client).history c = w.history c) ∧
    (w.insertCgiStdinFd fd client).aborted = w.aborted :=
  ⟨rfl, rfl, rfl, rfl, rfl, rfl, fun _ => rfl, fun _ => rfl, rfl⟩

@[simp] theorem getElem?_insertCgiFd (fd client f : Fd) :
    (w.insertCgiFd fd client).cgiFdToClientFd[f]? = if f = fd then some client else w.cgiFdToClientFd[f]? := by
  simp only [insertCgiFd, Std.ExtTreeMap.getElem?_insert, compare_eq_iff_eq]
  simp only [eq_comm]

@[simp] theorem getElem?_eraseCgiFd (fd f : Fd) :
    (w.eraseCgiFd fd).cgiFdToClientFd[f]? = if f = fd then none else w.cgiFdToClientFd[f]? := by
  simp only [eraseCgiFd, Std.ExtTreeMap.getElem?_erase, compare_eq_iff_eq]
  simp only [eq_comm]

@[simp] theorem getElem?_insertCgiStdinFd (fd client f : Fd) : (w.insertCgiStdinFd fd client).cgiStdinFdToClientFd[f]? =
    if f = fd then some client else w.cgiStdinFdToClientFd[f]? := by
  simp only [insertCgiStdinFd, Std.ExtTreeMap.getElem?_insert, compare_eq_iff_eq]
  simp only [eq_comm]

@[simp] theorem getElem?_eraseCgiStdinFd (fd f : Fd) : (w.eraseCgiStdinFd fd).cgiStdinFdToClientFd[f]? =
    if f = fd then none else w.cgiStdinFdToClientFd[f]? := by
  simp only [eraseCgiStdinFd, Std.ExtTreeMap.getElem?_erase, compare_eq_iff_eq]
  simp only [eq_comm]

/-! ## Closing pipes -/

@[simp] theorem closeCgiStdin_frame (client : Client) : (w.closeCgiStdin client).1.configs = w.configs ∧
    (w.closeCgiStdin client).1.serverFds = w.serverFds ∧ (w.closeCgiStdin client).1.pollFds = w.pollFds ∧
    (w.closeCgiStdin client).1.cgiFdToClientFd = w.cgiFdToClientFd ∧
    (w.closeCgiStdin client).1.cgiStdinFdToClientFd = w.cgiStdinFdToClientFd ∧
    (∀ c, (w.closeCgiStdin client).1.getClient c = w.getClient c) ∧
    (∀ c, (w.closeCgiStdin client).1.history c = w.history c) ∧
    (w.closeCgiStdin client).1.aborted = w.aborted := by
  unfold closeCgiStdin
  split <;> simp

@[simp] theorem closeCgiStdout_frame (client : Client) : (w.closeCgiStdout client).1.configs = w.configs ∧
    (w.closeCgiStdout client).1.serverFds = w.serverFds ∧ (w.closeCgiStdout client).1.pollFds = w.pollFds ∧
    (w.closeCgiStdout client).1.cgiFdToClientFd = w.cgiFdToClientFd ∧
    (w.closeCgiStdout client).1.cgiStdinFdToClientFd = w.cgiStdinFdToClientFd ∧
    (∀ c, (w.closeCgiStdout client).1.getClient c = w.getClient c) ∧
    (∀ c, (w.closeCgiStdout client).1.history c = w.history c) ∧
    (w.closeCgiStdout client).1.aborted = w.aborted := by
  unfold closeCgiStdout
  split <;> simp

@[simp] theorem finishCgi_frame (client : Client) (reaped : Bool) :
    (w.finishCgi client reaped).1.configs = w.configs ∧
    (w.finishCgi client reaped).1.serverFds = w.serverFds ∧
    (w.finishCgi client reaped).1.pollFds = w.pollFds ∧
    (w.finishCgi client reaped).1.cgiFdToClientFd = w.cgiFdToClientFd ∧
    (w.finishCgi client reaped).1.cgiStdinFdToClientFd = w.cgiStdinFdToClientFd ∧
    (∀ c, (w.finishCgi client reaped).1.getClient c = w.getClient c) ∧
    (∀ c, (w.finishCgi client reaped).1.history c = w.history c) ∧
    (w.finishCgi client reaped).1.aborted = w.aborted := by
  unfold finishCgi
  dsimp only
  split <;> simp [Event.client]

end WebServ.World
