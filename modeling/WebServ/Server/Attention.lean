import WebServ.Server.OneResponse
import WebServ.Server.Outgoing
import WebServ.Server.Wakeups

/-! # Clients that are listened to

A client whose request is still to be read is polled for input, whatever happens on other
connections and however its own request arrives.
-/
namespace WebServ
open World KeyedList

/-- The request of the client is still to be read. -/
structure Client.Incoming (client : Client) : Prop where
  idle : client.cgiActive = false
  unanswered : ¬ Answered client

/-- What decides whether the request of a client is still to be read. -/
structure Client.SameStage (client client' : Client) : Prop where
  active : client'.cgiActive = client.cgiActive
  response : client'.response = client.response
  headersSent : client'.cgiHeadersSent = client.cgiHeadersSent

theorem Client.SameStage.incoming {client client' : Client} (h : client.SameStage client') (hi : client'.Incoming) :
    client.Incoming := by
  refine ⟨h.active ▸ hi.idle, fun ha => hi.unanswered ?_⟩
  rw [Answered, h.response, h.headersSent]
  exact ha

/-- No entry loses its interest in input. -/
def World.KeepsInput (w v : World) : Prop := ∀ f p', v.entryOf f = some p' →
  ∃ p, w.entryOf f = some p ∧ (p.events.pollin = true → p'.events.pollin = true)

namespace World.KeepsInput
variable {w v u : World}

theorem of_eq (h : v.entryOf = w.entryOf) : w.KeepsInput v := fun _ p' hp' => ⟨p', h ▸ hp', id⟩

theorem trans (h : w.KeepsInput v) (h' : v.KeepsInput u) : w.KeepsInput u := by
  intro f p'' hp''
  obtain ⟨p', hp', hmore'⟩ := h' f p'' hp''
  obtain ⟨p, hp, hmore⟩ := h f p' hp'
  exact ⟨p, hp, fun hon => hmore' (hmore hon)⟩

theorem of_sublist (hn : w.fds.Nodup) (h : v.pollFds.Sublist w.pollFds) : w.KeepsInput v := by
  intro f p' hp'
  have hmem : p' ∈ v.pollFds := List.mem_of_find?_eq_some hp'
  have hfd : p'.fd = f := by simpa using List.find?_some hp'
  exact ⟨p', hfd ▸ entryOf_of_mem hn (h.subset hmem), id⟩

/-- Entries that are masked, or left as they are. -/
theorem of_mapped {g : PollFd → PollFd} {o : Fd → Prop} [DecidablePred o]
    (hg : ∀ p, p.events.pollin = true → (g p).events.pollin = true)
    (h : ∀ f, v.entryOf f = if o f then (w.entryOf f).map g else w.entryOf f) : w.KeepsInput v := by
  intro f p' hp'
  rw [h] at hp'
  split at hp'
  · obtain ⟨p, hp, rfl⟩ := Option.map_eq_some_iff.mp hp'
    exact ⟨p, hp, hg p⟩
  · exact ⟨p', hp', id⟩

theorem modifyEntry (hn : w.fds.Nodup) (idx : ℕ) {g : PollFd → PollFd} (hfd : ∀ p, (g p).fd = p.fd)
    (hg : ∀ p, p.events.pollin = true → (g p).events.pollin = true) : w.KeepsInput (w.modifyEntry idx g) := by
  cases hidx : w.fds[idx]? with
  | none =>
    have hlen : w.pollFds.length ≤ idx := by simpa using hidx
    have hsame : w.modifyEntry idx g = w := by simp [World.modifyEntry, List.modify_eq_self hlen]
    exact .of_eq (by rw [hsame])
  | some fd =>
    refine .of_mapped (o := (· = fd)) hg ?_
    intro f
    rw [entryOf_modifyEntry hn hidx hfd]
    split
    · next hf => rw [hf]
    · rfl

end World.KeepsInput

/-- Every client whose request is to be read is polled for input. -/
def World.Attentive (w : World) : Prop := ∀ c client, w.getClient c = some client → client.Incoming →
  ∀ p, w.entryOf c = some p → p.events.pollin = true

namespace World.Attentive
variable {w v : World} {c : Fd} {client : Client}

theorem same (h : w.Attentive) (hg : ∀ d, v.getClient d = w.getClient d) (hk : w.KeepsInput v) : v.Attentive := by
  intro d client' hg' hi' p' hp'
  obtain ⟨p, hp, hmore⟩ := hk d p' hp'
  rw [hg] at hg'
  exact hmore (h d client' hg' hi' p hp)

/-- A client changes, and no client has to be read that was not read before. -/
theorem served (h : w.Attentive) {es : List Event} {o : Option Client} (hch : Changed w v c es o)
    (ho : ∀ client' ∈ o, client'.Incoming → ∃ client, w.getClient c = some client ∧ client.Incoming)
    (hk : ∀ d, (v.getClient d).isSome → ∀ p', v.entryOf d = some p' → ∃ p, w.entryOf d = some p ∧
      (p.events.pollin = true → p'.events.pollin = true)) : v.Attentive := by
  intro d client' hg' hi' p' hp'
  obtain ⟨p, hp, hmore⟩ := hk d (by rw [hg']; rfl) p' hp'
  rw [hch.client] at hg'
  split at hg'
  · next hd =>
    subst hd
    obtain ⟨client, hg, hi⟩ := ho client' hg' hi'
    exact hmore (h d client hg hi p hp)
  · exact hmore (h d client' hg' hi' p hp)

/-- The client is as far as it was. -/
theorem touched (h : w.Attentive) (hg : w.getClient c = some client) {es : List Event} {client' : Client}
    (hch : Changed w v c es (some client')) (hstage : client.SameStage client') (hk : w.KeepsInput v) :
    v.Attentive := by
  refine h.served hch ?_ (fun d _ => hk d)
  rintro _ ⟨⟩ hi
  exact ⟨client, hg, hstage.incoming hi⟩

/-- The request of the client is read, or the client is gone. -/
theorem done (h : w.Attentive) {es : List Event} {o : Option Client} (hch : Changed w v c es o)
    (ho : ∀ client' ∈ o, ¬ client'.Incoming) (hk : w.KeepsInput v) : v.Attentive :=
  h.served hch (fun client' hc hi => absurd hi (ho client' hc)) (fun d _ => hk d)

/-- The request of the client is read; entries of others stay. -/
theorem focus (h : w.Attentive) (hr : w.registry.Registered) {es : List Event} {o : Option Client}
    (hch : Changed w v c es o) (ho : ∀ client' ∈ o, ¬ client'.Incoming)
    (hentry : ∀ f ∈ w.fds, ¬ w.registry.Owns c f → v.entryOf f = w.entryOf f) : v.Attentive := by
  intro d client' hg' hi' p' hp'
  rw [hch.client] at hg'
  split at hg'
  · exact absurd hi' (ho client' hg')
  · next hd =>
    have hscript := scripts_of_client hg'
    have hforeign : ¬ w.registry.Owns c d := fun hown => (hr.foreign hd (by simp [hscript]) hown).1 rfl
    have hmem : d ∈ w.fds := hr.mem_polled (by simp [Registry.roles, hscript])
    rw [hentry d hmem hforeign] at hp'
    exact h d client' hg' hi' p' hp'

/-- The mask of an entry changes that a connection with a script owns. -/
theorem masked (h : w.Attentive) (hr : w.registry.Registered) (hg : w.getClient c = some client)
    (ha : client.cgiActive = true) {idx : ℕ} {p : PollFd} (hp : w.pollFds[idx]? = some p)
    (hown : w.registry.Owns c p.fd) {g : PollFd → PollFd} (hfd : ∀ p, (g p).fd = p.fd) :
    (w.modifyEntry idx g).Attentive := by
  have hn : w.fds.Nodup := hr.nodup
  refine h.focus hr (c := c) (.of_eq c (by simp) (by simp) (by simp)) ?_ ?_
  · intro client' hc hi
    obtain rfl : client = client' := Option.some.inj (hg.symm.trans hc)
    rw [hi.idle] at ha
    cases ha
  · intro f _ hf
    have hne : f ≠ p.fd := fun heq => hf (heq ▸ hown)
    rw [entryOf_modifyEntry hn (fds_of_entry hp) hfd, if_neg hne]

/-- A connection under a number that is not polled is polled for its request. -/
theorem acceptFd (h : w.Attentive) (hr : w.registry.Registered) (serverIndex now : ℕ) {fd : Fd} (hfd : fd ∉ w.fds) :
    (w.acceptFd serverIndex now fd).Attentive := by
  obtain ⟨-, hscript, -, -⟩ := Registry.empty_of_roles (hr.roles_eq_zero (f := fd) hfd)
  have hg : w.getClient fd = none := by simpa [World.registry] using hscript
  have hknown : w.clients.contains fd = false := by
    rw [Std.ExtTreeMap.contains_eq_isSome_getElem?]
    exact Option.isSome_eq_false_iff.mpr (Option.isNone_iff_eq_none.mpr hg)
  have hentry (f : Fd) : (w.acceptFd serverIndex now fd).entryOf f =
      (w.entryOf f).or (if fd = f then some { fd, events := { pollin := true } } else none) := by
    simp [World.acceptFd, hknown]
  have hclient (d : Fd) : (w.acceptFd serverIndex now fd).getClient d =
      if d = fd then some (Client.create fd serverIndex now) else w.getClient d := by
    simp [World.acceptFd, hknown]
  intro d client hg' hi p hp
  rw [hentry] at hp
  rw [hclient] at hg'
  by_cases hd : d = fd
  · rw [hd, entryOf_eq_none hfd, if_pos rfl, Option.none_or] at hp
    obtain rfl := Option.some.inj hp
    rfl
  · rw [if_neg (fun he => hd he.symm), Option.or_none] at hp
    rw [if_neg hd] at hg'
    exact h d client hg' hi p hp

/-- The client that has its response goes. -/
theorem completed (h : w.Attentive) (hr : w.registry.Registered) (u : Client) {idx : ℕ} {p : PollFd}
    (hp : w.pollFds[idx]? = some p) (reaped : Bool) :
    (((w.setClient p.fd u).modifyEntry idx PollFd.disablePollout).removeClient idx reaped .complete).Attentive := by
  have hn : w.fds.Nodup := hr.nodup
  have hfd : (((w.setClient p.fd u).modifyEntry idx PollFd.disablePollout).entry idx).fd = p.fd :=
    entry_fd (by simpa using fds_of_entry hp)
  have hgone := removeClient_changed ((w.setClient p.fd u).modifyEntry idx PollFd.disablePollout) idx reaped .complete
  rw [hfd] at hgone
  have hset := hgone.of_frame (w := w.setClient p.fd u) (by simp) (by simp) (by simp)
  have hstored : w.KeepsInput (w.setClient p.fd u) := .of_eq rfl
  have hmasked : (w.setClient p.fd u).KeepsInput ((w.setClient p.fd u).modifyEntry idx PollFd.disablePollout) :=
    .modifyEntry hn idx (fun _ => rfl) fun _ => id
  refine h.done hset.of_setClient (by simp) ((hstored.trans hmasked).trans ?_)
  refine .of_sublist ?_ (removeClient_sublist _ idx _ _)
  simpa using hn

theorem stdinWritable (h : w.Attentive) (hr : w.registry.Registered) (a : Answers) {idx : ℕ} {p : PollFd}
    (hp : w.pollFds[idx]? = some p) (hc : w.cgiStdinFdToClientFd[p.fd]? = some c)
    (hg : w.getClient c = some client) : (w.handleCgiStdinWritable a idx).2.Attentive := by
  have hc' : w.cgiStdinFdToClientFd[(w.entry idx).fd]? = some c := entry_eq hp ▸ hc
  obtain ⟨pieces, q', s', -, -, hch⟩ := handleCgiStdinWritable_changed w (a := a) hc' hg
  obtain ⟨q, -, hcases⟩ := handleCgiStdinWritable_entries hr a hp hc hg
  refine h.served hch ?_ ?_
  · rintro _ ⟨⟩ hi
    exact ⟨client, hg, ⟨hi.idle, hi.unanswered⟩⟩
  · intro d hd p' hp'
    have hne : d ≠ p.fd := by
      rintro rfl
      have hs : (w.getClient p.fd).isSome := by
        rw [hch.client] at hd
        split at hd
        · next heq => rw [heq, hg]; rfl
        · exact hd
      obtain ⟨client', hg'⟩ := Option.isSome_iff_exists.mp hs
      have hnone := (hr.client_only (c := p.fd) (by simp [scripts_of_client hg'])).2
      rw [show w.registry.inOf p.fd = some c from hc] at hnone
      cases hnone
    rcases hcases with ⟨-, -, -, he⟩ | ⟨-, -, he⟩
    · rw [he, if_neg hne] at hp'
      exact ⟨p', hp', id⟩
    · rw [he d (Or.inl hne)] at hp'
      split at hp'
      · obtain ⟨p₀, hp₀, rfl⟩ := Option.map_eq_some_iff.mp hp'
        exact ⟨p₀, hp₀, fun _ => rfl⟩
      · exact ⟨p', hp', id⟩

end World.Attentive

section
variable {w : World} {c : Fd} {client : Client}

/-- A client that gets what a script wrote is answered. -/
theorem World.cgiOutputEnd_answered (w : World) (a : Answers) (idx : ℕ) (cgiFd c : Fd) (client client' : Client)
    (h : (w.cgiOutputEnd a idx cgiFd c client).getClient c = some client') : Answered client' := by
  unfold cgiOutputEnd finalizeCgi at h
  dsimp only at h
  split at h
  · next hs =>
    obtain rfl : _ = client' := by simpa [finishCgi_client] using h
    exact Or.inr hs
  · obtain rfl : _ = client' := by simpa [finishCgi_client, respond] using h
    exact Or.inl (toString_ne_nil _)

theorem not_incoming_of_active (ha : client.cgiActive = true) : ¬ client.Incoming := fun hi => by
  rw [hi.idle] at ha
  cases ha

end

/-- The bytes of a request are read: more of them are waited for, or the request is read. -/
theorem World.Attentive.requestRead {w : World} (h : w.Attentive) (hr : w.registry.Registered) (a : Answers) {idx : ℕ}
    {p : PollFd} {client u : Client} (hp : w.pollFds[idx]? = some p) (hg : w.getClient p.fd = some client)
    (hu : client.SameStage u) (ha : client.cgiActive = false) (bytes : Bytes)
    (hnew : ∀ f, .opened f true ∉ (w.requestBytes a p.fd u idx bytes).trace) :
    (w.requestBytes a p.fd u idx bytes).Attentive := by
  have hn : w.fds.Nodup := hr.nodup
  have hothers : ∀ f ∈ w.fds, ¬ w.registry.Owns p.fd f →
      (w.requestBytes a p.fd u idx bytes).entryOf f = w.entryOf f := by
    intro f hmem hf
    refine (requestBytes_entries hn a hp (hu.active.trans ha) bytes hnew).1 f hmem ?_
    rintro rfl
    exact hf (owns_self hg)
  obtain ⟨b, r, s, hclient⟩ := readRequest_client a (w.config u) u bytes
  have hcases := w.requestBytes_cases a p.fd u idx bytes
  generalize readRequest a (w.config u) u bytes = parsed at hclient hcases
  rcases hcases with he | ⟨v, new, outcome, response, g, -, hv, -, he⟩ | ⟨-, v, pid, stdinFd, stdoutFd, hv, he⟩
  · rw [he]
    refine h.touched hg ((log_changed w rfl).trans (setClient_changed _ _ _)) ?_ (.of_eq rfl)
    rw [hclient]
    exact ⟨hu.active, hu.response, hu.headersSent⟩
  · rw [he] at hothers ⊢
    refine h.focus hr ((log_changed w rfl).trans (hv.changed (v.answered_changed p.fd parsed.2 _ idx g))) ?_ hothers
    rintro _ ⟨⟩ hi
    exact hi.unanswered (Or.inl (toString_ne_nil _))
  · rw [he] at hothers ⊢
    obtain ⟨q, s', e, taken, -, -, -, -, hch⟩ := v.startCgiRun_input a p.fd parsed.2 pid stdinFd stdoutFd
    obtain ⟨n, chunked, d, hinput⟩ := cgiInput_client parsed.2 pid stdinFd stdoutFd
    refine h.focus hr ((log_changed w rfl).trans (hv.changed hch)) ?_ hothers
    rintro _ ⟨⟩
    refine not_incoming_of_active ?_
    rw [hinput]
    rfl

/-! ## Scripts -/

namespace World.Attentive
variable {w : World} {c : Fd} {client : Client}

theorem outputRead (h : w.Attentive) (files : FileSystem) (bytes : Bytes) (hact : client.cgiActive = true) :
    (w.cgiOutputRead c client bytes).1.Attentive := by
  obtain ⟨es, -, hch⟩ := cgiOutputRead_changed w files c bytes hact
  refine h.done hch ?_ ?_
  · rintro _ ⟨⟩
    exact not_incoming_of_active ((cgiOutputRead_client w c client bytes).2.trans hact)
  · rcases cgiOutputRead_entries (w := w) c client bytes with ⟨he, -⟩ | ⟨he, -⟩
    · exact .of_eq he
    · refine .of_mapped (o := (· = client.fd)) (g := PollFd.enablePollout) (fun _ => id) ?_
      intro f
      rw [he]
      split
      · next hf => rw [hf]
      · rfl

/-- The client of a script that ended has its response. -/
theorem outputEnd (h : w.Attentive) (hs : w.Sound) (hr : w.registry.Registered) (a : Answers) {idx : ℕ} {p : PollFd}
    (hp : w.pollFds[idx]? = some p) (hg : w.getClient c = some client) (hout : client.cgiStdoutFd = some p.fd)
    (hact : client.cgiActive = true) (ht : (w.cgiOutputEnd a idx p.fd c client).aborted = false) :
    (w.cgiOutputEnd a idx p.fd c client).Attentive := by
  obtain ⟨es, o, -, hch⟩ := cgiOutputEnd_changed w a c idx p.fd hact ht
  refine h.focus hr hch ?_ ?_
  · intro client' hmem hi
    have hg₁ : (w.cgiOutputEnd a idx p.fd c client).getClient c = some client' := by
      rw [hch.client, if_pos rfl]
      exact hmem
    exact hi.unanswered (w.cgiOutputEnd_answered a idx p.fd c client client' hg₁)
  · intro f _ hf
    have hfp : f ≠ p.fd := fun heq => hf (heq ▸ owns_stdout hg hout)
    have hfc : f ≠ client.fd := by
      rw [(hs.clients c client hg).fd]
      rintro rfl
      exact hf (owns_self hg)
    rw [entryOf_cgiOutputEnd hr.nodup a hp c client hfp, if_neg hfc]

theorem forwarded (h : w.Attentive) (hr : w.registry.Registered) {stdinFd : Fd} (piece : Bytes) (answer : ℕ)
    (hg : w.getClient c = some client) (hact : client.cgiActive = true) (hin : client.cgiStdinFd = some stdinFd) :
    ((w.forwardPiece c client stdinFd piece answer).1.setClient c
      (w.forwardPiece c client stdinFd piece answer).2).Attentive := by
  obtain ⟨q, -, -, hch⟩ := forwardPiece_changed w c client stdinFd piece answer
  refine h.done hch ?_ ?_
  · rintro _ ⟨⟩
    exact not_incoming_of_active hact
  · refine .of_mapped (g := PollFd.enablePollout)
      (o := fun f => w.write stdinFd piece.length answer < piece.length ∧ f = stdinFd) (fun _ => id) ?_
    intro f
    rw [entryOf_setClient, entryOf_forwardPiece (isCgiStdinFd_of_client hr hg hin)]

theorem inputComplete (h : w.Attentive) (hn : w.fds.Nodup) (hact : client.cgiActive = true) (stdinFd : Fd) :
    (w.inputComplete c client stdinFd).Attentive := by
  obtain ⟨s, e, -, -, hch⟩ := inputComplete_changed w c client stdinFd
  refine h.done hch ?_ ?_
  · rintro _ ⟨⟩
    exact not_incoming_of_active hact
  · intro f p' hp'
    rw [entryOf_inputComplete hn] at hp'
    split at hp'
    · cases hp'
    · exact ⟨p', hp', id⟩

end World.Attentive

/-! ## Moves -/

theorem Move.attentive {files : FileSystem} {v v' : View} (h : Move files v v')
    (hs : v.2.Sound) (hr : v.2.registry.Registered)
    (ha : v.2.Attentive) (hnew : ∀ f, .opened f true ∉ v'.2.trace) : v'.2.Attentive := by
  have hn : v.2.fds.Nodup := hr.nodup
  cases h with
  | turned x w => exact ha
  | reported w revents =>
    refine ha.same (fun _ => rfl) ?_
    intro f p' hp'
    obtain ⟨r, hreport⟩ := w.entryOf_reportAll revents f
    rw [hreport] at hp'
    obtain ⟨p, hp, rfl⟩ := Option.map_eq_some_iff.mp hp'
    exact ⟨p, hp, id⟩
  | cleared w idx => exact ha.same (by simp) (.modifyEntry hn idx (fun _ => rfl) fun _ => id)
  | @accepted x w fd serverIndex now hfd =>
    exact ha.acceptFd hr serverIndex now (fun hmem => hnew fd (acceptFd_opened serverIndex now hmem))
  | @strayStdin x w idx p c hx hp hc hg =>
    exact ha.same (fun _ => rfl) (.of_sublist hn (List.eraseIdx_sublist _ _))
  | @stdinWritable x w idx p c client a hx hp hc hg => exact ha.stdinWritable hr a hp hc hg
  | @removed x w idx p reason reaped hx hp hreason hg =>
    exact ha.done (removeClient_changed w idx reaped reason) (by simp) (.of_sublist hn (removeClient_sublist w idx _ _))
  | @closedByRead w idx p client reason reaped hp hg hidle =>
    have hlogged : (w.log (.requestRead p.fd (Answered client) .removed)).Attentive :=
      ha.same (fun _ => rfl) (.of_eq rfl)
    refine hlogged.done (removeClient_changed _ idx reaped reason) (by simp) ?_
    exact .of_sublist hn (removeClient_sublist _ idx _ _)
  | @completed x w idx p client reaped hx hp hg hd => exact ha.completed hr client.clearResponse hp reaped
  | @cgiRead x w cgiFd c client bytes hc hg =>
    obtain ⟨client', hg', -, hact⟩ := hs.owned cgiFd c hc
    obtain rfl : client = client' := Option.some.inj (hg.symm.trans hg')
    exact ha.outputRead files bytes hact
  | @cgiPaused x w idx p c client hp hc hg hsize =>
    obtain ⟨client', hg', hout, hact⟩ := hs.owned p.fd c hc
    obtain rfl : client = client' := Option.some.inj (hg.symm.trans hg')
    exact ha.masked hr hg hact hp (owns_stdout hg hout) fun _ => rfl
  | @cgiEnded x w idx p c client a hp hc hg hf ht =>
    obtain ⟨client', hg', hout, hact⟩ := hs.owned p.fd c hc
    obtain rfl : client = client' := Option.some.inj (hg.symm.trans hg')
    exact ha.outputEnd hs hr a hp hg hout hact ht
  | @inputEnded x w c client hg hact =>
    obtain ⟨s, -, hch⟩ := endInput_changed w c client
    refine ha.done hch ?_ (.of_eq (entryOf_endInput c client))
    rintro _ ⟨⟩
    exact not_incoming_of_active hact
  | @bodyRead x w c client bytes now count decoder hg =>
    exact ha.touched hg ((log_changed w rfl).trans (setClient_changed _ c _)) ⟨rfl, rfl, rfl⟩ (.of_eq rfl)
  | @forwarded x w c stdinFd client piece answer hg hact hin =>
    exact ha.forwarded hr piece answer hg hact hin
  | @inputComplete x w c stdinFd client hg hact hin =>
    exact ha.inputComplete hn hact stdinFd
  | @bodyPaused w idx p client hp hg hact hsize => exact ha.masked hr hg hact hp (owns_self hg) fun _ => rfl
  | @touched x w c client now hg => exact ha.touched hg (setClient_changed _ _ _) ⟨rfl, rfl, rfl⟩ (.of_eq rfl)
  | @requestRead w idx p client a bytes hp hrev hg hidle =>
    exact ha.requestRead (u := client.updateActivity a.now) hr a hp hg ⟨rfl, rfl, rfl⟩ hidle bytes hnew
  | @sentPending x w c client now sent hg hsize =>
    refine ha.touched hg (sendPending_changed _ _ _ _ _ _) ⟨rfl, rfl, rfl⟩ ?_
    refine .of_mapped (g := PollFd.enablePollin) (o := fun f => (client.cgiActive = true ∧
      client.cgiSendPending.size - sent < cgiBackpressureLimit) ∧ client.cgiStdoutFd = some f) (fun _ _ => rfl) ?_
    exact entryOf_sendPending now c client sent hsize
  | @outputPaused x w idx p client hp hg hsize =>
    exact ha.same (by simp) (.modifyEntry hn idx (fun _ => rfl) fun _ => id)
  | @sentResponse x w c client now sent hg hidle hsent =>
    exact ha.touched hg ((log_changed _ rfl).trans (setClient_changed _ _ _)) ⟨rfl, rfl, rfl⟩ (.of_eq rfl)

theorem AnyMove.attentive {files : FileSystem} {v v' : View} (h : AnyMove files v v')
    (hs : v.2.Sound) (hr : v.2.registry.Registered)
    (ha : v.2.Attentive) (hnew : ∀ f, .opened f true ∉ v'.2.trace) : v'.2.Attentive := by
  have hn : v.2.fds.Nodup := hr.nodup
  cases h with
  | calm h => exact h.attentive hs hr ha hnew
  | @stdinHangup w idx p c hp hc =>
    have hkeeps := KeepsInput.of_sublist hn (stdinHangup_sublist w idx p.fd)
    refine ha.served (stdinHangup_changed w idx hc) ?_ fun d _ => hkeeps d
    intro client' hmem hi
    obtain ⟨client, hg, rfl⟩ := Option.map_eq_some_iff.mp (Option.mem_def.mp hmem)
    exact ⟨client, hg, ⟨hi.idle, hi.unanswered⟩⟩

/-! ## Runs -/

theorem Reachable.attentive {s : LoopState} (h : Reachable s) (hn : s.world.NumbersFree) :
    s.world.registry.Registered ∧ s.world.Attentive := by
  have hinv := by
    refine h.invariant (I := fun v => v.2.registry.Idle ∧
      (v.2.NumbersFree → v.2.registry.Registered ∧ v.2.Attentive)) ?_ ?_
    · intro w hw
      obtain ⟨-, hnone, -, -⟩ := hw.start
      refine ⟨hw.exact.registered.idle, fun _ => ⟨hw.exact.registered, ?_⟩⟩
      intro c client hg
      rw [hnone] at hg
      cases hg
    · intro files v v' hs hI hm
      refine ⟨(hm.keeps hs hI.1).1, ?_⟩
      intro hn'
      obtain ⟨hr, ha⟩ := hI.2 (hm.numbersFree hs hI.1 hn')
      exact ⟨hm.registered hs hr hn', hm.attentive hs hr ha hn'⟩
  obtain ⟨⟨-, hall⟩, -⟩ := hinv
  rw [s.view_world] at hall
  exact hall hn

/-- In a run where no number is handed out that is polled, a client that has no response and no script, whose request
is still to be read, is polled for input. -/
theorem requests_polled {s : LoopState} (h : Reachable s) (hn : s.world.NumbersFree) {c : Fd} {client : Client}
    (hg : s.world.getClient c = some client) (ha : client.cgiActive = false) (hr : ¬ Answered client) :
    ∃ p ∈ s.world.pollFds, p.fd = c ∧ p.events.pollin = true := by
  obtain ⟨hreg, hall⟩ := h.attentive hn
  have hnodup : s.world.fds.Nodup := hreg.nodup
  obtain ⟨p, hp, rfl⟩ := List.mem_map.mp (hreg.client_polled (scripts_of_client hg))
  exact ⟨p, hp, rfl, hall p.fd client hg ⟨ha, hr⟩ p (entryOf_of_mem hnodup hp)⟩

/-- A client sends the first line of its request. -/
def beginsOnce : List Answers := connects ++ sends 2 (ascii "GET / HTTP/1.1\r\n")

theorem requests_polled_begun :
    ∃ p ∈ (scriptStart.run beginsOnce).world.pollFds, p.fd = 4 ∧ p.events.pollin = true := by
  have hclient : ((scriptStart.run beginsOnce).world.getClient 4).map (fun client =>
      (client.cgiActive, decide (Answered client))) = some (false, false) := by decide +kernel
  have hall : (scriptStart.run beginsOnce).world.trace.all
      (fun e => match e with | .opened _ polled => !polled | _ => true) = true := by decide +kernel
  obtain ⟨client, hg, hparts⟩ := Option.map_eq_some_iff.mp hclient
  obtain ⟨ha, hr⟩ := Prod.mk.inj hparts
  have hn : (scriptStart.run beginsOnce).world.NumbersFree := by
    intro f hmem
    have hfalse := List.all_eq_true.mp hall _ hmem
    cases hfalse
  exact requests_polled (scriptStart_reachable beginsOnce) hn hg ha (of_decide_eq_false hr)

end WebServ
