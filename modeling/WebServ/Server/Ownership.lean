import WebServ.Server.Registration

/-! # Descriptors and their owners

Between two calls of handlers the containers of the server agree with the clients, as
long as no pipe to a script was closed while it was registered.
-/
namespace WebServ
open World

/-! ## The start -/

theorem World.openSockets_listening {confs : List ServerConfig} {i : ℕ} {answers : List SocketAnswer}
    {w w' : World} (h : openSockets w confs i answers = some w')
    (hs : w.serverFds.map ServerSocket.fd = w.fds ∧ w.opened = w.fds ∧ w.fds.Nodup) :
    w'.serverFds.map ServerSocket.fd = w'.fds ∧ w'.opened = w'.fds ∧ w'.fds.Nodup := by
  induction confs generalizing i answers w with
  | nil =>
    cases h
    exact hs
  | cons conf confs ih =>
    match answers with
    | .listening fd :: answers =>
      simp only [openSockets] at h
      split at h
      · cases h
      · next hfd =>
        obtain ⟨hserver, hopened, hn⟩ := hs
        refine ih h ⟨?_, ?_, ?_⟩
        · simpa using hserver
        · simpa using hopened
        · rw [fds_pushPoll]
          rw [hopened] at hfd
          refine List.Nodup.append hn (List.nodup_singleton fd) ?_
          intro f hf hf'
          exact hfd (List.mem_singleton.mp hf' ▸ hf)
    | [] | .failed :: _ | .bindFailed _ :: _ | .listenFailed _ :: _ => cases h

/-- At the start what is polled listens. -/
theorem World.Created.exact {w : World} (h : w.Created) : w.registry.Exact := by
  obtain ⟨-, hclients, hout, hin⟩ := h.start
  obtain ⟨configs, sockets, h⟩ := h
  obtain ⟨hserver, hopened, hn⟩ := openSockets_listening h (by simp)
  have hlisten : ∀ f, w.isListeningSocket f = decide (f ∈ w.fds) := by
    intro f
    rw [← hserver]
    simp [isListeningSocket, List.any_eq]
  have hroles : ∀ f, w.registry.roles f = (w.isListeningSocket f).toNat := by
    intro f
    simp [Registry.roles, World.registry, hclients, hout, hin]
  refine ⟨⟨?_, ?_, ?_, ?_⟩, ⟨hn, ?_, ?_⟩, ?_⟩
  · intro f
    rw [hroles, hlisten]
    refine ⟨?_, Bool.toNat_le _⟩
    show w.fds.count f = _
    by_cases hf : f ∈ w.fds
    · rw [List.count_eq_one_of_mem hn hf, decide_eq_true hf]
      rfl
    · rw [List.count_eq_zero_of_not_mem hf, decide_eq_false hf]
      rfl
  · intro f c
    simp [World.registry, Registry.stdout, hclients, hout]
  · intro f c
    simp [World.registry, Registry.stdin, hclients]
  · intro c p
    simp [World.registry, hclients]
  · show w.opened.Nodup
    rw [hopened]
    exact hn
  · intro f hf
    show f ∈ w.opened
    rw [hopened]
    exact hf
  · intro f c
    simp [World.registry, Registry.stdin, hclients, hin]

/-! ## Moves -/

theorem AnyMove.history {files : FileSystem} {v v' : View} (h : AnyMove files v v') (hs : v.2.Sound) (c : Fd) :
    v.2.history c <+: v'.2.history c := by
  obtain ⟨d, es, o, -, hch⟩ := h.changed hs
  rw [hch.history]
  exact List.prefix_append _ _

theorem Event.client_of_early {e : Event} (he : e.early) : ∃ c, e.client = some c := by
  cases e with
  | inputEnded c pendingEmpty stdinOpen => exact ⟨c, rfl⟩
  | cgiEnded c stdinOpen => exact ⟨c, rfl⟩
  | _ => cases he

/-- What was closed early stays in the record. -/
theorem AnyMove.closedEarly {files : FileSystem} {v v' : View} (h : AnyMove files v v')
    (hs : v.2.Sound) (he : v.2.ClosedEarly) :
    v'.2.ClosedEarly := by
  obtain ⟨e, hmem, he⟩ := he
  obtain ⟨c, hc⟩ := Event.client_of_early he
  have hhist : e ∈ v.2.history c := List.mem_filter.mpr ⟨hmem, by simp [hc]⟩
  exact ⟨e, mem_trace_of_history ((h.history hs c).subset hhist), he⟩

/-- The tables stay exact, and what a move closes belonged to a connection. -/
theorem Move.exact {files : FileSystem} {v v' : View} (h : Move files v v') (hs : v.2.Sound) (hx : v.2.registry.Exact)
    (hn : ¬ v'.2.ClosedEarly) :
    v'.2.registry.Exact ∧ ∃ es, Registry.Releases v.2.registry v'.2.registry es := by
  obtain ⟨early, hreaches, hearly⟩ := h.registry hs
  have hstep := hreaches.step hx.registered
  cases early with
  | true => exact absurd (hearly rfl) hn
  | false => exact ⟨hx.step hstep, hx.releases hstep⟩

theorem AnyMove.exact {files : FileSystem} {v v' : View} (h : AnyMove files v v')
    (hs : v.2.Sound) (hx : v.2.registry.Exact) (hn : ¬ v'.2.ClosedEarly) : v'.2.registry.Exact := by
  cases h with
  | calm h => exact (h.exact hs hx hn).1
  | @stdinHangup w idx p c hp hc =>
    cases hg : w.getClient c with
    | some client =>
      obtain ⟨-, -, hsame⟩ := stdinHangup_parts hp hc hg
      rw [hsame hx.registered]
      exact hx.hangUp hc (scripts_of_client hg)
    | none =>
      rw [stdinHangup_none hc hg]
      exact hx.step ((strayStdin_reaches hp hc hg).step hx.registered)

/-! ## Runs -/

theorem Reachable.exact {s : LoopState} (h : Reachable s) (hn : ¬ s.world.ClosedEarly) :
    s.world.registry.Exact := by
  have hinv := by
    refine h.invariant (I := fun v => ¬ v.2.ClosedEarly → v.2.registry.Exact) ?_ ?_
    · intro w hw _
      exact hw.exact
    · intro files v v' hs hI hm hn'
      exact hm.exact hs (hI (fun he => hn' (hm.closedEarly hs he))) hn'
  rw [s.view_world] at hinv
  exact hinv.1 hn

/-- The containers that have descriptors. -/
def World.tables (w : World) : List (Set Fd) :=
  [{f | w.isListeningSocket f}, {f | w.clients.contains f}, {f | w.isCgiFd f}, {f | w.isCgiStdinFd f}]

/-- Every container has what the others say it has. -/
structure World.Consistent (w : World) : Prop where
  nodup : w.fds.Nodup
  polled : ∀ f, f ∈ w.fds ↔ ∃ t ∈ w.tables, f ∈ t
  disjoint : w.tables.Pairwise Disjoint
  out_iff : ∀ f c, w.cgiFdToClientFd[f]? = some c ↔
    ∃ client, w.getClient c = some client ∧ client.cgiStdoutFd = some f ∧ f ∈ w.opened
  in_iff : ∀ f c, w.cgiStdinFdToClientFd[f]? = some c ↔
    ∃ client, w.getClient c = some client ∧ client.cgiStdinFd = some f ∧ f ∈ w.opened

theorem World.roles_eq (w : World) (f : Fd) : w.registry.roles f =
    (w.isListeningSocket f).toNat + (w.clients.contains f).toNat + (w.isCgiFd f).toNat + (w.isCgiStdinFd f).toNat := by
  simp [Registry.roles, World.registry, World.getClient, isCgiFd, isCgiStdinFd]

theorem World.stdout_eq_some (w : World) {f c : Fd} : w.registry.stdout c = some f ↔
    ∃ client, w.getClient c = some client ∧ client.cgiStdoutFd = some f := by
  simp [Registry.stdout, World.registry, Option.bind_eq_some_iff, Client.script]

theorem World.stdin_eq_some (w : World) {f c : Fd} : w.registry.stdin c = some f ↔
    ∃ client, w.getClient c = some client ∧ client.cgiStdinFd = some f := by
  simp [Registry.stdin, World.registry, Option.bind_eq_some_iff, Client.script]

theorem Registry.Exact.consistent {w : World} (h : w.registry.Exact) : w.Consistent where
  nodup := h.registered.nodup
  polled f := by
    have hcount : w.fds.count f = _ := (h.registered.balanced f).1
    rw [w.roles_eq] at hcount
    rw [← List.count_pos_iff, hcount]
    simp only [World.tables, List.mem_cons, List.not_mem_nil, or_false, exists_eq_or_imp, exists_eq_left,
      Set.mem_ofPred_eq]
    cases w.isListeningSocket f <;> cases w.clients.contains f <;> cases w.isCgiFd f <;> cases w.isCgiStdinFd f <;>
      simp
  disjoint := by
    have hone : ∀ f, (w.isListeningSocket f).toNat + (w.clients.contains f).toNat + (w.isCgiFd f).toNat +
        (w.isCgiStdinFd f).toNat ≤ 1 := fun f => w.roles_eq f ▸ (h.registered.balanced f).2
    have hdisjoint {P Q : Fd → Bool} (hle : ∀ f, (P f).toNat + (Q f).toNat ≤ 1) :
        Disjoint {f | P f = true} {f | Q f = true} := by
      rw [Set.disjoint_left]
      intro f hp hq
      have := hle f
      rw [Set.mem_ofPred_eq.mp hp, Set.mem_ofPred_eq.mp hq] at this
      exact absurd this (by decide)
    simp only [World.tables, List.pairwise_cons, List.mem_cons, List.not_mem_nil, or_false, forall_eq_or_imp,
      forall_eq, IsEmpty.forall_iff, implies_true, List.Pairwise.nil, and_true]
    refine ⟨⟨?_, ?_, ?_⟩, ⟨?_, ?_⟩, ?_⟩ <;>
    · refine hdisjoint ?_
      intro f
      have := hone f
      omega
  out_iff f c := by
    have hout := h.registered.out_iff f c
    have hopen := fun hb => h.belongs_open (c := c) (f := f) (Or.inr (Or.inr hb))
    rw [w.stdout_eq_some] at hout hopen
    exact hout.trans ⟨fun ⟨client, hg, hf⟩ => ⟨client, hg, hf, hopen ⟨client, hg, hf⟩⟩,
      fun ⟨client, hg, hf, _⟩ => ⟨client, hg, hf⟩⟩
  in_iff f c := by
    have hin := h.in_iff f c
    have hopen := fun hb => h.belongs_open (c := c) (f := f) (Or.inr (Or.inl hb))
    rw [w.stdin_eq_some] at hin hopen
    exact hin.trans ⟨fun ⟨client, hg, hf⟩ => ⟨client, hg, hf, hopen ⟨client, hg, hf⟩⟩,
      fun ⟨client, hg, hf, _⟩ => ⟨client, hg, hf⟩⟩

/-- As long as no pipe to a script was closed while it was registered, the descriptors that
are polled are those of the containers, and these agree with the clients. -/
theorem descriptors_registered {s : LoopState} (h : Reachable s) (hn : ¬ s.world.ClosedEarly) :
    s.world.Consistent := (h.exact hn).consistent

/-- A client sends the front of a body, and the script reads it. -/
def uploads : List Answers :=
  connects ++ sends 4 (ascii "POST /a.py HTTP/1.1\r\nContent-Length: 5\r\n\r\nhi") ++
    pass 4 [{}, {}, {}, { pollout := true }] { writes := [5] }

theorem descriptors_registered_uploads :
    ¬ (scriptStart.run uploads).world.ClosedEarly ∧ (scriptStart.run uploads).world.Consistent :=
  have hn : ¬ (scriptStart.run uploads).world.ClosedEarly := by decide +kernel
  ⟨hn, descriptors_registered (scriptStart_reachable uploads) hn⟩

/-- The client of the script leaves before the rest of the body. -/
def leaves : List Answers := uploads ++ pass 4 [{}, { pollin := true }] { reads := [.eof] }

/-- The pipe to the script is closed then, and stays registered. -/
theorem registered_after_close : Reachable (scriptStart.run leaves) ∧
    .closed 6 true ∈ (scriptStart.run leaves).world.trace ∧
    (scriptStart.run leaves).world.cgiStdinFdToClientFd[6]? = some 4 ∧
    ¬ (scriptStart.run leaves).world.Consistent := by
  have hclosed : .closed 6 true ∈ (scriptStart.run leaves).world.trace ∧
      (scriptStart.run leaves).world.cgiStdinFdToClientFd[6]? = some 4 ∧
      6 ∉ (scriptStart.run leaves).world.opened := by decide +kernel
  refine ⟨scriptStart_reachable leaves, hclosed.1, hclosed.2.1, ?_⟩
  intro h
  obtain ⟨client, -, -, hopen⟩ := (h.in_iff 6 4).mp hclosed.2.1
  exact hclosed.2.2 hopen

/-! ## Who closes what -/

/-- The descriptor is the number of a connection, or a pipe of its script. -/
def World.Holds (w : World) (c f : Fd) : Prop :=
  ∃ client, w.getClient c = some client ∧ (c = f ∨ client.cgiStdinFd = some f ∨ client.cgiStdoutFd = some f)

/-- The record of what was opened and closed, of children started and waited for. -/
def World.calls (w : World) : List Event := w.trace.filter (·.client = none)

/-- What is closed from one state to the next was open, and belonged to a connection
unless it was opened on the way; what a connection holds after that is open, and nobody else's. -/
structure World.ClosesOwn (w w' : World) : Prop where
  closed : ∃ es, w'.calls = w.calls ++ es ∧
    ∀ f b, .closed f b ∈ es → b = true ∧ (f ∈ w.opened → ∃ c, w.Holds c f)
  held : ∀ c f, w'.Holds c f → f ∈ w'.opened ∧ ∀ d, w'.Holds d f → d = c

theorem World.holds_iff {w : World} {c f : Fd} : w.Holds c f ↔ w.registry.Belongs c f := by
  unfold World.Holds Registry.Belongs
  rw [w.stdin_eq_some, w.stdout_eq_some]
  cases hg : w.getClient c <;> simp [World.registry, hg]

theorem Moves.exact {files : FileSystem} {v v' : View} (h : Moves files v v')
    (hs : v.2.Sound) (hx : v.2.registry.Exact) : v'.2.Sound ∧
    (¬ v'.2.ClosedEarly → v'.2.registry.Exact ∧ ∃ es, Registry.Releases v.2.registry v'.2.registry es) := by
  induction h with
  | refl => exact ⟨hs, fun _ => ⟨hx, [], .refl _⟩⟩
  | tail _ hm ih =>
    refine ⟨hm.sound ih.1, ?_⟩
    intro hn
    obtain ⟨hx', es, hes⟩ := ih.2 (fun he => hn ((AnyMove.calm hm).closedEarly ih.1 he))
    obtain ⟨hx'', fs, hfs⟩ := hm.exact ih.1 hx' hn
    exact ⟨hx'', _, hes.trans hfs⟩

theorem AnyMoves.closedEarly {files : FileSystem} {v v' : View} (h : AnyMoves files v v') (hs : v.2.Sound) :
    v'.2.Sound ∧ (v.2.ClosedEarly → v'.2.ClosedEarly) := by
  induction h with
  | refl => exact ⟨hs, id⟩
  | tail _ hm ih => exact ⟨hm.sound ih.1, fun he => hm.closedEarly ih.1 (ih.2 he)⟩

theorem LoopState.closedEarly_run {s : LoopState} (hs : s.world.Sound) (as : List Answers) :
    (s.run as).world.Sound ∧ (s.world.ClosedEarly → (s.run as).world.ClosedEarly) := by
  induction as generalizing s with
  | nil => exact ⟨hs, id⟩
  | cons a as ih =>
    have hstep := AnyMoves.closedEarly (s.step_anyMoves a hs) (by simpa using hs)
    simp only [LoopState.view_world] at hstep
    obtain ⟨hsound, hlater⟩ := ih hstep.1
    exact ⟨hsound, fun he => hlater (hstep.2 he)⟩

/-- The step that drops a broken pipe. -/
theorem LoopState.step_hangsUp {s : LoopState} (a : Answers) (h : s.hangsUp = true) :
    ∃ idx p c, s.world.pollFds[idx]? = some p ∧ s.world.cgiStdinFdToClientFd[p.fd]? = some c ∧
      (s.step a).world = s.world.stdinHangup idx p.fd := by
  obtain ⟨w, point⟩ := s
  cases point with
  | errors idx =>
    simp only [hangsUp, Bool.and_eq_true, decide_eq_true_eq, Bool.not_eq_true'] at h
    obtain ⟨⟨⟨⟨hidx, hr⟩, hl⟩, ho⟩, hi⟩ := h
    obtain ⟨c, hc⟩ := exists_of_isCgiStdinFd hi
    obtain ⟨p, hp⟩ : ∃ p, w.pollFds[idx]? = some p := ⟨_, List.getElem?_eq_getElem hidx⟩
    rw [entry_eq hp] at hr hl ho hi hc
    refine ⟨idx, p, c, hp, hc, ?_⟩
    simp only [step, hidx, if_true, handlePollErrors, entry_eq hp, hr, hl, ho, hi, Bool.false_eq_true, if_false]
  | poll => cases h
  | input idx => cases h
  | output idx => cases h
  | timeouts now i => cases h
  | stopped => cases h
  | aborted => cases h

/-- A step closes what its owner holds, unless it drops a broken pipe: that is closed twice. -/
theorem LoopState.closesOwn_iff {s : LoopState} (h : Reachable s) (a : Answers)
    (hn : ¬ (s.step a).world.ClosedEarly) : s.world.ClosesOwn (s.step a).world ↔ s.hangsUp = false := by
  have hs := h.sound
  have hmoves := AnyMoves.closedEarly (s.step_anyMoves a hs) (by simpa using hs)
  simp only [LoopState.view_world] at hmoves
  have hx := h.exact (fun he => hn (hmoves.2 he))
  refine ⟨?_, ?_⟩
  · rintro ⟨⟨es, hes, hclosed⟩, -⟩
    rw [← Bool.not_eq_true]
    intro hhang
    obtain ⟨idx, p, c, hp, hc, hstep⟩ := step_hangsUp a hhang
    obtain ⟨client, hg, hin⟩ := s.world.stdin_eq_some.mp ((hx.in_iff p.fd c).mp hc)
    have hopen : p.fd ∈ s.world.opened := hx.belongs_open (c := c) (holds_iff.mp ⟨client, hg, Or.inr (Or.inl hin)⟩)
    have hrecord : (s.step a).world.calls = s.world.calls ++ [.closed p.fd true, .closed p.fd false] := by
      show (s.step a).world.registry.record = s.world.registry.record ++ _
      rw [hstep, (stdinHangup_parts hp hc hg).2.2 hx.registered]
      have hin' : client.script.stdin = some p.fd := hin
      have hgone : p.fd ∉ (s.world.registry.closes p.fd).opened := hx.covered.opened.not_mem_erase
      have hopen' : p.fd ∈ s.world.registry.opened := hopen
      simp [Registry.hangUp, Registry.closesAny, hin', hgone, hopen']
    rw [hrecord] at hes
    have hes' := List.append_cancel_left hes
    have hfalse := (hclosed p.fd false (hes' ▸ List.mem_cons_of_mem _ List.mem_cons_self)).1
    cases hfalse
  · intro hcalm
    have hsteps := Moves.exact (s.step_moves a hs hcalm) (by simpa using hs) (by simpa using hx)
    simp only [LoopState.view_world] at hsteps
    obtain ⟨hx', es, hes⟩ := hsteps.2 hn
    refine ⟨⟨es, hes.record, ?_⟩, ?_⟩
    · intro f b hf
      obtain ⟨hb, hown⟩ := hes.closed f b hf
      refine ⟨hb, ?_⟩
      intro hopen
      obtain ⟨c, hc⟩ := hown.resolve_left (fun hnew => hnew hopen)
      exact ⟨c, holds_iff.mpr hc⟩
    · intro c f hc
      rw [holds_iff] at hc
      refine ⟨hx'.belongs_open hc, ?_⟩
      intro d hd
      exact hx'.belongs_inj (holds_iff.mp hd) hc

/-- In a run where no pipe to a script is closed while it is registered, every descriptor is
closed by its owner as long as no such pipe breaks. -/
theorem closes_own_iff {w : World} (hw : w.Created) {as : List Answers}
    (hn : ¬ (LoopState.run ⟨w, .poll⟩ as).world.ClosedEarly) :
    (∀ bs a, bs ++ [a] <+: as →
      (LoopState.run ⟨w, .poll⟩ bs).world.ClosesOwn (LoopState.run ⟨w, .poll⟩ (bs ++ [a])).world) ↔
    Calm ⟨w, .poll⟩ as := by
  obtain ⟨configs, sockets, hcreate⟩ := hw
  have hreach (bs : List Answers) : Reachable (LoopState.run ⟨w, .poll⟩ bs) := ⟨configs, sockets, w, bs, hcreate, rfl⟩
  have hstep {bs : List Answers} {a : Answers} (has : bs ++ [a] <+: as) :
      (LoopState.run ⟨w, .poll⟩ bs).world.ClosesOwn (LoopState.run ⟨w, .poll⟩ (bs ++ [a])).world ↔
        (LoopState.run ⟨w, .poll⟩ bs).hangsUp = false := by
    have hrun : LoopState.run ⟨w, .poll⟩ (bs ++ [a]) = (LoopState.run ⟨w, .poll⟩ bs).step a := by
      simp [LoopState.run]
    rw [hrun]
    refine LoopState.closesOwn_iff (hreach bs) a ?_
    intro he
    obtain ⟨cs, rfl⟩ := has
    have hlater := ((LoopState.run ⟨w, .poll⟩ (bs ++ [a])).closedEarly_run (hreach _).sound cs).2 (hrun ▸ he)
    refine hn ?_
    simpa [LoopState.run] using hlater
  refine ⟨fun hall bs a has => (hstep has).mp (hall bs a has), ?_⟩
  intro hcalm bs a has
  exact (hstep has).mpr (hcalm bs a has)

theorem closes_own_iff_uploads : (∀ bs a, bs ++ [a] <+: uploads →
    (scriptStart.run bs).world.ClosesOwn (scriptStart.run (bs ++ [a])).world) ↔ Calm scriptStart uploads :=
  closes_own_iff ⟨[scriptServer], [.listening 3], rfl⟩ (by decide +kernel)

/-- The script closes its input before it has read the body. -/
def breaks : List Answers := uploads ++ pass 4 [{}, {}, {}, { pollerr := true }] {}

/-- Its pipe is closed, and then closed again. -/
theorem broken_pipe_closed_twice : Reachable (scriptStart.run breaks) ∧
    ¬ (scriptStart.run breaks).world.ClosedEarly ∧
    [.closed 6 true, .closed 6 false] <:+ (scriptStart.run breaks).world.calls := by
  refine ⟨scriptStart_reachable breaks, ?_⟩
  decide +kernel

end WebServ
