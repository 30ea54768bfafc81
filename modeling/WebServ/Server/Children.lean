import WebServ.Server.Ownership

/-! # Children of the server

A client holds the child that runs its script until it has waited for it. The wait
does not block, so a child that is still running then is forgotten.
-/
namespace WebServ
open World Registry

theorem AnyMove.keeps {files : FileSystem} {v v' : View} (h : AnyMove files v v')
    (hs : v.2.Sound) (hi : v.2.registry.Idle) :
    v'.2.registry.Idle ∧ ∃ es, Keeps v.2.registry v'.2.registry es := by
  cases h with
  | calm h =>
    obtain ⟨early, hreaches, -⟩ := h.registry hs
    exact hreaches.keeps hi
  | @stdinHangup w idx p c hp hc =>
    cases hg : w.getClient c with
    | some client =>
      obtain ⟨hscripts, hrecord, -⟩ := stdinHangup_parts hp hc hg
      obtain ⟨es, hes⟩ := keeps_hangUp w.registry (f := p.fd) (scripts_of_client hg)
      exact ⟨(hi.hangUp (scripts_of_client hg)).of_scripts hscripts, es, hes.of_record hscripts hrecord⟩
    | none =>
      rw [stdinHangup_none hc hg]
      exact (strayStdin_reaches hp hc hg).keeps hi

theorem AnyMoves.keeps {files : FileSystem} {v v' : View} (h : AnyMoves files v v')
    (hs : v.2.Sound) (hi : v.2.registry.Idle) :
    v'.2.Sound ∧ v'.2.registry.Idle ∧ ∃ es, Keeps v.2.registry v'.2.registry es := by
  induction h with
  | refl => exact ⟨hs, hi, [], .refl _⟩
  | tail _ hm ih =>
    obtain ⟨hs', hi', es, hes⟩ := ih
    obtain ⟨hi'', fs, hfs⟩ := hm.keeps hs' hi'
    exact ⟨hm.sound hs', hi'', _, hes.trans hfs⟩

theorem Reachable.idle {s : LoopState} (h : Reachable s) : s.world.registry.Idle := by
  have hinv := by
    refine h.invariant (I := fun v => v.2.registry.Idle) ?_ ?_
    · intro w hw
      exact hw.exact.registered.idle
    · intro files v v' hs hI hm
      exact (hm.keeps hs hI).1
  rw [s.view_world] at hinv
  exact hinv.1

/-- The connection holds the child, as the process that runs its script. -/
def World.HoldsChild (w : World) (c : Fd) (pid : ℕ) : Prop :=
  ∃ client, w.getClient c = some client ∧ client.cgiPid = some pid

/-- From one state to the next no child is forgotten: who held a child holds it still, or
the child was reaped, and so with children that are started. -/
def World.KeepsChildren (w w' : World) : Prop := ∃ es, w'.calls = w.calls ++ es ∧
  (∀ c pid, w.HoldsChild c pid → w'.HoldsChild c pid ∨ .waited pid true ∈ es) ∧
  ∀ pid, .forked pid ∈ es → (∃ c, w'.HoldsChild c pid) ∨ .waited pid true ∈ es

theorem World.holdsChild_iff {w : World} {c : Fd} {pid : ℕ} :
    w.HoldsChild c pid ↔ w.registry.child c = some pid := by
  simp [HoldsChild, Registry.child, World.registry, Option.bind_eq_some_iff, Client.script]

theorem Reachable.step_keepsChildren {s : LoopState} (h : Reachable s) (a : Answers)
    (hw : ∀ pid, .waited pid false ∉ (s.step a).world.trace) : s.world.KeepsChildren (s.step a).world := by
  obtain ⟨-, -, es, hes⟩ := AnyMoves.keeps (s.step_anyMoves a h.sound) (by simpa using h.sound) (by simpa using h.idle)
  rw [s.view_world, (s.step a).view_world] at hes
  -- who was waited for in this step was reaped
  have hreaped : ∀ pid, (∃ b, Event.waited pid b ∈ es) → .waited pid true ∈ es := by
    intro pid ⟨b, hb⟩
    cases b with
    | true => exact hb
    | false =>
      have hmem : .waited pid false ∈ (s.step a).world.registry.record := by
        rw [hes.record]
        exact List.mem_append_right _ hb
      exact absurd (List.mem_filter.mp hmem).1 (hw pid)
  refine ⟨es, hes.record, ?_, ?_⟩
  · intro c pid hc
    rw [holdsChild_iff] at hc ⊢
    exact (hes.held c pid hc).imp_right (hreaped pid)
  · intro pid hf
    refine (hes.forked pid hf).imp ?_ (hreaped pid)
    rintro ⟨c, hc⟩
    exact ⟨c, holdsChild_iff.mpr hc⟩

/-- What is recorded stays in the record. -/
theorem Reachable.calls_run {s : LoopState} (h : Reachable s) (as : List Answers) :
    Reachable (s.run as) ∧ s.world.calls <+: (s.run as).world.calls := by
  induction as using List.reverseRecOn with
  | nil => exact ⟨h, List.prefix_rfl⟩
  | append_singleton as a ih =>
    obtain ⟨hr, hprefix⟩ := ih
    have hrun : s.run (as ++ [a]) = (s.run as).step a := by simp [LoopState.run]
    have hr' : Reachable (s.run (as ++ [a])) := by
      obtain ⟨configs, sockets, w, bs, hw, rfl⟩ := h
      exact ⟨configs, sockets, w, bs ++ (as ++ [a]), hw, by simp [LoopState.run]⟩
    obtain ⟨-, -, es, hes⟩ :=
      AnyMoves.keeps ((s.run as).step_anyMoves a hr.sound) (by simpa using hr.sound) (by simpa using hr.idle)
    rw [(s.run as).view_world, ((s.run as).step a).view_world, ← hrun] at hes
    have hcalls : (s.run (as ++ [a])).world.calls = (s.run as).world.calls ++ es := hes.record
    rw [hcalls]
    exact ⟨hr', hprefix.trans (List.prefix_append _ _)⟩

/-- In a run where every child has exited by the time it is waited for, no child is forgotten. -/
theorem children_reaped {w : World} (hw : w.Created) (as bs : List Answers) (a : Answers)
    (hreaped : ∀ pid, .waited pid false ∉ (LoopState.run ⟨w, .poll⟩ as).world.trace) (has : bs ++ [a] <+: as) :
    (LoopState.run ⟨w, .poll⟩ bs).world.KeepsChildren (LoopState.run ⟨w, .poll⟩ (bs ++ [a])).world := by
  obtain ⟨configs, sockets, hcreate⟩ := hw
  have hreach (bs : List Answers) : Reachable (LoopState.run ⟨w, .poll⟩ bs) := ⟨configs, sockets, w, bs, hcreate, rfl⟩
  have hrun : LoopState.run ⟨w, .poll⟩ (bs ++ [a]) = (LoopState.run ⟨w, .poll⟩ bs).step a := by
    simp [LoopState.run]
  obtain ⟨cs, rfl⟩ := has
  have hlater := ((hreach (bs ++ [a])).calls_run cs).2
  rw [hrun] at hlater ⊢
  refine (hreach bs).step_keepsChildren a ?_
  intro pid hmem
  have hcall : .waited pid false ∈ ((LoopState.run ⟨w, .poll⟩ bs).step a).world.calls :=
    List.mem_filter.mpr ⟨hmem, by simp [Event.client]⟩
  refine hreaped pid ?_
  have hlate := (List.mem_filter.mp (hlater.subset hcall)).1
  rw [← hrun] at hlate
  simpa [LoopState.run] using hlate

/-- The output of a script is at its end, and the loop is about to read it. -/
def endReached : List Answers := uploads ++ (pass 4 [{}, {}, { pollhup := true }] {}).take 8

theorem children_reaped_script : (scriptStart.run endReached).world.KeepsChildren
    (scriptStart.run (endReached ++ [{ reads := [.eof], reaped := true }])).world := by
  have hall : (scriptStart.run (endReached ++ [{ reads := [.eof], reaped := true }])).world.trace.all
      (fun e => match e with | .waited _ reaped => reaped | _ => true) = true := by decide +kernel
  have hreaped : ∀ pid, .waited pid false ∉
      (scriptStart.run (endReached ++ [{ reads := [.eof], reaped := true }])).world.trace := by
    intro pid hmem
    have hfalse := List.all_eq_true.mp hall _ hmem
    cases hfalse
  have hw : scriptStart.world.Created := ⟨[scriptServer], [.listening 3], rfl⟩
  have hrun : ∀ as, scriptStart.run as = LoopState.run ⟨scriptStart.world, .poll⟩ as := fun _ => rfl
  rw [hrun] at hreaped
  rw [hrun, hrun]
  exact children_reaped hw _ endReached { reads := [.eof], reaped := true } hreaped List.prefix_rfl

/-- The script has closed its output and runs on: its child is forgotten. -/
theorem running_child_forgotten : Reachable (scriptStart.run endReached) ∧
    (scriptStart.run endReached).world.HoldsChild 4 9 ∧
    ¬ (scriptStart.run endReached).world.KeepsChildren
      (scriptStart.run (endReached ++ [{ reads := [.eof], reaped := false }])).world := by
  have hheld : ((scriptStart.run endReached).world.getClient 4).bind Client.cgiPid = some 9 := by decide +kernel
  have hholds : (scriptStart.run endReached).world.HoldsChild 4 9 := by
    obtain ⟨client, hg, hpid⟩ := Option.bind_eq_some_iff.mp hheld
    exact ⟨client, hg, hpid⟩
  refine ⟨scriptStart_reachable endReached, hholds, ?_⟩
  rintro ⟨es, hcalls, hkept, -⟩
  have hdropped : (((scriptStart.run (endReached ++ [{ reads := [.eof], reaped := false }])).world.getClient 4).bind
      Client.cgiPid) = none ∧ .waited 9 true ∉
        (scriptStart.run (endReached ++ [{ reads := [.eof], reaped := false }])).world.calls := by decide +kernel
  rcases hkept 4 9 hholds with ⟨client, hg, hpid⟩ | hwaited
  · rw [hg, Option.bind_some, hpid] at hdropped
    cases hdropped.1
  · refine hdropped.2 ?_
    rw [hcalls]
    exact List.mem_append_right _ hwaited

end WebServ
