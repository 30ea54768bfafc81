import WebServ.Config.Parser
import WebServ.Server.Listening
import WebServ.Server.PassEnds

/-! # From the start of the program to its end

The constructor opens a socket for each configured server and gives up at the first
failure. The loop stops when a signal has been handled, and the destructor closes what
the server still has.
-/
namespace WebServ
open World

namespace World

/-- Closes descriptors one after the other. -/
def closeAll (w : World) (fds : List Fd) : World := fds.foldl closeFd w

/-! ## The constructor -/

def cleanupSockets (w : World) : World :=
  { w.closeAll (w.serverFds.map ServerSocket.fd) with serverFds := [], pollFds := [] }

/-- Whether the server is ready, and what it has. -/
def construct (w : World) : List ServerConfig → ℕ → List SocketAnswer → Bool × World
  | [], _, _ => (true, w)
  | conf :: confs, i, .listening fd :: answers =>
    if fd ∈ w.opened then (false, w.cleanupSockets)
    else
      let socket : ServerSocket := ⟨fd, conf.port, i⟩
      let w := { w with opened := w.opened ++ [fd], serverFds := w.serverFds ++ [socket] }
      construct (w.pushPoll fd { pollin := true }) confs (i + 1) answers
  | _ :: _, _, .bindFailed fd :: _ | _ :: _, _, .listenFailed fd :: _ =>
    if fd ∈ w.opened then (false, w.cleanupSockets)
    else (false, ({ w with opened := w.opened ++ [fd] }.closeFd fd).cleanupSockets)
  | _ :: _, _, .failed :: _ | _ :: _, _, [] => (false, w.cleanupSockets)

/-! ## The destructor -/

def shutdown (w : World) : World := (w.closeAll w.clients.keys).closeAll (w.serverFds.map ServerSocket.fd)

/-! ## What is closed -/

section
variable {w : World} {fds : List Fd}

theorem closeAll_frame (w : World) (fds : List Fd) : (w.closeAll fds).serverFds = w.serverFds ∧
    (w.closeAll fds).clients = w.clients ∧ (w.closeAll fds).opened = w.opened.diff fds := by
  induction fds generalizing w with
  | nil => exact ⟨rfl, rfl, rfl⟩
  | cons f fds ih =>
    obtain ⟨hserver, hclients, hopened⟩ := ih (w.closeFd f)
    exact ⟨hserver, hclients, hopened.trans (List.diff_cons ..).symm⟩

theorem closeAll_trace (hn : fds.Nodup) (hopen : ∀ f ∈ fds, f ∈ w.opened) :
    (w.closeAll fds).trace = w.trace ++ fds.map (.closed · true) := by
  induction fds generalizing w with
  | nil => simp [closeAll]
  | cons f fds ih =>
    obtain ⟨hf, hn⟩ := List.nodup_cons.mp hn
    have hrest : ∀ g ∈ fds, g ∈ (w.closeFd f).opened := by
      intro g hg
      exact (List.mem_erase_of_ne (ne_of_mem_of_not_mem hg hf)).mpr (hopen g (List.mem_cons_of_mem f hg))
    have hfirst : f ∈ w.opened := hopen f List.mem_cons_self
    show ((w.closeFd f).closeAll fds).trace = _
    rw [ih hn hrest]
    simp [closeFd, World.log, hfirst]

/-- Only the listening sockets are open, each once. -/
def OnlySockets (w : World) : Prop := w.opened = w.serverFds.map ServerSocket.fd ∧ w.opened.Nodup

/-- Nothing is left of the server, and what was closed was open. -/
structure Released (w : World) : Prop where
  opened : w.opened = []
  serverFds : w.serverFds = []
  pollFds : w.pollFds = []
  closed : ∀ f b, .closed f b ∈ w.trace → b = true

theorem OnlySockets.released (h : w.OnlySockets) (ht : ∀ f b, .closed f b ∈ w.trace → b = true) :
    w.cleanupSockets.Released where
  opened := by
    show (w.closeAll _).opened = []
    rw [(w.closeAll_frame _).2.2, h.2.sdiff_eq_filter, ← h.1]
    simp
  serverFds := rfl
  pollFds := rfl
  closed f b hmem := by
    have htrace : w.cleanupSockets.trace = _ := closeAll_trace (h.1 ▸ h.2) fun f hf => h.1 ▸ hf
    rw [htrace] at hmem
    rcases List.mem_append.mp hmem with hmem | hmem
    · exact ht f b hmem
    · obtain ⟨g, -, hg⟩ := List.mem_map.mp hmem
      cases hg
      rfl

/-- A socket that is closed again leaves what was open before. -/
theorem OnlySockets.reclosed (h : w.OnlySockets) (ht : ∀ f b, .closed f b ∈ w.trace → b = true) {fd : Fd}
    (hfd : fd ∉ w.opened) : ({ w with opened := w.opened ++ [fd] }.closeFd fd).OnlySockets ∧
      ∀ f b, .closed f b ∈ ({ w with opened := w.opened ++ [fd] }.closeFd fd).trace → b = true := by
  have herase : ({ w with opened := w.opened ++ [fd] }.closeFd fd).opened = w.opened := by
    simp [closeFd, World.log, List.erase_append, hfd]
  refine ⟨⟨herase.trans h.1, herase.symm ▸ h.2⟩, ?_⟩
  intro f b hmem
  simp only [closeFd, World.log, List.mem_append, List.mem_singleton, Event.closed.injEq] at hmem
  rcases hmem with hmem | ⟨-, rfl⟩
  · exact ht f b hmem
  · simp

theorem construct_released {confs : List ServerConfig} {i : ℕ} {answers : List SocketAnswer} (h : w.OnlySockets)
    (ht : ∀ f b, .closed f b ∈ w.trace → b = true) :
    (∀ v, openSockets w confs i answers = some v ↔ construct w confs i answers = (true, v)) ∧
      ((construct w confs i answers).1 = false → (construct w confs i answers).2.Released) := by
  have hfails {v : World} (hv : v.OnlySockets) (ht : ∀ f b, .closed f b ∈ v.trace → b = true) :
      (∀ u, (none : Option World) = some u ↔ (false, v.cleanupSockets) = (true, u)) ∧
        ((false, v.cleanupSockets).1 = false → (false, v.cleanupSockets).2.Released) :=
    ⟨by simp, fun _ => hv.released ht⟩
  induction confs generalizing w i answers with
  | nil => simp [openSockets, construct, eq_comm]
  | cons conf confs ih =>
    cases answers with
    | nil => exact hfails h ht
    | cons answer answers =>
      cases answer with
      | failed => exact hfails h ht
      | bindFailed fd =>
        simp only [openSockets, construct]
        split
        · exact hfails h ht
        · next hfd => exact hfails (h.reclosed ht hfd).1 (h.reclosed ht hfd).2
      | listenFailed fd =>
        simp only [openSockets, construct]
        split
        · exact hfails h ht
        · next hfd => exact hfails (h.reclosed ht hfd).1 (h.reclosed ht hfd).2
      | listening fd =>
        simp only [openSockets, construct]
        split
        · exact hfails h ht
        · next hfd =>
          refine ih ⟨?_, ?_⟩ ht
          · simp [pushPoll, h.1]
          · refine List.Nodup.append h.2 (List.nodup_singleton fd) ?_
            simpa using hfd

end

end World

/-- The constructor makes a server that is ready, or it closes each socket that it opened and keeps nothing. -/
theorem construct_accounts (configs : List ServerConfig) (answers : List SocketAnswer) :
    (∀ w, World.create configs answers = some w ↔ World.construct { configs } configs 0 answers = (true, w)) ∧
      ((World.construct { configs } configs 0 answers).1 = false →
        (World.construct { configs } configs 0 answers).2.Released) :=
  construct_released ⟨rfl, List.nodup_nil⟩ (by simp)

/-- Descriptors are closed by the destructor while they are open, none of them twice, and these are the clients and
the listening sockets. Of what was open the pipes are left. -/
theorem shutdown_accounts {s : LoopState} (h : Reachable s) (hn : ¬ s.world.ClosedEarly) :
    (∃ fds : List Fd, fds.Nodup ∧ (∀ f, f ∈ fds ↔ s.world.clients.contains f ∨ s.world.isListeningSocket f) ∧
      s.world.shutdown.trace = s.world.trace ++ fds.map (.closed · true)) ∧
    ∀ f, f ∈ s.world.shutdown.opened ↔
      f ∈ s.world.opened ∧ ¬ (s.world.clients.contains f ∨ s.world.isListeningSocket f) := by
  have hx := h.exact hn
  have hl := h.listens
  have hlistening (f : Fd) : f ∈ s.world.serverFds.map ServerSocket.fd ↔ s.world.isListeningSocket f = true := by
    simp [isListeningSocket]
  have hclient {c : Fd} (hc : c ∈ s.world.clients.keys) : ∃ client, s.world.getClient c = some client :=
    Option.isSome_iff_exists.mp (Std.ExtTreeMap.mem_iff_isSome_getElem?.mp (Std.ExtTreeMap.mem_keys.mp hc))
  have hall : s.world.shutdown = s.world.closeAll (s.world.clients.keys ++ s.world.serverFds.map ServerSocket.fd) :=
    (List.foldl_append ..).symm
  have hmem (f : Fd) : f ∈ s.world.clients.keys ++ s.world.serverFds.map ServerSocket.fd ↔
      s.world.clients.contains f ∨ s.world.isListeningSocket f := by
    rw [List.mem_append, Std.ExtTreeMap.mem_keys, hlistening, Std.ExtTreeMap.contains_iff_mem]
  have hnodup : (s.world.clients.keys ++ s.world.serverFds.map ServerSocket.fd).Nodup := by
    refine List.Nodup.append Std.ExtTreeMap.nodup_keys ?_ ?_
    · obtain ⟨front, rest, hsplit, -, hkeys, -⟩ := hl.polled
      have hfds : s.world.fds.Nodup := hx.registered.nodup
      rw [fds, hsplit, List.map_append, hkeys, Listens.keys_entry] at hfds
      exact hfds.of_append_left
    · intro c hc hc'
      obtain ⟨client, hg⟩ := hclient hc
      exact (hl.clients c client hg).1 hc'
  have hopen : ∀ f ∈ s.world.clients.keys ++ s.world.serverFds.map ServerSocket.fd, f ∈ s.world.opened := by
    intro f hf
    rcases List.mem_append.mp hf with hf | hf
    · obtain ⟨client, hg⟩ := hclient hf
      exact hx.covered.isOpen f (hx.registered.client_polled (scripts_of_client hg))
    · obtain ⟨socket, hs, rfl⟩ := List.mem_map.mp hf
      exact hl.opened socket hs
  refine ⟨⟨_, hnodup, hmem, ?_⟩, ?_⟩
  · rw [hall, closeAll_trace hnodup hopen]
  · intro f
    have hn : s.world.opened.Nodup := hx.covered.opened
    rw [hall, (s.world.closeAll_frame _).2.2, hn.mem_sdiff_iff, hmem]

theorem shutdown_accounts_uploads : (∃ fds : List Fd, fds.Nodup ∧
      (∀ f, f ∈ fds ↔ (scriptStart.run uploads).world.clients.contains f ∨
        (scriptStart.run uploads).world.isListeningSocket f) ∧
      (scriptStart.run uploads).world.shutdown.trace =
        (scriptStart.run uploads).world.trace ++ fds.map (.closed · true)) ∧
    (∀ f, f ∈ (scriptStart.run uploads).world.shutdown.opened ↔ f ∈ (scriptStart.run uploads).world.opened ∧
      ¬ ((scriptStart.run uploads).world.clients.contains f ∨ (scriptStart.run uploads).world.isListeningSocket f)) :=
  shutdown_accounts (scriptStart_reachable uploads) (by decide +kernel)

/-! ## The end of the loop -/

/-- The loop and `g_looping`, which the handler of signals clears. -/
structure Program where
  looping : Bool := true
  loop : LoopState

namespace Program

/-- One turn: a signal may have come, and the flag is looked at before `poll`. -/
def turn (p : Program) (t : Bool × Answers) : Program :=
  let looping := p.looping && !t.1
  { looping, loop := if p.loop.point = .poll ∧ looping = false then ⟨p.loop.world, .stopped⟩ else p.loop.step t.2 }

theorem turn_ended {p : Program} (h : p.loop.Ended) (t : Bool × Answers) : (p.turn t).loop = p.loop := by
  have hpoll : ¬ p.loop.point = .poll := by
    intro hp
    rcases h with h | h <;> cases hp.symm.trans h
  unfold turn
  dsimp only
  rw [if_neg (fun hp => hpoll hp.1), h.step]

/-- Without a signal the process does what the loop does. -/
theorem turn_looping {p : Program} (h : p.looping = true) (a : Answers) :
    p.turn (false, a) = ⟨true, p.loop.step a⟩ := by
  simp [turn, h]

def Rests (p : Program) : Prop := p.loop.Rests

def rank (p : Program) : ℕ ×ₗ ℕ ×ₗ ℕ ×ₗ ℕ := p.loop.rank

theorem turn_rank (p : Program) (t : Bool × Answers) (h : ¬ p.Rests) :
    (p.turn t).Rests ∨ (p.turn t).rank < p.rank := by
  have hstep : (p.turn t).loop = p.loop.step t.2 := if_neg fun hp => h (Or.inl hp.1)
  rw [Rests, rank, hstep]
  exact p.loop.step_rank t.2 h

theorem looping_after {p : Program} (turns : ℕ → Bool × Answers) {k : ℕ} (hk : (turns k).1 = true) :
    ∀ n > k, (stateAfter turn p turns n).looping = false := by
  intro n hn
  induction n, hn using Nat.le_induction with
  | base => simp [stateAfter, turn, hk]
  | succ n hn ih => simp [stateAfter, turn, ih]

theorem ended_after {p : Program} (turns : ℕ → Bool × Answers) {m : ℕ} (hm : (stateAfter turn p turns m).loop.Ended) :
    ∀ n ≥ m, (stateAfter turn p turns n).loop = (stateAfter turn p turns m).loop := by
  intro n hn
  induction n, hn using Nat.le_induction with
  | base => rfl
  | succ n hn ih => exact (turn_ended (ih ▸ hm) _).trans ih

/-- Once a signal came the loop ends, whatever the system answers, and the server is not touched again. -/
theorem ends (p : Program) {turns : ℕ → Bool × Answers} {k : ℕ} (hk : (turns k).1 = true) :
    ∃ m, ∀ n ≥ m, (stateAfter turn p turns n).loop.Ended ∧
      (stateAfter turn p turns n).loop = (stateAfter turn p turns m).loop := by
  obtain ⟨m, hm, hrests⟩ := recurs_of_rank turn_rank p turns (k + 1)
  have hend : ∃ m, (stateAfter turn p turns m).loop.Ended := by
    rcases hrests with hpoll | hended
    · refine ⟨m + 1, Or.inl ?_⟩
      have hflag := looping_after (p := p) turns hk m hm
      simp [stateAfter, turn, hpoll, hflag]
    · exact ⟨m, hended⟩
  obtain ⟨m, hm⟩ := hend
  refine ⟨m, fun n hn => ?_⟩
  have hsame := ended_after turns hm n hn
  exact ⟨hsame ▸ hm, hsame⟩

theorem turn_aborts {p : Program} (h : p.loop.world.aborted = false) (t : Bool × Answers) :
    (p.turn t).loop.world.aborted = false ∧ ((p.turn t).loop.point = .aborted →
      p.loop.point = .aborted ∨ ∃ path, t.2.files.isDirectory path = true) := by
  unfold turn
  dsimp only
  split
  · exact ⟨h, nofun⟩
  · exact ⟨LoopState.step_unmarked h t.2, LoopState.step_aborts h⟩

/-- A loop that did not begin so ends by what is thrown only where a directory is read as a file. -/
theorem aborted_after {p : Program} (h : p.loop.world.aborted = false) (hp : p.loop.point ≠ .aborted)
    (turns : ℕ → Bool × Answers) (n : ℕ) : (stateAfter turn p turns n).loop.world.aborted = false ∧
      ((stateAfter turn p turns n).loop.point = .aborted →
        ∃ k < n, ∃ path, (turns k).2.files.isDirectory path = true) := by
  induction n with
  | zero => exact ⟨h, fun ha => absurd ha hp⟩
  | succ n ih =>
    obtain ⟨hnext, hturn⟩ := turn_aborts ih.1 (turns n)
    refine ⟨hnext, fun ha => ?_⟩
    rcases hturn ha with hbefore | hpath
    · obtain ⟨k, hk, hdir⟩ := ih.2 hbefore
      exact ⟨k, Nat.lt_succ_of_lt hk, hdir⟩
    · exact ⟨n, Nat.lt_succ_self n, hpath⟩

end Program

/-! ## The program -/

inductive ExitStatus
  | success
  | failure
  /-- The system ends the process. -/
  | crashed
deriving DecidableEq, Repr

/-- The path of the configuration file. -/
def initArgs (argv : List Bytes) : Option Bytes :=
  match argv with
  | [] | [_] => some (ascii "default.conf")
  | [_, path] => some path
  | _ => none

/-- What the program meets: files, sockets, and in each turn of the loop a signal or none. -/
structure Surroundings where
  readFile : Bytes → Option Bytes
  sockets : List SocketAnswer
  turns : ℕ → Bool × Answers

/-- The exit status and what is left, once the loop is over within the first `n` turns. A process that crashes does
not get to the destructor. -/
def main (argv : List Bytes) (s : Surroundings) (n : ℕ) : Option (ExitStatus × World) :=
  match initArgs argv with
  | none => some (.failure, {})
  | some path =>
    match Configuration.parse path (s.readFile path) with
    | .error (.rejected _) => some (.failure, {})
    | .error .outOfRange => some (.crashed, {})
    | .ok configs =>
      match World.construct { configs } configs 0 s.sockets with
      | (false, w) => some (.failure, w.shutdown)
      | (true, w) =>
        let p := stateAfter Program.turn ⟨true, ⟨w, .poll⟩⟩ s.turns n
        match p.loop.point with
        | .stopped => some (.success, p.loop.world.shutdown)
        | .aborted => some (.crashed, p.loop.world)
        | _ => none

/-- The arguments, the configuration and the sockets are as the program needs them. -/
def Startable (argv : List Bytes) (s : Surroundings) : Prop :=
  ∃ path configs w, initArgs argv = some path ∧ Configuration.parse path (s.readFile path) = .ok configs ∧
    World.create configs s.sockets = some w

theorem World.Released.shutdown {w : World} (h : w.Released) (hc : w.clients = ∅) : w.shutdown.opened = [] := by
  have hkeys : w.clients.keys = [] := Std.ExtTreeMap.keys_eq_nil_iff.mpr hc
  rw [World.shutdown, h.serverFds, hkeys]
  exact h.opened

theorem World.construct_clients (w : World) (confs : List ServerConfig) (i : ℕ) (answers : List SocketAnswer) :
    (construct w confs i answers).2.clients = w.clients := by
  have hcleanup (v : World) : v.cleanupSockets.clients = v.clients := (v.closeAll_frame _).2.1
  fun_induction construct w confs i answers with
  | case1 => rfl
  | case3 w i conf confs fd answers hfd socket w' ih => exact ih
  | _ => exact hcleanup _

/-- The configuration makes its parser read behind the tokens of a line. -/
def Overruns (argv : List Bytes) (s : Surroundings) : Prop :=
  ∃ path, initArgs argv = some path ∧ Configuration.parse path (s.readFile path) = .error .outOfRange

/-- What an exit status tells about the run. -/
def ExitStatus.Tells (argv : List Bytes) (s : Surroundings) : ExitStatus → Prop
  | .success => Startable argv s
  | .failure => ¬ Startable argv s ∧ ¬ Overruns argv s
  | .crashed => Overruns argv s ∨ Startable argv s ∧ ∃ k path, (s.turns k).2.files.isDirectory path = true

/-- Once a signal came the program ends: with success or failure as it could start or not, or by a crash, for which
the configuration or a directory read as a file is to blame. After a failure nothing is left open. -/
theorem main_ends (argv : List Bytes) {s : Surroundings} {k : ℕ} (hk : (s.turns k).1 = true) : ∃ status w m,
    (∀ n ≥ m, main argv s n = some (status, w)) ∧ status.Tells argv s ∧ (status = .failure → w.opened = []) := by
  unfold main
  cases hargs : initArgs argv with
  | none =>
    refine ⟨.failure, {}, 0, by simp, ⟨?_, ?_⟩, by simp⟩
    · simp [Startable, hargs]
    · simp [Overruns, hargs]
  | some path =>
    cases hparse : Configuration.parse path (s.readFile path) with
    | error fault =>
      have hstart : ¬ Startable argv s := by simp [Startable, hargs, hparse]
      cases fault with
      | rejected error =>
        refine ⟨.failure, {}, 0, by simp [hparse], ⟨hstart, ?_⟩, by simp⟩
        simp [Overruns, hargs, hparse]
      | outOfRange => exact ⟨.crashed, {}, 0, by simp [hparse], Or.inl ⟨path, hargs, hparse⟩, nofun⟩
    | ok configs =>
      have hover : ¬ Overruns argv s := by simp [Overruns, hargs, hparse]
      obtain ⟨hready, hreleased⟩ := construct_accounts configs s.sockets
      have hclients := World.construct_clients { configs } configs 0 s.sockets
      simp only [hparse]
      generalize World.construct { configs } configs 0 s.sockets = made at hready hreleased hclients
      obtain ⟨ready, w⟩ := made
      cases ready with
      | false =>
        refine ⟨.failure, w.shutdown, 0, by simp, ⟨?_, hover⟩, fun _ => (hreleased rfl).shutdown hclients⟩
        simp [Startable, hargs, hparse, hready]
      | true =>
        have hcreate : World.create configs s.sockets = some w := (hready w).mpr rfl
        have hstart : Startable argv s := ⟨path, configs, w, hargs, hparse, hcreate⟩
        obtain ⟨m, hm⟩ := Program.ends ⟨true, ⟨w, .poll⟩⟩ hk
        have haborted := Program.aborted_after (p := ⟨true, ⟨w, .poll⟩⟩) (openSockets_unmarked hcreate) nofun s.turns m
        generalize hlast : stateAfter Program.turn ⟨true, ⟨w, .poll⟩⟩ s.turns m = last at hm haborted
        have hended : last.loop.Ended := hlast ▸ (hm m le_rfl).1
        rcases hended with hstopped | hcrashed
        · refine ⟨.success, last.loop.world.shutdown, m, fun n hn => ?_, hstart, nofun⟩
          simp only [(hm n hn).2, hstopped]
        · refine ⟨.crashed, last.loop.world, m, fun n hn => ?_, Or.inr ⟨hstart, ?_⟩, nofun⟩
          · simp only [(hm n hn).2, hcrashed]
          · obtain ⟨k, -, path, hdir⟩ := haborted.2 hcrashed
            exact ⟨k, path, hdir⟩

/-- One server, and a signal in the first turn. -/
def signalled : Surroundings where
  readFile _ := some (ascii "server\n\x7b\nlisten 8080;\n\x7d\n")
  sockets := [.listening 3]
  turns _ := (true, {})

theorem main_ends_signalled : ∃ status w m, (∀ n ≥ m, main [ascii "webserv"] signalled n = some (status, w)) ∧
    status.Tells [ascii "webserv"] signalled ∧ (status = .failure → w.opened = []) :=
  main_ends [ascii "webserv"] (s := signalled) (k := 0) rfl

end WebServ
