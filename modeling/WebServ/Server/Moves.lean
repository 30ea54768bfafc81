import WebServ.Server.Effects
import WebServ.Server.Loop

/-! # What the handlers can do

Every call of a handler is a sequence of a few kinds of moves. What holds in all
reachable states is proved by what each kind of move keeps.
-/
namespace WebServ
open World KeyedList

/-- The descriptor whose turn for input is over in this pass, and the world. -/
abbrev View := Option Fd × World

/-- `files` is what the file system answers in the call that the move is part of. -/
inductive Move (files : FileSystem) : View → View → Prop
  | turned (x : Option Fd) (w : World) : Move files (none, w) (x, w)
  | reported (w : World) (revents : List Readiness) :
      Move files (none, w) (none, { w with pollFds := reportAll w.pollFds revents })
  | cleared (w : World) (idx : ℕ) : Move files (w.fds[idx]?, w)
      (none, w.modifyEntry idx PollFd.clearRevents)
  | accepted {x : Option Fd} {w : World} {fd : Fd} (serverIndex now : ℕ) (hfd : fd ∉ w.opened) :
      Move files (x, w) (x, w.acceptFd serverIndex now fd)
  | strayStdin {x : Option Fd} {w : World} {idx : ℕ} {p : PollFd} {c : Fd} (hx : x = none ∨ x = some p.fd)
      (hp : w.pollFds[idx]? = some p) (hc : w.cgiStdinFdToClientFd[p.fd]? = some c)
      (hg : w.getClient c = none) :
      Move files (x, w) (none, ((w.eraseCgiStdinFd p.fd).closeFd p.fd).eraseEntry idx)
  | stdinWritable {x : Option Fd} {w : World} {idx : ℕ} {p : PollFd} {c : Fd} {client : Client}
      (a : Answers) (hx : x = none ∨ x = some p.fd) (hp : w.pollFds[idx]? = some p)
      (hc : w.cgiStdinFdToClientFd[p.fd]? = some c) (hg : w.getClient c = some client) :
      Move files (x, w) (none, (w.handleCgiStdinWritable a idx).2)
  | removed {x : Option Fd} {w : World} {idx : ℕ} {p : PollFd} {reason : RemoveReason} (reaped : Bool)
      (hx : x = none ∨ x = some p.fd) (hp : w.pollFds[idx]? = some p) (hr : reason.forced)
      (hg : (w.getClient p.fd).isSome ∨
        w.isListeningSocket p.fd = false ∧ w.isCgiFd p.fd = false ∧ w.isCgiStdinFd p.fd = false) :
      Move files (x, w) (none, w.removeClient idx reaped reason)
  | closedByRead {w : World} {idx : ℕ} {p : PollFd} {client : Client} {reason : RemoveReason}
      (reaped : Bool) (hp : w.pollFds[idx]? = some p) (hg : w.getClient p.fd = some client)
      (ha : client.cgiActive = false) : Move files (none, w)
        (none, (w.log (.requestRead p.fd (Answered client) .removed)).removeClient idx reaped reason)
  | completed {x : Option Fd} {w : World} {idx : ℕ} {p : PollFd} {client : Client} (reaped : Bool)
      (hx : x = none ∨ x = some p.fd) (hp : w.pollFds[idx]? = some p)
      (hg : w.getClient p.fd = some client) (hd : Drained client) :
      Move files (x, w) (none, ((w.setClient p.fd client.clearResponse).modifyEntry idx
        PollFd.disablePollout).removeClient idx reaped .complete)
  | cgiRead {x : Option Fd} {w : World} {cgiFd c : Fd} {client : Client} (bytes : Bytes)
      (hc : w.cgiFdToClientFd[cgiFd]? = some c) (hg : w.getClient c = some client) :
      Move files (x, w) (x, (w.cgiOutputRead c client bytes).1)
  | cgiPaused {x : Option Fd} {w : World} {idx : ℕ} {p : PollFd} {c : Fd} {client : Client}
      (hp : w.pollFds[idx]? = some p) (hc : w.cgiFdToClientFd[p.fd]? = some c)
      (hg : w.getClient c = some client) (hs : client.cgiSendPending.size > cgiBackpressureLimit) :
      Move files (x, w) (x, w.modifyEntry idx PollFd.disablePollin)
  | cgiEnded {x : Option Fd} {w : World} {idx : ℕ} {p : PollFd} {c : Fd} {client : Client} (a : Answers)
      (hp : w.pollFds[idx]? = some p) (hc : w.cgiFdToClientFd[p.fd]? = some c)
      (hg : w.getClient c = some client) (hf : a.files = files)
      (hn : (w.cgiOutputEnd a idx p.fd c client).aborted = false) :
      Move files (x, w) (x, w.cgiOutputEnd a idx p.fd c client)
  | inputEnded {x : Option Fd} {w : World} {c : Fd} {client : Client} (hg : w.getClient c = some client)
      (ha : client.cgiActive = true) : Move files (x, w) (x, w.endInput c client)
  | bodyRead {x : Option Fd} {w : World} {c : Fd} {client : Client} (bytes : Bytes) (now count : ℕ)
      (decoder : Client.ChunkDecoder) (hg : w.getClient c = some client) :
      Move files (x, w) (x, (w.log (.bodyRead c bytes)).setClient c { client with
        lastActivity := now, cgiChunk := decoder, cgiBodyBytesForwarded := count })
  | forwarded {x : Option Fd} {w : World} {c stdinFd : Fd} {client : Client} (piece : Bytes) (answer : ℕ)
      (hg : w.getClient c = some client) (ha : client.cgiActive = true)
      (hs : client.cgiStdinFd = some stdinFd) :
      Move files (x, w) (x, (w.forwardPiece c client stdinFd piece answer).1.setClient c
        (w.forwardPiece c client stdinFd piece answer).2)
  | inputComplete {x : Option Fd} {w : World} {c stdinFd : Fd} {client : Client}
      (hg : w.getClient c = some client) (ha : client.cgiActive = true)
      (hs : client.cgiStdinFd = some stdinFd) : Move files (x, w) (x, w.inputComplete c client stdinFd)
  | bodyPaused {w : World} {idx : ℕ} {p : PollFd} {client : Client} (hp : w.pollFds[idx]? = some p)
      (hg : w.getClient p.fd = some client) (ha : client.cgiActive = true)
      (hs : client.cgiStdinPending.size > cgiBackpressureLimit) :
      Move files (none, w) (some p.fd, w.modifyEntry idx PollFd.disablePollin)
  | touched {x : Option Fd} {w : World} {c : Fd} {client : Client} (now : ℕ)
      (hg : w.getClient c = some client) : Move files (x, w) (x, w.setClient c (client.updateActivity now))
  | requestRead {w : World} {idx : ℕ} {p : PollFd} {client : Client} (a : Answers) (bytes : Bytes)
      (hp : w.pollFds[idx]? = some p) (hr : p.revents.pollin = true)
      (hg : w.getClient p.fd = some client) (ha : client.cgiActive = false) :
      Move files (none, w) ((w.requestBytes a p.fd (client.updateActivity a.now) idx bytes).fds[idx]?,
        w.requestBytes a p.fd (client.updateActivity a.now) idx bytes)
  | sentPending {x : Option Fd} {w : World} {fd : Fd} {client : Client} (now sent : ℕ)
      (hg : w.getClient fd = some client) (hs : sent ≤ client.cgiSendPending.size) :
      Move files (x, w) (x, (w.sendPending now fd client sent hs).1)
  | outputPaused {x : Option Fd} {w : World} {idx : ℕ} {p : PollFd} {client : Client}
      (hp : w.pollFds[idx]? = some p) (hg : w.getClient p.fd = some client)
      (hs : client.cgiSendPending.size = 0) : Move files (x, w) (x, w.modifyEntry idx PollFd.disablePollout)
  | sentResponse {x : Option Fd} {w : World} {c : Fd} {client : Client} (now sent : ℕ)
      (hg : w.getClient c = some client) (ha : client.cgiActive = false)
      (hs : client.cgiHeadersSent = false) :
      Move files (x, w) (x, (w.log (.sent c false
        ((client.response.drop client.responseOffset).take sent))).setClient c
          ((client.advanceResponseOffset sent).updateActivity now))

/-- Any number of moves. -/
abbrev Moves (files : FileSystem) : View → View → Prop := Relation.ReflTransGen (Move files)

/-- Moves, and what happens when the pipe to a script broke. -/
inductive AnyMove (files : FileSystem) : View → View → Prop
  | calm {v v' : View} (h : Move files v v') : AnyMove files v v'
  | stdinHangup {w : World} {idx : ℕ} {p : PollFd} {c : Fd} (hp : w.pollFds[idx]? = some p)
      (hc : w.cgiStdinFdToClientFd[p.fd]? = some c) : AnyMove files (none, w) (none, w.stdinHangup idx p.fd)

abbrev AnyMoves (files : FileSystem) : View → View → Prop := Relation.ReflTransGen (AnyMove files)

theorem Moves.any {files : FileSystem} {v v' : View} (h : Moves files v v') : AnyMoves files v v' :=
  Relation.ReflTransGen.mono (fun _ _ h' => AnyMove.calm h') _ _ h

/-! ## What every move keeps -/

/-- The pipe that a script writes to belongs to a client that runs a script. -/
def World.Owned (w : World) : Prop := ∀ f c, w.cgiFdToClientFd[f]? = some c →
  ∃ client, w.getClient c = some client ∧ client.cgiStdoutFd = some f ∧ client.cgiActive = true

structure World.Sound (w : World) : Prop where
  clients : ∀ c, ∀ client ∈ w.getClient c, client.Sound c
  owned : w.Owned

namespace World
variable {w w' : World}

theorem Owned.of_eq (h : w.Owned) (hg : ∀ c, w'.getClient c = w.getClient c)
    (ho : w'.cgiFdToClientFd = w.cgiFdToClientFd) : w'.Owned := by
  intro f c hf
  rw [ho] at hf
  simpa only [hg] using h f c hf

/-- One client changed, and its output pipe stayed. -/
theorem Owned.of_changed (h : w.Owned) {c : Fd} {es : List Event} {client : Client}
    (hc : Changed w w' c es (some client)) (ho : w'.cgiFdToClientFd = w.cgiFdToClientFd)
    (hk : ∀ client₀ ∈ w.getClient c,
      client.cgiStdoutFd = client₀.cgiStdoutFd ∧ client.cgiActive = client₀.cgiActive) : w'.Owned := by
  intro f d hf
  rw [ho] at hf
  obtain ⟨client', hd, hout, ha⟩ := h f d hf
  rw [hc.client]
  split
  · next hdc =>
    obtain ⟨hk₁, hk₂⟩ := hk client' (hdc ▸ hd)
    exact ⟨client, rfl, hk₁.trans hout, hk₂.trans ha⟩
  · exact ⟨client', hd, hout, ha⟩

theorem Owned.of_client (h : w.Owned) {c : Fd} {es : List Event} {client client' : Client}
    (hg : w.getClient c = some client) (hc : Changed w w' c es (some client'))
    (ho : w'.cgiFdToClientFd = w.cgiFdToClientFd)
    (hk : client'.cgiStdoutFd = client.cgiStdoutFd ∧ client'.cgiActive = client.cgiActive) : w'.Owned := by
  refine h.of_changed hc ho fun client₀ hg₀ => ?_
  obtain rfl : client = client₀ := Option.some.inj (hg.symm.trans hg₀)
  exact hk

theorem Owned.of_removed (h : w.Owned) (idx : ℕ) (reaped : Bool) (reason : RemoveReason) :
    (w.removeClient idx reaped reason).Owned := by
  intro f d hf
  rw [cgiFdToClientFd_removeClient] at hf
  split at hf
  · cases hf
  · next hne =>
    obtain ⟨client, hd, hout, ha⟩ := h f d hf
    refine ⟨client, ?_, hout, ha⟩
    rw [(removeClient_changed w idx reaped reason).client, if_neg]
    · exact hd
    · rintro rfl
      simp [hd, hout] at hne

end World

/-- A move lets one connection take steps; the others do nothing. -/
theorem Move.changed {files : FileSystem} {v v' : View} (h : Move files v v') (hs : v.2.Sound) : ∃ c es o,
    Connection.Steps v.2.configs files c (v.2.getClient c) es o ∧ Changed v.2 v'.2 c es o := by
  have quiet {w w' : World} (hg : ∀ d, w'.getClient d = w.getClient d) (hh : ∀ d, w'.history d = w.history d)
      (hf : w'.configs = w.configs) : ∃ c es o,
        Connection.Steps w.configs files c (w.getClient c) es o ∧ Changed w w' c es o :=
    ⟨0, [], _, .refl _, .of_eq 0 hg hh hf⟩
  have acts {w w' : World} {c : Fd} {client : Client} {es : List Event} {o : Option Client}
      (hg : w.getClient c = some client) (hstep : Connection.Step w.configs files c (some client) es o)
      (hc : Changed w w' c es o) : ∃ c es o,
        Connection.Steps w.configs files c (w.getClient c) es o ∧ Changed w w' c es o :=
    ⟨c, es, o, hg ▸ .single hstep, hc⟩
  cases h with
  | turned x w => exact quiet (fun _ => rfl) (fun _ => rfl) rfl
  | reported w revents => exact quiet (fun _ => rfl) (fun _ => rfl) rfl
  | cleared w idx => exact quiet (by simp) (by simp) (by simp)
  | accepted serverIndex now hfd =>
    obtain ⟨es, client', hstep, -, -, hc⟩ := acceptFd_changed _ files serverIndex now _
    exact ⟨_, es, _, .single hstep, hc⟩
  | strayStdin hx hp hc hg => exact quiet (by simp) (by simp) (by simp)
  | @stdinWritable x w idx p c client a hx hp hc hg =>
    rw [← entry_eq hp] at hc
    obtain ⟨pieces, q, s, hs', hq, hch⟩ := handleCgiStdinWritable_changed _ (a := a) hc hg
    have hs'' : s = client.cgiStdinFd ∨ s = none := hs'.imp_right And.left
    exact acts hg (.flushed _ pieces (by constructor <;> simp [hs'']) hq) hch
  | removed reaped hx hp hr hg => exact ⟨_, _, _, .single (.removed _ hr), removeClient_changed _ _ _ _⟩
  | @closedByRead w idx p client reason reaped hp hg ha =>
    have hch := removeClient_changed (w.log (.requestRead p.fd (Answered client) .removed)) idx reaped reason
    have he : ((w.log (.requestRead p.fd (Answered client) .removed)).entry idx) = p := entry_eq hp
    rw [he] at hch
    exact acts hg (.closedByRead reason ha) ((log_changed w rfl).trans hch)
  | @completed x w idx p client reaped hx hp hg hd =>
    have hch := removeClient_changed ((w.setClient p.fd client.clearResponse).modifyEntry idx
      PollFd.disablePollout) idx reaped .complete
    have he : (((w.setClient p.fd client.clearResponse).modifyEntry idx PollFd.disablePollout).entry idx).fd =
        p.fd := entry_fd (by simp [hp])
    rw [he] at hch
    have hset : Changed (w.setClient p.fd client.clearResponse) _ p.fd _ _ :=
      hch.of_frame (by simp) (by simp) (by simp)
    exact acts hg (.completed hd) hset.of_setClient
  | @cgiRead x w cgiFd c client bytes hc hg =>
    obtain ⟨client', hg', -, ha⟩ := hs.owned cgiFd c hc
    obtain rfl : client = client' := Option.some.inj (hg.symm.trans hg')
    obtain ⟨es, hstep, hch⟩ := cgiOutputRead_changed w files c bytes ha
    exact acts hg hstep hch
  | cgiPaused hp hc hg hsize => exact quiet (by simp) (by simp) (by simp)
  | @cgiEnded x w idx p c client a hp hc hg hf hn =>
    subst hf
    obtain ⟨client', hg', -, ha⟩ := hs.owned p.fd c hc
    obtain rfl : client = client' := Option.some.inj (hg.symm.trans hg')
    obtain ⟨es, o, hstep, hch⟩ := cgiOutputEnd_changed w a c idx p.fd ha hn
    exact acts hg hstep hch
  | @inputEnded x w c client hg ha =>
    obtain ⟨s, hs', hch⟩ := endInput_changed w c client
    exact acts hg (.idle _ (by constructor <;> simp [hs']) (by rfl) (by simp [Event.silent])) hch
  | @bodyRead x w c client bytes now count decoder hg =>
    exact acts hg (.idle [.bodyRead c bytes] (by constructor <;> simp) (by rfl) (by simp [Event.silent]))
      ((log_changed w rfl).trans (setClient_changed _ c _))
  | @forwarded x w c stdinFd client piece answer hg ha hin =>
    obtain ⟨q, hq, -, hch⟩ := forwardPiece_changed w c client stdinFd piece answer
    exact acts hg (.forwarded piece _ ha (by constructor <;> simp) hq) hch
  | @inputComplete x w c stdinFd client hg ha hin =>
    obtain ⟨s, e, hs', -, hch⟩ := inputComplete_changed w c client stdinFd
    exact acts hg (.idle [] (by constructor <;> simp [hs']) (by rfl) (by simp)) hch
  | bodyPaused hp hg ha hsize => exact quiet (by simp) (by simp) (by simp)
  | touched now hg =>
    exact acts hg (.idle [] (by constructor <;> simp [Client.updateActivity]) (by rfl) (by simp))
      (setClient_changed _ _ _)
  | @requestRead w idx p client a bytes hp hr hg ha =>
    have htouch : Connection.Steps w.configs files p.fd (w.getClient p.fd) [] (some (client.updateActivity a.now)) :=
      hg ▸ .single (.idle [] (by constructor <;> simp [Client.updateActivity]) rfl (by simp))
    have ha' : (client.updateActivity a.now).cgiActive = false := ha
    rcases requestBytes_changed w files a idx bytes ha' with
      ⟨es, client', hstep, -, -, -, hch⟩ | ⟨es, client', stdout, hstep, -, -, -, hch⟩
    · exact ⟨_, es, _, htouch.tail hstep, hch⟩
    · exact ⟨_, es, _, htouch.tail hstep, hch⟩
  | sentPending now sent hg hsize => exact acts hg (.sentPending now sent hsize) (sendPending_changed _ _ _ _ _ _)
  | outputPaused hp hg hsize => exact quiet (by simp) (by simp) (by simp)
  | sentResponse now sent hg ha hsent =>
    exact acts hg (.sentResponse now sent ha hsent) ((log_changed _ rfl).trans (setClient_changed _ _ _))

theorem Move.owned {files : FileSystem} {v v' : View} (h : Move files v v') (hs : v.2.Sound) : v'.2.Owned := by
  have ho := hs.owned
  cases h with
  | turned x w => exact ho
  | reported w revents => exact ho.of_eq (fun _ => rfl) rfl
  | cleared w idx => exact ho.of_eq (by simp) (by simp)
  | @accepted x w fd serverIndex now hfd =>
    obtain ⟨es, client', -, hsame, -, hc⟩ := acceptFd_changed w files serverIndex now fd
    exact ho.of_changed hc (by simp) fun client hg => by simp [hsame client hg]
  | strayStdin hx hp hc hg => exact ho.of_eq (by simp) (by simp)
  | @stdinWritable x w idx p c client a hx hp hc hg =>
    rw [← entry_eq hp] at hc
    obtain ⟨pieces, q, s, hs', hq, hch⟩ := handleCgiStdinWritable_changed w (a := a) hc hg
    exact ho.of_client hg hch (by simp) ⟨rfl, rfl⟩
  | @removed x w idx p reason reaped hx hp hr hg => exact ho.of_removed idx reaped reason
  | @closedByRead w idx p client reason reaped hp hg ha =>
    have hlog : (w.log (.requestRead p.fd (Answered client) .removed)).Owned := ho.of_eq (fun _ => rfl) rfl
    exact hlog.of_removed idx reaped reason
  | @completed x w idx p client reaped hx hp hg hd =>
    refine Owned.of_removed (Owned.of_eq (ho.of_client hg (setClient_changed w p.fd client.clearResponse) (by simp)
      ⟨rfl, rfl⟩) ?_ ?_) idx reaped .complete <;> simp
  | @cgiRead x w cgiFd c client bytes hc hg =>
    obtain ⟨client', hg', hout, ha⟩ := ho cgiFd c hc
    obtain rfl : client = client' := Option.some.inj (hg.symm.trans hg')
    obtain ⟨es, -, hch⟩ := cgiOutputRead_changed w files c bytes ha
    exact ho.of_client hg hch (by simp) (cgiOutputRead_client w c client bytes)
  | cgiPaused hp hc hg hsize => exact ho.of_eq (by simp) (by simp)
  | @cgiEnded x w idx p c client a hp hc hg hf hn =>
    subst hf
    obtain ⟨client', hg', hout, ha⟩ := ho p.fd c hc
    obtain rfl : client = client' := Option.some.inj (hg.symm.trans hg')
    obtain ⟨es, o, -, hch⟩ := cgiOutputEnd_changed w a c idx p.fd ha hn
    intro f d hf
    rw [cgiOutputEnd_cgiFds, getElem?_eraseCgiFd] at hf
    split at hf
    · cases hf
    next hne =>
    obtain ⟨client', hd, hout', ha'⟩ := ho f d hf
    refine ⟨client', ?_, hout', ha'⟩
    rw [hch.client, if_neg]
    · exact hd
    · rintro rfl
      obtain rfl : client = client' := Option.some.inj (hg.symm.trans hd)
      exact hne (Option.some.inj (hout'.symm.trans hout))
  | @inputEnded x w c client hg ha =>
    obtain ⟨s, hs', hch⟩ := endInput_changed w c client
    exact ho.of_client hg hch (by simp) ⟨rfl, rfl⟩
  | @bodyRead x w c client bytes now count decoder hg =>
    exact ho.of_client hg ((log_changed w rfl).trans (setClient_changed _ c _)) (by simp) ⟨rfl, rfl⟩
  | @forwarded x w c stdinFd client piece answer hg ha hin =>
    obtain ⟨q, hq, -, hch⟩ := forwardPiece_changed w c client stdinFd piece answer
    exact ho.of_client hg hch (by simp) ⟨rfl, rfl⟩
  | @inputComplete x w c stdinFd client hg ha hin =>
    obtain ⟨s, e, hs', -, hch⟩ := inputComplete_changed w c client stdinFd
    exact ho.of_client hg hch (by simp) ⟨rfl, rfl⟩
  | bodyPaused hp hg ha hsize => exact ho.of_eq (by simp) (by simp)
  | touched now hg => exact ho.of_client hg (setClient_changed _ _ _) (by simp) ⟨rfl, rfl⟩
  | @requestRead w idx p client a bytes hp hr hg ha =>
    have ha' : (client.updateActivity a.now).cgiActive = false := ha
    rcases requestBytes_changed w files a idx bytes ha' with
      ⟨es, client', hstep, hout, hact, hf, hch⟩ | ⟨es, client', stdout, hstep, hout, hact, hf, hch⟩
    · exact ho.of_client hg hch hf ⟨hout, hact.trans ha.symm⟩
    · intro f d hfd
      have hown : (client.updateActivity a.now).fd = p.fd := (hs.clients p.fd client hg).fd
      rw [hf, getElem?_insertCgiFd] at hfd
      rw [hch.client]
      split at hfd
      · next hfs =>
        cases hfd
        rw [if_pos hown]
        exact ⟨client', rfl, hfs ▸ hout, hact⟩
      · obtain ⟨client₁, hd, hout₁, ha₁⟩ := ho f d hfd
        rw [if_neg]
        · exact ⟨client₁, hd, hout₁, ha₁⟩
        · rintro rfl
          obtain rfl : client = client₁ := Option.some.inj (hg.symm.trans hd)
          rw [ha] at ha₁
          cases ha₁
  | sentPending now sent hg hsize =>
    exact ho.of_client hg (sendPending_changed _ _ _ _ _ _) (by simp [World.sendPending]) ⟨rfl, rfl⟩
  | outputPaused hp hg hsize => exact ho.of_eq (by simp) (by simp)
  | sentResponse now sent hg ha hsent =>
    exact ho.of_client hg ((log_changed _ rfl).trans (setClient_changed _ _ _)) (by simp) ⟨rfl, rfl⟩

theorem AnyMove.changed {files : FileSystem} {v v' : View} (h : AnyMove files v v') (hs : v.2.Sound) : ∃ c es o,
    Connection.Steps v.2.configs files c (v.2.getClient c) es o ∧ Changed v.2 v'.2 c es o := by
  cases h with
  | calm h => exact h.changed hs
  | @stdinHangup w idx p c hp hc =>
    have hch := stdinHangup_changed w idx hc
    cases hg : w.getClient c with
    | none => exact ⟨c, [], none, hg ▸ .refl _, by simpa [hg] using hch⟩
    | some client =>
      rw [hg] at hch
      have hstep : Connection.Step w.configs files c (some client) [] (some { client with cgiStdinFd := none }) :=
        .idle [] (by constructor <;> simp) rfl (by simp)
      have hsteps : Connection.Steps w.configs files c (w.getClient c) []
          (some { client with cgiStdinFd := none }) := by
        rw [hg]
        exact .single hstep
      exact ⟨c, [], _, hsteps, hch⟩

theorem AnyMove.owned {files : FileSystem} {v v' : View} (h : AnyMove files v v') (hs : v.2.Sound) : v'.2.Owned := by
  have ho := hs.owned
  cases h with
  | calm h => exact h.owned hs
  | @stdinHangup w idx p c hp hc =>
    have hch := stdinHangup_changed w idx hc
    cases hg : w.getClient c with
    | none =>
      refine ho.of_eq (fun d => ?_) (by simp)
      rw [hch.client]
      split <;> simp [*]
    | some client =>
      rw [hg] at hch
      exact ho.of_client hg hch (by simp) ⟨rfl, rfl⟩

/-- Sound worlds stay sound. -/
theorem AnyMove.sound {files : FileSystem} {v v' : View} (h : AnyMove files v v') (hs : v.2.Sound) : v'.2.Sound where
  clients d client hd := by
    obtain ⟨c, es, o, hsteps, hc⟩ := h.changed hs
    rw [hc.client] at hd
    split at hd
    · next hdc =>
      subst hdc
      exact hsteps.sound (hs.clients d) client hd
    · exact hs.clients d client hd
  owned := h.owned hs

theorem Move.sound {files : FileSystem} {v v' : View} (h : Move files v v')
    (hs : v.2.Sound) : v'.2.Sound := (AnyMove.calm h).sound hs

end WebServ
