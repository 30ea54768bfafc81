import WebServ.Lib.Fronted
import WebServ.Server.Positions

/-! # The listening sockets

The server polls its listening sockets first and asks them for input only. Whatever
happens to clients and scripts, and whichever numbers are mixed up among them, nothing
closes a listening socket, moves its entry or changes what is asked of it.
-/
namespace WebServ
open World KeyedList

/-- What `poll` is asked, without what it answered. -/
def PollFd.asked (p : PollFd) : Fd × Interest := (p.fd, p.events)

/-- How a listening socket is polled. -/
def ServerSocket.entry (s : ServerSocket) : PollFd := { fd := s.fd, events := { pollin := true } }

/-- Not the number of a listening socket. -/
def Outside (sockets : List ServerSocket) (f : Fd) : Prop := f ∉ sockets.map ServerSocket.fd

def Client.HasPipe (client : Client) (f : Fd) : Prop := client.cgiStdinFd = some f ∨ client.cgiStdoutFd = some f

namespace World

theorem asked_reportAll (ps : List PollFd) (rs : List Readiness) :
    (reportAll ps rs).map PollFd.asked = ps.map PollFd.asked := by
  induction ps generalizing rs with
  | nil => cases rs <;> rfl
  | cons p ps ih => cases rs <;> simp [reportAll, PollFd.report, PollFd.asked, ih]

/-- The sockets are open and polled in front, and no table has one of their numbers. -/
structure Listens (sockets : List ServerSocket) (w : World) : Prop where
  serverFds : w.serverFds = sockets
  opened : ∀ s ∈ sockets, s.fd ∈ w.opened
  polled : Fronted PollFd.fd PollFd.asked (sockets.map ServerSocket.entry) w.pollFds
  clients : ∀ c client, w.getClient c = some client →
    Outside sockets c ∧ ∀ f, client.HasPipe f → Outside sockets f
  outputs : ∀ f c, w.cgiFdToClientFd[f]? = some c → Outside sockets f
  inputs : ∀ f c, w.cgiStdinFdToClientFd[f]? = some c → Outside sockets f

namespace Listens
variable {sockets : List ServerSocket} {w : World}

theorem keys_entry (sockets : List ServerSocket) :
    (sockets.map ServerSocket.entry).map PollFd.fd = sockets.map ServerSocket.fd := by
  rw [List.map_map]
  rfl

theorem outside_iff (h : w.Listens sockets) {f : Fd} : Outside sockets f ↔ w.isListeningSocket f = false := by
  rw [Outside, isListeningSocket, h.serverFds]
  simp

theorem outside_of_closed (h : w.Listens sockets) {f : Fd} (hf : f ∉ w.opened) : Outside sockets f := by
  intro hmem
  obtain ⟨s, hs, rfl⟩ := List.mem_map.mp hmem
  exact hf (h.opened s hs)

theorem behind (h : w.Listens sockets) {idx : ℕ} {p : PollFd} (hp : w.pollFds[idx]? = some p)
    (hf : Outside sockets p.fd) : sockets.length ≤ idx := by
  have hpos := h.polled.behind hp ((keys_entry sockets).symm ▸ hf)
  rwa [List.length_map] at hpos

theorem behind_entry (h : w.Listens sockets) {idx : ℕ} {f : Fd} (hidx : idx < w.pollFds.length)
    (he : (w.entry idx).fd = f) (hf : Outside sockets f) : sockets.length ≤ idx := by
  have hp := List.getElem?_eq_getElem hidx
  rw [entry_eq hp] at he
  exact h.behind hp (he ▸ hf)

/-! ## Operations -/

theorem ite {p : Prop} [Decidable p] {v : World} (h : w.Listens sockets) (h' : v.Listens sockets) :
    (if p then w else v).Listens sockets := by
  split
  · exact h
  · exact h'

theorem log (h : w.Listens sockets) (e : Event) : (w.log e).Listens sockets :=
  ⟨h.serverFds, h.opened, h.polled, h.clients, h.outputs, h.inputs⟩

theorem logAll (h : w.Listens sockets) (es : List Event) : (w.logAll es).Listens sockets :=
  ⟨h.serverFds, h.opened, h.polled, h.clients, h.outputs, h.inputs⟩

theorem mark (h : w.Listens sockets) (thrown : Bool) : (w.mark thrown).Listens sockets :=
  ⟨h.serverFds, h.opened, h.polled, h.clients, h.outputs, h.inputs⟩

theorem openFd (h : w.Listens sockets) (f : Fd) : (w.openFd f).Listens sockets :=
  { h with opened := fun s hs => List.mem_append_left _ (h.opened s hs) }

theorem setClient (h : w.Listens sockets) {c : Fd} {client : Client} (hc : Outside sockets c)
    (hp : ∀ f, client.HasPipe f → Outside sockets f) : (w.setClient c client).Listens sockets where
  serverFds := h.serverFds
  opened := h.opened
  polled := h.polled
  clients d client' hg := by
    rw [getClient_setClient] at hg
    split at hg
    · next hd =>
      cases hg
      exact ⟨hd ▸ hc, hp⟩
    · exact h.clients d client' hg
  outputs := h.outputs
  inputs := h.inputs

theorem eraseClient (h : w.Listens sockets) (c : Fd) : (w.eraseClient c).Listens sockets where
  serverFds := h.serverFds
  opened := h.opened
  polled := h.polled
  clients d client hg := by
    rw [getClient_eraseClient] at hg
    split at hg
    · cases hg
    · exact h.clients d client hg
  outputs := h.outputs
  inputs := h.inputs

theorem eraseCgiFd (h : w.Listens sockets) (f : Fd) : (w.eraseCgiFd f).Listens sockets where
  serverFds := h.serverFds
  opened := h.opened
  polled := h.polled
  clients := h.clients
  outputs g c hg := by
    rw [getElem?_eraseCgiFd] at hg
    split at hg
    · cases hg
    · exact h.outputs g c hg
  inputs := h.inputs

theorem eraseCgiStdinFd (h : w.Listens sockets) (f : Fd) : (w.eraseCgiStdinFd f).Listens sockets where
  serverFds := h.serverFds
  opened := h.opened
  polled := h.polled
  clients := h.clients
  outputs := h.outputs
  inputs g c hg := by
    rw [getElem?_eraseCgiStdinFd] at hg
    split at hg
    · cases hg
    · exact h.inputs g c hg

theorem eraseEntry (h : w.Listens sockets) {idx : ℕ} (hi : sockets.length ≤ idx) :
    (w.eraseEntry idx).Listens sockets :=
  { h with polled := h.polled.eraseIdx (by rwa [List.length_map]) }

/-- Where the readiness is set, what is asked stays. -/
theorem of_asked {ps : List PollFd} (h : w.Listens sockets)
    (hasked : ps.map PollFd.asked = w.pollFds.map PollFd.asked) : { w with pollFds := ps }.Listens sockets := by
  have hfds := congrArg (List.map Prod.fst) hasked
  simp only [List.map_map] at hfds
  exact { h with polled := h.polled.of_map hasked hfds }

theorem modifyEntry (h : w.Listens sockets) {idx : ℕ} (hi : sockets.length ≤ idx) (g : PollFd → PollFd)
    (hg : ∀ p, (g p).fd = p.fd) : (w.modifyEntry idx g).Listens sockets :=
  { h with polled := h.polled.modify hg (by rwa [List.length_map]) }

section
variable {f : Fd} (hf : Outside sockets f)
include hf

theorem notMem_keys : f ∉ (sockets.map ServerSocket.entry).map PollFd.fd := by
  rw [keys_entry]
  exact hf

theorem closeFd (h : w.Listens sockets) : (w.closeFd f).Listens sockets where
  serverFds := h.serverFds
  opened s hs := by
    refine (List.mem_erase_of_ne ?_).mpr (h.opened s hs)
    rintro rfl
    exact hf (List.mem_map_of_mem hs)
  polled := h.polled
  clients := h.clients
  outputs := h.outputs
  inputs := h.inputs

theorem insertCgiFd (h : w.Listens sockets) (c : Fd) : (w.insertCgiFd f c).Listens sockets where
  serverFds := h.serverFds
  opened := h.opened
  polled := h.polled
  clients := h.clients
  outputs g d hg := by
    rw [getElem?_insertCgiFd] at hg
    split at hg
    · next hgf => exact hgf ▸ hf
    · exact h.outputs g d hg
  inputs := h.inputs

theorem insertCgiStdinFd (h : w.Listens sockets) (c : Fd) : (w.insertCgiStdinFd f c).Listens sockets where
  serverFds := h.serverFds
  opened := h.opened
  polled := h.polled
  clients := h.clients
  outputs := h.outputs
  inputs g d hg := by
    rw [getElem?_insertCgiStdinFd] at hg
    split at hg
    · next hgf => exact hgf ▸ hf
    · exact h.inputs g d hg

theorem pushPoll (h : w.Listens sockets) (events : Interest) : (w.pushPoll f events).Listens sockets :=
  { h with polled := h.polled.append (notMem_keys hf) }

theorem erasePollFd (h : w.Listens sockets) : (w.erasePollFd f).Listens sockets :=
  { h with polled := h.polled.eraseFirst (notMem_keys hf) }

theorem modifyFd (h : w.Listens sockets) (g : PollFd → PollFd) (hg : ∀ p, (g p).fd = p.fd) :
    (w.modifyFd f g).Listens sockets :=
  { h with polled := h.polled.updateFirst hg (notMem_keys hf) }

/-- Another entry is dropped, and the position moves with what stands there. -/
theorem dropBeside (h : w.Listens sockets) {index : ℕ} (hi : sockets.length ≤ index) :
    (w.dropBeside f index).1.Listens sockets ∧ sockets.length ≤ (w.dropBeside f index).2 := by
  unfold World.dropBeside
  split
  · next i hfound =>
    refine ⟨h.erasePollFd hf, ?_⟩
    obtain ⟨hlt, hfd, -⟩ := List.findIdx?_eq_some_iff_getElem.mp hfound
    have hpos := h.behind (List.getElem?_eq_getElem hlt) ((of_decide_eq_true hfd).symm ▸ hf)
    dsimp only
    split <;> omega
  · exact ⟨h, hi⟩

theorem enableOutput (h : w.Listens sockets) (idx : ℕ) : (w.enableOutput idx f).Listens sockets := by
  unfold World.enableOutput
  split
  · next hidx => exact h.modifyEntry (h.behind_entry hidx.1 hidx.2 hf) _ fun _ => rfl
  · exact h.modifyFd hf _ fun _ => rfl

theorem monitorStdin (h : w.Listens sockets) (c : Fd) : (w.monitorStdin f c).Listens sockets := by
  unfold World.monitorStdin
  split
  · exact h.modifyFd hf _ fun _ => rfl
  · exact (h.insertCgiStdinFd hf c).pushPoll hf _

end

/-! ## Clients and their pipes -/

section
variable {client : Client} (hp : ∀ f, client.HasPipe f → Outside sockets f)
include hp

theorem closeCgiStdin (h : w.Listens sockets) : (w.closeCgiStdin client).1.Listens sockets := by
  unfold World.closeCgiStdin
  split
  · next f hin => exact h.closeFd (hp f (Or.inl hin))
  · exact h

theorem closeCgiStdout (h : w.Listens sockets) : (w.closeCgiStdout client).1.Listens sockets := by
  unfold World.closeCgiStdout
  split
  · next f hout => exact h.closeFd (hp f (Or.inr hout))
  · exact h

theorem finishCgi (h : w.Listens sockets) (reaped : Bool) : (w.finishCgi client reaped).1.Listens sockets := by
  have hin : ∀ f, { client with cgiStdoutFd := none }.HasPipe f → Outside sockets f := by
    rintro f (hf | hf)
    · exact hp f (Or.inl hf)
    · cases hf
  have hclosed := (h.closeCgiStdout hp).closeCgiStdin hin
  unfold World.finishCgi
  simp only [closeCgiStdout_client]
  split
  · exact hclosed.log _
  · exact hclosed

theorem closeInput (h : w.Listens sockets) (bodyComplete : Bool) :
    (w.closeInput client bodyComplete).1.Listens sockets ∧
      ∀ f, (w.closeInput client bodyComplete).2.HasPipe f → Outside sockets f := by
  unfold World.closeInput
  split
  · split
    · refine ⟨h.closeCgiStdin hp, ?_⟩
      rw [closeCgiStdin_client]
      rintro f (hf | hf)
      · cases hf
      · exact hp f (Or.inr hf)
    · exact ⟨h, hp⟩
  · exact ⟨h, hp⟩

end

theorem no_pipes {client : Client} (hin : client.cgiStdinFd = none) (hout : client.cgiStdoutFd = none) (f : Fd)
    (hf : client.HasPipe f) : Outside sockets f := by
  rcases hf with hf | hf
  · rw [hin] at hf
    cases hf
  · rw [hout] at hf
    cases hf

theorem removeScript (h : w.Listens sockets) {idx : ℕ} {p : PollFd} (hp : w.pollFds[idx]? = some p)
    (hf : Outside sockets p.fd) (reaped : Bool) :
    (w.removeScript idx reaped).1.Listens sockets ∧ sockets.length ≤ (w.removeScript idx reaped).2 := by
  have hi := h.behind hp hf
  unfold World.removeScript
  rw [entry_eq hp]
  cases hg : w.getClient p.fd with
  | none => exact ⟨h, hi⟩
  | some client =>
    obtain ⟨-, hpipes⟩ := h.clients _ _ hg
    have hout : (w.dropOutput client idx).1.Listens sockets ∧ sockets.length ≤ (w.dropOutput client idx).2 := by
      unfold dropOutput
      split
      · next o ho => exact (h.eraseCgiFd o).dropBeside (hpipes o (Or.inr ho)) hi
      · exact ⟨h, hi⟩
    have hin {v : World} {i : ℕ} (hv : v.Listens sockets) (hi : sockets.length ≤ i) :
        (v.dropInput client i).1.Listens sockets ∧ sockets.length ≤ (v.dropInput client i).2 := by
      unfold dropInput
      split
      · next f hf => exact (hv.eraseCgiStdinFd f).dropBeside (hpipes f (Or.inl hf)) hi
      · exact ⟨hv, hi⟩
    obtain ⟨hdropped, hpos⟩ := hin hout.1 hout.2
    refine ⟨(hdropped.finishCgi hpipes reaped).setClient hf ?_, hpos⟩
    rw [finishCgi_client]
    exact no_pipes rfl rfl

/-- The entry of a client, or of nothing that the server knows, is dropped. -/
theorem removeClient (h : w.Listens sockets) {idx : ℕ} {p : PollFd} (hp : w.pollFds[idx]? = some p)
    (hf : Outside sockets p.fd) (reaped : Bool) (reason : RemoveReason) :
    (w.removeClient idx reaped reason).Listens sockets := by
  obtain ⟨hdropped, hpos⟩ := h.removeScript hp hf reaped
  rw [removeClient_eq, entry_eq hp]
  exact (((hdropped.closeFd hf).eraseClient _).eraseEntry hpos).log _

/-! ## Handlers -/

theorem acceptFd (h : w.Listens sockets) (serverIndex now : ℕ) {fd : Fd} (hfd : fd ∉ w.opened) :
    (w.acceptFd serverIndex now fd).Listens sockets := by
  have hf := h.outside_of_closed hfd
  have hopened := (h.openFd fd).log (.accepted fd (w.clients.contains fd))
  unfold World.acceptFd
  dsimp only
  split
  · exact hopened.pushPoll hf _
  · exact (hopened.setClient hf (no_pipes rfl rfl)).pushPoll hf _

theorem handleCgiStdinWritable (h : w.Listens sockets) (a : Answers) {idx : ℕ} {p : PollFd} {c : Fd}
    {client : Client} (hp : w.pollFds[idx]? = some p) (hc : w.cgiStdinFdToClientFd[p.fd]? = some c)
    (hg : w.getClient c = some client) (hs : client.Sound c) :
    (w.handleCgiStdinWritable a idx).2.Listens sockets := by
  obtain ⟨q, hq, -⟩ := w.flushLoop_spec p.fd a.writes 0 client
  obtain ⟨hout, hpipes⟩ := h.clients _ _ hg
  have hi := h.behind hp (h.inputs _ _ hc)
  have hpipes' : ∀ f, { client with cgiStdinPending := q }.HasPipe f → Outside sockets f := hpipes
  unfold World.handleCgiStdinWritable
  simp only [entry_eq hp, hc, hg, hq]
  split
  · refine ((((h.logAll _).eraseCgiStdinFd p.fd).closeCgiStdin hpipes').setClient hout ?_).eraseEntry hi
    rintro f (hf | hf)
    · rw [closeCgiStdin_client] at hf
      cases hf
    · rw [closeCgiStdin_client] at hf
      exact hpipes f (Or.inr hf)
  · have hset := (h.logAll ((w.flushLoop p.fd a.writes 0 client).1.map
      (.flushed c (client.cgiStdinFd = some p.fd)))).setClient hout hpipes'
    have hfd : Outside sockets client.fd := hs.fd.symm ▸ hout
    have hresumed := ite (p := q.size < cgiBackpressureLimit) (hset.modifyFd hfd PollFd.enablePollin fun _ => rfl) hset
    exact ite (hresumed.modifyEntry hi _ fun _ => rfl) hresumed

theorem cgiOutputRead (h : w.Listens sockets) {c : Fd} {client : Client} (hg : w.getClient c = some client)
    (hs : client.Sound c) (bytes : Bytes) : (w.cgiOutputRead c client bytes).1.Listens sockets := by
  obtain ⟨hout, hpipes⟩ := h.clients _ _ hg
  have hstreamed {v : World} (hv : v.Listens sockets) {client' : Client} (e : Event) (hfd : client'.fd = client.fd)
      (hsame : ∀ f, client'.HasPipe f → client.HasPipe f) :
      (((v.setClient c client').modifyFd client'.fd PollFd.enablePollout).log e).Listens sockets :=
    ((hv.setClient hout fun f hf => hpipes f (hsame f hf)).modifyFd (hfd.trans hs.fd ▸ hout)
      PollFd.enablePollout fun _ => rfl).log e
  unfold World.cgiOutputRead
  dsimp only
  split
  · exact hstreamed (h.log _) _ rfl fun _ hf => hf
  · split
    · exact (h.log _).setClient hout hpipes
    · exact hstreamed (h.log _) _ rfl fun _ hf => hf

theorem respond (h : w.Listens sockets) {c : Fd} {client : Client} (hc : Outside sockets c)
    (hpipes : ∀ f, client.HasPipe f → Outside sockets f) (response : Option HTTPResponse) :
    (w.respond c client response).Listens sockets :=
  ((h.mark response.isNone).log (.responded c (responseText response))).setClient hc hpipes

theorem finalizeCgi (h : w.Listens sockets) (a : Answers) {c : Fd} {client : Client} (hc : Outside sockets c)
    (hpipes : ∀ f, client.HasPipe f → Outside sockets f) (hfd : client.fd = c) (idx : ℕ) :
    (w.finalizeCgi a c client idx).Listens sockets := by
  have hout : Outside sockets client.fd := hfd.symm ▸ hc
  have hdone := (h.log (.cgiEnded c client.cgiStdinFd.isSome)).finishCgi hpipes a.reaped
  unfold World.finalizeCgi
  dsimp only
  simp only [finishCgi_client]
  split
  · refine Listens.log (Listens.setClient (hdone.modifyFd hout PollFd.enablePollout fun _ => rfl) hc ?_) _
    exact no_pipes rfl rfl
  · refine Listens.log (Listens.enableOutput hout (hdone.respond hc ?_ _) _) _
    exact no_pipes rfl rfl

theorem cgiOutputEnd (h : w.Listens sockets) (a : Answers) {idx : ℕ} {p : PollFd} {c : Fd} {client : Client}
    (hp : w.pollFds[idx]? = some p) (hc : w.cgiFdToClientFd[p.fd]? = some c) (hg : w.getClient c = some client)
    (hs : client.Sound c) : (w.cgiOutputEnd a idx p.fd c client).Listens sockets := by
  obtain ⟨hout, hpipes⟩ := h.clients _ _ hg
  have hf := h.outputs _ _ hc
  have herased := ((h.eraseCgiFd p.fd).closeFd hf).eraseEntry (h.behind hp hf)
  refine Listens.finalizeCgi herased a hout ?_ ?_ _
  · rintro f (hf | hf)
    · exact hpipes f (Or.inl hf)
    · cases hf
  · exact hs.fd

/-- The client keeps its pipes, but for the one that was closed. -/
theorem setClient_closed (h : w.Listens sockets) {c : Fd} {client : Client} (hc : Outside sockets c)
    (hpipes : ∀ f, client.HasPipe f → Outside sockets f) :
    ((w.closeCgiStdin client).1.setClient c (w.closeCgiStdin client).2).Listens sockets := by
  refine (h.closeCgiStdin hpipes).setClient hc ?_
  rw [closeCgiStdin_client]
  rintro f (hf | hf)
  · cases hf
  · exact hpipes f (Or.inr hf)

theorem endInput (h : w.Listens sockets) {c : Fd} {client : Client} (hg : w.getClient c = some client) :
    (w.endInput c client).Listens sockets := by
  obtain ⟨hout, hpipes⟩ := h.clients _ _ hg
  unfold World.endInput
  dsimp only
  split
  · exact (h.log _).setClient_closed hout hpipes
  · exact (h.log _).setClient hout hpipes

theorem inputComplete (h : w.Listens sockets) {c f : Fd} {client : Client} (hg : w.getClient c = some client)
    (hf : client.cgiStdinFd = some f) : (w.inputComplete c client f).Listens sockets := by
  obtain ⟨hout, hpipes⟩ := h.clients _ _ hg
  unfold World.inputComplete
  split
  · exact ((h.setClient_closed hout hpipes).eraseCgiStdinFd f).erasePollFd (hpipes f (Or.inl hf))
  · exact h.setClient hout hpipes

theorem forwardPiece (h : w.Listens sockets) {c f : Fd} {client : Client} (hg : w.getClient c = some client)
    (hf : client.cgiStdinFd = some f) (piece : Bytes) (answer : ℕ) :
    ((w.forwardPiece c client f piece answer).1.setClient c (w.forwardPiece c client f piece answer).2).Listens
      sockets := by
  obtain ⟨hout, hpipes⟩ := h.clients _ _ hg
  unfold World.forwardPiece
  dsimp only
  split
  · exact ((h.log _).monitorStdin (hpipes f (Or.inl hf)) _).setClient hout hpipes
  · exact (h.log _).setClient hout hpipes

theorem registerPipes (h : w.Listens sockets) {client : Client}
    (hpipes : ∀ f, client.HasPipe f → Outside sockets f) {stdoutFd : Fd} (ho : Outside sockets stdoutFd)
    (bodyComplete : Bool) : (w.registerPipes client stdoutFd bodyComplete).Listens sockets := by
  have hreg := (h.insertCgiFd ho client.fd).pushPoll ho { pollin := true }
  unfold World.registerPipes
  dsimp only
  split
  · next f hin =>
    split
    · exact (hreg.insertCgiStdinFd (hpipes f (Or.inl hin)) _).pushPoll (hpipes f (Or.inl hin)) _
    · exact hreg
  · exact hreg

theorem startCgiRun (h : w.Listens sockets) (a : Answers) {c : Fd} (client : Client) (pid : ℕ) {stdinFd stdoutFd : Fd}
    (hc : Outside sockets c) (hi : Outside sockets stdinFd) (ho : Outside sockets stdoutFd) :
    (w.startCgiRun a c client pid stdinFd stdoutFd).Listens sockets := by
  obtain ⟨n, b, d, hclient⟩ := cgiInput_client client pid stdinFd stdoutFd
  unfold World.startCgiRun
  dsimp only
  generalize hstarted : Client.appendCgiStdinPending _ _ = started
  have hpipes : ∀ f, started.HasPipe f → Outside sockets f := by
    rw [← hstarted, hclient]
    rintro f (hf | hf)
    · cases hf
      exact hi
    · cases hf
      exact ho
  obtain ⟨hclosed, hpipes'⟩ := closeInput hpipes ((h.log (.dispatched c stdinFd stdoutFd)).log (.forwarded c []
    (cgiInput client pid stdinFd stdoutFd).2.1 (w.write stdinFd (cgiInput client pid stdinFd stdoutFd).2.1.length
      (a.writes.head?.getD 0)))) (cgiInput client pid stdinFd stdoutFd).2.2
  exact (hclosed.setClient hc hpipes').registerPipes hpipes' ho _

/-- Pipes that were asked for have numbers that were free. -/
theorem of_pipesMade {v : World} {new : List Fd} {child : Option ℕ} (h : w.Listens sockets)
    (hm : PipesMade w v new child) : v.Listens sockets where
  serverFds := hm.serverFds.trans h.serverFds
  opened s hs := by
    rw [hm.opened]
    exact List.mem_append_left _ (h.opened s hs)
  polled := hm.pollFds ▸ h.polled
  clients c client hg := h.clients c client (hm.getClient c ▸ hg)
  outputs f c hf := h.outputs f c (hm.cgiFds ▸ hf)
  inputs f c hf := h.inputs f c (hm.cgiStdinFds ▸ hf)

theorem requestBytes (h : w.Listens sockets) (a : Answers) {idx : ℕ} {p : PollFd} {client : Client}
    (hp : w.pollFds[idx]? = some p) (hg : w.getClient p.fd = some client) (now : ℕ) (bytes : Bytes) :
    (w.requestBytes a p.fd (client.updateActivity now) idx bytes).Listens sockets := by
  obtain ⟨hout, hpipes⟩ := h.clients _ _ hg
  have hi := h.behind hp hout
  obtain ⟨b, r, s, hclient⟩ := readRequest_client a (w.config (client.updateActivity now))
    (client.updateActivity now) bytes
  have hparsed : ∀ f, (readRequest a (w.config (client.updateActivity now)) (client.updateActivity now)
      bytes).2.HasPipe f → Outside sockets f := by
    rw [hclient]
    exact hpipes
  rcases w.requestBytes_cases a p.fd (client.updateActivity now) idx bytes with
    he | ⟨v, new, outcome, response, g, -, hv, hmask, he⟩ | ⟨-, v, pid, stdinFd, stdoutFd, hv, he⟩
  · rw [he]
    exact (h.log _).setClient hout hparsed
  · rw [he]
    refine (((h.log _).of_pipesMade hv).respond hout hparsed _).modifyEntry hi g ?_
    rcases hmask with rfl | rfl <;> exact fun _ => rfl
  · rw [he]
    have hfree : ∀ f ∈ [stdinFd, stdoutFd], Outside sockets f := fun f hf =>
      (h.log _).outside_of_closed (hv.fresh hf)
    exact ((h.log _).of_pipesMade hv).startCgiRun a _ pid hout (hfree _ (by simp)) (hfree _ (by simp))

theorem sendPending (h : w.Listens sockets) (now : ℕ) {fd : Fd} {client : Client} (hg : w.getClient fd = some client)
    {sent : ℕ} (hs : sent ≤ client.cgiSendPending.size) : (w.sendPending now fd client sent hs).1.Listens sockets := by
  obtain ⟨hout, hpipes⟩ := h.clients _ _ hg
  have hset : (((w.log (.sent fd true (client.cgiSendPending.pending.take sent))).setClient fd
      ((client.consumeCgiSendPending sent hs).updateActivity now))).Listens sockets := (h.log _).setClient hout hpipes
  unfold World.sendPending resumeCgiOutput
  dsimp only
  split
  · split
    · next f hf => exact hset.modifyFd (hpipes f (Or.inr hf)) _ fun _ => rfl
    · exact hset
  · exact hset

theorem stdinHangup (h : w.Listens sockets) {idx : ℕ} {p : PollFd} {c : Fd} (hp : w.pollFds[idx]? = some p)
    (hc : w.cgiStdinFdToClientFd[p.fd]? = some c) : (w.stdinHangup idx p.fd).Listens sockets := by
  have hf := h.inputs _ _ hc
  have hi := h.behind hp hf
  have hclosed := (h.eraseCgiStdinFd p.fd).closeFd hf
  unfold World.stdinHangup
  dsimp only
  rw [hc]
  cases hg : w.getClient c with
  | none =>
    have hg' : ((w.eraseCgiStdinFd p.fd).closeFd p.fd).getClient c = none := hg
    simp only [hg']
    exact hclosed.eraseEntry hi
  | some client =>
    have hg' : ((w.eraseCgiStdinFd p.fd).closeFd p.fd).getClient c = some client := hg
    obtain ⟨hout, hpipes⟩ := h.clients _ _ hg
    simp only [hg']
    exact (hclosed.setClient_closed hout hpipes).eraseEntry hi

end Listens
end World

/-! ## Runs -/

theorem Move.listens {sockets : List ServerSocket} {files : FileSystem} {v v' : View} (h : Move files v v')
    (hs : v.2.Sound) (hl : v.2.Listens sockets) : v'.2.Listens sockets := by
  cases h with
  | turned x w => exact hl
  | reported w revents => exact hl.of_asked (asked_reportAll _ _)
  | cleared w idx =>
    exact hl.of_asked (map_modify (show ∀ p : PollFd, p.clearRevents.asked = p.asked from fun _ => rfl) idx w.pollFds)
  | accepted serverIndex now hfd => exact hl.acceptFd serverIndex now hfd
  | strayStdin hx hp hc hg =>
    have hf := hl.inputs _ _ hc
    exact ((hl.eraseCgiStdinFd _).closeFd hf).eraseEntry (hl.behind hp hf)
  | stdinWritable a hx hp hc hg => exact hl.handleCgiStdinWritable a hp hc hg (hs.clients _ _ hg)
  | @removed x w idx p reason reaped hx hp hr hg =>
    refine hl.removeClient hp ?_ reaped reason
    rcases hg with hg | ⟨hnone, -⟩
    · obtain ⟨client, hg⟩ := Option.isSome_iff_exists.mp hg
      exact (hl.clients _ _ hg).1
    · exact hl.outside_iff.mpr hnone
  | closedByRead reaped hp hg ha => exact (hl.log _).removeClient hp (hl.clients _ _ hg).1 reaped _
  | @completed x w idx p client reaped hx hp hg hd =>
    obtain ⟨hout, hpipes⟩ := hl.clients _ _ hg
    have hset : (w.setClient p.fd client.clearResponse).Listens sockets := hl.setClient hout hpipes
    have hp' : ((w.setClient p.fd client.clearResponse).modifyEntry idx PollFd.disablePollout).pollFds[idx]? =
        some p.disablePollout := by
      simp [modifyEntry, hp]
    have hmasked := hset.modifyEntry (hl.behind hp hout) PollFd.disablePollout fun _ => rfl
    exact hmasked.removeClient hp' hout reaped .complete
  | cgiRead bytes hc hg => exact hl.cgiOutputRead hg (hs.clients _ _ hg) bytes
  | cgiPaused hp hc hg hsize => exact hl.modifyEntry (hl.behind hp (hl.outputs _ _ hc)) _ fun _ => rfl
  | cgiEnded a hp hc hg => exact hl.cgiOutputEnd a hp hc hg (hs.clients _ _ hg)
  | inputEnded hg ha => exact hl.endInput hg
  | bodyRead bytes now count decoder hg =>
    obtain ⟨hout, hpipes⟩ := hl.clients _ _ hg
    exact (hl.log _).setClient hout hpipes
  | forwarded piece answer hg ha hin => exact hl.forwardPiece hg hin piece answer
  | inputComplete hg ha hin => exact hl.inputComplete hg hin
  | bodyPaused hp hg ha hsize => exact hl.modifyEntry (hl.behind hp (hl.clients _ _ hg).1) _ fun _ => rfl
  | touched now hg =>
    obtain ⟨hout, hpipes⟩ := hl.clients _ _ hg
    exact hl.setClient hout hpipes
  | requestRead a bytes hp hr hg ha => exact hl.requestBytes a hp hg a.now bytes
  | sentPending now sent hg hsize => exact hl.sendPending now hg hsize
  | outputPaused hp hg hsize => exact hl.modifyEntry (hl.behind hp (hl.clients _ _ hg).1) _ fun _ => rfl
  | sentResponse now sent hg ha hsent =>
    obtain ⟨hout, hpipes⟩ := hl.clients _ _ hg
    exact (hl.log _).setClient hout hpipes

theorem AnyMove.listens {sockets : List ServerSocket} {files : FileSystem} {v v' : View} (h : AnyMove files v v')
    (hs : v.2.Sound) (hl : v.2.Listens sockets) : v'.2.Listens sockets := by
  cases h with
  | calm hm => exact hm.listens hs hl
  | stdinHangup hp hc => exact hl.stdinHangup hp hc

theorem World.openSockets_polled {confs : List ServerConfig} {i : ℕ} {answers : List SocketAnswer} {w w' : World}
    (h : openSockets w confs i answers = some w') (hp : w.pollFds = w.serverFds.map ServerSocket.entry) :
    w'.pollFds = w'.serverFds.map ServerSocket.entry ∧
      w'.serverFds.map (fun s => (s.port, s.index)) =
        w.serverFds.map (fun s => (s.port, s.index)) ++ (confs.map ServerConfig.port).zipIdx i := by
  induction confs generalizing i answers w with
  | nil =>
    cases h
    exact ⟨hp, by simp⟩
  | cons conf confs ih =>
    match answers with
    | .listening fd :: answers =>
      simp only [openSockets] at h
      split at h
      · cases h
      · obtain ⟨hpolled, hserver⟩ := ih h (by simp [pushPoll, hp, ServerSocket.entry])
        refine ⟨hpolled, ?_⟩
        simpa using hserver
    | [] | .failed :: _ | .bindFailed _ :: _ | .listenFailed _ :: _ => cases h

theorem World.Created.listens {w : World} (h : w.Created) : w.Listens w.serverFds := by
  obtain ⟨-, hclients, hout, hin⟩ := h.start
  obtain ⟨configs, answers, h⟩ := h
  obtain ⟨hserver, hopened, -⟩ := openSockets_listening h (by simp)
  obtain ⟨hpolled, -⟩ := openSockets_polled h (by simp)
  refine ⟨rfl, ?_, hpolled ▸ .self, ?_, ?_, ?_⟩
  · intro s hs
    rw [hopened, ← hserver]
    exact List.mem_map_of_mem hs
  · intro c client hg
    rw [hclients] at hg
    cases hg
  · intro f c hf
    rw [hout] at hf
    cases hf
  · intro f c hf
    rw [hin] at hf
    cases hf

theorem LoopState.step_listens {sockets : List ServerSocket} {s : LoopState} (hs : s.world.Sound)
    (hl : s.world.Listens sockets) (a : Answers) : (s.step a).world.Listens sockets := by
  have hmoves := s.step_anyMoves a hs
  have hall {files : FileSystem} {v v' : View} (h : AnyMoves files v v') (hv : v.2.Sound ∧ v.2.Listens sockets) :
      v'.2.Sound ∧ v'.2.Listens sockets := by
    induction h with
    | refl => exact hv
    | tail _ hm ih => exact ⟨hm.sound ih.1, hm.listens ih.1 ih.2⟩
  have hlast := hall hmoves ⟨by simpa using hs, by simpa using hl⟩
  simpa using hlast.2

theorem LoopState.run_listens {sockets : List ServerSocket} {s : LoopState} (hr : Reachable s)
    (hl : s.world.Listens sockets) (as : List Answers) : (s.run as).world.Listens sockets := by
  induction as generalizing s with
  | nil => exact hl
  | cons a as ih => exact ih (hr.step a) (step_listens hr.sound hl a)

theorem Reachable.listens {s : LoopState} (h : Reachable s) : s.world.Listens s.world.serverFds := by
  obtain ⟨configs, answers, w, as, hw, rfl⟩ := h
  have hl := LoopState.run_listens ⟨configs, answers, w, [], hw, rfl⟩ (World.Created.listens ⟨configs, answers, hw⟩) as
  exact hl.serverFds.symm ▸ hl

/-- In every run the server keeps one open socket for each configured server; these stand in front of what is
polled, asked for input alone, and nothing behind them has one of their numbers. -/
theorem sockets_kept {configs : List ServerConfig} {answers : List SocketAnswer} {w : World}
    (hw : World.create configs answers = some w) (as : List Answers) :
    (LoopState.run ⟨w, .poll⟩ as).world.serverFds = w.serverFds ∧
      w.serverFds.map (fun s => (s.port, s.index)) = (configs.map ServerConfig.port).zipIdx ∧
      (w.serverFds.map ServerSocket.fd).Nodup ∧
      (∀ s ∈ w.serverFds, s.fd ∈ (LoopState.run ⟨w, .poll⟩ as).world.opened) ∧
      ∃ rest, (LoopState.run ⟨w, .poll⟩ as).world.pollFds.map PollFd.asked =
          w.serverFds.map (fun s => (s.fd, { pollin := true })) ++ rest ∧
        ∀ q ∈ rest, q.1 ∉ w.serverFds.map ServerSocket.fd := by
  have hcreated : w.Created := ⟨configs, answers, hw⟩
  have hl : (LoopState.run ⟨w, .poll⟩ as).world.Listens w.serverFds :=
    LoopState.run_listens ⟨configs, answers, w, [], hw, rfl⟩ hcreated.listens as
  obtain ⟨hserver, -, hn⟩ := openSockets_listening hw (by simp)
  obtain ⟨-, hsockets⟩ := openSockets_polled hw (by simp)
  obtain ⟨front, rest, hsplit, hfront, -, hrest⟩ := hl.polled
  refine ⟨hl.serverFds, by simpa using hsockets, hserver ▸ hn, hl.opened, rest.map PollFd.asked, ?_, ?_⟩
  · rw [hsplit, List.map_append, hfront, List.map_map]
    rfl
  · intro q hq
    obtain ⟨p, hp, rfl⟩ := List.mem_map.mp hq
    exact Listens.keys_entry w.serverFds ▸ hrest p hp

theorem sockets_kept_breaks : scriptStart.world.serverFds.map ServerSocket.fd = [3] ∧
    ∀ s ∈ scriptStart.world.serverFds, s.fd ∈ (LoopState.run ⟨scriptStart.world, .poll⟩ breaks).world.opened := by
  have hcreate : World.create [scriptServer] [.listening 3] = some scriptStart.world := rfl
  exact ⟨rfl, (sockets_kept hcreate breaks).2.2.2.1⟩

end WebServ
