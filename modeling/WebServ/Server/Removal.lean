import WebServ.Server.Entries
import WebServ.Server.Ownership

/-! # What goes with a client

A client that is removed takes its entry with it, the entries of its two pipes, and the
keys they have in the maps. The pipes stand anywhere in the poll list, in front of the
client or behind it, and its position is corrected for each of them.
-/
namespace WebServ
open KeyedList

/-- What a pipe is to its client. -/
inductive PipeRole
  | output | input
deriving DecidableEq, Repr

def Client.pipe (client : Client) : PipeRole → Option Fd
  | .output => client.cgiStdoutFd
  | .input => client.cgiStdinFd

namespace World
variable (w : World)

/-- The map in which the pipes of one kind are registered. -/
def owners : PipeRole → Std.ExtTreeMap Fd Fd
  | .output => w.cgiFdToClientFd
  | .input => w.cgiStdinFdToClientFd

/-- The client has the pipe. -/
def HasPipe (c : Fd) (role : PipeRole) (f : Fd) : Prop :=
  ∃ client, w.getClient c = some client ∧ client.pipe role = some f

/-- No descriptor is polled twice, and every pipe has one client, is no socket, and is
registered for its client. -/
structure PipesRegistered : Prop where
  nodup : w.fds.Nodup
  distinct : ∀ c d a b f, w.HasPipe c a f → w.HasPipe d b f → c = d ∧ a = b
  socket : ∀ c a f, w.HasPipe c a f → w.getClient f = none ∧ w.isListeningSocket f = false
  polled : ∀ c a f, w.HasPipe c a f → f ∈ w.fds
  owned : ∀ c a f, w.HasPipe c a f → (w.owners a)[f]? = some c

variable {w}

theorem HasPipe.owned (h : w.registry.Registered) {c f : Fd} {a : PipeRole} (hf : w.HasPipe c a f) :
    (w.owners a)[f]? = some c := by
  obtain ⟨client, hg, hpipe⟩ := hf
  have hc := scripts_of_client hg
  cases a with
  | output =>
    change client.cgiStdoutFd = some f at hpipe
    exact (h.out_iff f c).mpr (by simp [Registry.stdout, hc, Client.script, hpipe])
  | input =>
    change client.cgiStdinFd = some f at hpipe
    exact h.in_of f c (by simp [Registry.stdin, hc, Client.script, hpipe])

/-- A registered pipe has one role. -/
theorem HasPipe.role (h : w.registry.Registered) {c f : Fd} {a : PipeRole} (hf : w.HasPipe c a f) :
    w.registry.roles f = 1 ∧
      (a = .output ∧ (w.registry.outOf f).isSome ∨ a = .input ∧ (w.registry.inOf f).isSome) := by
  have hle := (h.balanced f).2
  have hown := hf.owned h
  cases a with
  | output =>
    have hsome : (w.registry.outOf f).isSome = true := Option.isSome_of_eq_some hown
    refine ⟨?_, Or.inl ⟨rfl, hsome⟩⟩
    simp only [Registry.roles, hsome, Bool.toNat_true] at hle ⊢
    omega
  | input =>
    have hsome : (w.registry.inOf f).isSome = true := Option.isSome_of_eq_some hown
    refine ⟨?_, Or.inr ⟨rfl, hsome⟩⟩
    simp only [Registry.roles, hsome, Bool.toNat_true] at hle ⊢
    omega

/-- The tables are in order as long as each descriptor has one owner. -/
theorem PipesRegistered.of_registered (h : w.registry.Registered) : w.PipesRegistered := by
  refine ⟨h.nodup, ?_, ?_, ?_, fun c a f hf => hf.owned h⟩
  · intro c d a b f hc hd
    have hab : a = b := by
      rcases (hc.role h).2 with ⟨rfl, hout⟩ | ⟨rfl, hin⟩
      · rcases (hd.role h).2 with ⟨rfl, -⟩ | ⟨rfl, hin⟩
        · rfl
        · rw [h.out_only hout] at hin
          cases hin
      · rcases (hd.role h).2 with ⟨rfl, hout⟩ | ⟨rfl, -⟩
        · rw [h.out_only hout] at hin
          cases hin
        · rfl
    have hcown := hc.owned h
    rw [hab, hd.owned h] at hcown
    exact ⟨(Option.some.inj hcown).symm, hab⟩
  · intro c a f hf
    obtain ⟨hone, hpipe⟩ := hf.role h
    have hpipes : 1 ≤ (w.registry.outOf f).isSome.toNat + (w.registry.inOf f).isSome.toNat := by
      rcases hpipe with ⟨-, hsome⟩ | ⟨-, hsome⟩ <;> rw [hsome, Bool.toNat_true] <;> omega
    have hnone : (w.registry.listening f).toNat + (w.registry.scripts f).isSome.toNat = 0 := by
      unfold Registry.roles at hone
      omega
    obtain ⟨hlisten, hscript⟩ := Nat.add_eq_zero_iff.mp hnone
    refine ⟨?_, Bool.toNat_eq_zero.mp hlisten⟩
    simpa [registry] using hscript
  · intro c a f hf
    apply h.mem_polled
    rw [(hf.role h).1]
    exact one_ne_zero

/-! ## Entries -/

/-- With a descriptor one entry goes, and the one expected at `index` is found again. -/
theorem dropBeside_entries (hn : w.fds.Nodup) {fd : Fd} {index : ℕ} {p : PollFd} (hp : w.pollFds[index]? = some p)
    (hne : fd ≠ p.fd) : (w.dropBeside fd index).1.pollFds = w.pollFds.filter (fun q => q.fd ≠ fd) ∧
      (w.dropBeside fd index).1.pollFds[(w.dropBeside fd index).2]? = some p := by
  have hfilter : eraseFirst PollFd.fd fd w.pollFds = w.pollFds.filter (fun q => q.fd ≠ fd) := eraseFirst_eq_filter hn fd
  unfold dropBeside
  split
  · next i hi =>
    obtain ⟨hlt, hfd, -⟩ := List.findIdx?_eq_some_iff_getElem.mp hi
    have hfound : w.pollFds[i]? = some w.pollFds[i] := List.getElem?_eq_getElem hlt
    have hkey : (w.pollFds[i]).fd = fd := by simpa using hfd
    have herase : w.pollFds.eraseIdx i = eraseFirst PollFd.fd (w.pollFds[i]).fd w.pollFds :=
      eraseIdx_eq_eraseFirst hn hfound
    rw [hkey] at herase
    have hij : i ≠ index := by
      rintro rfl
      rw [hp, Option.some.injEq] at hfound
      rw [← hfound] at hkey
      exact hne hkey.symm
    refine ⟨hfilter, ?_⟩
    change (eraseFirst PollFd.fd fd w.pollFds)[if i < index then index - 1 else index]? = some p
    rw [← herase]
    exact getElem?_eraseIdx_beside hp hij
  · next hi =>
    refine ⟨?_, hp⟩
    rw [← hfilter, eraseFirst_of_not_mem]
    intro hmem
    obtain ⟨q, hq, hfd⟩ := List.mem_map.mp hmem
    have hno := List.findIdx?_eq_none_iff.mp hi q hq
    simp [hfd] at hno

/-- With a pipe, if there is one, its entry goes, from whichever map the pipe is erased. -/
theorem dropPipe_entries (hn : w.fds.Nodup) {erase : Fd → World} (herase : ∀ f, (erase f).pollFds = w.pollFds)
    {pipe : Option Fd} {index : ℕ} {p : PollFd} (hp : w.pollFds[index]? = some p) (hne : pipe ≠ some p.fd)
    {v : World × ℕ} (hv : v = pipe.elim (w, index) fun f => (erase f).dropBeside f index) :
    v.1.pollFds = w.pollFds.filter (fun q => pipe ≠ some q.fd) ∧ v.1.pollFds[v.2]? = some p := by
  subst hv
  cases pipe with
  | none => exact ⟨by simp, hp⟩
  | some f =>
    have hother : f ≠ p.fd := by
      rintro rfl
      exact hne rfl
    have hn' : (erase f).fds.Nodup := by
      rw [fds, herase]
      exact hn
    have hp' : (erase f).pollFds[index]? = some p := by
      rw [herase]
      exact hp
    obtain ⟨hentries, hfound⟩ := dropBeside_entries hn' hp' hother
    refine ⟨hentries.trans ?_, hfound⟩
    rw [herase]
    apply List.filter_congr
    intro q _
    simp [eq_comm]

theorem dropOutput_entries (hn : w.fds.Nodup) {client : Client} {index : ℕ} {p : PollFd}
    (hp : w.pollFds[index]? = some p) (hne : client.cgiStdoutFd ≠ some p.fd) :
    (w.dropOutput client index).1.pollFds = w.pollFds.filter (fun q => client.cgiStdoutFd ≠ some q.fd) ∧
      (w.dropOutput client index).1.pollFds[(w.dropOutput client index).2]? = some p := by
  apply dropPipe_entries hn (fun f => (w.eraseCgiFd_frame f).2.2.1) hp hne
  unfold dropOutput
  cases client.cgiStdoutFd <;> rfl

theorem dropInput_entries (hn : w.fds.Nodup) {client : Client} {index : ℕ} {p : PollFd}
    (hp : w.pollFds[index]? = some p) (hne : client.cgiStdinFd ≠ some p.fd) :
    (w.dropInput client index).1.pollFds = w.pollFds.filter (fun q => client.cgiStdinFd ≠ some q.fd) ∧
      (w.dropInput client index).1.pollFds[(w.dropInput client index).2]? = some p := by
  apply dropPipe_entries hn (fun f => (w.eraseCgiStdinFd_frame f).2.2.1) hp hne
  unfold dropInput
  cases client.cgiStdinFd <;> rfl

/-- What is left of the poll list when a client is removed. -/
def remaining (w : World) (p : PollFd) (client : Client) : List PollFd :=
  w.pollFds.filter (fun q => q.fd ≠ p.fd ∧ client.cgiStdoutFd ≠ some q.fd ∧ client.cgiStdinFd ≠ some q.fd)

theorem removeClient_entries (hn : w.fds.Nodup) {idx : ℕ} {p : PollFd} (hp : w.pollFds[idx]? = some p)
    {client : Client} (hg : w.getClient p.fd = some client) (hout : client.cgiStdoutFd ≠ some p.fd)
    (hin : client.cgiStdinFd ≠ some p.fd) (reaped : Bool) (reason : RemoveReason) :
    (w.removeClient idx reaped reason).pollFds = w.remaining p client := by
  rw [removeClient_eq, removeScript, entry_eq hp]
  simp only [hg]
  obtain ⟨hfirst, hp₁⟩ := dropOutput_entries hn hp hout
  generalize hv : w.dropOutput client idx = v at hfirst hp₁
  have hn₁ : v.1.fds.Nodup := by
    change (v.1.pollFds.map PollFd.fd).Nodup
    rw [hfirst]
    exact hn.sublist (List.Sublist.map _ List.filter_sublist)
  obtain ⟨hsecond, hp₂⟩ := dropInput_entries hn₁ hp₁ hin
  generalize hu : v.1.dropInput client v.2 = u at hsecond hp₂
  have hn₂ : u.1.fds.Nodup := by
    change (u.1.pollFds.map PollFd.fd).Nodup
    rw [hsecond]
    exact hn₁.sublist (List.Sublist.map _ List.filter_sublist)
  -- the entry of the client itself goes last
  have hlast : u.1.pollFds.eraseIdx u.2 = u.1.pollFds.filter (fun q => q.fd ≠ p.fd) :=
    (eraseIdx_eq_eraseFirst hn₂ hp₂).trans (eraseFirst_eq_filter hn₂ p.fd)
  have herase (x : World) (i : ℕ) : (x.eraseEntry i).pollFds = x.pollFds.eraseIdx i := rfl
  simp only [log_frame, herase, eraseClient_frame, closeFd_frame, setClient_frame, finishCgi_frame]
  rw [hlast, hsecond, hfirst, List.filter_filter, List.filter_filter]
  apply List.filter_congr
  intro q _
  rw [Bool.eq_iff_iff]
  simp only [Bool.and_eq_true, decide_eq_true_eq]
  tauto

/-! ## Maps -/

theorem getElem?_erase_fd {m : Std.ExtTreeMap Fd Fd} (f g : Fd) :
    (m.erase f)[g]? = if f = g then none else m[g]? := by
  rw [Std.ExtTreeMap.getElem?_erase]
  simp only [Std.LawfulEqCmp.compare_eq_iff_eq]

variable (w) in
theorem dropOutput_owners (client : Client) (idx : ℕ) :
    (∀ f, (w.dropOutput client idx).1.cgiFdToClientFd[f]? =
      if client.cgiStdoutFd = some f then none else w.cgiFdToClientFd[f]?) ∧
    (w.dropOutput client idx).1.cgiStdinFdToClientFd = w.cgiStdinFdToClientFd ∧
    (w.dropOutput client idx).1.serverFds = w.serverFds := by
  unfold dropOutput
  cases client.cgiStdoutFd with
  | none => simp
  | some g =>
    simp only [dropBeside_frame]
    refine ⟨?_, rfl, rfl⟩
    intro f
    rw [eraseCgiFd, getElem?_erase_fd]
    simp

variable (w) in
theorem dropInput_owners (client : Client) (idx : ℕ) :
    (∀ f, (w.dropInput client idx).1.cgiStdinFdToClientFd[f]? =
      if client.cgiStdinFd = some f then none else w.cgiStdinFdToClientFd[f]?) ∧
    (w.dropInput client idx).1.cgiFdToClientFd = w.cgiFdToClientFd ∧
    (w.dropInput client idx).1.serverFds = w.serverFds := by
  unfold dropInput
  cases client.cgiStdinFd with
  | none => simp
  | some g =>
    simp only [dropBeside_frame]
    refine ⟨?_, rfl, rfl⟩
    intro f
    rw [eraseCgiStdinFd, getElem?_erase_fd]
    simp

/-- Only the keys of the client's own pipes leave the maps. -/
theorem removeClient_owners {idx : ℕ} {p : PollFd} (hp : w.pollFds[idx]? = some p) {client : Client}
    (hg : w.getClient p.fd = some client) (reaped : Bool) (reason : RemoveReason) :
    (∀ role f, ((w.removeClient idx reaped reason).owners role)[f]? =
      if client.pipe role = some f then none else (w.owners role)[f]?) ∧
    (w.removeClient idx reaped reason).serverFds = w.serverFds := by
  obtain ⟨hout, hkeptIn, hsockets⟩ := w.dropOutput_owners client idx
  rw [removeClient_eq, removeScript, entry_eq hp]
  simp only [hg]
  generalize w.dropOutput client idx = v at hout hkeptIn hsockets
  obtain ⟨hin, hkeptOut, hsockets'⟩ := v.1.dropInput_owners client v.2
  simp only [log_frame, eraseEntry_frame, eraseClient_frame, closeFd_frame, setClient_frame, finishCgi_frame]
  refine ⟨?_, hsockets'.trans hsockets⟩
  intro role f
  cases role with
  | output =>
    simp only [owners, log_frame, eraseEntry_frame, eraseClient_frame, closeFd_frame, setClient_frame, finishCgi_frame]
    rw [hkeptOut]
    exact hout f
  | input =>
    simp only [owners, log_frame, eraseEntry_frame, eraseClient_frame, closeFd_frame, setClient_frame, finishCgi_frame]
    rw [hin f, hkeptIn]
    rfl

/-! ## The whole removal -/

/-- Where the entries and the keys of one client are gone, the tables are still in order. -/
theorem PipesRegistered.removed {w w' : World} (h : w.PipesRegistered) {p : PollFd} {client : Client}
    (hg : w.getClient p.fd = some client) (hentries : w'.pollFds = w.remaining p client)
    (howners : ∀ role f, (w'.owners role)[f]? = if client.pipe role = some f then none else (w.owners role)[f]?)
    (hclients : ∀ c, w'.getClient c = if c = p.fd then none else w.getClient c)
    (hsockets : w'.serverFds = w.serverFds) : w'.PipesRegistered := by
  -- a pipe that is left belongs to another client, and had its entry before
  have hleft : ∀ c a f, w'.HasPipe c a f → c ≠ p.fd ∧ w.HasPipe c a f := by
    rintro c a f ⟨other, hother, hpipe⟩
    rw [hclients] at hother
    split at hother
    · cases hother
    · next hne => exact ⟨hne, other, hother, hpipe⟩
  have hapart : ∀ c a f, w'.HasPipe c a f → ∀ role, client.pipe role ≠ some f := by
    intro c a f hf role hpipe
    obtain ⟨hne, hold⟩ := hleft c a f hf
    obtain ⟨hsame, -⟩ := h.distinct c p.fd a role f hold ⟨client, hg, hpipe⟩
    exact hne hsame
  constructor
  · change (w'.pollFds.map PollFd.fd).Nodup
    rw [hentries]
    exact h.nodup.sublist (List.Sublist.map _ List.filter_sublist)
  · intro c d a b f hc hd
    exact h.distinct c d a b f (hleft c a f hc).2 (hleft d b f hd).2
  · intro c a f hf
    obtain ⟨hnone, hlisten⟩ := h.socket c a f (hleft c a f hf).2
    constructor
    · rw [hclients, hnone]
      exact ite_self none
    · rw [isListeningSocket, hsockets]
      exact hlisten
  · intro c a f hf
    obtain ⟨hne, hold⟩ := hleft c a f hf
    obtain ⟨q, hq, hfd⟩ := List.mem_map.mp (h.polled c a f hold)
    have hother : q.fd ≠ p.fd := by
      intro heq
      obtain ⟨hnone, -⟩ := h.socket c a f hold
      rw [← hfd, heq, hg] at hnone
      cases hnone
    have hkeep := hapart c a f hf
    rw [← hfd] at hkeep
    have hremains : q ∈ w'.pollFds := by
      rw [hentries]
      exact List.mem_filter.mpr ⟨hq, decide_eq_true ⟨hother, hkeep .output, hkeep .input⟩⟩
    exact List.mem_map.mpr ⟨q, hremains, hfd⟩
  · intro c a f hf
    rw [howners, if_neg (hapart c a f hf a)]
    exact h.owned c a f (hleft c a f hf).2

/-- What a removal does: it takes the entries and the keys of one client, and nothing else. -/
structure RemovesExactly (w w' : World) (p : PollFd) (client : Client) : Prop where
  entries : w'.pollFds = w.remaining p client
  owners : ∀ role f, (w'.owners role)[f]? = if client.pipe role = some f then none else (w.owners role)[f]?
  clients : ∀ c, w'.getClient c = if c = p.fd then none else w.getClient c
  sockets : w'.serverFds = w.serverFds
  registered : w'.PipesRegistered

/-- Where the tables are in order, a client is removed exactly, and they are in order again. -/
theorem removeClient_exact (w : World) (idx : ℕ) (p : PollFd) (client : Client) (reaped : Bool) (reason : RemoveReason)
    (h : w.PipesRegistered) (hp : w.pollFds[idx]? = some p) (hg : w.getClient p.fd = some client) :
    w.RemovesExactly (w.removeClient idx reaped reason) p client := by
  have hown (role : PipeRole) : client.pipe role ≠ some p.fd := by
    intro hpipe
    obtain ⟨hnone, -⟩ := h.socket p.fd role p.fd ⟨client, hg, hpipe⟩
    rw [hg] at hnone
    cases hnone
  have hentries := removeClient_entries h.nodup hp hg (hown .output) (hown .input) reaped reason
  obtain ⟨howners, hsockets⟩ := removeClient_owners hp hg reaped reason
  have hclients : ∀ c, (w.removeClient idx reaped reason).getClient c = if c = p.fd then none else w.getClient c := by
    intro c
    rw [(w.removeClient_changed idx reaped reason).client, entry_eq hp]
  exact ⟨hentries, howners, hclients, hsockets, h.removed hg hentries howners hclients hsockets⟩

/-- Every server that closed no pipe early is in this order. -/
theorem pipesRegistered_of_reachable {s : LoopState} (h : Reachable s) (hn : ¬ s.world.ClosedEarly) :
    s.world.PipesRegistered := .of_registered (h.exact hn).registered

/-- A client between whose entry and the end of the list its two pipes are polled. -/
theorem removeClient_exact_uploads : ∃ client, client.pipe .output = some 7 ∧ client.pipe .input = some 6 ∧
    (scriptStart.run uploads).world.RemovesExactly ((scriptStart.run uploads).world.removeClient 1 true .hangup)
      ((scriptStart.run uploads).world.entry 1) client := by
  have hpipes : ((scriptStart.run uploads).world.getClient 4).any
      (fun client => client.pipe .output = some 7 ∧ client.pipe .input = some 6) = true := by decide +kernel
  obtain ⟨client, hg, hclient⟩ := (Option.any_eq_true _ _).mp hpipes
  simp only [decide_eq_true_eq] at hclient
  have hn : ¬ (scriptStart.run uploads).world.ClosedEarly := by decide +kernel
  have hfd : ((scriptStart.run uploads).world.entry 1).fd = 4 := by decide +kernel
  have hp : (scriptStart.run uploads).world.pollFds[1]? = some ((scriptStart.run uploads).world.entry 1) := by
    decide +kernel
  rw [← hfd] at hg
  exact ⟨client, hclient.1, hclient.2, removeClient_exact _ 1 _ client true .hangup
    (pipesRegistered_of_reachable (scriptStart_reachable uploads) hn) hp hg⟩

end World
end WebServ
