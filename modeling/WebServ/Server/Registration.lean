import WebServ.Registry.Records
import WebServ.Server.Steps

/-! # The tables of the server

Every move of the handlers is a step of the tables. A step is early only when the
record tells that the input of a script ended, or its output, with the pipe still open.
-/
namespace WebServ
open World KeyedList

/-- What a client holds of its script. -/
def Client.script (client : Client) : Script :=
  ⟨client.cgiStdinFd, client.cgiStdoutFd, client.cgiPid, client.cgiActive⟩

namespace World
variable (w : World)

def registry : Registry where
  listening := w.isListeningSocket
  polled := w.fds
  scripts c := (w.getClient c).map Client.script
  outOf f := w.cgiFdToClientFd[f]?
  inOf f := w.cgiStdinFdToClientFd[f]?
  opened := w.opened
  record := w.trace.filter (·.client = none)

/-! ## Operations -/

@[simp] theorem registry_mark (thrown : Bool) : (w.mark thrown).registry = w.registry := rfl

theorem registry_log {e : Event} (he : e.client.isSome) : (w.log e).registry = w.registry := by
  have hne : ¬ e.client = none := Option.isSome_iff_ne_none.mp he
  apply Registry.ext <;> simp [registry, log, hne] <;> rfl

theorem registry_logAll {es : List Event} (he : ∀ e ∈ es, e.client.isSome) :
    (w.logAll es).registry = w.registry := by
  have hnone : es.filter (fun e => e.client = none) = [] := by
    rw [List.filter_eq_nil_iff]
    intro e hmem
    simpa [Option.isSome_iff_ne_none] using he e hmem
  apply Registry.ext <;> simp [registry, logAll, hnone] <;> rfl

@[simp] theorem registry_closeFd (fd : Fd) : (w.closeFd fd).registry = w.registry.closes fd := by
  apply Registry.ext <;> simp [registry, closeFd, log, Event.client, Registry.closes, Registry.records] <;> rfl

@[simp] theorem registry_setClient (c : Fd) (client : Client) :
    (w.setClient c client).registry = w.registry.setScript c (some client.script) := by
  apply Registry.ext
  case scripts =>
    funext d
    by_cases hd : d = c <;> simp [registry, Registry.setScript, hd]
  all_goals rfl

@[simp] theorem registry_eraseClient (c : Fd) :
    (w.eraseClient c).registry = w.registry.setScript c none := by
  apply Registry.ext
  case scripts =>
    funext d
    by_cases hd : d = c <;> simp [registry, Registry.setScript, hd]
  all_goals rfl

@[simp] theorem registry_eraseCgiFd (fd : Fd) : (w.eraseCgiFd fd).registry = w.registry.setOut fd none := by
  apply Registry.ext
  case outOf =>
    funext f
    by_cases hf : f = fd <;> simp [registry, Registry.setOut, hf]
  all_goals rfl

@[simp] theorem registry_insertCgiFd (fd c : Fd) :
    (w.insertCgiFd fd c).registry = w.registry.setOut fd (some c) := by
  apply Registry.ext
  case outOf =>
    funext f
    by_cases hf : f = fd <;> simp [registry, Registry.setOut, hf]
  all_goals rfl

@[simp] theorem registry_eraseCgiStdinFd (fd : Fd) :
    (w.eraseCgiStdinFd fd).registry = w.registry.setIn fd none := by
  apply Registry.ext
  case inOf =>
    funext f
    by_cases hf : f = fd <;> simp [registry, Registry.setIn, hf]
  all_goals rfl

@[simp] theorem registry_insertCgiStdinFd (fd c : Fd) :
    (w.insertCgiStdinFd fd c).registry = w.registry.setIn fd (some c) := by
  apply Registry.ext
  case inOf =>
    funext f
    by_cases hf : f = fd <;> simp [registry, Registry.setIn, hf]
  all_goals rfl

theorem registry_of_fds {w w' : World} {l : List Fd} (hl : w'.fds = l) (hs : w'.serverFds = w.serverFds)
    (hc : w'.clients = w.clients) (ho : w'.cgiFdToClientFd = w.cgiFdToClientFd)
    (hi : w'.cgiStdinFdToClientFd = w.cgiStdinFdToClientFd) (hop : w'.opened = w.opened) (ht : w'.trace = w.trace) :
    w'.registry = { w.registry with polled := l } := by
  apply Registry.ext
  case listening =>
    funext f
    simp [registry, isListeningSocket, hs]
  all_goals simp [registry, getClient, hl, hc, ho, hi, hop, ht]

section
variable {f : PollFd → PollFd} (hf : ∀ p, (f p).fd = p.fd)
include hf

theorem registry_modifyEntry (idx : ℕ) : (w.modifyEntry idx f).registry = w.registry :=
  registry_of_fds (fds_modifyEntry w hf idx) rfl rfl rfl rfl rfl rfl

theorem registry_modifyFd (fd : Fd) : (w.modifyFd fd f).registry = w.registry :=
  registry_of_fds (fds_modifyFd w hf fd) rfl rfl rfl rfl rfl rfl

end

@[simp] theorem registry_pushPoll (fd : Fd) (events : Interest) :
    (w.pushPoll fd events).registry = w.registry.poll fd :=
  registry_of_fds (fds_pushPoll w fd events) rfl rfl rfl rfl rfl rfl

@[simp] theorem registry_erasePollFd (fd : Fd) : (w.erasePollFd fd).registry = w.registry.unpoll fd :=
  registry_of_fds (fds_erasePollFd w fd) rfl rfl rfl rfl rfl rfl

theorem eraseEntry_eq_erasePollFd (hn : w.fds.Nodup) {idx : ℕ} {p : PollFd} (hp : w.pollFds[idx]? = some p) :
    w.eraseEntry idx = w.erasePollFd p.fd := by
  unfold eraseEntry erasePollFd
  have hkey : (w.pollFds.map PollFd.fd).Nodup := hn
  rw [eraseIdx_eq_eraseFirst hkey hp]

theorem registry_eraseEntry (hn : w.fds.Nodup) {idx : ℕ} {f : Fd} (hf : w.fds[idx]? = some f) :
    (w.eraseEntry idx).registry = w.registry.unpoll f := by
  obtain ⟨p, hp, rfl⟩ : ∃ p, w.pollFds[idx]? = some p ∧ p.fd = f := by simpa using hf
  rw [eraseEntry_eq_erasePollFd w hn hp, registry_erasePollFd]

/-! ## Pipes that are closed -/

@[simp] theorem registry_closeCgiStdin (client : Client) :
    (w.closeCgiStdin client).1.registry = w.registry.closesAny client.cgiStdinFd := by
  unfold closeCgiStdin
  split <;> next h => simp [h, Registry.closesAny]

@[simp] theorem registry_closeCgiStdout (client : Client) :
    (w.closeCgiStdout client).1.registry = w.registry.closesAny client.cgiStdoutFd := by
  unfold closeCgiStdout
  split <;> next h => simp [h, Registry.closesAny]

@[simp] theorem registry_log_waited (pid : ℕ) (reaped : Bool) :
    (w.log (.waited pid reaped)).registry = w.registry.waits (some pid) reaped := by
  apply Registry.ext <;> simp [registry, log, Event.client, Registry.waits, Registry.records] <;> rfl

theorem registry_finishCgi (client : Client) (reaped : Bool) : (w.finishCgi client reaped).1.registry =
    ((w.registry.closesAny client.cgiStdoutFd).closesAny client.cgiStdinFd).waits client.cgiPid reaped := by
  unfold finishCgi
  simp only [closeCgiStdin_client, closeCgiStdout_client]
  split <;> next h => simp [h]

/-! ## Removal -/

/-- The entry of a client is found again after another one was dropped. -/
theorem getElem?_eraseIdx_beside {α : Type*} {l : List α} {i j : ℕ} {a : α} (ha : l[j]? = some a) (hij : i ≠ j) :
    (l.eraseIdx i)[if i < j then j - 1 else j]? = some a := by
  rw [List.getElem?_eraseIdx]
  by_cases h : i < j
  · rw [if_pos h, if_neg (by omega), Nat.sub_add_cancel (by omega)]
    exact ha
  · rw [if_neg h, if_pos (by omega)]
    exact ha

theorem registry_eraseEntry_any (idx : ℕ) :
    (w.eraseEntry idx).registry = { w.registry with polled := w.fds.eraseIdx idx } :=
  registry_of_fds (fds_eraseEntry w idx) rfl rfl rfl rfl rfl rfl

theorem reaches_eraseEntry {w v : World} {early : Bool} {idx : ℕ} {f : Fd}
    (hstep : Registry.Step early w.registry (v.registry.unpoll f)) (hfds : v.fds = w.fds)
    (hf : w.fds[idx]? = some f) : Registry.Reaches early w.registry (v.eraseEntry idx).registry := by
  refine ⟨_, hstep, rfl, rfl, ?_⟩
  intro h
  rw [← hfds] at hf
  have hn : w.fds.Nodup := h.nodup
  exact registry_eraseEntry v (hfds ▸ hn) hf

theorem dropBeside_registry_any (fd : Fd) (index : ℕ) : ∃ l,
    (w.dropBeside fd index).1.registry = { w.registry with polled := l } := by
  unfold dropBeside
  split
  · exact ⟨_, registry_of_fds rfl rfl rfl rfl rfl rfl rfl⟩
  · exact ⟨w.fds, rfl⟩

theorem dropBeside_registry (hn : w.fds.Nodup) {fd c : Fd} {index : ℕ} (hc : w.fds[index]? = some c)
    (hne : fd ≠ c) : (w.dropBeside fd index).1.registry = w.registry.unpoll fd ∧
      (w.dropBeside fd index).1.fds[(w.dropBeside fd index).2]? = some c := by
  unfold dropBeside
  split
  · next i hi =>
    obtain ⟨hlt, hfd, -⟩ := List.findIdx?_eq_some_iff_getElem.mp hi
    have hp : w.pollFds[i]? = some w.pollFds[i] := List.getElem?_eq_getElem hlt
    have hfd : (w.pollFds[i]).fd = fd := by simpa using hfd
    have herase := eraseEntry_eq_erasePollFd w hn hp
    rw [hfd] at herase
    refine ⟨registry_erasePollFd w fd, ?_⟩
    have hij : i ≠ index := by
      rintro rfl
      rw [fds_of_entry hp, hfd] at hc
      exact hne (Option.some.inj hc)
    rw [← herase, fds_eraseEntry]
    exact getElem?_eraseIdx_beside hc hij
  · next hi =>
    have hmem : fd ∉ w.fds := by
      rw [List.findIdx?_eq_none_iff] at hi
      intro hmem
      obtain ⟨p, hp, hfd⟩ := List.mem_map.mp hmem
      simpa [hfd] using hi p hp
    refine ⟨?_, hc⟩
    have hsame : w.registry.unpoll fd = w.registry := by
      unfold Registry.unpoll
      rw [show w.registry.polled = w.fds from rfl, List.erase_of_not_mem hmem]
      rfl
    rw [hsame]

variable {w}

theorem scripts_of_client {c : Fd} {client : Client} (hg : w.getClient c = some client) :
    w.registry.scripts c = some client.script := by simp [registry, hg]

/-- A client's pipes have other numbers than the client. -/
theorem pipes_ne (h : w.registry.Registered) {c : Fd} {client : Client} (hg : w.getClient c = some client) :
    (∀ f, client.cgiStdoutFd = some f → f ≠ c) ∧ ∀ f, client.cgiStdinFd = some f → f ≠ c := by
  have hc := scripts_of_client hg
  obtain ⟨hout, hin⟩ := h.client_only (c := c) (by simp [hc])
  refine ⟨?_, ?_⟩
  · rintro f hf rfl
    have hown := (h.out_iff f f).mpr (by simp [Registry.stdout, hc, Client.script, hf])
    simp [hout] at hown
  · rintro f hf rfl
    have hown := h.in_of f f (by simp [Registry.stdin, hc, Client.script, hf])
    simp [hin] at hown

/-- A client gives back what it holds, and is forgotten. -/
theorem finished_registry (v : World) (c : Fd) (client : Client) (reaped : Bool) :
    ((((v.finishCgi client reaped).1.setClient c (v.finishCgi client reaped).2).closeFd c).eraseClient c).registry =
      ((((v.registry.closesAny client.cgiStdoutFd).closesAny client.cgiStdinFd).waits client.cgiPid reaped).closes
        c).setScript c none := by
  simp only [registry_eraseClient, registry_closeFd, registry_setClient, registry_finishCgi]
  exact Registry.setScript_setScript ((((v.registry.closesAny client.cgiStdoutFd).closesAny
    client.cgiStdinFd).waits client.cgiPid reaped).closes c) c _ none

theorem removeClient_registry (h : w.registry.Registered) {idx : ℕ} {p : PollFd} (hp : w.pollFds[idx]? = some p)
    {client : Client} (hg : w.getClient p.fd = some client) (reaped : Bool) (reason : RemoveReason) :
    (w.removeClient idx reaped reason).registry = (((((w.registry.dropOut client.cgiStdoutFd).dropIn
      client.cgiStdinFd).waits client.cgiPid reaped).closes p.fd).setScript p.fd none).unpoll p.fd := by
  obtain ⟨hout, hin⟩ := pipes_ne h hg
  have hn : w.fds.Nodup := h.nodup
  unfold removeClient
  rw [entry_eq hp]
  simp only [hg]
  rw [registry_log _ rfl]
  -- the entry of the client is dropped last, wherever it stands by then
  have hlast (v : World) (i : ℕ) (hv : v.fds.Nodup) (hi : v.fds[i]? = some p.fd) :
      (((((v.finishCgi client reaped).1.setClient p.fd (v.finishCgi client reaped).2).closeFd p.fd).eraseClient
        p.fd).eraseEntry i).registry = (((((v.registry.closesAny client.cgiStdoutFd).closesAny
          client.cgiStdinFd).waits client.cgiPid reaped).closes p.fd).setScript p.fd none).unpoll p.fd := by
    rw [registry_eraseEntry _ (by simpa using hv) (by simpa using hi), finished_registry]
  have hidx := fds_of_entry hp
  cases hso : client.cgiStdoutFd with
  | none =>
    cases hsi : client.cgiStdinFd with
    | none =>
      rw [hso, hsi] at hlast
      exact hlast w idx hn hidx
    | some i =>
      obtain ⟨hr, hi⟩ := dropBeside_registry (w.eraseCgiStdinFd i) hn hidx (hin i hsi)
      have hv : ((w.eraseCgiStdinFd i).dropBeside i idx).1.registry.polled.Nodup := by
        rw [hr]
        exact hn.erase i
      rw [hso, hsi] at hlast
      refine (hlast _ _ hv hi).trans ?_
      rw [hr, registry_eraseCgiStdinFd]
      rfl
  | some o =>
    obtain ⟨hro, ho⟩ := dropBeside_registry (w.eraseCgiFd o) hn hidx (hout o hso)
    generalize hv : (w.eraseCgiFd o).dropBeside o idx = v at hro ho
    have hvn : v.1.registry.polled.Nodup := by
      rw [hro]
      exact hn.erase o
    cases hsi : client.cgiStdinFd with
    | none =>
      rw [hso, hsi] at hlast
      simp only [hv]
      refine (hlast _ _ hvn ho).trans ?_
      rw [hro, registry_eraseCgiFd]
      rfl
    | some i =>
      obtain ⟨hr, hi⟩ := dropBeside_registry (v.1.eraseCgiStdinFd i) hvn ho (hin i hsi)
      have hun : ((v.1.eraseCgiStdinFd i).dropBeside i v.2).1.registry.polled.Nodup := by
        rw [hr]
        exact hvn.erase i
      rw [hso, hsi] at hlast
      simp only [hv]
      refine (hlast _ _ hun hi).trans ?_
      rw [hr, registry_eraseCgiStdinFd, hro, registry_eraseCgiFd]
      rfl

/-- Whatever is polled, the client that is removed gives back what it holds. -/
theorem removeClient_reaches {idx : ℕ} {p : PollFd} (hp : w.pollFds[idx]? = some p) {client : Client}
    (hg : w.getClient p.fd = some client) (reaped : Bool) (reason : RemoveReason) :
    Registry.Reaches false w.registry (w.removeClient idx reaped reason).registry := by
  have hstep : Registry.Step false w.registry (((((w.registry.dropOut client.cgiStdoutFd).dropIn
      client.cgiStdinFd).waits client.cgiPid reaped).closes p.fd).setScript p.fd none |>.unpoll p.fd) :=
    .removed (scripts_of_client hg)
  have hexact := fun h => removeClient_registry (w := w) h hp hg reaped reason
  refine ⟨_, hstep, ?_⟩
  rw [← and_assoc]
  refine ⟨?_, hexact⟩
  unfold removeClient
  rw [entry_eq hp]
  simp only [hg]
  rw [registry_log _ rfl, registry_eraseEntry_any, finished_registry]
  cases hso : client.cgiStdoutFd with
  | none =>
    cases hsi : client.cgiStdinFd with
    | none => exact ⟨rfl, rfl⟩
    | some i =>
      obtain ⟨l, hl⟩ := dropBeside_registry_any (w.eraseCgiStdinFd i) i idx
      rw [hl, registry_eraseCgiStdinFd]
      exact ⟨rfl, rfl⟩
  | some o =>
    obtain ⟨l, hl⟩ := dropBeside_registry_any (w.eraseCgiFd o) o idx
    generalize hv : (w.eraseCgiFd o).dropBeside o idx = v at hl
    cases hsi : client.cgiStdinFd with
    | none =>
      simp only [hv]
      rw [hl, registry_eraseCgiFd]
      exact ⟨rfl, rfl⟩
    | some i =>
      obtain ⟨l', hl'⟩ := dropBeside_registry_any (v.1.eraseCgiStdinFd i) i v.2
      simp only [hv]
      rw [hl', registry_eraseCgiStdinFd, hl, registry_eraseCgiFd]
      exact ⟨rfl, rfl⟩

/-- A descriptor that is in no table has no owner. -/
theorem roles_eq_zero {f : Fd} (hg : w.getClient f = none) (hl : w.isListeningSocket f = false)
    (ho : w.isCgiFd f = false) (hi : w.isCgiStdinFd f = false) : w.registry.roles f = 0 := by
  rw [isCgiFd, Std.ExtTreeMap.contains_eq_isSome_getElem?] at ho
  rw [isCgiStdinFd, Std.ExtTreeMap.contains_eq_isSome_getElem?] at hi
  simp [Registry.roles, World.registry, hl, hg, ho, hi]

/-- What has no owner is only closed. -/
theorem removeUnknown_reaches {idx : ℕ} {p : PollFd} (hp : w.pollFds[idx]? = some p) (hg : w.getClient p.fd = none)
    (hl : w.isListeningSocket p.fd = false) (ho : w.isCgiFd p.fd = false) (hi : w.isCgiStdinFd p.fd = false)
    (reaped : Bool) (reason : RemoveReason) :
    Registry.Reaches false w.registry (w.removeClient idx reaped reason).registry := by
  have hmem : p.fd ∈ w.registry.polled := List.mem_map_of_mem (List.mem_of_getElem? hp)
  have hstep := Registry.Step.unknownRemoved hmem (roles_eq_zero hg hl ho hi)
  have hnone : w.registry.scripts p.fd = none := by simp [World.registry, hg]
  have hforget : (w.registry.closes p.fd).setScript p.fd none = w.registry.closes p.fd :=
    Registry.setScript_self hnone
  unfold removeClient
  rw [entry_eq hp]
  simp only [hg]
  rw [registry_log _ rfl]
  refine reaches_eraseEntry ?_ rfl (fds_of_entry hp)
  rw [registry_eraseClient, registry_closeFd, hforget]
  exact hstep

/-! ## Handlers -/

/-- A client is written back that holds what it held. -/
theorem registry_setClient_same {c : Fd} {client : Client} (hg : w.getClient c = some client) (client' : Client)
    (hs : client'.script = client.script) : (w.setClient c client').registry = w.registry := by
  rw [registry_setClient, hs]
  exact Registry.setScript_self (scripts_of_client hg)

/-- The response is forgotten and nothing is to be sent. -/
theorem registry_answered {c : Fd} {client : Client} (hg : w.getClient c = some client) {idx : ℕ} :
    ((w.setClient c client.clearResponse).modifyEntry idx PollFd.disablePollout).registry = w.registry :=
  (registry_modifyEntry (f := PollFd.disablePollout) (w.setClient c client.clearResponse) (fun _ => rfl) idx).trans
    (registry_setClient_same hg client.clearResponse rfl)

theorem acceptFd_registry (serverIndex now : ℕ) {fd : Fd} (hfd : fd ∉ w.opened) :
    Registry.Step false w.registry (w.acceptFd serverIndex now fd).registry := by
  have hm : PipeEvents w.registry.opened w.registry.polled [fd] none [.opened fd (w.polls fd)] := by
    constructor <;> simp [Event.client, polls, registry, hfd]
  have hopen : (w.openFd fd).registry = w.registry.opens [fd] [.opened fd (w.polls fd)] := by
    apply Registry.ext <;> simp [registry, openFd, log, Event.client, Registry.opens, Registry.records] <;> rfl
  have hknown : w.clients.contains fd = (w.getClient fd).isSome := Std.ExtTreeMap.contains_eq_isSome_getElem?
  have hstep := Registry.Step.accepted hm
  rw [← hopen] at hstep
  unfold acceptFd
  rw [registry_pushPoll]
  cases hg : w.getClient fd with
  | none =>
    have hscript : w.registry.scripts fd = none := by simp [registry, hg]
    rw [hscript] at hstep
    simp only [hknown, hg, Option.isSome_none, Bool.false_eq_true, if_false, registry_setClient]
    rw [registry_log _ rfl]
    exact hstep
  | some client =>
    have hscript := scripts_of_client hg
    rw [hscript] at hstep
    have hself : (w.openFd fd).registry.setScript fd (some client.script) = (w.openFd fd).registry := by
      refine Registry.setScript_self ?_
      rw [hopen]
      exact hscript
    rw [Option.getD_some, hself] at hstep
    simp only [hknown, hg, Option.isSome_some, if_true]
    rw [registry_log _ rfl]
    exact hstep

theorem cgiOutputRead_registry {c : Fd} {client : Client} (hg : w.getClient c = some client) (bytes : Bytes) :
    (w.cgiOutputRead c client bytes).1.registry = w.registry := by
  have hlog : (w.log (.cgiRead c bytes)).registry = w.registry := registry_log w rfl
  have hset {client' : Client} (hs : client'.script = client.script) :
      ((w.log (.cgiRead c bytes)).setClient c client').registry = w.registry :=
    (registry_setClient_same (w := w.log (.cgiRead c bytes)) hg _ hs).trans hlog
  unfold cgiOutputRead
  dsimp only
  split
  · rw [registry_log _ rfl, registry_modifyFd (f := PollFd.enablePollout) _ (fun _ => rfl)]
    exact hset rfl
  · split
    · exact hset rfl
    · rw [registry_log _ rfl, registry_modifyFd (f := PollFd.enablePollout) _ (fun _ => rfl)]
      exact hset rfl

theorem sendPending_registry (now : ℕ) {fd : Fd} {client : Client} (hg : w.getClient fd = some client) {sent : ℕ}
    (hs : sent ≤ client.cgiSendPending.size) : (w.sendPending now fd client sent hs).1.registry = w.registry := by
  have hset : (((w.log (.sent fd true (client.cgiSendPending.pending.take sent))).setClient fd
      ((client.consumeCgiSendPending sent hs).updateActivity now))).registry = w.registry :=
    (registry_setClient_same (w := w.log (.sent fd true (client.cgiSendPending.pending.take sent))) hg
      ((client.consumeCgiSendPending sent hs).updateActivity now) rfl).trans (registry_log w rfl)
  unfold sendPending resumeCgiOutput
  dsimp only
  split
  · split
    · rw [registry_modifyFd (f := PollFd.enablePollin) _ (fun _ => rfl)]
      exact hset
    · exact hset
  · exact hset

/-- The input of a script ends early when its pipe is open and nothing is pending. -/
theorem endInput_registry {c : Fd} {client : Client} (hg : w.getClient c = some client) :
    Registry.Step (client.cgiStdinPending.isEmpty && client.cgiStdinFd.isSome) w.registry
      (w.endInput c client).registry := by
  have hc := scripts_of_client hg
  have hlog : (w.log (.inputEnded c client.cgiStdinPending.isEmpty client.cgiStdinFd.isSome)).registry = w.registry :=
    registry_log w rfl
  unfold endInput
  dsimp only
  split
  · next hp =>
    rw [registry_setClient, registry_closeCgiStdin, hlog, closeCgiStdin_client, hp, Bool.true_and]
    cases hin : client.cgiStdinFd with
    | none =>
      have hsame : w.registry.setScript c (some client.script) = w.registry := Registry.setScript_self hc
      have hscript : ({ client with cgiStdinEof := true, cgiStdinFd := none } : Client).script = client.script := by
        simp [Client.script, hin]
      rw [hscript, Registry.closesAny, Option.elim_none, hsame]
      exact .same w.registry
    | some f => exact .inputEnded hc hin
  · next hp =>
    have hsame := registry_setClient_same (w := w.log (.inputEnded c client.cgiStdinPending.isEmpty
      client.cgiStdinFd.isSome)) hg { client with cgiStdinEof := true } rfl
    rw [hsame, hlog, show client.cgiStdinPending.isEmpty = false by simpa using hp, Bool.false_and]
    exact .same w.registry

theorem inputComplete_registry {c f : Fd} {client : Client} (hg : w.getClient c = some client)
    (hf : client.cgiStdinFd = some f) : Registry.Step false w.registry (w.inputComplete c client f).registry := by
  have hc := scripts_of_client hg
  unfold inputComplete
  split
  · have hstep := Registry.Step.inputClosed (f := f) hc hf
    simp only [registry_erasePollFd, registry_eraseCgiStdinFd, registry_setClient, registry_closeCgiStdin,
      closeCgiStdin_client, hf]
    exact hstep
  · rw [registry_setClient_same hg { client with cgiStdinEof := true } rfl]
    exact .same w.registry

/-- The pipe that a client writes to is registered. -/
theorem isCgiStdinFd_of_client (h : w.registry.Registered) {c f : Fd} {client : Client}
    (hg : w.getClient c = some client) (hf : client.cgiStdinFd = some f) : w.isCgiStdinFd f = true := by
  have hin : w.cgiStdinFdToClientFd[f]? = some c :=
    h.in_of f c (by simp [Registry.stdin, scripts_of_client hg, Client.script, hf])
  rw [isCgiStdinFd, Std.ExtTreeMap.contains_eq_isSome_getElem?, hin]
  rfl

theorem forwardPiece_reaches {c f : Fd} {client : Client} (hg : w.getClient c = some client)
    (hf : client.cgiStdinFd = some f) (piece : Bytes) (answer : ℕ) : Registry.Reaches false w.registry
      ((w.forwardPiece c client f piece answer).1.setClient c
        (w.forwardPiece c client f piece answer).2).registry := by
  have hlog : (w.log (.forwarded c client.cgiStdinPending.pending piece
      (w.write f piece.length answer))).registry = w.registry := registry_log w rfl
  have hself := Registry.setScript_self (scripts_of_client hg)
  refine ⟨w.registry, .same w.registry, ?_⟩
  rw [← and_assoc]
  unfold forwardPiece
  dsimp only
  split
  · rw [registry_setClient]
    unfold monitorStdin
    refine ⟨?_, ?_⟩
    · split
      · rw [registry_modifyFd (f := PollFd.enablePollout) _ (fun _ => rfl), hlog]
        exact ⟨congrArg Registry.scripts hself, congrArg Registry.record hself⟩
      · have hself' : ((w.registry.setIn f (some client.fd)).poll f).setScript c (some client.script) =
            (w.registry.setIn f (some client.fd)).poll f := Registry.setScript_self (scripts_of_client hg)
        have hscripts := congrArg Registry.scripts hself'
        have hrecord := congrArg Registry.record hself'
        rw [registry_pushPoll, registry_insertCgiStdinFd, hlog]
        exact ⟨hscripts, hrecord⟩
    · intro h
      have hin : (w.log (.forwarded c client.cgiStdinPending.pending piece
        (w.write f piece.length answer))).isCgiStdinFd f = true := isCgiStdinFd_of_client h hg hf
      rw [hin, if_pos rfl, registry_modifyFd (f := PollFd.enablePollout) _ (fun _ => rfl), hlog]
      exact hself
  · rw [registry_setClient, hlog]
    exact ⟨⟨congrArg Registry.scripts hself, congrArg Registry.record hself⟩, fun _ => hself⟩

theorem handleCgiStdinWritable_reaches (a : Answers) {idx : ℕ} {p : PollFd} {c : Fd} {client : Client}
    (hp : w.pollFds[idx]? = some p) (hc : w.cgiStdinFdToClientFd[p.fd]? = some c)
    (hg : w.getClient c = some client) :
    Registry.Reaches false w.registry (w.handleCgiStdinWritable a idx).2.registry := by
  have hscript := scripts_of_client hg
  obtain ⟨q, hq, -⟩ := w.flushLoop_spec p.fd a.writes 0 client
  have hlog : (w.logAll ((w.flushLoop p.fd a.writes 0 client).1.map
      (.flushed c (client.cgiStdinFd = some p.fd)))).registry = w.registry :=
    registry_logAll w (by simp [Event.client])
  unfold handleCgiStdinWritable
  rw [entry_eq hp]
  simp only [hc, hg, hq]
  split
  · -- the pipe leaves the tables, and the client closes the one it holds
    simp only [closeCgiStdin_client]
    refine reaches_eraseEntry ?_ (by simp) (fds_of_entry hp)
    simp only [registry_setClient, registry_closeCgiStdin, registry_eraseCgiStdinFd, hlog]
    by_cases hown : client.cgiStdinFd = some p.fd
    · rw [hown]
      exact .inputClosed hscript hown
    · cases hn : client.cgiStdinFd with
      | none =>
        have hstep := Registry.Step.inputReleased hc hscript hn
        have hsame : (w.registry.setIn p.fd none).setScript c (some client.script) = w.registry.setIn p.fd none :=
          Registry.setScript_self hscript
        rw [← hsame] at hstep
        rw [show client.script = ⟨none, client.cgiStdoutFd, client.cgiPid, client.cgiActive⟩ by
          simp [Client.script, hn]] at hstep
        exact hstep
      | some f =>
        have hstep := Registry.Step.otherClosed hc hscript hown
        rw [show client.script.stdin = some f from hn] at hstep
        exact hstep
  · -- masks change, and what is pending
    have hset : ((w.logAll ((w.flushLoop p.fd a.writes 0 client).1.map
        (.flushed c (client.cgiStdinFd = some p.fd)))).setClient c { client with cgiStdinPending := q }).registry =
        w.registry := by
      rw [registry_setClient, hlog]
      exact Registry.setScript_self hscript
    have hin (v : World) (fd : Fd) : (v.modifyFd fd PollFd.enablePollin).registry = v.registry :=
      registry_modifyFd (f := PollFd.enablePollin) v (fun _ => rfl) fd
    have hout (v : World) : (v.modifyEntry idx PollFd.disablePollout).registry = v.registry :=
      registry_modifyEntry (f := PollFd.disablePollout) v (fun _ => rfl) idx
    dsimp only
    split <;> split <;> simp only [hin, hout, hset] <;> exact (Registry.Step.same w.registry).reaches

theorem enableOutput_registry (w : World) (idx : ℕ) (fd : Fd) : (w.enableOutput idx fd).registry = w.registry := by
  unfold enableOutput
  split
  · exact registry_modifyEntry (f := PollFd.enablePollout) w (fun _ => rfl) idx
  · exact registry_modifyFd (f := PollFd.enablePollout) w (fun _ => rfl) fd

theorem finalizeCgi_registry (w : World) (a : Answers) (c : Fd) (client : Client) (idx : ℕ) :
    (w.finalizeCgi a c client idx).registry = (((w.registry.closesAny client.cgiStdoutFd).closesAny
      client.cgiStdinFd).waits client.cgiPid a.reaped).setScript c (some {}) := by
  have hlog : (w.log (.cgiEnded c client.cgiStdinFd.isSome)).registry = w.registry := registry_log w rfl
  have hfd (v : World) (fd : Fd) : (v.modifyFd fd PollFd.enablePollout).registry = v.registry :=
    registry_modifyFd (f := PollFd.enablePollout) v (fun _ => rfl) fd
  unfold finalizeCgi
  dsimp only
  split
  · rw [registry_log _ rfl, registry_setClient, hfd, registry_finishCgi, hlog, finishCgi_client]
    rfl
  · rw [registry_log _ rfl, enableOutput_registry]
    unfold respond
    rw [registry_setClient, registry_log _ rfl, registry_mark, registry_finishCgi, hlog, finishCgi_client]
    rfl

/-- The output of a script ends early when the pipe to it is open. -/
theorem cgiOutputEnd_reaches (a : Answers) {idx : ℕ} {p : PollFd} {c : Fd} {client : Client}
    (hp : w.pollFds[idx]? = some p) (hg : w.getClient c = some client) (ho : client.cgiStdoutFd = some p.fd) :
    Registry.Reaches client.cgiStdinFd.isSome w.registry (w.cgiOutputEnd a idx p.fd c client).registry := by
  have hstep : Registry.Step client.cgiStdinFd.isSome w.registry ((((w.registry.dropOut (some p.fd)).closesAny
      client.cgiStdinFd).waits client.cgiPid a.reaped).setScript c (some {})) := .outputEnded (scripts_of_client hg) ho
  refine ⟨_, hstep, ?_⟩
  rw [← and_assoc]
  unfold cgiOutputEnd
  dsimp only
  rw [finalizeCgi_registry]
  refine ⟨?_, ?_⟩
  · rw [registry_eraseEntry_any, registry_closeFd, registry_eraseCgiFd]
    cases client.cgiStdinFd <;> exact ⟨rfl, rfl⟩
  · intro h
    have hn : w.fds.Nodup := h.nodup
    rw [registry_eraseEntry _ (by simpa using hn) (by simpa using fds_of_entry hp), registry_closeFd,
      registry_eraseCgiFd]
    rfl

/-! ## Requests -/

/-- The ends of pipes that were made for a script are open. -/
theorem PipesMade.opens {v : World} {new : List Fd} {child : Option ℕ} (h : PipesMade w v new child) :
    ∃ es, v.registry = w.registry.opens new es ∧ PipeEvents w.registry.opened w.registry.polled new child es := by
  obtain ⟨es, he, hes⟩ := h.events
  refine ⟨es, ?_, hes⟩
  have hquiet : es.filter (fun e => e.client = none) = es := by
    rw [List.filter_eq_self]
    intro e hmem
    simp [hes.quiet e hmem]
  apply Registry.ext
  case listening =>
    funext f
    simp [registry, isListeningSocket, h.serverFds, Registry.opens, Registry.records]
  case record => simp [registry, he, hquiet]
  case scripts =>
    funext c
    simp [registry, h.getClient]
  all_goals simp [registry, h.pollFds, h.cgiFds, h.cgiStdinFds, h.opened, Registry.opens, Registry.records]

theorem answered_registry {v : World} {c : Fd} {client : Client} (hs : v.registry.scripts c = some client.script)
    (response : Option HTTPResponse) (idx : ℕ) {g : PollFd → PollFd} (hg : ∀ p, (g p).fd = p.fd) :
    ((v.respond c client response).modifyEntry idx g).registry = v.registry := by
  unfold respond
  rw [registry_modifyEntry _ hg, registry_setClient, registry_log _ rfl, registry_mark]
  exact Registry.setScript_self hs

/-- A script that was started is registered with the pipes that are left to it. -/
theorem startCgiRun_registry {v : World} (a : Answers) {c i o : Fd} {pid : ℕ} {client : Client}
    (hp : PipesMade w v [i, o] (some pid)) (hscript : w.registry.scripts c = some client.script)
    (ha : client.cgiActive = false) (hfd : client.fd = c) : Registry.Step false w.registry (v.startCgiRun a c client pid i o).registry := by
  obtain ⟨n, b, d, hc⟩ := cgiInput_client client pid i o
  unfold startCgiRun
  dsimp only
  generalize hw : (v.log _).log _ = w'
  have hw' : w'.registry = v.registry := by
    subst hw
    rw [registry_log _ rfl, registry_log _ rfl]
  generalize hcl : Client.appendCgiStdinPending _ _ = client'
  have hclient : client'.script = ⟨some i, some o, some pid, true⟩ ∧ client'.fd = c := by
    subst hcl
    rw [hc]
    exact ⟨rfl, hfd⟩
  obtain ⟨hclient, hfd'⟩ := hclient
  have hin : client'.cgiStdinFd = some i := congrArg Script.stdin hclient
  have hout : client'.cgiStdoutFd = some o := congrArg Script.stdout hclient
  have hpid : client'.cgiPid = some pid := congrArg Script.child hclient
  have hact : client'.cgiActive = true := congrArg Script.active hclient
  generalize (cgiInput client pid i o).2.2 = bodyComplete
  by_cases hdone : bodyComplete = true ∧ client'.cgiStdinPending.isEmpty = true
  · -- the whole body is with the script, and its pipe is closed again
    obtain ⟨hb, he⟩ := hdone
    have hclose := hp.closeFd (f := i) List.mem_cons_self
    rw [List.erase_cons_head] at hclose
    obtain ⟨es, hv, hes⟩ := hclose.opens
    have hstep := Registry.Step.startedWhole hscript ha hes
    have hclosed : (w'.closeInput client' bodyComplete) = (w'.closeFd i, { client' with cgiStdinFd := none }) := by
      simp only [closeInput, hb, he, if_true, closeCgiStdin, hin]
    rw [← hv, registry_closeFd, ← hw', ← registry_closeFd] at hstep
    simp only [hclosed, registerPipes, registry_pushPoll, registry_insertCgiFd, registry_setClient, Client.script,
      hout, hpid, hact, hfd']
    exact hstep
  · obtain ⟨es, hv, hes⟩ := hp.opens
    have hstep := Registry.Step.started hscript ha hes
    rw [← hv, ← hw'] at hstep
    have hopen : ∃ e, w'.closeInput client' bodyComplete = (w', { client' with cgiStdinEof := e }) := by
      unfold closeInput
      split
      · next hb =>
        rw [if_neg (fun he => hdone ⟨hb, he⟩)]
        exact ⟨true, rfl⟩
      · exact ⟨client'.cgiStdinEof, rfl⟩
    obtain ⟨e, he⟩ := hopen
    have hneeded : (!bodyComplete || !client'.cgiStdinPending.isEmpty) = true := by
      rw [Bool.or_eq_true, Bool.not_eq_true', Bool.not_eq_true']
      cases hb : bodyComplete with
      | false => exact Or.inl rfl
      | true =>
        right
        simpa [hb] using hdone
    simp only [he, registerPipes, hin, hneeded, if_true, registry_pushPoll, registry_insertCgiFd,
      registry_insertCgiStdinFd, registry_setClient, Client.script, hout, hpid, hact, hfd']
    exact hstep

theorem requestBytes_registry (a : Answers) {c : Fd} {client : Client} (idx : ℕ) (bytes : Bytes)
    (hscript : w.registry.scripts c = some client.script) (ha : client.cgiActive = false) (hfd : client.fd = c) :
    Registry.Step false w.registry (w.requestBytes a c client idx bytes).registry := by
  obtain ⟨b, r, s, hcl⟩ := readRequest_client a (w.config client) client bytes
  have hcases := w.requestBytes_cases a c client idx bytes
  generalize readRequest a (w.config client) client bytes = parsed at hcl hcases
  have hlog (o : ReadOutcome) : (w.log (.requestRead c (Answered client) o)).registry = w.registry :=
    registry_log w rfl
  -- the parser sees to the request, and the client holds what it held
  have hsame : parsed.2.script = client.script := by
    rw [hcl]
    rfl
  rw [← hsame] at hscript
  rcases hcases with he | ⟨v, new, outcome, response, g, -, hv, hg, he⟩ | ⟨-, v, pid, i, o, hv, he⟩
  · rw [he, registry_setClient, hlog, Registry.setScript_self hscript]
    exact .same w.registry
  · obtain ⟨es, hvr, hes⟩ := hv.opens
    rw [hlog] at hvr hes
    have hvs : v.registry.scripts c = some parsed.2.script := by
      rw [hvr]
      exact hscript
    have hmask : ∀ p, (g p).fd = p.fd := by
      rcases hg with rfl | rfl <;> exact fun p => rfl
    rw [he, answered_registry hvs response idx hmask, hvr]
    exact .leaked hes
  · have hstarted := startCgiRun_registry a hv (by rw [hlog]; exact hscript) (by rw [hcl]; exact ha)
      (by rw [hcl]; exact hfd)
    rw [hlog] at hstarted
    rw [he]
    exact hstarted

theorem strayStdin_reaches {idx : ℕ} {p : PollFd} {c : Fd} (hp : w.pollFds[idx]? = some p)
    (hc : w.cgiStdinFdToClientFd[p.fd]? = some c) (hg : w.getClient c = none) : Registry.Reaches false w.registry
      (((w.eraseCgiStdinFd p.fd).closeFd p.fd).eraseEntry idx).registry := by
  have hstep := Registry.Step.strayed (r := w.registry) hc (by simp [World.registry, hg])
  refine reaches_eraseEntry ?_ rfl (fds_of_entry hp)
  simp only [registry_closeFd, registry_eraseCgiStdinFd]
  exact hstep

theorem stdinHangup_none {idx : ℕ} {f c : Fd} (hc : w.cgiStdinFdToClientFd[f]? = some c)
    (hg : w.getClient c = none) : w.stdinHangup idx f = ((w.eraseCgiStdinFd f).closeFd f).eraseEntry idx := by
  have hg' : ((w.eraseCgiStdinFd f).closeFd f).getClient c = none := hg
  unfold stdinHangup
  simp only [hc, hg']

theorem stdinHangup_parts {idx : ℕ} {p : PollFd} {c : Fd} {client : Client} (hp : w.pollFds[idx]? = some p)
    (hc : w.cgiStdinFdToClientFd[p.fd]? = some c) (hg : w.getClient c = some client) :
    (w.stdinHangup idx p.fd).registry.scripts = (w.registry.hangUp c p.fd client.script).scripts ∧
    (w.stdinHangup idx p.fd).registry.record = (w.registry.hangUp c p.fd client.script).record ∧
    (w.registry.Registered → (w.stdinHangup idx p.fd).registry = w.registry.hangUp c p.fd client.script) := by
  have hg' : ((w.eraseCgiStdinFd p.fd).closeFd p.fd).getClient c = some client := hg
  unfold stdinHangup
  simp only [hc, hg']
  rw [← and_assoc]
  have hhang : ((((w.eraseCgiStdinFd p.fd).closeFd p.fd).closeCgiStdin client).1.setClient c
      (((w.eraseCgiStdinFd p.fd).closeFd p.fd).closeCgiStdin client).2).registry.unpoll p.fd =
      w.registry.hangUp c p.fd client.script := by
    simp only [registry_setClient, registry_closeCgiStdin, registry_closeFd, registry_eraseCgiStdinFd,
      closeCgiStdin_client]
    unfold Registry.hangUp
    cases hin : client.cgiStdinFd with
    | none =>
      rw [show client.script.stdin = none from hin]
      rfl
    | some f =>
      rw [show client.script.stdin = some f from hin]
      rfl
  rw [← hhang]
  refine ⟨⟨rfl, rfl⟩, ?_⟩
  intro h
  have hn : w.fds.Nodup := h.nodup
  exact registry_eraseEntry _ (by simpa using hn) (by simpa using fds_of_entry hp)

end World

/-! ## Moves -/

/-- The pipe to a script is closed while it is registered: its client sends no more, or the
script ends before its input. -/
def Event.early : Event → Bool
  | .inputEnded _ true true | .cgiEnded _ true => true
  | _ => false

def World.ClosedEarly (w : World) : Prop := ∃ e ∈ w.trace, e.early

instance (w : World) : Decidable w.ClosedEarly := inferInstanceAs (Decidable (∃ e ∈ w.trace, _))

theorem World.mem_trace_of_history {w : World} {c : Fd} {e : Event} (h : e ∈ w.history c) : e ∈ w.trace :=
  (List.mem_filter.mp h).1

theorem World.cgiEnded_mem (w : World) (a : Answers) (idx : ℕ) (cgiFd c : Fd) (client : Client) :
    .cgiEnded c client.cgiStdinFd.isSome ∈ (w.cgiOutputEnd a idx cgiFd c client).history c := by
  unfold cgiOutputEnd finalizeCgi
  dsimp only
  split <;> simp [Event.client, respond]

theorem Move.registry {files : FileSystem} {v v' : View} (h : Move files v v') (hs : v.2.Sound) :
    ∃ early, Registry.Reaches early v.2.registry v'.2.registry ∧ (early = true → v'.2.ClosedEarly) := by
  have calm {w w' : World} (hreaches : Registry.Reaches false w.registry w'.registry) :
      ∃ early, Registry.Reaches early w.registry w'.registry ∧ (early = true → w'.ClosedEarly) :=
    ⟨false, hreaches, nofun⟩
  have quiet {w w' : World} (hsame : w'.registry = w.registry) :
      ∃ early, Registry.Reaches early w.registry w'.registry ∧ (early = true → w'.ClosedEarly) :=
    calm (hsame ▸ (Registry.Step.same w.registry).reaches)
  cases h with
  | turned x w => exact quiet rfl
  | reported w revents => exact quiet (registry_of_fds (fds_reportAll w.pollFds revents) rfl rfl rfl rfl rfl rfl)
  | cleared w idx => exact quiet (registry_modifyEntry (f := PollFd.clearRevents) w (fun _ => rfl) idx)
  | accepted serverIndex now hfd => exact calm (acceptFd_registry serverIndex now hfd).reaches
  | @strayStdin x w idx p c hx hp hc hg => exact calm (strayStdin_reaches hp hc hg)
  | @stdinWritable x w idx p c client a hx hp hc hg => exact calm (handleCgiStdinWritable_reaches a hp hc hg)
  | @removed x w idx p reason reaped hx hp hreason hg =>
    refine calm ?_
    cases hg' : w.getClient p.fd with
    | some client => exact removeClient_reaches hp hg' reaped reason
    | none =>
      rw [hg'] at hg
      obtain ⟨hl, ho, hi⟩ := hg.resolve_left nofun
      exact removeUnknown_reaches hp hg' hl ho hi reaped reason
  | @closedByRead w idx p client reason reaped hp hg ha =>
    have hlog : (w.log (.requestRead p.fd (Answered client) .removed)).registry = w.registry := registry_log w rfl
    have hremoved := removeClient_reaches (w := w.log (.requestRead p.fd (Answered client) .removed)) hp hg reaped reason
    rw [hlog] at hremoved
    exact calm hremoved
  | @completed x w idx p client reaped hx hp hg hd =>
    have hp' : ((w.setClient p.fd client.clearResponse).modifyEntry idx PollFd.disablePollout).pollFds[idx]? =
        some p.disablePollout := by simp [modifyEntry, hp]
    have hg' : ((w.setClient p.fd client.clearResponse).modifyEntry idx PollFd.disablePollout).getClient p.fd =
        some client.clearResponse := by simp
    have hremoved := removeClient_reaches hp' hg' reaped .complete
    rw [registry_answered hg] at hremoved
    exact calm hremoved
  | @cgiRead x w cgiFd c client bytes hc hg => exact quiet (cgiOutputRead_registry hg bytes)
  | @cgiPaused x w idx p c client hp hc hg hs =>
    exact quiet (registry_modifyEntry (f := PollFd.disablePollin) w (fun _ => rfl) idx)
  | @cgiEnded x w idx p c client a hp hc hg =>
    obtain ⟨client', hg', hout, -⟩ := hs.owned p.fd c hc
    obtain rfl : client = client' := Option.some.inj (hg.symm.trans hg')
    refine ⟨_, cgiOutputEnd_reaches a hp hg hout, ?_⟩
    intro hin
    exact ⟨_, mem_trace_of_history (hin ▸ cgiEnded_mem w a idx p.fd c client), rfl⟩
  | @inputEnded x w c client hg ha =>
    refine ⟨_, (endInput_registry hg).reaches, ?_⟩
    intro hearly
    obtain ⟨s, -, hch⟩ := endInput_changed w c client
    obtain ⟨hp, hin⟩ := Bool.and_eq_true_iff.mp hearly
    rw [hp, hin] at hch
    refine ⟨.inputEnded c true true, mem_trace_of_history (c := c) ?_, rfl⟩
    rw [hch.history, if_pos rfl]
    exact List.mem_append_right _ (List.mem_singleton_self _)
  | @bodyRead x w c client bytes now count decoder hg =>
    have hlog : (w.log (.bodyRead c bytes)).registry = w.registry := registry_log w rfl
    have hset := registry_setClient_same (w := w.log (.bodyRead c bytes)) hg { client with
      lastActivity := now, cgiChunk := decoder, cgiBodyBytesForwarded := count } rfl
    exact quiet (hset.trans hlog)
  | @forwarded x w c stdinFd client piece answer hg ha hin => exact calm (forwardPiece_reaches hg hin piece answer)
  | @inputComplete x w c stdinFd client hg ha hin => exact calm (inputComplete_registry hg hin).reaches
  | @bodyPaused w idx p client hp hg ha hsize =>
    exact quiet (registry_modifyEntry (f := PollFd.disablePollin) w (fun _ => rfl) idx)
  | @touched x w c client now hg => exact quiet (registry_setClient_same hg _ rfl)
  | @requestRead w idx p client a bytes hp hreads hg ha =>
    have hscript : w.registry.scripts p.fd = some client.script := scripts_of_client hg
    have hstep : Registry.Step false w.registry
        (w.requestBytes a p.fd (client.updateActivity a.now) idx bytes).registry :=
      requestBytes_registry a idx bytes hscript ha (hs.clients p.fd client hg).fd
    exact calm hstep.reaches
  | sentPending now sent hg hsize => exact quiet (sendPending_registry now hg hsize)
  | @outputPaused x w idx p client hp hg hsize =>
    exact quiet (registry_modifyEntry (f := PollFd.disablePollout) w (fun _ => rfl) idx)
  | @sentResponse x w c client now sent hg ha hsent =>
    have hlog : (w.log (.sent c false ((client.response.drop client.responseOffset).take sent))).registry =
        w.registry := registry_log w rfl
    have hset := registry_setClient_same (w := w.log (.sent c false
      ((client.response.drop client.responseOffset).take sent))) hg
        ((client.advanceResponseOffset sent).updateActivity now) rfl
    exact quiet (hset.trans hlog)

end WebServ
