import WebServ.Server.Children
import WebServ.Server.Entries
import WebServ.Server.Turns

/-! # No wakeup is lost

A connection with a script waits for three descriptors, and a queue that is full
switches one of them off. What is switched off, or left off, has a full queue behind
it that will switch it on again.
-/
namespace WebServ
open World KeyedList

/-- The connection `c` is polled for everything that lets it go on. -/
structure Awake (e : Fd → Option PollFd) (c : Fd) (client : Client) : Prop where
  output : 0 < client.cgiSendPending.size → ∀ p, e c = some p → p.events.pollout = true
  script : ∀ f, client.cgiStdoutFd = some f → ∀ p, e f = some p → p.events.pollin = false →
    cgiBackpressureLimit ≤ client.cgiSendPending.size
  input : 0 < client.cgiStdinPending.size → ∀ f, client.cgiStdinFd = some f →
    ∀ p, e f = some p → p.events.pollout = true
  body : ∀ p, e c = some p → p.events.pollin = false →
    cgiBackpressureLimit ≤ client.cgiStdinPending.size ∨ client.cgiStdinFd = none
  ended : client.cgiStdinEof = true → client.cgiStdinFd ≠ none → 0 < client.cgiStdinPending.size

/-- Nothing is asked for that was not asked for before, and nothing that was is forgotten. -/
theorem Awake.congr {e e' : Fd → Option PollFd} {c : Fd} {client : Client} (h : Awake e c client)
    (hc : (e' c).map PollFd.events = (e c).map PollFd.events)
    (ho : ∀ f, client.cgiStdoutFd = some f → (e' f).map PollFd.events = (e f).map PollFd.events)
    (hi : ∀ f, client.cgiStdinFd = some f → (e' f).map PollFd.events = (e f).map PollFd.events) :
    Awake e' c client := by
  have hold {f : Fd} {p' : PollFd} (he : (e' f).map PollFd.events = (e f).map PollFd.events)
      (hp' : e' f = some p') : ∃ p, e f = some p ∧ p.events = p'.events := by
    rw [hp', Option.map_some] at he
    exact Option.map_eq_some_iff.mp he.symm
  constructor
  · intro hsize p' hp'
    obtain ⟨p, hp, hev⟩ := hold hc hp'
    rw [← hev]
    exact h.output hsize p hp
  · intro f hf p' hp' hoff
    obtain ⟨p, hp, hev⟩ := hold (ho f hf) hp'
    exact h.script f hf p hp (hev ▸ hoff)
  · intro hsize f hf p' hp'
    obtain ⟨p, hp, hev⟩ := hold (hi f hf) hp'
    rw [← hev]
    exact h.input hsize f hf p hp
  · intro p' hp' hoff
    obtain ⟨p, hp, hev⟩ := hold hc hp'
    exact h.body p hp (hev ▸ hoff)
  · exact h.ended

/-- More is asked for. -/
theorem Awake.more {e e' : Fd → Option PollFd} {c : Fd} {client : Client} (h : Awake e c client)
    (he : ∀ f p', e' f = some p' → ∃ p, e f = some p ∧ (p.events.pollin = true → p'.events.pollin = true) ∧
      (p.events.pollout = true → p'.events.pollout = true)) : Awake e' c client := by
  constructor
  · intro hsize p' hp'
    obtain ⟨p, hp, -, hout⟩ := he c p' hp'
    exact hout (h.output hsize p hp)
  · intro f hf p' hp' hoff
    obtain ⟨p, hp, hin, -⟩ := he f p' hp'
    refine h.script f hf p hp ?_
    by_contra hon
    rw [hin (by simpa using hon)] at hoff
    cases hoff
  · intro hsize f hf p' hp'
    obtain ⟨p, hp, -, hout⟩ := he f p' hp'
    exact hout (h.input hsize f hf p hp)
  · intro p' hp' hoff
    obtain ⟨p, hp, hin, -⟩ := he c p' hp'
    refine h.body p hp ?_
    by_contra hon
    rw [hin (by simpa using hon)] at hoff
    cases hoff
  · exact h.ended

/-- One entry is asked for more. -/
theorem enabled_more {e : Fd → Option PollFd} {fd f : Fd} {p' : PollFd} {g : PollFd → PollFd}
    (hg : ∀ p, (p.events.pollin = true → (g p).events.pollin = true) ∧
      (p.events.pollout = true → (g p).events.pollout = true))
    (hp' : (if f = fd then (e fd).map g else e f) = some p') : ∃ p, e f = some p ∧
      (p.events.pollin = true → p'.events.pollin = true) ∧ (p.events.pollout = true → p'.events.pollout = true) := by
  by_cases hf : f = fd
  · rw [if_pos hf] at hp'
    obtain ⟨p, hp, rfl⟩ := Option.map_eq_some_iff.mp hp'
    exact ⟨p, hf ▸ hp, hg p⟩
  · rw [if_neg hf] at hp'
    exact ⟨p', hp', id, id⟩

theorem enablePollout_more (p : PollFd) : (p.events.pollin = true → p.enablePollout.events.pollin = true) ∧
    (p.events.pollout = true → p.enablePollout.events.pollout = true) := ⟨id, fun _ => rfl⟩

theorem enablePollin_more (p : PollFd) : (p.events.pollin = true → p.enablePollin.events.pollin = true) ∧
    (p.events.pollout = true → p.enablePollin.events.pollout = true) := ⟨fun _ => rfl, id⟩

/-- The script is left unread while much is to be sent. -/
theorem Awake.pauseScript {e : Fd → Option PollFd} {c f : Fd} {client : Client} (h : Awake e c client) (hc : f ≠ c)
    (hi : client.cgiStdinFd ≠ some f) (hs : cgiBackpressureLimit ≤ client.cgiSendPending.size) :
    Awake (fun g => if g = f then (e f).map PollFd.disablePollin else e g) c client := by
  constructor
  · intro hsize p hp
    rw [if_neg hc.symm] at hp
    exact h.output hsize p hp
  · intro g hg p hp hoff
    exact hs
  · intro hsize g hg p hp
    have hne : g ≠ f := fun heq => hi (heq ▸ hg)
    rw [if_neg hne] at hp
    exact h.input hsize g hg p hp
  · intro p hp hoff
    rw [if_neg hc.symm] at hp
    exact h.body p hp hoff
  · exact h.ended

/-- The client, who is none of the pipes, is asked for something else. -/
theorem Awake.own {e : Fd → Option PollFd} {c : Fd} {client : Client} (h : Awake e c client)
    (ho : client.cgiStdoutFd ≠ some c) (hi : client.cgiStdinFd ≠ some c) (mask : PollFd → PollFd)
    (houtput : 0 < client.cgiSendPending.size → ∀ q, e c = some q → (mask q).events.pollout = true)
    (hbody : ∀ q, e c = some q → (mask q).events.pollin = false →
      cgiBackpressureLimit ≤ client.cgiStdinPending.size ∨ client.cgiStdinFd = none) :
    Awake (fun g => if g = c then (e c).map mask else e g) c client := by
  constructor
  · intro hsize p hp
    rw [if_pos rfl] at hp
    obtain ⟨q, hq, rfl⟩ := Option.map_eq_some_iff.mp hp
    exact houtput hsize q hq
  · intro g hg p hp hoff
    have hne : g ≠ c := fun heq => ho (heq ▸ hg)
    rw [if_neg hne] at hp
    exact h.script g hg p hp hoff
  · intro hsize g hg p hp
    have hne : g ≠ c := fun heq => hi (heq ▸ hg)
    rw [if_neg hne] at hp
    exact h.input hsize g hg p hp
  · intro p hp hoff
    rw [if_pos rfl] at hp
    obtain ⟨q, hq, rfl⟩ := Option.map_eq_some_iff.mp hp
    exact hbody q hq hoff
  · exact h.ended

/-- The client is left unread while much is pending for the script. -/
theorem Awake.pauseBody {e : Fd → Option PollFd} {c : Fd} {client : Client} (h : Awake e c client)
    (ho : client.cgiStdoutFd ≠ some c) (hi : client.cgiStdinFd ≠ some c)
    (hs : cgiBackpressureLimit ≤ client.cgiStdinPending.size) :
    Awake (fun g => if g = c then (e c).map PollFd.disablePollin else e g) c client := by
  apply h.own ho hi
  · intro hsize q hq
    exact h.output hsize q hq
  · intro q hq hoff
    exact Or.inl hs

/-- Nothing is to be sent. -/
theorem Awake.pauseOutput {e : Fd → Option PollFd} {c : Fd} {client : Client} (h : Awake e c client)
    (ho : client.cgiStdoutFd ≠ some c) (hi : client.cgiStdinFd ≠ some c) (hs : client.cgiSendPending.size = 0) :
    Awake (fun g => if g = c then (e c).map PollFd.disablePollout else e g) c client := by
  apply h.own ho hi
  · intro hsize q hq
    omega
  · intro q hq hoff
    exact h.body q hq hoff

/-- The pipe to the script is gone, with nothing pending for it. -/
theorem Awake.inputClosed {e e' : Fd → Option PollFd} {c g : Fd} {client : Client} (h : Awake e c client)
    {q : OffsetBuffer UInt8} (hz : q.size = 0) (he : ∀ f, e' f = if f = g then none else e f) (hc : g ≠ c)
    (ho : client.cgiStdoutFd ≠ some g) :
    Awake e' c { client with cgiStdinPending := q, cgiStdinFd := none } := by
  constructor
  · intro hpos p hp
    rw [he, if_neg hc.symm] at hp
    exact h.output hpos p hp
  · intro f hf p hp hoff
    have hne : f ≠ g := fun heq => ho (heq ▸ hf)
    rw [he, if_neg hne] at hp
    exact h.script f hf p hp hoff
  · intro hpos
    exact absurd hz (Nat.ne_of_gt hpos)
  · intro p hp hoff
    exact Or.inr rfl
  · intro hend hopen
    exact absurd rfl hopen

/-- No more is to come for the script, whose pipe may be closed then. -/
theorem Awake.inputEnds {e e' : Fd → Option PollFd} {c : Fd} {client : Client} (h : Awake e c client)
    (hless : ∀ {f p}, e' f = some p → e f = some p) {s : Option Fd} {eof : Bool}
    (hs : s = client.cgiStdinFd ∨ s = none) (hend : eof = true → s ≠ none → 0 < client.cgiStdinPending.size) :
    Awake e' c { client with cgiStdinEof := eof, cgiStdinFd := s } := by
  constructor
  · intro hpos p hp
    exact h.output hpos p (hless hp)
  · intro f hf p hp
    exact h.script f hf p (hless hp)
  · intro hpos f hf p hp
    refine h.input hpos f ?_ p (hless hp)
    rcases hs with rfl | rfl
    · exact hf
    · cases hf
  · intro p hp hoff
    refine (h.body p (hless hp) hoff).imp_right ?_
    intro hnone
    rcases hs with rfl | rfl
    · exact hnone
    · rfl
  · exact hend

/-- Less is pending for the script, and the client is read again when it is little. -/
theorem Awake.resumeBody {e e' : Fd → Option PollFd} {c g : Fd} {client : Client} (h : Awake e c client)
    {q : OffsetBuffer UInt8} (hq : q.size ≤ client.cgiStdinPending.size) (hnot : ¬ (q.size = 0 ∧ client.cgiStdinEof = true))
    (he : ∀ f, f ≠ g ∨ 0 < q.size → e' f =
      if f = c ∧ q.size < cgiBackpressureLimit then (e f).map PollFd.enablePollin else e f) (hc : g ≠ c)
    (ho : client.cgiStdoutFd ≠ some g) (hpipes : (∀ f, client.cgiStdoutFd = some f → f ≠ c) ∧
      ∀ f, client.cgiStdinFd = some f → f ≠ c) : Awake e' c { client with cgiStdinPending := q } := by
  have hself := he c (Or.inl hc.symm)
  constructor
  · intro hpos p hp
    rw [hself] at hp
    split at hp
    · obtain ⟨p₀, hp₀, rfl⟩ := Option.map_eq_some_iff.mp hp
      exact h.output hpos p₀ hp₀
    · exact h.output hpos p hp
  · intro f hf p hp hoff
    have hfc := hpipes.1 f hf
    have hfg : f ≠ g := fun heq => ho (heq ▸ hf)
    rw [he f (Or.inl hfg), if_neg (fun h => hfc h.1)] at hp
    exact h.script f hf p hp hoff
  · intro hpos f hf p hp
    have hfc := hpipes.2 f hf
    rw [he f (Or.inr hpos), if_neg (fun h => hfc h.1)] at hp
    exact h.input (Nat.lt_of_lt_of_le hpos hq) f hf p hp
  · intro p hp hoff
    left
    by_contra hlow
    rw [hself, if_pos ⟨rfl, Nat.lt_of_not_le hlow⟩] at hp
    obtain ⟨p₀, -, rfl⟩ := Option.map_eq_some_iff.mp hp
    cases hoff
  · intro hend hopen
    exact Nat.pos_of_ne_zero (fun hz => hnot ⟨hz, hend⟩)

/-! ## Descriptors of other connections -/

/-- The descriptors whose entries change when a connection is served. -/
def Registry.Owns (r : Registry) (c f : Fd) : Prop :=
  f = c ∧ (r.scripts c).isSome ∨ r.stdout c = some f ∨ r.inOf f = some c

/-- A descriptor that a connection owns is none of another connection. -/
theorem Registry.Registered.foreign {r : Registry} (h : r.Registered) {c d f : Fd} (hcd : d ≠ c)
    (hd : (r.scripts d).isSome) (hown : r.Owns c f) : f ≠ d ∧ r.stdout d ≠ some f ∧ r.stdin d ≠ some f := by
  obtain ⟨hdo, hdi⟩ := h.client_only hd
  rcases hown with ⟨rfl, hc⟩ | hout | hin
  · obtain ⟨hco, hci⟩ := h.client_only hc
    refine ⟨hcd.symm, ?_, ?_⟩
    · intro hs
      rw [(h.out_iff f d).mpr hs] at hco
      cases hco
    · intro hs
      rw [h.in_of f d hs] at hci
      cases hci
  · have houtOf := (h.out_iff f c).mpr hout
    refine ⟨?_, ?_, ?_⟩
    · rintro rfl
      rw [houtOf] at hdo
      cases hdo
    · intro hs
      have heq := (h.out_iff f d).mpr hs
      rw [houtOf] at heq
      exact hcd (Option.some.inj heq).symm
    · intro hs
      have hnone := h.out_only (f := f) (by simp [houtOf])
      rw [h.in_of f d hs] at hnone
      cases hnone
  · refine ⟨?_, ?_, ?_⟩
    · rintro rfl
      rw [hin] at hdi
      cases hdi
    · intro hs
      have hnone := h.out_only (f := f) (by simp [(h.out_iff f d).mpr hs])
      rw [hin] at hnone
      cases hnone
    · intro hs
      have heq := h.in_of f d hs
      rw [hin] at heq
      exact hcd (Option.some.inj heq).symm

/-- A move serves one connection; entries that others own stay. -/
structure Focus (c : Fd) (v v' : View) : Prop where
  client : ∀ d, d ≠ c → v'.2.getClient d = v.2.getClient d
  entry : ∀ f ∈ v.2.fds, ¬ v.2.registry.Owns c f → v'.2.entryOf f = v.2.entryOf f
  turn : ∀ d, d ≠ c → (v.2.getClient d).isSome → v.1 = some d → v'.1 = some d

/-- What is reported as readable was asked for, apart from the entry whose turn for input is over. -/
def Due (v : View) (c : Fd) : Prop := v.1 ≠ some c → ∀ p, v.2.entryOf c = some p →
  p.revents.pollin = true → p.events.pollin = true

structure Wakeful (v : View) : Prop where
  awake : ∀ c client, v.2.getClient c = some client → client.cgiActive = true → Awake v.2.entryOf c client
  due : ∀ c, (v.2.getClient c).isSome → Due v c

theorem Wakeful.focus {v v' : View} (h : Wakeful v) (hr : v.2.registry.Registered) {c : Fd} (hf : Focus c v v')
    (hawake : ∀ client, v'.2.getClient c = some client → client.cgiActive = true → Awake v'.2.entryOf c client)
    (hdue : (v'.2.getClient c).isSome → Due v' c) : Wakeful v' := by
  have hother {d : Fd} (hd : d ≠ c) {client : Client} (hg : v.2.getClient d = some client) {f : Fd}
      (hown : f = d ∨ client.cgiStdoutFd = some f ∨ client.cgiStdinFd = some f) :
      v'.2.entryOf f = v.2.entryOf f := by
    have hscript := scripts_of_client hg
    have hforeign : ¬ v.2.registry.Owns c f := by
      intro hc
      obtain ⟨hne, hout, hin⟩ := hr.foreign hd (by simp [hscript]) hc
      rcases hown with rfl | ho | hi
      · exact hne rfl
      · exact hout (by simp [Registry.stdout, hscript, Client.script, ho])
      · exact hin (by simp [Registry.stdin, hscript, Client.script, hi])
    apply hf.entry f _ hforeign
    apply hr.mem_polled
    rcases hown with rfl | ho | hi
    · simp [Registry.roles, hscript]
    · have hout := (hr.out_iff f d).mpr (by simp [Registry.stdout, hscript, Client.script, ho])
      simp [Registry.roles, hout]
    · have hin := hr.in_of f d (by simp [Registry.stdin, hscript, Client.script, hi])
      simp [Registry.roles, hin]
  constructor
  · intro d client hg ha
    by_cases hd : d = c
    · subst hd
      exact hawake client hg ha
    · rw [hf.client d hd] at hg
      have hsame {f : Fd} (hown : f = d ∨ client.cgiStdoutFd = some f ∨ client.cgiStdinFd = some f) :=
        congrArg (Option.map PollFd.events) (hother hd hg hown)
      exact (h.awake d client hg ha).congr (hsame (Or.inl rfl)) (fun f ho => hsame (Or.inr (Or.inl ho)))
        (fun f hi => hsame (Or.inr (Or.inr hi)))
  · intro d hs
    by_cases hd : d = c
    · subst hd
      exact hdue hs
    · rw [hf.client d hd] at hs
      obtain ⟨client, hg⟩ := Option.isSome_iff_exists.mp hs
      intro hx p hp
      rw [hother hd hg (Or.inl rfl)] at hp
      exact h.due d hs (fun hv => hx (hf.turn d hd hs hv)) p hp

namespace World
variable {w w' : World} {x : Option Fd} {c : Fd} {client : Client}

theorem owns_self (hg : w.getClient c = some client) : w.registry.Owns c c :=
  Or.inl ⟨rfl, by simp [scripts_of_client hg]⟩

theorem owns_stdout (hg : w.getClient c = some client) {f : Fd} (hf : client.cgiStdoutFd = some f) :
    w.registry.Owns c f := Or.inr (Or.inl (by simp [Registry.stdout, scripts_of_client hg, Client.script, hf]))

theorem owns_stdin (hr : w.registry.Registered) (hg : w.getClient c = some client) {f : Fd}
    (hf : client.cgiStdinFd = some f) : w.registry.Owns c f :=
  Or.inr (Or.inr (hr.in_of f c (by simp [Registry.stdin, scripts_of_client hg, Client.script, hf])))

/-- The turn of an entry that a connection owns is no turn of another connection. -/
theorem not_turn (hr : w.registry.Registered) {f : Fd} (hx : x = none ∨ x = some f) (hown : w.registry.Owns c f)
    {d : Fd} (hd : d ≠ c) (hs : (w.getClient d).isSome) : x ≠ some d := by
  rcases hx with rfl | rfl
  · simp
  · intro heq
    obtain ⟨client, hg⟩ := Option.isSome_iff_exists.mp hs
    exact (hr.foreign hd (by simp [scripts_of_client hg]) hown).1 (Option.some.inj heq)

/-- What a change of one connection does to the entries. -/
theorem Focus.of_changed {x' : Option Fd} {es : List Event} {o : Option Client} (hch : Changed w w' c es o)
    (hentry : ∀ f ∈ w.fds, ¬ w.registry.Owns c f → w'.entryOf f = w.entryOf f)
    (hturn : ∀ d, d ≠ c → (w.getClient d).isSome → x = some d → x' = some d) : Focus c (x, w) (x', w') where
  client d hd := by rw [hch.client, if_neg hd]
  entry := hentry
  turn := hturn

end World

section
variable {w w' : World} {x : Option Fd} {c : Fd} {client : Client}

/-- A connection that loses no entry of its own keeps what is due. -/
theorem Due.of_entry {x' : Option Fd} (h : Due (x, w) c) (hx : x' ≠ some c → x ≠ some c)
    (he : ∀ p', w'.entryOf c = some p' → ∃ p, w.entryOf c = some p ∧ p'.revents = p.revents ∧
      (p.events.pollin = true → p'.events.pollin = true)) : Due (x', w') c := by
  intro hx' p' hp' hrev
  obtain ⟨p, hp, hsame, hmore⟩ := he p' hp'
  exact hmore (h (hx hx') p hp (hsame ▸ hrev))

/-- What is asked for of its entry may change, as long as input is still asked for. -/
theorem Due.of_mapped {x' : Option Fd} (h : Due (x, w) c) (hx : x' ≠ some c → x ≠ some c) {g : PollFd → PollFd}
    (he : w'.entryOf c = (w.entryOf c).map g) (hr : ∀ p, (g p).revents = p.revents)
    (hg : ∀ p, p.events.pollin = true → (g p).events.pollin = true) : Due (x', w') c := by
  refine h.of_entry hx ?_
  intro p' hp'
  rw [he] at hp'
  obtain ⟨p, hp, rfl⟩ := Option.map_eq_some_iff.mp hp'
  exact ⟨p, hp, hr p, hg p⟩

/-- A client with no script running needs nothing but what is due. -/
theorem Wakeful.idle {v v' : View} (h : Wakeful v) (hr : v.2.registry.Registered) (hf : Focus c v v')
    (hidle : ∀ client, v'.2.getClient c = some client → client.cgiActive = false)
    (hdue : (v'.2.getClient c).isSome → Due v' c) : Wakeful v' := by
  refine h.focus hr hf ?_ hdue
  intro client hg ha
  rw [hidle client hg] at ha
  cases ha

theorem Wakeful.gone {v v' : View} (h : Wakeful v) (hr : v.2.registry.Registered) (hf : Focus c v v')
    (hgone : v'.2.getClient c = none) : Wakeful v' := by
  refine h.idle hr hf ?_ ?_
  · intro client hg
    rw [hgone] at hg
    cases hg
  · intro hs
    rw [hgone] at hs
    cases hs

/-- The entries stay as they are, and a script keeps what it waits for. -/
theorem Wakeful.kept {es : List Event} {client' : Client} (h : Wakeful (x, w)) (hr : w.registry.Registered)
    (hg : w.getClient c = some client) (hch : Changed w w' c es (some client')) (he : w'.entryOf = w.entryOf)
    (hawake : client'.cgiActive = true → Awake w.entryOf c client') : Wakeful (x, w') := by
  have hclient : w'.getClient c = some client' := by rw [hch.client, if_pos rfl]
  refine h.focus hr (Focus.of_changed hch (fun f _ _ => congrFun he f) (fun d _ _ hx => hx)) ?_ ?_
  · intro client₁ hg₁ ha₁
    obtain rfl : client' = client₁ := Option.some.inj (hclient.symm.trans hg₁)
    exact he ▸ hawake ha₁
  · intro _
    refine Due.of_entry (h.due c (by simp [hg])) id ?_
    intro p hp
    rw [show w'.entryOf = w.entryOf from he] at hp
    exact ⟨p, hp, rfl, id⟩

/-! ## Masks -/

/-- What is reported does not matter. -/
theorem Wakeful.reported (h : Wakeful (none, w)) (revents : List Readiness) :
    Wakeful (none, { w with pollFds := reportAll w.pollFds revents }) := by
  have hsame (f : Fd) : (({ w with pollFds := reportAll w.pollFds revents } : World).entryOf f).map PollFd.events =
      (w.entryOf f).map PollFd.events := by
    obtain ⟨r, hr⟩ := w.entryOf_reportAll revents f
    rw [hr]
    cases w.entryOf f <;> rfl
  constructor
  · intro c client hg ha
    exact (h.awake c client hg ha).congr (hsame c) (fun f _ => hsame f) (fun f _ => hsame f)
  · intro c _ _ p' hp' hrev
    obtain ⟨r, hr⟩ := w.entryOf_reportAll revents c
    rw [hr] at hp'
    obtain ⟨p, -, rfl⟩ := Option.map_eq_some_iff.mp hp'
    exact (Bool.and_eq_true_iff.mp hrev).2

theorem Wakeful.cleared (hn : w.fds.Nodup) {idx : ℕ} (h : Wakeful (w.fds[idx]?, w)) :
    Wakeful (none, w.modifyEntry idx PollFd.clearRevents) := by
  cases hfd : w.fds[idx]? with
  | none =>
    have hsame : w.modifyEntry idx PollFd.clearRevents = w := by
      have hlen : w.pollFds.length ≤ idx := by simpa using hfd
      simp [modifyEntry, List.modify_eq_self hlen]
    rw [hsame]
    rw [hfd] at h
    exact h
  | some fd =>
    rw [hfd] at h
    have hentry := entryOf_modifyEntry hn hfd (g := PollFd.clearRevents) (fun _ => rfl)
    have hsame (f : Fd) : ((w.modifyEntry idx PollFd.clearRevents).entryOf f).map PollFd.events =
        (w.entryOf f).map PollFd.events := by
      rw [hentry]
      by_cases hf : f = fd
      · rw [if_pos hf, hf, Option.map_map]
        rfl
      · rw [if_neg hf]
    constructor
    · intro c client hg ha
      exact (h.awake c client hg ha).congr (hsame c) (fun f _ => hsame f) (fun f _ => hsame f)
    · intro c hc _ p' hp' hrev
      rw [hentry] at hp'
      by_cases hf : c = fd
      · rw [if_pos hf] at hp'
        obtain ⟨p, -, rfl⟩ := Option.map_eq_some_iff.mp hp'
        cases hrev
      · rw [if_neg hf] at hp'
        exact h.due c hc (fun heq => hf (Option.some.inj heq).symm) p' hp' hrev

/-- The mask of one entry changes, which belongs to a connection. -/
theorem Wakeful.masked {x' : Option Fd} (h : Wakeful (x, w)) (hr : w.registry.Registered) {idx : ℕ} {p : PollFd}
    (hp : w.pollFds[idx]? = some p) (hown : w.registry.Owns c p.fd) {g : PollFd → PollFd}
    (hg : ∀ q, (g q).fd = q.fd)
    (hturn : ∀ d, d ≠ c → (w.getClient d).isSome → x = some d → x' = some d)
    (hawake : ∀ client, w.getClient c = some client → client.cgiActive = true → Awake w.entryOf c client →
      Awake (fun f => if f = p.fd then (w.entryOf p.fd).map g else w.entryOf f) c client)
    (hdue : (w.getClient c).isSome → Due (x', w.modifyEntry idx g) c) : Wakeful (x', w.modifyEntry idx g) := by
  have hn : w.fds.Nodup := hr.nodup
  have hentry := entryOf_modifyEntry hn (fds_of_entry hp) hg
  have hfocus : Focus c (x, w) (x', w.modifyEntry idx g) := by
    refine ⟨fun d _ => rfl, ?_, hturn⟩
    intro f _ hf
    have hne : f ≠ p.fd := fun heq => hf (heq ▸ hown)
    exact (hentry f).trans (if_neg hne)
  refine h.focus hr hfocus ?_ hdue
  intro client hg ha
  rw [show (w.modifyEntry idx g).entryOf = _ from funext hentry]
  exact hawake client hg ha (h.awake c client hg ha)

/-! ## Removal and connections -/

theorem Wakeful.same (h : Wakeful (x, w)) (he : w'.entryOf = w.entryOf) (hg : ∀ d, w'.getClient d = w.getClient d) :
    Wakeful (x, w') := by
  constructor
  · intro c client hc ha
    rw [hg] at hc
    exact he ▸ h.awake c client hc ha
  · intro c hc
    rw [hg] at hc
    exact Due.of_entry (h.due c hc) id (fun p hp => ⟨p, by rwa [he] at hp, rfl, id⟩)

theorem Wakeful.removeClient (h : Wakeful (x, w)) (hr : w.registry.Registered) {idx : ℕ} {p : PollFd}
    (hx : x = none ∨ x = some p.fd) (hp : w.pollFds[idx]? = some p) (hg : w.getClient p.fd = some client)
    (reaped : Bool) (reason : RemoveReason) : Wakeful (none, w.removeClient idx reaped reason) := by
  have hch := removeClient_changed w idx reaped reason
  rw [entry_eq hp] at hch
  refine h.gone (c := p.fd) hr (Focus.of_changed hch ?_ ?_) ?_
  · intro f _ hf
    refine entryOf_removeClient hr hp hg reaped reason ⟨?_, ?_, ?_⟩
    · rintro rfl
      exact hf (owns_self hg)
    · intro ho
      exact hf (owns_stdout hg ho)
    · intro hi
      exact hf (owns_stdin hr hg hi)
  · intro d hd hs hxd
    exact absurd hxd (not_turn hr hx (owns_self hg) hd hs)
  · rw [hch.client, if_pos rfl]

/-- A new connection is polled for its request. -/
theorem Wakeful.acceptFd (h : Wakeful (x, w)) (hr : w.registry.Registered) (serverIndex now : ℕ) {fd : Fd}
    (hfd : fd ∉ w.fds) : Wakeful (x, w.acceptFd serverIndex now fd) := by
  obtain ⟨-, hscript, -, -⟩ := Registry.empty_of_roles (hr.roles_eq_zero (f := fd) hfd)
  have hg : w.getClient fd = none := by simpa [World.registry] using hscript
  have hknown : w.clients.contains fd = false := by
    rw [Std.ExtTreeMap.contains_eq_isSome_getElem?]
    exact Option.isSome_eq_false_iff.mpr (Option.isNone_iff_eq_none.mpr hg)
  have hentry (f : Fd) : (w.acceptFd serverIndex now fd).entryOf f =
      (w.entryOf f).or (if fd = f then some { fd, events := { pollin := true } } else none) := by
    simp [World.acceptFd, hknown]
  have hclient (d : Fd) : (w.acceptFd serverIndex now fd).getClient d =
      if d = fd then some (Client.create fd serverIndex now) else w.getClient d := by
    simp [World.acceptFd, hknown]
  refine h.idle (c := fd) hr ⟨?_, ?_, fun d _ _ hx => hx⟩ ?_ ?_
  · intro d hd
    exact (hclient d).trans (if_neg hd)
  · intro f hf _
    obtain ⟨p, hp⟩ := Option.isSome_iff_exists.mp (entryOf_isSome.mpr hf)
    rw [hentry, hp, Option.some_or]
  · intro client' hg'
    obtain rfl := Option.some.inj ((hclient fd).symm.trans hg' |>.symm.trans (if_pos rfl))
    rfl
  · intro _ _ p hp hrev
    rw [hentry, entryOf_eq_none hfd, if_pos rfl, Option.none_or] at hp
    obtain rfl := Option.some.inj hp
    rfl

/-! ## Scripts -/

/-- A connection is served: its entries lose nothing that is due, and it stays awake. -/
theorem Wakeful.served {es : List Event} {client' : Client} (h : Wakeful (x, w)) (hr : w.registry.Registered)
    (hg : w.getClient c = some client) (hch : Changed w w' c es (some client'))
    (hentry : ∀ f ∈ w.fds, ¬ w.registry.Owns c f → w'.entryOf f = w.entryOf f)
    (hdue : ∀ p', w'.entryOf c = some p' → ∃ p, w.entryOf c = some p ∧ p'.revents = p.revents ∧
      (p.events.pollin = true → p'.events.pollin = true))
    (hawake : client'.cgiActive = true → Awake w'.entryOf c client') : Wakeful (x, w') := by
  have hclient : w'.getClient c = some client' := by rw [hch.client, if_pos rfl]
  refine h.focus hr (Focus.of_changed hch hentry (fun d _ _ hx => hx)) ?_ ?_
  · intro client₁ hg₁ ha₁
    obtain rfl : client' = client₁ := Option.some.inj (hclient.symm.trans hg₁)
    exact hawake ha₁
  · intro _
    exact Due.of_entry (h.due c (by simp [hg])) id hdue

/-- The client has everything, and is removed. -/
theorem Wakeful.completed (h : Wakeful (x, w)) (hr : w.registry.Registered) {idx : ℕ} {p : PollFd}
    (hx : x = none ∨ x = some p.fd) (hp : w.pollFds[idx]? = some p) (hg : w.getClient p.fd = some client)
    (hd : Drained client) (reaped : Bool) : Wakeful (none, ((w.setClient p.fd client.clearResponse).modifyEntry idx
      PollFd.disablePollout).removeClient idx reaped .complete) := by
  have hn : w.fds.Nodup := hr.nodup
  have hp' : ((w.setClient p.fd client.clearResponse).modifyEntry idx PollFd.disablePollout).pollFds[idx]? =
      some p.disablePollout := by simp [modifyEntry, hp]
  have hg' : ((w.setClient p.fd client.clearResponse).modifyEntry idx PollFd.disablePollout).getClient p.fd =
      some client.clearResponse := by simp
  have he (f : Fd) : ((w.setClient p.fd client.clearResponse).modifyEntry idx PollFd.disablePollout).entryOf f =
      if f = p.fd then (w.entryOf p.fd).map PollFd.disablePollout else w.entryOf f :=
    entryOf_modifyEntry (w := w.setClient p.fd client.clearResponse) (by simpa using hn)
      (by simpa using fds_of_entry hp) (g := PollFd.disablePollout) (fun _ => rfl) f
  refine Wakeful.removeClient (w := (w.setClient p.fd client.clearResponse).modifyEntry idx PollFd.disablePollout)
    (p := p.disablePollout) (x := x) ?_ ((registry_answered hg).symm ▸ hr) hx hp' hg' reaped .complete
  refine h.idle (c := p.fd) hr ⟨?_, ?_, fun d _ _ hxd => hxd⟩ ?_ ?_
  · intro d hd
    simp [hd]
  · intro f _ hf
    refine (he f).trans (if_neg ?_)
    rintro rfl
    exact hf (owns_self hg)
  · intro client' hg₁
    obtain rfl := Option.some.inj (hg'.symm.trans hg₁)
    exact hd.1
  · intro _
    exact Due.of_mapped (h.due p.fd (by simp [hg])) id ((he p.fd).trans (if_pos rfl)) (fun _ => rfl) (fun _ => id)

/-- The client gets what the script has written. -/
theorem Wakeful.cgiRead (h : Wakeful (x, w)) (hr : w.registry.Registered) (hg : w.getClient c = some client)
    (hfd : client.fd = c) (ha : client.cgiActive = true) (bytes : Bytes) :
    Wakeful (x, (w.cgiOutputRead c client bytes).1) := by
  obtain ⟨es, -, hch⟩ := cgiOutputRead_changed w {} c bytes ha
  obtain ⟨hout, -⟩ := cgiOutputRead_client w c client bytes
  obtain ⟨hpending, hin, hend⟩ := cgiOutputRead_input w c client bytes
  have hawake := h.awake c client hg ha
  rcases cgiOutputRead_entries (w := w) c client bytes with ⟨he, hsend⟩ | ⟨he, hsend⟩
  · refine h.kept hr hg hch he (fun _ => ⟨?_, ?_, ?_, ?_, ?_⟩)
    · rw [hsend]
      exact hawake.output
    · rw [hsend, hout]
      exact hawake.script
    · rw [hpending, hin]
      exact hawake.input
    · rw [hpending, hin]
      exact hawake.body
    · rw [hpending, hin, hend]
      exact hawake.ended
  · rw [hfd] at he
    have hmore : Awake (w.cgiOutputRead c client bytes).1.entryOf c client := by
      refine hawake.more ?_
      intro f p' hp'
      exact enabled_more enablePollout_more ((he f).symm.trans hp')
    refine h.served hr hg hch ?_ ?_ (fun _ => ⟨?_, ?_, ?_, ?_, ?_⟩)
    · intro f _ hf
      rw [he, if_neg]
      rintro rfl
      exact hf (owns_self hg)
    · intro p' hp'
      rw [he, if_pos rfl] at hp'
      obtain ⟨p, hp, rfl⟩ := Option.map_eq_some_iff.mp hp'
      exact ⟨p, hp, rfl, id⟩
    · intro _ p' hp'
      rw [he, if_pos rfl] at hp'
      obtain ⟨p, hp, rfl⟩ := Option.map_eq_some_iff.mp hp'
      rfl
    · intro f hf p' hp' hoff
      rw [hout] at hf
      exact (hmore.script f hf p' hp' hoff).trans hsend
    · rw [hpending, hin]
      exact hmore.input
    · rw [hpending, hin]
      exact hmore.body
    · rw [hpending, hin, hend]
      exact hmore.ended

/-- The script is read again once the queue to the client is short. -/
theorem Wakeful.sentPending (h : Wakeful (x, w)) (hr : w.registry.Registered) (hg : w.getClient c = some client)
    (now : ℕ) {sent : ℕ} (hs : sent ≤ client.cgiSendPending.size) :
    Wakeful (x, (w.sendPending now c client sent hs).1) := by
  obtain ⟨hneOut, -⟩ := pipes_ne hr hg
  have he := entryOf_sendPending (w := w) now c client sent hs
  have hsize : ((client.consumeCgiSendPending sent hs).updateActivity now).cgiSendPending.size =
      client.cgiSendPending.size - sent := OffsetBuffer.size_consume _ _ _ hs
  have hself : (w.sendPending now c client sent hs).1.entryOf c = w.entryOf c := by
    rw [he, if_neg]
    rintro ⟨-, ho⟩
    exact hneOut c ho rfl
  refine h.served hr hg (sendPending_changed _ _ _ _ _ _) ?_ ?_ ?_
  · intro f _ hf
    rw [he, if_neg]
    rintro ⟨-, ho⟩
    exact hf (owns_stdout hg ho)
  · intro p hp
    exact ⟨p, hself ▸ hp, rfl, id⟩
  · intro ha
    have hawake := h.awake c client hg ha
    have hmore : Awake (w.sendPending now c client sent hs).1.entryOf c client := by
      refine hawake.more ?_
      intro f p' hp'
      rw [he] at hp'
      split at hp'
      · obtain ⟨p, hp, rfl⟩ := Option.map_eq_some_iff.mp hp'
        exact ⟨p, hp, enablePollin_more p⟩
      · exact ⟨p', hp', id, id⟩
    refine ⟨?_, ?_, hmore.input, hmore.body, hmore.ended⟩
    · intro hpos p hp
      rw [hsize] at hpos
      exact hmore.output (by omega) p hp
    · intro f hf p' hp' hoff
      rw [hsize]
      by_contra hlow
      rw [he, if_pos ⟨⟨ha, Nat.lt_of_not_le hlow⟩, hf⟩] at hp'
      obtain ⟨p, -, rfl⟩ := Option.map_eq_some_iff.mp hp'
      cases hoff

/-- The client is read again once little is pending for the script. -/
theorem Wakeful.stdinWritable (h : Wakeful (x, w)) (hr : w.registry.Registered) (hfd : client.fd = c)
    (hg : w.getClient c = some client) (a : Answers) {idx : ℕ} {p : PollFd} (hx : x = none ∨ x = some p.fd)
    (hp : w.pollFds[idx]? = some p) (hc : w.cgiStdinFdToClientFd[p.fd]? = some c) :
    Wakeful (none, (w.handleCgiStdinWritable a idx).2) := by
  have hown : w.registry.Owns c p.fd := Or.inr (Or.inr hc)
  have hscript := scripts_of_client hg
  have hne : p.fd ≠ c := by
    rintro heq
    have hnone := (hr.client_only (c := c) (by simp [hscript])).2
    rw [← heq, show w.registry.inOf p.fd = some c from hc] at hnone
    cases hnone
  have hout : client.cgiStdoutFd ≠ some p.fd := by
    intro hf
    have hnone := hr.out_only (f := p.fd) (by
      simp [(hr.out_iff p.fd c).mpr (by simp [Registry.stdout, hscript, Client.script, hf])])
    rw [show w.registry.inOf p.fd = some c from hc] at hnone
    cases hnone
  have hturn : ∀ d, d ≠ c → (w.getClient d).isSome → x = some d → none = some d :=
    fun d hd hs hxd => absurd hxd (not_turn hr hx hown hd hs)
  have hxc : x ≠ some c := by
    rcases hx with rfl | rfl
    · simp
    · simpa using hne
  rw [← entry_eq hp] at hc
  obtain ⟨pieces, q', s', -, -, hch⟩ := handleCgiStdinWritable_changed w (a := a) hc hg
  rw [entry_eq hp] at hc
  obtain ⟨q, hq, hcases⟩ := handleCgiStdinWritable_entries hr a hp hc hg
  rcases hcases with ⟨hz, -, hg', he⟩ | ⟨hnot, hg', he⟩
  · -- the pipe is closed
    refine h.focus hr (Focus.of_changed hch ?_ hturn) ?_ ?_
    · intro f _ hf
      have hfp : f ≠ p.fd := fun heq => hf (heq ▸ hown)
      rw [he, if_neg hfp]
    · intro client' hg₁ ha
      obtain rfl := Option.some.inj (hg'.symm.trans hg₁)
      exact (h.awake c client hg ha).inputClosed hz he hne hout
    · intro _
      refine Due.of_entry (h.due c (by simp [hg])) (fun _ => hxc) ?_
      intro p' hp'
      rw [he, if_neg hne.symm] at hp'
      exact ⟨p', hp', rfl, id⟩
  · rw [hfd] at he
    refine h.focus hr (Focus.of_changed hch ?_ hturn) ?_ ?_
    · intro f _ hf
      have hfp : f ≠ p.fd := fun heq => hf (heq ▸ hown)
      have hfc : f ≠ c := by
        rintro rfl
        exact hf (owns_self hg)
      rw [he f (Or.inl hfp), if_neg (fun h => hfc h.1)]
    · intro client' hg₁ ha
      obtain rfl := Option.some.inj (hg'.symm.trans hg₁)
      exact (h.awake c client hg ha).resumeBody hq hnot he hne hout (pipes_ne hr hg)
    · intro _
      refine Due.of_entry (h.due c (by simp [hg])) (fun _ => hxc) ?_
      intro p' hp'
      rw [he c (Or.inl hne.symm)] at hp'
      split at hp'
      · obtain ⟨p₀, hp₀, rfl⟩ := Option.map_eq_some_iff.mp hp'
        exact ⟨p₀, hp₀, rfl, fun _ => rfl⟩
      · exact ⟨p', hp', rfl, id⟩

/-- The output of a script is at its end. -/
theorem Wakeful.cgiEnded (h : Wakeful (x, w)) (hr : w.registry.Registered) (hg : w.getClient c = some client)
    (hfd : client.fd = c) (ha : client.cgiActive = true) (a : Answers) {idx : ℕ} {p : PollFd}
    (hp : w.pollFds[idx]? = some p) (ho : client.cgiStdoutFd = some p.fd)
    (ht : (w.cgiOutputEnd a idx p.fd c client).aborted = false) :
    Wakeful (x, w.cgiOutputEnd a idx p.fd c client) := by
  obtain ⟨hneOut, -⟩ := pipes_ne hr hg
  have hne := hneOut p.fd ho
  have hn : w.fds.Nodup := hr.nodup
  obtain ⟨es, o, -, hch⟩ := cgiOutputEnd_changed w a c idx p.fd ha ht
  have he {f : Fd} (hf : f ≠ p.fd) := entryOf_cgiOutputEnd hn a hp c client hf
  refine h.idle (c := c) hr (Focus.of_changed hch ?_ (fun d _ _ hxd => hxd)) ?_ ?_
  · intro f _ hf
    have hfp : f ≠ p.fd := fun heq => hf (heq ▸ owns_stdout hg ho)
    have hfc : f ≠ client.fd := by
      rw [hfd]
      rintro rfl
      exact hf (owns_self hg)
    rw [he hfp, if_neg hfc]
  · exact cgiOutputEnd_inactive w a idx p.fd c client
  · intro _
    exact Due.of_mapped (h.due c (by simp [hg])) id ((he hne.symm).trans (if_pos hfd.symm)) (fun _ => rfl)
      (fun _ => id)

/-- The client sends no more. -/
theorem Wakeful.inputEnded (h : Wakeful (x, w)) (hr : w.registry.Registered) (hg : w.getClient c = some client) :
    Wakeful (x, w.endInput c client) := by
  obtain ⟨s, hs, hch⟩ := endInput_changed w c client
  have hend := endInput_stdin w c client
  have hclient := hch.client c
  rw [if_pos rfl] at hclient
  refine h.kept hr hg hch (entryOf_endInput c client) ?_
  intro ha
  exact (h.awake c client hg ha).inputEnds id hs (fun _ => hend _ hclient)

/-- A piece of the body is handed over. -/
theorem Wakeful.forwarded (h : Wakeful (x, w)) (hr : w.registry.Registered) (hg : w.getClient c = some client)
    {stdinFd : Fd} (hin : client.cgiStdinFd = some stdinFd) (piece : Bytes) (answer : ℕ) :
    Wakeful (x, (w.forwardPiece c client stdinFd piece answer).1.setClient c
      (w.forwardPiece c client stdinFd piece answer).2) := by
  obtain ⟨q, hq, -, hch⟩ := forwardPiece_changed w c client stdinFd piece answer
  have hsize : q.size = client.cgiStdinPending.size + (piece.drop (w.write stdinFd piece.length answer)).length := by
    rw [← OffsetBuffer.length_pending, ← OffsetBuffer.length_pending, hq, List.length_append]
  have he (f : Fd) : ((w.forwardPiece c client stdinFd piece answer).1.setClient c
      (w.forwardPiece c client stdinFd piece answer).2).entryOf f =
        if w.write stdinFd piece.length answer < piece.length ∧ f = stdinFd then
          (w.entryOf f).map PollFd.enablePollout else w.entryOf f := by
    rw [entryOf_setClient]
    exact entryOf_forwardPiece (isCgiStdinFd_of_client hr hg hin) piece answer f
  have hne := (pipes_ne hr hg).2 stdinFd hin
  have hself := he c
  rw [if_neg (fun h => hne h.2.symm)] at hself
  refine h.served hr hg hch ?_ ?_ ?_
  · intro f _ hf
    have hfs : f ≠ stdinFd := fun heq => hf (heq ▸ owns_stdin hr hg hin)
    rw [he, if_neg (fun h => hfs h.2)]
  · intro p hp
    exact ⟨p, hself ▸ hp, rfl, id⟩
  · intro ha
    have hawake := h.awake c client hg ha
    have hmore : Awake ((w.forwardPiece c client stdinFd piece answer).1.setClient c
        (w.forwardPiece c client stdinFd piece answer).2).entryOf c client := by
      refine hawake.more ?_
      intro f p' hp'
      rw [he] at hp'
      split at hp'
      · obtain ⟨p, hp, rfl⟩ := Option.map_eq_some_iff.mp hp'
        exact ⟨p, hp, enablePollout_more p⟩
      · exact ⟨p', hp', id, id⟩
    refine ⟨hmore.output, hmore.script, ?_, ?_, ?_⟩
    · intro hpos f hf p' hp'
      by_cases htaken : w.write stdinFd piece.length answer < piece.length
      · have hfs : f = stdinFd := Option.some.inj (hf.symm.trans hin)
        rw [he, if_pos ⟨htaken, hfs⟩] at hp'
        obtain ⟨p, -, rfl⟩ := Option.map_eq_some_iff.mp hp'
        rfl
      · have hdrop : (piece.drop (w.write stdinFd piece.length answer)).length = 0 := by
          rw [List.length_drop]
          omega
        refine hmore.input ?_ f hf p' hp'
        dsimp only at hpos
        omega
    · intro p hp hoff
      refine (hmore.body p hp hoff).imp_left ?_
      dsimp only
      omega
    · intro hend hopen
      have hpos := hmore.ended hend hopen
      dsimp only
      omega

/-- The whole body was handed over. -/
theorem Wakeful.inputComplete (h : Wakeful (x, w)) (hr : w.registry.Registered) (hg : w.getClient c = some client)
    {stdinFd : Fd} (hin : client.cgiStdinFd = some stdinFd) : Wakeful (x, w.inputComplete c client stdinFd) := by
  obtain ⟨s, e, hs, -, hch⟩ := inputComplete_changed w c client stdinFd
  have hend := inputComplete_stdin w c client stdinFd
  have hclient := hch.client c
  rw [if_pos rfl] at hclient
  have hn : w.fds.Nodup := hr.nodup
  have he := entryOf_inputComplete hn c client stdinFd
  have hne := (pipes_ne hr hg).2 stdinFd hin
  have hless {f : Fd} {p : PollFd} (hp : (w.inputComplete c client stdinFd).entryOf f = some p) :
      w.entryOf f = some p := by
    rw [he] at hp
    split at hp
    · cases hp
    · exact hp
  refine h.served hr hg hch ?_ ?_ ?_
  · intro f _ hf
    have hfs : f ≠ stdinFd := fun heq => hf (heq ▸ owns_stdin hr hg hin)
    rw [he, if_neg (fun h => hfs h.2)]
  · intro p hp
    exact ⟨p, hless hp, rfl, id⟩
  · intro ha
    exact (h.awake c client hg ha).inputEnds hless hs (fun _ => hend _ hclient)

/-- Output of a script is not read while too much of it is queued. -/
theorem Wakeful.cgiPaused (h : Wakeful (x, w)) (hr : w.registry.Registered) {idx : ℕ} {p : PollFd}
    (hp : w.pollFds[idx]? = some p) (hc : w.cgiFdToClientFd[p.fd]? = some c) (hg : w.getClient c = some client)
    (hout : client.cgiStdoutFd = some p.fd) (hs : client.cgiSendPending.size > cgiBackpressureLimit) :
    Wakeful (x, w.modifyEntry idx PollFd.disablePollin) := by
  have hne := (pipes_ne hr hg).1 p.fd hout
  refine h.masked hr hp (owns_stdout hg hout) (g := PollFd.disablePollin) (fun _ => rfl) (fun _ _ _ h => h) ?_ ?_
  · intro client₁ hg₁ _ hawake
    obtain rfl : client = client₁ := Option.some.inj (hg.symm.trans hg₁)
    refine hawake.pauseScript hne ?_ (Nat.le_of_lt hs)
    intro hin
    have hnone := hr.out_only (f := p.fd) (by simp [show w.registry.outOf p.fd = some c from hc])
    rw [hr.in_of p.fd c (by simp [Registry.stdin, scripts_of_client hg, Client.script, hin])] at hnone
    cases hnone
  · intro _
    refine Due.of_entry (h.due c (by simp [hg])) id ?_
    intro q hq
    rw [entryOf_modifyEntry hr.nodup (fds_of_entry hp) (g := PollFd.disablePollin) (fun _ => rfl),
      if_neg hne.symm] at hq
    exact ⟨q, hq, rfl, id⟩

/-- A body is not read while too much of it is pending for the script. -/
theorem Wakeful.bodyPaused (h : Wakeful (none, w)) (hr : w.registry.Registered) {idx : ℕ} {p : PollFd}
    (hp : w.pollFds[idx]? = some p) (hg : w.getClient p.fd = some client)
    (hs : client.cgiStdinPending.size > cgiBackpressureLimit) :
    Wakeful (some p.fd, w.modifyEntry idx PollFd.disablePollin) := by
  obtain ⟨hneOut, hneIn⟩ := pipes_ne hr hg
  refine h.masked hr hp (owns_self hg) (g := PollFd.disablePollin) (fun _ => rfl) (by simp) ?_ ?_
  · intro client₁ hg₁ _ hawake
    obtain rfl : client = client₁ := Option.some.inj (hg.symm.trans hg₁)
    exact hawake.pauseBody (fun ho => hneOut p.fd ho rfl) (fun hi => hneIn p.fd hi rfl) (Nat.le_of_lt hs)
  · intro _ hx
    exact absurd rfl hx

theorem Wakeful.outputPaused (h : Wakeful (x, w)) (hr : w.registry.Registered) {idx : ℕ} {p : PollFd}
    (hp : w.pollFds[idx]? = some p) (hg : w.getClient p.fd = some client) (hs : client.cgiSendPending.size = 0) :
    Wakeful (x, w.modifyEntry idx PollFd.disablePollout) := by
  obtain ⟨hneOut, hneIn⟩ := pipes_ne hr hg
  refine h.masked hr hp (owns_self hg) (g := PollFd.disablePollout) (fun _ => rfl) (fun _ _ _ h => h) ?_ ?_
  · intro client₁ hg₁ _ hawake
    obtain rfl : client = client₁ := Option.some.inj (hg.symm.trans hg₁)
    exact hawake.pauseOutput (fun ho => hneOut p.fd ho rfl) (fun hi => hneIn p.fd hi rfl) hs
  · intro _
    have he := entryOf_modifyEntry hr.nodup (fds_of_entry hp) (g := PollFd.disablePollout) (fun _ => rfl) p.fd
    exact Due.of_mapped (h.due p.fd (by simp [hg])) id (he.trans (if_pos rfl)) (fun _ => rfl) (fun _ => id)

/-- A script is started while its client is polled for input. -/
theorem Wakeful.requestRead (h : Wakeful (none, w)) (hr : w.registry.Registered) (a : Answers) {idx : ℕ} {p : PollFd}
    (hp : w.pollFds[idx]? = some p) (hrev : p.revents.pollin = true) (hg : w.getClient p.fd = some client)
    (ha : client.cgiActive = false) (bytes : Bytes)
    (hnew : ∀ f, .opened f true ∉ (w.requestBytes a p.fd (client.updateActivity a.now) idx bytes).trace) :
    Wakeful ((w.requestBytes a p.fd (client.updateActivity a.now) idx bytes).fds[idx]?,
      w.requestBytes a p.fd (client.updateActivity a.now) idx bytes) := by
  have hn : w.fds.Nodup := hr.nodup
  have ha' : (client.updateActivity a.now).cgiActive = false := ha
  have hlen : idx < w.pollFds.length := (List.getElem?_eq_some_iff.mp hp).1
  obtain ⟨hkept, hcases⟩ := requestBytes_entries hn a hp ha' bytes hnew
  have hgrown := requestBytes_grown (w := w) a p.fd (client.updateActivity a.now) idx bytes
  have hturn : (w.requestBytes a p.fd (client.updateActivity a.now) idx bytes).fds[idx]? = some p.fd := by
    rw [← List.getElem?_take_of_lt (Nat.lt_succ_self idx), hgrown.take_fds hlen,
      List.getElem?_take_of_lt (Nat.lt_succ_self idx), fds_of_entry hp]
  have hch : ∃ es o, Changed w (w.requestBytes a p.fd (client.updateActivity a.now) idx bytes) p.fd es o := by
    rcases requestBytes_changed w a.files a idx bytes ha' with
      ⟨es, client', -, -, -, -, hch⟩ | ⟨es, client', o, -, -, -, -, hch⟩
    · exact ⟨es, some client', hch⟩
    · exact ⟨es, some client', hch⟩
  obtain ⟨es, o, hch⟩ := hch
  have hfocus : Focus p.fd (none, w) ((w.requestBytes a p.fd (client.updateActivity a.now) idx bytes).fds[idx]?,
      w.requestBytes a p.fd (client.updateActivity a.now) idx bytes) := by
    refine Focus.of_changed hch ?_ nofun
    intro f hmem hf
    refine hkept f hmem ?_
    rintro rfl
    exact hf (owns_self hg)
  have hdue : Due ((w.requestBytes a p.fd (client.updateActivity a.now) idx bytes).fds[idx]?,
      w.requestBytes a p.fd (client.updateActivity a.now) idx bytes) p.fd := fun hx => absurd hturn hx
  rcases hcases with hidle | ⟨hself, i, o, client', hg', hfirst⟩
  · exact h.idle hr hfocus hidle (fun _ => hdue)
  · refine h.focus hr hfocus ?_ (fun _ => hdue)
    intro client'' hg'' _
    obtain rfl : client' = client'' := Option.some.inj (hg'.symm.trans hg'')
    refine ⟨?_, ?_, ?_, ?_, hfirst.ended⟩
    · intro hpos
      exact absurd hfirst.send (Nat.ne_of_gt hpos)
    · intro f hf q hq hoff
      obtain rfl : o = f := Option.some.inj (hfirst.stdout.symm.trans hf)
      obtain rfl := Option.some.inj (hfirst.output.symm.trans hq)
      cases hoff
    · intro hpos f hf q hq
      obtain rfl : i = f := by
        refine Option.some.inj ?_
        rw [← hf]
        exact (hfirst.stdin.resolve_right (by simp [hf])).symm
      obtain rfl := Option.some.inj ((hfirst.input hpos hf).symm.trans hq)
      rfl
    · intro q hq hoff
      -- what was read was asked for
      dsimp only at hq
      rw [hself, entryOf_of_getElem? hn hp] at hq
      obtain rfl := Option.some.inj hq
      have hon := h.due p.fd (by simp [hg]) (by simp) p (entryOf_of_getElem? hn hp) hrev
      rw [hon] at hoff
      cases hoff

end

/-- A number that is still polled is recorded as such when it is given out again. -/
theorem acceptFd_opened {w : World} {fd : Fd} (serverIndex now : ℕ) (hmem : fd ∈ w.fds) :
    .opened fd true ∈ (w.acceptFd serverIndex now fd).trace := by
  have hopened : .opened fd true ∈ (w.openFd fd).trace := by
    simp [World.openFd, World.log, show w.polls fd = true from decide_eq_true hmem]
  have htrace : (w.acceptFd serverIndex now fd).trace = (w.openFd fd).trace ++
      [.accepted fd (w.clients.contains fd)] := by
    unfold World.acceptFd
    dsimp only
    split <;> simp [World.log]
  rw [htrace]
  exact List.mem_append_left _ hopened

/-! ## Moves -/

theorem Move.wakeful {files : FileSystem} {v v' : View} (h : Move files v v')
    (hs : v.2.Sound) (hr : v.2.registry.Registered)
    (hw : Wakeful v) (hnew : ∀ f, .opened f true ∉ v'.2.trace) : Wakeful v' := by
  have hn : v.2.fds.Nodup := hr.nodup
  cases h with
  | turned x w => exact ⟨hw.awake, fun c hc _ => hw.due c hc (by simp)⟩
  | reported w revents => exact hw.reported revents
  | cleared w idx => exact hw.cleared hn
  | @accepted x w fd serverIndex now hfd =>
    exact hw.acceptFd hr serverIndex now (fun hmem => hnew fd (acceptFd_opened serverIndex now hmem))
  | @strayStdin x w idx p c hx hp hc hg =>
    have hown : w.registry.Owns c p.fd := Or.inr (Or.inr hc)
    refine hw.gone (c := c) hr ⟨fun d _ => rfl, ?_, ?_⟩ hg
    · intro f _ hf
      have hne : f ≠ p.fd := fun heq => hf (heq ▸ hown)
      exact (entryOf_eraseEntry (by simpa using hn) (by simpa using fds_of_entry hp) f).trans (if_neg hne)
    · intro d hd hds hxd
      exact absurd hxd (not_turn hr hx hown hd hds)
  | @stdinWritable x w idx p c client a hx hp hc hg =>
    exact hw.stdinWritable hr (hs.clients c client hg).fd hg a hx hp hc
  | @removed x w idx p reason reaped hx hp hreason hg =>
    cases hg' : w.getClient p.fd with
    | some client => exact hw.removeClient hr hx hp hg' reaped reason
    | none =>
      -- an entry of no table is none
      rw [hg'] at hg
      obtain ⟨hl, ho, hi⟩ := hg.resolve_left (by simp)
      have hroles := hr.roles_ne_zero (f := p.fd) (List.mem_of_getElem? (fds_of_entry hp))
      exact absurd (roles_eq_zero hg' hl ho hi) hroles
  | @closedByRead w idx p client reason reaped hp hg ha =>
    have hlog : (w.log (.requestRead p.fd (Answered client) .removed)).registry = w.registry := registry_log w rfl
    have hlogged : Wakeful (none, w.log (.requestRead p.fd (Answered client) .removed)) :=
      hw.same (entryOf_log w _) (fun _ => rfl)
    exact hlogged.removeClient (hlog ▸ hr) (Or.inl rfl) hp hg reaped reason
  | @completed x w idx p client reaped hx hp hg hd => exact hw.completed hr hx hp hg hd reaped
  | @cgiRead x w cgiFd c client bytes hc hg =>
    obtain ⟨client', hg', -, ha⟩ := hs.owned cgiFd c hc
    obtain rfl : client = client' := Option.some.inj (hg.symm.trans hg')
    exact hw.cgiRead hr hg (hs.clients c client hg).fd ha bytes
  | @cgiPaused x w idx p c client hp hc hg hsize =>
    obtain ⟨client', hg', hout, -⟩ := hs.owned p.fd c hc
    obtain rfl : client = client' := Option.some.inj (hg.symm.trans hg')
    exact hw.cgiPaused hr hp hc hg hout hsize
  | @cgiEnded x w idx p c client a hp hc hg hf ht =>
    obtain ⟨client', hg', hout, ha⟩ := hs.owned p.fd c hc
    obtain rfl : client = client' := Option.some.inj (hg.symm.trans hg')
    exact hw.cgiEnded hr hg (hs.clients c client hg).fd ha a hp hout ht
  | @inputEnded x w c client hg ha => exact hw.inputEnded hr hg
  | @bodyRead x w c client bytes now count decoder hg =>
    refine hw.kept hr hg ((log_changed w rfl).trans (setClient_changed _ c _)) rfl ?_
    intro ha
    have hawake := hw.awake c client hg ha
    exact ⟨hawake.output, hawake.script, hawake.input, hawake.body, hawake.ended⟩
  | @forwarded x w c stdinFd client piece answer hg ha hin => exact hw.forwarded hr hg hin piece answer
  | @inputComplete x w c stdinFd client hg ha hin => exact hw.inputComplete hr hg hin
  | bodyPaused hp hg ha hsize => exact hw.bodyPaused hr hp hg hsize
  | @touched x w c client now hg =>
    refine hw.kept hr hg (setClient_changed _ _ _) rfl ?_
    intro ha
    have hawake := hw.awake c client hg ha
    exact ⟨hawake.output, hawake.script, hawake.input, hawake.body, hawake.ended⟩
  | @requestRead w idx p client a bytes hp hrev hg ha => exact hw.requestRead hr a hp hrev hg ha bytes hnew
  | sentPending now sent hg hsize => exact hw.sentPending hr hg now hsize
  | outputPaused hp hg hsize => exact hw.outputPaused hr hp hg hsize
  | @sentResponse x w c client now sent hg ha hsent =>
    refine hw.kept hr hg ((log_changed _ rfl).trans (setClient_changed _ _ _)) rfl ?_
    intro ha'
    exact absurd (ha'.symm.trans ha) (by simp)

/-- The pipe to a script broke, and is dropped. -/
theorem Wakeful.stdinHangup {w : World} (h : Wakeful (none, w)) (hr : w.registry.Registered) {idx : ℕ} {p : PollFd}
    {c : Fd} {client : Client} (hp : w.pollFds[idx]? = some p) (hc : w.cgiStdinFdToClientFd[p.fd]? = some c)
    (hg : w.getClient c = some client) : Wakeful (none, w.stdinHangup idx p.fd) := by
  have hn : w.fds.Nodup := hr.nodup
  have hch := stdinHangup_changed w idx hc
  rw [hg, Option.map_some] at hch
  have he (f : Fd) : (w.stdinHangup idx p.fd).entryOf f = if f = p.fd then none else w.entryOf f := by
    have hg' : ((w.eraseCgiStdinFd p.fd).closeFd p.fd).getClient c = some client := hg
    unfold World.stdinHangup
    simp only [hc, hg']
    rw [entryOf_eraseEntry (by simpa using hn) (by simpa using fds_of_entry hp)]
    simp
  have hless {f : Fd} {q : PollFd} (hq : (w.stdinHangup idx p.fd).entryOf f = some q) : w.entryOf f = some q := by
    rw [he] at hq
    split at hq
    · cases hq
    · exact hq
  refine h.served hr hg hch ?_ ?_ ?_
  · intro f _ hf
    have hne : f ≠ p.fd := fun heq => hf (heq ▸ Or.inr (Or.inr hc))
    rw [he, if_neg hne]
  · intro q hq
    exact ⟨q, hless hq, rfl, id⟩
  · intro ha
    exact (h.awake c client hg ha).inputEnds hless (Or.inr rfl) (fun _ hopen => absurd rfl hopen)

theorem AnyMove.wakeful {files : FileSystem} {v v' : View} (h : AnyMove files v v')
    (hs : v.2.Sound) (hr : v.2.registry.Registered)
    (hw : Wakeful v) (hnew : ∀ f, .opened f true ∉ v'.2.trace) : Wakeful v' := by
  cases h with
  | calm h => exact h.wakeful hs hr hw hnew
  | @stdinHangup w idx p c hp hc =>
    cases hg : w.getClient c with
    | some client => exact hw.stdinHangup hr hp hc hg
    | none =>
      rw [stdinHangup_none hc hg] at hnew ⊢
      have hstray : Move files (none, w) _ := .strayStdin (Or.inl rfl) hp hc hg
      exact hstray.wakeful hs hr hw hnew

theorem AnyMove.registered {files : FileSystem} {v v' : View} (h : AnyMove files v v')
    (hs : v.2.Sound) (hr : v.2.registry.Registered)
    (hnew : ∀ f, .opened f true ∉ v'.2.trace) : v'.2.registry.Registered := by
  have hrecord (f : Fd) : .opened f true ∉ v'.2.registry.record := fun hmem => hnew f (List.mem_filter.mp hmem).1
  cases h with
  | calm h =>
    obtain ⟨early, hreaches, -⟩ := h.registry hs
    have hstep := hreaches.step hr
    exact hr.step hstep (hstep.fresh hrecord)
  | @stdinHangup w idx p c hp hc =>
    cases hg : w.getClient c with
    | some client =>
      obtain ⟨-, -, hsame⟩ := stdinHangup_parts hp hc hg
      rw [hsame hr]
      exact hr.hangUp hc (scripts_of_client hg)
    | none =>
      rw [stdinHangup_none hc hg] at hrecord ⊢
      have hstep := (strayStdin_reaches hp hc hg).step hr
      exact hr.step hstep (hstep.fresh hrecord)

/-! ## Runs -/

/-- No number that was polled has been handed out. -/
def World.NumbersFree (w : World) : Prop := ∀ f, .opened f true ∉ w.trace

theorem AnyMove.numbersFree {files : FileSystem} {v v' : View} (h : AnyMove files v v')
    (hs : v.2.Sound) (hi : v.2.registry.Idle) (hn : v'.2.NumbersFree) : v.2.NumbersFree := by
  obtain ⟨-, es, hes⟩ := h.keeps hs hi
  intro f hmem
  have hrecord : .opened f true ∈ v'.2.registry.record := by
    rw [hes.record]
    exact List.mem_append_left _ (List.mem_filter.mpr ⟨hmem, rfl⟩)
  exact hn f (List.mem_filter.mp hrecord).1

theorem Reachable.wakeful {s : LoopState} (h : Reachable s) (hn : s.world.NumbersFree) :
    s.world.registry.Registered ∧ ∀ c client, s.world.getClient c = some client → client.cgiActive = true →
      Awake s.world.entryOf c client := by
  have hinv := by
    refine h.invariant (I := fun v => v.2.registry.Idle ∧
      (v.2.NumbersFree → v.2.registry.Registered ∧ Wakeful v)) ?_ ?_
    · intro w hw
      obtain ⟨-, hnone, -, -⟩ := hw.start
      refine ⟨hw.exact.registered.idle, fun _ => ⟨hw.exact.registered, ?_, ?_⟩⟩
      · intro c client hg
        rw [hnone] at hg
        cases hg
      · intro c hs
        rw [hnone] at hs
        cases hs
    · intro files v v' hs hI hm
      refine ⟨(hm.keeps hs hI.1).1, ?_⟩
      intro hn'
      obtain ⟨hr, hw⟩ := hI.2 (hm.numbersFree hs hI.1 hn')
      exact ⟨hm.registered hs hr hn', hm.wakeful hs hr hw hn'⟩
  have hview := s.view_world
  obtain ⟨⟨-, hall⟩, -⟩ := hinv
  rw [hview] at hall
  obtain ⟨hr, hw⟩ := hall hn
  have hawake := hw.awake
  rw [hview] at hawake
  exact ⟨hr, hawake⟩

/-- Whatever holds up the script of the connection `c`, or its client, will be seen to. -/
structure World.Attends (w : World) (c : Fd) (client : Client) : Prop where
  output : 0 < client.cgiSendPending.size → ∃ p ∈ w.pollFds, p.fd = c ∧ p.events.pollout = true
  script : ∀ p ∈ w.pollFds, client.cgiStdoutFd = some p.fd → p.events.pollin = false →
    cgiBackpressureLimit ≤ client.cgiSendPending.size
  input : ∀ fd, client.cgiStdinFd = some fd → 0 < client.cgiStdinPending.size →
    w.cgiStdinFdToClientFd[fd]? = some c ∧ ∃ p ∈ w.pollFds, p.fd = fd ∧ p.events.pollout = true
  body : ∀ p ∈ w.pollFds, p.fd = c → p.events.pollin = false →
    cgiBackpressureLimit ≤ client.cgiStdinPending.size ∨ client.cgiStdinFd = none
  ended : client.cgiStdinEof = true → client.cgiStdinFd ≠ none → 0 < client.cgiStdinPending.size

/-- In a run where no number is handed out that is polled, no wakeup is lost. -/
theorem wakeups_kept {s : LoopState} (h : Reachable s) (hn : s.world.NumbersFree) {c : Fd} {client : Client}
    (hg : s.world.getClient c = some client) (ha : client.cgiActive = true) : s.world.Attends c client := by
  obtain ⟨hr, hall⟩ := h.wakeful hn
  have hawake := hall c client hg ha
  have hnodup : s.world.fds.Nodup := hr.nodup
  have hentry {f : Fd} (hroles : s.world.registry.roles f ≠ 0) : ∃ p ∈ s.world.pollFds, p.fd = f ∧
      s.world.entryOf f = some p := by
    obtain ⟨p, hp, rfl⟩ := List.mem_map.mp (hr.mem_polled hroles)
    exact ⟨p, hp, rfl, entryOf_of_mem hnodup hp⟩
  refine ⟨?_, ?_, ?_, ?_, hawake.ended⟩
  · intro hpos
    obtain ⟨p, hp, hfd, he⟩ := hentry (f := c) (by simp [Registry.roles, scripts_of_client hg])
    exact ⟨p, hp, hfd, hawake.output hpos p he⟩
  · intro p hp hout
    exact hawake.script p.fd hout p (entryOf_of_mem hnodup hp)
  · intro fd hin hpos
    have hown := hr.in_of fd c (by simp [Registry.stdin, scripts_of_client hg, Client.script, hin])
    obtain ⟨p, hp, hfd, he⟩ := hentry (f := fd) (by simp [Registry.roles, hown])
    exact ⟨hown, p, hp, hfd, hawake.input hpos fd hin p he⟩
  · rintro p hp rfl
    exact hawake.body p (entryOf_of_mem hnodup hp)

/-- A client sends the front of a body, and the script reads none of it. -/
def delays : List Answers :=
  connects ++ sends 4 (ascii "POST /a.py HTTP/1.1\r\nContent-Length: 5\r\n\r\nhi")

theorem wakeups_kept_delays : ∃ client, (scriptStart.run delays).world.getClient 4 = some client ∧
    client.cgiStdinPending.size = 2 ∧ (scriptStart.run delays).world.Attends 4 client := by
  have hclient : ((scriptStart.run delays).world.getClient 4).map (fun client =>
      (client.cgiStdinPending.size, client.cgiActive)) = some (2, true) := by decide +kernel
  have hall : (scriptStart.run delays).world.trace.all
      (fun e => match e with | .opened _ polled => !polled | _ => true) = true := by decide +kernel
  obtain ⟨client, hg, hparts⟩ := Option.map_eq_some_iff.mp hclient
  obtain ⟨hsize, ha⟩ := Prod.mk.inj hparts
  have hn : (scriptStart.run delays).world.NumbersFree := by
    intro f hmem
    have hfalse := List.all_eq_true.mp hall _ hmem
    cases hfalse
  exact ⟨client, hg, hsize, wakeups_kept (scriptStart_reachable delays) hn hg ha⟩

end WebServ
