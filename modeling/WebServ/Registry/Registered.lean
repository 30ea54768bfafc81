import WebServ.Registry.Tables

/-! # What the steps of the tables keep

A descriptor that is polled has one owner whatever the steps are. When no pipe is
closed behind the tables, what is polled is open, and what is registered is held.
-/
namespace WebServ.Registry
variable (r : Registry)

/-- Who runs no script holds nothing of one. -/
def Idle (r : Registry) : Prop := ∀ c p, r.scripts c = some p → p.active = false → p = {}

theorem Idle.setScript {r : Registry} (h : r.Idle) {c : Fd} {p : Script} (hp : p.active = false → p = {}) :
    (r.setScript c (some p)).Idle := by
  intro d q hd hq
  rw [(setScript_tables r c _).2.2.2.2.2.1] at hd
  split at hd
  · obtain rfl : p = q := Option.some.inj hd
    exact hp hq
  · exact h d q hd hq

theorem Idle.noInput {r : Registry} (h : r.Idle) {c : Fd} {p : Script} (hc : r.scripts c = some p)
    (ha : p.active = false) : { p with stdin := none } = ({} : Script) := by
  rw [h c p hc ha]

theorem Idle.of_scripts {r r' : Registry} (h : r.Idle) (hs : r'.scripts = r.scripts) : r'.Idle := by
  unfold Idle
  rw [hs]
  exact h

theorem Idle.step {r r' : Registry} {early : Bool} (h : r.Idle) (hstep : Step early r r') : r'.Idle := by
  cases hstep with
  | same => exact h
  | leaked hm => exact h
  | @accepted _ f es hm =>
    have hset : ((r.opens [f] es).setScript f (some ((r.scripts f).getD {}))).Idle := by
      refine Idle.setScript h ?_
      cases hp : r.scripts f with
      | none => exact fun _ => rfl
      | some p => exact h f p hp
    exact hset
  | @started _ c i o pid es p hc ha hm =>
    have hset := Idle.setScript (r := r.opens [i, o] es) (c := c) (p := ⟨some i, some o, some pid, true⟩) h nofun
    exact hset.of_scripts rfl
  | @startedWhole _ c o pid es p hc ha hm =>
    have hset := Idle.setScript (r := r.opens [o] es) (c := c) (p := ⟨none, some o, some pid, true⟩) h nofun
    exact hset.of_scripts rfl
  | inputClosed hc hf => exact (h.of_scripts (by simp)).setScript (fun ha => h.noInput hc ha)
  | inputReleased hf hc hn => exact h
  | strayed hf hc => exact h.of_scripts (by simp)
  | otherClosed hf hc hn => exact (h.of_scripts (by simp)).setScript (fun ha => h.noInput hc ha)
  | inputEnded hc hf => exact Idle.setScript (r := r.closes _) h (fun ha => h.noInput hc ha)
  | outputEnded hc hf => exact (h.of_scripts (by simp)).setScript (fun _ => rfl)
  | @removed _ c p reaped hc =>
    intro d q hd hq
    simp only [unpoll_tables, setScript_tables, closes_tables, waits_tables, dropIn_tables, dropOut_tables] at hd
    split at hd
    · cases hd
    · exact h d q hd hq
  | unknownRemoved hp hf => exact h

theorem Idle.hangUp {r : Registry} (h : r.Idle) {c f : Fd} {p : Script} (hc : r.scripts c = some p) :
    (r.hangUp c f p).Idle := (h.of_scripts (by simp)).setScript (fun ha => h.noInput hc ha)

/-- Every descriptor in the tables is polled once, and has one owner. -/
structure Registered (r : Registry) : Prop where
  balanced : r.Balanced
  out_iff : ∀ f c, r.outOf f = some c ↔ r.stdout c = some f
  in_of : ∀ f c, r.stdin c = some f → r.inOf f = some c
  idle : r.Idle

/-- New descriptors are not polled under their numbers. -/
def Fresh (r r' : Registry) : Prop := ∀ f ∈ r'.opened, f ∉ r.opened → f ∉ r.polled

theorem Registered.roles_eq_zero {r : Registry} (h : r.Registered) {f : Fd} (hf : f ∉ r.polled) :
    r.roles f = 0 := by
  rw [← (h.balanced f).1]
  exact List.count_eq_zero_of_not_mem hf

theorem Registered.nodup {r : Registry} (h : r.Registered) : r.polled.Nodup := by
  rw [List.nodup_iff_count_le_one]
  intro f
  rw [(h.balanced f).1]
  exact (h.balanced f).2

theorem Registered.mem_polled {r : Registry} (h : r.Registered) {f : Fd} (hf : r.roles f ≠ 0) : f ∈ r.polled := by
  by_contra hp
  exact hf (h.roles_eq_zero hp)

theorem Registered.roles_ne_zero {r : Registry} (h : r.Registered) {f : Fd} (hp : f ∈ r.polled) : r.roles f ≠ 0 := by
  rw [← (h.balanced f).1]
  exact (List.count_pos_iff.mpr hp).ne'

/-- One table has a descriptor. -/
theorem Registered.client_only {r : Registry} (h : r.Registered) {c : Fd} (hc : (r.scripts c).isSome) :
    r.outOf c = none ∧ r.inOf c = none := by
  have hle := (h.balanced c).2
  simp only [roles, hc, Bool.toNat_true] at hle
  refine ⟨?_, ?_⟩ <;>
  · rw [← Option.not_isSome_iff_eq_none]
    intro hs
    simp only [hs, Bool.toNat_true] at hle
    omega

theorem Registered.out_only {r : Registry} (h : r.Registered) {f : Fd} (hf : (r.outOf f).isSome) :
    r.inOf f = none := by
  have hle := (h.balanced f).2
  simp only [roles, hf, Bool.toNat_true] at hle
  rw [← Option.not_isSome_iff_eq_none]
  intro hs
  simp only [hs, Bool.toNat_true] at hle
  omega

/-! ## What each step keeps -/

section
variable {r} {c f : Fd} {p : Script}

theorem Registered.accepted (h : r.Registered) {es : List Event} (hm : PipeEvents r.opened r.polled [f] none es)
    (hf : f ∉ r.polled) : (((r.opens [f] es).setScript f (some ((r.scripts f).getD {}))).poll f).Registered := by
  have hidle := h.idle.step (.accepted hm)
  have hz := h.roles_eq_zero hf
  obtain ⟨-, hp, -, -⟩ := empty_of_roles hz
  rw [hp] at hidle ⊢
  refine ⟨?_, ?_, ?_, hidle⟩
  · exact Balanced.poll (r := r.opens [f] es) h.balanced hz rfl (roles_setScript_some (r := r.opens [f] es) hp)
  · have hout : r.stdout f = none := by simp [stdout, hp]
    have := h.out_iff
    simp
    grind
  · have := h.in_of
    simp
    grind

theorem Registered.started (h : r.Registered) {i o : Fd} {pid : ℕ} {es : List Event} (hc : r.scripts c = some p)
    (ha : p.active = false) (hm : PipeEvents r.opened r.polled [i, o] (some pid) es) (hi : i ∉ r.polled)
    (ho : o ∉ r.polled) : (((((r.opens [i, o] es).setScript c (some ⟨some i, some o, some pid, true⟩)).setOut o
      (some c)).poll o).setIn i (some c) |>.poll i).Registered := by
  have hidle := h.idle.step (.started hc ha hm)
  obtain rfl := h.idle c p hc ha
  have hiz := h.roles_eq_zero hi
  have hoz := h.roles_eq_zero ho
  have hio : i ≠ o := by simpa using hm.nodup
  obtain ⟨-, -, -, hin⟩ := empty_of_roles hiz
  obtain ⟨-, -, hout, -⟩ := empty_of_roles hoz
  have hcout : r.stdout c = none := by simp [stdout, hc]
  have hcin : r.stdin c = none := by simp [stdin, hc]
  refine ⟨?_, ?_, ?_, hidle⟩
  · have hroles := roles_setScript (r := r.opens [i, o] es) (f := c) (p := ⟨some i, some o, some pid, true⟩)
      (by simp [hc])
    have h1 : ((r.opens [i, o] es).setScript c (some ⟨some i, some o, some pid, true⟩)).Balanced :=
      Balanced.of_eq (r := r.opens [i, o] es) h.balanced rfl hroles
    have h2 := h1.registerOut ((hroles o).trans hoz) c
    have hi2 := roles_setOut_some (c := c) (empty_of_roles ((hroles o).trans hoz)).2.2.1 i
    rw [hroles i, if_neg hio] at hi2
    exact h2.registerIn (hi2.trans hiz) c
  · have := h.out_iff
    simp only [poll_tables, setIn_tables, setOut_tables, setScript_tables, opens_tables]
    grind
  · have := h.in_of
    simp only [poll_tables, setIn_tables, setOut_tables, setScript_tables, opens_tables]
    grind

theorem Registered.startedWhole (h : r.Registered) {o : Fd} {pid : ℕ} {es : List Event} (hc : r.scripts c = some p)
    (ha : p.active = false) (hm : PipeEvents r.opened r.polled [o] (some pid) es) (ho : o ∉ r.polled) :
    ((((r.opens [o] es).setScript c (some ⟨none, some o, some pid, true⟩)).setOut o (some c)).poll o).Registered := by
  have hidle := h.idle.step (.startedWhole hc ha hm)
  obtain rfl := h.idle c p hc ha
  have hoz := h.roles_eq_zero ho
  obtain ⟨-, -, hout, -⟩ := empty_of_roles hoz
  have hcout : r.stdout c = none := by simp [stdout, hc]
  refine ⟨?_, ?_, ?_, hidle⟩
  · have hroles := roles_setScript (r := r.opens [o] es) (f := c) (p := ⟨none, some o, some pid, true⟩)
      (by simp [hc])
    have h1 : ((r.opens [o] es).setScript c (some ⟨none, some o, some pid, true⟩)).Balanced :=
      Balanced.of_eq (r := r.opens [o] es) h.balanced rfl hroles
    exact h1.registerOut ((hroles o).trans hoz) c
  · have := h.out_iff
    simp only [poll_tables, setOut_tables, setScript_tables, opens_tables]
    grind
  · have := h.in_of
    simp only [poll_tables, setOut_tables, setScript_tables, opens_tables]
    grind

theorem Registered.inputClosed (h : r.Registered) (hc : r.scripts c = some p) (hf : p.stdin = some f) :
    ((r.dropIn (some f)).setScript c (some { p with stdin := none })).Registered := by
  have hin : r.inOf f = some c := h.in_of f c (by simp [stdin, hc, hf])
  have hout : r.stdout c = p.stdout := by simp [stdout, hc]
  refine ⟨?_, ?_, ?_, h.idle.step (.inputClosed hc hf)⟩
  · have hdrop := h.balanced.dropIn (o := some f) (by simp [hin])
    exact hdrop.of_eq rfl (roles_setScript (by simp [hc]))
  · have := h.out_iff
    simp only [setScript_tables, dropIn_tables]
    grind
  · have := h.in_of
    simp only [setScript_tables, dropIn_tables]
    grind

theorem Registered.inputReleased (h : r.Registered) (hf : r.inOf f = some c) (hc : r.scripts c = some p)
    (hn : p.stdin = none) : ((r.setIn f none).unpoll f).Registered := by
  have hin : r.stdin c = none := by simp [stdin, hc, hn]
  refine ⟨h.balanced.releaseIn (by simp [hf]), h.out_iff, ?_, h.idle⟩
  have := h.in_of
  simp only [unpoll_tables, setIn_tables]
  grind

theorem Registered.strayed (h : r.Registered) (hf : r.inOf f = some c) (hc : r.scripts c = none) :
    (r.dropIn (some f)).Registered := by
  have hin : r.stdin c = none := by simp [stdin, hc]
  refine ⟨h.balanced.dropIn (by simp [hf]), ?_, ?_, h.idle.step (.strayed hf hc)⟩
  · have := h.out_iff
    simp only [dropIn_tables]
    grind
  · have := h.in_of
    simp only [dropIn_tables]
    grind

theorem Registered.otherClosed (h : r.Registered) (hf : r.inOf f = some c) (hc : r.scripts c = some p)
    (hn : p.stdin ≠ some f) :
    (((r.setIn f none).unpoll f).closesAny p.stdin |>.setScript c (some { p with stdin := none })).Registered := by
  have hout : r.stdout c = p.stdout := by simp [stdout, hc]
  refine ⟨?_, ?_, ?_, h.idle.step (.otherClosed hf hc hn)⟩
  · have hdrop := (h.balanced.releaseIn (f := f) (by simp [hf])).closesAny p.stdin
    exact hdrop.of_eq rfl (roles_setScript (by simp [hc]))
  · have := h.out_iff
    simp only [setScript_tables, closesAny_tables, unpoll_tables, setIn_tables]
    grind
  · have := h.in_of
    simp only [setScript_tables, closesAny_tables, unpoll_tables, setIn_tables]
    grind

theorem Registered.inputEnded (h : r.Registered) (hc : r.scripts c = some p) (hf : p.stdin = some f) :
    ((r.closes f).setScript c (some { p with stdin := none })).Registered := by
  have hout : r.stdout c = p.stdout := by simp [stdout, hc]
  refine ⟨?_, ?_, ?_, h.idle.step (.inputEnded hc hf)⟩
  · exact (h.balanced.closes f).of_eq rfl (roles_setScript (by simp [hc]))
  · have := h.out_iff
    simp only [setScript_tables, closes_tables]
    grind
  · have := h.in_of
    simp only [setScript_tables, closes_tables]
    grind

theorem Registered.outputEnded (h : r.Registered) {reaped : Bool} (hc : r.scripts c = some p)
    (hf : p.stdout = some f) :
    ((((r.dropOut (some f)).closesAny p.stdin).waits p.child reaped).setScript c (some {})).Registered := by
  have hout : r.stdout c = some f := by simp [stdout, hc, hf]
  have hown : r.outOf f = some c := (h.out_iff f c).mpr hout
  refine ⟨?_, ?_, ?_, h.idle.step (.outputEnded hc hf)⟩
  · have hdrop := ((h.balanced.dropOut (o := some f) (by simp [hown])).closesAny p.stdin).waits p.child reaped
    exact hdrop.of_eq rfl (roles_setScript (by simp [hc]))
  · have := h.out_iff
    simp only [setScript_tables, waits_tables, closesAny_tables, dropOut_tables]
    grind
  · have := h.in_of
    simp only [setScript_tables, waits_tables, closesAny_tables, dropOut_tables]
    grind

theorem Registered.removed (h : r.Registered) {reaped : Bool} (hc : r.scripts c = some p) :
    (((((r.dropOut p.stdout).dropIn p.stdin).waits p.child reaped).closes c).setScript c none
      |>.unpoll c).Registered := by
  have hout : r.stdout c = p.stdout := by simp [stdout, hc]
  have hin : r.stdin c = p.stdin := by simp [stdin, hc]
  have hdrop : ((((r.dropOut p.stdout).dropIn p.stdin).waits p.child reaped).closes c).Balanced := by
    refine (((h.balanced.dropOut ?_).dropIn ?_).waits p.child reaped).closes c
    · intro f hf
      rw [(h.out_iff f c).mpr (hout.trans hf)]
      rfl
    · intro f hf
      simp only [dropOut_tables]
      rw [h.in_of f c (hin.trans hf)]
      rfl
  refine ⟨?_, ?_, ?_, h.idle.step (.removed hc)⟩
  · exact hdrop.unpoll rfl (roles_setScript_none (by simp [hc]))
  · have := h.out_iff
    have hone : ∀ g d, r.stdout d = some g → p.stdout = some g → d = c := by
      intro g d hd hg
      have hgd := (h.out_iff g d).mpr hd
      rw [(h.out_iff g c).mpr (hout.trans hg)] at hgd
      exact (Option.some.inj hgd).symm
    simp only [unpoll_tables, setScript_tables, closes_tables, waits_tables, dropIn_tables, dropOut_tables]
    grind
  · have := h.in_of
    simp only [unpoll_tables, setScript_tables, closes_tables, waits_tables, dropIn_tables, dropOut_tables]
    grind

end

theorem Registered.step {r r' : Registry} {early : Bool} (h : r.Registered) (hstep : Step early r r')
    (hnew : Fresh r r') : r'.Registered := by
  cases hstep with
  | same => exact h
  | leaked hm => exact ⟨h.balanced, h.out_iff, h.in_of, h.idle⟩
  | @accepted _ f es hm => exact h.accepted hm (hnew f (by simp [opens]) (hm.fresh f (by simp)).1)
  | @started _ c i o pid es p hc ha hm =>
    have hi := hnew i (by simp [opens]) (hm.fresh i (by simp)).1
    have ho := hnew o (by simp [opens]) (hm.fresh o (by simp)).1
    exact h.started hc ha hm hi ho
  | @startedWhole _ c o pid es p hc ha hm =>
    exact h.startedWhole hc ha hm (hnew o (by simp [opens]) (hm.fresh o (by simp)).1)
  | inputClosed hc hf => exact h.inputClosed hc hf
  | inputReleased hf hc hn => exact h.inputReleased hf hc hn
  | strayed hf hc => exact h.strayed hf hc
  | otherClosed hf hc hn => exact h.otherClosed hf hc hn
  | inputEnded hc hf => exact h.inputEnded hc hf
  | outputEnded hc hf => exact h.outputEnded hc hf
  | removed hc => exact h.removed hc
  | unknownRemoved hp hf => exact absurd hf (h.roles_ne_zero hp)

theorem Registered.hangUp {r : Registry} (h : r.Registered) {c f : Fd} {p : Script} (hf : r.inOf f = some c)
    (hc : r.scripts c = some p) : (r.hangUp c f p).Registered := by
  have hout : r.stdout c = p.stdout := by simp [stdout, hc]
  unfold Registry.hangUp
  refine ⟨?_, ?_, ?_, h.idle.hangUp hc⟩
  · have hdrop := (h.balanced.dropIn (o := some f) (by simp [hf])).closesAny p.stdin
    exact hdrop.of_eq rfl (roles_setScript (by simp [hc]))
  · have := h.out_iff
    simp only [setScript_tables, closesAny_tables, dropIn_tables]
    grind
  · have := h.in_of
    simp only [setScript_tables, closesAny_tables, dropIn_tables]
    grind

/-! ## What is polled is open -/

/-- What is polled is open; both are listed once. -/
structure Covered (r : Registry) : Prop where
  polled : r.polled.Nodup
  opened : r.opened.Nodup
  isOpen : ∀ f ∈ r.polled, f ∈ r.opened

section
variable {r} {f : Fd}

theorem Covered.of_eq {r' : Registry} (h : r.Covered) (hp : r'.polled = r.polled)
    (ho : r'.opened = r.opened) : r'.Covered := by
  obtain ⟨polled, opened, isOpen⟩ := h
  constructor
  · rwa [hp]
  · rwa [ho]
  · rwa [hp, ho]

theorem Covered.opens (h : r.Covered) {fds : List Fd} {child : Option ℕ} {es : List Event}
    (hm : PipeEvents r.opened r.polled fds child es) : (r.opens fds es).Covered where
  polled := h.polled
  opened := by
    refine List.Nodup.append h.opened hm.nodup ?_
    intro g hg hg'
    exact (hm.fresh g hg').1 hg
  isOpen g hg := List.mem_append_left _ (h.isOpen g hg)

theorem Covered.poll (h : r.Covered) (hf : f ∈ r.opened) (hp : f ∉ r.polled) : (r.poll f).Covered where
  polled := by
    refine List.Nodup.append h.polled (List.nodup_singleton f) ?_
    intro g hg hg'
    exact hp (List.mem_singleton.mp hg' ▸ hg)
  opened := h.opened
  isOpen g hg := by
    rcases List.mem_append.mp hg with hg | hg
    · exact h.isOpen g hg
    · exact List.mem_singleton.mp hg ▸ hf

theorem Covered.closes (h : r.Covered) (hf : f ∉ r.polled) : (r.closes f).Covered where
  polled := h.polled
  opened := h.opened.erase f
  isOpen g hg := (List.mem_erase_of_ne (ne_of_mem_of_not_mem hg hf)).mpr (h.isOpen g hg)

theorem Covered.drop (h : r.Covered) (f : Fd) : ((r.unpoll f).closes f).Covered where
  polled := h.polled.erase f
  opened := h.opened.erase f
  isOpen g hg := by
    obtain ⟨hne, hmem⟩ := h.polled.mem_erase_iff.mp hg
    exact (List.mem_erase_of_ne hne).mpr (h.isOpen g hmem)

theorem Covered.dropOut (h : r.Covered) (o : Option Fd) : (r.dropOut o).Covered := by
  cases o with
  | none => exact h
  | some f => exact ⟨(h.drop f).polled, (h.drop f).opened, (h.drop f).isOpen⟩

theorem Covered.dropIn (h : r.Covered) (o : Option Fd) : (r.dropIn o).Covered := by
  cases o with
  | none => exact h
  | some f => exact ⟨(h.drop f).polled, (h.drop f).opened, (h.drop f).isOpen⟩

end

/-- The tables agree with the clients, and with what is open. -/
structure Exact (r : Registry) : Prop where
  registered : r.Registered
  covered : r.Covered
  in_iff : ∀ f c, r.inOf f = some c ↔ r.stdin c = some f

theorem Exact.fresh {r r' : Registry} (h : r.Exact) : Fresh r r' :=
  fun f _ hf hp => hf (h.covered.isOpen f hp)

/-- The client whose pipe is registered still holds it. -/
theorem Exact.stdin_of {r : Registry} (h : r.Exact) {c f : Fd} {p : Script} (hf : r.inOf f = some c)
    (hc : r.scripts c = some p) : p.stdin = some f := by
  have hin := (h.in_iff f c).mp hf
  simpa [stdin, hc] using hin

/-- A script's pipe is the pipe of one client. -/
theorem Exact.stdin_inj {r : Registry} (h : r.Exact) {c d f : Fd} (hc : r.stdin c = some f)
    (hd : r.stdin d = some f) : d = c := by
  have hcd := (h.in_iff f d).mpr hd
  rw [(h.in_iff f c).mpr hc] at hcd
  exact (Option.some.inj hcd).symm

theorem Exact.not_polled {r : Registry} (h : r.Exact) {fds : List Fd} {child : Option ℕ} {es : List Event}
    (hm : PipeEvents r.opened r.polled fds child es) {f : Fd} (hf : f ∈ fds) : f ∉ r.polled :=
  fun hp => (hm.fresh f hf).1 (h.covered.isOpen f hp)

/-- What is left of the steps while the tables are exact: no pipe is released that its client
does not hold, and the output of a script ends after its input. -/
inductive CleanStep (r : Registry) : Registry → Prop
  | same : CleanStep r r
  | accepted {f : Fd} {es : List Event} (hm : PipeEvents r.opened r.polled [f] none es) :
      CleanStep r (((r.opens [f] es).setScript f (some ((r.scripts f).getD {}))).poll f)
  | leaked {fds : List Fd} {es : List Event} (hm : PipeEvents r.opened r.polled fds none es) :
      CleanStep r (r.opens fds es)
  | started {c i o : Fd} {pid : ℕ} {es : List Event} {p : Script} (hc : r.scripts c = some p)
      (ha : p.active = false) (hm : PipeEvents r.opened r.polled [i, o] (some pid) es) :
      CleanStep r (((((r.opens [i, o] es).setScript c (some ⟨some i, some o, some pid, true⟩)).setOut o
        (some c)).poll o).setIn i (some c) |>.poll i)
  | startedWhole {c o : Fd} {pid : ℕ} {es : List Event} {p : Script} (hc : r.scripts c = some p)
      (ha : p.active = false) (hm : PipeEvents r.opened r.polled [o] (some pid) es) :
      CleanStep r ((((r.opens [o] es).setScript c (some ⟨none, some o, some pid, true⟩)).setOut o (some c)).poll o)
  | inputClosed {c f : Fd} {p : Script} (hc : r.scripts c = some p) (hf : p.stdin = some f) :
      CleanStep r ((r.dropIn (some f)).setScript c (some { p with stdin := none }))
  | outputEnded {c f : Fd} {p : Script} {reaped : Bool} (hc : r.scripts c = some p) (hf : p.stdout = some f)
      (hn : p.stdin = none) : CleanStep r (((r.dropOut (some f)).waits p.child reaped).setScript c (some {}))
  | removed {c : Fd} {p : Script} {reaped : Bool} (hc : r.scripts c = some p) : CleanStep r
      (((((r.dropOut p.stdout).dropIn p.stdin).waits p.child reaped).closes c).setScript c none |>.unpoll c)

theorem Exact.clean {r r' : Registry} (h : r.Exact) (hstep : Step false r r') : CleanStep r r' := by
  generalize hearly : false = early at hstep
  cases hstep with
  | same => exact .same
  | leaked hm => exact .leaked hm
  | accepted hm => exact .accepted hm
  | started hc ha hm => exact .started hc ha hm
  | startedWhole hc ha hm => exact .startedWhole hc ha hm
  | inputClosed hc hf => exact .inputClosed hc hf
  | inputReleased hf hc hn =>
    rw [h.stdin_of hf hc] at hn
    cases hn
  | @strayed _ c f hf hc =>
    have hown := (h.in_iff f c).mp hf
    simp [stdin, hc] at hown
  | otherClosed hf hc hn => exact absurd (h.stdin_of hf hc) hn
  | inputEnded => cases hearly
  | @outputEnded _ c f p reaped hc hf =>
    have hnone : p.stdin = none := Option.not_isSome_iff_eq_none.mp (by rw [← hearly]; decide)
    rw [hnone]
    exact .outputEnded hc hf hnone
  | removed hc => exact .removed hc
  | unknownRemoved hp hf => exact absurd hf (h.registered.roles_ne_zero hp)

theorem CleanStep.covered {r r' : Registry} (h : r.Exact) (hstep : CleanStep r r') : r'.Covered := by
  have hcov := h.covered
  cases hstep with
  | same => exact hcov
  | leaked hm => exact hcov.opens hm
  | @accepted f es hm =>
    have hf := h.not_polled hm (f := f) (by simp)
    exact ((hcov.opens hm).poll (by simp [opens]) hf).of_eq rfl rfl
  | @started c i o pid es p hc ha hm =>
    have hi := h.not_polled hm (f := i) (by simp)
    have ho := h.not_polled hm (f := o) (by simp)
    have hio : i ≠ o := by simpa using hm.nodup
    have hout := (hcov.opens hm).poll (f := o) (by simp [opens]) ho
    have hin := hout.poll (f := i) (by simp [opens, poll]) (by simp [opens, poll, records, hi, hio])
    exact hin.of_eq rfl rfl
  | @startedWhole c o pid es p hc ha hm =>
    have ho := h.not_polled hm (f := o) (by simp)
    exact ((hcov.opens hm).poll (by simp [opens]) ho).of_eq rfl rfl
  | @inputClosed c f p hc hf => exact (hcov.dropIn (some f)).of_eq rfl rfl
  | @outputEnded c f p reaped hc hf hn => exact (hcov.dropOut (some f)).of_eq rfl rfl
  | @removed c p reaped hc => exact (((hcov.dropOut p.stdout).dropIn p.stdin).drop c).of_eq rfl rfl

theorem CleanStep.in_iff {r r' : Registry} (h : r.Exact) (hstep : CleanStep r r') (f c : Fd) :
    r'.inOf f = some c ↔ r'.stdin c = some f := by
  have hin := h.in_iff
  revert f c
  cases hstep with
  | same => exact hin
  | leaked hm => exact hin
  | @accepted f es hm =>
    obtain ⟨-, hp, -, -⟩ := empty_of_roles (h.registered.roles_eq_zero (h.not_polled hm (f := f) (by simp)))
    have hnone : r.stdin f = none := by simp [stdin, hp]
    simp [hp]
    grind
  | @started c i o pid es p hc ha hm =>
    obtain rfl := h.registered.idle c p hc ha
    obtain ⟨-, -, -, hfree⟩ := empty_of_roles (h.registered.roles_eq_zero (h.not_polled hm (f := i) (by simp)))
    have hnone : r.stdin c = none := by simp [stdin, hc]
    simp only [poll_tables, setIn_tables, setOut_tables, setScript_tables, opens_tables]
    grind
  | @startedWhole c o pid es p hc ha hm =>
    obtain rfl := h.registered.idle c p hc ha
    have hnone : r.stdin c = none := by simp [stdin, hc]
    simp only [poll_tables, setOut_tables, setScript_tables, opens_tables]
    grind
  | @inputClosed c f p hc hf =>
    have hown : r.stdin c = some f := by simp [stdin, hc, hf]
    have hone := fun d => h.stdin_inj (d := d) hown
    simp only [setScript_tables, dropIn_tables]
    grind
  | @outputEnded c f p reaped hc hf hn =>
    have hown : r.stdin c = none := by simp [stdin, hc, hn]
    simp only [setScript_tables, waits_tables, dropOut_tables]
    grind
  | @removed c p reaped hc =>
    have hown : r.stdin c = p.stdin := by simp [stdin, hc]
    have hone := fun f d => h.stdin_inj (c := c) (d := d) (f := f)
    simp only [unpoll_tables, setScript_tables, closes_tables, waits_tables, dropIn_tables, dropOut_tables]
    grind

/-- Nothing is closed behind the tables as long as no step is early. -/
theorem Exact.step {r r' : Registry} (h : r.Exact) (hstep : Step false r r') : r'.Exact where
  registered := h.registered.step hstep h.fresh
  covered := (h.clean hstep).covered h
  in_iff := (h.clean hstep).in_iff h

/-- The second close of a broken pipe finds it closed. -/
theorem Exact.hangUp {r : Registry} (h : r.Exact) {c f : Fd} {p : Script} (hf : r.inOf f = some c)
    (hc : r.scripts c = some p) : (r.hangUp c f p).Exact := by
  have hown := (h.in_iff f c).mp hf
  refine ⟨h.registered.hangUp hf hc, ?_, ?_⟩
  · have hgone : f ∉ (r.dropIn (some f)).polled := by
      intro hmem
      exact (h.covered.polled.mem_erase_iff.mp hmem).1 rfl
    have hclosed := (h.covered.dropIn (some f)).closes hgone
    unfold Registry.hangUp
    rw [h.stdin_of hf hc]
    exact hclosed.of_eq rfl rfl
  · have hin := h.in_iff
    have hone := fun d => h.stdin_inj (d := d) hown
    unfold Registry.hangUp
    simp only [setScript_tables, closesAny_tables, dropIn_tables]
    grind

end WebServ.Registry
