import WebServ.Registry.Registered

/-! # What the steps of the tables record

The descriptors that are opened and closed on the way, and the children that are
started and waited for.
-/
namespace WebServ.Registry
variable (r : Registry)

/-! ## What is closed -/

/-- The number of a connection, or a pipe of its script. -/
def Belongs (c f : Fd) : Prop := (c = f ∧ (r.scripts c).isSome) ∨ r.stdin c = some f ∨ r.stdout c = some f

/-- Whom a descriptor belongs to stands in one of the tables. -/
theorem Exact.belongs_iff {r : Registry} (h : r.Exact) {c f : Fd} : r.Belongs c f ↔
    (c = f ∧ (r.scripts f).isSome) ∨ r.inOf f = some c ∨ r.outOf f = some c := by
  unfold Belongs
  rw [← h.in_iff, ← h.registered.out_iff]
  refine or_congr_left ⟨?_, ?_⟩ <;>
  · rintro ⟨rfl, hc⟩
    exact ⟨rfl, hc⟩

theorem Exact.belongs_open {r : Registry} (h : r.Exact) {c f : Fd} (hb : r.Belongs c f) : f ∈ r.opened := by
  refine h.covered.isOpen f (h.registered.mem_polled ?_)
  rcases h.belongs_iff.mp hb with ⟨rfl, hc⟩ | hin | hout
  · simp [roles, hc]
  · simp [roles, hin]
  · simp [roles, hout]

theorem Exact.belongs_inj {r : Registry} (h : r.Exact) {c d f : Fd} (hc : r.Belongs c f) (hd : r.Belongs d f) :
    c = d := by
  have hclient := h.registered.client_only (c := f)
  have hout := h.registered.out_only (f := f)
  rw [h.belongs_iff] at hc hd
  grind

/-- What was closed on the way was open, and was the number or a pipe of a connection
unless it was new. -/
structure Releases (r r' : Registry) (es : List Event) : Prop where
  record : r'.record = r.record ++ es
  closed : ∀ f b, .closed f b ∈ es → b = true ∧ (f ∉ r.opened ∨ ∃ c, r.Belongs c f)
  opened : ∀ f ∈ r.opened, f ∈ r'.opened ∨ ∃ b, .closed f b ∈ es
  belongs : ∀ c f, r'.Belongs c f → (∃ d, r.Belongs d f) ∨ f ∉ r.opened

theorem Releases.refl (r : Registry) : Releases r r [] where
  record := (List.append_nil _).symm
  closed := by simp
  opened f hf := Or.inl hf
  belongs c f hb := Or.inl ⟨c, hb⟩

theorem Releases.trans {r r' r'' : Registry} {es fs : List Event} (h : Releases r r' es)
    (h' : Releases r' r'' fs) : Releases r r'' (es ++ fs) := by
  -- what is new in between was closed before
  have hnew : ∀ f, f ∉ r'.opened → (∃ d, r.Belongs d f) ∨ f ∉ r.opened := by
    intro f hf
    by_cases ho : f ∈ r.opened
    · rcases h.opened f ho with hf' | ⟨b, hb⟩
      · exact absurd hf' hf
      · exact (h.closed f b hb).2.symm
    · exact Or.inr ho
  refine ⟨by rw [h'.record, h.record, List.append_assoc], ?_, ?_, ?_⟩
  · intro f b hb
    rcases List.mem_append.mp hb with hb | hb
    · exact h.closed f b hb
    · obtain ⟨htrue, hf | ⟨c, hc⟩⟩ := h'.closed f b hb
      · exact ⟨htrue, (hnew f hf).symm⟩
      · exact ⟨htrue, (h.belongs c f hc).symm⟩
  · intro f hf
    rcases h.opened f hf with hf' | ⟨b, hb⟩
    · rcases h'.opened f hf' with hf'' | ⟨b, hb⟩
      · exact Or.inl hf''
      · exact Or.inr ⟨b, List.mem_append_right _ hb⟩
    · exact Or.inr ⟨b, List.mem_append_left _ hb⟩
  · intro c f hb
    rcases h'.belongs c f hb with ⟨d, hd⟩ | hf
    · exact h.belongs d f hd
    · exact hnew f hf

section
variable {r : Registry}

theorem Releases.opens {fds : List Fd} {child : Option ℕ} {es : List Event}
    (hm : PipeEvents r.opened r.polled fds child es) {r' : Registry} (hr : r'.record = r.record ++ es)
    (ho : r'.opened = r.opened ++ fds) (hb : ∀ c f, r'.Belongs c f → (∃ d, r.Belongs d f) ∨ f ∉ r.opened) :
    Releases r r' es where
  record := hr
  closed f b hf := ⟨(hm.closed f b hf).1, Or.inl (hm.closed f b hf).2⟩
  opened f hf := Or.inl (by rw [ho]; exact List.mem_append_left _ hf)
  belongs := hb

theorem Releases.closes {c f : Fd} (hf : f ∈ r.opened) (hb : r.Belongs c f) :
    Releases r (r.closes f) [.closed f true] where
  record := by simp [hf]
  closed g b hg := by
    simp only [List.mem_singleton, Event.closed.injEq] at hg
    exact ⟨hg.2, Or.inr ⟨c, hg.1 ▸ hb⟩⟩
  opened g hg := by
    by_cases hgf : g = f
    · exact Or.inr ⟨true, by simp [hgf]⟩
    · exact Or.inl ((List.mem_erase_of_ne hgf).mpr hg)
  belongs d g hd := Or.inl ⟨d, hd⟩

theorem Releases.of_eq {r₁ r₂ r₃ : Registry} {es : List Event} (h : Releases r₁ r₂ es)
    (hr : r₃.record = r₂.record) (ho : r₃.opened = r₂.opened)
    (hb : ∀ c f, r₃.Belongs c f → ∃ d, r₂.Belongs d f) : Releases r₁ r₃ es where
  record := hr.trans h.record
  closed := h.closed
  opened f hf := by
    rw [ho]
    exact h.opened f hf
  belongs c f hf := by
    obtain ⟨d, hd⟩ := hb c f hf
    exact h.belongs d f hd

theorem Releases.closesAny {c : Fd} {o : Option Fd} (ho : ∀ f ∈ o, f ∈ r.opened ∧ r.Belongs c f) :
    ∃ es, Releases r (r.closesAny o) es := by
  cases o with
  | none => exact ⟨[], .refl r⟩
  | some f => exact ⟨_, .closes (ho f rfl).1 (ho f rfl).2⟩

theorem opened_closesAny (o : Option Fd) : (r.closesAny o).opened ⊆ r.opened := by
  cases o with
  | none => exact List.Subset.refl _
  | some f => exact List.erase_subset

theorem mem_opened_closesAny {f : Fd} (hf : f ∈ r.opened) {o : Option Fd} (ho : o ≠ some f) :
    f ∈ (r.closesAny o).opened := by
  cases o with
  | none => exact hf
  | some g => exact (List.mem_erase_of_ne (fun he => ho (by rw [he]))).mpr hf

theorem belongs_dropOut {o : Option Fd} {c f : Fd} : (r.dropOut o).Belongs c f ↔ r.Belongs c f := by
  simp [Belongs]

theorem Releases.dropOut {c : Fd} {o : Option Fd} (ho : ∀ f ∈ o, f ∈ r.opened ∧ r.Belongs c f) :
    ∃ es, Releases r (r.dropOut o) es := by
  obtain ⟨es, h⟩ := Releases.closesAny ho
  exact ⟨es, h.of_eq (by simp) (by simp) (fun d f hd => ⟨d, by simpa [Belongs] using hd⟩)⟩

theorem Releases.dropIn {c : Fd} {o : Option Fd} (ho : ∀ f ∈ o, f ∈ r.opened ∧ r.Belongs c f) :
    ∃ es, Releases r (r.dropIn o) es := by
  obtain ⟨es, h⟩ := Releases.closesAny ho
  exact ⟨es, h.of_eq (by simp) (by simp) (fun d f hd => ⟨d, by simpa [Belongs] using hd⟩)⟩

theorem Releases.waits (pid : Option ℕ) (reaped : Bool) : ∃ es, Releases r (r.waits pid reaped) es := by
  refine ⟨_, rfl, ?_, fun f hf => Or.inl hf, fun c f hb => Or.inl ⟨c, hb⟩⟩
  intro f b hf
  simp at hf

/-- The script of a connection loses pipes only. -/
theorem belongs_setScript {c : Fd} {p q : Script} (hc : r.scripts c = some p)
    (hin : ∀ f, q.stdin = some f → p.stdin = some f) (hout : ∀ f, q.stdout = some f → p.stdout = some f)
    {d f : Fd} (hd : (r.setScript c (some q)).Belongs d f) : r.Belongs d f := by
  unfold Belongs at hd ⊢
  simp only [setScript_tables] at hd
  by_cases hdc : d = c
  · subst hdc
    simp only [if_true, Option.bind_some, Option.isSome_some, and_true] at hd
    rcases hd with hd | hd | hd
    · exact Or.inl ⟨hd, by simp [hc]⟩
    · exact Or.inr (Or.inl (by simp [stdin, hc, hin f hd]))
    · exact Or.inr (Or.inr (by simp [stdout, hc, hout f hd]))
  · simpa only [hdc, if_false] using hd

end

/-- A client that is removed closes its pipes, which are two, and then its connection. -/
theorem Exact.releases_removed {r : Registry} (h : r.Exact) {c : Fd} {p : Script} (reaped : Bool)
    (hc : r.scripts c = some p) : ∃ es, Releases r
      ((((((r.dropOut p.stdout).dropIn p.stdin).waits p.child reaped).closes c).setScript c none).unpoll c) es := by
  have hbout : ∀ f ∈ p.stdout, r.Belongs c f := by
    intro f hf
    exact Or.inr (Or.inr (by simpa [stdout, hc] using hf))
  have hbin : ∀ f ∈ p.stdin, r.Belongs c f := by
    intro f hf
    exact Or.inr (Or.inl (by simpa [stdin, hc] using hf))
  have hbc : r.Belongs c c := Or.inl ⟨rfl, by simp [hc]⟩
  have hout : ∀ f, p.stdout = some f → (r.outOf f).isSome := by
    intro f hf
    rw [(h.registered.out_iff f c).mpr (by simp [stdout, hc, hf])]
    rfl
  have hin : ∀ f, p.stdin = some f → (r.inOf f).isSome := by
    intro f hf
    rw [h.registered.in_of f c (by simp [stdin, hc, hf])]
    rfl
  obtain ⟨hcout, hcin⟩ := h.registered.client_only (c := c) (by simp [hc])
  obtain ⟨es₁, h₁⟩ := Releases.dropOut (o := p.stdout) (c := c) (r := r)
    (fun f hf => ⟨h.belongs_open (hbout f hf), hbout f hf⟩)
  obtain ⟨es₂, h₂⟩ := Releases.dropIn (o := p.stdin) (c := c) (r := r.dropOut p.stdout) (by
    intro f hf
    refine ⟨?_, belongs_dropOut.mpr (hbin f hf)⟩
    rw [(dropOut_tables p.stdout).2.2.2.2.2.2.1]
    refine mem_opened_closesAny (h.belongs_open (hbin f hf)) ?_
    intro hfo
    have hnone := h.registered.out_only (hout f hfo)
    have hsome := hin f hf
    simp [hnone] at hsome)
  obtain ⟨es₃, h₃⟩ := Releases.waits (r := (r.dropOut p.stdout).dropIn p.stdin) p.child reaped
  have hcopen : c ∈ ((r.dropOut p.stdout).dropIn p.stdin).opened := by
    rw [(dropIn_tables p.stdin).2.2.2.2.2.2.1]
    refine mem_opened_closesAny ?_ ?_
    · rw [(dropOut_tables p.stdout).2.2.2.2.2.2.1]
      refine mem_opened_closesAny (h.belongs_open hbc) ?_
      intro hfo
      have hsome := hout c hfo
      simp [hcout] at hsome
    · intro hfi
      have hsome := hin c hfi
      simp [hcin] at hsome
  have h₄ := Releases.closes (r := ((r.dropOut p.stdout).dropIn p.stdin).waits p.child reaped) (c := c) hcopen
    (by simpa [Belongs] using hbc)
  refine ⟨_, (((h₁.trans h₂).trans h₃).trans h₄).of_eq rfl rfl ?_⟩
  intro d g hd
  refine ⟨d, ?_⟩
  simp only [Belongs, unpoll_tables, setScript_tables] at hd ⊢
  by_cases hdc : d = c
  · simp [hdc] at hd
  · simpa only [hdc, if_false] using hd

theorem CleanStep.releases {r r' : Registry} (h : r.Exact) (hstep : CleanStep r r') : ∃ es, Releases r r' es := by
  have hopen : ∀ {c f : Fd}, r.Belongs c f → f ∈ r.opened := h.belongs_open
  cases hstep with
  | same => exact ⟨[], .refl r⟩
  | leaked hm => exact ⟨_, .opens hm rfl rfl (fun c f hb => Or.inl ⟨c, hb⟩)⟩
  | @accepted f es hm =>
    obtain ⟨-, hp, -, -⟩ := empty_of_roles (h.registered.roles_eq_zero (h.not_polled hm (f := f) (by simp)))
    have hnew := (hm.fresh f (by simp)).1
    rw [hp]
    refine ⟨_, .opens hm rfl rfl ?_⟩
    intro c g hb
    simp only [Belongs, poll_tables, setScript_tables, opens_tables] at hb ⊢
    by_cases hc : c = f
    · subst hc
      simp at hb
      exact Or.inr (hb ▸ hnew)
    · exact Or.inl ⟨c, by simpa only [hc, if_false] using hb⟩
  | @started c i o pid es p hc ha hm =>
    have hi := (hm.fresh i (by simp)).1
    have ho := (hm.fresh o (by simp)).1
    refine ⟨_, .opens hm rfl rfl ?_⟩
    intro d g hb
    simp only [Belongs, poll_tables, setIn_tables, setOut_tables, setScript_tables, opens_tables] at hb ⊢
    by_cases hd : d = c
    · subst hd
      simp at hb
      rcases hb with rfl | rfl | rfl
      · exact Or.inl ⟨d, Or.inl ⟨rfl, by simp [hc]⟩⟩
      · exact Or.inr hi
      · exact Or.inr ho
    · exact Or.inl ⟨d, by simpa only [hd, if_false] using hb⟩
  | @startedWhole c o pid es p hc ha hm =>
    have ho := (hm.fresh o (by simp)).1
    refine ⟨_, .opens hm rfl rfl ?_⟩
    intro d g hb
    simp only [Belongs, poll_tables, setOut_tables, setScript_tables, opens_tables] at hb ⊢
    by_cases hd : d = c
    · subst hd
      simp at hb
      rcases hb with rfl | rfl
      · exact Or.inl ⟨d, Or.inl ⟨rfl, by simp [hc]⟩⟩
      · exact Or.inr ho
    · exact Or.inl ⟨d, by simpa only [hd, if_false] using hb⟩
  | @inputClosed c f p hc hf =>
    have hb : r.Belongs c f := Or.inr (Or.inl (by simp [stdin, hc, hf]))
    obtain ⟨es, hes⟩ := Releases.dropIn (o := some f) (c := c) (r := r) (by simpa using ⟨hopen hb, hb⟩)
    refine ⟨es, hes.of_eq (by simp) (by simp) ?_⟩
    intro d g hd
    exact ⟨d, belongs_setScript (p := p) (q := { p with stdin := none }) (by simpa using hc) (by simp) (by simp) hd⟩
  | @outputEnded c f p reaped hc hf hn =>
    have hb : r.Belongs c f := Or.inr (Or.inr (by simp [stdout, hc, hf]))
    obtain ⟨es, hes⟩ := Releases.dropOut (o := some f) (c := c) (r := r) (by simpa using ⟨hopen hb, hb⟩)
    obtain ⟨fs, hfs⟩ := Releases.waits (r := r.dropOut (some f)) p.child reaped
    refine ⟨es ++ fs, (hes.trans hfs).of_eq (by simp) (by simp) ?_⟩
    intro d g hd
    exact ⟨d, belongs_setScript (p := p) (by simpa using hc) (by simp) (by simp) hd⟩
  | removed hc => exact h.releases_removed _ hc

/-- As long as the tables are exact, a step closes what is open and belongs to a connection. -/
theorem Exact.releases {r r' : Registry} (h : r.Exact) (hstep : Step false r r') : ∃ es, Releases r r' es :=
  (h.clean hstep).releases h

/-! ## Children -/

/-- A child that a client no longer holds was waited for; one that was started is held. -/
structure Keeps (r r' : Registry) (es : List Event) : Prop where
  record : r'.record = r.record ++ es
  held : ∀ c pid, r.child c = some pid → r'.child c = some pid ∨ ∃ b, .waited pid b ∈ es
  forked : ∀ pid, .forked pid ∈ es → (∃ c, r'.child c = some pid) ∨ ∃ b, .waited pid b ∈ es

theorem Keeps.refl (r : Registry) : Keeps r r [] where
  record := (List.append_nil _).symm
  held c pid hc := Or.inl hc
  forked := by simp

theorem Keeps.trans {r r' r'' : Registry} {es fs : List Event} (h : Keeps r r' es) (h' : Keeps r' r'' fs) :
    Keeps r r'' (es ++ fs) := by
  have hleft : ∀ pid, (∃ b, Event.waited pid b ∈ es) → ∃ b, .waited pid b ∈ es ++ fs := by
    intro pid ⟨b, hb⟩
    exact ⟨b, List.mem_append_left _ hb⟩
  have hright : ∀ pid, (∃ b, Event.waited pid b ∈ fs) → ∃ b, .waited pid b ∈ es ++ fs := by
    intro pid ⟨b, hb⟩
    exact ⟨b, List.mem_append_right _ hb⟩
  refine ⟨by rw [h'.record, h.record, List.append_assoc], ?_, ?_⟩
  · intro c pid hc
    rcases h.held c pid hc with hc' | hw
    · exact (h'.held c pid hc').imp_right (hright pid)
    · exact Or.inr (hleft pid hw)
  · intro pid hf
    rcases List.mem_append.mp hf with hf | hf
    · rcases h.forked pid hf with ⟨c, hc⟩ | hw
      · rcases h'.held c pid hc with hc' | hw
        · exact Or.inl ⟨c, hc'⟩
        · exact Or.inr (hright pid hw)
      · exact Or.inr (hleft pid hw)
    · exact (h'.forked pid hf).imp_right (hright pid)

section
variable {r r' : Registry}

theorem Keeps.of_child {es : List Event} (hr : r'.record = r.record ++ es) (hc : r'.child = r.child)
    (hf : ∀ pid, .forked pid ∉ es) : Keeps r r' es where
  record := hr
  held c pid h := Or.inl (by rw [hc]; exact h)
  forked pid h := absurd h (hf pid)

theorem Keeps.closesAny (o : Option Fd) : ∃ es, Keeps r (r.closesAny o) es := by
  cases o with
  | none => exact ⟨[], .refl r⟩
  | some f => exact ⟨_, .of_child rfl rfl (by simp)⟩

theorem Keeps.dropOut (o : Option Fd) : ∃ es, Keeps r (r.dropOut o) es := by
  cases o with
  | none => exact ⟨[], .refl r⟩
  | some f => exact ⟨_, .of_child rfl rfl (by simp)⟩

theorem Keeps.dropIn (o : Option Fd) : ∃ es, Keeps r (r.dropIn o) es := by
  cases o with
  | none => exact ⟨[], .refl r⟩
  | some f => exact ⟨_, .of_child rfl rfl (by simp)⟩

/-- The script of a connection keeps its child. -/
theorem Keeps.setScript {c : Fd} {p q : Script} (hc : r.scripts c = some p) (hq : q.child = p.child) :
    Keeps r (r.setScript c (some q)) [] := by
  refine .of_child (by simp) ?_ (by simp)
  funext d
  by_cases hd : d = c
  · simp [hd, child, hc, hq]
  · simp [hd]

/-- A client drops its child when it was waited for. -/
theorem Keeps.waits {c : Fd} {p : Script} (reaped : Bool) (hc : r.scripts c = some p) {q : Option Script} :
    ∃ es, Keeps r ((r.waits p.child reaped).setScript c q) es := by
  refine ⟨p.child.toList.map (.waited · reaped), rfl, ?_, by simp⟩
  intro d pid hd
  by_cases hdc : d = c
  · right
    rw [hdc, child, hc, Option.bind_some] at hd
    exact ⟨reaped, by simp [hd]⟩
  · left
    simpa [hdc] using hd

/-- A script starts for a client that has no child. -/
theorem Keeps.opens {fds : List Fd} {pid : ℕ} {es : List Event} {c : Fd}
    (hm : PipeEvents r.opened r.polled fds (some pid) es) (hr : r'.record = r.record ++ es)
    (hc : ∀ d, r'.child d = if d = c then some pid else r.child d) (hn : r.child c = none) : Keeps r r' es where
  record := hr
  held d pid' hd := by
    refine Or.inl ?_
    rw [hc, if_neg]
    · exact hd
    · intro hdc
      rw [hdc, hn] at hd
      cases hd
  forked pid' hf := by
    refine Or.inl ⟨c, ?_⟩
    rw [hc, if_pos rfl]
    exact hm.forked pid' hf

end

theorem Idle.keeps {r r' : Registry} {early : Bool} (h : r.Idle) (hstep : Step early r r') :
    ∃ es, Keeps r r' es := by
  cases hstep with
  | same => exact ⟨[], .refl r⟩
  | leaked hm => exact ⟨_, .of_child rfl rfl (fun pid hf => by simpa using hm.forked pid hf)⟩
  | @accepted _ f es hm =>
    refine ⟨es, .of_child rfl ?_ (fun pid hf => by simpa using hm.forked pid hf)⟩
    funext d
    by_cases hd : d = f
    · cases hp : r.scripts f <;> simp [hd, child, hp]
    · simp [hd]
  | @started _ c i o pid es p hc ha hm =>
    obtain rfl := h c p hc ha
    exact ⟨_, .opens (c := c) hm rfl (fun d => by simp) (by simp [child, hc])⟩
  | @startedWhole _ c o pid es p hc ha hm =>
    obtain rfl := h c p hc ha
    exact ⟨_, .opens (c := c) hm rfl (fun d => by simp) (by simp [child, hc])⟩
  | @inputClosed _ c f p hc hf =>
    obtain ⟨es, hes⟩ := Keeps.dropIn (r := r) (some f)
    exact ⟨_, hes.trans (.setScript (p := p) (by simpa using hc) rfl)⟩
  | @inputReleased _ c f p hf hc hn => exact ⟨[], .of_child (by simp) rfl (by simp)⟩
  | @strayed _ c f hf hc => exact Keeps.dropIn (some f)
  | @otherClosed _ c f p hf hc hn =>
    have hdrop : Keeps r ((r.setIn f none).unpoll f) [] := .of_child (by simp) rfl (by simp)
    obtain ⟨es, hes⟩ := Keeps.closesAny (r := (r.setIn f none).unpoll f) p.stdin
    exact ⟨_, (hdrop.trans hes).trans (.setScript (p := p) (by simpa using hc) rfl)⟩
  | @inputEnded _ c f p hc hf =>
    have hclose : Keeps r (r.closes f) _ := .of_child rfl rfl (by simp)
    exact ⟨_, hclose.trans (.setScript (p := p) (by simpa using hc) rfl)⟩
  | @outputEnded _ c f p reaped hc hf =>
    obtain ⟨es, hes⟩ := Keeps.dropOut (r := r) (some f)
    obtain ⟨fs, hfs⟩ := Keeps.closesAny (r := r.dropOut (some f)) p.stdin
    obtain ⟨gs, hgs⟩ := Keeps.waits (r := (r.dropOut (some f)).closesAny p.stdin) (c := c) (p := p) (q := some {})
      reaped (by simpa using hc)
    exact ⟨_, (hes.trans hfs).trans hgs⟩
  | @removed _ c p reaped hc =>
    obtain ⟨es, hes⟩ := Keeps.dropOut (r := r) p.stdout
    obtain ⟨fs, hfs⟩ := Keeps.dropIn (r := r.dropOut p.stdout) p.stdin
    obtain ⟨gs, hgs⟩ := Keeps.waits (r := (r.dropOut p.stdout).dropIn p.stdin) (c := c) (p := p) (q := none) reaped
      (by simpa using hc)
    have hclose (r : Registry) : Keeps r ((r.closes c).unpoll c) [.closed c (decide (c ∈ r.opened))] :=
      .of_child rfl rfl (by simp)
    exact ⟨_, ((hes.trans hfs).trans hgs).trans (hclose _)⟩
  | @unknownRemoved _ f hp hf => exact ⟨_, .of_child rfl rfl (by simp)⟩

theorem keeps_hangUp {c f : Fd} {p : Script} (hc : r.scripts c = some p) : ∃ es, Keeps r (r.hangUp c f p) es := by
  obtain ⟨es, hes⟩ := Keeps.dropIn (r := r) (some f)
  obtain ⟨fs, hfs⟩ := Keeps.closesAny (r := r.dropIn (some f)) p.stdin
  exact ⟨_, (hes.trans hfs).trans (.setScript (p := p) (by simpa using hc) rfl)⟩

/-! ## New descriptors -/

/-- No number was handed out while it was polled. -/
theorem Step.fresh {r r' : Registry} {early : Bool} (hstep : Step early r r')
    (hn : ∀ f, .opened f true ∉ r'.record) : Fresh r r' := by
  have hopens : ∀ {fds : List Fd} {child : Option ℕ} {es : List Event}, PipeEvents r.opened r.polled fds child es →
      r'.record = r.record ++ es → r'.opened = r.opened ++ fds → Fresh r r' := by
    intro fds child es hm hr ho f hf hnew hp
    rw [ho, List.mem_append] at hf
    have hopened := (hm.fresh f (hf.resolve_left hnew)).2
    rw [decide_eq_true hp] at hopened
    exact hn f (hr ▸ List.mem_append_right _ hopened)
  have hcloses : r'.opened ⊆ r.opened → Fresh r r' := by
    intro hsub f hf hnew
    exact absurd (hsub hf) hnew
  cases hstep with
  | same => exact hcloses (List.Subset.refl _)
  | accepted hm => exact hopens hm rfl rfl
  | leaked hm => exact hopens hm rfl rfl
  | started hc ha hm => exact hopens hm rfl rfl
  | startedWhole hc ha hm => exact hopens hm rfl rfl
  | inputClosed hc hf => exact hcloses List.erase_subset
  | inputReleased hf hc hn => exact hcloses (List.Subset.refl _)
  | strayed hf hc => exact hcloses List.erase_subset
  | otherClosed hf hc hn => exact hcloses (opened_closesAny _)
  | inputEnded hc hf => exact hcloses List.erase_subset
  | @outputEnded _ c f p reaped hc hf =>
    exact hcloses (List.Subset.trans (opened_closesAny p.stdin) List.erase_subset)
  | @removed _ c p reaped hc =>
    refine hcloses (List.Subset.trans List.erase_subset ?_)
    simp only [waits_tables, dropIn_tables]
    refine List.Subset.trans (opened_closesAny p.stdin) ?_
    simp only [dropOut_tables]
    exact opened_closesAny p.stdout
  | unknownRemoved hp hf => exact hcloses List.erase_subset

/-! ## Steps seen from the server -/

/-- What a step leads to; the entries that are polled, and whom pipes are registered for,
need only be right when every descriptor has one owner. -/
def Reaches (early : Bool) (r r' : Registry) : Prop :=
  ∃ r'', Step early r r'' ∧ r'.scripts = r''.scripts ∧ r'.record = r''.record ∧ (r.Registered → r' = r'')

section
variable {r r' : Registry} {early : Bool}

theorem Step.reaches (h : Step early r r') : Reaches early r r' := ⟨r', h, rfl, rfl, fun _ => rfl⟩

theorem Reaches.step (h : Reaches early r r') (hr : r.Registered) : Step early r r' := by
  obtain ⟨r'', hstep, -, -, hsame⟩ := h
  rw [hsame hr]
  exact hstep

theorem Keeps.of_record {r'' : Registry} {es : List Event} (h : Keeps r r'' es) (hs : r'.scripts = r''.scripts)
    (hr : r'.record = r''.record) : Keeps r r' es := by
  have hc : r'.child = r''.child := by
    funext c
    simp only [child, hs]
  refine ⟨hr.trans h.record, ?_, ?_⟩
  · rw [hc]
    exact h.held
  · rw [hc]
    exact h.forked

theorem Reaches.keeps (h : Reaches early r r') (hi : r.Idle) : r'.Idle ∧ ∃ es, Keeps r r' es := by
  obtain ⟨r'', hstep, hs, hr, -⟩ := h
  obtain ⟨es, hes⟩ := hi.keeps hstep
  exact ⟨(hi.step hstep).of_scripts hs, es, hes.of_record hs hr⟩

end

end WebServ.Registry
