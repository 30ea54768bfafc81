import WebServ.Registry.Registered

/-! # The order of the entries

A pipe is registered after its client, entries are dropped one at a time, and the
client goes last: the pipes of a client stand behind it in the list that is polled.
-/
namespace WebServ.Registry
variable {r r' : Registry} {c f : Fd}

/-- Pipes stand behind their client. -/
def Behind (r : Registry) : Prop := ∀ c f, r.stdin c = some f ∨ r.stdout c = some f → [c, f].Sublist r.polled

/-- The same pipes, with more entries or the same ones. -/
theorem Behind.appended (h : r.Behind) {l : List Fd} (hp : r'.polled = r.polled ++ l)
    (hs : ∀ d g, r'.stdin d = some g ∨ r'.stdout d = some g → r.stdin d = some g ∨ r.stdout d = some g) :
    r'.Behind := by
  intro d g hg
  rw [hp]
  exact (h d g (hs d g hg)).trans (List.sublist_append_left _ _)

/-- Dropping an entry leaves the others in order. -/
theorem sublist_erase {d g f : Fd} {l : List Fd} (h : [d, g].Sublist l) (hd : d ≠ f) (hg : g ≠ f) :
    [d, g].Sublist (l.erase f) := by
  have herase : [d, g].erase f = [d, g] := by
    apply List.erase_of_not_mem
    simp [hd.symm, hg.symm]
  rw [← herase]
  exact h.erase f

/-- A client and the pipe that was registered last. -/
theorem sublist_registered {l : List Fd} (hc : c ∈ l) (f : Fd) : [c, f].Sublist (l ++ [f]) :=
  List.Sublist.append (List.singleton_sublist.mpr hc) (List.Sublist.refl [f])

theorem Registered.client_polled (h : r.Registered) {p : Script} (hc : r.scripts c = some p) : c ∈ r.polled := by
  apply h.mem_polled
  simp [roles, hc]

/-- A pipe is not a client, and no pipe has two clients or two ends. -/
structure Apart (r : Registry) (c f : Fd) : Prop where
  client : ∀ d p, r.scripts d = some p → d ≠ f
  stdin : ∀ d g, d ≠ c → r.stdin d = some g → g ≠ f
  stdout : ∀ d g, d ≠ c → r.stdout d = some g → g ≠ f

theorem Exact.apart_of_stdin (h : r.Exact) (hf : r.stdin c = some f) : r.Apart c f := by
  have hin := (h.in_iff f c).mpr hf
  refine ⟨?_, ?_, ?_⟩
  · rintro d p hd rfl
    have hnone := (h.registered.client_only (c := d) (by simp [hd])).2
    rw [hin] at hnone
    cases hnone
  · rintro d g hd hg rfl
    exact hd (h.stdin_inj hf hg)
  · rintro d g - hg rfl
    have hnone := h.registered.out_only (f := g) (by simp [(h.registered.out_iff g d).mpr hg])
    rw [hin] at hnone
    cases hnone

theorem Exact.apart_of_stdout (h : r.Exact) (hf : r.stdout c = some f) : r.Apart c f := by
  have hout := (h.registered.out_iff f c).mpr hf
  refine ⟨?_, ?_, ?_⟩
  · rintro d p hd rfl
    have hnone := (h.registered.client_only (c := d) (by simp [hd])).1
    rw [hout] at hnone
    cases hnone
  · rintro d g - hg rfl
    have hnone := h.registered.out_only (f := g) (by simp [hout])
    rw [(h.in_iff g d).mpr hg] at hnone
    cases hnone
  · rintro d g hd hg rfl
    have hdout := (h.registered.out_iff g d).mpr hg
    rw [hout] at hdout
    exact hd (Option.some.inj hdout).symm

/-- One pipe leaves the list, and its client has it no longer. -/
theorem Behind.erased (h : r.Behind) (hf : r.Apart c f) (hp : r'.polled = r.polled.erase f)
    (hother : ∀ d g, d ≠ c → r'.stdin d = some g ∨ r'.stdout d = some g → r.stdin d = some g ∨ r.stdout d = some g)
    (hown : ∀ g, r'.stdin c = some g ∨ r'.stdout c = some g → g ≠ f ∧ (r.stdin c = some g ∨ r.stdout c = some g)) :
    r'.Behind := by
  have hclient {d g : Fd} (hg : r.stdin d = some g ∨ r.stdout d = some g) : d ≠ f := by
    cases hd : r.scripts d with
    | some p => exact hf.client d p hd
    | none => simp [stdin, stdout, hd] at hg
  intro d g hg
  rw [hp]
  by_cases hd : d = c
  · subst hd
    obtain ⟨hne, hold⟩ := hown g hg
    exact sublist_erase (h d g hold) (hclient hold) hne
  · have hold := hother d g hd hg
    refine sublist_erase (h d g hold) (hclient hold) ?_
    rcases hold with hin | hout
    · exact hf.stdin d g hd hin
    · exact hf.stdout d g hd hout

theorem sublist_eraseAny {d g : Fd} {o : Option Fd} {l : List Fd} (h : [d, g].Sublist l)
    (ho : ∀ f ∈ o, d ≠ f ∧ g ≠ f) : [d, g].Sublist (o.elim l l.erase) := by
  cases o with
  | none => exact h
  | some f =>
    obtain ⟨hd, hg⟩ := ho f rfl
    exact sublist_erase h hd hg

theorem CleanStep.behind (h : r.Exact) (hb : r.Behind) (hstep : CleanStep r r') : r'.Behind := by
  cases hstep with
  | same => exact hb
  | leaked hm => exact hb
  | @accepted f es hm =>
    have hroles := h.registered.roles_eq_zero (h.not_polled hm (f := f) (by simp))
    obtain ⟨-, hnone, -, -⟩ := empty_of_roles hroles
    refine hb.appended (l := [f]) rfl ?_
    intro d g hg
    by_cases hd : d = f
    · subst hd
      simp [hnone] at hg
    · simpa [hd] using hg
  | @started c i o pid es p hc ha hm =>
    have hmem := h.registered.client_polled hc
    intro d g hg
    have hpolled : (((((r.opens [i, o] es).setScript c (some ⟨some i, some o, some pid, true⟩)).setOut o
        (some c)).poll o).setIn i (some c) |>.poll i).polled = (r.polled ++ [o]) ++ [i] := rfl
    rw [hpolled]
    by_cases hd : d = c
    · subst hd
      simp at hg
      rcases hg with rfl | rfl
      · exact sublist_registered (List.mem_append_left _ hmem) i
      · exact (sublist_registered hmem o).trans (List.sublist_append_left _ _)
    · refine ((hb d g ?_).trans (List.sublist_append_left _ _)).trans (List.sublist_append_left _ _)
      simpa [hd] using hg
  | @startedWhole c o pid es p hc ha hm =>
    have hmem := h.registered.client_polled hc
    intro d g hg
    by_cases hd : d = c
    · subst hd
      simp at hg
      exact hg ▸ sublist_registered hmem o
    · refine (hb d g ?_).trans (List.sublist_append_left _ _)
      simpa [hd] using hg
  | @inputClosed c f p hc hf =>
    have hown : r.stdin c = some f := by simp [stdin, hc, hf]
    refine hb.erased (h.apart_of_stdin hown) rfl ?_ ?_
    · intro d g hd hg
      simpa [hd] using hg
    · intro g hg
      have hout : r.stdout c = some g := by simpa [stdout, hc] using hg
      refine ⟨?_, Or.inr hout⟩
      rintro rfl
      have hnone := h.registered.out_only (f := g) (by simp [(h.registered.out_iff g c).mpr hout])
      rw [(h.in_iff g c).mpr hown] at hnone
      cases hnone
  | @outputEnded c f p reaped hc hf hn =>
    have hown : r.stdout c = some f := by simp [stdout, hc, hf]
    refine hb.erased (h.apart_of_stdout hown) rfl ?_ ?_
    · intro d g hd hg
      simpa [hd] using hg
    · intro g hg
      simp at hg
  | @removed c p reaped hc =>
    intro d g hg
    have hd : d ≠ c := by
      rintro rfl
      simp at hg
    have hold : r.stdin d = some g ∨ r.stdout d = some g := by simpa [hd] using hg
    have hapart : r.Apart d g := hold.elim h.apart_of_stdin h.apart_of_stdout
    have hclient : ∃ q, r.scripts d = some q := by
      cases hs : r.scripts d with
      | some q => exact ⟨q, rfl⟩
      | none => simp [stdin, stdout, hs] at hold
    obtain ⟨q, hq⟩ := hclient
    have hout : ∀ f ∈ p.stdout, d ≠ f ∧ g ≠ f := by
      intro f hf
      have hown : r.stdout c = some f := by simpa [stdout, hc] using hf
      exact ⟨(h.apart_of_stdout hown).client d q hq, (hapart.stdout c f hd.symm hown).symm⟩
    have hin : ∀ f ∈ p.stdin, d ≠ f ∧ g ≠ f := by
      intro f hf
      have hown : r.stdin c = some f := by simpa [stdin, hc] using hf
      exact ⟨(h.apart_of_stdin hown).client d q hq, (hapart.stdin c f hd.symm hown).symm⟩
    have hpolled : (((((r.dropOut p.stdout).dropIn p.stdin).waits p.child reaped).closes c).setScript c none
        |>.unpoll c).polled = (p.stdin.elim (p.stdout.elim r.polled r.polled.erase)
          (p.stdout.elim r.polled r.polled.erase).erase).erase c := by
      cases p.stdin <;> cases p.stdout <;> rfl
    rw [hpolled]
    exact sublist_erase (sublist_eraseAny (sublist_eraseAny (hb d g hold) hout) hin) hd
      (hapart.client c p hc).symm

theorem Exact.behind_step (h : r.Exact) (hb : r.Behind) (hstep : Step false r r') : r'.Behind :=
  (h.clean hstep).behind h hb

/-- A pipe that broke leaves the list as it would otherwise. -/
theorem Exact.behind_hangUp (h : r.Exact) (hb : r.Behind) {p : Script} (hf : r.inOf f = some c)
    (hc : r.scripts c = some p) : (r.hangUp c f p).Behind := by
  have hown := (h.in_iff f c).mp hf
  refine hb.erased (h.apart_of_stdin hown) ?_ ?_ ?_
  · cases hs : p.stdin <;> simp [Registry.hangUp, Registry.dropIn, unpoll, hs]
  · intro d g hd hg
    simpa [Registry.hangUp, hd] using hg
  · intro g hg
    have hout : r.stdout c = some g := by simpa [Registry.hangUp, stdout, hc] using hg
    refine ⟨?_, Or.inr hout⟩
    rintro rfl
    have hnone := h.registered.out_only (f := g) (by simp [(h.registered.out_iff g c).mpr hout])
    rw [hf] at hnone
    cases hnone

/-- Up to the entry of a client there are no pipes of it. -/
theorem notMem_take {l : List Fd} (hn : l.Nodup) (h : [c, f].Sublist l) {i : ℕ} (hi : l[i]? = some c) :
    f ∉ l.take (i + 1) := by
  obtain ⟨hlt, hget⟩ := List.getElem?_eq_some_iff.mp hi
  have hsplit : l = l.take i ++ c :: l.drop (i + 1) := by
    conv_lhs => rw [← List.take_append_drop i l, List.drop_eq_getElem_cons hlt, hget]
  have hdisjoint : (l.take (i + 1)).Disjoint (l.drop (i + 1)) := List.disjoint_take_drop hn (le_refl _)
  have hfront : c ∉ l.take i := by
    intro hmem
    refine List.disjoint_take_drop hn (le_refl i) hmem ?_
    rw [List.drop_eq_getElem_cons hlt, hget]
    exact List.mem_cons_self
  have hback : f ∈ l.drop (i + 1) := by
    rw [hsplit, List.sublist_append_iff] at h
    obtain ⟨front, back, heq, hsub, hsub'⟩ := h
    cases front with
    | cons d front =>
      rw [List.cons_append, List.cons.injEq] at heq
      exact absurd (hsub.subset (heq.1 ▸ List.mem_cons_self)) hfront
    | nil =>
      obtain rfl : [c, f] = back := heq
      rcases List.sublist_cons_iff.mp hsub' with hlater | ⟨rest, hrest, hlater⟩
      · exact hlater.subset (by simp)
      · obtain rfl : [f] = rest := List.cons.inj hrest |>.2
        exact hlater.subset (by simp)
  exact fun hmem => hdisjoint hmem hback

end WebServ.Registry
