import Mathlib

/-! # Runs that leave a record

Each step of a system adds some events to a record. A property of record and state
that every step keeps holds after every run. A record is often read from its last
event of one kind on.
-/
namespace WebServ
variable {σ ε : Type*}

/-- Any number of steps, with the events they record joined. -/
inductive Run (step : σ → List ε → σ → Prop) : σ → List ε → σ → Prop
  | refl (s : σ) : Run step s [] s
  | tail {s t u : σ} {es fs : List ε} (h : Run step s es t) (hs : step t fs u) : Run step s (es ++ fs) u

namespace Run
variable {step : σ → List ε → σ → Prop}

theorem single {s t : σ} {es : List ε} (h : step s es t) : Run step s es t := (refl s).tail h

theorem trans {s t u : σ} {es fs : List ε} (h : Run step s es t) (h' : Run step t fs u) :
    Run step s (es ++ fs) u := by
  induction h' with
  | refl => simpa using h
  | tail _ hs ih => simpa only [List.append_assoc] using ih.tail hs

theorem mono {step' : σ → List ε → σ → Prop} (hstep : ∀ s es t, step s es t → step' s es t) {s t : σ} {es : List ε}
    (h : Run step s es t) : Run step' s es t := by
  induction h with
  | refl => exact refl s
  | tail _ hs ih => exact ih.tail (hstep _ _ _ hs)

/-- What every step keeps, for a record that has begun already. -/
theorem invariant {I : List ε → σ → Prop}
    (hI : ∀ {r s es t}, I r s → step s es t → I (r ++ es) t) {r : List ε} {s t : σ} {es : List ε}
    (h : Run step s es t) (hr : I r s) : I (r ++ es) t := by
  induction h with
  | refl => simpa using hr
  | tail _ hs ih => simpa only [List.append_assoc] using hI ih hs

/-- A run is followed step by step by another system, which records the same events. -/
theorem simulation {τ : Type*} {step' : τ → List ε → τ → Prop} {R : σ → τ → Prop} {s t : σ} {s' : τ}
    {es : List ε} (h : Run step s es t) (hs : R s s')
    (hR : ∀ {s es t s'}, R s s' → step s es t → ∃ t', step' s' es t' ∧ R t t') :
    ∃ t', Run step' s' es t' ∧ R t t' := by
  induction h with
  | refl => exact ⟨s', refl s', hs⟩
  | tail _ hstep ih =>
    obtain ⟨u', hu', hu⟩ := ih
    obtain ⟨t', ht', ht⟩ := hR hu hstep
    exact ⟨t', hu'.tail ht', ht⟩

end Run

/-! ## Records from an event on -/

/-- What follows the last event of a kind; all of it when there is none. -/
def sinceLast (p : ε → Bool) (r : List ε) : List ε := r.rtakeWhile (fun e => !p e)

section
variable {p : ε → Bool} {r : List ε}

@[simp] theorem sinceLast_nil : sinceLast p [] = [] := List.rtakeWhile_nil _

theorem sinceLast_append_singleton (e : ε) :
    sinceLast p (r ++ [e]) = if p e then [] else sinceLast p r ++ [e] := by
  cases h : p e <;> simp [sinceLast, h]

/-- Events of another kind are added to it. -/
theorem sinceLast_append {es : List ε} (h : ∀ e ∈ es, p e = false) :
    sinceLast p (r ++ es) = sinceLast p r ++ es := by
  induction es using List.reverseRecOn with
  | nil => simp
  | append_singleton es e ih =>
    have he : p e = false := h e (by simp)
    rw [← List.append_assoc, sinceLast_append_singleton, he]
    simp [ih fun e' he' => h e' (by simp [he'])]

/-- The last event of the kind starts anew. -/
theorem sinceLast_append_cons {e : ε} (es : List ε) (he : p e) (h : ∀ e ∈ es, p e = false) :
    sinceLast p (r ++ e :: es) = es := by
  rw [List.append_cons, sinceLast_append h, sinceLast_append_singleton, if_pos he, List.nil_append]

/-- What is collected from the events grows with them. -/
theorem flatMap_sinceLast_append {β : Type*} {es : List ε} (f : ε → List β) (h : es.any p = false) :
    (sinceLast p (r ++ es)).flatMap f = (sinceLast p r).flatMap f ++ es.flatMap f := by
  rw [sinceLast_append (by simpa using h), List.flatMap_append]

end
end WebServ
