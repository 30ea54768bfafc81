import WebServ.Server.World

/-! # Who owns a descriptor

The tables of the server without the rest of its state: which descriptors are
polled, which of them listen, which clients there are with the scripts they run, and
whom the pipes are registered for. A descriptor has one owner, and is polled once, as
long as the tables change together.
-/
namespace WebServ

/-- What a client holds of its script: the pipe to it, the pipe from it, and the child. -/
structure Script where
  stdin : Option Fd := none
  stdout : Option Fd := none
  child : Option ℕ := none
  active : Bool := false

/-- The tables, with what was opened, closed, forked and waited for. -/
@[ext] structure Registry where
  listening : Fd → Bool
  polled : List Fd
  scripts : Fd → Option Script
  outOf : Fd → Option Fd
  inOf : Fd → Option Fd
  opened : List Fd
  record : List Event

/-- What is recorded while pipes are made for a script: the ends `new` stay open, and the
others are closed again. -/
structure PipeEvents (opened polled new : List Fd) (child : Option ℕ) (es : List Event) : Prop where
  quiet : ∀ e ∈ es, e.client = none
  nodup : new.Nodup
  fresh : ∀ f ∈ new, f ∉ opened ∧ .opened f (decide (f ∈ polled)) ∈ es
  closed : ∀ f b, .closed f b ∈ es → b = true ∧ f ∉ opened
  waited : ∀ pid b, .waited pid b ∉ es
  forked : ∀ pid, .forked pid ∈ es → child = some pid

namespace Registry
variable (r : Registry)

/-- How many tables have the descriptor. -/
def roles (f : Fd) : ℕ :=
  (r.listening f).toNat + (r.scripts f).isSome.toNat + (r.outOf f).isSome.toNat + (r.inOf f).isSome.toNat

/-- The pipes of a client, when there is one. -/
def stdin (c : Fd) : Option Fd := (r.scripts c).bind Script.stdin
def stdout (c : Fd) : Option Fd := (r.scripts c).bind Script.stdout

/-- The child of a client, when there is one. -/
def child (c : Fd) : Option ℕ := (r.scripts c).bind Script.child

def poll (f : Fd) : Registry := { r with polled := r.polled ++ [f] }
def unpoll (f : Fd) : Registry := { r with polled := r.polled.erase f }
def setScript (c : Fd) (p : Option Script) : Registry := { r with scripts := Function.update r.scripts c p }
def setOut (f : Fd) (o : Option Fd) : Registry := { r with outOf := Function.update r.outOf f o }
def setIn (f : Fd) (o : Option Fd) : Registry := { r with inOf := Function.update r.inOf f o }
def records (es : List Event) : Registry := { r with record := r.record ++ es }
def opens (fds : List Fd) (es : List Event) : Registry := { r.records es with opened := r.opened ++ fds }
def closes (f : Fd) : Registry :=
  { r.records [.closed f (decide (f ∈ r.opened))] with opened := r.opened.erase f }

/-! Each operation changes one table. -/

@[simp] theorem poll_tables (f : Fd) : (r.poll f).scripts = r.scripts ∧ (r.poll f).outOf = r.outOf ∧
    (r.poll f).inOf = r.inOf ∧ (r.poll f).opened = r.opened ∧ (r.poll f).record = r.record ∧
    (r.poll f).stdin = r.stdin ∧ (r.poll f).stdout = r.stdout ∧ (r.poll f).child = r.child :=
  ⟨rfl, rfl, rfl, rfl, rfl, rfl, rfl, rfl⟩

@[simp] theorem unpoll_tables (f : Fd) : (r.unpoll f).scripts = r.scripts ∧ (r.unpoll f).outOf = r.outOf ∧
    (r.unpoll f).inOf = r.inOf ∧ (r.unpoll f).opened = r.opened ∧ (r.unpoll f).record = r.record ∧
    (r.unpoll f).stdin = r.stdin ∧ (r.unpoll f).stdout = r.stdout ∧ (r.unpoll f).child = r.child :=
  ⟨rfl, rfl, rfl, rfl, rfl, rfl, rfl, rfl⟩

@[simp] theorem setScript_tables (c : Fd) (p : Option Script) : (r.setScript c p).polled = r.polled ∧
    (r.setScript c p).outOf = r.outOf ∧ (r.setScript c p).inOf = r.inOf ∧ (r.setScript c p).opened = r.opened ∧
    (r.setScript c p).record = r.record ∧
    (∀ d, (r.setScript c p).scripts d = if d = c then p else r.scripts d) ∧
    (∀ d, (r.setScript c p).stdin d = if d = c then p.bind Script.stdin else r.stdin d) ∧
    (∀ d, (r.setScript c p).stdout d = if d = c then p.bind Script.stdout else r.stdout d) ∧
    ∀ d, (r.setScript c p).child d = if d = c then p.bind Script.child else r.child d := by
  refine ⟨rfl, rfl, rfl, rfl, rfl, fun d => Function.update_apply r.scripts c p d, ?_, ?_, ?_⟩ <;>
  · intro d
    by_cases hd : d = c <;> simp [setScript, stdin, stdout, child, hd]

@[simp] theorem setOut_tables (f : Fd) (o : Option Fd) : (r.setOut f o).polled = r.polled ∧
    (r.setOut f o).scripts = r.scripts ∧ (r.setOut f o).inOf = r.inOf ∧ (r.setOut f o).opened = r.opened ∧
    (r.setOut f o).record = r.record ∧ (∀ g, (r.setOut f o).outOf g = if g = f then o else r.outOf g) ∧
    (r.setOut f o).stdin = r.stdin ∧ (r.setOut f o).stdout = r.stdout ∧ (r.setOut f o).child = r.child :=
  ⟨rfl, rfl, rfl, rfl, rfl, fun g => Function.update_apply r.outOf f o g, rfl, rfl, rfl⟩

@[simp] theorem setIn_tables (f : Fd) (o : Option Fd) : (r.setIn f o).polled = r.polled ∧
    (r.setIn f o).scripts = r.scripts ∧ (r.setIn f o).outOf = r.outOf ∧ (r.setIn f o).opened = r.opened ∧
    (r.setIn f o).record = r.record ∧ (∀ g, (r.setIn f o).inOf g = if g = f then o else r.inOf g) ∧
    (r.setIn f o).stdin = r.stdin ∧ (r.setIn f o).stdout = r.stdout ∧ (r.setIn f o).child = r.child :=
  ⟨rfl, rfl, rfl, rfl, rfl, fun g => Function.update_apply r.inOf f o g, rfl, rfl, rfl⟩

@[simp] theorem records_tables (es : List Event) : (r.records es).polled = r.polled ∧
    (r.records es).scripts = r.scripts ∧ (r.records es).outOf = r.outOf ∧ (r.records es).inOf = r.inOf ∧
    (r.records es).opened = r.opened ∧ (r.records es).record = r.record ++ es ∧
    (r.records es).stdin = r.stdin ∧ (r.records es).stdout = r.stdout ∧ (r.records es).child = r.child :=
  ⟨rfl, rfl, rfl, rfl, rfl, rfl, rfl, rfl, rfl⟩

@[simp] theorem opens_tables (fds : List Fd) (es : List Event) : (r.opens fds es).polled = r.polled ∧
    (r.opens fds es).scripts = r.scripts ∧ (r.opens fds es).outOf = r.outOf ∧ (r.opens fds es).inOf = r.inOf ∧
    (r.opens fds es).record = r.record ++ es ∧ (r.opens fds es).stdin = r.stdin ∧
    (r.opens fds es).stdout = r.stdout ∧ (r.opens fds es).child = r.child :=
  ⟨rfl, rfl, rfl, rfl, rfl, rfl, rfl, rfl⟩

@[simp] theorem closes_tables (f : Fd) : (r.closes f).polled = r.polled ∧ (r.closes f).scripts = r.scripts ∧
    (r.closes f).outOf = r.outOf ∧ (r.closes f).inOf = r.inOf ∧
    (r.closes f).record = r.record ++ [.closed f (decide (f ∈ r.opened))] ∧ (r.closes f).stdin = r.stdin ∧
    (r.closes f).stdout = r.stdout ∧ (r.closes f).child = r.child :=
  ⟨rfl, rfl, rfl, rfl, rfl, rfl, rfl, rfl⟩

/-- Closes a pipe that may be there, and drops it from the tables. -/
def dropOut (f : Option Fd) : Registry := f.elim r (fun f => ((r.setOut f none).unpoll f).closes f)
def dropIn (f : Option Fd) : Registry := f.elim r (fun f => ((r.setIn f none).unpoll f).closes f)

/-- Closes a pipe that may be there. -/
def closesAny (f : Option Fd) : Registry := f.elim r r.closes

/-- Waits for a child that may be there. -/
def waits (pid : Option ℕ) (reaped : Bool) : Registry := r.records (pid.toList.map (.waited · reaped))

@[simp] theorem waits_none (reaped : Bool) : r.waits none reaped = r := by simp [waits, records]

@[simp] theorem setScript_setScript (c : Fd) (p q : Option Script) :
    (r.setScript c p).setScript c q = r.setScript c q := by simp [setScript]

variable {r} in
theorem setScript_self {c : Fd} {p : Option Script} (hc : r.scripts c = p) : r.setScript c p = r := by
  simp [setScript, ← hc]

/-- What happens to the tables. In an `early` step a pipe is closed and stays registered. -/
inductive Step : Bool → Registry → Registry → Prop
  | same (r : Registry) : Step false r r
  | accepted {r : Registry} {f : Fd} {es : List Event} (hm : PipeEvents r.opened r.polled [f] none es) :
      Step false r (((r.opens [f] es).setScript f (some ((r.scripts f).getD {}))).poll f)
  | leaked {r : Registry} {fds : List Fd} {es : List Event} (hm : PipeEvents r.opened r.polled fds none es) :
      Step false r (r.opens fds es)
  | started {r : Registry} {c i o : Fd} {pid : ℕ} {es : List Event} {p : Script} (hc : r.scripts c = some p)
      (ha : p.active = false) (hm : PipeEvents r.opened r.polled [i, o] (some pid) es) :
      Step false r (((((r.opens [i, o] es).setScript c (some ⟨some i, some o, some pid, true⟩)).setOut o
        (some c)).poll o).setIn i (some c) |>.poll i)
  | startedWhole {r : Registry} {c o : Fd} {pid : ℕ} {es : List Event} {p : Script} (hc : r.scripts c = some p)
      (ha : p.active = false) (hm : PipeEvents r.opened r.polled [o] (some pid) es) :
      Step false r ((((r.opens [o] es).setScript c (some ⟨none, some o, some pid, true⟩)).setOut o (some c)).poll o)
  | inputClosed {r : Registry} {c f : Fd} {p : Script} (hc : r.scripts c = some p) (hf : p.stdin = some f) :
      Step false r ((r.dropIn (some f)).setScript c (some { p with stdin := none }))
  | inputReleased {r : Registry} {c f : Fd} {p : Script} (hf : r.inOf f = some c) (hc : r.scripts c = some p)
      (hn : p.stdin = none) : Step false r ((r.setIn f none).unpoll f)
  | strayed {r : Registry} {c f : Fd} (hf : r.inOf f = some c) (hc : r.scripts c = none) :
      Step false r (r.dropIn (some f))
  | otherClosed {r : Registry} {c f : Fd} {p : Script} (hf : r.inOf f = some c) (hc : r.scripts c = some p)
      (hn : p.stdin ≠ some f) :
      Step false r (((r.setIn f none).unpoll f).closesAny p.stdin |>.setScript c (some { p with stdin := none }))
  | inputEnded {r : Registry} {c f : Fd} {p : Script} (hc : r.scripts c = some p) (hf : p.stdin = some f) :
      Step true r ((r.closes f).setScript c (some { p with stdin := none }))
  | outputEnded {r : Registry} {c f : Fd} {p : Script} {reaped : Bool} (hc : r.scripts c = some p)
      (hf : p.stdout = some f) : Step p.stdin.isSome r
        ((((r.dropOut (some f)).closesAny p.stdin).waits p.child reaped).setScript c (some {}))
  | removed {r : Registry} {c : Fd} {p : Script} {reaped : Bool} (hc : r.scripts c = some p) : Step false r
      (((((r.dropOut p.stdout).dropIn p.stdin).waits p.child reaped).closes c).setScript c none |>.unpoll c)
  | unknownRemoved {r : Registry} {f : Fd} (hp : f ∈ r.polled) (hf : r.roles f = 0) :
      Step false r ((r.closes f).unpoll f)

/-- A pipe to a script is dropped because it broke: it is closed, and then what its client
takes for its pipe. -/
def hangUp (c f : Fd) (p : Script) : Registry :=
  ((r.dropIn (some f)).closesAny p.stdin).setScript c (some { p with stdin := none })

/-! ## One entry for every owner -/

/-- A descriptor is polled as often as it has owners, and at most once. -/
def Balanced (r : Registry) : Prop := ∀ f, r.polled.count f = r.roles f ∧ r.roles f ≤ 1

section
variable {r} {r' : Registry} {f : Fd}

theorem Balanced.of_eq (h : r.Balanced) (hp : r'.polled = r.polled) (hr : ∀ g, r'.roles g = r.roles g) :
    r'.Balanced := by
  intro g
  rw [hp, hr]
  exact h g

theorem Balanced.poll (h : r.Balanced) (hf : r.roles f = 0) (hp : r'.polled = r.polled)
    (hr : ∀ g, r'.roles g = r.roles g + if g = f then 1 else 0) : (r'.poll f).Balanced := by
  intro g
  have hroles : (r'.poll f).roles g = r.roles g + if g = f then 1 else 0 := hr g
  have hcount : (r'.poll f).polled.count g = r.polled.count g + if g = f then 1 else 0 := by
    by_cases hg : g = f
    · simp [Registry.poll, hp, hg]
    · simp [Registry.poll, hp, hg, Ne.symm hg]
  rw [hroles, hcount, (h g).1]
  refine ⟨rfl, ?_⟩
  by_cases hg : g = f
  · simp [hg, hf]
  · simpa [hg] using (h g).2

theorem Balanced.unpoll (h : r.Balanced) (hp : r'.polled = r.polled)
    (hr : ∀ g, r.roles g = r'.roles g + if g = f then 1 else 0) : (r'.unpoll f).Balanced := by
  intro g
  have hroles : (r'.unpoll f).roles g = r'.roles g := rfl
  have hcount : (r'.unpoll f).polled.count g = r.polled.count g - if g = f then 1 else 0 := by
    by_cases hg : g = f
    · simp [Registry.unpoll, hp, hg]
    · simp [Registry.unpoll, hp, hg, List.count_erase_of_ne]
  obtain ⟨hc, hle⟩ := h g
  have hrg := hr g
  rw [hroles, hcount, hc]
  omega

/-! The tables one at a time. -/

theorem roles_setOut_some {c : Fd} (hf : r.outOf f = none) (g : Fd) :
    (r.setOut f (some c)).roles g = r.roles g + if g = f then 1 else 0 := by
  by_cases hg : g = f
  · simp [roles, setOut, hg, hf]
    omega
  · simp [roles, setOut, hg]

theorem roles_setOut_none (hf : (r.outOf f).isSome) (g : Fd) :
    r.roles g = (r.setOut f none).roles g + if g = f then 1 else 0 := by
  by_cases hg : g = f
  · simp [roles, setOut, hg, hf]
    omega
  · simp [roles, setOut, hg]

theorem roles_setIn_some {c : Fd} (hf : r.inOf f = none) (g : Fd) :
    (r.setIn f (some c)).roles g = r.roles g + if g = f then 1 else 0 := by
  by_cases hg : g = f
  · simp [roles, setIn, hg, hf]
  · simp [roles, setIn, hg]

theorem roles_setIn_none (hf : (r.inOf f).isSome) (g : Fd) :
    r.roles g = (r.setIn f none).roles g + if g = f then 1 else 0 := by
  by_cases hg : g = f
  · simp [roles, setIn, hg, hf]
  · simp [roles, setIn, hg]

theorem roles_setScript_some {p : Script} (hf : r.scripts f = none) (g : Fd) :
    (r.setScript f (some p)).roles g = r.roles g + if g = f then 1 else 0 := by
  by_cases hg : g = f
  · simp [roles, setScript, hg, hf]
    omega
  · simp [roles, setScript, hg]

theorem roles_setScript_none (hf : (r.scripts f).isSome) (g : Fd) :
    r.roles g = (r.setScript f none).roles g + if g = f then 1 else 0 := by
  by_cases hg : g = f
  · simp [roles, setScript, hg, hf]
    omega
  · simp [roles, setScript, hg]

theorem roles_setScript {p : Script} (hf : (r.scripts f).isSome) (g : Fd) :
    (r.setScript f (some p)).roles g = r.roles g := by
  by_cases hg : g = f
  · simp [roles, setScript, hg, hf]
  · simp [roles, setScript, hg]

theorem empty_of_roles (h : r.roles f = 0) :
    r.listening f = false ∧ r.scripts f = none ∧ r.outOf f = none ∧ r.inOf f = none := by
  unfold roles at h
  refine ⟨?_, ?_, ?_, ?_⟩
  · by_contra hn
    simp [hn] at h
  all_goals
    rw [← Option.not_isSome_iff_eq_none]
    intro hn
    simp [hn] at h

/-! Descriptors enter and leave a table together with the poll list. -/

theorem Balanced.registerOut (h : r.Balanced) (hf : r.roles f = 0) (c : Fd) :
    ((r.setOut f (some c)).poll f).Balanced :=
  h.poll hf rfl (roles_setOut_some (empty_of_roles hf).2.2.1)

theorem Balanced.registerIn (h : r.Balanced) (hf : r.roles f = 0) (c : Fd) :
    ((r.setIn f (some c)).poll f).Balanced :=
  h.poll hf rfl (roles_setIn_some (empty_of_roles hf).2.2.2)

theorem Balanced.releaseOut (h : r.Balanced) (hf : (r.outOf f).isSome) :
    ((r.setOut f none).unpoll f).Balanced := h.unpoll rfl (roles_setOut_none hf)

theorem Balanced.releaseIn (h : r.Balanced) (hf : (r.inOf f).isSome) :
    ((r.setIn f none).unpoll f).Balanced := h.unpoll rfl (roles_setIn_none hf)

theorem Balanced.closes (h : r.Balanced) (f : Fd) : (r.closes f).Balanced := h

theorem Balanced.closesAny (h : r.Balanced) (f : Option Fd) : (r.closesAny f).Balanced := by
  cases f with
  | none => exact h
  | some f => exact h

theorem Balanced.dropOut (h : r.Balanced) {o : Option Fd} (ho : ∀ f ∈ o, (r.outOf f).isSome) :
    (r.dropOut o).Balanced := by
  cases o with
  | none => exact h
  | some f => exact (h.releaseOut (ho f rfl)).closes f

theorem Balanced.dropIn (h : r.Balanced) {o : Option Fd} (ho : ∀ f ∈ o, (r.inOf f).isSome) :
    (r.dropIn o).Balanced := by
  cases o with
  | none => exact h
  | some f => exact (h.releaseIn (ho f rfl)).closes f

theorem Balanced.waits (h : r.Balanced) (pid : Option ℕ) (reaped : Bool) : (r.waits pid reaped).Balanced := h

@[simp] theorem dropOut_tables (o : Option Fd) : (r.dropOut o).scripts = r.scripts ∧
    (∀ g, (r.dropOut o).outOf g = if o = some g then none else r.outOf g) ∧ (r.dropOut o).inOf = r.inOf ∧
    (r.dropOut o).stdin = r.stdin ∧ (r.dropOut o).stdout = r.stdout ∧ (r.dropOut o).child = r.child ∧
    (r.dropOut o).opened = (r.closesAny o).opened ∧ (r.dropOut o).record = (r.closesAny o).record := by
  cases o with
  | none => exact ⟨rfl, fun _ => by simp [Registry.dropOut], rfl, rfl, rfl, rfl, rfl, rfl⟩
  | some f => exact ⟨rfl, fun g => by simp [Registry.dropOut, eq_comm], rfl, rfl, rfl, rfl, rfl, rfl⟩

@[simp] theorem dropIn_tables (o : Option Fd) : (r.dropIn o).scripts = r.scripts ∧
    (∀ g, (r.dropIn o).inOf g = if o = some g then none else r.inOf g) ∧ (r.dropIn o).outOf = r.outOf ∧
    (r.dropIn o).stdin = r.stdin ∧ (r.dropIn o).stdout = r.stdout ∧ (r.dropIn o).child = r.child ∧
    (r.dropIn o).opened = (r.closesAny o).opened ∧ (r.dropIn o).record = (r.closesAny o).record := by
  cases o with
  | none => exact ⟨rfl, fun _ => by simp [Registry.dropIn], rfl, rfl, rfl, rfl, rfl, rfl⟩
  | some f => exact ⟨rfl, fun g => by simp [Registry.dropIn, eq_comm], rfl, rfl, rfl, rfl, rfl, rfl⟩

@[simp] theorem closesAny_tables (f : Option Fd) : (r.closesAny f).polled = r.polled ∧
    (r.closesAny f).scripts = r.scripts ∧ (r.closesAny f).outOf = r.outOf ∧ (r.closesAny f).inOf = r.inOf ∧
    (r.closesAny f).stdin = r.stdin ∧ (r.closesAny f).stdout = r.stdout ∧ (r.closesAny f).child = r.child := by
  cases f <;> exact ⟨rfl, rfl, rfl, rfl, rfl, rfl, rfl⟩

@[simp] theorem waits_tables (pid : Option ℕ) (reaped : Bool) : (r.waits pid reaped).polled = r.polled ∧
    (r.waits pid reaped).scripts = r.scripts ∧ (r.waits pid reaped).outOf = r.outOf ∧
    (r.waits pid reaped).inOf = r.inOf ∧ (r.waits pid reaped).opened = r.opened ∧
    (r.waits pid reaped).stdin = r.stdin ∧ (r.waits pid reaped).stdout = r.stdout ∧
    (r.waits pid reaped).child = r.child := ⟨rfl, rfl, rfl, rfl, rfl, rfl, rfl, rfl⟩

end

end Registry
end WebServ
