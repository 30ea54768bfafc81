import WebServ.Server.Accesses

/-! # The pass over the entries

The loop goes over the entries by position and gives each of them to the handlers
for errors, for input and for output. Every use of a position is recorded with the
number of entries there are at that moment.
-/
namespace WebServ
open World KeyedList Sweep

namespace World
variable (w : World)

/-! ## Positions in range -/

def InRange (uses : List (ℕ × ℕ)) : Prop := ∀ use ∈ uses, use.1 < use.2

instance (uses : List (ℕ × ℕ)) : Decidable (InRange uses) := inferInstanceAs (Decidable (∀ use ∈ uses, _))

variable {w}

theorem access_inRange {idx : ℕ} (hi : idx < w.pollFds.length) : (w.access idx).1 < (w.access idx).2 := hi

theorem InRange.nil : InRange [] := by simp [InRange]

theorem InRange.cons {idx : ℕ} {uses : List (ℕ × ℕ)} (hi : idx < w.pollFds.length) (h : InRange uses) :
    InRange (w.access idx :: uses) := by
  intro use hmem
  rcases List.mem_cons.mp hmem with rfl | hmem
  · exact access_inRange hi
  · exact h use hmem

theorem InRange.single {idx : ℕ} (hi : idx < w.pollFds.length) : InRange [w.access idx] := .cons hi .nil

/-- A use of a position there is, before uses in range. -/
theorem InRange.after {α : Type} {idx : ℕ} {t : Traced α} (hi : idx < w.pollFds.length) (h : InRange t.uses) :
    InRange (t.after (w.access idx)).uses := .cons hi h

theorem length_of_reports {v : World} (hv : v.reports = w.reports) : v.pollFds.length = w.pollFds.length := by
  rw [← length_reports, hv, length_reports]

theorem InRange.same {v : World} {idx : ℕ} (hi : idx < w.pollFds.length) (hv : v.reports = w.reports) :
    InRange [v.access idx] := .single (by rwa [length_of_reports hv])

theorem removeClient_inRange {idx : ℕ} (reaped : Bool) (reason : RemoveReason) (hi : idx < w.pollFds.length)
    (hb : w.PipesBehind idx) : InRange (w.removeClientTraced idx reaped reason).uses := by
  obtain ⟨hidx, hd⟩ := removeScript_drops reaped hi hb
  have hlast : (w.removeScript idx reaped).2 < (w.removeScript idx reaped).1.pollFds.length := by
    rw [hidx, ← length_reports]
    apply hd.lt_length
    rwa [length_reports]
  exact .after hi (.after hlast .nil)

theorem handlePollErrors_inRange {idx : ℕ} (a : Answers) (hi : idx < w.pollFds.length) (hb : w.PipesBehind idx) :
    InRange (w.handlePollErrorsTraced a idx).uses := by
  refine .after hi ?_
  split
  · split
    · exact .nil
    · split
      · exact .nil
      · split
        · exact .single hi
        · exact removeClient_inRange _ _ hi hb
  · exact .nil

theorem cgiOutputLoop_inRange {idx : ℕ} (a : Answers) (cgiFd c : Fd) (answers : List ReadAnswer) (total : ℕ)
    (client : Client) (hi : idx < w.pollFds.length) :
    InRange (cgiOutputLoopTraced a idx cgiFd c answers total w client).uses := by
  induction answers generalizing w client total with
  | nil => exact .nil
  | cons answer answers ih =>
    unfold cgiOutputLoopTraced
    split
    · split
      · next bytes _ =>
        have hsame := w.reports_cgiOutputRead c client bytes
        dsimp only
        split
        · exact .same hi hsame
        · exact ih _ _ (by rwa [length_of_reports hsame])
      · exact .nil
      · exact .single hi
      · exact .single hi
    · exact .nil

theorem handleCgiOutput_inRange {idx : ℕ} (a : Answers) (hi : idx < w.pollFds.length) :
    InRange (w.handleCgiOutputTraced a idx).uses := by
  refine .after hi ?_
  split
  · exact .single hi
  · split
    · exact .single hi
    · exact cgiOutputLoop_inRange a _ _ _ _ _ hi

theorem handleCgiStdinWritable_inRange {idx : ℕ} (a : Answers) (hi : idx < w.pollFds.length) :
    InRange (w.handleCgiStdinWritableTraced a idx).uses := by
  refine .after hi ?_
  split
  · exact .single hi
  · split
    · exact .single hi
    · dsimp only
      split
      · exact .same hi (by simp)
      · split
        · refine .same hi ?_
          split <;> simp
        · exact .nil

theorem bodyLoop_inRange {idx : ℕ} (a : Answers) (c : Fd) (answers : List ReadAnswer) (writes : List ℕ) (total : ℕ)
    {client : Client} (hi : idx < w.pollFds.length) (hb : InputBehind w idx client) :
    InRange (bodyLoopTraced a idx c answers writes total w client).uses := by
  induction answers generalizing w client writes total with
  | nil => exact .nil
  | cons answer answers ih =>
    unfold bodyLoopTraced
    split
    · split
      · exact .single hi
      · split
        · exact .nil
        · exact .nil
        · exact .nil
        · next bytes _ =>
          obtain ⟨-, hsome⟩ := forwardBody_fed a.now c bytes (writes.head?.getD 0) hi hb
          split
          · exact .nil
          · next w' client' hw =>
            rw [hw] at hsome
            have hh := hsome client' rfl
            apply ih _ _ (hh.grown.lt_length hi)
            intro fd hfd
            rw [hh.grown.take_fds hi]
            exact hb fd (hh.input ▸ hfd)
    · exact .nil

theorem reports_of_pipe {v : World} {answer : Option (Fd × Fd)} {r t : Fd} (h : w.pipe answer = some (r, t, v)) :
    v.reports = w.reports := by
  obtain ⟨-, -, -, rfl⟩ := w.pipe_eq_some h
  rfl

theorem dispatchCgi_inRange {idx : ℕ} (a : Answers) (c : Fd) (client : Client) (hi : idx < w.pollFds.length) :
    InRange (w.dispatchCgiTraced a c client idx).uses := by
  unfold dispatchCgiTraced
  split
  · exact .nil
  · split
    · exact .single hi
    · next r t v hin =>
      have hsame := reports_of_pipe hin
      split
      · exact .same hi hsame
      · next r' t' v' hout =>
        split
        · exact .same hi ((reports_of_pipe hout).trans hsame)
        · exact .nil

theorem requestBytes_inRange {idx : ℕ} (a : Answers) (c : Fd) (client : Client) (bytes : Bytes)
    (hi : idx < w.pollFds.length) : InRange (w.requestBytesTraced a c client idx bytes).uses := by
  unfold requestBytesTraced
  split
  · exact .nil
  · exact .single hi
  · exact dispatchCgi_inRange a c _ hi
  · exact .single hi

theorem handleClientRead_inRange {idx : ℕ} (a : Answers) (hi : idx < w.pollFds.length) (hb : w.PipesBehind idx) :
    InRange (w.handleClientReadTraced a idx).uses := by
  refine .after hi ?_
  split
  · exact .nil
  · next client hg =>
    split
    · exact bodyLoop_inRange a _ _ _ _ hi (fun fd h => hb client hg fd (Or.inr h))
    · dsimp only
      split
      · exact removeClient_inRange _ _ hi hb
      · exact removeClient_inRange _ _ hi hb
      · exact .nil
      · exact requestBytes_inRange a _ _ _ hi

theorem handlePollInput_inRange {idx : ℕ} (a : Answers) (hi : idx < w.pollFds.length) (hb : w.PipesBehind idx) :
    InRange (w.handlePollInputTraced a idx).uses := by
  refine .after hi ?_
  split
  · split
    · exact .nil
    · split
      · exact .nil
      · split
        · exact handleCgiOutput_inRange a hi
        · exact handleClientRead_inRange a hi hb
  · split
    · exact handleCgiOutput_inRange a hi
    · exact .nil

theorem complete_inRange {idx : ℕ} {fd : Fd} {client u : Client} (reaped : Bool) (reason : RemoveReason)
    (hb : w.PipesBehind idx) (hi : idx < w.pollFds.length) (hfd : (w.entry idx).fd = fd)
    (hg : w.getClient fd = some client) (ho : u.cgiStdoutFd = client.cgiStdoutFd)
    (hin : u.cgiStdinFd = client.cgiStdinFd) :
    InRange (((w.setClient fd u).modifyEntry idx PollFd.disablePollout).removeClientTraced idx reaped reason).uses := by
  obtain ⟨-, hb'⟩ := hb.of_client (v := (w.setClient fd u).modifyEntry idx PollFd.disablePollout) hi hfd
    (by simp) hg (by simp : _ = some u) ho hin
  exact removeClient_inRange reaped reason (by simpa [modifyEntry, setClient] using hi) hb'

theorem sendLoop_inRange {idx : ℕ} (a : Answers) {fd : Fd} (answers : List SendAnswer) (total : ℕ)
    {client : Client} (hfd : (w.entry idx).fd = fd) (hi : idx < w.pollFds.length)
    (hg : w.getClient fd = some client) (hb : w.PipesBehind idx) :
    InRange (sendLoopTraced a idx fd answers total w client).uses := by
  induction answers generalizing w client total with
  | nil => exact .nil
  | cons answer answers ih =>
    change InRange (Traced.uses (if total < fairIoLimit then _ else _))
    split
    · split
      · refine .after hi ?_
        split
        · exact .nil
        · exact complete_inRange a.reaped _ hb hi hfd hg rfl rfl
      · split
        · exact .nil
        · exact removeClient_inRange _ _ hi hb
        · next n _ =>
          dsimp only
          split
          · obtain ⟨hlen, hfd', hg', hb'⟩ := sendPending_behind a.now (min n client.cgiSendPending.size)
              (Nat.min_le_right _ _) hfd hi hg hb
            exact ih _ hfd' hlen hg' hb'
          · exact ih total hfd hi hg hb
    · exact .nil

theorem sendResponse_inRange {idx : ℕ} (a : Answers) {fd : Fd} {client : Client}
    (hfd : (w.entry idx).fd = fd) (hi : idx < w.pollFds.length) (hg : w.getClient fd = some client)
    (hb : w.PipesBehind idx) : InRange (w.sendResponseTraced a idx fd client).uses := by
  unfold sendResponseTraced
  dsimp only
  split
  · exact removeClient_inRange _ _ hi hb
  · exact removeClient_inRange _ _ hi hb
  · next n _ =>
    split
    · obtain ⟨hfd', hb'⟩ := hb.sent (u := (client.advanceResponseOffset
          (min n (client.response.length - client.responseOffset))).updateActivity a.now) hi hfd hg rfl rfl
        (.sent fd false ((client.response.drop client.responseOffset).take
          (min n (client.response.length - client.responseOffset))))
      exact .after hi (complete_inRange a.reaped _ hb' hi hfd' (getClient_setClient_self _ _ _) rfl rfl)
    · exact .nil

theorem handlePollOutput_inRange {idx : ℕ} (a : Answers) (hi : idx < w.pollFds.length) (hb : w.PipesBehind idx) :
    InRange (w.handlePollOutputTraced a idx).uses := by
  refine .after hi ?_
  split
  · split
    · exact handleCgiStdinWritable_inRange a hi
    · split
      · exact .nil
      · next client hg =>
        split
        · exact sendLoop_inRange a _ 0 rfl hi hg hb
        · split
          · exact .nil
          · exact sendResponse_inRange a rfl hi hg hb
  · exact .nil

end World

/-- The handlers that every entry is passed to. -/
inductive Stage
  | errors | input
deriving DecidableEq, Repr

namespace LoopState

def inPass (s : LoopState) : Bool :=
  match s.point with
  | .errors _ => true
  | .input _ => true
  | .output _ => true
  | _ => false

/-- The pass has come to its end. -/
def passOver (s : LoopState) : Bool :=
  match s.point with
  | .timeouts _ _ => true
  | _ => false

/-- The handler that is called next, and the entry as it gets it. -/
def call (s : LoopState) : List (Stage × Fd × Readiness) :=
  match s.point with
  | .errors idx => (s.world.reports[idx]?).toList.map (Stage.errors, ·)
  | .input idx => (s.world.reports[idx]?).toList.map (Stage.input, ·)
  | _ => []

def calls (s : LoopState) : List Answers → List (Stage × Fd × Readiness)
  | [] => []
  | a :: as => s.call ++ (s.step a).calls as

/-- The calls that are due to an entry of the pass. -/
def due (report : Fd × Readiness) : List (Stage × Fd × Readiness) := [(.errors, report), (.input, report)]

/-- The handlers find the pipes of their client behind it, and a client that is read stays. -/
def Orderly (s : LoopState) (a : Answers) : Prop :=
  match s.point with
  | .errors idx => s.world.PipesBehind idx
  | .input idx => s.world.PipesBehind idx ∧ (s.world.readsClient idx = true → s.world.ReadKeeps a idx)
  | .output idx => s.world.PipesBehind idx
  | _ => True

/-- The entry whose turn it is exists. -/
def OnEntry (s : LoopState) : Prop :=
  match s.point with
  | .input idx => idx < s.world.pollFds.length
  | .output idx => idx < s.world.pollFds.length
  | _ => True

/-- The calls still due to the entries of a descriptor. -/
def waiting (s : LoopState) (fd : Fd) : List (Stage × Fd × Readiness) :=
  match s.point with
  | .errors idx => ((s.world.reports.drop idx).filter (·.1 = fd)).flatMap due
  | .input idx => s.call.filter (·.2.1 = fd) ++ ((s.world.reports.drop (idx + 1)).filter (·.1 = fd)).flatMap due
  | .output idx => ((s.world.reports.drop (idx + 1)).filter (·.1 = fd)).flatMap due
  | _ => []

theorem count_fds (w : World) (fd : Fd) : w.fds.count fd = w.reports.countP (·.1 = fd) := by
  rw [← map_fst_reports, List.count_eq_countP, List.countP_map]
  rfl

/-- While no entry of a descriptor is lost, a turn leaves those that wait and adds quiet ones. -/
theorem kept_waiting {w v : World} {idx : ℕ} (fd : Fd) (h : World.Turn idx w true v)
    (hi : idx < w.pollFds.length) (hc : w.fds.count fd ≤ v.fds.count fd) :
    (v.reports.drop (idx + 1)).filter (·.1 = fd) = (w.reports.drop (idx + 1)).filter (·.1 = fd) ++
      List.replicate (v.fds.count fd - w.fds.count fd) (fd, ({} : Readiness)) := by
  rw [count_fds, count_fds] at hc ⊢
  obtain ⟨added, hnew, hdrop, hcount⟩ := h.kept_filter (by rwa [length_reports]) hc
  have hadded : added = List.replicate added.length (fd, ({} : Readiness)) := by
    rw [List.eq_replicate_iff]
    refine ⟨rfl, ?_⟩
    intro report hmem
    obtain ⟨hquiet, hfd⟩ := hnew report hmem
    exact Prod.ext (by simpa using hfd) hquiet
  rw [hdrop, hcount, Nat.add_sub_cancel_left, ← hadded]

theorem dropped_waiting {w v : World} {idx : ℕ} {report : Fd × Readiness} (fd : Fd) (h : World.Turn idx w false v)
    (hi : w.reports[idx]? = some report) (hc : w.fds.count fd ≤ v.fds.count fd) :
    report.1 ≠ fd ∧ (v.reports.drop idx).filter (·.1 = fd) = (w.reports.drop (idx + 1)).filter (·.1 = fd) ∧
      v.fds.count fd = w.fds.count fd := by
  rw [count_fds, count_fds] at hc ⊢
  obtain ⟨hp, hdrop, hcount⟩ := h.dropped_filter hi hc
  exact ⟨by simpa using hp, hdrop, hcount⟩

/-- What the calls for a descriptor grow by in a step is what was due, or due to new entries. -/
def Settles (s t : LoopState) (fd : Fd) : Prop :=
  s.waiting fd ++ (List.replicate (t.world.fds.count fd - s.world.fds.count fd) (fd, ({} : Readiness))).flatMap due =
    s.call.filter (·.2.1 = fd) ++ t.waiting fd

/-- A turn that ends with the position to go on at. -/
theorem goes_settles {w : World} {idx : ℕ} {res : ℕ × World} (fd : Fd) (hg : Goes idx w res)
    (hi : idx < w.pollFds.length) (hc : w.fds.count fd ≤ res.2.fds.count fd) :
    ((w.reports.drop (idx + 1)).filter (·.1 = fd)).flatMap due ++
      (List.replicate (res.2.fds.count fd - w.fds.count fd) (fd, ({} : Readiness))).flatMap due =
    waiting ⟨res.2, .errors res.1⟩ fd := by
  obtain ⟨kept, hturn, hidx⟩ := hg
  rw [← List.flatMap_append]
  cases kept with
  | true =>
    rw [← kept_waiting fd hturn hi hc, hidx]
    rfl
  | false =>
    obtain ⟨report, hr⟩ : ∃ report, w.reports[idx]? = some report :=
      ⟨_, List.getElem?_eq_getElem (by rwa [length_reports])⟩
    obtain ⟨-, hdrop, hcount⟩ := dropped_waiting fd hturn hr hc
    rw [hcount, Nat.sub_self, List.replicate_zero, List.append_nil, ← hdrop, hidx]
    rfl

theorem drop_getElem? {α : Type*} {l : List α} {i : ℕ} {x : α} (h : l[i]? = some x) : l.drop i = x :: l.drop (i + 1) := by
  obtain ⟨hi, rfl⟩ := List.getElem?_eq_some_iff.mp h
  exact List.drop_eq_getElem_cons hi

/-- What a step of the pass has to do. -/
def Keeps (s : LoopState) (a : Answers) : Prop :=
  InRange (s.accesses a) ∧ (s.step a).OnEntry ∧ ((s.step a).point ≠ .aborted →
    ∀ fd, s.world.fds.count fd ≤ (s.step a).world.fds.count fd → Settles s (s.step a) fd)

theorem reports_getElem? {w : World} {idx : ℕ} (hi : idx < w.pollFds.length) :
    ∃ report, w.reports[idx]? = some report := ⟨_, List.getElem?_eq_getElem (by rwa [length_reports])⟩

theorem step_errors {w : World} {idx : ℕ} (a : Answers) (hb : w.PipesBehind idx) : Keeps ⟨w, .errors idx⟩ a := by
  by_cases hi : idx < w.pollFds.length
  · have hturn := handlePollErrors_turn a hi hb
    obtain ⟨report, hr⟩ := reports_getElem? hi
    refine ⟨?_, ?_⟩
    · rw [accesses_errors a hi]
      exact handlePollErrors_inRange a hi hb
    simp only [step, hi, if_true]
    rcases hres : w.handlePollErrors a idx with ⟨_ | _, v⟩
    · rw [hres] at hturn
      obtain rfl : v = w := by simpa using hturn
      refine ⟨hi, ?_⟩
      intro _ fd _
      simp only [Settles, Nat.sub_self, List.replicate_zero, List.flatMap_nil, List.append_nil, waiting, call, hr]
      rw [drop_getElem? hr, List.filter_cons]
      by_cases hfd : report.1 = fd
      · simp [hfd, due]
      · simp [hfd]
    · rw [hres] at hturn
      refine ⟨trivial, ?_⟩
      intro _ fd hc
      have hgoes : Goes idx w (idx, v) := ⟨false, by simpa using hturn, rfl⟩
      obtain ⟨hne, -, -⟩ := dropped_waiting fd (by simpa using hturn) hr hc
      have hset := goes_settles fd hgoes hi hc
      simp only [Settles, call, hr]
      rw [← hset]
      simp only [waiting, drop_getElem? hr, List.filter_cons]
      simp [hne]
  · -- the pass is over
    refine ⟨by simp [accesses, stepTraced, hi, Traced.of, InRange], ?_⟩
    simp only [step, hi, if_false]
    refine ⟨trivial, ?_⟩
    intro _ fd _
    have hnone : w.reports[idx]? = none := by
      rw [List.getElem?_eq_none_iff, length_reports]
      omega
    simp only [Settles, waiting, call, hnone]
    rw [List.drop_of_length_le (by rw [length_reports]; omega)]
    simp

theorem step_input {w : World} {idx : ℕ} (a : Answers) (hi : idx < w.pollFds.length) (hb : w.PipesBehind idx)
    (hk : w.readsClient idx = true → w.ReadKeeps a idx) : Keeps ⟨w, .input idx⟩ a := by
  obtain ⟨htrue, hfalse⟩ := handlePollInput_tells a hi hb hk
  refine ⟨handlePollInput_inRange a hi hb, ?_⟩
  simp only [step]
  rcases hres : w.handlePollInput a idx with ⟨_ | _, j, v⟩ <;> dsimp only
  · rw [hres] at hfalse
    obtain ⟨hj, hturn⟩ := hfalse rfl
    dsimp only at hj hturn
    subst j
    split
    · exact ⟨trivial, fun habort => absurd rfl habort⟩
    refine ⟨?_, ?_⟩
    · change idx < v.pollFds.length
      rw [← length_reports]
      apply hturn.lt_length
      rwa [length_reports]
    · intro _ fd hc
      simp only [Settles, waiting, List.append_assoc]
      rw [kept_waiting fd hturn hi hc, List.flatMap_append]
  · rw [hres] at htrue
    split
    · exact ⟨trivial, fun habort => absurd rfl habort⟩
    refine ⟨trivial, ?_⟩
    intro _ fd hc
    simp only [Settles]
    rw [← goes_settles fd (htrue rfl) hi hc]
    simp only [waiting, List.append_assoc]

theorem step_output {w : World} {idx : ℕ} (a : Answers) (hi : idx < w.pollFds.length) (hb : w.PipesBehind idx) :
    Keeps ⟨w, .output idx⟩ a := by
  obtain ⟨htrue, hfalse⟩ := handlePollOutput_tells a hi hb
  have hrange := handlePollOutput_inRange a hi hb
  rw [Keeps, accesses_output]
  simp only [step]
  rcases hres : w.handlePollOutput a idx with ⟨_ | _, j, v⟩
  · rw [hres] at hfalse
    obtain ⟨hj, hturn⟩ := hfalse rfl
    dsimp only at hj hturn
    subst j
    have hlen : idx < v.pollFds.length := by
      rw [← length_reports]
      apply hturn.lt_length
      rwa [length_reports]
    refine ⟨?_, trivial, ?_⟩
    · intro use hmem
      rcases List.mem_append.mp hmem with hmem | hmem
      · exact hrange use hmem
      · exact InRange.single hlen use hmem
    · intro _ fd hc
      have hclear : (v.modifyEntry idx PollFd.clearRevents).fds = v.fds := fds_modifyEntry (f := PollFd.clearRevents) v (fun _ => rfl) idx
      have hbehind : (v.modifyEntry idx PollFd.clearRevents).reports.drop (idx + 1) = v.reports.drop (idx + 1) := by
        rw [reports, modifyEntry, ← List.map_drop, List.drop_modify_of_lt _ _ _ _ (Nat.lt_succ_self idx), List.map_drop,
          reports]
      simp only [hclear] at hc
      simp only [Settles, waiting, call, hclear, hbehind]
      rw [kept_waiting fd hturn hi hc, List.flatMap_append]
      simp
  · rw [hres] at htrue
    refine ⟨by simpa using hrange, trivial, ?_⟩
    intro _ fd hc
    simp only [Settles]
    rw [← goes_settles fd (htrue rfl) hi hc]
    simp [waiting, call]

/-- One step of the pass: positions in range, the entry exists, and the calls are those due. -/
theorem step_orderly {s : LoopState} (a : Answers) (hp : s.inPass = true) (he : s.OnEntry) (ho : s.Orderly a) :
    s.Keeps a := by
  obtain ⟨w, point⟩ := s
  cases point with
  | errors idx => exact step_errors a ho
  | input idx => exact step_input a he ho.1 ho.2
  | output idx => exact step_output a he ho
  | poll => cases hp
  | timeouts now i => cases hp
  | stopped => cases hp
  | aborted => cases hp

theorem waiting_of_over {s : LoopState} (h : s.passOver = true) (fd : Fd) : s.waiting fd = [] := by
  obtain ⟨w, point⟩ := s
  cases point with
  | timeouts now i => rfl
  | _ => cases h

theorem run_of_aborted {s : LoopState} (h : s.point = .aborted) (as : List Answers) : (s.run as).point = .aborted := by
  induction as generalizing s with
  | nil => exact h
  | cons a as ih =>
    apply ih
    simp only [step, h]

/-- A property of the steps of a run, each taken in the state it starts from. -/
def Throughout (P : LoopState → Answers → Prop) : LoopState → List Answers → Prop
  | _, [] => True
  | s, a :: as => P s a ∧ Throughout P (s.step a) as

instance (P : LoopState → Answers → Prop) [∀ s a, Decidable (P s a)] (s : LoopState) (as : List Answers) :
    Decidable (Throughout P s as) := by
  induction as generalizing s with
  | nil => exact inferInstanceAs (Decidable True)
  | cons a as ih => exact @instDecidableAnd _ _ _ (ih (s.step a))

/-- The calls of a pass are those due at its start and those due to the entries it added. -/
theorem run_orderly {s : LoopState} (as : List Answers) (he : s.OnEntry)
    (hp : Throughout (fun s _ => s.inPass = true) s as) (ho : Throughout Orderly s as) :
    Throughout (fun s a => InRange (s.accesses a)) s as ∧ ((s.run as).passOver = true → ∀ fd,
      Throughout (fun s a => s.world.fds.count fd ≤ (s.step a).world.fds.count fd) s as →
      s.world.fds.count fd ≤ (s.run as).world.fds.count fd ∧
      (s.calls as).filter (·.2.1 = fd) = s.waiting fd ++ (List.replicate
        ((s.run as).world.fds.count fd - s.world.fds.count fd) (fd, ({} : Readiness))).flatMap due) := by
  induction as generalizing s with
  | nil =>
    refine ⟨trivial, ?_⟩
    intro hover fd _
    rw [show s.run [] = s from rfl] at hover ⊢
    rw [waiting_of_over hover]
    simp [calls]
  | cons a as ih =>
    obtain ⟨hpa, hp'⟩ := hp
    obtain ⟨hoa, ho'⟩ := ho
    obtain ⟨hrange, he', hsettles⟩ := step_orderly a hpa he hoa
    obtain ⟨hranges, hcalls⟩ := ih he' hp' ho'
    refine ⟨⟨hrange, hranges⟩, ?_⟩
    · intro hover fd hc
      obtain ⟨hca, hc'⟩ := hc
      obtain ⟨hle, hrest⟩ := hcalls hover fd hc'
      have halive : (s.step a).point ≠ .aborted := by
        intro habort
        rw [passOver, show s.run (a :: as) = (s.step a).run as from rfl, run_of_aborted habort as] at hover
        cases hover
      have hset := hsettles halive fd hca
      rw [Settles] at hset
      have hsplit : (s.run (a :: as)).world.fds.count fd - s.world.fds.count fd =
          ((s.step a).world.fds.count fd - s.world.fds.count fd) +
            (((s.step a).run as).world.fds.count fd - (s.step a).world.fds.count fd) := by
        change ((s.step a).run as).world.fds.count fd - _ = _
        omega
      refine ⟨hca.trans hle, ?_⟩
      rw [calls, List.filter_append, hrest, hsplit, List.replicate_add, List.flatMap_append, ← List.append_assoc,
        ← List.append_assoc, hset]

/-- A pass is to use positions in range only. When it is over, the entries of a descriptor that lost
none were each passed to the handler for errors and then to the one for input, with what was
reported for them; an entry that was added has nothing reported. -/
def Sweeps (w : World) (as : List Answers) : Prop :=
  Throughout (fun s a => InRange (s.accesses a)) ⟨w, .errors 0⟩ as ∧
  ((run ⟨w, .errors 0⟩ as).passOver = true → ∀ fd,
    Throughout (fun s a => s.world.fds.count fd ≤ (s.step a).world.fds.count fd) ⟨w, .errors 0⟩ as →
    (calls ⟨w, .errors 0⟩ as).filter (·.2.1 = fd) = (w.reports.filter (·.1 = fd) ++ List.replicate
      ((run ⟨w, .errors 0⟩ as).world.fds.count fd - w.fds.count fd) (fd, ({} : Readiness))).flatMap due)

/-- A pass over any entries does what it is to do as long as the handlers find the pipes of their
client behind it, and no read drops its client. -/
theorem pass_sweeps (w : World) (as : List Answers)
    (hp : Throughout (fun s _ => s.inPass = true) ⟨w, .errors 0⟩ as)
    (ho : Throughout Orderly ⟨w, .errors 0⟩ as) : Sweeps w as := by
  obtain ⟨hrange, hcalls⟩ := run_orderly as (s := ⟨w, .errors 0⟩) trivial hp ho
  refine ⟨hrange, ?_⟩
  intro hover fd hc
  rw [(hcalls hover fd hc).2, List.flatMap_append]
  rfl

/-! ## Two passes -/

instance (w : World) (idx : ℕ) : Decidable (w.PipesBehind idx) :=
  decidable_of_iff (∀ client ∈ w.getClient (w.entry idx).fd,
    (∀ fd ∈ client.cgiStdoutFd, fd ∉ w.fds.take (idx + 1)) ∧ ∀ fd ∈ client.cgiStdinFd, fd ∉ w.fds.take (idx + 1)) (by
    refine forall₂_congr ?_
    intro client _
    simp only [Option.mem_def, or_imp, forall_and])

instance (w : World) (a : Answers) (idx : ℕ) : Decidable (w.ReadKeeps a idx) :=
  decidable_of_iff (∃ client ∈ w.getClient (w.entry idx).fd, client.cgiActive = true ∨
    (w.read client.fd (a.reads.head?.getD .again) ≠ .eof ∧ w.read client.fd (a.reads.head?.getD .again) ≠ .error))
    (by simp [ReadKeeps])

instance (s : LoopState) (a : Answers) : Decidable (s.Orderly a) := by
  unfold Orderly
  split <;> infer_instance

end LoopState

/-- Two clients are connected, and `poll` reports that they can be read. -/
def readable : LoopState :=
  scriptStart.run (pass 3 [{ pollin := true }] { accepts := [4, 5] } ++
    [{ poll := .ready [{}, { pollin := true }, { pollin := true }] }])

theorem pass_sweeps_readable : LoopState.Sweeps readable.world
    (List.replicate 10 { reads := [.data (ascii "GET / HTTP/1.1\r\n")] }) :=
  LoopState.pass_sweeps readable.world _ (by decide +kernel) (by decide +kernel)

/-- When the first client left, the second is passed to no handler; when the second left, a position
behind the last entry is used. -/
theorem dropped_client_unsafe : Reachable readable ∧ readable.point = .errors 0 ∧
    ¬ LoopState.Sweeps readable.world (List.replicate 7 { reads := [.eof] }) ∧
    ¬ LoopState.Sweeps readable.world
      (List.replicate 7 { reads := [.data (ascii "GET / HTTP/1.1\r\n")] } ++
        List.replicate 2 { reads := [.eof] }) := by
  refine ⟨scriptStart_reachable _, by decide +kernel, ?_, ?_⟩
  · intro h
    have hcalls := h.2 (by decide +kernel) 5 (by decide +kernel)
    revert hcalls
    decide +kernel
  · intro h
    have hrange := h.1
    revert hrange
    decide +kernel

end WebServ
