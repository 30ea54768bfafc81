import WebServ.Lib.Progress
import WebServ.Server.Throws
import WebServ.Server.Turns

/-! # Every pass comes to its end

The handlers move the position, drop entries anywhere and add new ones while a pass
goes over the entries. Entries are only added by the turn of an entry that has input,
and new entries have none, so the pass gets back to `poll`.
-/
namespace WebServ
open Search KeyedList

namespace World
variable {w w' w'' : World} {idx : ℕ}

/-! ## What a turn does to the entries -/

/-- Entries were dropped anywhere, and entries with nothing reported were appended. -/
def Thinned (w w' : World) : Prop :=
  ∃ kept added, kept.Sublist w.reports ∧ (∀ report ∈ added, report.2 = {}) ∧ w'.reports = kept ++ added

/-- What stands from the position on stood behind it. -/
def Dropped (idx : ℕ) (w w' : World) : Prop := (w'.reports.drop idx).Sublist (w.reports.drop (idx + 1))

/-- The entries with input from a position on. -/
def dueFrom (w : World) (k : ℕ) : ℕ := (w.reports.drop k).countP (·.2.pollin)

theorem Thinned.of_reports (h : w'.reports = w.reports) : Thinned w w' :=
  ⟨w.reports, [], List.Sublist.refl _, by simp, by simpa using h⟩

theorem Grown.thinned (h : Grown w w') : Thinned w w' := by
  obtain ⟨added, hnew, hadded⟩ := h
  exact ⟨w.reports, added, List.Sublist.refl _, hnew, hadded⟩

theorem Thinned.of_sublist (h : w'.reports.Sublist w.reports) : Thinned w w' :=
  ⟨w'.reports, [], h, by simp, by simp⟩

theorem Thinned.trans (h : Thinned w w') (h' : Thinned w' w'') : Thinned w w'' := by
  obtain ⟨kept, added, hkept, hnew, hw'⟩ := h
  obtain ⟨kept', added', hkept', hnew', hw''⟩ := h'
  rw [hw', List.sublist_append_iff] at hkept'
  obtain ⟨front, back, rfl, hfront, hback⟩ := hkept'
  refine ⟨front, back ++ added', hfront.trans hkept, ?_, by rw [hw'', List.append_assoc]⟩
  intro report hr
  rcases List.mem_append.mp hr with hr | hr
  · exact hnew report (hback.subset hr)
  · exact hnew' report hr

/-- No turn makes input appear. -/
theorem Thinned.due_le (h : Thinned w w') (k : ℕ) : w'.dueFrom k ≤ w.dueFrom k := by
  obtain ⟨kept, added, hkept, hnew, hw'⟩ := h
  have hadded : (added.drop (k - kept.length)).countP (·.2.pollin) = 0 := by
    rw [List.countP_eq_zero]
    intro report hr
    simp [hnew report (List.mem_of_mem_drop hr)]
  have hfront := (hkept.drop k).countP_le (p := fun report : Fd × Readiness => report.2.pollin)
  unfold dueFrom
  rw [hw', List.drop_append, List.countP_append, hadded]
  omega

theorem dueFrom_succ_le (w : World) (k : ℕ) : w.dueFrom (k + 1) ≤ w.dueFrom k := by
  unfold dueFrom
  rw [← List.drop_drop]
  exact (List.drop_sublist 1 _).countP_le

/-- An entry with input counts. -/
theorem dueFrom_succ_lt (h : (w.entry idx).revents.pollin = true) : w.dueFrom (idx + 1) < w.dueFrom idx := by
  have hidx : idx < w.pollFds.length := by
    by_contra hge
    simp [entry, List.getElem?_eq_none (Nat.le_of_not_lt hge)] at h
  have hlt : idx < w.reports.length := by rwa [length_reports]
  have hreport : w.reports[idx] = ((w.entry idx).fd, (w.entry idx).revents) := by
    simp [reports, entry, List.getElem?_eq_getElem hidx]
  unfold dueFrom
  rw [List.drop_eq_getElem_cons hlt, List.countP_cons, hreport, if_pos h]
  omega

theorem Dropped.due_le (h : Dropped idx w w') : w'.dueFrom idx ≤ w.dueFrom (idx + 1) := h.countP_le

theorem Dropped.left_lt (h : Dropped idx w w') (hidx : idx < w.pollFds.length) :
    w'.pollFds.length - idx < w.pollFds.length - idx := by
  have hlen := h.length_le
  rw [List.length_drop, List.length_drop, length_reports, length_reports] at hlen
  omega

theorem Dropped.congr {v : World} (hv : v.reports = w.reports) (h : Dropped idx v w') : Dropped idx w w' := by
  rw [Dropped, hv] at h
  exact h

theorem dropped_eraseEntry {v : World} (hv : v.reports.Sublist w.reports) {i : ℕ} (hi : i ≤ idx) :
    Dropped idx w (v.eraseEntry i) := by
  have hdrop : (v.reports.eraseIdx i).drop idx = v.reports.drop (idx + 1) := by
    rw [List.eraseIdx_eq_take_drop_succ, List.drop_append, List.length_take]
    by_cases hlen : i ≤ v.reports.length
    · rw [List.drop_eq_nil_of_le (by rw [List.length_take]; omega), List.nil_append, List.drop_drop]
      congr 1
      omega
    · rw [List.drop_eq_nil_of_le (by rw [List.length_take]; omega),
        List.drop_eq_nil_of_le (by rw [List.length_drop]; omega), List.drop_eq_nil_of_le (by omega)]
      rfl
  rw [Dropped, reports_eraseEntry, hdrop]
  exact hv.drop (idx + 1)

/-! ## Removal -/

theorem dropBeside_thinned (w : World) (fd : Fd) (index : ℕ) :
    (w.dropBeside fd index).1.reports.Sublist w.reports ∧ (w.dropBeside fd index).2 ≤ index := by
  unfold dropBeside
  split
  · refine ⟨List.eraseP_sublist.map _, ?_⟩
    dsimp only
    split <;> omega
  · exact ⟨List.Sublist.refl _, le_refl index⟩

theorem removeScript_thinned (w : World) (index : ℕ) (reaped : Bool) :
    (w.removeScript index reaped).1.reports.Sublist w.reports ∧ (w.removeScript index reaped).2 ≤ index := by
  have hout (client : Client) : (w.dropOutput client index).1.reports.Sublist w.reports ∧
      (w.dropOutput client index).2 ≤ index := by
    unfold dropOutput
    split
    · exact dropBeside_thinned (w.eraseCgiFd _) _ index
    · exact ⟨List.Sublist.refl _, le_refl index⟩
  have hin (v : World) (client : Client) (i : ℕ) : (v.dropInput client i).1.reports.Sublist v.reports ∧
      (v.dropInput client i).2 ≤ i := by
    unfold dropInput
    split
    · exact dropBeside_thinned (v.eraseCgiStdinFd _) _ i
    · exact ⟨List.Sublist.refl _, le_refl i⟩
  unfold removeScript
  split
  · exact ⟨List.Sublist.refl _, le_refl index⟩
  · next client _ =>
    obtain ⟨hsub, hle⟩ := hout client
    obtain ⟨hsub', hle'⟩ := hin (w.dropOutput client index).1 client (w.dropOutput client index).2
    dsimp only
    rw [reports_setClient, reports_finishCgi]
    exact ⟨hsub'.trans hsub, hle'.trans hle⟩

theorem removeClient_dropped (w : World) (idx : ℕ) (reaped : Bool) (reason : RemoveReason) :
    Dropped idx w (w.removeClient idx reaped reason) := by
  obtain ⟨hsub, hle⟩ := w.removeScript_thinned idx reaped
  exact dropped_eraseEntry (v := ((w.removeScript idx reaped).1.closeFd _).eraseClient _) hsub hle

theorem stdinHangup_dropped (w : World) (idx : ℕ) (fd : Fd) : Dropped idx w (w.stdinHangup idx fd) := by
  unfold stdinHangup
  apply dropped_eraseEntry _ (le_refl idx)
  split
  · exact List.Sublist.refl _
  · split
    · exact List.Sublist.refl _
    · rw [reports_setClient, reports_closeCgiStdin]
      exact List.Sublist.refl _

/-! ## Pipes -/

/-- The pass goes on behind the entry, or the entry was dropped. -/
def Passed (idx : ℕ) (w : World) (res : ℕ × World) : Prop :=
  (res.1 = idx + 1 ∧ res.2.reports = w.reports) ∨ (res.1 = idx ∧ Dropped idx w res.2)

theorem Passed.congr {v : World} {res : ℕ × World} (hv : v.reports = w.reports) (h : Passed idx v res) :
    Passed idx w res := by
  rcases h with ⟨hidx, hr⟩ | ⟨hidx, hd⟩
  · exact Or.inl ⟨hidx, hr.trans hv⟩
  · exact Or.inr ⟨hidx, hd.congr hv⟩

theorem cgiOutputEnd_dropped (w : World) (a : Answers) (idx : ℕ) (cgiFd c : Fd) (client : Client) :
    Dropped idx w (w.cgiOutputEnd a idx cgiFd c client) := by
  have herase : Dropped idx w (((w.eraseCgiFd cgiFd).closeFd cgiFd).eraseEntry idx) :=
    dropped_eraseEntry (List.Sublist.refl _) (le_refl idx)
  rw [Dropped] at herase ⊢
  unfold cgiOutputEnd
  dsimp only
  rwa [reports_finalizeCgi]

theorem cgiOutputLoop_passed (a : Answers) (cgiFd c : Fd) (answers : List ReadAnswer) (total : ℕ) (w : World)
    (client : Client) : Passed idx w (cgiOutputLoop a idx cgiFd c answers total w client) := by
  induction answers generalizing total w client with
  | nil => exact Or.inl ⟨rfl, rfl⟩
  | cons answer answers ih =>
    unfold cgiOutputLoop
    split
    · split
      · next bytes _ =>
        have hsame := w.reports_cgiOutputRead c client bytes
        dsimp only
        split
        · exact Or.inl ⟨rfl, by simp [hsame]⟩
        · exact (ih _ _ _).congr hsame
      · exact Or.inl ⟨rfl, rfl⟩
      · exact Or.inr ⟨rfl, cgiOutputEnd_dropped w a idx cgiFd c client⟩
      · exact Or.inr ⟨rfl, cgiOutputEnd_dropped w a idx cgiFd c client⟩
    · exact Or.inl ⟨rfl, rfl⟩

theorem handleCgiOutput_passed (w : World) (a : Answers) (idx : ℕ) : Passed idx w (w.handleCgiOutput a idx) := by
  have herased (fd : Fd) : Dropped idx w (((w.closeFd fd).eraseCgiFd fd).eraseEntry idx) :=
    dropped_eraseEntry (List.Sublist.refl _) (le_refl idx)
  unfold handleCgiOutput
  dsimp only
  split
  · exact Or.inr ⟨rfl, herased _⟩
  · split
    · exact Or.inr ⟨rfl, herased _⟩
    · exact cgiOutputLoop_passed a _ _ _ _ w _

theorem handleCgiStdinWritable_passed (w : World) (a : Answers) (idx : ℕ) :
    Passed idx w (w.handleCgiStdinWritable a idx) := by
  unfold handleCgiStdinWritable
  dsimp only
  split
  · exact Or.inr ⟨rfl, dropped_eraseEntry (List.Sublist.refl _) (le_refl idx)⟩
  · split
    · exact Or.inr ⟨rfl, dropped_eraseEntry (List.Sublist.refl _) (le_refl idx)⟩
    · split
      · refine Or.inr ⟨rfl, dropped_eraseEntry ?_ (le_refl idx)⟩
        rw [reports_setClient, reports_closeCgiStdin]
        exact List.Sublist.refl _
      · refine Or.inl ⟨rfl, ?_⟩
        split <;> split <;> simp

/-! ## Clients -/

theorem erasePollFd_thinned (w : World) (fd : Fd) : Thinned w (w.erasePollFd fd) :=
  .of_sublist (List.eraseP_sublist.map _)

theorem forwardPiece_thinned (w : World) (c : Fd) (client : Client) (stdinFd : Fd) (piece : Bytes) (answer : ℕ) :
    Thinned w (w.forwardPiece c client stdinFd piece answer).1 :=
  (forwardPiece_handed w c client stdinFd piece answer).grown.thinned

theorem inputComplete_thinned (w : World) (c : Fd) (client : Client) (stdinFd : Fd) :
    Thinned w (w.inputComplete c client stdinFd) := by
  unfold inputComplete
  split
  · have hsame : Thinned w (((w.closeCgiStdin client).1.setClient c (w.closeCgiStdin client).2).eraseCgiStdinFd
        stdinFd) := .of_reports (by simp)
    exact hsame.trans (erasePollFd_thinned _ stdinFd)
  · exact .of_reports rfl

theorem forwardBody_thinned (w : World) (now : ℕ) (c : Fd) (client : Client) (bytes : Bytes) (answer : ℕ) :
    Thinned w (w.forwardBody now c client bytes answer).1 := by
  have hpiece (u : Client) (stdinFd : Fd) (piece : Bytes) :
      Thinned w ((w.log (.bodyRead c bytes)).forwardPiece c u stdinFd piece answer).1 :=
    forwardPiece_thinned (w.log (.bodyRead c bytes)) c u stdinFd piece answer
  unfold forwardBody
  dsimp only
  split
  · exact .of_reports rfl
  split
  · split
    · split
      · exact (hpiece _ _ _).trans (inputComplete_thinned _ _ _ _)
      · exact hpiece _ _ _
    · exact .of_reports (reports_endInput _ _ _)
  · split
    · exact (hpiece _ _ _).trans (inputComplete_thinned _ _ _ _)
    · exact hpiece _ _ _

theorem bodyLoop_thinned (a : Answers) (idx : ℕ) (c : Fd) (answers : List ReadAnswer) (writes : List ℕ) (total : ℕ)
    (w : World) (client : Client) : Thinned w (bodyLoop a idx c answers writes total w client) := by
  induction answers generalizing w client writes total with
  | nil => exact .of_reports rfl
  | cons answer answers ih =>
    unfold bodyLoop
    split
    · split
      · exact .of_reports (by simp)
      · split
        · exact .of_reports (reports_endInput _ _ _)
        · exact .of_reports (reports_endInput _ _ _)
        · exact .of_reports rfl
        · next bytes _ =>
          have hbody := w.forwardBody_thinned a.now c client bytes (writes.head?.getD 0)
          split
          · next hw =>
            rw [hw] at hbody
            exact hbody
          · next hw =>
            rw [hw] at hbody
            exact hbody.trans (ih _ _ _ _)
    · exact .of_reports rfl

/-- A read from a client may add entries, or remove the client. -/
theorem handleClientRead_due (w : World) (a : Answers) (idx : ℕ) :
    (w.handleClientRead a idx).2.dueFrom ((w.handleClientRead a idx).1 + 1) ≤ w.dueFrom (idx + 1) := by
  have hstay {v : World} (h : Thinned w v) : v.dueFrom (idx + 1) ≤ w.dueFrom (idx + 1) := h.due_le (idx + 1)
  have hremoved (reason : RemoveReason) (e : Event) :
      ((w.log e).removeClient idx a.reaped reason).dueFrom (idx + 1) ≤ w.dueFrom (idx + 1) :=
    (dueFrom_succ_le _ idx).trans ((removeClient_dropped (w.log e) idx a.reaped reason).due_le)
  unfold handleClientRead
  dsimp only
  split
  · exact dueFrom_succ_le w (idx + 1)
  · split
    · exact hstay (bodyLoop_thinned _ _ _ _ _ _ _ _)
    · split
      · exact hremoved _ _
      · exact hremoved _ _
      · exact le_refl _
      · exact hstay (requestBytes_grown _ _ _ _ _ _).thinned

/-! ## Sending -/

theorem sendLoop_dropped (a : Answers) (fd : Fd) (answers : List SendAnswer) (total : ℕ) (w : World) (client : Client) :
    if (sendLoop a idx fd answers total w client).1 then Dropped idx w (sendLoop a idx fd answers total w client).2
    else (sendLoop a idx fd answers total w client).2.reports = w.reports := by
  induction answers generalizing w client total with
  | nil => exact rfl
  | cons answer answers ih =>
    unfold sendLoop
    split
    · split
      · split
        · simp
        · refine (removeClient_dropped _ idx a.reaped .complete).congr ?_
          simp
      · split
        · exact rfl
        · exact removeClient_dropped w idx a.reaped .sendError
        · next n _ =>
          dsimp only
          split
          · have hsame : (w.sendPending a.now fd client (min n client.cgiSendPending.size)
                (Nat.min_le_right _ _)).1.reports = w.reports := reports_resumeCgiOutput _ _
            have hrec := ih (total + min n client.cgiSendPending.size) (w.sendPending a.now fd client
              (min n client.cgiSendPending.size) (Nat.min_le_right _ _)).1 (w.sendPending a.now fd client
                (min n client.cgiSendPending.size) (Nat.min_le_right _ _)).2
            rw [Dropped, hsame] at hrec
            exact hrec
          · exact ih total w client
    · exact rfl

theorem sendResponse_dropped (w : World) (a : Answers) (idx : ℕ) (fd : Fd) (client : Client) :
    if (w.sendResponse a idx fd client).1 then Dropped idx w (w.sendResponse a idx fd client).2
    else (w.sendResponse a idx fd client).2.reports = w.reports := by
  unfold sendResponse
  dsimp only
  split
  · exact removeClient_dropped w idx a.reaped .sendError
  · exact removeClient_dropped w idx a.reaped .sendError
  · split
    · refine (removeClient_dropped _ idx a.reaped .complete).congr ?_
      simp
    · exact rfl

/-! ## Handlers -/

theorem handlePollErrors_dropped (w : World) (a : Answers) (idx : ℕ) :
    if (w.handlePollErrors a idx).1 then Dropped idx w (w.handlePollErrors a idx).2
    else (w.handlePollErrors a idx).2 = w := by
  unfold handlePollErrors
  dsimp only
  split
  · split
    · exact rfl
    · split
      · exact rfl
      · split
        · exact stdinHangup_dropped w idx _
        · exact removeClient_dropped w idx a.reaped .hangup
  · exact rfl

/-- Behind the last entry nothing is ready. -/
theorem lt_length_of_ready (h : (w.entry idx).revents ≠ {}) : idx < w.pollFds.length := by
  by_contra hge
  apply h
  simp [entry, List.getElem?_eq_none (Nat.le_of_not_lt hge)]

theorem handlePollInput_passed (w : World) (a : Answers) (idx : ℕ) :
    ((w.handlePollInput a idx).1 = true → idx < w.pollFds.length ∧ Passed idx w (w.handlePollInput a idx).2) ∧
    ((w.handlePollInput a idx).1 = false → (w.handlePollInput a idx).2 = (idx, w) ∨
      (w.handlePollInput a idx).2.2.dueFrom ((w.handlePollInput a idx).2.1 + 1) < w.dueFrom idx) := by
  unfold handlePollInput
  dsimp only
  split
  · next hin =>
    have hidx : idx < w.pollFds.length := by
      apply lt_length_of_ready
      intro h
      rw [h] at hin
      cases hin
    have hlt := dueFrom_succ_lt hin
    split
    · refine ⟨nofun, fun _ => Or.inr (lt_of_le_of_lt ?_ hlt)⟩
      exact (acceptLoop_grown _ _ _ _).thinned.due_le (idx + 1)
    · split
      · exact ⟨fun _ => ⟨hidx, Or.inl ⟨rfl, rfl⟩⟩, nofun⟩
      · split
        · exact ⟨fun _ => ⟨hidx, handleCgiOutput_passed w a idx⟩, nofun⟩
        · exact ⟨nofun, fun _ => Or.inr (lt_of_le_of_lt (handleClientRead_due w a idx) hlt)⟩
  · split
    · next hup =>
      have hidx : idx < w.pollFds.length := by
        apply lt_length_of_ready
        intro h
        simp [h] at hup
      exact ⟨fun _ => ⟨hidx, handleCgiOutput_passed w a idx⟩, nofun⟩
    · exact ⟨nofun, fun _ => Or.inl rfl⟩

theorem handlePollOutput_passed (w : World) (a : Answers) (idx : ℕ) :
    ((w.handlePollOutput a idx).1 = true → idx < w.pollFds.length ∧ Passed idx w (w.handlePollOutput a idx).2) ∧
    ((w.handlePollOutput a idx).1 = false →
      (w.handlePollOutput a idx).2.1 = idx ∧ (w.handlePollOutput a idx).2.2.reports = w.reports) := by
  unfold handlePollOutput
  dsimp only
  split
  · next hout =>
    have hidx : idx < w.pollFds.length := by
      apply lt_length_of_ready
      intro h
      rw [h] at hout
      cases hout
    have hsent {removed : Bool} {v : World} (h : if removed then Dropped idx w v else v.reports = w.reports) :
        (removed = true → idx < w.pollFds.length ∧ Passed idx w (idx, v)) ∧
          (removed = false → idx = idx ∧ v.reports = w.reports) := by
      cases removed with
      | false => exact ⟨nofun, fun _ => ⟨rfl, h⟩⟩
      | true => exact ⟨fun _ => ⟨hidx, Or.inr ⟨rfl, h⟩⟩, nofun⟩
    split
    · exact ⟨fun _ => ⟨hidx, handleCgiStdinWritable_passed w a idx⟩, nofun⟩
    · split
      · exact ⟨nofun, fun _ => ⟨rfl, rfl⟩⟩
      · split
        · exact hsent (sendLoop_dropped a _ _ 0 w _)
        · split
          · exact ⟨nofun, fun _ => ⟨rfl, rfl⟩⟩
          · exact hsent (w.sendResponse_dropped a idx _ _)
  · exact ⟨nofun, fun _ => ⟨rfl, rfl⟩⟩

end World

/-! ## Passes -/

namespace LoopState
open World

/-- What is left of a pass: entries with input, entries, and the calls for the entry at hand. -/
def rankOf (stage due left calls : ℕ) : ℕ ×ₗ ℕ ×ₗ ℕ ×ₗ ℕ := toLex (stage, toLex (due, toLex (left, calls)))

theorem rankOf_lt {stage due left calls due' left' calls' : ℕ}
    (h : due' < due ∨ due' ≤ due ∧ (left' < left ∨ left' ≤ left ∧ calls' < calls)) :
    rankOf stage due' left' calls' < rankOf stage due left calls := by
  simp only [rankOf, Prod.Lex.toLex_lt_toLex, lt_irrefl, true_and, false_or]
  omega

theorem rankOf_lt_of_stage {stage stage' due left calls due' left' calls' : ℕ} (h : stage' < stage) :
    rankOf stage' due' left' calls' < rankOf stage due left calls := by
  simp only [rankOf, Prod.Lex.toLex_lt_toLex]
  omega

def rank (s : LoopState) : ℕ ×ₗ ℕ ×ₗ ℕ ×ₗ ℕ :=
  let w := s.world
  match s.point with
  | .errors idx =>
    if idx < w.pollFds.length then rankOf 2 (w.dueFrom idx) (w.pollFds.length - idx) 2 else rankOf 1 0 0 0
  | .input idx => rankOf 2 (w.dueFrom idx) (w.pollFds.length - idx) 1
  | .output idx => rankOf 2 (w.dueFrom (idx + 1)) (w.pollFds.length - idx) 0
  | .timeouts _ i => rankOf 0 0 (w.pollFds.length - i) 0
  | .poll => rankOf 0 0 0 0
  | .stopped => rankOf 0 0 0 0
  | .aborted => rankOf 0 0 0 0

/-- No pass is under way. -/
def Rests (s : LoopState) : Prop := s.point = .poll ∨ s.point = .stopped ∨ s.point = .aborted

/-- The pass goes on at an entry, or is over, with less left than it had. -/
theorem rank_errors_lt {w : World} {idx due left calls : ℕ}
    (h : w.dueFrom idx ≤ due ∧ (idx < w.pollFds.length → w.pollFds.length - idx < left)) :
    rank ⟨w, .errors idx⟩ < rankOf 2 due left calls := by
  simp only [rank]
  split
  · next hidx => exact rankOf_lt (Or.inr ⟨h.1, Or.inl (h.2 hidx)⟩)
  · exact rankOf_lt_of_stage (by omega)

theorem rank_passed {w : World} {idx : ℕ} {res : ℕ × World} (hidx : idx < w.pollFds.length)
    (h : Passed idx w res) (due : ℕ) (hdue : w.dueFrom (idx + 1) ≤ due) (calls : ℕ) :
    rank ⟨res.2, .errors res.1⟩ < rankOf 2 due (w.pollFds.length - idx) calls := by
  apply rank_errors_lt
  rcases h with ⟨hres, hsame⟩ | ⟨hres, hd⟩
  · have hlen : res.2.pollFds.length = w.pollFds.length := by rw [← length_reports, hsame, length_reports]
    rw [hres, dueFrom, hsame, hlen]
    exact ⟨hdue, fun _ => by omega⟩
  · rw [hres]
    exact ⟨hd.due_le.trans hdue, fun _ => hd.left_lt hidx⟩

theorem reports_clearRevents (w : World) (idx : ℕ) :
    (w.modifyEntry idx PollFd.clearRevents).dueFrom (idx + 1) = w.dueFrom (idx + 1) ∧
      (w.modifyEntry idx PollFd.clearRevents).pollFds.length = w.pollFds.length := by
  refine ⟨?_, by simp [modifyEntry]⟩
  have hdrop : (w.pollFds.modify idx PollFd.clearRevents).drop (idx + 1) = w.pollFds.drop (idx + 1) := by
    apply List.ext_getElem?
    intro i
    have hne : ¬ idx = idx + 1 + i := by omega
    simp [List.getElem?_drop, hne]
  unfold dueFrom reports modifyEntry
  rw [← List.map_drop, ← List.map_drop, hdrop]

/-- Every step of a pass ends it or leaves less of it. -/
theorem step_rank (s : LoopState) (a : Answers) (h : ¬ s.Rests) : (s.step a).Rests ∨ (s.step a).rank < s.rank := by
  obtain ⟨w, point⟩ := s
  cases point with
  | poll => exact absurd (Or.inl rfl) h
  | stopped => exact absurd (Or.inr (Or.inl rfl)) h
  | aborted => exact absurd (Or.inr (Or.inr rfl)) h
  | errors idx =>
    right
    simp only [step]
    split
    · next hidx =>
      have hd := w.handlePollErrors_dropped a idx
      have hrank : rank ⟨w, .errors idx⟩ = rankOf 2 (w.dueFrom idx) (w.pollFds.length - idx) 2 := if_pos hidx
      rw [hrank]
      split
      · next w' hw =>
        rw [hw] at hd
        have hd : Passed idx w (idx, w') := Or.inr ⟨rfl, hd⟩
        exact rank_passed hidx hd _ (w.dueFrom_succ_le idx) 2
      · next w' hw =>
        rw [hw] at hd
        obtain rfl : w' = w := hd
        exact rankOf_lt (Or.inr ⟨le_refl _, Or.inr ⟨le_refl _, by omega⟩⟩)
    · next hidx =>
      simp only [rank, if_neg hidx]
      exact rankOf_lt_of_stage (by omega)
  | input idx =>
    obtain ⟨htrue, hfalse⟩ := w.handlePollInput_passed a idx
    simp only [step]
    split
    · next hw =>
      rw [hw] at htrue
      obtain ⟨hidx, hp⟩ := htrue rfl
      split
      · exact Or.inl (Or.inr (Or.inr rfl))
      · exact Or.inr (rank_passed hidx hp _ (w.dueFrom_succ_le idx) 1)
    · next idx' w' hw =>
      rw [hw] at hfalse
      split
      · exact Or.inl (Or.inr (Or.inr rfl))
      right
      rcases hfalse rfl with hsame | hlt
      · obtain ⟨rfl, rfl⟩ := Prod.mk.inj hsame
        exact rankOf_lt (Or.inr ⟨dueFrom_succ_le _ _, Or.inr ⟨le_refl _, by omega⟩⟩)
      · exact rankOf_lt (Or.inl hlt)
  | output idx =>
    right
    obtain ⟨htrue, hfalse⟩ := w.handlePollOutput_passed a idx
    simp only [step]
    split
    · next hw =>
      rw [hw] at htrue
      obtain ⟨hidx, hp⟩ := htrue rfl
      exact rank_passed hidx hp _ (le_refl _) 0
    · next idx' w' hw =>
      rw [hw] at hfalse
      obtain ⟨hidx, hsame⟩ := hfalse rfl
      obtain rfl : idx' = idx := hidx
      have hsame : w'.reports = w.reports := hsame
      obtain ⟨hdue, hlen⟩ := reports_clearRevents w' idx'
      have hlen' : w'.pollFds.length = w.pollFds.length := by rw [← length_reports, hsame, length_reports]
      apply rank_errors_lt
      rw [hdue, hlen, hlen', dueFrom, hsame]
      exact ⟨le_refl _, fun hlt => Nat.sub_succ_lt_self _ _ (by omega)⟩
  | timeouts now i =>
    simp only [step]
    split
    · next hi =>
      right
      have hi : i < w.pollFds.length := hi
      have hnext : w.pollFds.length - (i + 1) < w.pollFds.length - i := by omega
      unfold timeoutStep
      dsimp only
      split
      · exact rankOf_lt (Or.inr ⟨le_refl _, Or.inl hnext⟩)
      · split
        · exact rankOf_lt (Or.inr ⟨le_refl _, Or.inl hnext⟩)
        · split
          · exact rankOf_lt (Or.inr ⟨le_refl _, Or.inl ((removeClient_dropped w i a.reaped .timeout).left_lt hi)⟩)
          · exact rankOf_lt (Or.inr ⟨le_refl _, Or.inl hnext⟩)
    · exact Or.inl (Or.inl rfl)

end LoopState

/-- Whatever the system answers, the server gets back to `poll` time and again, unless `poll` fails or a directory is
read as a file. -/
theorem returns_to_poll {s : LoopState} (h : s.Running) (answers : ℕ → Answers) (n : ℕ) :
    ∃ m ≥ n, let point := (s.run ((List.range m).map answers)).point
      point = .poll ∨ (point = .stopped ∧ ∃ k < m, (answers k).poll = .failed) ∨
        (point = .aborted ∧ ∃ k < m, ∃ path, (answers k).files.isDirectory path = true) := by
  have hrecurs : ∃ m ≥ n, (stateAfter LoopState.step s answers m).Rests := recurs_of_rank LoopState.step_rank s answers n
  obtain ⟨m, hm, hrests⟩ := hrecurs
  rw [stateAfter_eq_foldl] at hrests
  have hrests : (s.run ((List.range m).map answers)).Rests := hrests
  refine ⟨m, hm, ?_⟩
  rcases h.run_ends answers m with hrunning | ⟨hended, hends⟩
  · rcases hrests with hpoll | hstopped | haborted
    · exact Or.inl hpoll
    · exact absurd hstopped hrunning.stopped
    · exact absurd haborted hrunning.aborted
  · rcases hended with hstopped | haborted
    · rw [hstopped] at hends
      exact Or.inr (Or.inl ⟨hstopped, hends⟩)
    · rw [haborted] at hends
      exact Or.inr (Or.inr ⟨haborted, hends⟩)

theorem returns_to_poll_start : ∃ m ≥ 7, let point := (scriptStart.run ((List.range m).map fun _ => {})).point
    point = .poll ∨ (point = .stopped ∧ ∃ k < m, ({} : Answers).poll = .failed) ∨
      (point = .aborted ∧ ∃ k < m, ∃ path, ({} : Answers).files.isDirectory path = true) :=
  returns_to_poll ⟨by decide, by decide, rfl⟩ (fun _ => {}) 7

end WebServ
