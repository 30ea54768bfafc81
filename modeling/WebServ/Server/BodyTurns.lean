import WebServ.Client.HandOver
import WebServ.Server.ScriptInput

/-! # The body of a request for a script

After the dispatch the script gets the rest of the body in turns: bytes read from the
client are handed over, and bytes that are pending are written once the pipe takes them.
-/
namespace WebServ
open Search World

/-- What happens to the input of a running script. -/
inductive Turn
  | read (now : ℕ) (bytes : Bytes) (answer : ℕ)
  | writable (a : Answers) (idx : ℕ)

namespace Turn

/-- The bytes that the turn reads from the client. -/
def bytes : Turn → Bytes
  | .read _ bytes _ => bytes
  | .writable .. => []

/-- A read that brings no bytes is the end of the stream, and not a turn. -/
def Proper : Turn → Prop
  | .read _ bytes _ => bytes ≠ []
  | .writable .. => True

def apply (c : Fd) (w : World) : Turn → World
  | .read now bytes answer =>
    match w.getClient c with
    | none => w
    | some client => (w.forwardBody now c client bytes answer).1
  | .writable a idx => (w.handleCgiStdinWritable a idx).2

end Turn

def applyTurns (c : Fd) (w : World) (turns : List Turn) : World := turns.foldl (Turn.apply c) w

/-- The end of the input is recorded for a client. -/
def Client.InputEnded (client : Client) : Prop := client.cgiStdinEof = true ∨ client.cgiStdinFd = none

instance (client : Client) : Decidable client.InputEnded := inferInstanceAs (Decidable (_ ∨ _))

namespace World
variable (w : World) (c : Fd) (client : Client)

/-! ## One read -/

/-- A piece is handed over, and with the last one the end of the input is recorded. -/
theorem forwardPiece_ends (stdinFd : Fd) (piece : Bytes) (answer : ℕ) (last : Bool) :
    let after := w.forwardPiece c client stdinFd piece answer
    ∃ (q : OffsetBuffer UInt8) (s : Option Fd) (e : Bool) (taken : ℕ),
      q.pending = client.cgiStdinPending.pending ++ piece.drop taken ∧
      (last = true → e = true ∨ s = none) ∧
      (last = false → s = client.cgiStdinFd ∧ e = client.cgiStdinEof) ∧
      Changed w (if last then after.1.inputComplete c after.2 stdinFd else after.1.setClient c after.2) c
        [.forwarded c client.cgiStdinPending.pending piece taken]
        (some { client with cgiStdinPending := q, cgiStdinFd := s, cgiStdinEof := e }) := by
  intro after
  obtain ⟨q, hq, hclient, hch⟩ := w.forwardPiece_changed c client stdinFd piece answer
  cases last with
  | false =>
    exact ⟨q, client.cgiStdinFd, client.cgiStdinEof, _, hq, nofun, fun _ => ⟨rfl, rfl⟩, hch⟩
  | true =>
    obtain ⟨s, e, -, hends, hcomplete⟩ := (after.1.setClient c after.2).inputComplete_changed c after.2 stdinFd
    rw [inputComplete_setClient] at hcomplete
    have hboth := hch.trans hcomplete
    refine ⟨q, s, e, _, hq, fun _ => hends, nofun, ?_⟩
    rw [if_pos rfl]
    simpa only [after, hclient, List.append_nil] using hboth

variable (now : ℕ) (bytes : Bytes) (answer : ℕ)

theorem forwardBody_closed (hin : client.cgiStdinFd = none) :
    Changed w (w.forwardBody now c client bytes answer).1 c [.bodyRead c bytes]
      (some (client.updateActivity now)) := by
  have h : (client.updateActivity now).cgiStdinFd = none := hin
  simp only [forwardBody, h]
  exact (log_changed w rfl).trans (setClient_changed _ c _)

variable {w c client bytes} {stdinFd : Fd} (hin : client.cgiStdinFd = some stdinFd)
include hin

theorem forwardBody_decoded (hch : client.cgiChunked = true)
    (hok : (Client.decodeChunkedForCgi client.cgiChunk bytes).ok = true) :
    let r := Client.decodeChunkedForCgi client.cgiChunk bytes
    ∃ (q : OffsetBuffer UInt8) (s : Option Fd) (e : Bool) (taken : ℕ),
      q.pending = client.cgiStdinPending.pending ++ r.decoded.drop taken ∧
      (r.eof = true → e = true ∨ s = none) ∧
      (r.eof = false → s = client.cgiStdinFd ∧ e = client.cgiStdinEof) ∧
      Changed w (w.forwardBody now c client bytes answer).1 c
        [.bodyRead c bytes, .forwarded c client.cgiStdinPending.pending r.decoded taken]
        (some { client with
          lastActivity := now, cgiChunk := r.decoder, cgiStdinPending := q, cgiStdinFd := s,
          cgiStdinEof := e }) := by
  intro r
  obtain ⟨q, s, e, taken, hq, hlast, hmore, h⟩ := (w.log (.bodyRead c bytes)).forwardPiece_ends c
    { client with lastActivity := now, cgiChunk := r.decoder } stdinFd r.decoded answer r.eof
  refine ⟨q, s, e, taken, hq, hlast, hmore, ?_⟩
  have heq : (w.forwardBody now c client bytes answer).1 =
      let after := (w.log (.bodyRead c bytes)).forwardPiece c
        { client with lastActivity := now, cgiChunk := r.decoder } stdinFd r.decoded answer
      if r.eof then after.1.inputComplete c after.2 stdinFd else after.1.setClient c after.2 := by
    simp only [forwardBody, Client.updateActivity, hin, hch, hok, if_true]
    change (if r.eof = true then _ else _ : World × Option Client).1 = _
    split <;> rfl
  rw [heq]
  exact (log_changed w (e := .bodyRead c bytes) rfl).trans h

theorem forwardBody_failed (hch : client.cgiChunked = true)
    (hok : (Client.decodeChunkedForCgi client.cgiChunk bytes).ok = false) :
    Changed w (w.forwardBody now c client bytes answer).1 c
      [.bodyRead c bytes, .inputEnded c client.cgiStdinPending.isEmpty true]
      (some { client with
        lastActivity := now, cgiChunk := (Client.decodeChunkedForCgi client.cgiChunk bytes).decoder,
        cgiStdinEof := true, cgiStdinFd := if client.cgiStdinPending.isEmpty then none else client.cgiStdinFd }) := by
  have h := (w.log (.bodyRead c bytes)).endInput_exact c { client with
    lastActivity := now, cgiChunk := (Client.decodeChunkedForCgi client.cgiChunk bytes).decoder }
  have heq : (w.forwardBody now c client bytes answer).1 = (w.log (.bodyRead c bytes)).endInput c { client with
      lastActivity := now, cgiChunk := (Client.decodeChunkedForCgi client.cgiChunk bytes).decoder } := by
    simp only [forwardBody, Client.updateActivity, hin, hch, hok, if_true, Bool.false_eq_true, if_false]
  rw [heq]
  simp only [hin, Option.isSome_some] at h ⊢
  exact (log_changed w (e := .bodyRead c bytes) rfl).trans h

theorem forwardBody_counted (hch : client.cgiChunked = false) :
    let count := client.cgiBodyBytesForwarded + bytes.length
    let last := decide (client.cgiBodyContentLength > 0 ∧ count ≥ client.cgiBodyContentLength)
    ∃ (q : OffsetBuffer UInt8) (s : Option Fd) (e : Bool) (taken : ℕ),
      q.pending = client.cgiStdinPending.pending ++ bytes.drop taken ∧
      (last = true → e = true ∨ s = none) ∧
      (last = false → s = client.cgiStdinFd ∧ e = client.cgiStdinEof) ∧
      Changed w (w.forwardBody now c client bytes answer).1 c
        [.bodyRead c bytes, .forwarded c client.cgiStdinPending.pending bytes taken]
        (some { client with
          lastActivity := now, cgiBodyBytesForwarded := count, cgiStdinPending := q, cgiStdinFd := s,
          cgiStdinEof := e }) := by
  intro count last
  obtain ⟨q, s, e, taken, hq, hlast, hmore, h⟩ := (w.log (.bodyRead c bytes)).forwardPiece_ends c
    { client with lastActivity := now, cgiBodyBytesForwarded := count } stdinFd bytes answer last
  refine ⟨q, s, e, taken, hq, hlast, hmore, ?_⟩
  have heq : (w.forwardBody now c client bytes answer).1 =
      let after := (w.log (.bodyRead c bytes)).forwardPiece c
        { client with lastActivity := now, cgiBodyBytesForwarded := count } stdinFd bytes answer
      if last then after.1.inputComplete c after.2 stdinFd else after.1.setClient c after.2 := by
    obtain ⟨q', hq', hclient, -⟩ := (w.log (.bodyRead c bytes)).forwardPiece_changed c
      { client with lastActivity := now, cgiBodyBytesForwarded := count } stdinFd bytes answer
    simp only [forwardBody, Client.updateActivity, Client.addCgiBodyBytesForwarded, hin, hch, Bool.false_eq_true,
      if_false]
    simp only [hin, hch, count] at hclient
    rw [hclient]
    simp only [last, count, decide_eq_true_eq]
    split <;> rfl
  rw [heq]
  exact (log_changed w (e := .bodyRead c bytes) rfl).trans h

end World

namespace World
variable {w : World} {c : Fd} {client : Client}

/-- The client that the loop goes on with is the one that is stored. -/
theorem getClient_forwardBody {now : ℕ} {bytes : Bytes} {answer : ℕ} {w' : World} {client' : Client}
    (h : w.forwardBody now c client bytes answer = (w', some client')) : w'.getClient c = some client' := by
  unfold forwardBody at h
  dsimp only at h
  split at h
  · cases h
  · split at h
    · split at h
      · split at h
        · cases h
        · cases h
          exact getClient_setClient_self _ _ _
      · cases h
    · split at h
      · cases h
      · cases h
        exact getClient_setClient_self _ _ _

/-- The loop that reads a body takes turns, and may end with the end of the stream or a pause. -/
theorem bodyLoop_turns (a : Answers) (idx : ℕ) (answers : List ReadAnswer) (writes : List ℕ) (total : ℕ)
    (hg : w.getClient c = some client) : ∃ turns, (∀ turn ∈ turns, turn.Proper) ∧
      (bodyLoop a idx c answers writes total w client = applyTurns c w turns ∨
        bodyLoop a idx c answers writes total w client =
          (applyTurns c w turns).modifyEntry idx PollFd.disablePollin ∨
        ∃ client', (applyTurns c w turns).getClient c = some client' ∧
          bodyLoop a idx c answers writes total w client = (applyTurns c w turns).endInput c client') := by
  induction answers generalizing w client writes total with
  | nil => exact ⟨[], by simp, Or.inl rfl⟩
  | cons answer answers ih =>
    unfold bodyLoop
    split
    · split
      · exact ⟨[], by simp, Or.inr (Or.inl rfl)⟩
      · split
        · exact ⟨[], by simp, Or.inr (Or.inr ⟨client, hg, rfl⟩)⟩
        · exact ⟨[], by simp, Or.inr (Or.inr ⟨client, hg, rfl⟩)⟩
        · exact ⟨[], by simp, Or.inl rfl⟩
        · next bytes hread =>
          have hne : bytes ≠ [] := by
            unfold read at hread
            split at hread
            · split at hread
              · split at hread
                · cases hread
                · next hdata =>
                  cases hread
                  simp [hdata, readBufferSize]
              · next hdata => exact absurd hread (hdata bytes)
            · cases hread
          have happly (turns : List Turn) :
              applyTurns c w (.read a.now bytes (writes.head?.getD 0) :: turns) =
                applyTurns c (w.forwardBody a.now c client bytes (writes.head?.getD 0)).1 turns := by
            simp only [applyTurns, List.foldl_cons, Turn.apply, hg]
          split
          · next w' hbody =>
            rw [hbody] at happly
            exact ⟨[.read a.now bytes (writes.head?.getD 0)], by simpa [Turn.Proper] using hne,
              Or.inl (happly []).symm⟩
          · next w' client' hbody =>
            rw [hbody] at happly
            obtain ⟨turns, hproper, hres⟩ := ih writes.tail (total + bytes.length) (getClient_forwardBody hbody)
            refine ⟨.read a.now bytes (writes.head?.getD 0) :: turns, ?_, ?_⟩
            · intro turn hmem
              rcases List.mem_cons.mp hmem with rfl | hmem
              · exact hne
              · exact hproper turn hmem
            · rw [happly]
              exact hres
    · exact ⟨[], by simp, Or.inl rfl⟩

/-! ## One write -/

/-- Writing what is pending hands nothing over, and ends an input only when its end is known. -/
theorem writable_input (a : Answers) (idx : ℕ) (hg : w.getClient c = some client) :
    ∃ (q : OffsetBuffer UInt8) (s : Option Fd), (s = client.cgiStdinFd ∨ s = none ∧ client.cgiStdinEof = true) ∧
      (w.handleCgiStdinWritable a idx).2.getClient c =
        some { client with cgiStdinPending := q, cgiStdinFd := s } ∧
      ∃ es, (w.handleCgiStdinWritable a idx).2.history c = w.history c ++ es ∧
        es.any Event.isDispatched = false ∧ es.flatMap Event.handedBytes = [] := by
  cases howner : w.cgiStdinFdToClientFd[(w.entry idx).fd]? with
  | none =>
    refine ⟨client.cgiStdinPending, client.cgiStdinFd, Or.inl rfl, ?_, [], ?_, rfl, rfl⟩ <;>
      simp [handleCgiStdinWritable, howner, hg]
  | some d =>
    cases hd : w.getClient d with
    | none =>
      refine ⟨client.cgiStdinPending, client.cgiStdinFd, Or.inl rfl, ?_, [], ?_, rfl, rfl⟩ <;>
        simp [handleCgiStdinWritable, howner, hd, hg]
    | some owner =>
      obtain ⟨pieces, q, s, hs, -, hch⟩ := handleCgiStdinWritable_changed w (a := a) howner hd
      by_cases hdc : d = c
      · subst hdc
        obtain rfl : client = owner := Option.some.inj (hg.symm.trans hd)
        refine ⟨q, s, hs, by simp [hch.client], _, by simpa using hch.history d, ?_, ?_⟩
        · simp [Event.isDispatched]
        · simp [List.flatMap_map, Event.handedBytes]
      · refine ⟨client.cgiStdinPending, client.cgiStdinFd, Or.inl rfl, ?_, [], ?_, rfl, rfl⟩
        · simp [hch.client, Ne.symm hdc, hg]
        · simp [hch.history, hdc]

end World
end WebServ
