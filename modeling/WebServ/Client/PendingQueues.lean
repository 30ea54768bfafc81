import WebServ.Client.Client
import WebServ.Lib.Fifo

/-! # The pending bytes of a client

The bytes for a script and those for the client wait in a string each, with an offset that
tells how many were consumed. The class promises nothing about the offset: that it stays
within the string comes from the calls, and so does the order of the bytes.
-/
namespace WebServ
open QueueEvent

/-- The members of the class that make up one queue. -/
structure PendingString where
  text : Bytes := []
  offset : ℕ := 0

namespace PendingString

/-- No string is longer than this, so the sum of an offset and a length does not wrap around in 64 bits. -/
def maxSize : ℕ := 2 ^ 63 - 1

/-- `none` when the string throws because it would grow too long. -/
def append (q : PendingString) (data : Bytes) : Option PendingString :=
  if q.text.length + data.length > maxSize then none else some { q with text := q.text ++ data }

/-- What stands in the string from the pointer on. -/
def ptr (q : PendingString) : Bytes := q.text.drop q.offset

def size (q : PendingString) : ℕ :=
  if q.offset ≥ q.text.length then 0 else q.text.length - q.offset

def isEmpty (q : PendingString) : Bool := q.size = 0

/-- The offset counts as a `size_t` does; once it is large, what was consumed is erased. -/
def consume (q : PendingString) (bytes : ℕ) : PendingString :=
  let offset := (q.offset + bytes) % 2 ^ 64
  if offset ≥ Client.compactThreshold then
    if offset ≥ q.text.length then { text := [], offset := 0 }
    else { text := q.text.drop offset, offset := 0 }
  else { text := q.text, offset }

end PendingString

/-- The members of a client that hold pending bytes. -/
structure PendingMembers where
  cgiStdinPending : PendingString := {}
  cgiSendPending : PendingString := {}

namespace PendingMembers

/-- Both strings are cleared and both offsets set back. -/
def startCgi (_ : PendingMembers) : PendingMembers where
  cgiStdinPending := { text := [], offset := 0 }
  cgiSendPending := { text := [], offset := 0 }

def appendCgiStdinPending (c : PendingMembers) (data : Bytes) : Option PendingMembers :=
  (c.cgiStdinPending.append data).map (fun q => { c with cgiStdinPending := q })
def getCgiStdinPendingPtr (c : PendingMembers) : Bytes := c.cgiStdinPending.ptr
def getCgiStdinPendingSize (c : PendingMembers) : ℕ := c.cgiStdinPending.size
def isCgiStdinPendingEmpty (c : PendingMembers) : Bool := c.cgiStdinPending.isEmpty
def consumeCgiStdinPending (c : PendingMembers) (bytes : ℕ) : PendingMembers :=
  { c with cgiStdinPending := c.cgiStdinPending.consume bytes }

def appendCgiSendPending (c : PendingMembers) (data : Bytes) : Option PendingMembers :=
  (c.cgiSendPending.append data).map (fun q => { c with cgiSendPending := q })
def getCgiSendPendingPtr (c : PendingMembers) : Bytes := c.cgiSendPending.ptr
def getCgiSendPendingSize (c : PendingMembers) : ℕ := c.cgiSendPending.size
def consumeCgiSendPending (c : PendingMembers) (bytes : ℕ) : PendingMembers :=
  { c with cgiSendPending := c.cgiSendPending.consume bytes }

end PendingMembers

inductive PendingQueue
  | cgiStdin
  | cgiSend
  deriving DecidableEq

/-- A call on one of the queues. An append returns, and a consume takes no more than is
pending; it is recorded with the bytes that the pointer stood at. -/
inductive PendingMembers.Step : PendingMembers → List (QueueEvent PendingQueue UInt8) → PendingMembers → Prop
  | appendCgiStdin {c c' : PendingMembers} {data : Bytes} (h : c.appendCgiStdinPending data = some c') :
      Step c [.appended .cgiStdin data] c'
  | consumeCgiStdin {c : PendingMembers} {bytes : ℕ} (h : bytes ≤ c.getCgiStdinPendingSize) :
      Step c [.consumed .cgiStdin (c.getCgiStdinPendingPtr.take bytes)] (c.consumeCgiStdinPending bytes)
  | appendCgiSend {c c' : PendingMembers} {data : Bytes} (h : c.appendCgiSendPending data = some c') :
      Step c [.appended .cgiSend data] c'
  | consumeCgiSend {c : PendingMembers} {bytes : ℕ} (h : bytes ≤ c.getCgiSendPendingSize) :
      Step c [.consumed .cgiSend (c.getCgiSendPendingPtr.take bytes)] (c.consumeCgiSendPending bytes)

/-! ## A buffer behind the members -/

namespace PendingString

/-- The members that a buffer stands for, which keeps its offset within the string. -/
def ofBuffer (b : OffsetBuffer UInt8) : PendingString := ⟨b.data, b.offset⟩

variable (b : OffsetBuffer UInt8)

theorem ptr_ofBuffer : (ofBuffer b).ptr = b.pending := rfl

theorem size_ofBuffer : (ofBuffer b).size = b.size := by
  unfold size ofBuffer OffsetBuffer.size
  dsimp only
  split
  · omega
  · rfl

theorem isEmpty_ofBuffer : (ofBuffer b).isEmpty = b.isEmpty := by
  rw [isEmpty, size_ofBuffer, OffsetBuffer.isEmpty]

/-- What the program reads is all that is pending. -/
theorem take_ofBuffer : (ofBuffer b).ptr.take (ofBuffer b).size = b.pending := by
  rw [ptr_ofBuffer, size_ofBuffer, ← OffsetBuffer.length_pending, List.take_length]

theorem append_ofBuffer {data : Bytes} (h : b.data.length + data.length ≤ maxSize) :
    (ofBuffer b).append data = some (ofBuffer (b.append data)) :=
  if_neg (Nat.not_lt_of_le h)

theorem append_ofBuffer_eq_some {data : Bytes} {q : PendingString} (h : (ofBuffer b).append data = some q) :
    (b.append data).data.length ≤ maxSize ∧ q = ofBuffer (b.append data) := by
  have hlen : (b.append data).data.length = b.data.length + data.length := List.length_append
  by_cases hfits : b.data.length + data.length ≤ maxSize
  · rw [append_ofBuffer b hfits, Option.some.injEq] at h
    exact ⟨hlen ▸ hfits, h.symm⟩
  · have hnone : (ofBuffer b).append data = none := if_pos (Nat.lt_of_not_le hfits)
    rw [hnone] at h
    cases h

/-- The offset does not wrap around, and both ways to cut the string back are one. -/
theorem consume_ofBuffer (hlen : b.data.length ≤ maxSize) {bytes : ℕ} (h : bytes ≤ b.size) :
    (ofBuffer b).consume bytes = ofBuffer (b.consume Client.compactThreshold bytes h) := by
  have hle : b.offset + bytes ≤ b.data.length := by
    have hoffset := b.offset_le
    unfold OffsetBuffer.size at h
    omega
  have hword : (b.offset + bytes) % 2 ^ 64 = b.offset + bytes := by
    apply Nat.mod_eq_of_lt
    unfold maxSize at hlen
    omega
  unfold consume OffsetBuffer.consume ofBuffer
  simp only [hword]
  by_cases hcut : b.offset + bytes ≥ Client.compactThreshold
  · rw [if_pos hcut, if_pos hcut]
    split
    · next hall =>
      -- nothing is left behind the offset
      exact congrArg (fun text => PendingString.mk text 0) (List.drop_of_length_le hall).symm
    · rfl
  · rw [if_neg hcut, if_neg hcut]

end PendingString

namespace PendingMembers

/-- The members that two buffers stand for. -/
def ofBuffers (b : PendingQueue → OffsetBuffer UInt8) : PendingMembers where
  cgiStdinPending := .ofBuffer (b .cgiStdin)
  cgiSendPending := .ofBuffer (b .cgiSend)

/-- The members are those of two buffers that a string can hold, with these bytes pending. -/
def Holds (c : PendingMembers) (p : PendingQueue → Bytes) : Prop :=
  ∃ b : PendingQueue → OffsetBuffer UInt8, c = ofBuffers b ∧ (∀ i, (b i).data.length ≤ PendingString.maxSize) ∧
    p = fun i => (b i).pending

theorem startCgi_holds (c : PendingMembers) : Holds c.startCgi (fun _ => []) :=
  ⟨fun _ => .empty, rfl, fun _ => Nat.zero_le _, rfl⟩

section
variable {b : PendingQueue → OffsetBuffer UInt8} (hlen : ∀ i, (b i).data.length ≤ PendingString.maxSize)
  (i : PendingQueue)
include hlen

theorem holds_update {b' : OffsetBuffer UInt8} (hlen' : b'.data.length ≤ PendingString.maxSize) :
    Holds (ofBuffers (Function.update b i b')) (fun j => (Function.update b i b' j).pending) := by
  refine ⟨_, rfl, ?_, rfl⟩
  intro j
  by_cases hj : j = i
  · subst hj
    rwa [Function.update_self]
  · rw [Function.update_of_ne hj]
    exact hlen j

theorem holds_append {data : Bytes} (hlen' : ((b i).append data).data.length ≤ PendingString.maxSize) :
    ∃ p', FifoStep (fun j => (b j).pending) [.appended i data] p' ∧
      Holds (ofBuffers (Function.update b i ((b i).append data))) p' :=
  ⟨_, .of_append b i data, holds_update hlen i hlen'⟩

theorem holds_consume {bytes : ℕ} (h : bytes ≤ (b i).size) :
    ∃ p', FifoStep (fun j => (b j).pending) [.consumed i ((b i).pending.take bytes)] p' ∧
      Holds (ofBuffers (Function.update b i ((b i).consume Client.compactThreshold bytes h))) p' :=
  ⟨_, .of_consume b i _ h, holds_update hlen i ((OffsetBuffer.length_consume_le _ h).trans (hlen i))⟩

end

/-- Every call moves the queues as plain queues move. -/
theorem Step.simulates {c c' : PendingMembers} {p : PendingQueue → Bytes}
    {es : List (QueueEvent PendingQueue UInt8)} (hc : Holds c p) (h : Step c es c') :
    ∃ p', FifoStep p es p' ∧ Holds c' p' := by
  obtain ⟨b, rfl, hlen, rfl⟩ := hc
  cases h with
  | appendCgiStdin h =>
    obtain ⟨q, hq, rfl⟩ := Option.map_eq_some_iff.mp h
    obtain ⟨hlen', rfl⟩ := PendingString.append_ofBuffer_eq_some _ hq
    exact holds_append hlen .cgiStdin hlen'
  | @consumeCgiStdin bytes h =>
    have hsize : bytes ≤ (b .cgiStdin).size := PendingString.size_ofBuffer _ ▸ h
    have hcut := PendingString.consume_ofBuffer _ (hlen .cgiStdin) hsize
    have hnext : (ofBuffers b).consumeCgiStdinPending bytes = ofBuffers (Function.update b .cgiStdin _) :=
      congrArg (fun q => { ofBuffers b with cgiStdinPending := q }) hcut
    rw [hnext]
    exact holds_consume hlen .cgiStdin hsize
  | appendCgiSend h =>
    obtain ⟨q, hq, rfl⟩ := Option.map_eq_some_iff.mp h
    obtain ⟨hlen', rfl⟩ := PendingString.append_ofBuffer_eq_some _ hq
    exact holds_append hlen .cgiSend hlen'
  | @consumeCgiSend bytes h =>
    have hsize : bytes ≤ (b .cgiSend).size := PendingString.size_ofBuffer _ ▸ h
    have hcut := PendingString.consume_ofBuffer _ (hlen .cgiSend) hsize
    have hnext : (ofBuffers b).consumeCgiSendPending bytes = ofBuffers (Function.update b .cgiSend _) :=
      congrArg (fun q => { ofBuffers b with cgiSendPending := q }) hcut
    rw [hnext]
    exact holds_consume hlen .cgiSend hsize

/-- After `start_cgi` the members hold what plain queues would hold. -/
theorem run_holds {before c : PendingMembers} {r : List (QueueEvent PendingQueue UInt8)}
    (h : Run Step before.startCgi r c) : ∃ p, InOrder p r ∧ Holds c p := by
  obtain ⟨p, hrun, hc⟩ := h.simulation (R := Holds) before.startCgi_holds Step.simulates
  exact ⟨p, hrun.inOrder, hc⟩

/-- Both queues give their bytes back in the order in which they came, and no offset leaves
its string. -/
theorem pending_fifo {before c : PendingMembers} {r : List (QueueEvent PendingQueue UInt8)}
    (h : Run Step before.startCgi r c) :
    (r.flatMap (consumedFrom .cgiStdin) ++ c.getCgiStdinPendingPtr.take c.getCgiStdinPendingSize =
        r.flatMap (appendedTo .cgiStdin) ∧
      c.cgiStdinPending.offset ≤ c.cgiStdinPending.text.length) ∧
    r.flatMap (consumedFrom .cgiSend) ++ c.getCgiSendPendingPtr.take c.getCgiSendPendingSize =
        r.flatMap (appendedTo .cgiSend) ∧
      c.cgiSendPending.offset ≤ c.cgiSendPending.text.length := by
  obtain ⟨_, horder, b, rfl, -, rfl⟩ := run_holds h
  have hstdin := horder .cgiStdin
  have hsend := horder .cgiSend
  dsimp only at hstdin hsend
  rw [← PendingString.take_ofBuffer] at hstdin hsend
  exact ⟨⟨hstdin, (b .cgiStdin).offset_le⟩, hsend, (b .cgiSend).offset_le⟩

/-- A queue is cut back, drained below the threshold, and filled again. -/
def refilledRecord (front : Bytes) : List (QueueEvent PendingQueue UInt8) :=
  [.appended .cgiStdin (front ++ [1, 2, 3]), .consumed .cgiStdin front, .consumed .cgiStdin [1, 2, 3],
    .appended .cgiStdin [4]]

def refilled : PendingMembers where
  cgiStdinPending := { text := [1, 2, 3, 4], offset := 3 }

theorem refilled_run {front : Bytes} (h : front.length = Client.compactThreshold) :
    Run Step ({} : PendingMembers).startCgi (refilledRecord front) refilled := by
  have hfits : ¬ ([] : Bytes).length + (front ++ [1, 2, 3]).length > PendingString.maxSize := by
    rw [List.length_append, h]
    decide
  have hfill : ({} : PendingMembers).startCgi.appendCgiStdinPending (front ++ [1, 2, 3]) =
      some { cgiStdinPending := { text := front ++ [1, 2, 3] } } :=
    congrArg (Option.map _) (if_neg hfits)
  have hcut : PendingString.consume { text := front ++ [1, 2, 3] } front.length = { text := [1, 2, 3] } := by
    have hoffset : (0 + front.length) % 2 ^ 64 = front.length := by
      rw [h]
      decide
    unfold PendingString.consume
    simp only [hoffset]
    rw [if_pos h.ge, if_neg (by simp), List.drop_left]
  have hfront : Step { cgiStdinPending := { text := front ++ [1, 2, 3] } } [.consumed .cgiStdin front]
      { cgiStdinPending := { text := [1, 2, 3] } } := by
    have hstep := @Step.consumeCgiStdin { cgiStdinPending := { text := front ++ [1, 2, 3] } } front.length
      (by simp [getCgiStdinPendingSize, PendingString.size])
    rw [consumeCgiStdinPending, hcut] at hstep
    simpa [getCgiStdinPendingPtr, PendingString.ptr] using hstep
  have hrest : Step { cgiStdinPending := { text := [1, 2, 3] } } [.consumed .cgiStdin [1, 2, 3]]
      { cgiStdinPending := { text := [1, 2, 3], offset := 3 } } :=
    @Step.consumeCgiStdin { cgiStdinPending := { text := [1, 2, 3] } } 3 (by decide)
  have hlast : Step { cgiStdinPending := { text := [1, 2, 3], offset := 3 } } [.appended .cgiStdin [4]] refilled :=
    .appendCgiStdin rfl
  exact (((Run.single (.appendCgiStdin hfill)).tail hfront).tail hrest).tail hlast

theorem pending_fifo_refilled :
    ((refilledRecord (List.replicate Client.compactThreshold 0)).flatMap (consumedFrom .cgiStdin) ++
          refilled.getCgiStdinPendingPtr.take refilled.getCgiStdinPendingSize =
        (refilledRecord (List.replicate Client.compactThreshold 0)).flatMap (appendedTo .cgiStdin) ∧
      refilled.cgiStdinPending.offset ≤ refilled.cgiStdinPending.text.length) ∧
    (refilledRecord (List.replicate Client.compactThreshold 0)).flatMap (consumedFrom .cgiSend) ++
          refilled.getCgiSendPendingPtr.take refilled.getCgiSendPendingSize =
        (refilledRecord (List.replicate Client.compactThreshold 0)).flatMap (appendedTo .cgiSend) ∧
      refilled.cgiSendPending.offset ≤ refilled.cgiSendPending.text.length :=
  pending_fifo (refilled_run List.length_replicate)

/-- The queue for the script is found empty exactly when all of its bytes were consumed. -/
theorem pending_empty_iff {before c : PendingMembers} {r : List (QueueEvent PendingQueue UInt8)}
    (h : Run Step before.startCgi r c) : c.isCgiStdinPendingEmpty = true ↔
      r.flatMap (consumedFrom .cgiStdin) = r.flatMap (appendedTo .cgiStdin) := by
  obtain ⟨_, horder, b, rfl, -, rfl⟩ := run_holds h
  have hstdin := horder .cgiStdin
  have hempty : (ofBuffers b).isCgiStdinPendingEmpty = (b .cgiStdin).isEmpty := PendingString.isEmpty_ofBuffer _
  rw [hempty, OffsetBuffer.isEmpty_iff, ← hstdin]
  exact List.self_eq_append_right.symm

end PendingMembers

/-! ## What the strings hold on to -/

namespace PendingString

theorem offset_append {q q' : PendingString} {data : Bytes} (h : q.append data = some q') :
    q'.offset ≤ q.offset := by
  unfold append at h
  split at h
  · cases h
  · cases h
    exact le_rfl

theorem offset_consume_lt (q : PendingString) (bytes : ℕ) : (q.consume bytes).offset < Client.compactThreshold := by
  have hpos : 0 < Client.compactThreshold := by decide
  unfold consume
  dsimp only
  split
  · split
    · exact hpos
    · exact hpos
  · next hbelow => exact Nat.lt_of_not_le hbelow

theorem length_lt_of_offset {q : PendingString} (h : q.offset < Client.compactThreshold) :
    q.text.length < q.size + Client.compactThreshold := by
  unfold size
  split
  · omega
  · omega

end PendingString

namespace PendingMembers

/-- Neither offset has reached the threshold. -/
def CutBack (c : PendingMembers) : Prop :=
  c.cgiStdinPending.offset < Client.compactThreshold ∧ c.cgiSendPending.offset < Client.compactThreshold

theorem Step.cutBack {c c' : PendingMembers} {es : List (QueueEvent PendingQueue UInt8)} (hc : c.CutBack)
    (h : Step c es c') : c'.CutBack := by
  obtain ⟨hstdin, hsend⟩ := hc
  cases h with
  | appendCgiStdin h =>
    obtain ⟨q, hq, rfl⟩ := Option.map_eq_some_iff.mp h
    exact ⟨(PendingString.offset_append hq).trans_lt hstdin, hsend⟩
  | consumeCgiStdin => exact ⟨PendingString.offset_consume_lt _ _, hsend⟩
  | appendCgiSend h =>
    obtain ⟨q, hq, rfl⟩ := Option.map_eq_some_iff.mp h
    exact ⟨hstdin, (PendingString.offset_append hq).trans_lt hsend⟩
  | consumeCgiSend => exact ⟨hstdin, PendingString.offset_consume_lt _ _⟩

/-- A string is never longer by the whole threshold than what is pending in it. -/
theorem pending_cut_back {before c : PendingMembers} {r : List (QueueEvent PendingQueue UInt8)}
    (h : Run Step before.startCgi r c) :
    c.cgiStdinPending.text.length < c.getCgiStdinPendingSize + Client.compactThreshold ∧
    c.cgiSendPending.text.length < c.getCgiSendPendingSize + Client.compactThreshold := by
  have hpos : 0 < Client.compactThreshold := by decide
  have hstart : before.startCgi.CutBack := ⟨hpos, hpos⟩
  obtain ⟨hstdin, hsend⟩ := h.invariant (I := fun _ c => c.CutBack) Step.cutBack (r := []) hstart
  exact ⟨PendingString.length_lt_of_offset hstdin, PendingString.length_lt_of_offset hsend⟩

end PendingMembers

/-! ## The queues of a client -/

namespace Client

/-- The members of the class behind a client. -/
def pendingMembers (c : Client) : PendingMembers where
  cgiStdinPending := .ofBuffer c.cgiStdinPending
  cgiSendPending := .ofBuffer c.cgiSendPending

variable (c : Client)

theorem pendingMembers_startCgi (pid stdinFd stdoutFd : ℕ) :
    (c.startCgi pid stdinFd stdoutFd).pendingMembers = c.pendingMembers.startCgi := rfl

/-- What the server asks of the queues is what the class answers. -/
theorem pendingMembers_size : c.pendingMembers.getCgiStdinPendingSize = c.cgiStdinPending.size ∧
    c.pendingMembers.isCgiStdinPendingEmpty = c.cgiStdinPending.isEmpty ∧
    c.pendingMembers.getCgiSendPendingSize = c.cgiSendPending.size :=
  ⟨PendingString.size_ofBuffer _, PendingString.isEmpty_ofBuffer _, PendingString.size_ofBuffer _⟩

open PendingMembers

/-! The calls on a client are calls on its members, as long as a string can hold the bytes. -/

theorem appendCgiStdinPending_step {data : Bytes}
    (h : c.cgiStdinPending.data.length + data.length ≤ PendingString.maxSize) :
    Step c.pendingMembers [.appended .cgiStdin data] (c.appendCgiStdinPending data).pendingMembers :=
  .appendCgiStdin (congrArg (Option.map _) (PendingString.append_ofBuffer _ h))

theorem appendCgiSendPending_step {data : Bytes}
    (h : c.cgiSendPending.data.length + data.length ≤ PendingString.maxSize) :
    Step c.pendingMembers [.appended .cgiSend data] (c.appendCgiSendPending data).pendingMembers :=
  .appendCgiSend (congrArg (Option.map _) (PendingString.append_ofBuffer _ h))

theorem consumeCgiStdinPending_step (hlen : c.cgiStdinPending.data.length ≤ PendingString.maxSize) {bytes : ℕ}
    (h : bytes ≤ c.cgiStdinPending.size) :
    Step c.pendingMembers [.consumed .cgiStdin (c.cgiStdinPending.pending.take bytes)]
      (c.consumeCgiStdinPending bytes h).pendingMembers := by
  have hnext : (c.consumeCgiStdinPending bytes h).pendingMembers = c.pendingMembers.consumeCgiStdinPending bytes :=
    congrArg (fun q => { c.pendingMembers with cgiStdinPending := q })
      (PendingString.consume_ofBuffer _ hlen h).symm
  rw [hnext]
  exact .consumeCgiStdin (c.pendingMembers_size.1 ▸ h)

theorem consumeCgiSendPending_step (hlen : c.cgiSendPending.data.length ≤ PendingString.maxSize) {bytes : ℕ}
    (h : bytes ≤ c.cgiSendPending.size) :
    Step c.pendingMembers [.consumed .cgiSend (c.cgiSendPending.pending.take bytes)]
      (c.consumeCgiSendPending bytes h).pendingMembers := by
  have hnext : (c.consumeCgiSendPending bytes h).pendingMembers = c.pendingMembers.consumeCgiSendPending bytes :=
    congrArg (fun q => { c.pendingMembers with cgiSendPending := q })
      (PendingString.consume_ofBuffer _ hlen h).symm
  rw [hnext]
  exact .consumeCgiSend (c.pendingMembers_size.2.2 ▸ h)

end Client
end WebServ
