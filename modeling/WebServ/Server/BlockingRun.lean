import WebServ.Server.ScriptCall

/-! # A script that is waited for

`CGI::execute` starts a script, hands it the body in one write that blocks, and collects its
output until it ends, or until five seconds have passed. All of it happens in one call, with
the descriptors and the children of the process as they are at that moment.
-/
namespace WebServ
open Search

namespace CGI

/-- What `execute` asks of the system. -/
inductive Call
  | opened (fd : Fd)
  | closed (fd : Fd) (wasOpen : Bool)
  | forked (pid : ℕ) (script : ScriptCall)
  | wrote (fd : Fd) (bytes : Bytes)
  | read (bytes : Bytes)
  | killed (pid : ℕ)
  | waited (pid : ℕ)
deriving DecidableEq, Repr

structure Process where
  opened : List Fd := []
  calls : List Call := []
deriving DecidableEq, Repr

namespace Process
variable (p : Process)

def log (c : Call) : Process := { p with calls := p.calls ++ [c] }

def openFd (fd : Fd) : Process := { p with opened := p.opened ++ [fd] }.log (.opened fd)

def close (fd : Fd) : Process := { p with opened := p.opened.erase fd }.log (.closed fd (fd ∈ p.opened))

/-- The read end and the write end of a new pipe. -/
def pipe (answer : Option (Fd × Fd)) : Option (Fd × Fd × Process) :=
  match answer with
  | none => none
  | some (r, t) =>
    if r ∈ p.opened ∨ t ∈ p.opened ∨ r = t then none else some (r, t, (p.openFd r).openFd t)

end Process

/-! ## Waiting for the output -/

def timeout : ℕ := 5
def bufferSize : ℕ := 4096

inductive PollResult
  | interrupted
  | failed
  | idle
  | ready (revents : Readiness)
deriving DecidableEq, Repr

/-- One turn of the loop: the clock, what `poll` answers, and the reads after it. A list of
reads that ends stands for a pipe with nothing in it. -/
structure Round where
  now : ℕ := 0
  poll : PollResult := .idle
  reads : List ReadAnswer := []
deriving DecidableEq, Repr

def readPipe : ReadAnswer → ReadAnswer
  | .data bytes => if bytes = [] then .eof else .data (bytes.take bufferSize)
  | other => other

/-- What is left in the pipe after the script has gone. -/
def drain (p : Process) (output : Bytes) : List ReadAnswer → Process × Bytes
  | [] => (p, output)
  | answer :: answers =>
    match readPipe answer with
    | .data bytes => drain (p.log (.read bytes)) (output ++ bytes) answers
    | _ => (p, output)

/-- The single read for a pipe that has input: whether the loop is left. -/
def readOnce (p : Process) (output : Bytes) (answer : ReadAnswer) : Bool × Process × Bytes :=
  match readPipe answer with
  | .data bytes => (false, p.log (.read bytes), output ++ bytes)
  | .eof => (true, p, output)
  | .again => (false, p, output)
  | .error => (true, p, output)

/-- One turn before the deadline: whether the loop is left. -/
def serve (r : Round) (p : Process) (output : Bytes) : Bool × Process × Bytes :=
  match r.poll with
  | .interrupted => (false, p, output)
  | .failed => (true, p, output)
  | .idle => (false, p, output)
  | .ready revents =>
    let (left, p, output) :=
      if revents.pollin then readOnce p output (r.reads.head?.getD .again) else (false, p, output)
    let reads := if revents.pollin then r.reads.tail else r.reads
    if left then (true, p, output)
    else if revents.pollhup || revents.pollerr then
      let (p, output) := drain p output reads
      (true, p, output)
    else (false, p, output)

/-- How the loop ends: with the output, or with none when the deadline has passed. -/
inductive Ending
  | timedOut
  | left (output : Bytes)
deriving DecidableEq, Repr

/-- The loop, for as many turns as there are. -/
def waitLoop (start : ℕ) : List Round → Process → Bytes → Option (Ending × Process)
  | [], _, _ => none
  | r :: rounds, p, output =>
    if r.now ≥ start + timeout then some (.timedOut, p)
    else
      match serve r p output with
      | (true, p, output) => some (.left output, p)
      | (false, p, output) => waitLoop start rounds p output

/-! ## The call -/

/-- What becomes of the write of the body, which blocks until the pipe has taken all of it. -/
inductive WriteResult
  | whole
  /-- The script closes its input, and has taken this many bytes. -/
  | broken (taken : ℕ)
  /-- The pipe is full, and the script neither reads from it nor closes it. -/
  | stuck
deriving DecidableEq, Repr

structure RunAnswers where
  stdinPipe : Option (Fd × Fd) := none
  stdoutPipe : Option (Fd × Fd) := none
  fork : Option ℕ := none
  written : WriteResult := .whole
  start : ℕ := 0
  rounds : List Round := []
  /-- The script exits without being killed. -/
  exits : Bool := false

/-- The parent writes the body of a POST request. A write that does not end has no result, and no deadline. -/
def writeBody (p : Process) (request : HTTPRequest) (stdinWrite : Fd) (written : WriteResult) : Option Process :=
  if request.method = ascii "POST" ∧ request.body ≠ [] then
    match written with
    | .whole => some (p.log (.wrote stdinWrite request.body))
    | .broken taken => some (p.log (.wrote stdinWrite (request.body.take taken)))
    | .stuck => none
  else some p

/-- The parent of the script. A wait for a script that does not exit has no result. -/
def collect (p : Process) (a : RunAnswers) (pid : ℕ) (stdoutRead : Fd) : Option (Bytes × Process) :=
  match waitLoop a.start a.rounds p [] with
  | none => none
  | some (.timedOut, p) => some ([], ((p.log (.killed pid)).log (.waited pid)).close stdoutRead)
  | some (.left output, p) =>
    if a.exits then some (output, (p.close stdoutRead).log (.waited pid)) else none

/-- `execute`, as the server sees it. -/
def run (fs : FileSystem) (request : HTTPRequest) (route : RouteConfig) (a : RunAnswers) (p : Process) :
    Option (Bytes × Process) :=
  match p.pipe a.stdinPipe with
  | none => some ([], p)
  | some (stdinRead, stdinWrite, p) =>
    match p.pipe a.stdoutPipe with
    | none => some ([], p)
    | some (stdoutRead, stdoutWrite, p) =>
      match a.fork with
      | none => some ([], (((p.close stdinRead).close stdinWrite).close stdoutRead).close stdoutWrite)
      | some pid =>
        let p := ((p.log (.forked pid (CGI.execute fs request route))).close stdinRead).close stdoutWrite
        match writeBody p request stdinWrite a.written with
        | none => none
        | some p => collect (p.close stdinWrite) a pid stdoutRead

/-! ## Reads -/

/-- Only reads happened, and what they returned was added to the output. -/
def Collects (p : Process) (output : Bytes) (p' : Process) (output' : Bytes) : Prop :=
  ∃ pieces : List Bytes, p' = { p with calls := p.calls ++ pieces.map .read } ∧ output' = output ++ pieces.flatten

theorem Collects.refl (p : Process) (output : Bytes) : Collects p output p output := ⟨[], by simp, by simp⟩

theorem Collects.trans {p p' p'' : Process} {output output' output'' : Bytes} (h : Collects p output p' output')
    (h' : Collects p' output' p'' output'') : Collects p output p'' output'' := by
  obtain ⟨pieces, rfl, rfl⟩ := h
  obtain ⟨pieces', rfl, rfl⟩ := h'
  exact ⟨pieces ++ pieces', by simp, by simp⟩

theorem collects_read (p : Process) (output bytes : Bytes) :
    Collects p output (p.log (.read bytes)) (output ++ bytes) := ⟨[bytes], rfl, by simp⟩

theorem drain_collects (p : Process) (output : Bytes) (answers : List ReadAnswer) :
    Collects p output (drain p output answers).1 (drain p output answers).2 := by
  induction answers generalizing p output with
  | nil => exact .refl p output
  | cons answer answers ih =>
    unfold drain
    split
    · exact (collects_read p output _).trans (ih _ _)
    · exact .refl p output

theorem readOnce_collects (p : Process) (output : Bytes) (answer : ReadAnswer) :
    Collects p output (readOnce p output answer).2.1 (readOnce p output answer).2.2 := by
  unfold readOnce
  split
  · exact collects_read p output _
  · exact .refl p output
  · exact .refl p output
  · exact .refl p output

theorem serve_collects (r : Round) (p : Process) (output : Bytes) :
    Collects p output (serve r p output).2.1 (serve r p output).2.2 := by
  unfold serve
  split
  · exact .refl p output
  · exact .refl p output
  · exact .refl p output
  · next revents _ =>
    have hread : Collects p output
        (if revents.pollin then readOnce p output (r.reads.head?.getD .again) else (false, p, output)).2.1
        (if revents.pollin then readOnce p output (r.reads.head?.getD .again) else (false, p, output)).2.2 := by
      split
      · exact readOnce_collects p output _
      · exact .refl p output
    generalize (if revents.pollin then readOnce p output (r.reads.head?.getD .again) else (false, p, output)) = read
      at hread ⊢
    obtain ⟨left, p', output'⟩ := read
    dsimp only at hread ⊢
    split
    · exact hread
    · split
      · exact hread.trans (drain_collects _ _ _)
      · exact hread

theorem waitLoop_collects (start : ℕ) (rounds : List Round) {p p' : Process} {output : Bytes} {ending : Ending}
    (h : waitLoop start rounds p output = some (ending, p')) :
    ∃ output', Collects p output p' output' ∧ (ending = .timedOut ∨ ending = .left output') := by
  induction rounds generalizing p output with
  | nil => cases h
  | cons r rounds ih =>
    unfold waitLoop at h
    split at h
    · cases h
      exact ⟨output, .refl _ output, Or.inl rfl⟩
    · have hserve := serve_collects r p output
      split at h
      · next hs =>
        cases h
        rw [hs] at hserve
        exact ⟨_, hserve, Or.inr rfl⟩
      · next hs =>
        rw [hs] at hserve
        obtain ⟨output', hrest, hend⟩ := ih h
        exact ⟨output', hserve.trans hrest, hend⟩

/-! ## Descriptors and children -/

/-- What was done since a state of the process. -/
def since (p p' : Process) : List Call := p'.calls.drop p.calls.length

def Call.child : Call → Option ℕ
  | .forked pid _ => some pid
  | _ => none

def Call.reaped : Call → Option ℕ
  | .waited pid => some pid
  | _ => none

def Call.piece : Call → Option Bytes
  | .read bytes => some bytes
  | _ => none

theorem since_eq {p p' : Process} {cs : List Call} (h : p'.calls = p.calls ++ cs) : since p p' = cs := by
  rw [since, h, List.drop_left]

theorem pipe_eq {p q : Process} {answer : Option (Fd × Fd)} {r t : Fd} (h : p.pipe answer = some (r, t, q)) :
    r ∉ p.opened ∧ t ∉ p.opened ∧ r ≠ t ∧ q = ⟨p.opened ++ [r, t], p.calls ++ [.opened r, .opened t]⟩ := by
  unfold Process.pipe at h
  split at h
  · cases h
  · split at h
    · cases h
    · next hfree =>
      simp only [not_or] at hfree
      obtain ⟨hr, ht, hne⟩ := hfree
      cases h
      exact ⟨hr, ht, hne, by simp [Process.openFd, Process.log]⟩

/-- Closing a descriptor that is open once. -/
theorem close_eq {front back : List Fd} {fd : Fd} (cs : List Call) (h : fd ∉ front) :
    (⟨front ++ fd :: back, cs⟩ : Process).close fd = ⟨front ++ back, cs ++ [.closed fd true]⟩ := by
  simp [Process.close, Process.log, List.erase_append_right _ h]

/-- What a call does to the process: it closes what it has opened, while that is open, and waits
for the script it has started. -/
structure Accounts (p p' : Process) : Prop where
  calls : p.calls <+: p'.calls
  closed : ∀ fd b, .closed fd b ∈ since p p' → b = true ∧ fd ∉ p.opened ∧ .opened fd ∈ since p p'
  children : (since p p').filterMap Call.child = (since p p').filterMap Call.reaped

/-- The first pipe was made, and the second one was not. -/
def SecondPipeFails (p : Process) (a : RunAnswers) : Prop :=
  ∃ r t q, p.pipe a.stdinPipe = some (r, t, q) ∧ q.pipe a.stdoutPipe = none

theorem accounts_of_calls {p p' : Process} {cs : List Call} (hcalls : p'.calls = p.calls ++ cs)
    (hclosed : ∀ fd b, .closed fd b ∈ cs → b = true ∧ fd ∉ p.opened ∧ .opened fd ∈ cs)
    (hchildren : cs.filterMap Call.child = cs.filterMap Call.reaped) : Accounts p p' := by
  refine ⟨hcalls ▸ List.prefix_append _ _, ?_, ?_⟩
  · rw [since_eq hcalls]
    exact hclosed
  · rw [since_eq hcalls]
    exact hchildren

/-- Both pipes were made, and there is a child. -/
def ScriptStarts (p : Process) (a : RunAnswers) : Prop :=
  ∃ i t q o u q' pid, p.pipe a.stdinPipe = some (i, t, q) ∧ q.pipe a.stdoutPipe = some (o, u, q') ∧
    a.fork = some pid

/-- The calls that lead up to the wait for the output. -/
def startCalls (script : ScriptCall) (wrote : List Call) (i t o u : Fd) (pid : ℕ) : List Call :=
  [.opened i, .opened t, .opened o, .opened u, .forked pid script, .closed i true, .closed u true] ++ wrote ++
    [.closed t true]

/-- There is a body to write, and the write does not end. -/
def BodyStuck (request : HTTPRequest) (a : RunAnswers) : Prop :=
  request.method = ascii "POST" ∧ request.body ≠ [] ∧ a.written = .stuck

theorem writeBody_stuck {request : HTTPRequest} {a : RunAnswers} (h : BodyStuck request a) (p : Process) (t : Fd) :
    writeBody p request t a.written = none := by
  obtain ⟨hm, hb, hw⟩ := h
  unfold writeBody
  rw [if_pos ⟨hm, hb⟩, hw]

theorem writeBody_eq {p : Process} {request : HTTPRequest} {a : RunAnswers} (h : ¬ BodyStuck request a) (t : Fd) :
    ∃ wrote : List Call, (∀ c ∈ wrote, ∃ fd bytes, c = .wrote fd bytes) ∧
      writeBody p request t a.written = some { p with calls := p.calls ++ wrote } := by
  unfold writeBody
  split
  · next hbody =>
    cases hw : a.written with
    | whole => exact ⟨[.wrote t request.body], by simp, rfl⟩
    | broken taken => exact ⟨[.wrote t (request.body.take taken)], by simp, rfl⟩
    | stuck => exact absurd ⟨hbody.1, hbody.2, hw⟩ h
  · exact ⟨[], by simp, by simp⟩

/-- What happens up to the wait for the output of a script. -/
inductive Starts (fs : FileSystem) (request : HTTPRequest) (route : RouteConfig) (a : RunAnswers) (p : Process) :
    Option (Bytes × Process) → Prop
  | noPipe (h : p.pipe a.stdinPipe = none) : Starts fs request route a p (some ([], p))
  | onePipe {i t : Fd} (h : SecondPipeFails p a) (hi : i ∉ p.opened) :
      Starts fs request route a p (some ([], ⟨p.opened ++ [i, t], p.calls ++ [.opened i, .opened t]⟩))
  | noChild {i t o u : Fd} (h : ¬ SecondPipeFails p a) (hf : a.fork = none) (hfree : ∀ f ∈ [i, t, o, u], f ∉ p.opened) :
      Starts fs request route a p (some ([], ⟨p.opened, p.calls ++ [.opened i, .opened t, .opened o, .opened u,
        .closed i true, .closed t true, .closed o true, .closed u true]⟩))
  | stuck (h : ¬ SecondPipeFails p a) (hs : ScriptStarts p a) (hb : BodyStuck request a) :
      Starts fs request route a p none
  | child {i t o u : Fd} {pid : ℕ} {wrote : List Call} (h : ¬ SecondPipeFails p a) (hb : ¬ BodyStuck request a)
      (hfree : ∀ f ∈ [i, t, o, u], f ∉ p.opened) (hs : ScriptStarts p a) (hf : a.fork = some pid)
      (hw : ∀ c ∈ wrote, ∃ fd bytes, c = .wrote fd bytes) : Starts fs request route a p
        (collect ⟨p.opened ++ [o], p.calls ++ startCalls (CGI.execute fs request route) wrote i t o u pid⟩ a pid o)

theorem run_starts (fs : FileSystem) (request : HTTPRequest) (route : RouteConfig) (a : RunAnswers) (p : Process) :
    Starts fs request route a p (run fs request route a p) := by
  unfold run
  cases hin : p.pipe a.stdinPipe with
  | none => exact .noPipe hin
  | some made =>
    obtain ⟨i, t, q⟩ := made
    obtain ⟨hi, ht, hit, hq⟩ := pipe_eq hin
    cases hout : q.pipe a.stdoutPipe with
    | none =>
      simp only [hout]
      rw [hq]
      exact .onePipe ⟨i, t, q, hin, hout⟩ hi
    | some made =>
      obtain ⟨o, u, q'⟩ := made
      obtain ⟨ho, hu, hou, hq'⟩ := pipe_eq hout
      rw [hq] at ho hu
      simp only [List.mem_append, List.mem_cons, List.not_mem_nil, or_false, not_or] at ho hu
      have hboth : ¬ SecondPipeFails p a := by
        rintro ⟨r, s, v, hv, hnone⟩
        rw [hin] at hv
        cases hv
        rw [hout] at hnone
        cases hnone
      have hfree : ∀ f ∈ [i, t, o, u], f ∉ p.opened := by simp [hi, ht, ho, hu]
      have hopened : q' = ⟨p.opened ++ i :: [t, o, u], p.calls ++ [.opened i, .opened t, .opened o, .opened u]⟩ := by
        rw [hq', hq]
        simp
      simp only [hout]
      rw [hopened]
      cases hfork : a.fork with
      | none =>
        simp only
        rw [close_eq _ hi, close_eq _ ht, close_eq _ ho.1, close_eq _ hu.1]
        simpa using Starts.noChild hboth hfork hfree
      | some pid =>
        have hstarts : ScriptStarts p a := ⟨i, t, q, o, u, q', pid, hin, hout, hfork⟩
        by_cases hstuck : BodyStuck request a
        · simp only [writeBody_stuck hstuck]
          exact .stuck hboth hstarts hstuck
        obtain ⟨wrote, hw, hwrite⟩ := writeBody_eq hstuck t
          (p := ⟨p.opened ++ [t, o], p.calls ++ [.opened i, .opened t, .opened o, .opened u,
            .forked pid (CGI.execute fs request route), .closed i true, .closed u true]⟩)
        have hchild : Starts fs request route a p _ := .child hboth hstuck hfree hstarts hfork hw
        have hback : p.opened ++ [t, o, u] = (p.opened ++ [t, o]) ++ u :: [] := by simp
        have hu' : u ∉ p.opened ++ [t, o] := by simp [hu, hou.symm]
        simp only [Process.log]
        rw [close_eq _ hi, hback, close_eq _ hu', List.append_nil]
        simp only [List.append_assoc, List.cons_append, List.nil_append] at hwrite ⊢
        rw [hwrite]
        dsimp only
        rw [close_eq _ ht]
        simpa [startCalls] using hchild

theorem collect_ends {a : RunAnswers} {pid : ℕ} {o : Fd} {l : List Fd} {cs : List Call} {out : Bytes} {p' : Process}
    (ho : o ∉ l) (h : collect ⟨l ++ [o], cs⟩ a pid o = some (out, p')) : ∃ pieces : List Bytes,
      (out = [] ∧ p' = ⟨l, cs ++ pieces.map .read ++ [.killed pid, .waited pid, .closed o true]⟩) ∨
      (out = pieces.flatten ∧ p' = ⟨l, cs ++ pieces.map .read ++ [.closed o true, .waited pid]⟩) := by
  unfold collect at h
  cases hloop : waitLoop a.start a.rounds ⟨l ++ [o], cs⟩ [] with
  | none => simp [hloop] at h
  | some res =>
    obtain ⟨ending, q⟩ := res
    obtain ⟨output, ⟨pieces, hq, hout⟩, hend⟩ := waitLoop_collects a.start a.rounds hloop
    have hclose (cs' : List Call) : (⟨l ++ [o], cs'⟩ : Process).close o = ⟨l, cs' ++ [.closed o true]⟩ := by
      rw [close_eq cs' ho, List.append_nil]
    refine ⟨pieces, ?_⟩
    rw [hloop] at h
    rcases hend with rfl | rfl
    · left
      simp only [Option.some.injEq, Prod.mk.injEq] at h
      obtain ⟨rfl, rfl⟩ := h
      refine ⟨rfl, ?_⟩
      rw [hq]
      simp only [Process.log]
      rw [hclose]
      simp
    · right
      simp only [Option.ite_none_right_eq_some, Option.some.injEq, Prod.mk.injEq] at h
      obtain ⟨-, rfl, rfl⟩ := h
      refine ⟨by simpa using hout, ?_⟩
      rw [hq]
      simp only
      rw [hclose]
      simp [Process.log]

/-- What is closed was opened by the call. -/
theorem closed_of_opened {p : Process} {cs : List Call} {made : List Fd} (hfree : ∀ f ∈ made, f ∉ p.opened)
    (hopened : ∀ f ∈ made, .opened f ∈ cs) (hclosed : ∀ fd b, .closed fd b ∈ cs → b = true ∧ fd ∈ made) :
    ∀ fd b, .closed fd b ∈ cs → b = true ∧ fd ∉ p.opened ∧ .opened fd ∈ cs := by
  intro fd b hmem
  obtain ⟨hb, hfd⟩ := hclosed fd b hmem
  exact ⟨hb, hfree fd hfd, hopened fd hfd⟩

/-- The calls of a script that was started, up to the last ones. -/
theorem started_accounts {p p' : Process} {script : ScriptCall} {wrote last : List Call} {i t o u : Fd} {pid : ℕ}
    (hfree : ∀ f ∈ [i, t, o, u], f ∉ p.opened) (hw : ∀ c ∈ wrote, ∃ fd bytes, c = .wrote fd bytes)
    (pieces : List Bytes) (hlast : last = [.killed pid, .waited pid, .closed o true] ∨
      last = [.closed o true, .waited pid])
    (hp' : p'.calls = p.calls ++ startCalls script wrote i t o u pid ++ pieces.map .read ++ last) : Accounts p p' := by
  have hwrote (f : Call → Option ℕ) (hf : ∀ fd bytes, f (.wrote fd bytes) = none) : wrote.filterMap f = [] := by
    rw [List.filterMap_eq_nil_iff]
    intro c hc
    obtain ⟨fd, bytes, rfl⟩ := hw c hc
    exact hf fd bytes
  have hreads (f : Call → Option ℕ) (hf : ∀ bytes, f (.read bytes) = none) : (pieces.map Call.read).filterMap f = [] := by
    rw [List.filterMap_eq_nil_iff]
    intro c hc
    obtain ⟨bytes, -, rfl⟩ := List.mem_map.mp hc
    exact hf bytes
  rw [List.append_assoc, List.append_assoc] at hp'
  refine accounts_of_calls hp' (closed_of_opened hfree ?_ ?_) ?_
  · simp [startCalls]
  · intro fd b hmem
    have hnot : .closed fd b ∉ wrote := by
      intro hc
      obtain ⟨fd', bytes, hc'⟩ := hw _ hc
      cases hc'
    rcases hlast with rfl | rfl <;>
    · simp [startCalls, hnot] at hmem
      grind
  · simp only [startCalls, List.filterMap_append, hwrote Call.child (fun _ _ => rfl),
      hwrote Call.reaped (fun _ _ => rfl), hreads Call.child (fun _ => rfl), hreads Call.reaped (fun _ => rfl)]
    rcases hlast with rfl | rfl <;> rfl

/-- Every call of `execute` that returns has closed only what it has opened, each time while it was
open, and has waited for its script; the descriptors are those from before, unless the second pipe
could not be made. -/
theorem execute_accounts {fs : FileSystem} {request : HTTPRequest} {route : RouteConfig} {a : RunAnswers}
    {p p' : Process} {out : Bytes} (h : run fs request route a p = some (out, p')) :
    Accounts p p' ∧ (p'.opened = p.opened ↔ ¬ SecondPipeFails p a) := by
  have hs := run_starts fs request route a p
  generalize run fs request route a p = result at h hs
  cases hs with
  | noPipe hnone =>
    cases h
    refine ⟨accounts_of_calls (List.append_nil _).symm (by simp) rfl, ?_⟩
    simp only [true_iff]
    rintro ⟨r, t, q, hq, -⟩
    rw [hnone] at hq
    cases hq
  | @onePipe i t hfails hi =>
    cases h
    refine ⟨accounts_of_calls rfl (by simp) rfl, ?_⟩
    simp [hfails]
  | @noChild i t o u hboth hfork hfree =>
    cases h
    refine ⟨accounts_of_calls rfl (closed_of_opened hfree ?_ ?_) rfl, by simp [hboth]⟩
    · simp
    · intro fd b hmem
      simp at hmem
      grind
  | stuck hboth hs hb => cases h
  | @child i t o u pid wrote hboth hb hfree hs hf hw =>
    have ho : o ∉ p.opened := hfree o (by simp)
    obtain ⟨pieces, ⟨-, rfl⟩ | ⟨-, rfl⟩⟩ := collect_ends ho h
    · exact ⟨started_accounts hfree hw pieces (Or.inl rfl) rfl, by simp [hboth]⟩
    · exact ⟨started_accounts hfree hw pieces (Or.inr rfl) rfl, by simp [hboth]⟩

/-! ## The output -/

theorem pieces_of_start {wrote : List Call} (hw : ∀ c ∈ wrote, ∃ fd bytes, c = .wrote fd bytes)
    (script : ScriptCall) (i t o u : Fd) (pid : ℕ) :
    (startCalls script wrote i t o u pid).filterMap Call.piece = [] := by
  rw [List.filterMap_eq_nil_iff]
  intro c hc
  simp only [startCalls, List.mem_append, List.mem_cons, List.not_mem_nil, or_false] at hc
  rcases hc with (hc | hc) | rfl
  · rcases hc with rfl | rfl | rfl | rfl | rfl | rfl | rfl <;> rfl
  · obtain ⟨fd, bytes, rfl⟩ := hw c hc
    rfl
  · rfl

theorem pieces_of_reads (pieces : List Bytes) : (pieces.map Call.read).filterMap Call.piece = pieces := by
  induction pieces with
  | nil => rfl
  | cons bytes pieces ih => simpa [Call.piece] using ih

/-- The answer of `execute` is all that was read from the script, in order, or nothing when the
script was killed. -/
theorem execute_output {fs : FileSystem} {request : HTTPRequest} {route : RouteConfig} {a : RunAnswers}
    {p p' : Process} {out : Bytes} (h : run fs request route a p = some (out, p')) :
    ((∃ pid, .killed pid ∈ since p p') → out = []) ∧
      ((∀ pid, .killed pid ∉ since p p') → out = ((since p p').filterMap Call.piece).flatten) := by
  have hs := run_starts fs request route a p
  generalize run fs request route a p = result at h hs
  cases hs with
  | noPipe hnone =>
    cases h
    simp [since]
  | onePipe hfails hi =>
    cases h
    simp [since, Call.piece]
  | noChild hboth hfork hfree =>
    cases h
    simp [since, Call.piece]
  | stuck hboth hs hb => cases h
  | @child i t o u pid wrote hboth hb hfree hs hf hw =>
    have ho : o ∉ p.opened := hfree o (by simp)
    obtain ⟨pieces, ⟨rfl, rfl⟩ | ⟨rfl, rfl⟩⟩ := collect_ends ho h
    · refine ⟨fun _ => rfl, fun hnone => absurd ?_ (hnone pid)⟩
      rw [since_eq (List.append_assoc _ _ _ |>.trans (List.append_assoc _ _ _))]
      simp
    · have hsince : since p ⟨p.opened, p.calls ++ startCalls (CGI.execute fs request route) wrote i t o u pid ++
          pieces.map .read ++ [.closed o true, .waited pid]⟩ =
            startCalls (CGI.execute fs request route) wrote i t o u pid ++ (pieces.map .read ++
              [.closed o true, .waited pid]) := since_eq (by simp)
      rw [hsince]
      refine ⟨?_, fun _ => ?_⟩
      · rintro ⟨pid', hmem⟩
        have hnot : .killed pid' ∉ wrote := by
          intro hc
          obtain ⟨fd, bytes, hc'⟩ := hw _ hc
          cases hc'
        simp [startCalls, hnot] at hmem
      · rw [List.filterMap_append, pieces_of_start hw, List.filterMap_append, pieces_of_reads]
        simp [Call.piece]

/-! ## When it returns -/

/-- The deadline has passed. -/
def late (start : ℕ) (r : Round) : Bool := r.now ≥ start + timeout

/-- The output ends in this turn, or cannot be read any more. -/
def Round.leaves (r : Round) : Bool :=
  match r.poll with
  | .failed => true
  | .ready revents =>
    (revents.pollin && (readPipe (r.reads.head?.getD .again) = .eof ||
      readPipe (r.reads.head?.getD .again) = .error)) || revents.pollhup || revents.pollerr
  | _ => false

theorem readOnce_leaves (p : Process) (output : Bytes) (answer : ReadAnswer) :
    (readOnce p output answer).1 = (readPipe answer = .eof || readPipe answer = .error : Bool) := by
  unfold readOnce
  split <;> next h => simp [h]

theorem serve_leaves (r : Round) (p : Process) (output : Bytes) : (serve r p output).1 = r.leaves := by
  unfold serve Round.leaves
  cases r.poll with
  | interrupted => rfl
  | failed => rfl
  | idle => rfl
  | ready revents =>
    have hread := readOnce_leaves p output (r.reads.head?.getD .again)
    simp only
    cases hin : revents.pollin with
    | false => cases hh : revents.pollhup || revents.pollerr <;> simp_all
    | true =>
      cases hl : (readOnce p output (r.reads.head?.getD .again)).1 with
      | true => simp_all
      | false => cases hh : revents.pollhup || revents.pollerr <;> simp_all

/-- The loop ends in the first turn that is late or leaves it. -/
theorem waitLoop_ending (start : ℕ) (rounds : List Round) (p : Process) (output : Bytes) :
    (waitLoop start rounds p output).map (fun res => decide (res.1 = .timedOut)) =
      (rounds.find? (fun r => late start r || r.leaves)).map (late start) := by
  induction rounds generalizing p output with
  | nil => rfl
  | cons r rounds ih =>
    unfold waitLoop
    by_cases hlate : r.now ≥ start + timeout
    · simp [hlate, late]
    · have hserve := serve_leaves r p output
      rw [if_neg hlate]
      split
      · next hs =>
        rw [hs] at hserve
        simp [late, hlate, ← hserve]
      · next hs =>
        rw [hs] at hserve
        rw [ih, List.find?_cons_of_neg (by simp [late, hlate, ← hserve])]

/-- The script is killed because the deadline passes before its output ends. -/
def TimesOut (a : RunAnswers) : Prop :=
  ∃ r, a.rounds.find? (fun r => late a.start r || r.leaves) = some r ∧ late a.start r = true

theorem collect_isSome_iff {a : RunAnswers} (hclock : ∃ r ∈ a.rounds, a.start + timeout ≤ r.now) (p : Process)
    (pid : ℕ) (o : Fd) : (collect p a pid o).isSome ↔ a.exits = true ∨ TimesOut a := by
  have hending := waitLoop_ending a.start a.rounds p []
  obtain ⟨r, hr⟩ : ∃ r, a.rounds.find? (fun r => late a.start r || r.leaves) = some r := by
    rw [← Option.isSome_iff_exists, List.find?_isSome]
    obtain ⟨r, hmem, hnow⟩ := hclock
    exact ⟨r, hmem, by simp [late, hnow]⟩
  have htimes : TimesOut a ↔ late a.start r = true := by
    unfold TimesOut
    simp [hr]
  rw [hr, Option.map_some, Option.map_eq_some_iff] at hending
  obtain ⟨⟨ending, q⟩, hloop, hlate⟩ := hending
  rw [htimes, ← hlate]
  unfold collect
  rw [hloop]
  cases ending with
  | timedOut => simp
  | left output => cases a.exits <;> simp

/-- Once the clock has passed the deadline `execute` has returned, unless the write of the body, for which there is no
deadline, does not end, or the output of the script ended before and the script goes on. -/
theorem execute_returns_iff {fs : FileSystem} {request : HTTPRequest} {route : RouteConfig} {a : RunAnswers}
    {p : Process} (hclock : ∃ r ∈ a.rounds, a.start + timeout ≤ r.now) :
    (run fs request route a p).isSome ↔
      ¬ ScriptStarts p a ∨ ¬ BodyStuck request a ∧ (a.exits = true ∨ TimesOut a) := by
  have hs := run_starts fs request route a p
  generalize run fs request route a p = result at hs
  cases hs with
  | noPipe hnone =>
    have hnot : ¬ ScriptStarts p a := by
      rintro ⟨i, t, q, o, u, q', pid, hin, -, -⟩
      rw [hnone] at hin
      cases hin
    simp [hnot]
  | onePipe hfails hi =>
    have hnot : ¬ ScriptStarts p a := by
      rintro ⟨i, t, q, o, u, q', pid, hin, hout, -⟩
      obtain ⟨r, t, v, hv, hnone⟩ := hfails
      rw [hv] at hin
      cases hin
      rw [hnone] at hout
      cases hout
    simp [hnot]
  | noChild hboth hfork hfree =>
    have hnot : ¬ ScriptStarts p a := by
      rintro ⟨i, t, q, o, u, q', pid, -, -, hf⟩
      rw [hfork] at hf
      cases hf
    simp [hnot]
  | stuck hboth hs hb => simp [hs, hb]
  | child hboth hb hfree hs hf hw =>
    rw [collect_isSome_iff hclock]
    simp [hs, hb]

/-! ## Two scripts -/

/-- The script writes `hi` and exits. -/
def greets : RunAnswers where
  stdinPipe := some (5, 6)
  stdoutPipe := some (7, 8)
  fork := some 9
  rounds := [{ poll := .ready { pollin := true }, reads := [.data (ascii "hi")] },
    { poll := .ready { pollhup := true } }, { now := 5 }]
  exits := true

theorem run_greets : ∃ p', run {} {} {} greets ⟨[3], []⟩ = some (ascii "hi", p') := by
  have hout : (run {} {} {} greets ⟨[3], []⟩).map Prod.fst = some (ascii "hi") := by decide +kernel
  obtain ⟨⟨out, p'⟩, hrun, rfl⟩ := Option.map_eq_some_iff.mp hout
  exact ⟨p', hrun⟩

theorem execute_accounts_greets : ∃ p', run {} {} {} greets ⟨[3], []⟩ = some (ascii "hi", p') ∧
    Accounts ⟨[3], []⟩ p' ∧ (p'.opened = [3] ↔ ¬ SecondPipeFails ⟨[3], []⟩ greets) := by
  obtain ⟨p', hrun⟩ := run_greets
  exact ⟨p', hrun, execute_accounts hrun⟩

theorem execute_output_greets : ∃ p', run {} {} {} greets ⟨[3], []⟩ = some (ascii "hi", p') ∧
    ((∃ pid, .killed pid ∈ since ⟨[3], []⟩ p') → ascii "hi" = []) ∧
    ((∀ pid, .killed pid ∉ since ⟨[3], []⟩ p') →
      ascii "hi" = ((since ⟨[3], []⟩ p').filterMap Call.piece).flatten) := by
  obtain ⟨p', hrun⟩ := run_greets
  exact ⟨p', hrun, execute_output hrun⟩

/-- The script closes its output and goes on. -/
def staysOn : RunAnswers := { greets with exits := false }

theorem execute_returns_staysOn : run {} {} {} staysOn ⟨[3], []⟩ = none ∧
    ((run {} {} {} staysOn ⟨[3], []⟩).isSome ↔
      ¬ ScriptStarts ⟨[3], []⟩ staysOn ∨ ¬ BodyStuck {} staysOn ∧ (staysOn.exits = true ∨ TimesOut staysOn)) :=
  ⟨rfl, execute_returns_iff ⟨{ now := 5 }, by decide +kernel, by decide +kernel⟩⟩

end CGI
end WebServ
