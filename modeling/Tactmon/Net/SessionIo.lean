import Tactmon.Lib.Conformance
import Tactmon.Net.ProcessRequest

/-!
# The reads and writes of a session

`Session` as a machine over the completions of its asynchronous operations.
The state is the outgoing queue, how many reads are outstanding, and the
messages whose writes are.  A completion runs its handler to the end.  The log
records reads and requests, so that one can speak about what comes after a read
that failed.

`UpdateOutgoing` takes a message off the queue when its write begins.  So the
queue is empty between two completions, and it never says that a write is
outstanding.  Every message asks for the connection to be closed, so
`HandleWrite` starts nothing.

`Io.Quiescent` is the invariant of the runs that keep the discipline.
-/

namespace Tactmon

namespace Net

open Binary Zlib Conformance

/-! ## The machine -/

/-- `QueueLimit`. -/
def queueLimit : Nat := 8

/-- A message, with its `keep_alive`. -/
structure Message where
  response : ErrorResponse
  keepAlive : Bool

/-- The error code of a read. -/
inductive ReadCode where
  | success
  | endOfStream
  /-- Any other error. -/
  | failure
deriving DecidableEq, Repr

/-- What the log records. -/
inductive Event where
  | readStarted
  | readCompleted (ec : ReadCode)
  /-- `ProcessRequest` was called. -/
  | processed
deriving DecidableEq, Repr

/-- A read that did not succeed. -/
def Event.failed : Event → Bool
  | .readCompleted ec => ec ≠ .success
  | _ => false

/-- A request was processed or a read was started. -/
def Event.active : Event → Bool
  | .readCompleted _ => false
  | _ => true

/-- A session between two completions. -/
structure Io where
  outgoingQueue : List Message
  reads : Nat
  writes : List Message
  log : List Event

/-- The completion of an outstanding operation. -/
inductive Completion where
  /-- A read, with the target that the parser holds and the network that a
  request meets. -/
  | read (ec : ReadCode) (env : Environment) (target : Bytes)
  /-- The write of the message at this place among the outstanding ones. -/
  | write (place : Nat) (succeeded : Bool)

namespace Io

def record (s : Io) (e : Event) : Io := { s with log := s.log ++ [e] }

/-- `BeginRead`. -/
def beginRead (s : Io) : Io := { s.record .readStarted with reads := s.reads + 1 }

/-- `UpdateOutgoing`. -/
def updateOutgoing (s : Io) : Bool × Io :=
  (decide (s.outgoingQueue.length = queueLimit),
    match s.outgoingQueue with
    | [] => s
    | message :: outgoingQueue => { s with outgoingQueue, writes := s.writes ++ [message] })

/-- `BeginWrite`. -/
def beginWrite (s : Io) (message : Message) : Io :=
  let s := { s with outgoingQueue := s.outgoingQueue ++ [message] }
  if s.outgoingQueue.length = 1 then s.updateOutgoing.2 else s

/-- An error response goes through `BeginWrite`, and has `keep_alive` unset. -/
def respond (s : Io) (response : ErrorResponse) : Io := s.beginWrite ⟨response, false⟩

section Handlers

variable (digest : Bytes → Digest) (Z : Inflate)

/-- `HandleRead`. -/
def handleRead (s : Io) (ec : ReadCode) (env : Environment) (target : Bytes) : Io :=
  if ec = .endOfStream then s
  else
    let processed := processRequest digest Z env target
    let s := processed.queued.foldl respond (s.record .processed)
    if processed.again && s.outgoingQueue.length < queueLimit then s.beginRead else s

/-- `HandleWrite`. -/
def handleWrite (s : Io) (keepAlive succeeded : Bool) : Io :=
  if !succeeded then s
  else if !keepAlive then s
  else
    let (wasFull, s) := s.updateOutgoing
    if wasFull then s.beginRead else s

/-- One completion. -/
def step (s : Io) : Completion → Io
  | .read ec env target =>
      handleRead digest Z { s.record (.readCompleted ec) with reads := s.reads - 1 } ec env target
  | .write place succeeded =>
      match s.writes[place]? with
      | none => s
      | some message =>
          { s with writes := s.writes.eraseIdx place }.handleWrite message.keepAlive succeeded

end Handlers

/-- A session that `Run` has started. -/
def start : Io := beginRead ⟨[], 0, [], []⟩

/-- Only what is outstanding completes. -/
def Outstanding (s : Io) : Completion → Prop
  | .read _ _ _ => 0 < s.reads
  | .write place _ => place < s.writes.length

/-! ## The discipline -/

/-- Nothing is processed and no read is started after a read that failed. -/
def Quiet (log : List Event) : Prop :=
  log.Pairwise fun earlier later => earlier.failed = true → later.active = false

/-- One write and one read at most are outstanding, the responses queued or
being written keep to the limit, and a failed read is the last. -/
structure Disciplined (s : Io) : Prop where
  writes : s.writes.length ≤ 1
  reads : s.reads ≤ 1
  responses : s.outgoingQueue.length + s.writes.length ≤ queueLimit
  quiet : Quiet s.log

/-- A read completes with a request that is answered by an error response only
while no write is outstanding, and no read fails otherwise than at the end of
the stream. -/
def Meets (s : Io) : Completion → Prop
  | .read .success env target => env.Responds target → s.writes = []
  | .read .endOfStream _ _ => True
  | .read .failure _ _ => False
  | .write _ _ => True

/-- What the states of a disciplined run have in common between completions. -/
structure Quiescent (s : Io) : Prop where
  queue : s.outgoingQueue = []
  writes : s.writes.length ≤ 1
  closing : ∀ message ∈ s.writes, message.keepAlive = false
  reads : s.reads ≤ 1
  quiet : Quiet s.log
  /-- Behind a failed read no read is outstanding. -/
  last : 0 < s.reads → ∀ e ∈ s.log, e.failed = false

theorem Quiescent.disciplined {s : Io} (h : s.Quiescent) : s.Disciplined where
  writes := h.writes
  reads := h.reads
  responses := by
    rw [h.queue]
    exact Nat.le_trans (Nat.add_le_add_left h.writes _) (by decide)
  quiet := h.quiet

/-- An event that starts nothing, or comes before any failure, keeps the log
quiet. -/
theorem Quiet.append {log : List Event} {e : Event} (h : Quiet log)
    (he : e.active = false ∨ ∀ x ∈ log, x.failed = false) : Quiet (log ++ [e]) := by
  rw [Quiet, List.pairwise_append]
  refine ⟨h, List.pairwise_singleton _ _, fun x hx y hy hfailed => ?_⟩
  rw [List.mem_singleton.mp hy]
  rcases he with he | he
  · exact he
  · rw [he x hx] at hfailed
    cases hfailed

theorem start_quiescent : start.Quiescent where
  queue := rfl
  writes := Nat.zero_le 1
  closing := fun _ h => absurd h List.not_mem_nil
  reads := Nat.le_refl 1
  quiet := List.pairwise_singleton _ _
  last := fun _ e he => by rw [List.mem_singleton.mp he]; rfl

/-- With the queue empty a write begins at once. -/
theorem respond_eq {s : Io} (h : s.outgoingQueue = []) (response : ErrorResponse) :
    s.respond response =
      { s with outgoingQueue := [], writes := s.writes ++ [⟨response, false⟩] } := by
  rw [respond, beginWrite, h]
  rfl

section Steps

variable {digest : Bytes → Digest} {Z : Inflate}

/-- The session behind `HandleRead`, when the queue was empty: a response is
being written or none is, and another read is started or none is. -/
theorem handleRead_cases (digest : Bytes → Digest) (Z : Inflate) {s : Io}
    (hqueue : s.outgoingQueue = []) (ec : ReadCode) (hec : ec ≠ .endOfStream)
    (env : Environment) (target : Bytes) :
    ∃ written : List Message,
      (env.Responds target ∧ (∃ message, written = [message] ∧ message.keepAlive = false) ∨
        ¬ env.Responds target ∧ written = []) ∧
      (s.handleRead digest Z ec env target =
          { s.record .processed with outgoingQueue := [], writes := s.writes ++ written } ∨
        s.handleRead digest Z ec env target =
          beginRead { s.record .processed with
            outgoingQueue := [], writes := s.writes ++ written }) := by
  rw [handleRead, if_neg hec]
  dsimp only
  have hsame : ∀ t : Io,
      (if (processRequest digest Z env target).again && t.outgoingQueue.length < queueLimit
        then t.beginRead else t) = t ∨
      (if (processRequest digest Z env target).again && t.outgoingQueue.length < queueLimit
        then t.beginRead else t) = t.beginRead := by
    intro t
    split
    · exact .inr rfl
    · exact .inl rfl
  rcases processRequest_queued digest Z env target with
    ⟨hresponds, response, hqueued⟩ | ⟨hresponds, hqueued⟩
  · refine ⟨[⟨response, false⟩], .inl ⟨hresponds, _, rfl, rfl⟩, ?_⟩
    rw [hqueued, List.foldl_cons, List.foldl_nil, respond_eq (s := s.record .processed) hqueue]
    exact hsame _
  · refine ⟨[], .inr ⟨hresponds, rfl⟩, ?_⟩
    rw [hqueued, List.foldl_nil]
    have hrecord : { s.record .processed with outgoingQueue := [], writes := s.writes ++ [] } =
        s.record .processed := by
      rw [List.append_nil, ← hqueue]
      rfl
    rw [hrecord]
    exact hsame _

/-- A read that is processed leaves the discipline exactly when it succeeded and
its response, if it has one, is the only one. -/
theorem step_read_success {s : Io} (h : s.Quiescent) (hreads : 0 < s.reads) (env : Environment)
    (target : Bytes) (hmeets : env.Responds target → s.writes = []) :
    (s.step digest Z (.read .success env target)).Quiescent := by
  have hnone : ∀ e ∈ s.log ++ [Event.readCompleted .success], e.failed = false := by
    intro e he
    rcases List.mem_append.mp he with he | he
    · exact h.last hreads e he
    · rw [List.mem_singleton.mp he]
      rfl
  have hquiet : Quiet (s.log ++ [Event.readCompleted .success] ++ [.processed]) :=
    (h.quiet.append (.inl rfl)).append (.inr hnone)
  have hnone' : ∀ e ∈ s.log ++ [Event.readCompleted .success] ++ [.processed],
      e.failed = false := by
    intro e he
    rcases List.mem_append.mp he with he | he
    · exact hnone e he
    · rw [List.mem_singleton.mp he]
      rfl
  have hzero : s.reads - 1 = 0 := Nat.sub_eq_zero_of_le h.reads
  obtain ⟨written, hwritten, hstep⟩ := handleRead_cases digest Z
    (s := { s.record (.readCompleted .success) with reads := s.reads - 1 }) h.queue .success
    (by decide) env target
  have hwrites : (s.writes ++ written).length ≤ 1 ∧
      ∀ message ∈ s.writes ++ written, message.keepAlive = false := by
    rcases hwritten with ⟨hresponds, message, rfl, hclose⟩ | ⟨-, rfl⟩
    · rw [hmeets hresponds, List.nil_append]
      exact ⟨Nat.le_refl 1, fun m hm => by rw [List.mem_singleton.mp hm]; exact hclose⟩
    · rw [List.append_nil]
      exact ⟨h.writes, h.closing⟩
  rw [step]
  rcases hstep with hstep | hstep
  · rw [hstep]
    refine ⟨rfl, hwrites.1, hwrites.2, Nat.le_succ_of_le (Nat.le_of_eq hzero), hquiet, ?_⟩
    exact fun hpos => absurd hzero (Nat.ne_of_gt hpos)
  · rw [hstep]
    refine ⟨rfl, hwrites.1, hwrites.2, Nat.succ_le_succ (Nat.le_of_eq hzero), ?_, ?_⟩
    · exact hquiet.append (.inr hnone')
    · intro _ e he
      rcases List.mem_append.mp he with he | he
      · exact hnone' e he
      · rw [List.mem_singleton.mp he]
        rfl

theorem step_end_of_stream {s : Io} (h : s.Quiescent) (env : Environment) (target : Bytes) :
    (s.step digest Z (.read .endOfStream env target)).Quiescent := by
  have hzero : s.reads - 1 = 0 := Nat.sub_eq_zero_of_le h.reads
  rw [step, handleRead, if_pos rfl]
  refine ⟨h.queue, h.writes, h.closing, Nat.le_succ_of_le (Nat.le_of_eq hzero), ?_, ?_⟩
  · exact h.quiet.append (.inl rfl)
  · exact fun hpos => absurd hzero (Nat.ne_of_gt hpos)

/-- A completed write closes the connection, or does nothing. -/
theorem step_write {s : Io} (h : s.Quiescent) (place : Nat) (succeeded : Bool) :
    (s.step digest Z (.write place succeeded)).Quiescent := by
  rw [step]
  cases hmessage : s.writes[place]? with
  | none => exact h
  | some message =>
      have hclose := h.closing message (List.mem_of_getElem? hmessage)
      have hwrite : ({ s with writes := s.writes.eraseIdx place } : Io).handleWrite
          message.keepAlive succeeded = { s with writes := s.writes.eraseIdx place } := by
        rw [handleWrite, hclose]
        cases succeeded with
        | false => rfl
        | true => rfl
      dsimp only
      rw [hwrite]
      refine ⟨h.queue, Nat.le_trans (List.length_eraseIdx_le _ _) h.writes, ?_, h.reads, h.quiet,
        h.last⟩
      exact fun m hm => h.closing m (List.mem_of_mem_eraseIdx hm)

theorem step_quiescent {s : Io} (h : s.Quiescent) {c : Completion} (hout : s.Outstanding c)
    (hmeets : s.Meets c) : (s.step digest Z c).Quiescent := by
  cases c with
  | write place succeeded => exact step_write h place succeeded
  | read ec env target =>
      cases ec with
      | success => exact step_read_success h hout env target hmeets
      | endOfStream => exact step_end_of_stream h env target
      | failure => exact absurd hmeets not_false

/-- A completion keeps the discipline exactly when it meets the condition. -/
theorem step_disciplined_iff {s : Io} (h : s.Quiescent) {c : Completion}
    (hout : s.Outstanding c) : (s.step digest Z c).Disciplined ↔ s.Meets c := by
  refine ⟨fun hd => ?_, fun hmeets => (step_quiescent h hout hmeets).disciplined⟩
  cases c with
  | write place succeeded => trivial
  | read ec env target =>
      cases ec with
      | endOfStream => trivial
      | success =>
          intro hresponds
          obtain ⟨written, hwritten, hstep⟩ := handleRead_cases digest Z
            (s := { s.record (.readCompleted .success) with reads := s.reads - 1 }) h.queue
            .success (by decide) env target
          rcases hwritten with ⟨-, message, rfl, -⟩ | ⟨hno, -⟩
          · have hwrites : (s.writes ++ [message]).length ≤ 1 := by
              have := hd.writes
              rw [step] at this
              rcases hstep with hstep | hstep
              · rwa [hstep] at this
              · rwa [hstep] at this
            rw [List.length_append, List.length_singleton] at hwrites
            exact List.length_eq_zero_iff.mp (by omega)
          · exact absurd hresponds hno
      | failure =>
          obtain ⟨written, -, hstep⟩ := handleRead_cases digest Z
            (s := { s.record (.readCompleted .failure) with reads := s.reads - 1 }) h.queue
            .failure (by decide) env target
          have hquiet := hd.quiet
          rw [step] at hquiet
          have hprefix : Quiet (s.log ++ [Event.readCompleted .failure] ++ [.processed]) := by
            rcases hstep with hstep | hstep
            · rw [hstep] at hquiet
              exact hquiet
            · rw [hstep] at hquiet
              exact (List.pairwise_append.mp hquiet).1
          have := (List.pairwise_append.mp hprefix).2.2 (.readCompleted .failure)
            (List.mem_append_right _ (List.mem_singleton.mpr rfl)) .processed
            (List.mem_singleton.mpr rfl) rfl
          cases this

end Steps

/-! ## Runs -/

/-- Every state of a run is disciplined exactly when every completion of the
run meets the condition. -/
theorem run_disciplined_iff (digest : Bytes → Digest) (Z : Inflate)
    (completions : List Completion)
    (h : Along (silent (step digest Z)) Outstanding start completions) :
    (∀ s ∈ states (step digest Z) start completions, s.Disciplined) ↔
      Along (silent (step digest Z)) Meets start completions := by
  rw [forall_states_iff]
  have hsteps := Along.iff_of_step Quiescent (fun s c => (s.step digest Z c).Disciplined)
    (fun hs hc => step_disciplined_iff hs hc)
    (fun hs hc hm => step_quiescent hs hc hm) completions start_quiescent h
  rw [hsteps]
  exact and_iff_right start_quiescent.disciplined

/-- A request is read, its response is written, and the client leaves. -/
def requestSample : List Completion :=
  [.read .success Environment.unreachable [], .write 0 true,
    .read .endOfStream Environment.unreachable []]

theorem run_disciplined_request :
    (∀ s ∈ states (step Digest.leading Inflate.copying) start requestSample, s.Disciplined) ↔
      Along (silent (step Digest.leading Inflate.copying)) Meets start requestSample := by
  have hwrites : 0 < (step Digest.leading Inflate.copying start
      (.read .success Environment.unreachable [])).writes.length := by decide
  have hreads : 0 < (step Digest.leading Inflate.copying (step Digest.leading Inflate.copying start
      (.read .success Environment.unreachable [])) (.write 0 true)).reads := by decide
  exact run_disciplined_iff Digest.leading Inflate.copying requestSample
    ⟨Nat.zero_lt_one, hwrites, hreads, trivial⟩

/-- Two malformed requests, the second read before the response to the first is
written: two writes are outstanding. -/
theorem run_two_writes :
    Along (silent (step Digest.leading Inflate.copying)) Outstanding start
        [.read .success Environment.unreachable [], .read .success Environment.unreachable []] ∧
      ∃ s ∈ states (step Digest.leading Inflate.copying) start
          [.read .success Environment.unreachable [], .read .success Environment.unreachable []],
        s.writes.length = 2 ∧ ¬ s.Disciplined := by
  have hreads : 0 < (step Digest.leading Inflate.copying start
      (.read .success Environment.unreachable [])).reads := by decide
  have hwrites : (step Digest.leading Inflate.copying
      (step Digest.leading Inflate.copying start (.read .success Environment.unreachable []))
      (.read .success Environment.unreachable [])).writes.length = 2 := by decide
  refine ⟨⟨Nat.zero_lt_one, hreads, trivial⟩, _, ?_, hwrites, fun h => ?_⟩
  · exact List.mem_cons_of_mem _ (List.mem_cons_of_mem _ List.mem_cons_self)
  · have := h.writes
    rw [hwrites] at this
    exact absurd this (by decide)

end Io

end Net

end Tactmon
