import Tactmon.Io.Writing

/-!
# A growable stream as a pipe

A `GrowableMemoryStream` that is written at its end and read from its front,
each read behind a `CanRead` of the same amount, is a queue.  The vector never
shrinks and both cursors only grow, so the stream holds all that was written,
and its read cursor stands behind all that was taken (`pipeStream`).

`Queue` is the queue: it gives what is asked for if it has as much, and
nothing otherwise.  `PipeOp.step_stream` says that one operation on the stream
is that operation on the queue.
-/

namespace Tactmon

open Binary Cxx GrowableMemoryStream

/-! ## The queue -/

namespace Queue

variable {α : Type}

/-- What is put at the end or taken from the front. -/
inductive Op (α : Type) where
  | push (xs : List α)
  | pop (count : Nat)

/-- What one operation gives, and what is left. -/
def apply (queue : List α) : Op α → List α × List α
  | .push xs => ([], queue ++ xs)
  | .pop count => if count ≤ queue.length then queue.splitAt count else ([], queue)

/-- All that a run gives, in order, and what is left. -/
def run : List α → List (Op α) → List α × List α
  | queue, [] => ([], queue)
  | queue, op :: ops =>
      ((apply queue op).1 ++ (run (apply queue op).2 ops).1, (run (apply queue op).2 ops).2)

/-- What an operation puts in. -/
def Op.pushed : Op α → List α
  | .push xs => xs
  | .pop _ => []

theorem apply_append (queue : List α) (op : Op α) :
    (apply queue op).1 ++ (apply queue op).2 = queue ++ op.pushed := by
  cases op with
  | push xs => rfl
  | pop count =>
      rw [apply, Op.pushed, List.append_nil]
      split
      · rw [List.splitAt_eq, List.take_append_drop]
      · rfl

/-- What is taken is as much as was asked for, or nothing. -/
theorem pop_length (queue : List α) (count : Nat) :
    (apply queue (.pop count)).1.length = if count ≤ queue.length then count else 0 := by
  rw [apply]
  split
  · next h => rw [List.splitAt_eq, List.length_take_of_le h]
  · rfl

/-- What came out and what is left is what went in, in order. -/
theorem run_append (ops : List (Op α)) :
    ∀ queue : List α, (run queue ops).1 ++ (run queue ops).2 = queue ++ ops.flatMap Op.pushed := by
  induction ops with
  | nil => simp [run]
  | cons op ops ih =>
      intro queue
      rw [run, List.append_assoc, ih, ← List.append_assoc, apply_append, List.append_assoc,
        List.flatMap_cons]

end Queue

/-! ## The pipe -/

/-- A use of the stream as a pipe.  A read has whole elements of some size in
some order. -/
inductive PipeOp where
  | write (bytes : Bytes)
  | read (dst : Bytes) (endianness : Endian) (elementSize : Nat) (whole : elementSize ∣ dst.length)
  | skip (offset : Nat)

namespace PipeOp

/-- The bytes of a destination in the order of the stream. -/
def inOrder (endianness : Endian) (elementSize : Nat) (dst : Bytes) : Bytes :=
  match endianness with
  | .little => dst
  | .big => groupsReverse elementSize (dst.length / elementSize) dst

/-- One use, with the bytes it takes from the stream.  A skip takes the bytes
that `Data()` shows. -/
def step (s : GrowableMemoryStream) : PipeOp → Exec (Bytes × GrowableMemoryStream)
  | .write bytes => do
      let (_, s) ← s.writeSpan bytes .native spanSize
      .ok ([], s)
  | .read dst endianness elementSize _ =>
      if canRead s dst.length then do
        let (_, dst, s) ← readSpan s dst endianness elementSize
        .ok (inOrder endianness elementSize dst, s)
      else .ok ([], s)
  | .skip offset =>
      if canRead s offset then do
        let bytes ← dataBytes s offset
        .ok (bytes, skipRead s offset)
      else .ok ([], s)

/-- A run, with all the bytes it takes. -/
def run : List PipeOp → GrowableMemoryStream → Exec (Bytes × GrowableMemoryStream)
  | [], s => .ok ([], s)
  | op :: ops, s => do
      let (bytes, s) ← op.step s
      let (taken, s) ← run ops s
      .ok (bytes ++ taken, s)

/-- The operation on the queue. -/
def onQueue : PipeOp → Queue.Op UInt8
  | .write bytes => .push bytes
  | .read dst _ _ _ => .pop dst.length
  | .skip offset => .pop offset

/-- What is asked for. -/
def amount : PipeOp → Nat
  | .write _ => 0
  | .read dst _ _ _ => dst.length
  | .skip offset => offset

end PipeOp

/-- All the bytes written by a run. -/
def written (ops : List PipeOp) : Bytes := ops.flatMap fun op => op.onQueue.pushed

/-! ## The stream behind the queue -/

/-- The stream from which `taken` was taken, and which still has `queue`. -/
def pipeStream (taken queue : Bytes) : GrowableMemoryStream :=
  ⟨taken ++ queue, taken.length, (taken ++ queue).length⟩

namespace pipeStream

variable {taken queue : Bytes}

theorem unread (hfit : (taken ++ queue).length < 2 ^ 63) :
    Unread (pipeStream taken queue) (taken ++ queue) queue :=
  ⟨taken.length, ⟨rfl, rfl, hfit⟩, List.length_append.symm, List.drop_left⟩

theorem canRead_iff (hfit : (taken ++ queue).length < 2 ^ 63) {n : Nat} (hn : n < 2 ^ 63) :
    canRead (pipeStream taken queue) n = true ↔ n ≤ queue.length :=
  (unread hfit).canRead_iff hn

/-- What has been taken stands in front of the cursor. -/
theorem advance_append (x : Bytes) :
    (pipeStream taken (x ++ queue)).advance x.length = pipeStream (taken ++ x) queue := by
  simp [pipeStream, advance]

theorem writeSpan (bytes : Bytes) (elementSize : Nat) :
    (pipeStream taken queue).writeSpan bytes .native elementSize =
      .ok (bytes.length, pipeStream taken (queue ++ bytes)) := by
  have hend : (pipeStream taken queue).writeCursor = (pipeStream taken queue).data.length := rfl
  have hgrow : ((pipeStream taken queue).write bytes).2 = _ := grow_eq hend
  rw [writeSpan_native]
  show Except.ok (bytes.length, ((pipeStream taken queue).write bytes).2) = _
  rw [hgrow]
  simp [pipeStream, Nat.add_assoc]

theorem readImpl {x dst : Bytes} (hfit : (taken ++ (x ++ queue)).length < 2 ^ 63)
    (hdst : dst.length = x.length) :
    IReadableStream.readImpl (pipeStream taken (x ++ queue)) dst =
      .ok (x.length, x, pipeStream (taken ++ x) queue) := by
  have hlen : (taken ++ (x ++ queue)).length = taken.length + x.length + queue.length := by
    simp [Nat.add_assoc]
  have hcursor : (pipeStream taken (x ++ queue)).readCursor ≤
      (pipeStream taken (x ++ queue)).data.length := by
    show taken.length ≤ _
    rw [pipeStream, hlen]
    omega
  have hcount : min dst.length ((pipeStream taken (x ++ queue)).data.length -
      (pipeStream taken (x ++ queue)).readCursor) = x.length := by
    show min dst.length ((taken ++ (x ++ queue)).length - taken.length) = x.length
    omega
  have hwin : window (taken ++ (x ++ queue)) taken.length x.length = x := by
    rw [window, List.drop_left, List.take_left]
  have hread := readImpl_window dst hcursor hfit
  rw [hcount, ← hdst, List.drop_length, List.append_nil, hdst] at hread
  show GrowableMemoryStream.readImpl _ _ = _
  rw [hread, ← advance_append]
  exact congrArg (fun y => Except.ok (x.length, y, _)) hwin

end pipeStream

/-- An element swap of a whole destination is undone by putting it in order. -/
theorem readSpan_inOrder {σ : Type} [IReadableStream σ] {s s' : σ} {dst x : Bytes} {w : Nat}
    (e : Endian) (hw : w ∣ x.length)
    (hr : IReadableStream.readImpl s dst = .ok (x.length, x, s')) :
    ∃ out, readSpan s dst e w = .ok (x.length, out, s') ∧ PipeOp.inOrder e w out = x := by
  cases e with
  | little =>
      refine ⟨x, ?_, rfl⟩
      simp [readSpan, hr, Endian.native]
  | big =>
      refine ⟨groupsReverse w (x.length / w) x, ?_, ?_⟩
      · have hswap : swapElements w x.length x = .ok (groupsReverse w (x.length / w) x) :=
          if_pos (Nat.mod_eq_zero_of_dvd hw)
        simp [readSpan, hr, hswap, Endian.native]
      · rw [PipeOp.inOrder, groupsReverse_length,
          groupsReverse_groupsReverse (Nat.div_mul_le_self _ _)]

/-! ## One operation and a run -/

/-- One use of the stream is one operation on the queue. -/
theorem PipeOp.step_stream {taken queue : Bytes} (op : PipeOp)
    (hfit : (taken ++ queue).length < 2 ^ 63) (hop : op.amount < 2 ^ 63) :
    op.step (pipeStream taken queue) = .ok ((Queue.apply queue op.onQueue).1,
      pipeStream (taken ++ (Queue.apply queue op.onQueue).1)
        (Queue.apply queue op.onQueue).2) := by
  cases op with
  | write bytes =>
      rw [step, pipeStream.writeSpan, Exec.ok_bind, onQueue, Queue.apply, List.append_nil]
  | read dst e w whole =>
      have hguard : canRead (pipeStream taken queue) dst.length = true ↔ _ :=
        pipeStream.canRead_iff hfit hop
      rw [step, onQueue, Queue.apply]
      by_cases hn : dst.length ≤ queue.length
      · obtain ⟨x, rest, rfl, hx⟩ : ∃ x rest, queue = x ++ rest ∧ dst.length = x.length :=
          ⟨_, _, (List.take_append_drop dst.length queue).symm, by
            rw [List.length_take, Nat.min_eq_left hn]⟩
        obtain ⟨out, hread, horder⟩ :=
          readSpan_inOrder e (hx ▸ whole) (pipeStream.readImpl hfit hx)
        simp only [if_pos (hguard.mpr hn), hread, Exec.ok_bind, if_pos hn, List.splitAt_eq, horder]
        rw [hx, List.take_left, List.drop_left]
      · rw [if_neg fun h => hn (hguard.mp h), if_neg hn, List.append_nil]
  | skip offset =>
      have hguard : canRead (pipeStream taken queue) offset = true ↔ _ :=
        pipeStream.canRead_iff hfit hop
      rw [step, onQueue, Queue.apply]
      by_cases hn : offset ≤ queue.length
      · obtain ⟨x, rest, rfl, rfl⟩ : ∃ x rest, queue = x ++ rest ∧ offset = x.length :=
          ⟨_, _, (List.take_append_drop offset queue).symm, by
            rw [List.length_take, Nat.min_eq_left hn]⟩
        have hcursor : (pipeStream taken (x ++ rest)).readCursor + x.length ≤
            (pipeStream taken (x ++ rest)).data.length := by
          show taken.length + x.length ≤ (taken ++ (x ++ rest)).length
          simp
        rw [if_pos (hguard.mpr hn), (pipeStream.unread hfit).dataBytes, Exec.ok_bind, if_pos hn,
          List.splitAt_eq, List.take_left, List.drop_left, skipRead_advance hfit hcursor,
          pipeStream.advance_append]
      · rw [if_neg fun h => hn (hguard.mp h), if_neg hn, List.append_nil]

/-- A run on the stream is the run on the queue. -/
theorem PipeOp.run_stream {ops : List PipeOp} :
    ∀ {taken queue : Bytes}, (taken ++ queue).length + (written ops).length < 2 ^ 63 →
      (∀ op ∈ ops, op.amount < 2 ^ 63) →
      PipeOp.run ops (pipeStream taken queue) =
        .ok ((Queue.run queue (ops.map onQueue)).1,
          pipeStream (taken ++ (Queue.run queue (ops.map onQueue)).1)
            (Queue.run queue (ops.map onQueue)).2) := by
  induction ops with
  | nil =>
      intro taken queue _ _
      rw [PipeOp.run, List.map_nil, Queue.run, List.append_nil]
  | cons op ops ih =>
      intro taken queue hfit hops
      rw [List.forall_mem_cons] at hops
      have hwritten : (written (op :: ops)).length =
          op.onQueue.pushed.length + (written ops).length := by
        rw [written, List.flatMap_cons, List.length_append, ← written]
      rw [hwritten] at hfit
      have hstep := op.step_stream (show (taken ++ queue).length < 2 ^ 63 by omega) hops.1
      -- the stream holds what it held and what this operation wrote
      have hkept : (taken ++ (Queue.apply queue op.onQueue).1 ++
          (Queue.apply queue op.onQueue).2).length =
          (taken ++ queue).length + op.onQueue.pushed.length := by
        rw [List.append_assoc, Queue.apply_append, ← List.append_assoc, List.length_append]
      have hfit' : (taken ++ (Queue.apply queue op.onQueue).1 ++
          (Queue.apply queue op.onQueue).2).length + (written ops).length < 2 ^ 63 := by omega
      have hrest := ih hfit' hops.2
      simp only [PipeOp.run, hstep, hrest, Exec.ok_bind, List.map_cons, Queue.run,
        List.append_assoc]

/-- An operation takes its amount if there is as much. -/
theorem PipeOp.step_takes {taken queue : Bytes} (op : PipeOp)
    (hfit : (taken ++ queue).length < 2 ^ 63) (hop : op.amount < 2 ^ 63) :
    ∃ bytes s, op.step (pipeStream taken queue) = .ok (bytes, s) ∧
      bytes.length = if canRead (pipeStream taken queue) op.amount then op.amount else 0 := by
  refine ⟨_, _, op.step_stream hfit hop, ?_⟩
  simp only [pipeStream.canRead_iff hfit hop]
  cases op with
  | write bytes => exact (ite_self 0).symm
  | read dst e w whole => exact Queue.pop_length queue dst.length
  | skip offset => exact Queue.pop_length queue offset

/-- A run from the empty stream, and all that was written in it. -/
theorem PipeOp.run_empty {ops : List PipeOp} (hfit : (written ops).length < 2 ^ 63)
    (hops : ∀ op ∈ ops, op.amount < 2 ^ 63) :
    ∃ taken queue, PipeOp.run ops .empty = .ok (taken, pipeStream taken queue) ∧
      taken ++ queue = written ops := by
  have hempty : GrowableMemoryStream.empty = pipeStream [] [] := rfl
  have hrun : PipeOp.run ops .empty = _ := hempty ▸ run_stream (by simpa using hfit) hops
  have hall := Queue.run_append (ops.map onQueue) ([] : Bytes)
  rw [List.nil_append, List.flatMap_map] at hall
  rw [List.nil_append] at hrun
  exact ⟨_, _, hrun, hall⟩

/-- So does every operation of a run, where the run has come to. -/
theorem PipeOp.run_takes {before : List PipeOp} {op : PipeOp}
    (hfit : (written before).length < 2 ^ 63) (hops : ∀ other ∈ before, other.amount < 2 ^ 63)
    (hop : op.amount < 2 ^ 63) :
    ∃ taken s bytes s', PipeOp.run before .empty = .ok (taken, s) ∧ op.step s = .ok (bytes, s') ∧
      bytes.length = if canRead s op.amount then op.amount else 0 := by
  obtain ⟨taken, queue, hrun, hall⟩ := run_empty hfit hops
  obtain ⟨bytes, s', hstep, hlen⟩ := op.step_takes (by rw [hall]; exact hfit) hop
  exact ⟨taken, _, bytes, s', hrun, hstep, hlen⟩

/-- A growable stream is a queue: what was taken is the front of what was
written, `Data()` shows the rest, and `CanRead` tells how much that is.  An
operation that can be served takes its amount, and another one takes nothing. -/
theorem PipeOp.run_fifo (ops : List PipeOp) (hops : ∀ op ∈ ops, op.amount < 2 ^ 63)
    (hfit : (written ops).length < 2 ^ 63) :
    (∃ taken s view, PipeOp.run ops .empty = .ok (taken, s) ∧ IReadableStream.data s = .ok view ∧
      taken ++ view.bytes = written ops ∧
      ∀ n < 2 ^ 63, canRead s n = true ↔ n ≤ (written ops).length - taken.length) ∧
    ∀ before op after, ops = before ++ op :: after →
      ∃ taken s bytes s', PipeOp.run before .empty = .ok (taken, s) ∧
        op.step s = .ok (bytes, s') ∧
        bytes.length = if canRead s op.amount then op.amount else 0 := by
  obtain ⟨taken, queue, hrun, hall⟩ := run_empty hfit hops
  have hlen : (taken ++ queue).length < 2 ^ 63 := by rw [hall]; exact hfit
  obtain ⟨view, hview, hmem, hsize⟩ := (pipeStream.unread hlen).data
  refine ⟨⟨taken, _, view, hrun, hview, ?_, fun n hn => ?_⟩, fun before op after hsplit => ?_⟩
  · rw [Span.bytes, hmem, hsize, List.take_length]
    exact hall
  · rw [pipeStream.canRead_iff hlen hn, ← hall, List.length_append, Nat.add_sub_cancel_left]
  · subst hsplit
    rw [written, List.flatMap_append, List.length_append] at hfit
    obtain ⟨hbefore, hrest⟩ := List.forall_mem_append.mp hops
    exact run_takes (Nat.lt_of_le_of_lt (Nat.le_add_right _ _) hfit) hbefore
      (hrest op List.mem_cons_self)

/-- A write, a read it cannot serve, one it can, and a skip. -/
def fiveOps : List PipeOp :=
  [.write [1, 2, 3], .read (List.replicate 4 0) .big 4 (by simp), .write [4, 5],
    .read (List.replicate 4 0) .big 4 (by simp), .skip 1]

theorem PipeOp.run_fifo_five :
    (∃ taken s view, PipeOp.run fiveOps .empty = .ok (taken, s) ∧
      IReadableStream.data s = .ok view ∧ taken ++ view.bytes = [1, 2, 3, 4, 5] ∧
      ∀ n < 2 ^ 63, canRead s n = true ↔ n ≤ [1, 2, 3, 4, 5].length - taken.length) ∧
    ∀ before op after, fiveOps = before ++ op :: after →
      ∃ taken s bytes s', PipeOp.run before .empty = .ok (taken, s) ∧
        op.step s = .ok (bytes, s') ∧
        bytes.length = if canRead s op.amount then op.amount else 0 :=
  PipeOp.run_fifo fiveOps (by simp [fiveOps, PipeOp.amount])
    (by simp [fiveOps, written, PipeOp.onQueue, Queue.Op.pushed])

end Tactmon
