import Tactmon.Beast.Places

/-!
# Calls with nested archives

What a call of `Parse` does, in the order it does it.  `CallTree` has a node
for each turn of the loop, and the node of an `'F'` block holds the call of the
transform that parses its payload.  `Follows t call` says that `call` is what
happens from `t` on, and `follows_of_run` that every run that returns has a
tree with the run's result.

The nested transform writes its errors to the error code of the outer call, and
waits in vain where its input is short.  The outer loop looks at neither and
goes on with the next block.

By `next_read` a turn is the piece at the place of the transform, so what a tree
does can be told from the bytes of the input: a call sets an error where a
stream has a flaw, and passes bytes on where a piece does.
-/

namespace Tactmon

open Binary Cxx Zlib Resumable

/-- What a call does that its caller can see. -/
inductive Event where
  /-- Bytes passed to the output handler. -/
  | output (bytes : Bytes)
  /-- The error code is set. -/
  | error (reason : ParseError)
deriving DecidableEq, Repr

/-- After an error no byte is passed to the output handler. -/
def ErrorsLast (events : List Event) : Prop :=
  events.Pairwise fun earlier later =>
    ∀ reason bytes, earlier = .error reason → later = .output bytes → bytes = []

theorem errorsLast_append (xs ys : List Event) :
    ErrorsLast (xs ++ ys) ↔ ErrorsLast xs ∧ ErrorsLast ys ∧
      ((∃ reason, .error reason ∈ xs) → ∀ bytes, .output bytes ∈ ys → bytes = []) := by
  rw [ErrorsLast, List.pairwise_append]
  refine and_congr_right fun _ => and_congr_right fun _ => ?_
  constructor
  · rintro h ⟨reason, hreason⟩ bytes hbytes
    exact h _ hreason _ hbytes reason bytes rfl rfl
  · rintro h _ hearlier _ hlater reason bytes rfl rfl
    exact h ⟨reason, hearlier⟩ bytes hlater

theorem errorsLast_outputs (out : List Bytes) : ErrorsLast (out.map .output) := by
  rw [ErrorsLast, List.pairwise_map]
  exact List.pairwise_of_forall fun _ _ _ _ h => nomatch h

/-- The turns of a call. -/
inductive CallTree where
  /-- The loop ends for want of input, or because there are no more blocks. -/
  | wait (state : Transform)
  | stop (state : Transform) (out : List Bytes) (error : ParseError)
  | plain (out : List Bytes) (rest : CallTree)
  /-- An `'F'` block, with the call of the transform of its payload. -/
  | nested (payload : Bytes) (inner rest : CallTree)

/-- An `'F'` block of a call: its payload, the call on it, and what the
transform it is a block of goes on with. -/
structure Nest where
  payload : Bytes
  inner : CallTree
  rest : CallTree

namespace CallTree

/-- What the call does, in order. -/
def events : CallTree → List Event
  | wait _ => []
  | stop _ out error => out.map .output ++ [.error error]
  | plain out rest => out.map .output ++ rest.events
  | nested _ inner rest => inner.events ++ rest.events

/-- What the call leaves behind. -/
def result : CallTree → Transform.Outcome
  | wait state => ⟨state, [], none⟩
  | stop state out error => ⟨state, out, some error⟩
  | plain out rest => rest.result.after out none
  | nested _ inner rest => rest.result.after inner.result.out (inner.result.error.map .nested)

/-- The `'F'` blocks at every depth. -/
def blocks : CallTree → List Nest
  | wait _ => []
  | stop _ _ _ => []
  | plain _ rest => rest.blocks
  | nested payload inner rest => ⟨payload, inner, rest⟩ :: (inner.blocks ++ rest.blocks)

/-- The call, or one it nests, sets an error. -/
def SetsError : CallTree → Prop
  | wait _ => False
  | stop _ _ _ => True
  | plain _ rest => rest.SetsError
  | nested _ inner rest => inner.SetsError ∨ rest.SetsError

/-- The call passes no bytes on. -/
def Silent (call : CallTree) : Prop := ∀ bytes, .output bytes ∈ call.events → bytes = []

/-! ## What a tree says -/

theorem setsError_iff_result (call : CallTree) : call.SetsError ↔ call.result.error ≠ none := by
  induction call with
  | wait state => simp [SetsError, result]
  | stop state out error => simp [SetsError, result]
  | plain out rest ih => simp [SetsError, result, ih, Result.prepend]
  | nested payload inner rest ihInner ihRest =>
      rw [SetsError, ihInner, ihRest, result, Result.after]
      cases inner.result.error <;> cases rest.result.error <;> simp

theorem setsError_iff_events (call : CallTree) :
    call.SetsError ↔ ∃ reason, .error reason ∈ call.events := by
  induction call with
  | wait state => simp [SetsError, events]
  | stop state out error => simp [SetsError, events]
  | plain out rest ih => simp [SetsError, events, ih]
  | nested payload inner rest ihInner ihRest =>
      simp [SetsError, events, ihInner, ihRest, exists_or]

theorem silent_wait (state : Transform) : (wait state).Silent :=
  fun _ h => absurd h List.not_mem_nil

theorem silent_stop (state : Transform) (out : List Bytes) (error : ParseError) :
    (stop state out error).Silent ↔ ∀ x ∈ out, x = [] := by
  simp [Silent, events]

theorem silent_plain (out : List Bytes) (rest : CallTree) :
    (plain out rest).Silent ↔ (∀ x ∈ out, x = []) ∧ rest.Silent := by
  simp [Silent, events, or_imp, forall_and]

theorem silent_nested (payload : Bytes) (inner rest : CallTree) :
    (nested payload inner rest).Silent ↔ inner.Silent ∧ rest.Silent := by
  simp [Silent, events, or_imp, forall_and]

/-- Errors come last exactly when no output follows the error of a nested
call. -/
theorem errorsLast_iff (call : CallTree) :
    ErrorsLast call.events ↔ ∀ block ∈ call.blocks, block.inner.SetsError → block.rest.Silent := by
  induction call with
  | wait state => simp [events, blocks, ErrorsLast]
  | stop state out error =>
      have hlast : ErrorsLast [.error error] := List.pairwise_singleton _ _
      rw [events, errorsLast_append]
      simp [errorsLast_outputs, hlast, blocks]
  | plain out rest ih =>
      rw [events, errorsLast_append, ih, blocks]
      simp [errorsLast_outputs]
  | nested payload inner rest ihInner ihRest =>
      rw [events, errorsLast_append, ihInner, ihRest, ← setsError_iff_events, blocks,
        List.forall_mem_cons, List.forall_mem_append]
      constructor
      · exact fun ⟨hinner, hrest, hlast⟩ => ⟨hlast, hinner, hrest⟩
      · exact fun ⟨hlast, hinner, hrest⟩ => ⟨hinner, hrest, hlast⟩

end CallTree

namespace Transform

section Calls

variable (digest : Bytes → Digest) (Z : Inflate)

/-- Stands in for what parses the payload of an `'F'` block, to see the
payload. -/
def watch (payload : Bytes) : Exec (List Bytes × Option ParseError) :=
  .ok ([payload], some .signature)

/-- The payload the next step hands to a nested transform. -/
def nestedPayload (t : Transform) : Option Bytes :=
  match t.next digest Z watch with
  | .ok (.next _ out (some _)) => out.head?
  | _ => none

/-- What happens from a transform on. -/
inductive Follows : Transform → CallTree → Prop where
  | wait {t : Transform} :
      t.next digest Z (openNested digest Z) = .ok .wait →
      Follows t (.wait t)
  | stop {t t' : Transform} {out : List Bytes} {error : ParseError} :
      t.next digest Z (openNested digest Z) = .ok (.stop t' out error) →
      Follows t (.stop t' out error)
  | plain {t t' : Transform} {out : List Bytes} {rest : CallTree} :
      t.nestedPayload digest Z = none →
      t.next digest Z (openNested digest Z) = .ok (.next t' out none) →
      Follows t' rest →
      Follows t (.plain out rest)
  | nested {t t' : Transform} {payload : Bytes} {out : List Bytes} {error : Option ParseError}
      {inner rest : CallTree} :
      t.nestedPayload digest Z = some payload →
      t.next digest Z (openNested digest Z) = .ok (.next t' out error) →
      Follows (fresh.feed payload) inner →
      Follows t' rest →
      Follows t (.nested payload inner rest)

variable {digest Z}

variable (digest Z) in
/-- A step hands a payload to a nested transform, or notes no error. -/
theorem nestedPayload_cases {t : Transform} (hfit : t.ms.data.length < 2 ^ 63) :
    (t.nestedPayload digest Z = none ∧ ∀ t' out e,
      t.next digest Z (openNested digest Z) = .ok (.next t' out e) → e = none) ∨
    ∃ payload t', t.nestedPayload digest Z = some payload ∧
      payload.length < t.ms.data.length ∧
      t.next digest Z (openNested digest Z) =
        (openNested digest Z payload).map fun r => .next t' r.1 (r.2.map .nested) := by
  cases next_splits digest Z hfit with
  | plain _ hnone =>
      refine Or.inl ⟨?_, hnone _⟩
      rw [nestedPayload]
      split
      · next hnext => exact nomatch hnone _ _ _ _ hnext
      · rfl
  | nested payload t' hlen hnext =>
      refine Or.inr ⟨payload, t', ?_, hlen, hnext _⟩
      rw [nestedPayload, hnext]
      rfl

/-- Every call that returns has its turns. -/
theorem follows_of_run (n : Nat) : ∀ {t : Transform} {r : Outcome}, t.ms.data.length < n →
    n ≤ 2 ^ 63 → (machine digest Z (openNested digest Z)).run t = .ok r →
    ∃ call, Follows digest Z t call ∧ call.result = r := by
  induction n with
  | zero => exact fun h => absurd h (Nat.not_lt_zero _)
  | succ n ihDepth =>
      intro t
      induction t using (machine digest Z (openNested digest Z)).run_induction with
      | step t ih =>
          intro r hlen hn hrun
          cases hstep : t.next digest Z (openNested digest Z) with
          | error f =>
              rw [(machine digest Z (openNested digest Z)).run_error hstep] at hrun
              cases hrun
          | ok m =>
              cases m with
              | wait =>
                  rw [run_of_wait hstep] at hrun
                  cases hrun
                  exact ⟨_, .wait hstep, rfl⟩
              | stop t' out e =>
                  rw [run_of_stop hstep] at hrun
                  cases hrun
                  exact ⟨_, .stop hstep, rfl⟩
              | next t' out e =>
                  have hdata : t'.ms.data = t.ms.data := (next_permits hstep).1.1
                  rw [run_of_next hstep] at hrun
                  obtain ⟨s, hrest, rfl⟩ := Exec.map_eq_ok.mp hrun
                  obtain ⟨rest, hfollows, hresult⟩ :=
                    ih t' out e hstep (by rwa [hdata]) hn hrest
                  rcases nestedPayload_cases digest Z (t := t) (by omega) with
                    ⟨hplain, hnone⟩ | ⟨payload, t'', hpayload, hshort, hnext⟩
                  · cases hnone _ _ _ hstep
                    exact ⟨_, .plain hplain hstep hfollows, by rw [CallTree.result, hresult]⟩
                  · have hnext' := hnext
                    rw [hstep] at hnext'
                    obtain ⟨inner, hinner, hmove⟩ := Exec.map_eq_ok.mp hnext'.symm
                    rw [openNested_eq digest Z (by omega)] at hinner
                    obtain ⟨s', hrun', rfl⟩ := Exec.map_eq_ok.mp hinner
                    cases hmove
                    have hms : (fresh.feed payload).ms.data = payload := by rw [feed_fresh_ms]
                    obtain ⟨call, hcall, hcallResult⟩ :=
                      ihDepth (by rw [hms]; omega) (by omega) hrun'
                    refine ⟨_, .nested hpayload hstep hcall hfollows, ?_⟩
                    rw [CallTree.result, hresult, hcallResult]

/-- What happens from a transform on is determined. -/
theorem Follows.unique {t : Transform} {call call' : CallTree} (h : Follows digest Z t call)
    (h' : Follows digest Z t call') : call = call' := by
  induction h generalizing call' with
  | wait hnext =>
      cases h' with
      | wait _ => rfl
      | stop hnext' => cases hnext.symm.trans hnext'
      | plain _ hnext' _ => cases hnext.symm.trans hnext'
      | nested _ hnext' _ _ => cases hnext.symm.trans hnext'
  | stop hnext =>
      cases h' with
      | wait hnext' => cases hnext.symm.trans hnext'
      | stop hnext' =>
          cases hnext.symm.trans hnext'
          rfl
      | plain _ hnext' _ => cases hnext.symm.trans hnext'
      | nested _ hnext' _ _ => cases hnext.symm.trans hnext'
  | plain hplain hnext _ ih =>
      cases h' with
      | wait hnext' => cases hnext.symm.trans hnext'
      | stop hnext' => cases hnext.symm.trans hnext'
      | plain _ hnext' hrest =>
          cases hnext.symm.trans hnext'
          rw [ih hrest]
      | nested hpayload _ _ _ => cases hplain.symm.trans hpayload
  | nested hpayload hnext _ _ ihInner ihRest =>
      cases h' with
      | wait hnext' => cases hnext.symm.trans hnext'
      | stop hnext' => cases hnext.symm.trans hnext'
      | plain hplain _ _ => cases hplain.symm.trans hpayload
      | nested hpayload' hnext' hinner hrest =>
          cases hpayload.symm.trans hpayload'
          cases hnext.symm.trans hnext'
          rw [ihInner hinner, ihRest hrest]

variable (digest Z)

/-- The transforms that calls lead to. -/
inductive Reachable : Transform → Prop where
  | fresh : Reachable fresh
  | parse {t : Transform} {data : Bytes} {n : Nat} {r : Outcome} : Reachable t →
      (t.feed data).ms.data.length < 2 ^ 63 → t.parse digest Z data = .ok (n, r) →
      Reachable r.state

end Calls

/-! ## What the bytes say -/

section Pieces

variable {digest : Bytes → Digest} {Z : Inflate}

theorem piece_of_plain {t t' : Transform} {out : List Bytes} (h : t.Inside)
    (hplain : t.nestedPayload digest Z = none)
    (hnext : t.next digest Z (openNested digest Z) = .ok (.next t' out none)) :
    t.place.piece digest Z = .text out t'.place ∧ t'.Inside := by
  cases next_read digest Z h with
  | fault f hfault => cases hnext.symm.trans (hfault _)
  | wait hwait => cases hnext.symm.trans (hwait _)
  | stop t' out error hstop => cases hnext.symm.trans (hstop _)
  | text t' out htext hpiece hinside =>
      cases hnext.symm.trans (htext _)
      exact ⟨hpiece, hinside⟩
  | stream payload t' hstream =>
      rw [nestedPayload, hstream] at hplain
      cases hplain

theorem piece_of_nested {t t' : Transform} {payload : Bytes} {out : List Bytes}
    {error : Option ParseError} (h : t.Inside)
    (hpayload : t.nestedPayload digest Z = some payload)
    (hnext : t.next digest Z (openNested digest Z) = .ok (.next t' out error)) :
    t.place.piece digest Z = .stream payload t'.place ∧ t'.Inside ∧ payload.length < 2 ^ 63 := by
  cases next_read digest Z h with
  | fault f hfault => cases hnext.symm.trans (hfault _)
  | wait hwait => cases hnext.symm.trans (hwait _)
  | stop t' out error hstop => cases hnext.symm.trans (hstop _)
  | text t' out htext =>
      rw [nestedPayload, htext] at hpayload
      cases hpayload
  | stream payload t' hstream hpiece hinside hfits =>
      rw [nestedPayload, hstream] at hpayload
      cases hpayload
      obtain ⟨r, -, hmove⟩ := Exec.map_eq_ok.mp ((hstream _).symm.trans hnext)
      cases hmove
      exact ⟨hpiece, hinside, hfits⟩

/-- The transform of a payload starts at the payload's header. -/
theorem place_feed (payload : Bytes) : (fresh.feed payload).place = ⟨.header, payload⟩ := by
  rw [place, unread, feed_fresh_ms]
  rfl

theorem inside_feed {payload : Bytes} (h : payload.length < 2 ^ 63) :
    (fresh.feed payload).Inside := by
  refine inside_of_cursor ?_ ?_
  · rwa [feed_fresh_ms]
  · rw [feed_fresh_ms]
    exact Nat.zero_le _

namespace Follows

variable {t : Transform} {call : CallTree}

/-- What a call leaves behind has its read cursor inside of its buffer. -/
theorem inside (h : Follows digest Z t call) (hinside : t.Inside) : call.result.state.Inside := by
  induction h with
  | wait _ => exact hinside
  | stop hnext => exact ((next_read digest Z hinside).of_stop hnext).2
  | plain hplain hnext _ ih => exact ih (piece_of_plain hinside hplain hnext).2
  | nested hpayload hnext _ _ _ ihRest =>
      exact ihRest (piece_of_nested hinside hpayload hnext).2.1

/-- A call sets an error where the input has a flaw. -/
theorem setsError_iff (h : Follows digest Z t call) (hinside : t.Inside) :
    call.SetsError ↔ t.place.Flawed digest Z := by
  induction h with
  | wait hnext =>
      have hpiece := (next_read digest Z hinside).of_wait hnext
      exact iff_of_false id (Place.flawed_missing hpiece)
  | stop hnext =>
      obtain ⟨hpiece, -⟩ := (next_read digest Z hinside).of_stop hnext
      exact iff_of_true trivial (Place.flawed_flaw hpiece)
  | plain hplain hnext _ ih =>
      obtain ⟨hpiece, hinside'⟩ := piece_of_plain hinside hplain hnext
      rw [Place.flawed_text hpiece, CallTree.SetsError, ih hinside']
  | nested hpayload hnext _ _ ihInner ihRest =>
      obtain ⟨hpiece, hinside', hfits⟩ := piece_of_nested hinside hpayload hnext
      rw [Place.flawed_stream hpiece, CallTree.SetsError, ihInner (inside_feed hfits),
        ihRest hinside', place_feed]

/-- A call is silent where no piece of the input has bytes to pass on. -/
theorem silent_iff (h : Follows digest Z t call) (hinside : t.Inside) :
    call.Silent ↔ t.place.Mute digest Z := by
  induction h with
  | wait hnext =>
      have hpiece := (next_read digest Z hinside).of_wait hnext
      exact iff_of_true (CallTree.silent_wait _) (Place.mute_missing hpiece)
  | stop hnext =>
      obtain ⟨hpiece, -⟩ := (next_read digest Z hinside).of_stop hnext
      rw [Place.mute_flaw hpiece, CallTree.silent_stop]
  | plain hplain hnext _ ih =>
      obtain ⟨hpiece, hinside'⟩ := piece_of_plain hinside hplain hnext
      rw [Place.mute_text hpiece, CallTree.silent_plain, ih hinside']
  | nested hpayload hnext _ _ ihInner ihRest =>
      obtain ⟨hpiece, hinside', hfits⟩ := piece_of_nested hinside hpayload hnext
      rw [Place.mute_stream hpiece, CallTree.silent_nested, ihInner (inside_feed hfits),
        ihRest hinside', place_feed]

/-- What holds of every `'F'` block of a call is what holds of every stream in
the input. -/
theorem blocks_iff {P : Bytes → Place → Prop} {Q : Nest → Prop}
    (hQ : ∀ {payload : Bytes} {inner rest : CallTree} {t' : Transform},
      payload.length < 2 ^ 63 → t'.Inside → Follows digest Z (fresh.feed payload) inner →
      Follows digest Z t' rest → (Q ⟨payload, inner, rest⟩ ↔ P payload t'.place))
    (h : Follows digest Z t call) (hinside : t.Inside) :
    (∀ block ∈ call.blocks, Q block) ↔ t.place.EachStream digest Z P := by
  induction h with
  | wait hnext =>
      have hpiece := (next_read digest Z hinside).of_wait hnext
      exact iff_of_true (fun _ hblock => absurd hblock List.not_mem_nil)
        (Place.eachStream_end (.inl hpiece))
  | stop hnext =>
      obtain ⟨hpiece, -⟩ := (next_read digest Z hinside).of_stop hnext
      exact iff_of_true (fun _ hblock => absurd hblock List.not_mem_nil)
        (Place.eachStream_end (.inr ⟨_, hpiece⟩))
  | plain hplain hnext _ ih =>
      obtain ⟨hpiece, hinside'⟩ := piece_of_plain hinside hplain hnext
      rw [Place.eachStream_text hpiece, CallTree.blocks, ih hinside']
  | nested hpayload hnext hinner hrest ihInner ihRest =>
      obtain ⟨hpiece, hinside', hfits⟩ := piece_of_nested hinside hpayload hnext
      rw [Place.eachStream_stream hpiece, CallTree.blocks, List.forall_mem_cons,
        List.forall_mem_append, hQ hfits hinside' hinner hrest, ihInner (inside_feed hfits),
        ihRest hinside', place_feed]

end Follows

/-- A call appends to the buffer, and reads on inside of it. -/
theorem inside_of_feed {t : Transform} {data : Bytes} (happends : t.Appends)
    (hcursor : t.ms.readCursor ≤ t.ms.data.length)
    (hfit : (t.feed data).ms.data.length < 2 ^ 63) : (t.feed data).Inside := by
  refine inside_of_cursor hfit ?_
  rw [feed_eq happends]
  change t.ms.readCursor ≤ (t.ms.data ++ data).length
  rw [List.length_append]
  omega

theorem Reachable.cursors {t : Transform} (h : Reachable digest Z t) :
    t.Appends ∧ t.ms.readCursor ≤ t.ms.data.length := by
  induction h with
  | fresh => exact ⟨rfl, Nat.le_refl 0⟩
  | @parse t data n r _ hfit hparse ih =>
      obtain ⟨r', hrun, hr⟩ := Exec.bind_eq_ok.mp hparse
      cases hr
      obtain ⟨call, hfollows, rfl⟩ := follows_of_run _ hfit (Nat.le_refl _) hrun
      have hinside := hfollows.inside (inside_of_feed ih.1 ih.2 hfit)
      refine ⟨appends_run digest Z (appends_feed data ih.1) hrun, ?_⟩
      obtain ⟨c, ⟨-, hcursor, -⟩, hlen, -⟩ := hinside
      omega

end Pieces

/-! ## Two containers -/

section Samples

variable (digest : Bytes → Digest) (Z : Inflate)

/-- The turns of a call, up to a number of them. -/
def turnsWithin : Nat → Transform → Option CallTree
  | 0, _ => none
  | fuel + 1, t =>
      match t.nestedPayload digest Z, t.next digest Z (openNested digest Z) with
      | _, .ok .wait => some (.wait t)
      | _, .ok (.stop t' out error) => some (.stop t' out error)
      | none, .ok (.next t' out none) => (turnsWithin fuel t').map (.plain out)
      | some payload, .ok (.next t' _ _) =>
          match turnsWithin fuel (fresh.feed payload), turnsWithin fuel t' with
          | some inner, some rest => some (.nested payload inner rest)
          | _, _ => none
      | _, _ => none

theorem follows_of_turnsWithin (fuel : Nat) : ∀ {t : Transform} {call : CallTree},
    t.turnsWithin digest Z fuel = some call → Follows digest Z t call := by
  induction fuel with
  | zero => exact fun h => nomatch h
  | succ fuel ih =>
      intro t call h
      rw [turnsWithin] at h
      split at h
      · next hnext =>
          cases h
          exact .wait hnext
      · next hnext =>
          cases h
          exact .stop hnext
      · next hplain hnext =>
          obtain ⟨rest, hrest, rfl⟩ := Option.map_eq_some_iff.mp h
          exact .plain hplain hnext (ih hrest)
      · next hpayload hnext =>
          split at h
          · next hinner hrest =>
              cases h
              exact .nested hpayload hnext (ih hinner) (ih hrest)
          · cases h
      · cases h

end Samples

/-- A container of one `'F'` block, whose payload ends inside its header. -/
def cutNested : Buffer where
  bytes := beBytes 4 blteMagic ++ beBytes 4 36 ++ beBytes 4 0x0F000001 ++ beBytes 4 9 ++
    beBytes 4 8 ++ (Digest.leading [modeF, 0x42, 0x4C, 0x54, 0x45, 0, 0, 0]).bytes ++
    [modeF, 0x42, 0x4C, 0x54, 0x45, 0, 0, 0, 36]
  fits := by decide

/-- A container of an `'F'` block, whose payload has a wrong signature, and an
`'N'` block of one byte. -/
def badNested : Buffer where
  bytes := beBytes 4 blteMagic ++ beBytes 4 60 ++ beBytes 4 0x0F000002 ++
    (beBytes 4 9 ++ beBytes 4 8 ++ (Digest.leading [modeF, 1, 1, 1, 1, 1, 1, 1]).bytes) ++
    (beBytes 4 2 ++ beBytes 4 1 ++ (Digest.leading [modeN]).bytes) ++
    [modeF, 1, 1, 1, 1, 1, 1, 1, 1] ++ [modeN, 7]
  fits := by decide

end Transform

end Tactmon
