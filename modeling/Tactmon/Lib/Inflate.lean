import Tactmon.Lib.Memory

/-!
# Incremental decoders

`Inflate` is the calling convention of zlib's `inflate`: a state, and a call
that is offered some input and some output space, consumes a prefix of the
one and fills a prefix of the other.  The record carries what the
documentation promises of every call: it stays within what it was offered, and
a call that returns `Z_OK` consumes input or uses up output it had pending.

`drain` is the usual loop around it.  It offers the rest of the input with a
fresh window of fixed size until the stream ends or the input is used up.
`Z_NEED_DICT` is not an error, and repeats until a dictionary is set, so a
loop that only tests for errors does not leave it.

`Decodes` says a byte string is a complete stream for some contents.  The
last four bytes of a complete stream, its checksum, stay unconsumed while
output is still to come.  `drain_decodes` is the use of it: whatever the
window, draining a complete stream emits its contents and nothing else.
-/

namespace Zlib

open Binary Cxx

/-- The return values of `inflate` a caller distinguishes. -/
inductive Ret where
  | ok
  | streamEnd
  | needDict
  /-- Any negative value. -/
  | failed
deriving DecidableEq, Repr

/-- What one call did. -/
structure Reply (S : Type) where
  ret : Ret
  consumed : Nat
  output : Bytes
  next : S

/-- A decoder with the calling convention of `inflate`. -/
structure Inflate where
  State : Type
  /-- The state `inflateInit` leaves, unless it fails. -/
  init : Option State
  /-- One call, on the rest of the input and the size of the output window. -/
  call : State → Bytes → Nat → Reply State
  /-- An upper bound on the calls that emit output without consuming input. -/
  pending : State → Nat
  consumed_le : ∀ s input room, (call s input room).consumed ≤ input.length
  output_le : ∀ s input room, (call s input room).output.length ≤ room
  progress : ∀ s input room, input ≠ [] → 0 < room → (call s input room).ret = .ok →
    0 < (call s input room).consumed ∨ pending (call s input room).next < pending s

/-- A window that has room for output. -/
structure Room where
  size : Nat
  pos : 0 < size

namespace Inflate

variable (Z : Inflate)

/-- Decode the rest of the input window by window.  The result is the windows
in order, and whether the loop ended without an error. -/
def drain (room : Room) (s : Z.State) (input : Bytes) : Exec (List Bytes × Bool) :=
  if _hin : input = [] then .ok ([], true)
  else
    let reply := Z.call s input room.size
    let rest := input.drop reply.consumed
    if _hret : reply.ret = .ok then do
      let (outputs, completed) ← drain room reply.next rest
      .ok (reply.output :: outputs, completed)
    else if reply.ret = .streamEnd then .ok ([reply.output], true)
    else if reply.ret = .failed then .ok ([], false)
    else if rest = [] then .ok ([reply.output], true)
    else .error .diverges
termination_by (input.length, Z.pending s)
decreasing_by
  have hlen : 0 < input.length := List.length_pos_iff.mpr _hin
  rcases Z.progress s input room.size _hin room.pos _hret with hc | hp
  · apply Prod.Lex.left
    rw [List.length_drop]
    omega
  · rcases Nat.eq_zero_or_pos (Z.call s input room.size).consumed with h0 | hpos
    · rw [h0, List.drop_zero]
      exact Prod.Lex.right _ hp
    · apply Prod.Lex.left
      rw [List.length_drop]
      omega

@[simp] theorem drain_nil (room : Room) (s : Z.State) : Z.drain room s [] = .ok ([], true) := by
  rw [drain, dif_pos rfl]

/-! ## How the loop ends -/

/-- How the loop around `inflate` ends. -/
inductive Outcome where
  /-- The stream ended. -/
  | ended
  /-- The input was used up before the stream ended. -/
  | starved
  | failed
  /-- A dictionary is asked for while input is left. -/
  | needsDict
deriving DecidableEq, Repr

/-- What the loop returns when it ends so.  Two of the endings return the same
and one does not return. -/
def Outcome.result (outputs : List Bytes) : Outcome → Exec (List Bytes × Bool)
  | .ended => .ok (outputs, true)
  | .starved => .ok (outputs, true)
  | .failed => .ok (outputs, false)
  | .needsDict => .error .diverges

/-- The windows the loop around `inflate` fills, and how it ends. -/
def run (room : Room) (s : Z.State) (input : Bytes) : List Bytes × Outcome :=
  if _hin : input = [] then ([], .starved)
  else
    let reply := Z.call s input room.size
    let rest := input.drop reply.consumed
    if _hret : reply.ret = .ok then
      let (outputs, outcome) := run room reply.next rest
      (reply.output :: outputs, outcome)
    else if reply.ret = .streamEnd then ([reply.output], .ended)
    else if reply.ret = .failed then ([], .failed)
    else if rest = [] then ([reply.output], .starved)
    else ([], .needsDict)
termination_by (input.length, Z.pending s)
decreasing_by
  have hlen : 0 < input.length := List.length_pos_iff.mpr _hin
  rcases Z.progress s input room.size _hin room.pos _hret with hc | hp
  · apply Prod.Lex.left
    rw [List.length_drop]
    omega
  · rcases Nat.eq_zero_or_pos (Z.call s input room.size).consumed with h0 | hpos
    · rw [h0, List.drop_zero]
      exact Prod.Lex.right _ hp
    · apply Prod.Lex.left
      rw [List.length_drop]
      omega

@[simp] theorem run_nil (room : Room) (s : Z.State) : Z.run room s [] = ([], .starved) := by
  rw [run, dif_pos rfl]

/-- The loop returns what its ending says. -/
theorem drain_eq_run (room : Room) (s : Z.State) (input : Bytes) :
    Z.drain room s input = (Z.run room s input).2.result (Z.run room s input).1 := by
  induction s, input using drain.induct Z room with
  | case1 s =>
      rw [drain_nil, run_nil]
      rfl
  | case2 s input hin reply rest hret ih =>
      rw [drain, run, dif_neg hin, dif_neg hin]
      simp only [reply, rest] at hret ih ⊢
      rw [dif_pos hret, dif_pos hret, ih]
      cases (Z.run room (Z.call s input room.size).next
        (input.drop (Z.call s input room.size).consumed)).2 <;> rfl
  | case3 s input hin reply hret hend =>
      rw [drain, run, dif_neg hin, dif_neg hin]
      simp only [reply] at hret hend ⊢
      rw [dif_neg hret, dif_neg hret, if_pos hend, if_pos hend]
      rfl
  | case4 s input hin reply hret hend hfail =>
      rw [drain, run, dif_neg hin, dif_neg hin]
      simp only [reply] at hret hend hfail ⊢
      rw [dif_neg hret, dif_neg hret, if_neg hend, if_neg hend, if_pos hfail, if_pos hfail]
      rfl
  | case5 s input hin reply rest hret hend hfail hrest =>
      rw [drain, run, dif_neg hin, dif_neg hin]
      simp only [reply, rest] at hret hend hfail hrest ⊢
      rw [dif_neg hret, dif_neg hret, if_neg hend, if_neg hend, if_neg hfail, if_neg hfail,
        if_pos hrest, if_pos hrest]
      rfl
  | case6 s input hin reply rest hret hend hfail hrest =>
      rw [drain, run, dif_neg hin, dif_neg hin]
      simp only [reply, rest] at hret hend hfail hrest ⊢
      rw [dif_neg hret, dif_neg hret, if_neg hend, if_neg hend, if_neg hfail, if_neg hfail,
        if_neg hrest, if_neg hrest]
      rfl

/-- The input begins with the rest of a stream, which ends after `content`. -/
inductive EndsAfter (room : Room) : Z.State → Bytes → Bytes → Prop where
  | last {s : Z.State} {input : Bytes} :
      input ≠ [] →
      (Z.call s input room.size).ret = .streamEnd →
      EndsAfter room s input (Z.call s input room.size).output
  | next {s : Z.State} {input content : Bytes} :
      input ≠ [] →
      (Z.call s input room.size).ret = .ok →
      EndsAfter room (Z.call s input room.size).next
        (input.drop (Z.call s input room.size).consumed) content →
      EndsAfter room s input ((Z.call s input room.size).output ++ content)

/-- The loop stops at the end of the stream if there is one. -/
theorem endsAfter_iff_run (room : Room) (s : Z.State) (input content : Bytes) :
    Z.EndsAfter room s input content ↔
      (Z.run room s input).2 = .ended ∧ (Z.run room s input).1.flatten = content := by
  constructor
  · intro h
    induction h with
    | last hin hend =>
        rw [run, dif_neg hin]
        simp [hend]
    | next hin hret _ ih =>
        rw [run, dif_neg hin]
        simp [hret, ih.1, ih.2]
  · induction s, input using drain.induct Z room generalizing content with
    | case1 s => simp
    | case2 s input hin reply rest hret ih =>
        rw [run, dif_neg hin]
        simp only [reply, rest] at hret ih ⊢
        rw [dif_pos hret]
        rintro ⟨hended, rfl⟩
        rw [List.flatten_cons]
        exact .next hin hret (ih _ ⟨hended, rfl⟩)
    | case3 s input hin reply hret hend =>
        rw [run, dif_neg hin]
        simp only [reply] at hret hend ⊢
        rw [dif_neg hret, if_pos hend]
        rintro ⟨-, rfl⟩
        simpa using EndsAfter.last hin hend
    | case4 s input hin reply hret hend hfail =>
        rw [run, dif_neg hin]
        simp only [reply] at hret hend hfail ⊢
        simp [hfail]
    | case5 s input hin reply rest hret hend hfail hrest =>
        rw [run, dif_neg hin]
        simp only [reply, rest] at hret hend hfail hrest ⊢
        simp [hret, hend, hfail, hrest]
    | case6 s input hin reply rest hret hend hfail hrest =>
        rw [run, dif_neg hin]
        simp only [reply, rest] at hret hend hfail hrest ⊢
        simp [hret, hend, hfail, hrest]

/-- The loop offers `inflate` nothing but its input. -/
theorem drain_ne_outOfBounds (room : Room) (s : Z.State) (input : Bytes) :
    Z.drain room s input ≠ .error .outOfBounds := by
  rw [drain_eq_run]
  cases (Z.run room s input).2 with
  | ended => exact fun h => nomatch h
  | starved => exact fun h => nomatch h
  | failed => exact fun h => nomatch h
  | needsDict => exact fun h => nomatch h

/-! ## Complete streams -/

/-- `z` is a complete stream that decodes to `content`.  `At s rest todo` says
the decoder is in state `s` with `rest` unread and `todo` not yet emitted. -/
def Decodes (z content : Bytes) : Prop :=
  ∃ At : Z.State → Bytes → Bytes → Prop,
    (∃ s, Z.init = some s ∧ At s z content) ∧
    (∀ s rest todo, At s rest todo → todo ≠ [] → 4 ≤ rest.length) ∧
    ∀ s rest todo room, At s rest todo → rest ≠ [] → 0 < room →
      ((Z.call s rest room).ret = .streamEnd ∧ todo = (Z.call s rest room).output) ∨
      ((Z.call s rest room).ret = .ok ∧ ∃ todo', todo = (Z.call s rest room).output ++ todo' ∧
        At (Z.call s rest room).next (rest.drop (Z.call s rest room).consumed) todo')

variable {Z}

/-- Draining a complete stream emits exactly its contents, whatever the
window. -/
theorem drain_decodes (room : Room) {z content : Bytes} (h : Z.Decodes z content) :
    ∃ s outputs, Z.init = some s ∧ Z.drain room s z = .ok (outputs, true) ∧
      outputs.flatten = content := by
  obtain ⟨At, ⟨s, hinit, hs⟩, trailer, step⟩ := h
  suffices hrun : ∀ (s : Z.State) (rest todo : Bytes), At s rest todo →
      ∃ outputs, Z.drain room s rest = .ok (outputs, true) ∧ outputs.flatten = todo by
    obtain ⟨outputs, hd, hf⟩ := hrun s z content hs
    exact ⟨s, outputs, hinit, hd, hf⟩
  intro s rest
  induction s, rest using drain.induct Z room with
  | case1 s =>
      intro todo hat
      -- an exhausted input has no room for the trailer, so nothing is pending
      have htodo : todo = [] := by
        by_contra hne
        have := trailer s [] todo hat hne
        simp at this
      exact ⟨[], drain_nil Z room s, htodo.symm ▸ rfl⟩
  | case2 s rest hne reply rest' hret ih =>
      intro todo hat
      rcases step s rest todo room.size hat hne room.pos with ⟨hend, -⟩ | ⟨-, todo', htodo, hnext⟩
      · rw [hret] at hend
        cases hend
      · obtain ⟨outputs, hd, hf⟩ := ih todo' hnext
        refine ⟨reply.output :: outputs, ?_, ?_⟩
        · rw [drain, dif_neg hne]
          simp only [reply, rest'] at hret hd ⊢
          rw [dif_pos hret, hd, Exec.ok_bind]
        · rw [List.flatten_cons, hf, htodo]
  | case3 s rest hne reply hret hend =>
      intro todo hat
      rcases step s rest todo room.size hat hne room.pos with ⟨-, htodo⟩ | ⟨hok, -⟩
      · refine ⟨[reply.output], ?_, ?_⟩
        · rw [drain, dif_neg hne]
          simp only [reply] at hret hend ⊢
          rw [dif_neg hret, if_pos hend]
        · rw [htodo]
          exact List.append_nil _
      · exact absurd hok hret
  | case4 s rest hne reply hret hend hfail =>
      intro todo hat
      rcases step s rest todo room.size hat hne room.pos with ⟨h, -⟩ | ⟨h, -⟩
      · exact absurd h hend
      · exact absurd h hret
  | case5 s rest hne reply rest' hret hend hfail hrest =>
      intro todo hat
      rcases step s rest todo room.size hat hne room.pos with ⟨h, -⟩ | ⟨h, -⟩
      · exact absurd h hend
      · exact absurd h hret
  | case6 s rest hne reply rest' hret hend hfail hrest =>
      intro todo hat
      rcases step s rest todo room.size hat hne room.pos with ⟨h, -⟩ | ⟨h, -⟩
      · exact absurd h hend
      · exact absurd h hret

/-! ## A decoder that copies

The stream of `content` is `content` with a four-byte trailer. -/

/-- Copy everything but the last four bytes of the input. -/
def copying : Inflate where
  State := Unit
  init := some ()
  call _ input room :=
    if input.length ≤ 4 then ⟨.streamEnd, input.length, [], ()⟩
    else ⟨.ok, min room (input.length - 4), input.take (min room (input.length - 4)), ()⟩
  pending _ := 0
  consumed_le := by
    intro _ input room
    split
    · exact Nat.le_refl _
    · exact Nat.le_trans (Nat.min_le_right _ _) (Nat.sub_le _ _)
  output_le := by
    intro _ input room
    split
    · exact Nat.zero_le _
    · rw [List.length_take]
      omega
  progress := by
    intro _ input room hin hroom hret
    split at hret
    · cases hret
    · next hlen =>
        rw [if_neg hlen]
        simp only
        omega

/-- Every byte string is the contents of a complete stream of `copying`. -/
theorem copying_decodes (content : Bytes) {trailer : Bytes} (ht : trailer.length = 4) :
    copying.Decodes (content ++ trailer) content := by
  refine ⟨fun _ rest todo => rest = todo ++ trailer, ⟨(), rfl, rfl⟩, ?_, ?_⟩
  · rintro _ rest todo rfl _
    rw [List.length_append]
    omega
  · rintro ⟨⟩ rest todo room rfl _ hroom
    simp only [copying, List.length_append, ht]
    by_cases htodo : todo.length + 4 ≤ 4
    · rw [if_pos htodo]
      exact Or.inl ⟨rfl, List.length_eq_zero_iff.mp (by omega)⟩
    · rw [if_neg htodo]
      refine Or.inr ⟨rfl, todo.drop (min room (todo.length + 4 - 4)), ?_, ?_⟩
      · rw [List.take_append_of_le_length (by omega), List.take_append_drop]
      · rw [List.drop_append_of_le_length]
        simp only
        omega

end Inflate

end Zlib
