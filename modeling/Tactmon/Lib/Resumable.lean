import Mathlib.Tactic.Common

/-!
# Machines that are fed their input in pieces

A resumable machine has a state that input can be fed to, and a step that
looks at the state and either waits for more input, stops with an error, or
moves on.  A move may report an error and still go on.  `run` steps until the
machine waits or stops.  Every move lowers a rank, so `run` is a loop with
enough fuel, and `run_eq` is its unfolding.

`Stable x` is the condition on a state under which it makes no difference to
the step whether the input `x` that is still to come has arrived already.
`feedAll_eq_run` is the use of it: when every step of every call is taken at a
stable state, feeding the pieces one by one ends like feeding all of the input
at once.

`RunAll P` and `CallsAll P` say that every state a run, or a sequence of
calls, takes a step from meets `P`.
-/

namespace Resumable

/-- What one step does. -/
inductive Move (S O E : Type) where
  /-- More input is needed. -/
  | wait
  /-- An error ends the call. -/
  | stop (state : S) (out : List O) (error : E)
  /-- The call goes on, perhaps with an error noted. -/
  | next (state : S) (out : List O) (error : Option E)

/-- What one call leaves behind. -/
structure Result (S O E : Type) where
  state : S
  out : List O
  error : Option E
deriving DecidableEq

variable {S α O E F V : Type}

/-- Output that came before. -/
def Result.prepend (out : List O) (r : Result S O E) : Result S O E :=
  ⟨r.state, out ++ r.out, r.error⟩

/-- Output and a noted error that came before.  A later error replaces it. -/
def Result.after (out : List O) (error : Option E) (r : Result S O E) : Result S O E :=
  ⟨r.state, out ++ r.out, r.error <|> error⟩

@[simp] theorem Result.after_none (out : List O) (r : Result S O E) :
    r.after out none = r.prepend out := by
  cases r with
  | mk s o e => cases e <;> rfl

/-- What a caller sees of a call: the output, the error and a `view` of the
state. -/
def Result.observe (view : S → V) (r : Result S O E) : List O × Option E × V :=
  (r.out, r.error, view r.state)

theorem Result.observe_prepend (view : S → V) (out : List O) (r : Result S O E) :
    (r.prepend out).observe view =
      (out ++ (r.observe view).1, (r.observe view).2.1, (r.observe view).2.2) := rfl

/-- The outcome of a step with more input behind it. -/
def Move.fed (feed : S → List α → S) (x : List α) : Move S O E → Move S O E
  | .wait => .wait
  | .stop s out e => .stop (feed s x) out e
  | .next s out e => .next (feed s x) out e

/-- A machine: its step, and a rank that every move lowers. -/
structure Machine (S O E F : Type) where
  step : S → Except F (Move S O E)
  rank : S → Nat
  rank_lt : ∀ {s s' out e}, step s = .ok (.next s' out e) → rank s' < rank s

namespace Machine

variable (M : Machine S O E F)

/-- The loop, with a bound on the number of steps. -/
def loop : Nat → S → Except F (Result S O E)
  | 0, s => .ok ⟨s, [], none⟩
  | fuel + 1, s =>
      match M.step s with
      | .error f => .error f
      | .ok .wait => .ok ⟨s, [], none⟩
      | .ok (.stop s' out e) => .ok ⟨s', out, some e⟩
      | .ok (.next s' out e) => (loop fuel s').map (Result.after out e)

/-- Step until the machine waits or stops. -/
def run (s : S) : Except F (Result S O E) := M.loop (M.rank s + 1) s

/-- A function that follows the machine makes the same of any fuel the rank does
not use up. -/
theorem enough_fuel {α : Type} {g : Nat → S → α}
    (hg : ∀ fuel fuel' s,
      (∀ s' out e, M.step s = .ok (.next s' out e) → g fuel s' = g fuel' s') →
        g (fuel + 1) s = g (fuel' + 1) s) {fuel : Nat} :
    ∀ {fuel' : Nat} {s : S}, M.rank s < fuel → M.rank s < fuel' → g fuel s = g fuel' s := by
  induction fuel with
  | zero => intro _ s h; omega
  | succ fuel ih =>
      intro fuel' s h h'
      cases fuel' with
      | zero => omega
      | succ fuel' =>
          refine hg fuel fuel' s fun s' out e hstep => ?_
          have hlt := M.rank_lt hstep
          exact ih (by omega) (by omega)

theorem loop_eq_run {fuel : Nat} {s : S} (h : M.rank s < fuel) : M.loop fuel s = M.run s := by
  refine M.enough_fuel (g := M.loop) (fun fuel fuel' s hnext => ?_) h (Nat.lt_succ_self _)
  rw [loop, loop]
  cases hstep : M.step s with
  | error f => rfl
  | ok m =>
      cases m with
      | wait => rfl
      | stop s' out e => rfl
      | next s' out e => simp only [hnext s' out e hstep]

/-- One step of a run. -/
theorem run_eq (s : S) : M.run s =
    match M.step s with
    | .error f => .error f
    | .ok .wait => .ok ⟨s, [], none⟩
    | .ok (.stop s' out e) => .ok ⟨s', out, some e⟩
    | .ok (.next s' out e) => (M.run s').map (Result.after out e) := by
  rw [run, loop]
  cases hstep : M.step s with
  | error f => rfl
  | ok m =>
      cases m with
      | wait => rfl
      | stop s' out e => rfl
      | next s' out e => simp only [M.loop_eq_run (M.rank_lt hstep)]

theorem run_wait {s : S} (h : M.step s = .ok .wait) : M.run s = .ok ⟨s, [], none⟩ := by
  rw [run_eq, h]

theorem run_stop {s s' : S} {out : List O} {e : E} (h : M.step s = .ok (.stop s' out e)) :
    M.run s = .ok ⟨s', out, some e⟩ := by
  rw [run_eq, h]

theorem run_error {s : S} {f : F} (h : M.step s = .error f) : M.run s = .error f := by
  rw [run_eq, h]

theorem run_next {s s' : S} {out : List O} {e : Option E}
    (h : M.step s = .ok (.next s' out e)) : M.run s = (M.run s').map (Result.after out e) := by
  rw [run_eq, h]

/-- Induction along a run: it is enough to look at what one step does. -/
theorem run_induction {P : S → Prop}
    (step : ∀ s, (∀ s' out e, M.step s = .ok (.next s' out e) → P s') → P s) (s : S) : P s := by
  suffices hall : ∀ (n : Nat) (s : S), M.rank s ≤ n → P s from hall _ s (Nat.le_refl _)
  intro n
  induction n with
  | zero =>
      intro s hs
      refine step s fun s' out e h => ?_
      have := M.rank_lt h
      omega
  | succ n ih =>
      intro s hs
      refine step s fun s' out e h => ih s' ?_
      have := M.rank_lt h
      omega

/-- The states a run takes a step from, with a bound on the number of steps. -/
def statesWithin : Nat → S → List S
  | 0, s => [s]
  | fuel + 1, s =>
      match M.step s with
      | .ok (.next s' _ _) => s :: statesWithin fuel s'
      | _ => [s]

/-- The states the run from `s` takes a step from. -/
def states (s : S) : List S := M.statesWithin (M.rank s + 1) s

theorem statesWithin_eq_states {fuel : Nat} {s : S} (h : M.rank s < fuel) :
    M.statesWithin fuel s = M.states s := by
  refine M.enough_fuel (g := M.statesWithin) (fun fuel fuel' s hnext => ?_) h
    (Nat.lt_succ_self _)
  rw [statesWithin, statesWithin]
  cases hstep : M.step s with
  | error f => rfl
  | ok m =>
      cases m with
      | wait => rfl
      | stop s' out e => rfl
      | next s' out e => simp only [hnext s' out e hstep]

theorem states_next {s s' : S} {out : List O} {e : Option E}
    (h : M.step s = .ok (.next s' out e)) : M.states s = s :: M.states s' := by
  rw [states, statesWithin, h]
  simp only [M.statesWithin_eq_states (M.rank_lt h)]

/-- A run takes its first step from where it starts and the others from where
its first step ends. -/
theorem mem_states {s s₁ : S} : s₁ ∈ M.states s ↔
    s₁ = s ∨ ∃ s' out e, M.step s = .ok (.next s' out e) ∧ s₁ ∈ M.states s' := by
  cases hstep : M.step s with
  | error f => rw [states, statesWithin, hstep]; simp
  | ok m =>
      cases m with
      | wait => rw [states, statesWithin, hstep]; simp
      | stop s' out e => rw [states, statesWithin, hstep]; simp
      | next s' out e =>
          rw [M.states_next hstep, List.mem_cons]
          refine or_congr_right ⟨fun h => ⟨s', out, e, rfl, h⟩, ?_⟩
          intro ⟨_, _, _, h, hmem⟩
          cases h
          exact hmem

/-- A state that stops ends the run, with its error. -/
theorem run_of_stop_mem (s : S) {s₁ s' : S} {out : List O} {e : E} (hs : s₁ ∈ M.states s)
    (hstep : M.step s₁ = .ok (.stop s' out e)) : ∃ out', M.run s = .ok ⟨s', out', some e⟩ := by
  induction s using M.run_induction with
  | step s ih =>
      rcases M.mem_states.mp hs with h | ⟨s₂, out₂, e₂, hnext, hmem⟩
      · rw [← h]
        exact ⟨out, M.run_stop hstep⟩
      · obtain ⟨out', hrun⟩ := ih s₂ out₂ e₂ hnext hmem
        refine ⟨out₂ ++ out', ?_⟩
        rw [M.run_next hnext, hrun]
        rfl

/-- The error of a run is the one a step stopped with or noted. -/
theorem error_of_run (s : S) {r : Result S O E} {e : E} (hr : M.run s = .ok r)
    (he : r.error = some e) :
    (∃ s₁ ∈ M.states s, ∃ out, M.step s₁ = .ok (.stop r.state out e)) ∨
      ∃ s₁ ∈ M.states s, ∃ s' out, M.step s₁ = .ok (.next s' out (some e)) := by
  induction s using M.run_induction generalizing r with
  | step s ih =>
      have hself : s ∈ M.states s := M.mem_states.mpr (Or.inl rfl)
      rw [run_eq] at hr
      cases hstep : M.step s with
      | error f => rw [hstep] at hr; cases hr
      | ok m =>
          rw [hstep] at hr
          cases m with
          | wait => cases hr; cases he
          | stop s' out e' =>
              cases hr
              cases he
              exact Or.inl ⟨s, hself, out, hstep⟩
          | next s' out e' =>
              simp only at hr
              cases hrun : M.run s' with
              | error f => rw [hrun] at hr; cases hr
              | ok r' =>
                  rw [hrun] at hr
                  cases hr
                  have hmem : ∀ s₁ ∈ M.states s', s₁ ∈ M.states s := fun s₁ h =>
                    M.mem_states.mpr (Or.inr ⟨s', out, e', hstep, h⟩)
                  cases hr' : r'.error with
                  | none =>
                      rw [Result.after, hr'] at he
                      have he' : e' = some e := he
                      exact Or.inr ⟨s, hself, s', out, he' ▸ hstep⟩
                  | some e₁ =>
                      rw [Result.after, hr'] at he
                      cases he
                      rcases ih s' out e' hstep hrun hr' with ⟨s₁, h, hs₁⟩ | ⟨s₁, h, hs₁⟩
                      · exact Or.inl ⟨s₁, hmem s₁ h, hs₁⟩
                      · exact Or.inr ⟨s₁, hmem s₁ h, hs₁⟩

/-- Every state the run from `s` takes a step from meets `P`. -/
def RunAll (P : S → Prop) (s : S) : Prop := ∀ s' ∈ M.states s, P s'

instance (P : S → Prop) [DecidablePred P] (s : S) : Decidable (M.RunAll P s) :=
  inferInstanceAs (Decidable (∀ s' ∈ M.states s, P s'))

theorem RunAll.head {P : S → Prop} {s : S} (h : M.RunAll P s) : P s :=
  h s (M.mem_states.mpr (Or.inl rfl))

theorem RunAll.tail {P : S → Prop} {s s' : S} {out : List O} {e : Option E}
    (h : M.RunAll P s) (hstep : M.step s = .ok (.next s' out e)) : M.RunAll P s' :=
  fun s₁ hs₁ => h s₁ (M.mem_states.mpr (Or.inr ⟨s', out, e, hstep, hs₁⟩))

/-- It is enough to look at the first step and at the run after it. -/
theorem RunAll.intro {P : S → Prop} {s : S} (hP : P s)
    (hnext : ∀ s' out e, M.step s = .ok (.next s' out e) → M.RunAll P s') : M.RunAll P s := by
  intro s₁ hs₁
  rcases M.mem_states.mp hs₁ with h | ⟨s', out, e, hstep, hmem⟩
  · rw [h]
    exact hP
  · exact hnext s' out e hstep s₁ hmem

/-- A relation every step keeps between the states before and after holds
between the start and the end of a run. -/
theorem run_preserves {R : S → S → Prop} (refl : ∀ s, R s s)
    (trans : ∀ {a b c}, R a b → R b c → R a c)
    (next : ∀ {s s' out e}, M.step s = .ok (.next s' out e) → R s s')
    (stop : ∀ {s s' out e}, M.step s = .ok (.stop s' out e) → R s s') :
    ∀ (s : S) {r : Result S O E}, M.run s = .ok r → R s r.state := by
  intro s
  induction s using M.run_induction with
  | step s ih =>
      intro r hr
      rw [run_eq] at hr
      cases hstep : M.step s with
      | error f => rw [hstep] at hr; cases hr
      | ok m =>
          rw [hstep] at hr
          cases m with
          | wait => cases hr; exact refl s
          | stop s' out e => cases hr; exact stop hstep
          | next s' out e =>
              simp only at hr
              cases hrun : M.run s' with
              | error f => rw [hrun] at hr; cases hr
              | ok r' =>
                  rw [hrun] at hr
                  cases hr
                  have hrest := ih s' out e hstep hrun
                  exact trans (next hstep) hrest

/-! ## Feeding -/

section Feeding

variable (feed : S → List α → S)

/-- It makes no difference to the step whether `x` has arrived already, and
the step notes no error it does not stop for. -/
def Stable (x : List α) (s : S) : Prop :=
  M.step s ≠ .ok .wait →
    M.step (feed s x) = (M.step s).map (Move.fed feed x) ∧
    ∀ s' out e, M.step s = .ok (.next s' out e) → e = none

/-- What a call makes of more input, given how it ended without. -/
def resume (x : List α) (r : Result S O E) : Except F (Result S O E) :=
  match r.error with
  | none => (M.run (feed r.state x)).map (Result.prepend r.out)
  | some e => .ok ⟨feed r.state x, r.out, some e⟩

theorem resume_prepend (x : List α) (out : List O) (r : Result S O E) :
    M.resume feed x (r.prepend out) = (M.resume feed x r).map (Result.prepend out) := by
  obtain ⟨s, o, e⟩ := r
  cases e with
  | none =>
      simp only [resume, Result.prepend]
      cases M.run (feed s x) with
      | error f => rfl
      | ok r => simp [Except.map, Result.prepend]
  | some e => rfl

/-- Input that comes later resumes a stable run where it ended. -/
theorem run_feed {s : S} {x : List α} (h : M.RunAll (M.Stable feed x) s) :
    M.run (feed s x) = (M.run s).bind (M.resume feed x) := by
  induction s using M.run_induction with
  | step s ih =>
      have hst := RunAll.head M h
      cases hstep : M.step s with
      | error f =>
          obtain ⟨hfeed, -⟩ := hst (by rw [hstep]; simp)
          rw [M.run_error hstep, M.run_error (s := feed s x) (by rw [hfeed, hstep]; rfl)]
          rfl
      | ok m =>
          cases m with
          | wait =>
              rw [M.run_wait hstep]
              show _ = (M.run (feed s x)).map (Result.prepend [])
              cases M.run (feed s x) <;> rfl
          | stop s' out e =>
              obtain ⟨hfeed, -⟩ := hst (by rw [hstep]; simp)
              rw [M.run_stop hstep, M.run_stop (s := feed s x) (by rw [hfeed, hstep]; rfl)]
              rfl
          | next s' out e =>
              obtain ⟨hfeed, hnone⟩ := hst (by rw [hstep]; simp)
              have he : e = none := hnone s' out e hstep
              subst he
              rw [M.run_next hstep, M.run_next (s := feed s x) (by rw [hfeed, hstep]; rfl),
                ih s' out none hstep (RunAll.tail M h hstep)]
              cases M.run s' with
              | error f => rfl
              | ok r => simp [Except.map, Except.bind, resume_prepend]

/-- A stable call that ends without an error leaves a machine that waits. -/
theorem run_ok_waits {s : S} {x : List α} (hst : M.RunAll (M.Stable feed x) s) :
    ∀ {r : Result S O E}, M.run s = .ok r → r.error = none → M.step r.state = .ok .wait := by
  induction s using M.run_induction with
  | step s ih =>
      intro r h hr
      have hstable := RunAll.head M hst
      cases hstep : M.step s with
      | error f => rw [M.run_error hstep] at h; cases h
      | ok m =>
          cases m with
          | wait => rw [M.run_wait hstep] at h; cases h; exact hstep
          | stop => rw [M.run_stop hstep] at h; cases h; cases hr
          | next s₁ out e =>
              obtain ⟨-, hnone⟩ := hstable (by rw [hstep]; simp)
              have he : e = none := hnone s₁ out e hstep
              subst he
              rw [M.run_next hstep] at h
              cases hrun : M.run s₁ with
              | error f => rw [hrun] at h; cases h
              | ok r₁ =>
                  rw [hrun, Except.map, Result.after_none] at h
                  cases h
                  have hrest := ih s₁ out none hstep (RunAll.tail M hst hstep) hrun hr
                  exact hrest

/-- Call the machine on the pieces in order, and stop at the first call that
sets an error. -/
def feedAll : S → List (List α) → Except F (Result S O E)
  | s, [] => .ok ⟨s, [], none⟩
  | s, x :: xs => (M.run (feed s x)).bind fun r =>
      match r.error with
      | none => (feedAll r.state xs).map (Result.prepend r.out)
      | some _ => .ok r

/-- Every state a call on the pieces takes a step from meets `P`, which may
look at the input still to come. -/
def CallsAll (P : List α → S → Prop) : S → List (List α) → Prop
  | _, [] => True
  | s, x :: xs => M.RunAll (P xs.flatten) (feed s x) ∧
      match M.run (feed s x) with
      | .ok ⟨s', _, none⟩ => CallsAll P s' xs
      | _ => True

instance CallsAll.decidable (P : List α → S → Prop) [∀ y, DecidablePred (P y)] :
    (s : S) → (xs : List (List α)) → Decidable (M.CallsAll feed P s xs)
  | _, [] => isTrue trivial
  | s, x :: xs =>
      have : Decidable (match M.run (feed s x) with
          | .ok ⟨s', _, none⟩ => M.CallsAll feed P s' xs
          | _ => True) :=
        match M.run (feed s x) with
        | .ok ⟨s', _, none⟩ => CallsAll.decidable P s' xs
        | .ok ⟨_, _, some _⟩ => isTrue trivial
        | .error _ => isTrue trivial
      inferInstanceAs (Decidable (_ ∧ _))

theorem CallsAll.tail {P : List α → S → Prop} {s s' : S} {x : List α} {xs : List (List α)}
    {out : List O} (h : M.CallsAll feed P s (x :: xs))
    (hrun : M.run (feed s x) = .ok ⟨s', out, none⟩) : M.CallsAll feed P s' xs := by
  have h' := h.2
  rw [hrun] at h'
  exact h'

/-- One condition on the states gives another, where an invariant that feeding
and stepping preserve is at hand. -/
theorem CallsAll.imp {P Q : List α → S → Prop} (Inv : List α → S → Prop)
    (hfeed : ∀ s x y, Inv (x ++ y) s → Inv y (feed s x))
    (hnext : ∀ s s' y out e, P y s → Inv y s → M.step s = .ok (.next s' out e) → Inv y s')
    (hPQ : ∀ y s, P y s → Inv y s → Q y s) (xs : List (List α)) :
    ∀ s, Inv xs.flatten s → M.CallsAll feed P s xs → M.CallsAll feed Q s xs := by
  have hrun : ∀ (y : List α) (s : S), Inv y s → M.RunAll (P y) s →
      M.RunAll (Q y) s ∧ ∀ s' out, M.run s = .ok ⟨s', out, none⟩ → Inv y s' := by
    intro y s
    induction s using M.run_induction with
    | step s ih =>
        intro hs h
        have hP := RunAll.head M h
        refine ⟨RunAll.intro M (hPQ y s hP hs) fun s' out e hstep =>
          (ih s' out e hstep (hnext s s' y out e hP hs hstep) (RunAll.tail M h hstep)).1, ?_⟩
        intro s₁ out₁ hr
        rw [run_eq] at hr
        cases hstep : M.step s with
        | error f => rw [hstep] at hr; cases hr
        | ok m =>
            rw [hstep] at hr
            cases m with
            | wait => cases hr; exact hs
            | stop s' out e => cases hr
            | next s' out e =>
                simp only at hr
                cases hr' : M.run s' with
                | error f => rw [hr'] at hr; cases hr
                | ok r =>
                    obtain ⟨s₂, out₂, e₂⟩ := r
                    rw [hr', Except.map, Result.after] at hr
                    have hs' := hnext s s' y out e hP hs hstep
                    have hend := (ih s' out e hstep hs' (RunAll.tail M h hstep)).2
                    cases e₂ with
                    | none =>
                        cases hr
                        exact hend _ out₂ hr'
                    | some e₂ => cases hr
  induction xs with
  | nil => exact fun s _ _ => trivial
  | cons x xs ih =>
      intro s hs h
      obtain ⟨hQ, hend⟩ := hrun xs.flatten (feed s x) (hfeed s x xs.flatten hs) h.1
      refine ⟨hQ, ?_⟩
      split
      · next s' out hr => exact ih s' (hend s' out hr) (CallsAll.tail M feed h hr)
      · trivial

/-- A run none of whose steps ends in a fault does not end in it. -/
theorem run_ne_error {f : F} (s : S) (h : M.RunAll (fun s => M.step s ≠ .error f) s) :
    M.run s ≠ .error f := by
  induction s using M.run_induction with
  | step s ih =>
      have hstep := RunAll.head M h
      intro hr
      rw [run_eq] at hr
      cases hm : M.step s with
      | error f' =>
          rw [hm] at hr hstep
          cases hr
          exact hstep rfl
      | ok m =>
          rw [hm] at hr
          cases m with
          | wait => cases hr
          | stop s' out e => cases hr
          | next s' out e =>
              simp only at hr
              cases hr' : M.run s' with
              | error f' =>
                  rw [hr'] at hr
                  cases hr
                  exact ih s' out e hm (RunAll.tail M h hm) hr'
              | ok r => rw [hr'] at hr; cases hr

theorem feedAll_ne_error {f : F} (xs : List (List α)) :
    ∀ s, M.CallsAll feed (fun _ s => M.step s ≠ .error f) s xs →
      M.feedAll feed s xs ≠ .error f := by
  induction xs with
  | nil => exact fun s _ h => nomatch h
  | cons x xs ih =>
      intro s hs h
      rw [feedAll] at h
      cases hr : M.run (feed s x) with
      | error f' =>
          rw [hr] at h
          cases h
          exact M.run_ne_error _ hs.1 hr
      | ok r =>
          obtain ⟨s', out, e⟩ := r
          rw [hr] at h
          cases e with
          | some e => cases h
          | none =>
              cases hrest : M.feedAll feed s' xs with
              | error f' =>
                  simp only [Except.bind, hrest, Except.map] at h
                  cases h
                  exact ih s' (CallsAll.tail M feed hs hr) hrest
              | ok r' =>
                  simp only [Except.bind, hrest, Except.map] at h
                  cases h

/-- What is observed after some output only depends on what is observed. -/
theorem map_observe_prepend (view : S → V) (out : List O) {a b : Except F (Result S O E)}
    (h : a.map (Result.observe view) = b.map (Result.observe view)) :
    (a.map (Result.prepend out)).map (Result.observe view) =
      (b.map (Result.prepend out)).map (Result.observe view) := by
  cases a with
  | error f =>
      cases b with
      | error g => exact h
      | ok b => cases h
  | ok a =>
      cases b with
      | error g => cases h
      | ok b =>
          simp only [Except.map, Except.ok.injEq] at h ⊢
          rw [Result.observe_prepend, Result.observe_prepend, h]

/-- Feeding the pieces one by one ends like feeding all of the input at once:
the same output, the same error and the same view of the final state. -/
theorem feedAll_eq_run (view : S → V) (Inv : S → Prop) (hnil : ∀ s, Inv s → feed s [] = s)
    (hfeed : ∀ s x y, Inv s → feed (feed s x) y = feed s (x ++ y))
    (hview : ∀ s x, view (feed s x) = view s) (hinv : ∀ s x, Inv s → Inv (feed s x))
    (hrun : ∀ s r, Inv s → M.run s = .ok r → Inv r.state) (xs : List (List α)) :
    ∀ s : S, Inv s → M.step s = .ok .wait → M.CallsAll feed (M.Stable feed) s xs →
      (M.feedAll feed s xs).map (Result.observe view) =
        (M.run (feed s xs.flatten)).map (Result.observe view) := by
  induction xs with
  | nil =>
      intro s hs hwait _
      rw [List.flatten_nil, hnil s hs, M.run_wait hwait, feedAll]
  | cons x xs ih =>
      intro s hs _ hst
      rw [List.flatten_cons, ← hfeed s _ _ hs, M.run_feed feed hst.1, feedAll]
      cases hr : M.run (feed s x) with
      | error f => rfl
      | ok r =>
          have hr' : Inv r.state := hrun _ r (hinv s x hs) hr
          obtain ⟨s', out, e⟩ := r
          cases e with
          | some e => simp [Except.bind, Except.map, resume, Result.observe, hview]
          | none =>
              have hwait := M.run_ok_waits feed hst.1 hr rfl
              exact map_observe_prepend view out (ih s' hr' hwait (CallsAll.tail M feed hst hr))

end Feeding

end Machine

end Resumable
