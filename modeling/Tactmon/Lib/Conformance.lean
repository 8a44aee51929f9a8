/-!
# Conformance of an implementation to a reference

An implementation `impl` answers operations from its own states and may
fail.  A reference `ref` answers the same operations from simpler states and
never fails.  `run` and `refRun` collect the answers to a list of operations.

`Exact` says when one step of the implementation gives the reference's answer:
when `meets` holds of the reference state and the operation, and only then.
`Exact.run_iff_along` lifts that to whole runs, so a run of the implementation
gives the reference's answers exactly when every step of the reference run
meets the condition.
-/

namespace Conformance

variable {σ ρ α β ε : Type}

/-- The answers of an implementation to a list of operations. -/
def run (impl : σ → α → Except ε (β × σ)) : σ → List α → Except ε (List β)
  | _, [] => .ok []
  | s, a :: as => do
      let (b, s) ← impl s a
      let bs ← run impl s as
      .ok (b :: bs)

/-- The answers of a reference to a list of operations. -/
def refRun (ref : ρ → α → β × ρ) : ρ → List α → List β
  | _, [] => []
  | r, a :: as => (ref r a).1 :: refRun ref (ref r a).2 as

/-- A condition on the reference state and the operation, at every step. -/
def Along (ref : ρ → α → β × ρ) (P : ρ → α → Prop) : ρ → List α → Prop
  | _, [] => True
  | r, a :: as => P r a ∧ Along ref P (ref r a).2 as

instance Along.decidable (ref : ρ → α → β × ρ) (P : ρ → α → Prop) [∀ r a, Decidable (P r a)] :
    ∀ (r : ρ) (as : List α), Decidable (Along ref P r as)
  | _, [] => inferInstanceAs (Decidable True)
  | r, a :: as =>
      have : Decidable (Along ref P (ref r a).2 as) := Along.decidable ref P (ref r a).2 as
      inferInstanceAs (Decidable (P r a ∧ Along ref P (ref r a).2 as))

/-- Two machines in step with each other meet two conditions along the same
runs, when the conditions agree on related states. -/
theorem Along.iff_of_sim {ρ' β' : Type} {ref : ρ → α → β × ρ} {ref' : ρ' → α → β' × ρ'}
    {P : ρ → α → Prop} {P' : ρ' → α → Prop} (Sim : ρ → ρ' → Prop)
    (hstep : ∀ {r r'} (a : α), Sim r r' → Sim (ref r a).2 (ref' r' a).2)
    (hagree : ∀ {r r'} (a : α), Sim r r' → (P r a ↔ P' r' a)) (as : List α) :
    ∀ {r r'}, Sim r r' → (Along ref P r as ↔ Along ref' P' r' as) := by
  induction as with
  | nil => exact fun _ => Iff.rfl
  | cons a as ih => exact fun h => and_congr (hagree a h) (ih (hstep a h))

/-- What holds of every state and operation holds along every run. -/
theorem Along.of_forall {ref : ρ → α → β × ρ} {P : ρ → α → Prop} (h : ∀ r a, P r a) :
    ∀ (r : ρ) (as : List α), Along ref P r as
  | _, [] => trivial
  | r, a :: as => ⟨h r a, Along.of_forall h (ref r a).2 as⟩

/-- Two conditions along one run. -/
theorem Along.and_iff {ref : ρ → α → β × ρ} {P Q : ρ → α → Prop} (as : List α) :
    ∀ {r}, Along ref (fun r a => P r a ∧ Q r a) r as ↔ Along ref P r as ∧ Along ref Q r as := by
  induction as with
  | nil => exact (and_iff_left trivial).symm
  | cons a as ih =>
      intro r
      rw [Along, Along, Along, ih]
      exact and_and_and_comm

/-! ## Conditions on the states of a run -/

/-- A machine without answers. -/
def silent (next : ρ → α → ρ) (r : ρ) (a : α) : Unit × ρ := ((), next r a)

/-- The states a run comes through. -/
def states (next : ρ → α → ρ) : ρ → List α → List ρ
  | r, [] => [r]
  | r, a :: as => r :: states next (next r a) as

/-- A condition that decides whether one step keeps what the states have in
common decides about the run. -/
theorem Along.iff_of_step (Inv : ρ → Prop) {ref : ρ → α → β × ρ} {legal meets : ρ → α → Prop}
    (good : ρ → α → Prop) (hagree : ∀ {r a}, Inv r → legal r a → (good r a ↔ meets r a))
    (hkeep : ∀ {r a}, Inv r → legal r a → meets r a → Inv (ref r a).2) (as : List α) :
    ∀ {r}, Inv r → Along ref legal r as → (Along ref good r as ↔ Along ref meets r as) := by
  induction as with
  | nil => exact fun _ _ => Iff.rfl
  | cons a as ih =>
      intro r hr hl
      rw [Along, Along, hagree hr hl.1]
      exact and_congr_right fun hm => ih (hkeep hr hl.1 hm) hl.2

/-- A property holds of every state of a run when it holds of the first, and
behind every step. -/
theorem forall_states_iff {next : ρ → α → ρ} {P : ρ → Prop} (as : List α) :
    ∀ {r}, (∀ s ∈ states next r as, P s) ↔
      P r ∧ Along (silent next) (fun r a => P (next r a)) r as := by
  induction as with
  | nil =>
      intro r
      rw [states, List.forall_mem_singleton, Along, and_true]
  | cons a as ih =>
      intro r
      rw [states, List.forall_mem_cons, ih, Along]
      rfl

/-- One step agrees with the reference when `meets` holds, and only then. -/
structure Exact (Sim : σ → ρ → Prop) (impl : σ → α → Except ε (β × σ)) (ref : ρ → α → β × ρ)
    (legal meets : ρ → α → Prop) : Prop where
  agree : ∀ {s r a}, Sim s r → legal r a → meets r a →
    ∃ s', impl s a = .ok ((ref r a).1, s') ∧ Sim s' (ref r a).2
  differ : ∀ {s r a}, Sim s r → legal r a → ¬ meets r a → ∀ s', impl s a ≠ .ok ((ref r a).1, s')

/-- A run agrees with the reference exactly when every step of the reference
run meets the condition. -/
theorem Exact.run_iff_along {Sim : σ → ρ → Prop} {impl : σ → α → Except ε (β × σ)}
    {ref : ρ → α → β × ρ} {legal meets : ρ → α → Prop} (h : Exact Sim impl ref legal meets)
    (as : List α) :
    ∀ {s : σ} {r : ρ}, Sim s r → Along ref legal r as →
      (run impl s as = .ok (refRun ref r as) ↔ Along ref meets r as) := by
  induction as with
  | nil => intro s r _ _; simp [run, refRun, Along]
  | cons a as ih =>
      intro s r hs hl
      by_cases hm : meets r a
      · obtain ⟨s', hstep, hs'⟩ := h.agree hs hl.1 hm
        have ih' := ih hs' hl.2
        simp only [run, refRun, Along, hstep, hm, true_and, ← ih']
        cases hrun : run impl s' as with
        | error e => simp [bind, Except.bind, hrun]
        | ok bs => simp [bind, Except.bind, hrun]
      · have hd := h.differ hs hl.1 hm
        simp only [run, refRun, Along, hm, false_and, iff_false]
        cases hstep : impl s a with
        | error e => simp [bind, Except.bind]
        | ok p =>
            obtain ⟨b, s'⟩ := p
            have hne : b ≠ (ref r a).1 := fun he => hd s' (he ▸ hstep)
            cases hrun : run impl s' as with
            | error e => simp [bind, Except.bind, hrun]
            | ok bs => simp [bind, Except.bind, hrun, hne]

end Conformance
