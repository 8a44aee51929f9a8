import Mathlib.Data.List.Basic

/-!
# Computations that keep a log

A state with a log, and computations that only add to it.  `Grew` relates the
states before and behind a computation: the entries that are new are all safe
exactly when the computation ended well.  The relation composes along the
steps of a computation, so what ends a long one is found by looking at each
step alone.
-/

namespace Trace

variable {σ U : Type} {log : σ → List U} {safe : U → Prop} {s s₁ s₂ : σ} {ok ok' : Prop}

/-- The log has grown, by entries that are all safe exactly when `ok`. -/
def Grew (log : σ → List U) (safe : U → Prop) (s s₁ : σ) (ok : Prop) : Prop :=
  ∃ new, log s₁ = log s ++ new ∧ (ok ↔ ∀ u ∈ new, safe u)

namespace Grew

/-- Nothing noted, nothing wrong. -/
theorem of_eq (h : log s₁ = log s) (hok : ok) : Grew log safe s s₁ ok :=
  ⟨[], by rw [h, List.append_nil], iff_of_true hok fun _ hu => absurd hu List.not_mem_nil⟩

/-- One entry that is safe exactly when all is well. -/
theorem of_note {u : U} (h : log s₁ = log s ++ [u]) (hok : ok ↔ safe u) :
    Grew log safe s s₁ ok :=
  ⟨[u], h, by rw [hok, List.forall_mem_singleton]⟩

theorem congr (h : Grew log safe s s₁ ok) (hok : ok ↔ ok') : Grew log safe s s₁ ok' := by
  obtain ⟨new, hlog, hnew⟩ := h
  exact ⟨new, hlog, hok.symm.trans hnew⟩

/-- One computation behind another. -/
theorem trans (h : Grew log safe s s₁ ok) (h' : Grew log safe s₁ s₂ ok') :
    Grew log safe s s₂ (ok ∧ ok') := by
  obtain ⟨new, hlog, hnew⟩ := h
  obtain ⟨new', hlog', hnew'⟩ := h'
  exact ⟨new ++ new', by rw [hlog', hlog, List.append_assoc],
    by rw [hnew, hnew', List.forall_mem_append]⟩

/-- One computation behind another that ended well. -/
theorem and_then (h : Grew log safe s s₁ True) (h' : Grew log safe s₁ s₂ ok) :
    Grew log safe s s₂ ok :=
  (h.trans h').congr (Iff.of_eq (true_and ok))

/-- Behind a log that is safe, all is well exactly when the whole log is safe. -/
theorem iff_all (h : Grew log safe s s₁ ok) (hs : ∀ u ∈ log s, safe u) :
    ok ↔ ∀ u ∈ log s₁, safe u := by
  obtain ⟨new, hlog, hnew⟩ := h
  rw [hlog, hnew, List.forall_mem_append, and_iff_right hs]

end Grew

end Trace
