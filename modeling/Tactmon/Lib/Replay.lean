import Mathlib.Data.Finset.Basic

/-!
# Replaying updates of a set

A log of updates, each of which puts one element into a set or takes it out,
replayed in order.  Whether an element is there behind a log depends on the
last update of it.

`mem_replay_middle` is about a log that another update goes into the middle of:
it counts only if nothing behind it is about the same element.
-/

namespace Replay

variable {α : Type}

/-- One element is put in, or taken out. -/
structure Update (α : Type) where
  element : α
  present : Bool

/-- An update of the log is about the element. -/
def Touches (log : List (Update α)) (a : α) : Prop := ∃ u ∈ log, u.element = a

theorem touches_cons {log : List (Update α)} {u : Update α} {a : α} :
    Touches (u :: log) a ↔ u.element = a ∨ Touches log a := by
  simp [Touches]

variable [DecidableEq α]

instance (log : List (Update α)) (a : α) : Decidable (Touches log a) :=
  inferInstanceAs (Decidable (∃ u ∈ log, u.element = a))

/-- The set behind an update. -/
def Update.apply (s : Finset α) (u : Update α) : Finset α :=
  if u.present then insert u.element s else s.erase u.element

/-- The set behind a log. -/
def replay (s : Finset α) (log : List (Update α)) : Finset α := log.foldl Update.apply s

theorem Update.mem_apply {s : Finset α} {u : Update α} {a : α} :
    a ∈ u.apply s ↔ if a = u.element then u.present = true else a ∈ s := by
  rw [Update.apply]
  by_cases ha : a = u.element <;> cases u.present <;> simp [ha]

/-- Elements that no update is about stay as they are. -/
theorem mem_replay_of_not_touches {log : List (Update α)} {a : α} (h : ¬ Touches log a)
    (s : Finset α) : a ∈ replay s log ↔ a ∈ s := by
  induction log generalizing s with
  | nil => rfl
  | cons u log ih =>
      rw [touches_cons, not_or] at h
      calc a ∈ replay s (u :: log) ↔ a ∈ u.apply s := ih h.2 (u.apply s)
        _ ↔ a ∈ s := by rw [Update.mem_apply, if_neg (Ne.symm h.1)]

/-- For an element that an update is about, the set in front does not matter. -/
theorem mem_replay_of_touches {log : List (Update α)} {a : α} (h : Touches log a)
    (s t : Finset α) : a ∈ replay s log ↔ a ∈ replay t log := by
  induction log generalizing s t with
  | nil =>
      obtain ⟨u, hu, -⟩ := h
      cases hu
  | cons u log ih =>
      by_cases hlog : Touches log a
      · exact ih hlog (u.apply s) (u.apply t)
      · have hu : u.element = a := (touches_cons.mp h).resolve_right hlog
        calc a ∈ replay s (u :: log) ↔ a ∈ u.apply s := mem_replay_of_not_touches hlog _
          _ ↔ a ∈ u.apply t := by rw [Update.mem_apply, Update.mem_apply, hu]; simp
          _ ↔ a ∈ replay t (u :: log) := (mem_replay_of_not_touches hlog _).symm

/-- An update in the middle of a log counts for its own element, unless it is
overtaken. -/
theorem mem_replay_middle (s : Finset α) (before : List (Update α)) (u : Update α)
    (after : List (Update α)) (a : α) :
    a ∈ replay s (before ++ u :: after) ↔
      if a = u.element ∧ ¬ Touches after a then u.present = true
      else a ∈ replay s (before ++ after) := by
  have hsplit : ∀ log, replay s (before ++ log) = replay (replay s before) log :=
    fun log => List.foldl_append
  have hcons : replay (replay s before) (u :: after) = replay (u.apply (replay s before)) after :=
    rfl
  rw [hsplit, hsplit, hcons]
  by_cases hafter : Touches after a
  · rw [if_neg fun h => h.2 hafter]
    exact mem_replay_of_touches hafter _ _
  · rw [mem_replay_of_not_touches hafter, mem_replay_of_not_touches hafter, Update.mem_apply]
    simp [hafter]

end Replay
