import Mathlib.Order.Nat
import Tactmon.Lib.Conformance
import Tactmon.Lib.FlatMap

/-!
# Cached tables

`repository_base` of `backend/db/repository/Repository.hpp`, in its caching
form, over `PreparedStatementBase::Execute`.  An entity carries its primary
key, which is a column of it.

The statement turns an exception into an empty result, and `LoadFromDB_` fills
the cache from whatever result it has.  An exception that is thrown in front of
the statement, where a connection is opened, goes through both and leaves the
cache as it was.

`Repository.Mirrors` is what a cache is for: it holds the rows of the last load
that succeeded.  `keeps_iff` says when a refresh keeps that.
-/

namespace Tactmon

namespace Backend

open Conformance

/-! ## Statements -/

/-- How a statement goes. -/
inductive Statement (E : Type) where
  /-- It was committed with these rows. -/
  | committed (rows : List E)
  /-- An exception inside of `Execute`: in the query, at the commit, or in the
  conversion of a row. -/
  | failed
  /-- An exception in front of it, where the connection is opened. -/
  | threw

/-- `PreparedStatementBase::Execute`, which may throw. -/
def Statement.execute {E : Type} : Statement E → Option (List E)
  | .committed rows => some rows
  | .failed => some []
  | .threw => none

/-! ## The cache -/

/-- `repository_base`, and the rows of the last load that succeeded. -/
structure Repository (K E : Type) [LinearOrder K] where
  storage : FlatMap K E
  /-- What the cache should hold.  The code does not keep it. -/
  lastLoaded : List E

/-- A call of `Refresh_`: whether its wait was aborted, and how the load
statement goes. -/
structure Refresh (E : Type) where
  aborted : Bool
  load : Statement E

/-- The load statement was executed, and failed. -/
def Refresh.LoadFailed {E : Type} (r : Refresh E) : Prop := r.aborted = false ∧ r.load = .failed

namespace Repository

variable {K E : Type} [LinearOrder K]

/-- A repository in front of its first refresh. -/
def initial : Repository K E := ⟨.empty, []⟩

/-- `Get`. -/
def get (s : Repository K E) (id : K) : Option E := s.storage.find id

/-- `Any`. -/
def any (s : Repository K E) (callback : E → Bool) : Bool :=
  s.storage.entries.any fun (_, v) => callback v

section Refresh

variable (pk : E → K)

/-- `LoadFromDB_`. -/
def loadFromDB (s : Repository K E) (load : Statement E) : Repository K E :=
  match load.execute with
  | none => s
  | some storage => { s with storage := FlatMap.emplaceAll pk .empty storage }

/-- The rows of the load, if it succeeded. -/
def noteLoad (s : Repository K E) : Statement E → Repository K E
  | .committed rows => { s with lastLoaded := rows }
  | _ => s

/-- `Refresh_`. -/
def refresh (s : Repository K E) (r : Refresh E) : Repository K E :=
  if r.aborted then s else (s.loadFromDB pk r.load).noteLoad r.load

/-! ## What a cache is for -/

/-- The cache holds the rows of the last successful load under their keys. -/
def Mirrors (s : Repository K E) : Prop :=
  ∀ id, s.get id = s.lastLoaded.find? fun entity => pk entity = id

/-- After the refresh the cache holds the rows of the last successful load, and
a load that did not succeed left it alone. -/
def Keeps (s : Repository K E) (r : Refresh E) : Prop :=
  (s.refresh pk r).Mirrors pk ∧
    ((∀ rows, r.load ≠ .committed rows) → (s.refresh pk r).storage = s.storage)

/-- The load statement fails only while nothing is cached. -/
def Meets (s : Repository K E) (r : Refresh E) : Prop := r.LoadFailed → s.storage = .empty

variable {pk}

theorem initial_mirrors : (initial : Repository K E).Mirrors pk := fun _ => rfl

theorem mirrors_of_committed (s : Repository K E) (rows : List E) :
    ((s.loadFromDB pk (.committed rows)).noteLoad (.committed rows)).Mirrors pk := by
  intro id
  have hfind := FlatMap.find_emplaceAll pk rows .empty id
  rw [FlatMap.find_empty, Option.none_or] at hfind
  exact hfind

/-- A load that fails empties the cache. -/
theorem refresh_of_failed (s : Repository K E) {r : Refresh E} (h : r.LoadFailed) :
    s.refresh pk r = { s with storage := .empty } := by
  rw [refresh, h.1, if_neg Bool.false_ne_true, h.2]
  rfl

/-- With nothing cached, there is nothing that should be. -/
theorem find_none_of_empty {s : Repository K E} (h : s.Mirrors pk) (hempty : s.storage = .empty)
    (id : K) : (s.lastLoaded.find? fun entity => pk entity = id) = none := by
  rw [← h id, get, hempty, FlatMap.find_empty]

/-- A refresh keeps the cache exactly when it does not fail over cached rows. -/
theorem keeps_iff {s : Repository K E} (h : s.Mirrors pk) (r : Refresh E) :
    s.Keeps pk r ↔ Meets s r := by
  by_cases hfailed : r.LoadFailed
  · rw [Keeps, refresh_of_failed s hfailed]
    constructor
    · rintro ⟨-, hkept⟩ -
      refine (hkept fun rows hrows => ?_).symm
      rw [hfailed.2] at hrows
      cases hrows
    · intro hmeets
      have hempty := hmeets hfailed
      exact ⟨fun id => (find_none_of_empty h hempty id).symm, fun _ => hempty.symm⟩
  · refine iff_of_true ?_ (fun hf => absurd hf hfailed)
    cases haborted : r.aborted with
    | true =>
        rw [Keeps, refresh, haborted, if_pos rfl]
        exact ⟨h, fun _ => rfl⟩
    | false =>
        rw [Keeps, refresh, haborted, if_neg Bool.false_ne_true]
        cases hload : r.load with
        | committed rows => exact ⟨mirrors_of_committed s rows, fun hne => absurd rfl (hne rows)⟩
        | failed => exact absurd ⟨haborted, hload⟩ hfailed
        | threw => exact ⟨h, fun _ => rfl⟩

end Refresh

/-! ## Runs -/

/-- Every refresh of a run keeps the cache exactly when no load statement of the
run fails while rows are cached. -/
theorem run_keeps_iff (pk : E → K) (refreshes : List (Refresh E)) :
    Along (silent (refresh pk)) (Keeps pk) (initial : Repository K E) refreshes ↔
      Along (silent (refresh pk)) Meets (initial : Repository K E) refreshes := by
  exact Along.iff_of_step (fun s => s.Mirrors pk) (Keeps pk) (fun hs _ => keeps_iff hs _)
    (fun hs _ hm => ((keeps_iff hs _).mpr hm).1) refreshes initial_mirrors
    (Along.of_forall (fun _ _ => trivial) initial refreshes)

/-- One row is loaded, and the next load fails: the row is gone. -/
theorem run_loses_row :
    ((initial : Repository Nat (Nat × Nat)).refresh Prod.fst ⟨false, .committed [(1, 7)]⟩).get 1 =
        some (1, 7) ∧
      ((((initial : Repository Nat (Nat × Nat)).refresh Prod.fst
        ⟨false, .committed [(1, 7)]⟩).refresh Prod.fst ⟨false, .failed⟩).get 1) = none ∧
      ¬ Along (silent (refresh Prod.fst)) (Keeps Prod.fst) (initial : Repository Nat (Nat × Nat))
        [⟨false, .committed [(1, 7)]⟩, ⟨false, .failed⟩] := by
  refine ⟨by decide, by decide, fun h => ?_⟩
  have hrow := h.2.1.1 1
  exact absurd hrow (by decide)

end Repository

end Backend

end Tactmon
