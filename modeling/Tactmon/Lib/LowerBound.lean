import Mathlib.Data.List.Basic
import Tactmon.Lib.Memory

/-!
# Binary search

`std::lower_bound`: the range is halved until it is empty.  Its precondition
is that the range is partitioned, with every element below the value in front
of every element that is not.  `lowerBound_eq` says that the search then ends
at the first element that is not below.
-/

namespace Cxx

variable {α : Type} {below : α → Bool} {xs : List α}

/-- The elements that are below come first. -/
def Partitioned (below : α → Bool) (xs : List α) : Prop :=
  xs.Pairwise fun a b => below b = true → below a = true

instance (below : α → Bool) (xs : List α) : Decidable (Partitioned below xs) :=
  inferInstanceAs (Decidable (xs.Pairwise fun a b => below b = true → below a = true))

/-- The halving loop on the `len` elements from `first` on. -/
def bisect (below : α → Bool) (xs : List α) : Nat → Nat → Nat → Nat
  | 0, first, _ => first
  | fuel + 1, first, len =>
      if len = 0 then first
      else if (xs[first + len / 2]?).any below then
        bisect below xs fuel (first + len / 2 + 1) (len - len / 2 - 1)
      else bisect below xs fuel first (len / 2)

/-- `std::lower_bound`, as an index. -/
def lowerBound (below : α → Bool) (xs : List α) : Exec Nat :=
  if Partitioned below xs then .ok (bisect below xs xs.length 0 xs.length)
  else .error .outOfBounds

/-- The index of the first element that is not below. -/
def splitIdx (below : α → Bool) (xs : List α) : Nat := xs.findIdx fun x => !below x

/-- In a partitioned list the elements in front of the split are below. -/
theorem Partitioned.below_iff (h : Partitioned below xs) {i : Nat} (hi : i < xs.length) :
    below xs[i] = true ↔ i < splitIdx below xs := by
  constructor
  · intro hbelow
    refine Nat.lt_of_not_le fun hle => ?_
    have hsplit : splitIdx below xs < xs.length := Nat.lt_of_le_of_lt hle hi
    have hnot : (!below xs[splitIdx below xs]) = true :=
      List.findIdx_getElem (p := fun x => !below x) (w := hsplit)
    have hbefore : below xs[splitIdx below xs] = true := by
      rcases Nat.lt_or_eq_of_le hle with hlt | heq
      · exact List.pairwise_iff_getElem.mp h _ _ hsplit hi hlt hbelow
      · simpa only [heq] using hbelow
    rw [hbefore] at hnot
    cases hnot
  · intro hlt
    simpa using List.not_of_lt_findIdx hlt

/-- The split stays inside the range the loop looks at. -/
theorem Partitioned.bisect_eq (h : Partitioned below xs) (fuel : Nat) :
    ∀ {first len : Nat}, first ≤ splitIdx below xs → splitIdx below xs ≤ first + len →
      first + len ≤ xs.length → len ≤ fuel →
      bisect below xs fuel first len = splitIdx below xs := by
  induction fuel with
  | zero =>
      intro first len hfirst hlast _ hfuel
      rw [bisect]
      omega
  | succ fuel ih =>
      intro first len hfirst hlast hlen hfuel
      rw [bisect]
      by_cases hempty : len = 0
      · rw [if_pos hempty]
        omega
      · have hmid : first + len / 2 < xs.length := by omega
        have hsplit := h.below_iff hmid
        rw [if_neg hempty, List.getElem?_eq_getElem hmid, Option.any_some]
        cases hbelow : below xs[first + len / 2] with
        | true =>
            have hlt := hsplit.mp hbelow
            rw [if_pos rfl]
            exact ih (by omega) (by omega) (by omega) (by omega)
        | false =>
            have hge : ¬ first + len / 2 < splitIdx below xs := fun hlt => by
              rw [hsplit.mpr hlt] at hbelow
              cases hbelow
            rw [if_neg Bool.false_ne_true]
            exact ih hfirst (by omega) (by omega) (by omega)

/-- On a partitioned list the search ends at the split. -/
theorem lowerBound_eq (h : Partitioned below xs) :
    lowerBound below xs = .ok (splitIdx below xs) := by
  rw [lowerBound, if_pos h]
  exact congrArg _ (h.bisect_eq _ (Nat.zero_le _) (by
    rw [Nat.zero_add]
    exact List.findIdx_le_length) (Nat.le_of_eq (Nat.zero_add _)) (Nat.le_refl _))

theorem lowerBound_error (h : ¬ Partitioned below xs) :
    lowerBound below xs = .error .outOfBounds := if_neg h

/-- The element at the split is the first that is not below. -/
theorem getElem?_splitIdx : xs[splitIdx below xs]? = xs.find? fun x => !below x :=
  List.find?_eq_getElem?_findIdx.symm

end Cxx
