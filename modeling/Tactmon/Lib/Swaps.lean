import Tactmon.Lib.Bytes

/-!
# Byte swaps, element by element

What a byte swap of an array of integers leaves at each element, and as a
whole.  `groupsReverse w k` swaps `k` elements of `w` bytes.  The first two
lemmas look at it through windows, the others at an array given as the list of
its elements.
-/

namespace Binary

/-! ## Through windows -/

@[simp] theorem groupsReverse_length (w k : Nat) (bs : Bytes) :
    (groupsReverse w k bs).length = bs.length := by
  induction k generalizing bs with
  | zero => rfl
  | succ k ih =>
      rw [groupsReverse, List.length_append, List.length_reverse, ih, ← List.length_append,
        List.take_append_drop]

theorem length_reverse_take {w : Nat} {bs : Bytes} (h : w ≤ bs.length) :
    (bs.take w).reverse.length = w := by
  rw [List.length_reverse, List.length_take, Nat.min_eq_left h]

/-- A swap reverses each of the elements it covers. -/
theorem window_groupsReverse {w k i : Nat} (hi : i < k) :
    ∀ {bs : Bytes}, k * w ≤ bs.length →
      window (groupsReverse w k bs) (i * w) w = (window bs (i * w) w).reverse := by
  induction k generalizing i with
  | zero => exact absurd hi (Nat.not_lt_zero i)
  | succ k ih =>
      intro bs hbs
      rw [Nat.succ_mul] at hbs
      have hfirst : (bs.take w).reverse.length = w := length_reverse_take (by omega)
      rw [groupsReverse]
      cases i with
      | zero =>
          rw [Nat.zero_mul, window, window, List.drop_zero, List.drop_zero,
            List.take_left' hfirst]
      | succ i =>
          have hrest : k * w ≤ (bs.drop w).length := by
            rw [List.length_drop]
            omega
          have hrow := ih (Nat.lt_of_succ_lt_succ hi) hrest
          rw [window, window, List.drop_drop] at hrow
          rw [window, window, Nat.succ_mul, Nat.add_comm, ← List.drop_drop,
            List.drop_left' hfirst, hrow]

/-- Swapping twice restores the array. -/
theorem groupsReverse_groupsReverse {w k : Nat} :
    ∀ {bs : Bytes}, k * w ≤ bs.length → groupsReverse w k (groupsReverse w k bs) = bs := by
  induction k with
  | zero => exact fun _ => rfl
  | succ k ih =>
      intro bs hbs
      rw [Nat.succ_mul] at hbs
      have hfirst : (bs.take w).reverse.length = w := length_reverse_take (by omega)
      have hrest : k * w ≤ (bs.drop w).length := by
        rw [List.length_drop]
        omega
      rw [groupsReverse, groupsReverse, List.take_left' hfirst, List.drop_left' hfirst, ih hrest,
        List.reverse_reverse, List.take_append_drop]

/-! ## On a list of elements -/

theorem groupsReverse_flatten {w : Nat} (rest : Bytes) {xs : List Bytes}
    (h : ∀ x ∈ xs, x.length = w) :
    groupsReverse w xs.length (xs.flatten ++ rest) = (xs.map List.reverse).flatten ++ rest := by
  induction xs with
  | nil => rfl
  | cons x xs ih =>
      have hx : x.length = w := h x List.mem_cons_self
      rw [List.length_cons, groupsReverse, List.flatten_cons, List.append_assoc,
        List.take_left' hx, List.drop_left' hx, ih fun y hy => h y (List.mem_cons_of_mem _ hy),
        List.map_cons, List.flatten_cons, List.append_assoc]

/-- As many rows of one width are the same as their bytes are. -/
theorem flatten_inj_of_width {w : Nat} {xs ys : List Bytes} (hx : ∀ x ∈ xs, x.length = w)
    (hy : ∀ y ∈ ys, y.length = w) (hlen : xs.length = ys.length)
    (h : xs.flatten = ys.flatten) : xs = ys := by
  refine List.ext_getElem hlen fun i hi hi' => ?_
  rw [← window_flatten_of_width hx hi, ← window_flatten_of_width hy hi', h]

theorem reverse_width {w : Nat} {xs : List Bytes} (h : ∀ x ∈ xs, x.length = w) :
    ∀ x ∈ xs.map List.reverse, x.length = w := by
  rw [List.forall_mem_map]
  intro x hx
  rw [List.length_reverse, h x hx]

/-- Rows turned round together are each turned round when their order is the same
from both sides, and only then. -/
theorem reverse_flatten_eq_iff {w : Nat} {xs : List Bytes} (h : ∀ x ∈ xs, x.length = w) :
    xs.flatten.reverse = (xs.map List.reverse).flatten ↔ xs.reverse = xs := by
  rw [List.reverse_flatten]
  constructor
  · intro heq
    have hback : ∀ x ∈ (xs.map List.reverse).reverse, x.length = w :=
      fun x hx => reverse_width h x (List.mem_reverse.mp hx)
    have hrows := flatten_inj_of_width hback (reverse_width h) List.length_reverse heq
    rw [← List.map_reverse] at hrows
    exact (List.map_inj_right fun _ _ => List.reverse_inj.mp).mp hrows
  · intro heq
    rw [← List.map_reverse, heq]

/-- A swap of `k` groups of `g` elements each is the swap of the elements when
every group reads the same from both sides, and only then. -/
theorem groupsReverse_mul_eq_iff {w g k : Nat} {xs : List Bytes} (hxs : ∀ x ∈ xs, x.length = w)
    (hlen : xs.length = k * g) :
    groupsReverse (g * w) k xs.flatten = (xs.map List.reverse).flatten ↔
      ∀ i < k, ((xs.drop (i * g)).take g).reverse = (xs.drop (i * g)).take g := by
  induction k generalizing xs with
  | zero =>
      rw [Nat.zero_mul] at hlen
      rw [List.length_eq_zero_iff.mp hlen]
      simp
  | succ k ih =>
      rw [Nat.succ_mul] at hlen
      have hfirst : ∀ x ∈ xs.take g, x.length = w := fun x hx => hxs x (List.mem_of_mem_take hx)
      have hrest : ∀ x ∈ xs.drop g, x.length = w := fun x hx => hxs x (List.mem_of_mem_drop hx)
      have hg : (xs.take g).length = g := by
        rw [List.length_take]
        omega
      have hwidth : (xs.take g).flatten.length = g * w := by
        rw [length_flatten_of_width hfirst, hg]
      have hsplit : xs.flatten = (xs.take g).flatten ++ (xs.drop g).flatten := by
        rw [← List.flatten_append, List.take_append_drop]
      have hmap : (xs.map List.reverse).flatten =
          ((xs.take g).map List.reverse).flatten ++ ((xs.drop g).map List.reverse).flatten := by
        rw [← List.flatten_append, ← List.map_append, List.take_append_drop]
      have hswapped : ((xs.take g).map List.reverse).flatten.length = g * w := by
        rw [length_flatten_of_width (reverse_width hfirst), List.length_map, hg]
      -- the first group stands alone, the others are those of the rest
      have hparts : groupsReverse (g * w) (k + 1) xs.flatten = (xs.map List.reverse).flatten ↔
          (xs.take g).flatten.reverse = ((xs.take g).map List.reverse).flatten ∧
            groupsReverse (g * w) k (xs.drop g).flatten =
              ((xs.drop g).map List.reverse).flatten := by
        rw [groupsReverse, hsplit, List.take_left' hwidth, List.drop_left' hwidth, hmap]
        have hlen : (xs.take g).flatten.reverse.length =
            ((xs.take g).map List.reverse).flatten.length := by
          rw [List.length_reverse, hwidth, hswapped]
        exact ⟨fun h => List.append_inj h hlen, fun h => by rw [h.1, h.2]⟩
      rw [hparts, reverse_flatten_eq_iff hfirst, ih hrest (by rw [List.length_drop]; omega)]
      constructor
      · rintro ⟨h0, hk⟩ i hi
        cases i with
        | zero => simpa using h0
        | succ i =>
            have := hk i (Nat.lt_of_succ_lt_succ hi)
            rwa [List.drop_drop, Nat.add_comm, ← Nat.succ_mul] at this
      · intro h
        refine ⟨by simpa using h 0 (Nat.succ_pos k), fun i hi => ?_⟩
        have := h (i + 1) (Nat.succ_lt_succ hi)
        rwa [List.drop_drop, Nat.add_comm, ← Nat.succ_mul]

end Binary
