import Mathlib.Order.Lattice
import Mathlib.Data.List.Basic

/-!
# Maps as sorted lists

A map whose entries are a list sorted by key.  The order is a field, so no key
occurs twice.

`emplace` leaves an entry alone that is there already.  `emplaceAll` fills a
map from rows that carry their own key, and finds under a key the first row
that has it (`find_emplaceAll`).
-/

/-- A map with its entries sorted by key. -/
structure FlatMap (K V : Type) [LinearOrder K] where
  entries : List (K × V)
  sorted : entries.Pairwise fun a b => a.1 < b.1

namespace FlatMap

variable {K V : Type} [LinearOrder K]

/-- The map without entries. -/
def empty : FlatMap K V := ⟨[], .nil⟩

/-- Find in a list of entries. -/
def findEntry (k : K) : List (K × V) → Option V
  | [] => none
  | e :: entries => if e.1 = k then some e.2 else findEntry k entries

/-- The value under a key. -/
def find (m : FlatMap K V) (k : K) : Option V := findEntry k m.entries

/-- Put an entry where it belongs, unless its key is there. -/
def emplaceEntry (k : K) (v : V) : List (K × V) → List (K × V)
  | [] => [(k, v)]
  | e :: entries =>
      if k < e.1 then (k, v) :: e :: entries
      else if k = e.1 then e :: entries
      else e :: emplaceEntry k v entries

theorem mem_emplaceEntry {k : K} {v : V} {entries : List (K × V)} {e : K × V}
    (h : e ∈ emplaceEntry k v entries) : e = (k, v) ∨ e ∈ entries := by
  induction entries with
  | nil => exact .inl (List.mem_singleton.mp h)
  | cons first entries ih =>
      rw [emplaceEntry] at h
      split at h
      · exact List.mem_cons.mp h
      · split at h
        · exact .inr h
        · rcases List.mem_cons.mp h with rfl | h
          · exact .inr List.mem_cons_self
          · exact (ih h).imp_right (List.mem_cons_of_mem _)

theorem emplaceEntry_sorted (k : K) (v : V) {entries : List (K × V)}
    (h : entries.Pairwise fun a b => a.1 < b.1) :
    (emplaceEntry k v entries).Pairwise fun a b => a.1 < b.1 := by
  induction entries with
  | nil => exact List.pairwise_singleton _ _
  | cons e entries ih =>
      obtain ⟨hfirst, hrest⟩ := List.pairwise_cons.mp h
      rw [emplaceEntry]
      split
      · rename_i hlt
        refine List.pairwise_cons.mpr ⟨fun x hx => ?_, h⟩
        rcases List.mem_cons.mp hx with rfl | hx
        · exact hlt
        · exact lt_trans hlt (hfirst x hx)
      · split
        · exact h
        · rename_i hlt hne
          refine List.pairwise_cons.mpr ⟨fun x hx => ?_, ih hrest⟩
          rcases mem_emplaceEntry hx with rfl | hx
          · exact lt_of_le_of_ne (not_lt.mp hlt) (Ne.symm hne)
          · exact hfirst x hx

/-- Put an entry into a map, unless its key is there. -/
def emplace (m : FlatMap K V) (k : K) (v : V) : FlatMap K V :=
  ⟨emplaceEntry k v m.entries, emplaceEntry_sorted k v m.sorted⟩

/-- A key in front of all others is not found. -/
theorem findEntry_eq_none_of_lt {k : K} {entries : List (K × V)}
    (h : ∀ e ∈ entries, k < e.1) : findEntry k entries = none := by
  induction entries with
  | nil => rfl
  | cons e entries ih =>
      obtain ⟨hfirst, hrest⟩ := List.forall_mem_cons.mp h
      rw [findEntry, if_neg (ne_of_gt hfirst), ih hrest]

theorem findEntry_emplaceEntry (k x : K) (v : V) {entries : List (K × V)}
    (h : entries.Pairwise fun a b => a.1 < b.1) :
    findEntry x (emplaceEntry k v entries) =
      if k = x then (findEntry x entries).or (some v) else findEntry x entries := by
  induction entries with
  | nil =>
      rw [emplaceEntry, findEntry, findEntry]
      rfl
  | cons e entries ih =>
      obtain ⟨hfirst, hrest⟩ := List.pairwise_cons.mp h
      rw [emplaceEntry]
      split
      · rename_i hlt
        rw [findEntry]
        split
        · rename_i hk
          subst hk
          have hnone : findEntry k (e :: entries) = none := by
            refine findEntry_eq_none_of_lt (List.forall_mem_cons.mpr ⟨hlt, fun x hx => ?_⟩)
            exact lt_trans hlt (hfirst x hx)
          rw [hnone]
          rfl
        · rfl
      · split
        · rename_i hk
          split
          · rename_i hkx
            rw [findEntry, if_pos (hk.symm.trans hkx)]
            rfl
          · rfl
        · rename_i hk
          rw [findEntry, findEntry, ih hrest]
          split
          · rename_i hex
            rw [if_neg (fun hkx => hk (hkx.trans hex.symm))]
          · rfl

theorem find_emplace (m : FlatMap K V) (k x : K) (v : V) :
    (m.emplace k v).find x = if k = x then (m.find x).or (some v) else m.find x :=
  findEntry_emplaceEntry k x v m.sorted

@[simp] theorem find_empty (k : K) : (empty : FlatMap K V).find k = none := rfl

/-- Fill a map from rows, each under its own key. -/
def emplaceAll (key : V → K) (m : FlatMap K V) (rows : List V) : FlatMap K V :=
  rows.foldl (fun m row => m.emplace (key row) row) m

/-- Under a key one finds what was there, or else the first row that has it. -/
theorem find_emplaceAll (key : V → K) (rows : List V) :
    ∀ (m : FlatMap K V) (k : K),
      (m.emplaceAll key rows).find k = (m.find k).or (rows.find? fun row => key row = k) := by
  induction rows with
  | nil => exact fun m k => (Option.or_none).symm
  | cons row rows ih =>
      intro m k
      have hstep : m.emplaceAll key (row :: rows) =
          (m.emplace (key row) row).emplaceAll key rows := rfl
      rw [hstep, ih, find_emplace, List.find?_cons]
      split
      · rename_i hk
        rw [decide_eq_true hk, Option.or_assoc]
        rfl
      · rename_i hk
        rw [decide_eq_false hk]

theorem emplaceEntry_perm {k : K} (v : V) {entries : List (K × V)}
    (h : ∀ e ∈ entries, e.1 ≠ k) : (emplaceEntry k v entries).Perm ((k, v) :: entries) := by
  induction entries with
  | nil => exact .refl _
  | cons e entries ih =>
      obtain ⟨hfirst, hrest⟩ := List.forall_mem_cons.mp h
      rw [emplaceEntry]
      split
      · exact .refl _
      · rw [if_neg (Ne.symm hfirst)]
        exact ((ih hrest).cons e).trans (.swap _ _ _)

/-- Rows with distinct keys are all there. -/
theorem entries_emplaceAll_perm (key : V → K) {rows : List V} (hnodup : (rows.map key).Nodup) :
    ∀ {m : FlatMap K V}, (∀ e ∈ m.entries, e.1 ∉ rows.map key) →
      (m.emplaceAll key rows).entries.Perm
        (m.entries ++ rows.map fun row => (key row, row)) := by
  induction rows with
  | nil =>
      intro m _
      rw [List.map_nil, List.append_nil]
      exact .refl _
  | cons row rows ih =>
      intro m hfresh
      rw [List.map_cons, List.nodup_cons] at hnodup
      have hrow : ∀ e ∈ m.entries, e.1 ≠ key row := fun e he heq =>
        hfresh e he (heq ▸ List.mem_cons_self)
      have hfirst := emplaceEntry_perm row hrow
      have hrest : ∀ e ∈ (m.emplace (key row) row).entries, e.1 ∉ rows.map key := by
        intro e he hmem
        obtain rfl | he := mem_emplaceEntry he
        · exact hnodup.1 hmem
        · exact hfresh e he (List.mem_cons_of_mem _ hmem)
      exact (ih hnodup.2 hrest).trans ((hfirst.append_right _).trans List.perm_middle.symm)

end FlatMap
