import Mathlib.Data.List.Dedup
import Mathlib.Data.List.Perm.Basic

/-!
# Grouping rows by a key

Rows arrive one by one.  Each joins the first group whose leader is the same as
the row, or becomes the leader of a group of its own.

`Grouped` is what this comes to when two rows are the same exactly when they
have one key: there is one group for each key of the rows, and its members are
the values of the rows with that key, in order (`Grouped.perm`).
-/

namespace Grouping

/-- The row that opened a group, and the values of its rows. -/
structure Group (α V : Type) where
  leader : α
  members : List V

variable {α K V : Type}

/-- A row joins its group, or opens one. -/
def add (same : α → α → Bool) (row : α) (v : V) : List (Group α V) → List (Group α V)
  | [] => [⟨row, [v]⟩]
  | group :: groups =>
      if same group.leader row then { group with members := group.members ++ [v] } :: groups
      else group :: add same row v groups

/-- A value joins a group. -/
def join (same : α → α → Bool) (row : α) (v : V) (group : Group α V) : Group α V :=
  if same group.leader row then { group with members := group.members ++ [v] } else group

@[simp] theorem join_leader (same : α → α → Bool) (row : α) (v : V) (group : Group α V) :
    (join same row v group).leader = group.leader := by
  rw [join]
  split
  · rfl
  · rfl

theorem add_of_none {same : α → α → Bool} {row : α} {v : V} {groups : List (Group α V)}
    (h : ∀ group ∈ groups, same group.leader row = false) :
    add same row v groups = groups ++ [⟨row, [v]⟩] := by
  induction groups with
  | nil => rfl
  | cons group groups ih =>
      obtain ⟨hgroup, hgroups⟩ := List.forall_mem_cons.mp h
      rw [add, hgroup, if_neg Bool.false_ne_true, ih hgroups, List.cons_append]

/-- Where groups have different keys, a row joins the group of its key. -/
theorem add_of_mem {same : α → α → Bool} {key : α → K} {row : α} {v : V}
    {groups : List (Group α V)} (hnodup : (groups.map fun group => key group.leader).Nodup)
    (hsame : ∀ group ∈ groups, same group.leader row = true ↔ key group.leader = key row)
    (hmem : ∃ group ∈ groups, key group.leader = key row) :
    add same row v groups = groups.map (join same row v) := by
  induction groups with
  | nil =>
      obtain ⟨group, hgroup, -⟩ := hmem
      exact absurd hgroup List.not_mem_nil
  | cons group groups ih =>
      obtain ⟨hgroup, hgroups⟩ := List.forall_mem_cons.mp hsame
      obtain ⟨hfirst, hrest⟩ := List.nodup_cons.mp hnodup
      rw [add, List.map_cons, join]
      split
      · rename_i hjoin
        have hother : ∀ other ∈ groups, join same row v other = other := by
          intro other hother
          rw [join, if_neg]
          intro hsame'
          refine hfirst (List.mem_map.mpr ⟨other, hother, ?_⟩)
          exact ((hgroups other hother).mp hsame').trans (hgroup.mp hjoin).symm
        rw [List.map_congr_left hother, List.map_id']
      · rename_i hno
        rw [ih hrest hgroups]
        obtain ⟨other, hother, hkey⟩ := hmem
        rcases List.mem_cons.mp hother with rfl | hother
        · exact absurd (hgroup.mpr hkey) hno
        · exact ⟨other, hother, hkey⟩

variable [DecidableEq K]

/-- The rows with a key. -/
def withKey (key : α → K) (rows : List α) (k : K) : List α := rows.filter fun row => key row = k

theorem withKey_concat (key : α → K) (rows : List α) (row : α) (k : K) :
    withKey key (rows ++ [row]) k =
      withKey key rows k ++ if key row = k then [row] else [] := by
  simp only [withKey, List.filter_append, List.filter_singleton, Bool.cond_decide]

/-- The groups of the rows: one for each key, with the values of its rows. -/
structure Grouped (key : α → K) (value : α → V) (rows : List α) (groups : List (Group α V)) :
    Prop where
  nodup : (groups.map fun group => key group.leader).Nodup
  leader_mem : ∀ group ∈ groups, group.leader ∈ rows
  members_eq : ∀ group ∈ groups,
    group.members = (withKey key rows (key group.leader)).map value
  covers : ∀ row ∈ rows, ∃ group ∈ groups, key group.leader = key row

namespace Grouped

variable {key : α → K} {value : α → V} {rows : List α} {groups : List (Group α V)}

theorem nil : Grouped key value [] ([] : List (Group α V)) where
  nodup := .nil
  leader_mem := fun _ h => absurd h List.not_mem_nil
  members_eq := fun _ h => absurd h List.not_mem_nil
  covers := fun _ h => absurd h List.not_mem_nil

/-- There is a group as soon as there is a row. -/
theorem eq_nil_iff (h : Grouped key value rows groups) : groups = [] ↔ rows = [] := by
  constructor
  · rintro rfl
    refine List.eq_nil_iff_forall_not_mem.mpr fun row hrow => ?_
    obtain ⟨group, hgroup, -⟩ := h.covers row hrow
    exact absurd hgroup List.not_mem_nil
  · rintro rfl
    exact List.eq_nil_iff_forall_not_mem.mpr fun group hgroup =>
      absurd (h.leader_mem group hgroup) List.not_mem_nil

/-- Another row of a key that has a group. -/
theorem join (h : Grouped key value rows groups) {same : α → α → Bool} {row : α}
    (hsame : ∀ group ∈ groups, same group.leader row = true ↔ key group.leader = key row)
    (hmem : ∃ group ∈ groups, key group.leader = key row) :
    Grouped key value (rows ++ [row]) (groups.map (Grouping.join same row (value row))) where
  nodup := by simpa [List.map_map, Function.comp_def] using h.nodup
  leader_mem := by
    intro joined hjoined
    obtain ⟨group, hgroup, rfl⟩ := List.mem_map.mp hjoined
    rw [join_leader]
    exact List.mem_append_left _ (h.leader_mem group hgroup)
  members_eq := by
    intro joined hjoined
    obtain ⟨group, hgroup, rfl⟩ := List.mem_map.mp hjoined
    rw [join_leader, withKey_concat, List.map_append, ← h.members_eq group hgroup, Grouping.join]
    split
    · rename_i hjoin
      rw [if_pos ((hsame group hgroup).mp hjoin).symm, List.map_singleton]
    · rename_i hno
      rw [if_neg fun hkey => hno ((hsame group hgroup).mpr hkey.symm), List.map_nil,
        List.append_nil]
  covers := by
    have hjoined : ∀ group ∈ groups, ∃ group' ∈ groups.map (Grouping.join same row (value row)),
        key group'.leader = key group.leader := fun group hgroup =>
      ⟨_, List.mem_map_of_mem hgroup, by rw [join_leader]⟩
    intro r hr
    rcases List.mem_append.mp hr with hr | hr
    · obtain ⟨group, hgroup, hkey⟩ := h.covers r hr
      obtain ⟨group', hgroup', hkey'⟩ := hjoined group hgroup
      exact ⟨group', hgroup', hkey'.trans hkey⟩
    · obtain ⟨group, hgroup, hkey⟩ := hmem
      obtain ⟨group', hgroup', hkey'⟩ := hjoined group hgroup
      rw [List.mem_singleton.mp hr]
      exact ⟨group', hgroup', hkey'.trans hkey⟩

/-- The first row of a key. -/
theorem concat (h : Grouped key value rows groups) {row : α}
    (hne : ∀ group ∈ groups, key group.leader ≠ key row) :
    Grouped key value (rows ++ [row]) (groups ++ [⟨row, [value row]⟩]) where
  nodup := by
    rw [List.map_append, List.nodup_append]
    refine ⟨h.nodup, List.pairwise_singleton _ _, fun k hk k' hk' => ?_⟩
    obtain ⟨group, hgroup, rfl⟩ := List.mem_map.mp hk
    rw [List.map_singleton, List.mem_singleton] at hk'
    rw [hk']
    exact hne group hgroup
  leader_mem := by
    intro group hgroup
    rcases List.mem_append.mp hgroup with hgroup | hgroup
    · exact List.mem_append_left _ (h.leader_mem group hgroup)
    · rw [List.mem_singleton.mp hgroup]
      exact List.mem_append_right _ (List.mem_singleton.mpr rfl)
  members_eq := by
    intro group hgroup
    rw [withKey_concat, List.map_append]
    rcases List.mem_append.mp hgroup with hgroup | hgroup
    · rw [if_neg fun hkey => hne group hgroup hkey.symm, List.map_nil, List.append_nil]
      exact h.members_eq group hgroup
    · have hnone : withKey key rows (key row) = [] := by
        refine List.filter_eq_nil_iff.mpr fun r hr hkey => ?_
        obtain ⟨other, hother, hk⟩ := h.covers r hr
        exact hne other hother (hk.trans (of_decide_eq_true hkey))
      rw [List.mem_singleton.mp hgroup, hnone, if_pos rfl]
      rfl
  covers := by
    intro r hr
    rcases List.mem_append.mp hr with hr | hr
    · obtain ⟨group, hgroup, hkey⟩ := h.covers r hr
      exact ⟨group, List.mem_append_left _ hgroup, hkey⟩
    · rw [List.mem_singleton.mp hr]
      exact ⟨_, List.mem_append_right _ (List.mem_singleton.mpr rfl), rfl⟩

/-- Another row. -/
theorem add (h : Grouped key value rows groups) {same : α → α → Bool} {row : α}
    (hsame : ∀ group ∈ groups, same group.leader row = true ↔ key group.leader = key row) :
    Grouped key value (rows ++ [row]) (Grouping.add same row (value row) groups) := by
  by_cases hmem : ∃ group ∈ groups, key group.leader = key row
  · rw [add_of_mem h.nodup hsame hmem]
    exact h.join hsame hmem
  · have hne : ∀ group ∈ groups, key group.leader ≠ key row := fun group hgroup hkey =>
      hmem ⟨group, hgroup, hkey⟩
    rw [add_of_none fun group hgroup =>
      Bool.eq_false_iff.mpr fun hs => hne group hgroup ((hsame group hgroup).mp hs)]
    exact h.concat hne

/-- One group for each key, with the values of its rows. -/
theorem perm (h : Grouped key value rows groups) :
    (groups.map fun group => (key group.leader, group.members)).Perm
      ((rows.map key).dedup.map fun k => (k, (withKey key rows k).map value)) := by
  have hmembers : groups.map (fun group => (key group.leader, group.members)) =
      (groups.map fun group => key group.leader).map fun k =>
        (k, (withKey key rows k).map value) := by
    rw [List.map_map]
    exact List.map_congr_left fun group hgroup => by
      rw [Function.comp_apply, ← h.members_eq group hgroup]
  rw [hmembers]
  refine List.Perm.map _ ((List.perm_ext_iff_of_nodup h.nodup (List.nodup_dedup _)).mpr ?_)
  intro k
  rw [List.mem_dedup, List.mem_map, List.mem_map]
  constructor
  · rintro ⟨group, hgroup, rfl⟩
    exact ⟨group.leader, h.leader_mem group hgroup, rfl⟩
  · rintro ⟨row, hrow, rfl⟩
    exact h.covers row hrow

end Grouped

end Grouping
