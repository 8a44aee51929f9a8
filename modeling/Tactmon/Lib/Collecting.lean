import Mathlib.Data.List.Nodup

/-!
# Loops that collect up to a limit

A loop over a list that skips some elements, adds the others to what it collects,
and leaves with a `break` as soon as it has enough.  `collect` counts what it
added.  `collectNew` adds every key once, and tests an element in two places,
before and after it looks the key up.

Both add the first elements of what the loop without a limit would add, in order.
How an element is added is up to `add`.
-/

namespace Tactmon

namespace Collecting

universe u v w

variable {α : Type u} {β : Type v} {γ : Type w}

/-! ## With a counter -/

/-- The loop, with `count` elements added so far. -/
def collect (keep : α → Bool) (add : γ → α → γ) (limit : Nat) : Nat → γ → List α → γ
  | _, collected, [] => collected
  | count, collected, entry :: entries =>
      if keep entry then
        if limit ≤ count + 1 then add collected entry
        else collect keep add limit (count + 1) (add collected entry) entries
      else collect keep add limit count collected entries

theorem collect_eq (keep : α → Bool) (add : γ → α → γ) {limit : Nat} (entries : List α) :
    ∀ {count : Nat} (collected : γ), count < limit →
      collect keep add limit count collected entries =
        ((entries.filter keep).take (limit - count)).foldl add collected := by
  induction entries with
  | nil =>
      intro count collected _
      simp [collect]
  | cons entry entries ih =>
      intro count collected hcount
      obtain ⟨room, hroom⟩ : ∃ room, limit - count = room + 1 := ⟨limit - count - 1, by omega⟩
      cases hkeep : keep entry with
      | false =>
          rw [collect, hkeep, if_neg Bool.false_ne_true, ih collected hcount,
            List.filter_cons_of_neg (by simp [hkeep])]
      | true =>
          rw [collect, hkeep, if_pos rfl, List.filter_cons_of_pos hkeep, hroom,
            List.take_succ_cons, List.foldl_cons]
          by_cases hlast : limit ≤ count + 1
          · rw [if_pos hlast, show room = 0 by omega, List.take_zero, List.foldl_nil]
          · rw [if_neg hlast, ih _ (by omega), show limit - (count + 1) = room by omega]

/-! ## With the keys that were seen -/

/-- The loop, with the keys in `seen` added so far. -/
def collectNew [BEq β] (before after : α → Bool) (key : α → β) (add : γ → β → γ) (limit : Nat) :
    List β → γ → List α → γ
  | _, collected, [] => collected
  | seen, collected, entry :: entries =>
      if !before entry then collectNew before after key add limit seen collected entries
      else if seen.contains (key entry) then
        collectNew before after key add limit seen collected entries
      else if !after entry then collectNew before after key add limit seen collected entries
      else if limit ≤ (key entry :: seen).length then add collected (key entry)
      else
        collectNew before after key add limit (key entry :: seen) (add collected (key entry))
          entries

/-- The keys that a loop without a limit adds to `seen`. -/
def fresh [BEq β] (seen keys : List β) : List β :=
  (keys.filter fun key => !seen.contains key).eraseDups

theorem fresh_cons_of_mem [BEq β] [LawfulBEq β] {seen keys : List β} {key : β} (h : key ∈ seen) :
    fresh seen (key :: keys) = fresh seen keys := by
  rw [fresh, List.filter_cons_of_neg (by simp [h]), fresh]

theorem fresh_cons_of_not_mem [BEq β] [LawfulBEq β] {seen keys : List β} {key : β}
    (h : key ∉ seen) :
    fresh seen (key :: keys) = key :: fresh (key :: seen) keys := by
  rw [fresh, List.filter_cons_of_pos (by simp [h]), List.eraseDups_cons, fresh,
    List.filter_filter]
  refine congrArg (fun kept => key :: List.eraseDups kept) (List.filter_congr ?_)
  intro other _
  by_cases hother : other = key <;> simp [hother]

theorem fresh_nil [BEq β] (keys : List β) : fresh [] keys = keys.eraseDups := by
  rw [fresh, List.filter_eq_self.mpr (by simp)]

theorem collectNew_eq [BEq β] [LawfulBEq β] (before after : α → Bool) (key : α → β)
    (add : γ → β → γ) {limit : Nat} (entries : List α) :
    ∀ {seen : List β} (collected : γ), seen.length < limit →
      collectNew before after key add limit seen collected entries =
        ((fresh seen ((entries.filter fun entry => before entry && after entry).map key)).take
          (limit - seen.length)).foldl add collected := by
  induction entries with
  | nil =>
      intro seen collected _
      simp [collectNew, fresh]
  | cons entry entries ih =>
      intro seen collected hseen
      rw [collectNew]
      cases hbefore : before entry with
      | false =>
          rw [if_pos (show (!false) = true from rfl), ih collected hseen,
            List.filter_cons_of_neg (by simp [hbefore])]
      | true =>
          rw [if_neg (by decide)]
          by_cases hmem : key entry ∈ seen
          · rw [if_pos (List.contains_iff_mem.mpr hmem), ih collected hseen]
            cases hafter : after entry with
            | false => rw [List.filter_cons_of_neg (by simp [hafter])]
            | true =>
                rw [List.filter_cons_of_pos (by simp [hbefore, hafter]), List.map_cons,
                  fresh_cons_of_mem hmem]
          · rw [if_neg (mt List.contains_iff_mem.mp hmem)]
            cases hafter : after entry with
            | false =>
                rw [if_pos (show (!false) = true from rfl), ih collected hseen,
                  List.filter_cons_of_neg (by simp [hafter])]
            | true =>
                obtain ⟨room, hroom⟩ : ∃ room, limit - seen.length = room + 1 :=
                  ⟨limit - seen.length - 1, by omega⟩
                rw [if_neg (by decide), List.filter_cons_of_pos (by simp [hbefore, hafter]),
                  List.map_cons, fresh_cons_of_not_mem hmem, hroom, List.take_succ_cons,
                  List.foldl_cons, List.length_cons]
                by_cases hlast : limit ≤ seen.length + 1
                · rw [if_pos hlast, show room = 0 by omega, List.take_zero, List.foldl_nil]
                · rw [if_neg hlast, ih _ (by rw [List.length_cons]; omega), List.length_cons,
                    show limit - (seen.length + 1) = room by omega]

end Collecting

end Tactmon
