import Mathlib.Data.List.Infix

/-!
# Fields of a text

A text with delimiters in it, and the fields between them.  `front` says when a
text begins with a delimiter, and what is behind it.  `Splits` cuts a text at
the leftmost delimiter, and what is behind that again.

`loop` is how a program does it: a search finds the first delimiter, and the
loop goes on behind it for as long as something is left.  It has no turn for
an empty field at the end, so it drops that one (`trimmed`).  `loop_splits`
says so for any search that finds what it should.
-/

namespace Fields

variable {α : Type} {front : List α → Option (List α)}

/-- The text cut at its delimiters, from the left. -/
inductive Splits (front : List α → Option (List α)) : List α → List (List α) → Prop where
  | last {field : List α} :
      (∀ t, t <:+ field → front t = none) →
      Splits front field [field]
  | cut {field text rest : List α} {fields : List (List α)} :
      (∀ t, t <:+ field → t ≠ [] → front (t ++ text) = none) →
      front text = some rest →
      Splits front rest fields →
      Splits front (field ++ text) (field :: fields)

/-- Without the last field, if that is empty. -/
def trimmed (fields : List (List α)) : List (List α) :=
  match fields.getLast? with
  | some [] => fields.dropLast
  | _ => fields

/-- The loop over a text, in at most so many turns. -/
def loop (find : List α → Option (List α × List α)) (removeEmpty : Bool) :
    Nat → List α → List (List α)
  | _, [] => []
  | 0, _ => []
  | fuel + 1, input =>
      match find input with
      | none => [input]
      | some (elem, rest) =>
          if removeEmpty && elem.isEmpty then loop find removeEmpty fuel rest
          else elem :: loop find removeEmpty fuel rest

/-- A search for the first delimiter. -/
structure Finds (front : List α → Option (List α)) (find : List α → Option (List α × List α)) :
    Prop where
  absent : ∀ {input}, find input = none → ∀ t, t <:+ input → front t = none
  first : ∀ {input field rest}, find input = some (field, rest) →
    ∃ text, input = field ++ text ∧ (∀ t, t <:+ field → t ≠ [] → front (t ++ text) = none) ∧
      front text = some rest

/-- A delimiter takes something off the text. -/
def Shrinks (front : List α → Option (List α)) : Prop :=
  ∀ {text rest}, front text = some rest → rest.length < text.length

/-! ## One way to split -/

/-- There is one leftmost delimiter. -/
theorem front_unique {field field' text text' rest rest' : List α}
    (happ : field ++ text = field' ++ text')
    (hfield : ∀ t, t <:+ field → t ≠ [] → front (t ++ text) = none)
    (hfield' : ∀ t, t <:+ field' → t ≠ [] → front (t ++ text') = none)
    (hfront : front text = some rest) (hfront' : front text' = some rest') :
    field = field' ∧ text = text' := by
  rcases List.append_eq_append_iff.mp happ with ⟨between, rfl, rfl⟩ | ⟨between, rfl, rfl⟩
  · cases between with
    | nil => simp
    | cons c between =>
        have hnone := hfield' (c :: between) (List.suffix_append _ _) (List.cons_ne_nil _ _)
        rw [hnone] at hfront
        cases hfront
  · cases between with
    | nil => simp
    | cons c between =>
        have hnone := hfield (c :: between) (List.suffix_append _ _) (List.cons_ne_nil _ _)
        rw [hnone] at hfront'
        cases hfront'

theorem Splits.unique {input : List α} {fields fields' : List (List α)}
    (h : Splits front input fields) (h' : Splits front input fields') : fields = fields' := by
  induction h generalizing fields' with
  | last hlast =>
      cases h' with
      | last => rfl
      | cut _ hfront _ =>
          rw [hlast _ (List.suffix_append _ _)] at hfront
          cases hfront
  | @cut field text rest fields hfield hfront hrest ih =>
      generalize hinput : field ++ text = input at h'
      cases h' with
      | last hlast =>
          rw [hlast _ (hinput ▸ List.suffix_append _ _)] at hfront
          cases hfront
      | cut hfield' hfront' hrest' =>
          obtain ⟨rfl, rfl⟩ := front_unique hinput hfield hfield' hfront hfront'
          rw [hfront] at hfront'
          cases hfront'
          rw [ih hrest']

theorem Splits.ne_nil {input : List α} {fields : List (List α)} (h : Splits front input fields) :
    fields ≠ [] := by
  cases h <;> exact List.cons_ne_nil _ _

/-- Every text can be split. -/
theorem exists_splits {find : List α → Option (List α × List α)} (hfind : Finds front find)
    (hshrinks : Shrinks front) (input : List α) : ∃ fields, Splits front input fields := by
  induction hlen : input.length using Nat.strong_induction_on generalizing input with
  | _ n ih =>
      cases hfound : find input with
      | none => exact ⟨[input], .last (hfind.absent hfound)⟩
      | some found =>
          obtain ⟨field, rest⟩ := found
          obtain ⟨text, rfl, hfield, hfront⟩ := hfind.first hfound
          have hlt := hshrinks hfront
          have hrest : rest.length < n := by simp at hlen; omega
          obtain ⟨fields, hsplits⟩ := ih _ hrest rest rfl
          exact ⟨field :: fields, .cut hfield hfront hsplits⟩

/-! ## The loop -/

@[simp] theorem trimmed_singleton (field : List α) :
    trimmed [field] = if field.isEmpty then [] else [field] := by
  cases field <;> rfl

@[simp] theorem trimmed_cons {field : List α} {fields : List (List α)} (h : fields ≠ []) :
    trimmed (field :: fields) = field :: trimmed fields := by
  obtain ⟨next, fields, rfl⟩ := List.exists_cons_of_ne_nil h
  rw [trimmed, trimmed, List.getLast?_cons_cons]
  split
  · rw [List.dropLast_cons_of_ne_nil h]
  · rfl

theorem trimmed_begins (fields : List (List α)) : trimmed fields <+: fields := by
  rw [trimmed]
  split
  · exact List.dropLast_prefix fields
  · exact List.prefix_refl fields

/-- The empty field at the end is the one that is missing. -/
theorem filter_trimmed (fields : List (List α)) :
    ((trimmed fields).filter fun t => !t.isEmpty) = fields.filter fun t => !t.isEmpty := by
  rw [trimmed]
  split
  · next hlast =>
      obtain ⟨front, rfl⟩ := List.getLast?_eq_some_iff.mp hlast
      simp
  · rfl

/-- One turn. -/
theorem loop_succ {find : List α → Option (List α × List α)} {removeEmpty : Bool} {fuel : Nat}
    {input : List α} (hne : input ≠ []) :
    loop find removeEmpty (fuel + 1) input =
      match find input with
      | none => [input]
      | some (elem, rest) =>
          if removeEmpty && elem.isEmpty then loop find removeEmpty fuel rest
          else elem :: loop find removeEmpty fuel rest := by
  obtain ⟨c, input, rfl⟩ := List.exists_cons_of_ne_nil hne
  rfl

@[simp] theorem loop_nil (find : List α → Option (List α × List α)) (removeEmpty : Bool)
    (fuel : Nat) : loop find removeEmpty fuel [] = [] := by
  cases fuel <;> rfl

/-- The loop gives the fields of the text, but for an empty one at the end. -/
theorem loop_splits {find : List α → Option (List α × List α)} (hfind : Finds front find)
    (hshrinks : Shrinks front) {input : List α} {fields : List (List α)}
    (h : Splits front input fields) :
    ∀ {fuel}, input.length ≤ fuel → loop find false fuel input = trimmed fields := by
  induction h with
  | @last field hlast =>
      intro fuel hfuel
      cases field with
      | nil => simp
      | cons c field =>
          obtain ⟨fuel, rfl⟩ := Nat.exists_eq_add_one.mpr (Nat.zero_lt_of_lt hfuel)
          rw [loop_succ (List.cons_ne_nil _ _)]
          cases hfound : find (c :: field) with
          | none => simp
          | some found =>
              obtain ⟨text, htext, -, hfront⟩ := hfind.first hfound
              have hnone := hlast text (htext ▸ List.suffix_append _ _)
              rw [hnone] at hfront
              cases hfront
  | @cut field text rest fields hfield hfront hrest ih =>
      intro fuel hfuel
      have hlt := hshrinks hfront
      rw [List.length_append] at hfuel
      obtain ⟨fuel, rfl⟩ := Nat.exists_eq_add_one.mpr (show 0 < fuel by omega)
      have hne : field ++ text ≠ [] := by
        intro hnil
        simp [(List.append_eq_nil_iff.mp hnil).2] at hlt
      have hbehind : loop find false fuel rest = trimmed fields := ih (by omega)
      rw [loop_succ hne, trimmed_cons hrest.ne_nil]
      cases hfound : find (field ++ text) with
      | none =>
          rw [hfind.absent hfound text (List.suffix_append _ _)] at hfront
          cases hfront
      | some found =>
          obtain ⟨field', rest'⟩ := found
          obtain ⟨text', happ, hfield', hfront'⟩ := hfind.first hfound
          obtain ⟨rfl, rfl⟩ := front_unique happ hfield hfield' hfront hfront'
          rw [hfront] at hfront'
          cases hfront'
          simp [hbehind]

/-- Without empty tokens the loop gives the others. -/
theorem loop_filter (find : List α → Option (List α × List α)) (fuel : Nat) (input : List α) :
    loop find true fuel input = (loop find false fuel input).filter fun t => !t.isEmpty := by
  induction fuel generalizing input with
  | zero => cases input <;> rfl
  | succ fuel ih =>
      cases input with
      | nil => simp
      | cons c input =>
          rw [loop_succ (List.cons_ne_nil _ _), loop_succ (List.cons_ne_nil _ _)]
          cases find (c :: input) with
          | none => simp
          | some found =>
              obtain ⟨elem, rest⟩ := found
              cases elem <;> simp [ih]

/-! ## Joining the fields -/

/-- The tokens joined are the text, up to one delimiter behind it. -/
def Rejoins (delimiter : List α) (tokens : List (List α)) (input : List α) : Prop :=
  delimiter.intercalate tokens = input ∨ delimiter.intercalate tokens ++ delimiter = input

theorem rejoins_trimmed (delimiter : List α) (fields : List (List α)) :
    Rejoins delimiter (trimmed fields) (delimiter.intercalate fields) := by
  induction fields with
  | nil => exact .inl rfl
  | cons field fields ih =>
      cases fields with
      | nil => cases field <;> exact .inl rfl
      | cons next fields =>
          rw [trimmed_cons (List.cons_ne_nil _ _)]
          cases htokens : trimmed (next :: fields) with
          | nil =>
              -- what is left of one empty field behind the last delimiter
              rw [htokens] at ih
              rcases ih with hnext | hnext
              · refine .inr ?_
                rw [List.intercalate_cons_cons, ← hnext]
                simp
              · rw [trimmed] at htokens
                split at htokens
                · next hlast =>
                    cases fields with
                    | nil =>
                        rw [List.getLast?_singleton] at hlast
                        cases hlast
                        exact .inr (by simp)
                    | cons => cases htokens
                · cases htokens
          | cons token tokens =>
              rw [htokens] at ih
              rcases ih with hnext | hnext
              · exact .inl (by simp only [List.intercalate_cons_cons, hnext])
              · exact .inr (by simp only [List.intercalate_cons_cons, ← hnext, List.append_assoc])

end Fields
