import Mathlib.Data.List.Basic

/-!
# The tokenizer

`Tokenize` of `detail/Tokenizer.hpp`, in its overloads whose separator is one
character or a text.  A separator ends a token, so `removeEmptyTokens` only
decides about empty tokens that a separator ends: there is none behind the last
separator.  The loop over the input is a recursion that carries the token it is
in.

`slashed` puts pieces behind separators.  `tokenize_slashed` cuts them apart
again, when no piece has a separator in it and the last is not empty, and
`tokenize_length` counts the tokens of any text by its separators.
`tokenizeText_intercalate` is the round trip for a text between the pieces.
-/

namespace Tactmon

namespace Detail

variable {CharT : Type}

/-- The loop of `Tokenize`, in a token that began with `elem`. -/
def tokenizeFrom (isToken : CharT → Bool) (removeEmptyTokens : Bool) :
    List CharT → List CharT → List (List CharT)
  | [], [] => []
  | elem, [] => [elem]
  | elem, c :: input =>
      if isToken c then
        if removeEmptyTokens && elem.isEmpty then tokenizeFrom isToken removeEmptyTokens [] input
        else elem :: tokenizeFrom isToken removeEmptyTokens [] input
      else tokenizeFrom isToken removeEmptyTokens (elem ++ [c]) input

/-- `Tokenize` with a set of separators. -/
def tokenizeAny (isToken : CharT → Bool) (removeEmptyTokens : Bool) (input : List CharT) :
    List (List CharT) :=
  tokenizeFrom isToken removeEmptyTokens [] input

/-- `Tokenize` with one separator. -/
def tokenize [DecidableEq CharT] (token : CharT) (removeEmptyTokens : Bool)
    (input : List CharT) : List (List CharT) :=
  tokenizeAny (· = token) removeEmptyTokens input

section Loop

variable {isToken : CharT → Bool} {removeEmptyTokens : Bool}

theorem tokenizeFrom_nil {elem : List CharT} (h : elem ≠ []) :
    tokenizeFrom isToken removeEmptyTokens elem [] = [elem] := by
  cases elem with
  | nil => exact absurd rfl h
  | cons c elem => rfl

/-- Characters that are no separators go to the token. -/
theorem tokenizeFrom_append {piece : List CharT} (h : ∀ c ∈ piece, isToken c = false) :
    ∀ (elem input : List CharT), tokenizeFrom isToken removeEmptyTokens elem (piece ++ input) =
      tokenizeFrom isToken removeEmptyTokens (elem ++ piece) input := by
  induction piece with
  | nil =>
      intro elem input
      rw [List.append_nil, List.nil_append]
  | cons c piece ih =>
      intro elem input
      obtain ⟨hc, hpiece⟩ := List.forall_mem_cons.mp h
      rw [List.cons_append, tokenizeFrom, hc, if_neg Bool.false_ne_true, ih hpiece,
        List.append_assoc, List.singleton_append]

/-- A separator ends the token in front of it. -/
theorem tokenizeAny_separator {piece input : List CharT} {c : CharT}
    (h : ∀ c ∈ piece, isToken c = false) (hc : isToken c = true) :
    tokenizeAny isToken removeEmptyTokens (piece ++ c :: input) =
      if removeEmptyTokens && piece.isEmpty then tokenizeAny isToken removeEmptyTokens input
      else piece :: tokenizeAny isToken removeEmptyTokens input := by
  rw [tokenizeAny, tokenizeFrom_append h, List.nil_append, tokenizeFrom, if_pos hc, tokenizeAny]

theorem tokenizeAny_cons {piece input : List CharT} {c : CharT}
    (h : ∀ c ∈ piece, isToken c = false) (hc : isToken c = true) :
    tokenizeAny isToken false (piece ++ c :: input) = piece :: tokenizeAny isToken false input := by
  rw [tokenizeAny_separator h hc, Bool.false_and, if_neg Bool.false_ne_true]

/-- Without a separator there is one token. -/
theorem tokenizeAny_last {piece : List CharT} (h : ∀ c ∈ piece, isToken c = false)
    (hne : piece ≠ []) : tokenizeAny isToken removeEmptyTokens piece = [piece] := by
  rw [tokenizeAny, ← List.append_nil piece, tokenizeFrom_append h, List.nil_append,
    List.append_nil, tokenizeFrom_nil hne]

/-- Every separator ends a token, and what follows the last is one more. -/
theorem tokenizeFrom_length {last : List CharT} (hlast : ∀ c ∈ last, isToken c = false)
    (hne : last ≠ []) (input : List CharT) :
    ∀ elem : List CharT,
      (tokenizeFrom isToken false elem (input ++ last)).length = input.countP isToken + 1 := by
  induction input with
  | nil =>
      intro elem
      have hend : elem ++ last ≠ [] := fun h => hne (List.append_eq_nil_iff.mp h).2
      rw [List.nil_append, ← List.append_nil last, tokenizeFrom_append hlast,
        tokenizeFrom_nil hend, List.countP_nil, List.length_singleton]
  | cons c input ih =>
      intro elem
      rw [List.cons_append, tokenizeFrom]
      by_cases hc : isToken c = true
      · rw [if_pos hc, Bool.false_and, if_neg Bool.false_ne_true, List.length_cons, ih,
          List.countP_cons_of_pos hc]
      · rw [if_neg hc, ih, List.countP_cons_of_neg hc]

end Loop

/-! ## Words between separators -/

section Words

variable {isToken : CharT → Bool}

/-- Separators in front of a token are stepped over. -/
theorem tokenizeFrom_separators {run : List CharT} (h : ∀ c ∈ run, isToken c = true)
    (input : List CharT) :
    tokenizeFrom isToken true [] (run ++ input) = tokenizeFrom isToken true [] input := by
  induction run with
  | nil => rfl
  | cons c run ih =>
      obtain ⟨hc, hrun⟩ := List.forall_mem_cons.mp h
      rw [List.cons_append, tokenizeFrom, if_pos hc, List.isEmpty_nil, Bool.true_and, if_pos rfl,
        ih hrun]

/-- Separators behind a token end it, if there is one at least. -/
theorem tokenizeFrom_break {elem run : List CharT} (helem : elem ≠ [])
    (h : ∀ c ∈ run, isToken c = true) (hne : run ≠ []) (input : List CharT) :
    tokenizeFrom isToken true elem (run ++ input) =
      elem :: tokenizeFrom isToken true [] input := by
  cases run with
  | nil => exact absurd rfl hne
  | cons c run =>
      obtain ⟨hc, hrun⟩ := List.forall_mem_cons.mp h
      rw [List.cons_append, tokenizeFrom, if_pos hc, List.isEmpty_eq_false_iff.mpr helem,
        Bool.and_false, if_neg Bool.false_ne_true, tokenizeFrom_separators hrun]

/-- Nothing follows the separators at the end. -/
theorem tokenizeFrom_trail {elem run : List CharT} (helem : elem ≠ [])
    (h : ∀ c ∈ run, isToken c = true) : tokenizeFrom isToken true elem run = [elem] := by
  cases run with
  | nil => exact tokenizeFrom_nil helem
  | cons c run =>
      rw [← List.append_nil (c :: run), tokenizeFrom_break helem h (List.cons_ne_nil c run)]
      rfl

/-- The words behind the one that the loop is in, each behind its separators. -/
theorem tokenizeFrom_words {trail : List CharT} (htrail : ∀ c ∈ trail, isToken c = true)
    {words : List (List CharT × List CharT)}
    (hgaps : ∀ w ∈ words, w.1 ≠ [] ∧ ∀ c ∈ w.1, isToken c = true)
    (hwords : ∀ w ∈ words, w.2 ≠ [] ∧ ∀ c ∈ w.2, isToken c = false) :
    ∀ {elem : List CharT}, elem ≠ [] →
      tokenizeFrom isToken true elem (words.flatMap (fun w => w.1 ++ w.2) ++ trail) =
        elem :: words.map Prod.snd := by
  induction words with
  | nil => exact fun helem => tokenizeFrom_trail helem htrail
  | cons w words ih =>
      intro elem helem
      obtain ⟨⟨hgapne, hgap⟩, hgaps⟩ := List.forall_mem_cons.mp hgaps
      obtain ⟨⟨hwordne, hword⟩, hwords⟩ := List.forall_mem_cons.mp hwords
      rw [List.flatMap_cons, List.append_assoc, List.append_assoc,
        tokenizeFrom_break helem hgap hgapne, tokenizeFrom_append hword, List.nil_append,
        ih hgaps hwords hwordne, List.map_cons]

end Words

/-! ## Joining and cutting -/

/-- The pieces, each behind a separator. -/
def slashed (token : CharT) (pieces : List (List CharT)) : List CharT :=
  pieces.flatMap (token :: ·)

/-- The tokens of pieces with a separator between them: nothing is left of an
empty piece at the end. -/
def joinedTokens (removeEmptyTokens : Bool) : List (List CharT) → List (List CharT)
  | [] => []
  | [last] => if last.isEmpty then [] else [last]
  | piece :: next :: pieces =>
      if removeEmptyTokens && piece.isEmpty then joinedTokens removeEmptyTokens (next :: pieces)
      else piece :: joinedTokens removeEmptyTokens (next :: pieces)

theorem joinedTokens_false_cons {piece : List CharT} {pieces : List (List CharT)}
    (h : ¬ (piece = [] ∧ pieces = [])) :
    joinedTokens false (piece :: pieces) = piece :: joinedTokens false pieces := by
  cases pieces with
  | nil =>
      have hpiece : piece ≠ [] := fun hpiece => h ⟨hpiece, rfl⟩
      show (if piece.isEmpty then [] else [piece]) = [piece]
      rw [List.isEmpty_eq_false_iff.mpr hpiece, if_neg Bool.false_ne_true]
  | cons next pieces => rfl

/-- Without empty tokens the order of the pieces is all that matters. -/
theorem joinedTokens_true (pieces : List (List CharT)) :
    joinedTokens true pieces = pieces.filter fun piece => !piece.isEmpty := by
  induction pieces with
  | nil => rfl
  | cons piece pieces ih =>
      rw [List.filter_cons]
      cases pieces with
      | nil => cases piece <;> rfl
      | cons next pieces => cases piece <;> simp [joinedTokens, ih]

section Join

variable [DecidableEq CharT] {token : CharT}

/-- The pieces without a separator in them, cut at the separators. -/
theorem tokenize_slashed {pieces : List (List CharT)} {piece last : List CharT}
    (hpiece : token ∉ piece) (hpieces : ∀ p ∈ pieces, token ∉ p) (hlast : token ∉ last)
    (hne : last ≠ []) :
    tokenize token false (piece ++ slashed token (pieces ++ [last])) =
      piece :: (pieces ++ [last]) := by
  have hfree : ∀ {p : List CharT}, token ∉ p → ∀ c ∈ p, decide (c = token) = false :=
    fun hp c hc => decide_eq_false fun he => hp (he ▸ hc)
  induction pieces generalizing piece with
  | nil =>
      rw [tokenize, List.nil_append, slashed, List.flatMap_singleton,
        tokenizeAny_cons (hfree hpiece) (decide_eq_true rfl), tokenizeAny_last (hfree hlast) hne]
  | cons p pieces ih =>
      obtain ⟨hp, hpieces⟩ := List.forall_mem_cons.mp hpieces
      have := ih hp hpieces
      rw [tokenize, slashed] at this
      rw [tokenize, List.cons_append, slashed, List.flatMap_cons, List.cons_append,
        tokenizeAny_cons (hfree hpiece) (decide_eq_true rfl), this]

/-- Pieces that are not empty are cut apart at the separators between them. -/
theorem tokenize_intercalate {pieces : List (List CharT)}
    (h : ∀ piece ∈ pieces, piece ≠ [] ∧ token ∉ piece) (hne : pieces ≠ []) :
    tokenize token false (List.intercalate [token] pieces) = pieces := by
  have hfree : ∀ {p : List CharT}, token ∉ p → ∀ c ∈ p, decide (c = token) = false :=
    fun hp c hc => decide_eq_false fun he => hp (he ▸ hc)
  induction pieces with
  | nil => exact absurd rfl hne
  | cons piece pieces ih =>
      obtain ⟨⟨hpiece, htoken⟩, hrest⟩ := List.forall_mem_cons.mp h
      cases pieces with
      | nil => rw [tokenize, List.intercalate_singleton, tokenizeAny_last (hfree htoken) hpiece]
      | cons next pieces =>
          have hnext := ih hrest (List.cons_ne_nil _ _)
          rw [tokenize] at hnext
          rw [tokenize, List.intercalate_cons_cons, List.append_assoc, List.singleton_append,
            tokenizeAny_cons (hfree htoken) (decide_eq_true rfl), hnext]

theorem tokenize_joined {removeEmptyTokens : Bool} {pieces : List (List CharT)}
    (h : ∀ piece ∈ pieces, token ∉ piece) :
    tokenize token removeEmptyTokens (List.intercalate [token] pieces) =
      joinedTokens removeEmptyTokens pieces := by
  have hfree : ∀ {p : List CharT}, token ∉ p → ∀ c ∈ p, decide (c = token) = false :=
    fun hp c hc => decide_eq_false fun he => hp (he ▸ hc)
  induction pieces with
  | nil => rfl
  | cons piece pieces ih =>
      obtain ⟨hpiece, hrest⟩ := List.forall_mem_cons.mp h
      cases pieces with
      | nil =>
          rw [List.intercalate_singleton, joinedTokens]
          by_cases hempty : piece = []
          · rw [hempty]
            rfl
          · rw [tokenize, tokenizeAny_last (hfree hpiece) hempty,
              List.isEmpty_eq_false_iff.mpr hempty, if_neg Bool.false_ne_true]
      | cons next pieces =>
          have hnext := ih hrest
          rw [tokenize] at hnext
          rw [tokenize, List.intercalate_cons_cons, List.append_assoc, List.singleton_append,
            tokenizeAny_separator (hfree hpiece) (decide_eq_true rfl), hnext, joinedTokens]

/-- Only an empty input has no tokens, when empty ones are kept. -/
theorem tokenize_eq_nil_iff (input : List CharT) :
    tokenize token false input = [] ↔ input = [] := by
  have hloop : ∀ (input elem : List CharT), elem ++ input ≠ [] →
      tokenizeFrom (fun c => decide (c = token)) false elem input ≠ [] := by
    intro input
    induction input with
    | nil =>
        intro elem h
        rw [List.append_nil] at h
        rw [tokenizeFrom_nil h]
        exact List.cons_ne_nil _ _
    | cons c input ih =>
        intro elem _
        rw [tokenizeFrom]
        split
        · rw [Bool.false_and, if_neg Bool.false_ne_true]
          exact List.cons_ne_nil _ _
        · exact ih _ (by simp)
  constructor
  · exact fun h => Classical.not_not.mp fun hne => hloop input [] hne h
  · rintro rfl
    rfl

theorem tokenize_length {input last : List CharT} (hlast : token ∉ last) (hne : last ≠ []) :
    (tokenize token false (input ++ last)).length = input.count token + 1 := by
  have hfree : ∀ c ∈ last, decide (c = token) = false :=
    fun c hc => decide_eq_false fun he => hlast (he ▸ hc)
  rw [tokenize, tokenizeAny, tokenizeFrom_length hfree hne, List.count]
  rfl

end Join

/-! ## Texts as separators -/

section TokenizeText

variable [DecidableEq CharT]

/-- `input.find(token)`: what is in front of the first occurrence, and what is
behind it. -/
def findText (token : List CharT) : List CharT → Option (List CharT × List CharT)
  | [] => if token <+: [] then some ([], []) else none
  | c :: input =>
      if token <+: c :: input then some ([], (c :: input).drop token.length)
      else (findText token input).map fun (elem, rest) => (c :: elem, rest)

/-- The loop of `Tokenize`.  Every turn takes something off the input, unless
the separator is empty. -/
def tokenizeTextFrom (token : List CharT) (removeEmptyTokens : Bool) :
    Nat → List CharT → List (List CharT)
  | _, [] => []
  | 0, _ => []
  | fuel + 1, input =>
      match findText token input with
      | none => [input]
      | some (elem, rest) =>
          if removeEmptyTokens && elem.isEmpty then
            tokenizeTextFrom token removeEmptyTokens fuel rest
          else elem :: tokenizeTextFrom token removeEmptyTokens fuel rest

/-- `Tokenize` with a text as the separator. -/
def tokenizeText (token : List CharT) (removeEmptyTokens : Bool) (input : List CharT) :
    List (List CharT) :=
  tokenizeTextFrom token removeEmptyTokens input.length input

/-- No separator begins in the piece when one follows the piece. -/
def Unbroken (token piece : List CharT) : Prop :=
  ∀ t, t <:+ piece → t ≠ [] → ¬ token <+: t ++ token

variable {token : List CharT}

/-- The separator behind a piece is found. -/
theorem findText_append {piece : List CharT} (h : Unbroken token piece) (rest : List CharT) :
    findText token (piece ++ (token ++ rest)) = some (piece, rest) := by
  induction piece with
  | nil =>
      have hpre : token <+: token ++ rest := List.prefix_append token rest
      have hdrop : (token ++ rest).drop token.length = rest := List.drop_left
      rw [List.nil_append]
      cases htext : token ++ rest with
      | nil =>
          obtain ⟨rfl, rfl⟩ := List.append_eq_nil_iff.mp htext
          rfl
      | cons c input =>
          rw [htext] at hpre hdrop
          rw [findText, if_pos hpre, hdrop]
  | cons c piece ih =>
      have hno : ¬ token <+: c :: (piece ++ (token ++ rest)) := fun hpre => by
        rw [← List.cons_append, ← List.append_assoc] at hpre
        refine h (c :: piece) (List.suffix_refl _) (List.cons_ne_nil _ _)
          (List.prefix_of_prefix_length_le hpre (List.prefix_append _ _) ?_)
        rw [List.length_append]
        exact Nat.le_add_left _ _
      have hpiece : Unbroken token piece := fun t ht =>
        h t (ht.trans (List.suffix_cons c piece))
      rw [List.cons_append, findText, if_neg hno, ih hpiece, Option.map_some]

/-- Without a separator nothing is found. -/
theorem findText_none {piece : List CharT} (hne : token ≠ []) (h : Unbroken token piece) :
    findText token piece = none := by
  induction piece with
  | nil => exact if_neg fun hpre => hne (List.prefix_nil.mp hpre)
  | cons c piece ih =>
      have hno : ¬ token <+: c :: piece := fun hpre =>
        h (c :: piece) (List.suffix_refl _) (List.cons_ne_nil _ _)
          (hpre.trans (List.prefix_append _ _))
      have hpiece : Unbroken token piece := fun t ht =>
        h t (ht.trans (List.suffix_cons c piece))
      rw [findText, if_neg hno, ih hpiece, Option.map_none]

/-- One turn of the loop. -/
theorem tokenizeTextFrom_succ {removeEmptyTokens : Bool} {fuel : Nat} {input : List CharT}
    (hne : input ≠ []) :
    tokenizeTextFrom token removeEmptyTokens (fuel + 1) input =
      match findText token input with
      | none => [input]
      | some (elem, rest) =>
          if removeEmptyTokens && elem.isEmpty then
            tokenizeTextFrom token removeEmptyTokens fuel rest
          else elem :: tokenizeTextFrom token removeEmptyTokens fuel rest := by
  cases input with
  | nil => exact absurd rfl hne
  | cons c input => rfl

theorem tokenizeTextFrom_cons (removeEmptyTokens : Bool) (fuel : Nat) {piece : List CharT}
    (hne : piece ≠ []) (h : Unbroken token piece) (rest : List CharT) :
    tokenizeTextFrom token removeEmptyTokens (fuel + 1) (piece ++ (token ++ rest)) =
      piece :: tokenizeTextFrom token removeEmptyTokens fuel rest := by
  have htext : piece ++ (token ++ rest) ≠ [] := List.append_ne_nil_of_left_ne_nil hne _
  rw [tokenizeTextFrom_succ htext, findText_append h]
  simp [hne]

/-- The last piece, whether or not a separator is behind it. -/
theorem tokenizeTextFrom_last {removeEmptyTokens : Bool} {fuel : Nat} {piece tail : List CharT}
    (htoken : token ≠ []) (hne : piece ≠ []) (h : Unbroken token piece)
    (htail : tail = [] ∨ tail = token) (hfuel : (piece ++ tail).length ≤ fuel) :
    tokenizeTextFrom token removeEmptyTokens fuel (piece ++ tail) = [piece] := by
  cases fuel with
  | zero => exact absurd (List.append_eq_nil_iff.mp
      (List.eq_nil_of_length_eq_zero (Nat.le_zero.mp hfuel))).1 hne
  | succ fuel =>
      rcases htail with hnil | htoken
      · rw [hnil, List.append_nil, tokenizeTextFrom_succ hne, findText_none htoken h]
      · have hcons := tokenizeTextFrom_cons removeEmptyTokens fuel hne h []
        rw [List.append_nil] at hcons
        rw [htoken, hcons]
        cases fuel with
        | zero => rfl
        | succ fuel => rfl

/-- Pieces that are not empty and have no separator in them are cut apart at
the separators between them, whether or not one is behind the last. -/
theorem tokenizeText_intercalate (htoken : token ≠ []) {removeEmptyTokens : Bool}
    {pieces : List (List CharT)} (h : ∀ piece ∈ pieces, piece ≠ [] ∧ Unbroken token piece)
    (hpieces : pieces ≠ []) {tail : List CharT} (htail : tail = [] ∨ tail = token) :
    tokenizeText token removeEmptyTokens (token.intercalate pieces ++ tail) = pieces := by
  have hloop : ∀ fuel, (token.intercalate pieces ++ tail).length ≤ fuel →
      tokenizeTextFrom token removeEmptyTokens fuel (token.intercalate pieces ++ tail) =
        pieces := by
    induction pieces with
    | nil => exact absurd rfl hpieces
    | cons piece pieces ih =>
        obtain ⟨⟨hne, hpiece⟩, hrest⟩ := List.forall_mem_cons.mp h
        intro fuel hfuel
        cases pieces with
        | nil =>
            rw [List.intercalate_singleton] at hfuel ⊢
            exact tokenizeTextFrom_last htoken hne hpiece htail hfuel
        | cons next pieces =>
            rw [List.intercalate_cons_cons, List.append_assoc, List.append_assoc] at hfuel ⊢
            cases fuel with
            | zero => exact absurd (List.append_eq_nil_iff.mp
                (List.eq_nil_of_length_eq_zero (Nat.le_zero.mp hfuel))).1 hne
            | succ fuel =>
                have hpos := List.length_pos_iff.mpr hne
                rw [List.length_append, List.length_append] at hfuel
                rw [tokenizeTextFrom_cons removeEmptyTokens _ hne hpiece,
                  ih hrest (List.cons_ne_nil _ _) fuel (by omega)]
  exact hloop _ (Nat.le_refl _)

end TokenizeText

end Detail

end Tactmon
