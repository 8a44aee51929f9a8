import Tactmon.Detail.Tokenizer
import Tactmon.Lib.Fields

/-!
# The tokenizer against splitting

The overloads of `Tokenize` in `detail/Tokenizer.hpp` that look for one
character, for a text and for any character of a set, each as the loop that
looks for the next separator.  The first two are `tokenize` and `tokenizeText`
of the module before (`tokenizeChar_eq`, `tokenizeText_eq`).

What a text is split into is said without a loop: by `List.splitOn` and
`List.splitOnP` for characters, and by `Splits` for a text.  The tokens are the
fields between the separators, but for an empty one at the end.
-/

namespace Tactmon

namespace Detail

open Fields

variable {CharT : Type}

section Overloads

variable [DecidableEq CharT]

/-- `input.find(token)`, and the view cut there. -/
def findChar (token : CharT) (input : List CharT) : Option (List CharT × List CharT) :=
  (input.idxOf? token).map fun pos => (input.take pos, input.drop (pos + 1))

/-- `Tokenize` with one character. -/
def tokenizeChar (token : CharT) (removeEmptyTokens : Bool) (input : List CharT) :
    List (List CharT) :=
  loop (findChar token) removeEmptyTokens input.length input

/-- The loop over the separators, which keeps the least position. -/
def tokenPosition (tokens : List CharT) (input : List CharT) : Option Nat :=
  tokens.foldl (fun tokenPosition token =>
    match input.idxOf? token with
    | some pos => if tokenPosition.all (pos < ·) then some pos else tokenPosition
    | none => tokenPosition) none

/-- The first of several separators, and the view cut there. -/
def findSet (tokens : List CharT) (input : List CharT) : Option (List CharT × List CharT) :=
  (tokenPosition tokens input).map fun pos => (input.take pos, input.drop (pos + 1))

/-- `Tokenize` with a span of characters. -/
def tokenizeSet (tokens : List CharT) (removeEmptyTokens : Bool) (input : List CharT) :
    List (List CharT) :=
  loop (findSet tokens) removeEmptyTokens input.length input

end Overloads

/-! ## Characters as separators -/

/-- The text begins with a separator. -/
def charFront (isToken : CharT → Bool) : List CharT → Option (List CharT)
  | [] => none
  | c :: rest => if isToken c then some rest else none

/-- The search for a separator. -/
def findWhere (isToken : CharT → Bool) (input : List CharT) :
    Option (List CharT × List CharT) :=
  (input.findIdx? isToken).map fun pos => (input.take pos, input.drop (pos + 1))

section Characters

variable {isToken : CharT → Bool}

/-- In a text that begins with no separator, however much is left of it, there
is none. -/
theorem forall_charFront {input : List CharT} :
    (∀ t, t <:+ input → charFront isToken t = none) ↔ ∀ c ∈ input, isToken c = false := by
  constructor
  · intro h c hc
    obtain ⟨before, after, rfl⟩ := List.append_of_mem hc
    simpa [charFront] using h (c :: after) (List.suffix_append _ _)
  · intro h t ht
    cases t with
    | nil => rfl
    | cons c t => simp [charFront, h c (ht.subset List.mem_cons_self)]

theorem forall_charFront_append {field text : List CharT} :
    (∀ t, t <:+ field → t ≠ [] → charFront isToken (t ++ text) = none) ↔
      ∀ c ∈ field, isToken c = false := by
  constructor
  · intro h c hc
    obtain ⟨before, after, rfl⟩ := List.append_of_mem hc
    simpa [charFront] using h (c :: after) (List.suffix_append _ _) (List.cons_ne_nil _ _)
  · intro h t ht hne
    obtain ⟨c, t, rfl⟩ := List.exists_cons_of_ne_nil hne
    simp [charFront, h c (ht.subset List.mem_cons_self)]

theorem charFront_eq_some {text rest : List CharT} :
    charFront isToken text = some rest ↔ ∃ c, text = c :: rest ∧ isToken c = true := by
  cases text with
  | nil => simp [charFront]
  | cons c text => simp [charFront, and_comm]

theorem shrinks_charFront (isToken : CharT → Bool) : Shrinks (charFront isToken) := by
  intro text rest h
  obtain ⟨c, rfl, -⟩ := charFront_eq_some.mp h
  simp

theorem finds_findWhere (isToken : CharT → Bool) :
    Finds (charFront isToken) (findWhere isToken) where
  absent := by
    intro input h
    rw [forall_charFront]
    simpa [findWhere] using h
  first := by
    intro input field rest h
    obtain ⟨pos, hpos, hcut⟩ := Option.map_eq_some_iff.mp h
    obtain ⟨hlt, htoken, hbefore⟩ := List.findIdx?_eq_some_iff_getElem.mp hpos
    cases hcut
    refine ⟨input.drop pos, (List.take_append_drop pos input).symm, ?_, ?_⟩
    · rw [forall_charFront_append]
      intro c hc
      obtain ⟨i, hi, rfl⟩ := List.mem_take_iff_getElem.mp hc
      simpa using hbefore i (by omega)
    · rw [List.drop_eq_getElem_cons hlt]
      exact if_pos htoken

/-- Splitting at characters is `List.splitOnP`. -/
theorem splits_eq_splitOnP {input : List CharT} {fields : List (List CharT)}
    (h : Splits (charFront isToken) input fields) : fields = input.splitOnP isToken := by
  induction h with
  | last hlast => rw [List.splitOnP_eq_singleton (forall_charFront.mp hlast)]
  | cut hfield hfront _ ih =>
      obtain ⟨c, rfl, hc⟩ := charFront_eq_some.mp hfront
      rw [List.splitOnP_append_cons_of_forall_mem (forall_charFront_append.mp hfield) c hc, ih]

theorem splits_splitOnP (isToken : CharT → Bool) (input : List CharT) :
    Splits (charFront isToken) input (input.splitOnP isToken) := by
  obtain ⟨fields, hsplits⟩ :=
    exists_splits (finds_findWhere isToken) (shrinks_charFront isToken) input
  rwa [← splits_eq_splitOnP hsplits]

theorem loop_findWhere (isToken : CharT → Bool) (input : List CharT) :
    loop (findWhere isToken) false input.length input = trimmed (input.splitOnP isToken) :=
  loop_splits (finds_findWhere isToken) (shrinks_charFront isToken)
    (splits_splitOnP isToken input) (Nat.le_refl _)

/-- The recursion over the characters keeps what is not empty. -/
theorem tokenizeFrom_filter (input : List CharT) :
    ∀ elem, tokenizeFrom isToken true elem input =
      (tokenizeFrom isToken false elem input).filter fun t => !t.isEmpty := by
  induction input with
  | nil =>
      intro elem
      cases elem <;> rfl
  | cons c input ih =>
      intro elem
      rw [tokenizeFrom, tokenizeFrom]
      split
      · cases elem <;> simp [ih]
      · exact ih _

theorem tokenizeAny_splits {input : List CharT} {fields : List (List CharT)}
    (h : Splits (charFront isToken) input fields) :
    tokenizeAny isToken false input = trimmed fields := by
  induction h with
  | @last field hlast =>
      cases field with
      | nil => rfl
      | cons c field =>
          rw [tokenizeAny_last (forall_charFront.mp hlast) (List.cons_ne_nil _ _)]
          simp
  | cut hfield hfront hrest ih =>
      obtain ⟨c, rfl, hc⟩ := charFront_eq_some.mp hfront
      rw [tokenizeAny_cons (forall_charFront_append.mp hfield) hc, ih, trimmed_cons hrest.ne_nil]

/-- The loop that looks for separators is the recursion over the characters. -/
theorem loop_findWhere_eq (isToken : CharT → Bool) (removeEmptyTokens : Bool)
    (input : List CharT) :
    loop (findWhere isToken) removeEmptyTokens input.length input =
      tokenizeAny isToken removeEmptyTokens input := by
  cases removeEmptyTokens with
  | false => rw [loop_findWhere, tokenizeAny_splits (splits_splitOnP isToken input)]
  | true =>
      rw [loop_filter, loop_findWhere, tokenizeAny, tokenizeFrom_filter, ← tokenizeAny,
        tokenizeAny_splits (splits_splitOnP isToken input)]

end Characters

/-- One more separator to look for. -/
theorem findIdx?_or (p q : CharT → Bool) (input : List CharT) :
    input.findIdx? (fun c => p c || q c) =
      match input.findIdx? q with
      | some pos =>
          if (input.findIdx? p).all (pos < ·) then some pos else input.findIdx? p
      | none => input.findIdx? p := by
  induction input with
  | nil => rfl
  | cons c input ih =>
      rw [List.findIdx?_cons, List.findIdx?_cons, List.findIdx?_cons, ih]
      cases p c with
      | true => cases hq : q c <;> cases input.findIdx? q <;> simp
      | false =>
          cases hq : q c with
          | true => cases input.findIdx? p <;> simp
          | false =>
              cases input.findIdx? q with
              | none => simp
              | some pos =>
                  cases input.findIdx? p with
                  | none => simp
                  | some least => by_cases h : pos < least <;> simp [h]

section Searches

variable [DecidableEq CharT]

theorem findChar_eq (token : CharT) : findChar token = findWhere (· == token) := rfl

/-- The loop over the separators finds the first character that is one. -/
theorem tokenPosition_eq (tokens input : List CharT) :
    tokenPosition tokens input = input.findIdx? (fun c => decide (c ∈ tokens)) := by
  induction tokens using List.reverseRecOn with
  | nil => exact (List.findIdx?_eq_none_iff.mpr (by simp)).symm
  | append_singleton tokens token ih =>
      have hmem : (fun c => decide (c ∈ tokens ++ [token])) =
          fun c => decide (c ∈ tokens) || (c == token) := by
        funext c
        simp [beq_eq_decide]
      rw [hmem, findIdx?_or, ← ih, tokenPosition, List.foldl_append]
      rfl

theorem findSet_eq (tokens : List CharT) :
    findSet tokens = findWhere (fun c => decide (c ∈ tokens)) := by
  funext input
  rw [findSet, findWhere, tokenPosition_eq]

theorem tokenizeChar_eq (token : CharT) (removeEmptyTokens : Bool) (input : List CharT) :
    tokenizeChar token removeEmptyTokens input = tokenize token removeEmptyTokens input := by
  rw [tokenizeChar, findChar_eq, loop_findWhere_eq, tokenize]
  congr 1

theorem tokenizeChar_splitOn (token : CharT) (input : List CharT) :
    tokenizeChar token false input = trimmed (input.splitOn token) := by
  rw [tokenizeChar, findChar_eq, loop_findWhere, List.splitOn_eq_splitOnP]

theorem tokenizeSet_splitOnP (tokens input : List CharT) :
    tokenizeSet tokens false input = trimmed (input.splitOnP fun c => decide (c ∈ tokens)) := by
  rw [tokenizeSet, findSet_eq, loop_findWhere]

/-- A set of one character. -/
theorem tokenizeSet_singleton (token : CharT) (removeEmptyTokens : Bool) (input : List CharT) :
    tokenizeSet [token] removeEmptyTokens input = tokenizeChar token removeEmptyTokens input := by
  have hsame : (fun c => decide (c ∈ [token])) = fun c => c == token := by
    funext c
    simp [beq_eq_decide]
  rw [tokenizeSet, findSet_eq, hsame, tokenizeChar, findChar_eq]

end Searches

/-! ## A text as the separator -/

/-- A separator that does not begin inside itself. -/
def Unbordered (token : List CharT) : Prop :=
  ∀ t, t <+: token → t <:+ token → t ≠ [] → t = token

/-- No separator begins in a text and ends in one behind the text. -/
theorem not_straddling {token t text : List CharT} (hunbordered : Unbordered token)
    (hne : t ≠ []) (ht : ¬ token <+: t) : ¬ token <+: t ++ (token ++ text) := by
  rintro ⟨rest, happ⟩
  rcases List.append_eq_append_iff.mp happ with ⟨between, rfl, -⟩ | ⟨between, hsplit, hbehind⟩
  · exact ht (List.prefix_append token between)
  · cases between with
    | nil => exact ht ((hsplit.trans (List.append_nil t)) ▸ List.prefix_refl t)
    | cons c between =>
        -- what is left of the separator begins it again
        have hlength := congrArg List.length hsplit
        have hpos := List.length_pos_iff.mpr hne
        rw [List.length_append] at hlength
        have hprefix : c :: between <+: token := by
          refine List.prefix_of_prefix_length_le ⟨rest, hbehind.symm⟩
            (List.prefix_append token text) ?_
          omega
        have hwhole := hunbordered (c :: between) hprefix (hsplit ▸ List.suffix_append _ _)
          (List.cons_ne_nil _ _)
        rw [hwhole] at hlength
        omega

section Texts

variable [DecidableEq CharT] {token : List CharT}

/-- The text begins with the separator. -/
def textFront (token input : List CharT) : Option (List CharT) :=
  if token <+: input then some (input.drop token.length) else none

theorem textFront_eq_some {text rest : List CharT} :
    textFront token text = some rest ↔ text = token ++ rest := by
  rw [textFront]
  constructor
  · intro h
    split at h
    · next hprefix =>
        cases h
        obtain ⟨rest, rfl⟩ := hprefix
        simp
    · cases h
  · rintro rfl
    simp

theorem shrinks_textFront (htoken : token ≠ []) : Shrinks (textFront token) := by
  intro text rest h
  have hpos := List.length_pos_iff.mpr htoken
  rw [textFront_eq_some.mp h, List.length_append]
  omega

theorem finds_findText (htoken : token ≠ []) : Finds (textFront token) (findText token) where
  absent := by
    intro input h
    induction input with
    | nil =>
        intro t ht
        rw [List.suffix_nil.mp ht]
        simp [textFront, htoken]
    | cons c input ih =>
        rw [findText] at h
        split at h
        · cases h
        · next hno =>
            rw [Option.map_eq_none_iff] at h
            intro t ht
            rcases List.suffix_cons_iff.mp ht with rfl | ht
            · exact if_neg hno
            · exact ih h t ht
  first := by
    intro input
    induction input with
    | nil =>
        intro field rest h
        simp [findText, htoken] at h
    | cons c input ih =>
        intro field rest h
        rw [findText] at h
        split at h
        · next hyes =>
            cases h
            refine ⟨c :: input, rfl, fun t ht hne => absurd (List.suffix_nil.mp ht) hne, ?_⟩
            exact if_pos hyes
        · next hno =>
            obtain ⟨⟨elem, rest'⟩, hfound, hcut⟩ := Option.map_eq_some_iff.mp h
            cases hcut
            obtain ⟨text, rfl, hfield, hfront⟩ := ih hfound
            refine ⟨text, rfl, fun t ht hne => ?_, hfront⟩
            rcases List.suffix_cons_iff.mp ht with rfl | ht
            · exact if_neg hno
            · exact hfield t ht hne

theorem tokenizeTextFrom_eq (removeEmptyTokens : Bool) (fuel : Nat) (input : List CharT) :
    tokenizeTextFrom token removeEmptyTokens fuel input =
      loop (findText token) removeEmptyTokens fuel input := by
  induction fuel generalizing input with
  | zero => cases input <;> rfl
  | succ fuel ih =>
      cases input with
      | nil => rfl
      | cons c input =>
          rw [tokenizeTextFrom_succ (List.cons_ne_nil _ _), loop_succ (List.cons_ne_nil _ _)]
          cases findText token (c :: input) with
          | none => rfl
          | some found => simp only [ih]

theorem tokenizeText_eq (removeEmptyTokens : Bool) (input : List CharT) :
    tokenizeText token removeEmptyTokens input =
      loop (findText token) removeEmptyTokens input.length input :=
  tokenizeTextFrom_eq removeEmptyTokens input.length input

/-- The fields with the separator between them are the text. -/
theorem intercalate_of_splits {input : List CharT} {fields : List (List CharT)}
    (h : Splits (textFront token) input fields) : token.intercalate fields = input := by
  induction h with
  | last => exact List.intercalate_singleton
  | @cut field text rest fields _ hfront hrest ih =>
      rw [List.intercalate_cons_of_ne_nil hrest.ne_nil, ih, textFront_eq_some.mp hfront]
      simp

/-- A text without the separator is one field. -/
theorem splits_single {text : List CharT} (h : ¬ token <:+: text) :
    Splits (textFront token) text [text] :=
  .last fun _ ht => if_neg fun hstarts => h (hstarts.isInfix.trans ht.isInfix)

/-- Two texts with a separator between them are split like each of them. -/
theorem splits_append (hunbordered : Unbordered token) {first second : List CharT}
    {fields fields' : List (List CharT)} (h : Splits (textFront token) first fields)
    (h' : Splits (textFront token) second fields') :
    Splits (textFront token) (first ++ (token ++ second)) (fields ++ fields') := by
  induction h with
  | @last field hlast =>
      refine .cut (fun t ht hne => if_neg (not_straddling hunbordered hne fun hstarts => ?_))
        (textFront_eq_some.mpr rfl) h'
      have hnone := hlast t ht
      rw [textFront, if_pos hstarts] at hnone
      cases hnone
  | @cut field text rest fields hfield hfront _ ih =>
      obtain rfl := textFront_eq_some.mp hfront
      rw [List.append_assoc, List.append_assoc]
      refine .cut (fun t ht hne => if_neg (not_straddling hunbordered hne fun hstarts => ?_))
        (textFront_eq_some.mpr rfl) ih
      have hnone := hfield t ht hne
      rw [textFront, if_pos (hstarts.trans (List.prefix_append _ _))] at hnone
      cases hnone

/-- Texts without the separator, with separators between them. -/
theorem splits_intercalate (hunbordered : Unbordered token) {pieces : List (List CharT)}
    (hne : pieces ≠ []) (h : ∀ piece ∈ pieces, ¬ token <:+: piece) :
    Splits (textFront token) (token.intercalate pieces) pieces := by
  induction pieces with
  | nil => exact absurd rfl hne
  | cons piece pieces ih =>
      obtain ⟨hpiece, hrest⟩ := List.forall_mem_cons.mp h
      cases pieces with
      | nil =>
          rw [List.intercalate_singleton]
          exact splits_single hpiece
      | cons next pieces =>
          rw [List.intercalate_cons_cons, List.append_assoc]
          exact splits_append hunbordered (splits_single hpiece) (ih (List.cons_ne_nil _ _) hrest)

/-- The tokens that are not empty are the fields that are not. -/
theorem tokenizeText_filter (htoken : token ≠ []) {input : List CharT}
    {fields : List (List CharT)} (h : Splits (textFront token) input fields) :
    tokenizeText token true input = fields.filter fun t => !t.isEmpty := by
  rw [tokenizeText_eq, loop_filter, loop_splits (finds_findText htoken) (shrinks_textFront htoken) h
    (Nat.le_refl _), filter_trimmed]

/-- The tokens of two texts with a separator between them. -/
theorem tokenizeText_append (htoken : token ≠ []) (hunbordered : Unbordered token)
    (first second : List CharT) :
    tokenizeText token true (first ++ (token ++ second)) =
      tokenizeText token true first ++ tokenizeText token true second := by
  have hsplits := exists_splits (finds_findText htoken) (shrinks_textFront htoken)
  obtain ⟨fields, hfirst⟩ := hsplits first
  obtain ⟨fields', hsecond⟩ := hsplits second
  rw [tokenizeText_filter htoken hfirst, tokenizeText_filter htoken hsecond,
    tokenizeText_filter htoken (splits_append hunbordered hfirst hsecond), List.filter_append]

end Texts

/-! ## The overloads -/

/-- Every overload gives the fields of its input, but for an empty one at the
end, and without empty tokens those that are not empty.  A set of one character
is that character. -/
theorem tokenize_overloads (CharT : Type) [DecidableEq CharT] :
    (∀ (token : CharT) (input : List CharT),
      tokenizeChar token false input = trimmed (input.splitOn token) ∧
      Rejoins [token] (tokenizeChar token false input) input ∧
      tokenizeChar token true input =
        (tokenizeChar token false input).filter fun t => !t.isEmpty) ∧
    (∀ (token input : List CharT), token ≠ [] →
      ∃ fields, (∀ fields', Splits (textFront token) input fields' ↔ fields' = fields) ∧
        tokenizeText token false input = trimmed fields ∧
        Rejoins token (tokenizeText token false input) input ∧
        tokenizeText token true input =
          (tokenizeText token false input).filter fun t => !t.isEmpty) ∧
    (∀ (tokens input : List CharT),
      tokenizeSet tokens false input = trimmed (input.splitOnP fun c => decide (c ∈ tokens)) ∧
      tokenizeSet tokens true input =
        (tokenizeSet tokens false input).filter fun t => !t.isEmpty) ∧
    ∀ (token : CharT) (removeEmptyTokens : Bool) (input : List CharT),
      tokenizeSet [token] removeEmptyTokens input =
        tokenizeChar token removeEmptyTokens input := by
  refine ⟨fun token input => ⟨tokenizeChar_splitOn token input, ?_, ?_⟩,
    fun token input htoken => ?_, fun tokens input => ⟨tokenizeSet_splitOnP tokens input, ?_⟩,
    tokenizeSet_singleton⟩
  · have hjoined := rejoins_trimmed [token] (input.splitOn token)
    rwa [List.intercalate_splitOn, ← tokenizeChar_splitOn] at hjoined
  · exact loop_filter _ _ _
  · have hfinds := finds_findText htoken
    obtain ⟨fields, hsplits⟩ := exists_splits hfinds (shrinks_textFront htoken) input
    have htokens : tokenizeText token false input = trimmed fields := by
      rw [tokenizeText_eq, loop_splits hfinds (shrinks_textFront htoken) hsplits (Nat.le_refl _)]
    refine ⟨fields, fun fields' => ⟨fun h => h.unique hsplits, fun h => h ▸ hsplits⟩, htokens,
      ?_, ?_⟩
    · have hjoined := rejoins_trimmed token fields
      rwa [intercalate_of_splits hsplits, ← htokens] at hjoined
    · rw [tokenizeText_eq, tokenizeText_eq, loop_filter]
  · exact loop_filter _ _ _

/-- Two lines, and the end of the second. -/
theorem tokenize_overloads_lines : ([13, 10] : List UInt8) ≠ [] ∧
    ∃ fields, (∀ fields', Splits (textFront [13, 10]) [97, 13, 10, 98, 13, 10] fields' ↔
        fields' = fields) ∧
      tokenizeText ([13, 10] : List UInt8) false [97, 13, 10, 98, 13, 10] = trimmed fields := by
  have hne : ([13, 10] : List UInt8) ≠ [] := List.cons_ne_nil _ _
  obtain ⟨fields, hsplits, htokens, -⟩ :=
    (tokenize_overloads UInt8).2.1 [13, 10] [97, 13, 10, 98, 13, 10] hne
  exact ⟨hne, fields, hsplits, htokens⟩

example : tokenizeSet [44, 59] true ([97, 44, 44, 98, 59] : List UInt8) = [[97], [98]] := by
  decide

end Detail

end Tactmon
