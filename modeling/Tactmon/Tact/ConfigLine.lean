import Tactmon.Tact.BuildConfig

/-!
# The lines of a configuration

The grammar that both configuration parsers are given: lines of separators
only, comments, and keys with their values.  A line keeps the separators it was
written with, so that any text without a newline in it is the text of a line.
-/

namespace Tactmon

open Binary Text Detail BuildConfig

/-- A line of a configuration. -/
inductive ConfigLine where
  /-- Nothing but separators, or nothing at all. -/
  | separators (run : Bytes)
  /-- What is behind the `#`. -/
  | comment (text : Bytes)
  /-- A key, and its values with the separators in front of each. -/
  | assignment (lead key : Bytes) (values : List (Bytes × Bytes)) (trail : Bytes)
deriving DecidableEq, Repr

namespace ConfigLine

/-- A line with a blank in front of each value. -/
def keyLine (key : String) (values : List String) : ConfigLine :=
  assignment [] (ascii key) (values.map fun value => (ascii " ", ascii value)) []

/-- The line as it is written. -/
def text : ConfigLine → Bytes
  | separators run => run
  | comment text => 35 :: text
  | assignment lead key values trail =>
      lead ++ (key ++ (values.flatMap (fun value => value.1 ++ value.2) ++ trail))

/-- The key of a line and its values. -/
def entry? : ConfigLine → Option (Bytes × List Bytes)
  | assignment _ key values _ => some (key, values.map Prod.snd)
  | _ => none

/-! ## Well-formed lines -/

/-- Separators only. -/
def IsGap (run : Bytes) : Prop := ∀ c ∈ run, isSeparator c = true

/-- A word without separators and newlines. -/
structure IsToken (word : Bytes) : Prop where
  ne_nil : word ≠ []
  free : ∀ c ∈ word, isSeparator c = false
  newline : 10 ∉ word

theorem isToken_iff (word : Bytes) :
    word ≠ [] ∧ word.any isSeparator = false ∧ 10 ∉ word ↔ IsToken word := by
  rw [List.any_eq_false]
  constructor
  · rintro ⟨hne, hfree, hnewline⟩
    exact ⟨hne, fun c hc => Bool.eq_false_iff.mpr (hfree c hc), hnewline⟩
  · intro h
    exact ⟨h.ne_nil, fun c hc => Bool.eq_false_iff.mp (h.free c hc), h.newline⟩

instance : DecidablePred IsGap := fun run =>
  inferInstanceAs (Decidable (∀ c ∈ run, isSeparator c = true))

instance : DecidablePred IsToken := fun word =>
  decidable_of_iff (word ≠ [] ∧ word.any isSeparator = false ∧ 10 ∉ word) (isToken_iff word)

/-- The line is what its constructor says. -/
def WellFormed : ConfigLine → Prop
  | separators run => IsGap run
  | comment text => 10 ∉ text
  | assignment lead key values trail =>
      IsGap lead ∧ IsToken key ∧ (lead = [] → key.head? ≠ some 35) ∧
        (∀ value ∈ values, value.1 ≠ [] ∧ IsGap value.1 ∧ IsToken value.2) ∧ IsGap trail

instance : DecidablePred WellFormed
  | separators run => inferInstanceAs (Decidable (IsGap run))
  | comment text => inferInstanceAs (Decidable (10 ∉ text))
  | assignment lead key values trail => inferInstanceAs (Decidable
      (IsGap lead ∧ IsToken key ∧ (lead = [] → key.head? ≠ some 35) ∧
        (∀ value ∈ values, value.1 ≠ [] ∧ IsGap value.1 ∧ IsToken value.2) ∧ IsGap trail))

theorem IsGap.newline {run : Bytes} (h : IsGap run) : 10 ∉ run :=
  fun hmem => absurd (h 10 hmem) (by decide)

/-- A line of separators is not taken for a comment. -/
theorem IsGap.head_ne_hash {c : UInt8} {run : Bytes} (h : IsGap (c :: run)) : c ≠ 35 := by
  rintro rfl
  exact absurd (h 35 List.mem_cons_self) (by decide)

/-- A line has no newline in it. -/
theorem WellFormed.newline {line : ConfigLine} (h : line.WellFormed) : 10 ∉ line.text := by
  cases line with
  | separators run => exact IsGap.newline h
  | comment text =>
      rw [ConfigLine.text, List.mem_cons, not_or]
      exact ⟨by decide, h⟩
  | assignment lead key values trail =>
      obtain ⟨hlead, hkey, -, hvalues, htrail⟩ := h
      have hmid : 10 ∉ values.flatMap fun value => value.1 ++ value.2 := by
        rw [List.mem_flatMap]
        rintro ⟨value, hvalue, hmem⟩
        obtain ⟨-, hgap, htoken⟩ := hvalues value hvalue
        exact (List.mem_append.mp hmem).elim hgap.newline htoken.newline
      rw [ConfigLine.text, List.mem_append, List.mem_append, List.mem_append, not_or, not_or,
        not_or]
      exact ⟨hlead.newline, hkey.newline, hmid, htrail.newline⟩

/-- A line of separators has no tokens. -/
theorem tokenize_separators {run : Bytes} (h : IsGap run) :
    tokenizeAny isSeparator true run = [] := by
  rw [tokenizeAny, ← List.append_nil run, tokenizeFrom_separators h]
  rfl

section Assignment

variable {lead key trail : Bytes} {values : List (Bytes × Bytes)}

/-- The tokens of a line are its key and its values. -/
theorem tokenize_assignment (h : (assignment lead key values trail).WellFormed) :
    tokenizeAny isSeparator true (assignment lead key values trail).text =
      key :: values.map Prod.snd := by
  obtain ⟨hlead, hkey, -, hvalues, htrail⟩ := h
  rw [text, tokenizeAny, tokenizeFrom_separators hlead, tokenizeFrom_append hkey.free,
    List.nil_append]
  exact tokenizeFrom_words htrail (fun value hvalue => ⟨(hvalues value hvalue).1,
    (hvalues value hvalue).2.1⟩) (fun value hvalue => ⟨(hvalues value hvalue).2.2.ne_nil,
    (hvalues value hvalue).2.2.free⟩) hkey.ne_nil

/-- The line is not taken for a comment. -/
theorem exists_head (h : (assignment lead key values trail).WellFormed) :
    ∃ c line, (assignment lead key values trail).text = c :: line ∧ c ≠ 35 := by
  obtain ⟨hlead, hkey, hhash, -, -⟩ := h
  rw [text]
  cases lead with
  | nil =>
      cases key with
      | nil => exact absurd rfl hkey.ne_nil
      | cons c key => exact ⟨c, _, rfl, fun hc => hhash rfl (congrArg some hc)⟩
  | cons c lead => exact ⟨c, _, rfl, hlead.head_ne_hash⟩

end Assignment

/-! ## Every line is one of these -/

/-- A text cut into words, of which only the first can have no separators in
front. -/
theorem exists_words {text : Bytes} (h : 10 ∉ text) :
    ∃ (words : List (Bytes × Bytes)) (trail : Bytes),
      text = words.flatMap (fun word => word.1 ++ word.2) ++ trail ∧ IsGap trail ∧
        (∀ word ∈ words, IsGap word.1 ∧ IsToken word.2) ∧ ∀ word ∈ words.tail, word.1 ≠ [] := by
  induction text with
  | nil => exact ⟨[], [], rfl, fun c hc => absurd hc List.not_mem_nil, by simp, by simp⟩
  | cons c text ih =>
      rw [List.mem_cons, not_or] at h
      obtain ⟨words, trail, rfl, htrail, hwords, htail⟩ := ih h.2
      have hone : isSeparator c = false → IsToken [c] := fun hc =>
        ⟨List.cons_ne_nil c [], by simpa using hc, by simpa using h.1⟩
      cases hc : isSeparator c with
      | true =>
          cases words with
          | nil =>
              refine ⟨[], c :: trail, rfl, ?_, by simp, by simp⟩
              exact List.forall_mem_cons.mpr ⟨hc, htrail⟩
          | cons word words =>
              obtain ⟨hword, hwords⟩ := List.forall_mem_cons.mp hwords
              refine ⟨(c :: word.1, word.2) :: words, trail, rfl, htrail, ?_, htail⟩
              exact List.forall_mem_cons.mpr
                ⟨⟨List.forall_mem_cons.mpr ⟨hc, hword.1⟩, hword.2⟩, hwords⟩
      | false =>
          cases words with
          | nil => exact ⟨[([], [c])], trail, rfl, htrail, by simpa [IsGap] using hone hc, by simp⟩
          | cons word words =>
              obtain ⟨hword, hwords'⟩ := List.forall_mem_cons.mp hwords
              by_cases hgap : word.1 = []
              · refine ⟨([], c :: word.2) :: words, trail, ?_, htrail, ?_, htail⟩
                · rw [List.flatMap_cons, List.flatMap_cons, hgap]
                  rfl
                · refine List.forall_mem_cons.mpr ⟨⟨by simp [IsGap], ?_⟩, hwords'⟩
                  exact ⟨List.cons_ne_nil _ _, List.forall_mem_cons.mpr ⟨hc, hword.2.free⟩,
                    by simpa using ⟨h.1, hword.2.newline⟩⟩
              · refine ⟨([], [c]) :: word :: words, trail, rfl, htrail, ?_, ?_⟩
                · exact List.forall_mem_cons.mpr ⟨⟨by simp [IsGap], hone hc⟩, hwords⟩
                · exact List.forall_mem_cons.mpr ⟨hgap, htail⟩

/-- A text without a newline is the text of a line. -/
theorem exists_text {text : Bytes} (h : 10 ∉ text) :
    ∃ line : ConfigLine, line.WellFormed ∧ line.text = text := by
  obtain ⟨words, trail, rfl, htrail, hwords, htail⟩ := exists_words h
  cases words with
  | nil => exact ⟨.separators trail, htrail, rfl⟩
  | cons word words =>
      obtain ⟨⟨hgap, hkey⟩, hwords⟩ := List.forall_mem_cons.mp hwords
      have htext : (assignment word.1 word.2 words trail).text =
          (word :: words).flatMap (fun word => word.1 ++ word.2) ++ trail := by
        rw [text, List.flatMap_cons, List.append_assoc, List.append_assoc]
      by_cases hhash : word.1 = [] ∧ word.2.head? = some 35
      · obtain ⟨key, hword⟩ := List.head?_eq_some_iff.mp hhash.2
        have hcomment : (ConfigLine.comment
            (key ++ (words.flatMap (fun word => word.1 ++ word.2) ++ trail))).text =
            (word :: words).flatMap (fun word => word.1 ++ word.2) ++ trail := by
          rw [← htext, ConfigLine.text, ConfigLine.text, hhash.1, hword]
          rfl
        refine ⟨.comment _, ?_, hcomment⟩
        rw [← hcomment, ConfigLine.text, List.mem_cons, not_or] at h
        exact h.2
      · exact ⟨.assignment word.1 word.2 words trail, ⟨hgap, hkey, fun hlead hhead =>
          hhash ⟨hlead, hhead⟩, fun value hvalue => ⟨htail value hvalue, hwords value hvalue⟩,
          htrail⟩, htext⟩

/-! ## Texts -/

/-- The lines of a configuration, with a newline between them. -/
def joined (lines : List ConfigLine) : Bytes :=
  List.intercalate [10] (lines.map ConfigLine.text)

/-- The keys of the lines, with their values. -/
def entries (lines : List ConfigLine) : List (Bytes × List Bytes) :=
  lines.filterMap ConfigLine.entry?

theorem joined_length (lines : List ConfigLine) :
    (joined lines).length = (lines.map fun line => line.text.length + 1).sum - 1 := by
  induction lines with
  | nil => rfl
  | cons line lines ih =>
      cases lines with
      | nil => simp [joined]
      | cons next lines =>
          rw [joined] at ih ⊢
          rw [List.map_cons, List.map_cons, List.intercalate_cons_cons, List.append_assoc,
            ← List.map_cons, List.length_append, List.length_append, ih]
          simp only [List.map_cons, List.sum_cons, List.length_singleton]
          omega

/-- The length of a text does not depend on the order of its lines. -/
theorem joined_length_perm {lines lines' : List ConfigLine} (h : lines'.Perm lines) :
    (joined lines').length = (joined lines).length := by
  rw [joined_length, joined_length, (h.map fun line => line.text.length + 1).sum_nat]

theorem tokenize_lines {lines : List ConfigLine} (h : ∀ line ∈ lines, line.WellFormed)
    (removeEmptyTokens : Bool) :
    tokenize 10 removeEmptyTokens (joined lines) =
      joinedTokens removeEmptyTokens (lines.map ConfigLine.text) := by
  refine tokenize_joined fun piece hpiece => ?_
  obtain ⟨line, hline, rfl⟩ := List.mem_map.mp hpiece
  exact (h line hline).newline

end ConfigLine

end Tactmon
