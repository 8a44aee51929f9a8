import Mathlib.Data.List.Chain

/-!
# Lexemes

A text over an alphabet in which some characters belong to words and some are
blanks.  A lexeme is a longest run of word characters, or one character that is
neither (`lexemes`).

A writer produces words, marks and blanks (`Item`).  What it has written lexes
back to its words and marks just when no two words stand side by side
(`lexemes_text_iff`): two such words fuse, and a lexeme is lost.  Nothing else
can go wrong, because lexing drops the blanks and no other character
(`flatten_lexemes`).
-/

namespace Lexing

universe u

/-- The characters of words, and the blanks. -/
structure Alphabet (α : Type u) where
  isWord : α → Bool
  isBlank : α → Bool
  not_blank : ∀ c, isWord c = true → isBlank c = false

variable {α : Type u} (A : Alphabet α)

/-- The word read so far, where there is one. -/
def flush : List α → List (List α)
  | [] => []
  | c :: word => [c :: word]

/-- Lexes a text with a word begun. -/
def scan : List α → List α → List (List α)
  | word, [] => flush word
  | word, c :: text =>
      if A.isWord c then scan (word ++ [c]) text
      else if A.isBlank c then flush word ++ scan [] text
      else flush word ++ [c] :: scan [] text

/-- The lexemes of a text. -/
def lexemes (text : List α) : List (List α) := scan A [] text

@[simp] theorem flatten_flush (word : List α) : (flush word).flatten = word := by
  cases word <;> simp [flush]

theorem length_flush_of_ne_nil {word : List α} (h : word ≠ []) : (flush word).length = 1 := by
  cases word with
  | nil => exact absurd rfl h
  | cons c word => rfl

theorem flatten_scan (word text : List α) :
    (scan A word text).flatten = word ++ text.filter (fun c => !A.isBlank c) := by
  induction text generalizing word with
  | nil => simp [scan]
  | cons c text ih =>
      rw [scan]
      split
      · rename_i hword
        rw [ih, List.filter_cons_of_pos (by simp [A.not_blank c hword])]
        simp
      · split <;> rename_i hblank <;> simp [ih, hblank]

/-- Lexing drops the blanks and nothing else. -/
theorem flatten_lexemes (text : List α) :
    (lexemes A text).flatten = text.filter (fun c => !A.isBlank c) :=
  flatten_scan A [] text

/-- Word characters are added to the word begun. -/
theorem scan_append_word {run : List α} (h : ∀ c ∈ run, A.isWord c = true) (word text : List α) :
    scan A word (run ++ text) = scan A (word ++ run) text := by
  induction run generalizing word with
  | nil => simp
  | cons c run ih =>
      rw [List.cons_append, scan, if_pos (h c List.mem_cons_self),
        ih (fun d hd => h d (List.mem_cons_of_mem c hd))]
      simp

/-! ## What a writer produces -/

/-- A word, a mark or a blank, as it is written. -/
inductive Item (α : Type u) where
  | word (run : List α)
  | mark (c : α)
  | blank (c : α)

namespace Item

/-- The characters of an item. -/
def text : Item α → List α
  | .word run => run
  | .mark c => [c]
  | .blank c => [c]

/-- The lexeme that an item stands for. -/
def lexeme? : Item α → Option (List α)
  | .word run => some run
  | .mark c => some [c]
  | .blank _ => none

/-- Whether an item is a word. -/
def IsWord : Item α → Prop
  | .word _ => True
  | _ => False

/-- An item is made of the characters of its kind. -/
def WellFormed : Item α → Prop
  | .word run => run ≠ [] ∧ ∀ c ∈ run, A.isWord c = true
  | .mark c => A.isWord c = false ∧ A.isBlank c = false
  | .blank c => A.isBlank c = true

/-- Two items may stand side by side: they are not both words. -/
def Apart (a b : Item α) : Prop := ¬ (a.IsWord ∧ b.IsWord)

end Item

open Item

/-- No two words stand side by side. -/
def Separated (items : List (Item α)) : Prop := items.IsChain Apart

/-- No word begun runs into the items that follow. -/
def Open (word : List α) (items : List (Item α)) : Prop :=
  word ≠ [] → ∀ b ∈ items.head?, ¬ b.IsWord

variable {A}

theorem isWord_of_blank {c : α} (h : A.isBlank c = true) : A.isWord c = false := by
  cases hword : A.isWord c with
  | false => rfl
  | true => rw [A.not_blank c hword] at h; cases h

theorem scan_word {run : List α} (h : (Item.word run).WellFormed A) (word text : List α) :
    scan A word ((Item.word run).text ++ text) = scan A (word ++ run) text :=
  scan_append_word A h.2 word text

theorem scan_mark {c : α} (h : (Item.mark c).WellFormed A) (word text : List α) :
    scan A word ((Item.mark c).text ++ text) = flush word ++ [c] :: scan A [] text := by
  simp [Item.text, scan, h.1, h.2]

theorem scan_blank {c : α} (h : (Item.blank c).WellFormed A) (word text : List α) :
    scan A word ((Item.blank c).text ++ text) = flush word ++ scan A [] text := by
  have hblank : A.isBlank c = true := h
  simp [Item.text, scan, hblank, isWord_of_blank hblank]

/-- Behind a word, the text it is in is begun. -/
theorem separated_word {word : List α} {items : List (Item α)} (run : List α)
    (hne : word ++ run ≠ []) :
    Separated (Item.word run :: items) ↔ Open (word ++ run) items ∧ Separated items := by
  rw [Separated, List.isChain_cons]
  simp [Apart, Open, Item.IsWord, hne, Separated]

/-- Behind an item that is no word, nothing is begun. -/
theorem separated_break (word : List α) (items : List (Item α)) {item : Item α}
    (h : ¬ item.IsWord) :
    Open word (item :: items) ∧ Separated (item :: items) ↔ Open [] items ∧ Separated items := by
  rw [Separated, List.isChain_cons]
  simp [Apart, Open, h, Separated]

/-- A word begun is lost where the next item is a word: `word` fuses with it. -/
theorem scan_items (word : List α) {items : List (Item α)}
    (hok : ∀ item ∈ items, item.WellFormed A) :
    (scan A word (items.flatMap Item.text)).length
        ≤ (flush word).length + (items.filterMap Item.lexeme?).length ∧
      ((scan A word (items.flatMap Item.text)).length
          = (flush word).length + (items.filterMap Item.lexeme?).length ↔
        Open word items ∧ Separated items) ∧
      (Open word items → Separated items →
        scan A word (items.flatMap Item.text) = flush word ++ items.filterMap Item.lexeme?) := by
  induction items generalizing word with
  | nil => simp [scan, Open, Separated]
  | cons item items ih =>
      have hitem := hok item List.mem_cons_self
      replace ih := fun word => ih word fun i hi => hok i (List.mem_cons_of_mem item hi)
      rw [List.flatMap_cons]
      cases item with
      | word run =>
          have hne : word ++ run ≠ [] := by simp [hitem.1]
          obtain ⟨hle, hiff, heq⟩ := ih (word ++ run)
          have hsep : _ ↔ Open (word ++ run) items ∧ Separated items := separated_word run hne
          rw [scan_word hitem, List.filterMap_cons_some (by rfl), List.length_cons]
          rw [length_flush_of_ne_nil hne] at hle hiff
          by_cases hword : word = []
          · subst hword
            refine ⟨by simp only [flush, List.length_nil]; omega, ?_, ?_⟩
            · rw [hsep, ← hiff]
              simp only [flush, List.length_nil, Open]
              constructor
              · intro h
                exact ⟨fun h => absurd rfl h, by omega⟩
              · rintro ⟨-, h⟩
                omega
            · intro _ h
              rw [heq (hsep.mp h).1 (hsep.mp h).2]
              cases run with
              | nil => exact absurd rfl hitem.1
              | cons c run => rfl
          · rw [length_flush_of_ne_nil hword]
            have hopen : ¬ Open word (Item.word run :: items) :=
              fun h => h hword _ rfl trivial
            refine ⟨by omega, ?_, fun h => absurd h hopen⟩
            constructor
            · intro h
              omega
            · exact fun h => absurd h.1 hopen
      | mark c =>
          obtain ⟨hle, hiff, heq⟩ := ih []
          have hsep := @separated_break _ word items (.mark c) id
          rw [scan_mark hitem, List.filterMap_cons_some (by rfl), hsep, ← hiff]
          simp only [flush, List.length_nil, List.length_append, List.length_cons] at hle ⊢
          refine ⟨by omega, by omega, fun h₁ h₂ => ?_⟩
          rw [heq (hsep.mp ⟨h₁, h₂⟩).1 (hsep.mp ⟨h₁, h₂⟩).2]
          rfl
      | blank c =>
          obtain ⟨hle, hiff, heq⟩ := ih []
          have hsep := @separated_break _ word items (.blank c) id
          rw [scan_blank hitem, List.filterMap_cons_none (by rfl), hsep, ← hiff]
          simp only [flush, List.length_nil, List.length_append] at hle ⊢
          refine ⟨by omega, by omega, fun h₁ h₂ => ?_⟩
          rw [heq (hsep.mp ⟨h₁, h₂⟩).1 (hsep.mp ⟨h₁, h₂⟩).2]
          rfl

/-- What is written lexes back just when no two words stand side by side. -/
theorem lexemes_text_iff {items : List (Item α)} (hok : ∀ item ∈ items, item.WellFormed A) :
    lexemes A (items.flatMap Item.text) = items.filterMap Item.lexeme? ↔ Separated items := by
  obtain ⟨-, hiff, heq⟩ := scan_items [] hok
  have hopen : Open [] items := fun h => absurd rfl h
  constructor
  · intro h
    refine (hiff.mp ?_).2
    rw [← lexemes, h]
    simp [flush]
  · exact heq hopen

end Lexing
