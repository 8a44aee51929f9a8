import Tactmon.Lib.Lexing
import Tactmon.Orm.Neighbours

/-!
# Lexemes of the text of a query

Splitting the text of a query into lexemes should give the lexemes of the query.
It does for every query but two kinds (`toString_lexemes_iff`).

* The text of a `DELETE` query begins with `DELETE FROM` and the name of the
  schema without a blank between: two words have fused.
* No digit is written for a zero, be it a constant or the index of a bound
  placeholder: a character is missing.

The second is found by counting characters and the first by counting lexemes.
-/

namespace Tactmon

namespace Orm

open Binary Text Piece

variable {T : Type}

/-- The characters of SQL: words have the characters of names and the dollar, and
the blanks are those of ASCII. -/
def sql : Lexing.Alphabet UInt8 where
  isWord c := isNameChar c || c == 36
  isBlank c := c == 32 || c == 9 || c == 10 || c == 13
  not_blank c h := by
    by_contra hblank
    simp only [Bool.not_eq_false, Bool.or_eq_true, beq_iff_eq] at hblank
    obtain ((rfl | rfl) | rfl) | rfl := hblank <;> exact absurd h (by decide)

/-- How a lexeme is spelled when the next index is `p`. -/
def Lexeme.spelling (p : Nat) : Lexeme T → Bytes
  | .keyword k => k.text
  | .name n => n.text
  | .numeral v => decimal v
  | .fresh _ => ascii "$" ++ decimal p
  | .bound i => ascii "$" ++ decimal i
  | .mark m => [m.char]

/-- The spellings of lexemes, with fresh placeholders numbered from `p`. -/
def spell : Nat → List (Lexeme T) → List Bytes
  | _, [] => []
  | p, l :: ls => l.spelling p :: spell (l.next p) ls

/-! ## Missing digits -/

/-- Whether a lexeme loses its digits. -/
def Lexeme.IsZero (l : Lexeme T) : Prop := l = .numeral 0 ∨ l = .bound 0

/-- The characters that are no blanks. -/
def inked (text : Bytes) : Bytes := text.filter fun c => !sql.isBlank c

/-- Words have no blanks. -/
theorem inked_eq_self {word : Bytes} (h : ∀ c ∈ word, sql.isWord c = true) : inked word = word :=
  List.filter_eq_self.mpr fun c hc => by rw [sql.not_blank c (h c hc)]; rfl

theorem Keyword.text_ne_nil (k : Keyword) : k.text ≠ [] := by
  cases k <;> decide

theorem isWord_keyword (k : Keyword) : ∀ c ∈ k.text, sql.isWord c = true := by
  cases k <;> decide +kernel

theorem isWord_name (n : Name) : ∀ c ∈ n.text, sql.isWord c = true := fun c hc => by
  simp [sql, n.isName c hc]

theorem isWord_decimal (v : Nat) : ∀ c ∈ decimal v, sql.isWord c = true := fun c hc => by
  have hdigit := isDigit_of_mem_decimal hc
  rw [isDigit, decide_eq_true_iff] at hdigit
  simp only [sql, isNameChar, Bool.or_eq_true, decide_eq_true_iff]
  omega

theorem isWord_placeholder (i : Nat) : ∀ c ∈ ascii "$" ++ decimal i, sql.isWord c = true :=
  fun c hc => (List.mem_append.mp hc).elim
    (fun h => by cases List.mem_singleton.mp h; rfl) (isWord_decimal i c)

theorem inked_append (a b : Bytes) : inked (a ++ b) = inked a ++ inked b :=
  List.filter_append a b

/-- A lexeme is spelled without blanks. -/
theorem Lexeme.inked_spelling (l : Lexeme T) (p : Nat) : inked (l.spelling p) = l.spelling p := by
  cases l with
  | keyword k => exact inked_eq_self (isWord_keyword k)
  | name n => exact inked_eq_self (isWord_name n)
  | numeral v => exact inked_eq_self (isWord_decimal v)
  | fresh type => exact inked_eq_self (isWord_placeholder p)
  | bound i => exact inked_eq_self (isWord_placeholder i)
  | mark m => cases m <;> rfl

/-- A lexeme that is no zero is written as it is spelled. -/
theorem Lexeme.written_eq_spelling {l : Lexeme T} {p : Nat} (hp : 0 < p) (h : ¬ l.IsZero) :
    (Piece.lexeme l).written p = l.spelling p := by
  cases l with
  | numeral v => exact explode_eq fun hv => h (.inl (by rw [hv]))
  | fresh type => rw [Piece.written, Lexeme.spelling, explode_eq (by omega)]
  | bound i => rw [Piece.written, Lexeme.spelling, explode_eq fun hi => h (.inr (by rw [hi]))]
  | _ => rfl

/-- A zero is written shorter than it is spelled. -/
theorem Lexeme.IsZero.written_lt {l : Lexeme T} (h : l.IsZero) (p : Nat) :
    (inked ((Piece.lexeme l).written p)).length < (l.spelling p).length := by
  obtain rfl | rfl := h
  · show (inked (explode 0)).length < (decimal 0).length
    rw [explode_zero]
    decide
  · show (inked (ascii "$" ++ explode 0)).length < (ascii "$" ++ decimal 0).length
    rw [explode_zero]
    decide

theorem Lexeme.next_pos (l : Lexeme T) {p : Nat} (hp : 0 < p) : 0 < l.next p := by
  cases l <;> first | exact hp | exact Nat.succ_pos p

/-- Characters are missing just where there is a zero. -/
theorem inked_written (pieces : List (Piece T)) {p : Nat} (hp : 0 < p) :
    (inked (written p pieces)).length ≤ (spell p (pieces.filterMap lexeme?)).flatten.length ∧
      ((inked (written p pieces)).length = (spell p (pieces.filterMap lexeme?)).flatten.length →
        ∀ l ∈ pieces.filterMap lexeme?, ¬ l.IsZero) := by
  induction pieces generalizing p with
  | nil => exact ⟨Nat.le_refl _, fun _ l hl => by cases hl⟩
  | cons piece pieces ih =>
      rw [written, inked_append, List.length_append]
      cases piece with
      | blank =>
          have hblank : (inked ((Piece.blank : Piece T).written p)).length = 0 := rfl
          rw [filterMap_blank, hblank, Nat.zero_add]
          exact ih hp
      | lexeme l =>
          obtain ⟨hle, heq⟩ := ih (l.next_pos hp)
          rw [filterMap_lexeme, spell, List.flatten_cons, List.length_append]
          by_cases hzero : l.IsZero
          · have hlt := hzero.written_lt p
            exact ⟨Nat.le_of_lt (Nat.add_lt_add_of_lt_of_le hlt hle),
              fun h => absurd h (Nat.ne_of_lt (Nat.add_lt_add_of_lt_of_le hlt hle))⟩
          · rw [Lexeme.written_eq_spelling hp hzero, l.inked_spelling p]
            refine ⟨Nat.add_le_add_left hle _, fun h => ?_⟩
            rw [List.forall_mem_cons]
            exact ⟨hzero, heq (Nat.add_left_cancel h)⟩

/-! ## Fused words -/

/-- The item that is written for a piece. -/
def Piece.item (p : Nat) : Piece T → Lexing.Item UInt8
  | .blank => .blank 32
  | .lexeme (.mark m) => .mark m.char
  | .lexeme l => .word (l.spelling p)

/-- The items of pieces from index `p`. -/
def items : Nat → List (Piece T) → List (Lexing.Item UInt8)
  | _, [] => []
  | p, piece :: pieces => piece.item p :: items (piece.next p) pieces

theorem Piece.item_wellFormed (piece : Piece T) (p : Nat) : (piece.item p).WellFormed sql := by
  cases piece with
  | blank => exact rfl
  | lexeme l =>
      cases l with
      | keyword k => exact ⟨k.text_ne_nil, isWord_keyword k⟩
      | name n => exact ⟨n.ne_nil, isWord_name n⟩
      | numeral v => exact ⟨decimal_ne_nil v, isWord_decimal v⟩
      | fresh type => exact ⟨List.cons_ne_nil _ _, isWord_placeholder p⟩
      | bound i => exact ⟨List.cons_ne_nil _ _, isWord_placeholder i⟩
      | mark m => exact ⟨by cases m <;> rfl, by cases m <;> rfl⟩

theorem items_wellFormed (pieces : List (Piece T)) (p : Nat) :
    ∀ item ∈ items p pieces, item.WellFormed sql := by
  induction pieces generalizing p with
  | nil => intro item h; cases h
  | cons piece pieces ih =>
      rw [items, List.forall_mem_cons]
      exact ⟨piece.item_wellFormed p, ih (piece.next p)⟩

theorem Piece.isWord_item (piece : Piece T) (p : Nat) : (piece.item p).IsWord ↔ piece.IsWord := by
  cases piece with
  | blank => exact Iff.rfl
  | lexeme l => cases l <;> exact Iff.rfl

/-- The items are separated where the pieces are. -/
theorem separated_items (pieces : List (Piece T)) (p : Nat) :
    Lexing.Separated (items p pieces) ↔
      pieces.IsChain fun a b => ¬ (a.IsWord ∧ b.IsWord) := by
  induction pieces generalizing p with
  | nil => exact ⟨fun _ => .nil, fun _ => .nil⟩
  | cons piece pieces ih =>
      rw [items, Lexing.Separated, List.isChain_cons, List.isChain_cons]
      refine and_congr ?_ (ih _)
      cases pieces with
      | nil => simp [items]
      | cons next pieces =>
          simp [items, Lexing.Item.Apart, piece.isWord_item, next.isWord_item]

/-- The lexemes of the items are the spellings. -/
theorem lexemes_items (pieces : List (Piece T)) (p : Nat) :
    (items p pieces).filterMap Lexing.Item.lexeme? = spell p (pieces.filterMap lexeme?) := by
  induction pieces generalizing p with
  | nil => rfl
  | cons piece pieces ih =>
      rw [items]
      cases piece with
      | blank => exact ih p
      | lexeme l =>
          rw [filterMap_lexeme, spell, ← ih]
          cases l <;> rfl

/-- Without zeros, the text is that of the items. -/
theorem written_eq_items {pieces : List (Piece T)} {p : Nat} (hp : 0 < p)
    (h : ∀ l ∈ pieces.filterMap lexeme?, ¬ l.IsZero) :
    written p pieces = (items p pieces).flatMap Lexing.Item.text := by
  induction pieces generalizing p with
  | nil => rfl
  | cons piece pieces ih =>
      rw [written, items, List.flatMap_cons]
      cases piece with
      | blank => rw [Piece.next, ih hp h]; rfl
      | lexeme l =>
          rw [filterMap_lexeme, List.forall_mem_cons] at h
          rw [Piece.next, ih (l.next_pos hp) h.2, Lexeme.written_eq_spelling hp h.1]
          cases l <;> rfl

theorem apart_wordRelation :
    WordRelation (fun a b : Piece T => ¬ (a.IsWord ∧ b.IsWord)) False where
  right _ _ h hab := h hab.2
  left _ _ h hab := h hab.1
  from_name _ := ⟨fun h => h ⟨trivial, trivial⟩, False.elim⟩

/-- The text of a query splits into the lexemes of the query just when the query
has no `DELETE`, no zero and no placeholder bound to index zero. -/
theorem toString_lexemes_iff (query : Component T) {text : Bytes} (h : query.toString = some text) :
    Lexing.lexemes sql text = spell 1 query.lexemes ↔
      .keyword .DELETE ∉ query.lexemes ∧ .numeral 0 ∉ query.lexemes ∧ .bound 0 ∉ query.lexemes := by
  obtain ⟨s, hs, rfl⟩ := Option.map_eq_some_iff.mp h
  obtain ⟨rfl, -⟩ := Component.renderTo_eq_some hs
  rw [List.nil_append, ← query.filterMap_layout]
  have hfused := query.chain_layout_iff apart_wordRelation
  rw [← query.filterMap_layout] at hfused
  have hzeros : (∀ l ∈ query.layout.filterMap lexeme?, ¬ l.IsZero) ↔
      .numeral 0 ∉ query.layout.filterMap lexeme? ∧ .bound 0 ∉ query.layout.filterMap lexeme? := by
    constructor
    · exact fun h => ⟨fun hmem => h _ hmem (.inl rfl), fun hmem => h _ hmem (.inr rfl)⟩
    · rintro ⟨h₁, h₂⟩ l hl (rfl | rfl)
      · exact h₁ hl
      · exact h₂ hl
  constructor
  · intro heq
    have hink : (inked (written 1 query.layout)).length
        = (spell 1 (query.layout.filterMap lexeme?)).flatten.length := by
      rw [← heq, Lexing.flatten_lexemes]
      rfl
    have hnone := (inked_written query.layout Nat.one_pos).2 hink
    refine ⟨hfused.mp ?_, hzeros.mp hnone⟩
    rw [← separated_items _ 1, ← Lexing.lexemes_text_iff (items_wellFormed _ 1),
      ← written_eq_items Nat.one_pos hnone, heq, lexemes_items]
  · rintro ⟨hdelete, hzero⟩
    have hnone := hzeros.mpr hzero
    rw [written_eq_items Nat.one_pos hnone, (Lexing.lexemes_text_iff (items_wellFormed _ 1)).mpr
      ((separated_items _ 1).mpr (hfused.mpr hdelete)), lexemes_items]

/-! ## Queries of the repository -/

/-- The types of the columns that are stored. -/
inductive ValueType where
  | uint32
  | uint64
  | string
deriving DecidableEq, Repr

namespace TrackedFile

/-- `entity::tracked_file::product_name`. -/
def productName : Column ValueType := ⟨.literal "product_name", .string⟩

/-- `entity::tracked_file::file_path`. -/
def filePath : Column ValueType := ⟨.literal "file_path", .string⟩

/-- `entity::tracked_file::display_name`. -/
def displayName : Column ValueType := ⟨.literal "display_name", .string⟩

/-- `entity::tracked_file::Entity`. -/
def entity : Entity ValueType where
  name := .literal "tracked_files"
  schema := .literal "public"
  columns := [⟨.literal "id", .uint32⟩, productName, filePath, displayName]

/-- `entity::tracked_file::queries::Insert`. -/
def insert : Component ValueType :=
  insertInto entity [(productName, .parameter), (filePath, .parameter), (displayName, .parameter)]

/-- `entity::tracked_file::queries::Delete`. -/
def delete : Component ValueType :=
  .delete entity (.whereClause (.conjunction
    [equals (.column productName) .parameter, equals (.column filePath) .parameter]))

end TrackedFile

namespace Build

/-- `entity::build::id`. -/
def id : Column ValueType := ⟨.literal "id", .uint32⟩

/-- `entity::build::product_name`. -/
def productName : Column ValueType := ⟨.literal "product_name", .string⟩

/-- `entity::build::build_name`. -/
def buildName : Column ValueType := ⟨.literal "build_name", .string⟩

/-- `entity::build::build_config`. -/
def buildConfig : Column ValueType := ⟨.literal "build_config", .string⟩

/-- `entity::build::cdn_config`. -/
def cdnConfig : Column ValueType := ⟨.literal "cdn_config", .string⟩

/-- `entity::build::detected_at`. -/
def detectedAt : Column ValueType := ⟨.literal "detected_at", .uint64⟩

/-- `entity::build::region`. -/
def region : Column ValueType := ⟨.literal "region", .string⟩

/-- `entity::build::Entity`. -/
def entity : Entity ValueType where
  name := .literal "builds"
  schema := .literal "public"
  columns := [id, productName, buildName, buildConfig, cdnConfig, detectedAt, region]

/-- `entity::build::dto::columns::id_count`. -/
def idCount : Component ValueType :=
  .aliased (.literal "id_count")
    (.over (.function .uint64 (.literal "COUNT") [.column id]) (.partitionBy (.column productName)))

/-- `entity::build::queries::SelStatistics`. -/
def selStatistics : Component ValueType :=
  .select (.projection [idCount, .column buildName, .column detectedAt, .column buildConfig,
      .column cdnConfig]) (.entity entity)
    [.whereClause (equals (.column productName) .parameter),
      .orderBy [.orderClause (.column id) false], .limit (.constant 1), .offset (.constant 0)]

end Build

theorem toString_lexemes_insert :
    (∃ text, TrackedFile.insert.toString = some text ∧
      Lexing.lexemes sql text = spell 1 TrackedFile.insert.lexemes) := by
  obtain ⟨text, htext⟩ : ∃ text, TrackedFile.insert.toString = some text :=
    Option.isSome_iff_exists.mp (by decide +kernel)
  exact ⟨text, htext, (toString_lexemes_iff _ htext).mpr (by decide +kernel)⟩

/-- The statement that deletes tracked files has no `FROM`, and the statistics of
builds are asked for with an `OFFSET` without its zero. -/
theorem toString_lexemes_wrong :
    (∃ text, TrackedFile.delete.toString = some text ∧
      Lexing.lexemes sql text ≠ spell 1 TrackedFile.delete.lexemes) ∧
    ∃ text, Build.selStatistics.toString = some text ∧
      Lexing.lexemes sql text ≠ spell 1 Build.selStatistics.lexemes := by
  refine ⟨⟨ascii ("DELETE FROMpublic.tracked_files WHERE ( product_name = $1 AND " ++
      " file_path = $2)"), ?_, ?_⟩,
    ⟨ascii ("SELECT COUNT( id) OVER (PARTITION BY  product_name) AS id_count,  build_name, " ++
      " detected_at,  build_config,  cdn_config FROM public.builds WHERE  product_name = $1 " ++
      "ORDER BY  id DESC LIMIT 1 OFFSET "), ?_, ?_⟩⟩ <;>
    decide +kernel

end Orm

end Tactmon
