import Mathlib.Data.List.Chain
import Tactmon.Orm.Layout

/-!
# Where two words meet

Text that is written word after word can only be read back if no two words stand
side by side.  In the layout of a query they do so in one place: `DELETE FROM`
is followed directly by the schema of the entity.

`chain_layout_iff` says this for any relation between neighbours that asks
nothing where one of them is a blank or a mark: it holds along the layout just
when the query has no `DELETE`, or the relation allows `FROM` before a name.
-/

namespace Tactmon

namespace Orm

open Piece

variable {T : Type}

/-- Whether a piece is a word, a numeral or a placeholder. -/
def Piece.IsWord : Piece T → Prop
  | .blank => False
  | .lexeme (.mark _) => False
  | .lexeme _ => True

@[simp] theorem not_isWord_blank : ¬ (Piece.blank : Piece T).IsWord := id

@[simp] theorem not_isWord_punct (m : Mark) : ¬ (punct m : Piece T).IsWord := id

/-- A relation between neighbours that asks nothing where one of them is no word.
Of `FROM` and a name it asks `D`. -/
structure WordRelation (R : Piece T → Piece T → Prop) (D : Prop) : Prop where
  right : ∀ x y : Piece T, ¬ y.IsWord → R x y
  left : ∀ x y : Piece T, ¬ x.IsWord → R x y
  from_name : ∀ n : Name, R (kw .FROM) (nm n) ↔ D

variable {R : Piece T → Piece T → Prop} {D : Prop} (hR : WordRelation R D)

include hR in
theorem chain_cons {x : Piece T} (h : ¬ x.IsWord) (pieces : List (Piece T)) :
    (x :: pieces).IsChain R ↔ pieces.IsChain R := by
  rw [List.isChain_cons]
  exact and_iff_right fun y _ => hR.left x y h

include hR in
theorem chain_word_cons {y : Piece T} (h : ¬ y.IsWord) (x : Piece T) (pieces : List (Piece T)) :
    (x :: y :: pieces).IsChain R ↔ (y :: pieces).IsChain R := by
  rw [List.isChain_cons_cons]
  exact and_iff_right (hR.right x y h)

include hR in
theorem chain_append {y : Piece T} (h : ¬ y.IsWord) (before pieces : List (Piece T)) :
    (before ++ y :: pieces).IsChain R ↔ before.IsChain R ∧ (y :: pieces).IsChain R := by
  rw [List.isChain_append]
  exact ⟨fun h => ⟨h.1, h.2.1⟩, fun ⟨h₁, h₂⟩ => ⟨h₁, h₂, fun x _ z hz => by
    cases hz
    exact hR.right x y h⟩⟩

/-- A list of pieces that begins and ends with a blank or a mark. -/
structure Separates (R : Piece T → Piece T → Prop) (separator : List (Piece T)) : Prop where
  head : ∃ y tail, separator = y :: tail ∧ ¬ y.IsWord
  last : ∃ init x, separator = init ++ [x] ∧ ¬ x.IsWord
  chain : separator.IsChain R

include hR in
theorem chain_joined {separator : List (Piece T)} (hsep : Separates R separator)
    (ls : List (List (Piece T))) :
    (joined separator ls).IsChain R ↔ ∀ l ∈ ls, l.IsChain R := by
  obtain ⟨⟨y, tail, hhead, hy⟩, ⟨init, x, hlast, hx⟩, hchain⟩ := hsep
  have htail : ∀ (before : List (Piece T)) (ls : List (List (Piece T))),
      (before ++ ls.flatMap fun l => separator ++ l).IsChain R
        ↔ before.IsChain R ∧ ∀ l ∈ ls, l.IsChain R := by
    intro before ls
    induction ls generalizing before with
    | nil => simp
    | cons l ls ih =>
        have hl : (separator ++ l).IsChain R ↔ l.IsChain R := by
          rw [List.isChain_append]
          refine ⟨fun h => h.2.1, fun h => ⟨hchain, h, fun z hz w _ => ?_⟩⟩
          rw [hlast, List.getLast?_concat] at hz
          cases hz
          exact hR.left x w hx
        rw [List.flatMap_cons, ← List.append_assoc, ih, List.forall_mem_cons, ← and_assoc]
        refine and_congr_left fun _ => ?_
        rw [← hl, hhead, List.cons_append, chain_append hR hy]
  cases ls with
  | nil => simp [joined]
  | cons l ls => rw [joined, htail, List.forall_mem_cons]

theorem mem_joined {α : Type} {separator : List α} {x : α} (h : x ∉ separator)
    (ls : List (List α)) : x ∈ joined separator ls ↔ ∃ l ∈ ls, x ∈ l := by
  cases ls with
  | nil => simp [joined]
  | cons l ls => simp [joined, h]

include hR in
theorem comma_separates : Separates R commaPieces where
  head := ⟨_, _, rfl, id⟩
  last := ⟨[punct .comma], .blank, rfl, id⟩
  chain := List.isChain_pair.mpr (hR.left _ _ id)

include hR in
theorem and_separates : Separates R [.blank, kw .AND, .blank] where
  head := ⟨_, _, rfl, id⟩
  last := ⟨[.blank, kw .AND], .blank, rfl, id⟩
  chain := .cons_cons (hR.left _ _ id) (List.isChain_pair.mpr (hR.right _ _ id))

include hR in
theorem or_separates : Separates R [.blank, kw .OR, .blank] where
  head := ⟨_, _, rfl, id⟩
  last := ⟨[.blank, kw .OR], .blank, rfl, id⟩
  chain := .cons_cons (hR.left _ _ id) (List.isChain_pair.mpr (hR.right _ _ id))

theorem blank_separates : Separates R [.blank] where
  head := ⟨_, _, rfl, id⟩
  last := ⟨[], .blank, rfl, id⟩
  chain := .singleton _

include hR in
theorem chain_from (n : Name) (pieces : List (Piece T)) :
    (kw .FROM :: nm n :: pieces).IsChain R ↔ D ∧ (nm n :: pieces).IsChain R := by
  rw [List.isChain_cons_cons, hR.from_name]

section Cases

attribute [local simp] Component.layout Component.lexemes Column.layout Column.layoutOf
  Column.layoutExcluded Column.lexemesExcluded Entity.layout Entity.lexemes or_imp mem_joined

attribute [-simp] List.isChain_cons_cons List.isChain_append_cons_cons

mutual
/-- Only `DELETE FROM` is followed by a name without a blank between. -/
theorem Component.chain_layout_iff (hR : WordRelation R D) : ∀ c : Component T,
    c.layout.IsChain R ↔ (Lexeme.keyword Keyword.DELETE ∈ c.lexemes → D)
  -- components without parts
  | .column _ | .entity _ | .reference _ | .rawLiteral _ | .raw _ | .parameter _
  | .boundParameter _ | .constant _ | .onConstraint _ | .doNothing => by
      simp [chain_cons hR, chain_word_cons hR]
  -- components with one part
  | .of c _ | .selector _ c | .aliased _ c | .partitionBy c | .not c | .isNull c
  | .whereClause c | .offset c | .limit c => by
      simp [chain_cons hR, chain_word_cons hR, chain_append hR, c.chain_layout_iff hR]
  | .orderClause c ascending => by
      cases ascending <;> simp [chain_cons hR, chain_append hR, c.chain_layout_iff hR]
  | .cte name recursive query => by
      cases recursive <;>
        simp [chain_cons hR, chain_word_cons hR, chain_append hR, query.chain_layout_iff hR]
  -- components with two parts
  | .distinctOn c d | .over c d | .binaryCriteria _ c d | .returning c d | .updateWhere c d => by
      simp [chain_cons hR, chain_word_cons hR, chain_append hR, c.chain_layout_iff hR,
        d.chain_layout_iff hR]
  | .onConflict query conflicting c => by
      simp [chain_cons hR, chain_word_cons hR, chain_append hR, query.chain_layout_iff hR,
        conflicting.chain_layout_iff hR, c.chain_layout_iff hR]
  -- components with a pack
  | .projection components | .function _ _ components | .conjunction components
  | .disjunction components | .orderBy components | .groupBy components | .set components
  | .update _ components => by
      simp [chain_cons hR, chain_word_cons hR, chain_append hR,
        chain_joined hR (comma_separates hR), chain_joined hR (and_separates hR),
        chain_joined hR (or_separates hR), chain_layoutEach_iff hR components]
  | .select projection entity [] => by
      simp [chain_cons hR, chain_word_cons hR, chain_append hR, layoutEach, lexemesEach, joined,
        projection.chain_layout_iff hR, entity.chain_layout_iff hR]
  | .select projection entity (c :: components) => by
      simp [chain_cons hR, chain_word_cons hR, chain_append hR, projection.chain_layout_iff hR,
        entity.chain_layout_iff hR, chain_joined hR blank_separates,
        chain_layoutEach_iff hR (c :: components)]
  | .withExpressions query expressions => by
      simp [chain_cons hR, chain_word_cons hR, chain_append hR,
        chain_joined hR (comma_separates hR), chain_layoutEach_iff hR expressions,
        query.chain_layout_iff hR]
  | .insert e columns parameters => by
      simp [chain_cons hR, chain_word_cons hR, chain_append hR,
        chain_joined hR (comma_separates hR), chain_layoutEach_iff hR parameters]
  | .updateFromExcluded _ columns => by
      simp [chain_cons hR, chain_word_cons hR, chain_joined hR (comma_separates hR)]
  | .delete e criteria => by
      simp [chain_cons hR, chain_word_cons hR, chain_from hR, criteria.chain_layout_iff hR]
      exact fun h _ => h

/-- The same for the components of a pack. -/
theorem chain_layoutEach_iff (hR : WordRelation R D) : ∀ components : List (Component T),
    (∀ l ∈ layoutEach components, l.IsChain R) ↔
      ((∃ l ∈ lexemesEach components, Lexeme.keyword Keyword.DELETE ∈ l) → D)
  | [] => by simp [layoutEach, lexemesEach]
  | c :: components => by
      rw [layoutEach, lexemesEach, List.forall_mem_cons, c.chain_layout_iff hR,
        chain_layoutEach_iff hR components]
      simp
end

end Cases

end Orm

end Tactmon
