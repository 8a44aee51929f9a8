import Tactmon.Orm.Component

/-!
# What a query writes

The lexemes of a query, `lexemes`, are read off the tree: keywords, names,
numerals, placeholders and punctuation, in order.  A fresh placeholder carries
the value type of the component it is bound to, and has no number yet.

`layout` adds the blanks as the templates write them, and `renderTo_eq_write`
says that `render_to` writes the layout piece by piece, numbering the fresh
placeholders on the way.
-/

namespace Tactmon

namespace Orm

open Binary Text

/-! ## Lexemes -/

/-- The keywords that the templates write. -/
inductive Keyword where
  | SELECT
  | FROM
  | WHERE
  | AND
  | OR
  | OFFSET
  | LIMIT
  | ASC
  | DESC
  | ORDER
  | GROUP
  | BY
  | DISTINCT
  | ON
  | AS
  | OVER
  | PARTITION
  | IS
  | NULL
  | RECURSIVE
  | WITH
  | INSERT
  | INTO
  | VALUES
  | CONFLICT
  | DO
  | CONSTRAINT
  | UPDATE
  | SET
  | NOTHING
  | EXCLUDED
  | RETURNING
  | DELETE
deriving DecidableEq, Repr

/-- How a keyword is spelled. -/
def Keyword.text : Keyword → Bytes
  | .SELECT => ascii "SELECT"
  | .FROM => ascii "FROM"
  | .WHERE => ascii "WHERE"
  | .AND => ascii "AND"
  | .OR => ascii "OR"
  | .OFFSET => ascii "OFFSET"
  | .LIMIT => ascii "LIMIT"
  | .ASC => ascii "ASC"
  | .DESC => ascii "DESC"
  | .ORDER => ascii "ORDER"
  | .GROUP => ascii "GROUP"
  | .BY => ascii "BY"
  | .DISTINCT => ascii "DISTINCT"
  | .ON => ascii "ON"
  | .AS => ascii "AS"
  | .OVER => ascii "OVER"
  | .PARTITION => ascii "PARTITION"
  | .IS => ascii "IS"
  | .NULL => ascii "NULL"
  | .RECURSIVE => ascii "RECURSIVE"
  | .WITH => ascii "WITH"
  | .INSERT => ascii "INSERT"
  | .INTO => ascii "INTO"
  | .VALUES => ascii "VALUES"
  | .CONFLICT => ascii "CONFLICT"
  | .DO => ascii "DO"
  | .CONSTRAINT => ascii "CONSTRAINT"
  | .UPDATE => ascii "UPDATE"
  | .SET => ascii "SET"
  | .NOTHING => ascii "NOTHING"
  | .EXCLUDED => ascii "EXCLUDED"
  | .RETURNING => ascii "RETURNING"
  | .DELETE => ascii "DELETE"

/-- Punctuation. -/
inductive Mark where
  | opening
  | closing
  | comma
  | dot
  | exclamation
  | equal
  | greater
  | less
deriving DecidableEq, Repr

/-- The character of a mark. -/
def Mark.char : Mark → UInt8
  | .opening => 40
  | .closing => 41
  | .comma => 44
  | .dot => 46
  | .exclamation => 33
  | .equal => 61
  | .greater => 62
  | .less => 60

/-- A lexeme of a query.  A qualified name is its names with dots between. -/
inductive Lexeme (T : Type) where
  | keyword (k : Keyword)
  | name (n : Name)
  | numeral (v : Nat)
  | fresh (type : Option T)
  | bound (i : Nat)
  | mark (m : Mark)
deriving DecidableEq

variable {T : Type}

/-- The lists one after the other, with `separator` between. -/
def joined {α : Type} (separator : List α) : List (List α) → List α
  | [] => []
  | l :: ls => l ++ ls.flatMap fun l => separator ++ l

/-- The mark of a comparison. -/
def Comparison.mark : Comparison → Mark
  | .equals => .equal
  | .greaterThan => .greater
  | .lessThan => .less

/-- The qualified name of an entity. -/
def Entity.lexemes (e : Entity T) : List (Lexeme T) := [.name e.schema, .mark .dot, .name e.name]

/-- An assignment from the row that was excluded. -/
def Column.lexemesExcluded (c : Column T) : List (Lexeme T) :=
  [.name c.name, .mark .equal, .keyword .EXCLUDED, .mark .dot, .name c.name]

mutual
/-- The lexemes of a component. -/
def Component.lexemes : Component T → List (Lexeme T)
  | .column c => [.name c.name]
  | .of projection c => projection.lexemes ++ [.mark .dot, .name c.name]
  | .entity e => e.lexemes
  | .projection columns => joined [.mark .comma] (lexemesEach columns)
  | .function _ name components =>
      .name name :: .mark .opening :: joined [.mark .comma] (lexemesEach components) ++
        [.mark .closing]
  | .selector token c => .name token :: c.lexemes
  | .distinctOn c criteria =>
      .keyword .DISTINCT :: .keyword .ON :: .mark .opening :: criteria.lexemes ++
        .mark .closing :: c.lexemes
  | .aliased token c => c.lexemes ++ [.keyword .AS, .name token]
  | .reference token => [.name token]
  | .rawLiteral keyword => [.name keyword]
  | .raw v => [.numeral v]
  | .over c partition =>
      c.lexemes ++ .keyword .OVER :: .mark .opening :: partition.lexemes ++ [.mark .closing]
  | .partitionBy c => .keyword .PARTITION :: .keyword .BY :: c.lexemes
  | .binaryCriteria token c parameter => c.lexemes ++ .mark token.mark :: parameter.lexemes
  | .not criteria => .mark .exclamation :: .mark .opening :: criteria.lexemes ++ [.mark .closing]
  | .isNull c =>
      .mark .opening :: c.lexemes ++ [.keyword .IS, .keyword .NULL, .mark .closing]
  | .parameter c => [.fresh c.valueType]
  | .boundParameter i => [.bound i]
  | .constant v => [.numeral v]
  | .whereClause c => .keyword .WHERE :: c.lexemes
  | .conjunction components =>
      .mark .opening :: joined [.keyword .AND] (lexemesEach components) ++ [.mark .closing]
  | .disjunction components =>
      .mark .opening :: joined [.keyword .OR] (lexemesEach components) ++ [.mark .closing]
  | .offset c => .keyword .OFFSET :: c.lexemes
  | .limit c => .keyword .LIMIT :: c.lexemes
  | .orderClause c ascending => c.lexemes ++ [.keyword (if ascending then .ASC else .DESC)]
  | .orderBy components =>
      .keyword .ORDER :: .keyword .BY :: joined [.mark .comma] (lexemesEach components)
  | .groupBy components =>
      .keyword .GROUP :: .keyword .BY :: joined [.mark .comma] (lexemesEach components)
  | .cte name recursive query =>
      (if recursive then [.keyword .RECURSIVE, .name name] else [.name name]) ++
        .keyword .AS :: .mark .opening :: query.lexemes ++ [.mark .closing]
  | .select projection entity components =>
      .keyword .SELECT :: projection.lexemes ++ .keyword .FROM :: entity.lexemes ++
        joined [] (lexemesEach components)
  | .withExpressions query expressions =>
      .keyword .WITH :: joined [.mark .comma] (lexemesEach expressions) ++ query.lexemes
  | .insert e columns parameters =>
      .keyword .INSERT :: .keyword .INTO :: e.lexemes ++ .mark .opening ::
        joined [.mark .comma] (columns.map fun c => [.name c.name]) ++ .mark .closing ::
        .keyword .VALUES :: .mark .opening :: joined [.mark .comma] (lexemesEach parameters) ++
        [.mark .closing]
  | .onConflict query conflicting c =>
      query.lexemes ++ .keyword .ON :: .keyword .CONFLICT :: .mark .opening ::
        conflicting.lexemes ++ .mark .closing :: .keyword .DO :: c.lexemes
  | .returning query c => query.lexemes ++ .keyword .RETURNING :: c.lexemes
  | .onConstraint name => [.keyword .ON, .keyword .CONSTRAINT, .name name]
  | .updateFromExcluded _ columns =>
      .keyword .UPDATE :: .keyword .SET ::
        joined [.mark .comma] (columns.map Column.lexemesExcluded)
  | .doNothing => [.keyword .NOTHING]
  | .set assignments => .keyword .SET :: joined [.mark .comma] (lexemesEach assignments)
  | .update e assignments =>
      .keyword .UPDATE :: e.lexemes ++ .keyword .SET ::
        joined [.mark .comma] (lexemesEach assignments)
  | .updateWhere query criteria => query.lexemes ++ .keyword .WHERE :: criteria.lexemes
  | .delete e criteria => .keyword .DELETE :: .keyword .FROM :: e.lexemes ++ criteria.lexemes

/-- The lexemes of each component of a pack. -/
def lexemesEach : List (Component T) → List (List (Lexeme T))
  | [] => []
  | c :: components => c.lexemes :: lexemesEach components
end

/-! ## Layout -/

/-- A lexeme, or a blank. -/
inductive Piece (T : Type) where
  | blank
  | lexeme (l : Lexeme T)
deriving DecidableEq

namespace Piece

/-- A keyword. -/
abbrev kw (k : Keyword) : Piece T := .lexeme (.keyword k)

/-- A name. -/
abbrev nm (n : Name) : Piece T := .lexeme (.name n)

/-- A mark. -/
abbrev punct (m : Mark) : Piece T := .lexeme (.mark m)

/-- The lexeme of a piece that is no blank. -/
def lexeme? : Piece T → Option (Lexeme T)
  | .blank => none
  | .lexeme l => some l

/-- What a piece does to the text so far and the next index. -/
def emit : Piece T → Renderer
  | .blank => Orm.emit (ascii " ")
  | .lexeme (.keyword k) => Orm.emit k.text
  | .lexeme (.name n) => Orm.emit n.text
  | .lexeme (.numeral v) => Orm.emit (explode v)
  | .lexeme (.fresh _) => emitParameter
  | .lexeme (.bound i) => emitBound i
  | .lexeme (.mark m) => Orm.emit [m.char]

end Piece

open Piece

/-- Writes pieces from left to right. -/
def write : List (Piece T) → Renderer
  | [] => some
  | piece :: pieces => piece.emit >=> write pieces

/-- The comma between components. -/
def commaPieces : List (Piece T) := [punct .comma, .blank]

/-- The layout of a column. -/
def Column.layout (c : Column T) : List (Piece T) := [.blank, nm c.name]

/-- The layout of a column after its projection. -/
def Column.layoutOf (c : Column T) : List (Piece T) := [punct .dot, nm c.name]

/-- The layout of an entity. -/
def Entity.layout (e : Entity T) : List (Piece T) := [nm e.schema, punct .dot, nm e.name]

/-- The layout of an assignment from the row that was excluded. -/
def Column.layoutExcluded (c : Column T) : List (Piece T) :=
  c.layout ++ [.blank, punct .equal, .blank, kw .EXCLUDED] ++ c.layoutOf

mutual
/-- The pieces that a component writes. -/
def Component.layout : Component T → List (Piece T)
  | .column c => c.layout
  | .of projection c => projection.layout ++ c.layoutOf
  | .entity e => e.layout
  | .projection columns => joined commaPieces (layoutEach columns)
  | .function _ name components =>
      nm name :: punct .opening :: joined commaPieces (layoutEach components) ++ [punct .closing]
  | .selector token c => nm token :: .blank :: c.layout
  | .distinctOn c criteria =>
      kw .DISTINCT :: .blank :: kw .ON :: .blank :: punct .opening :: criteria.layout ++
        punct .closing :: .blank :: c.layout
  | .aliased token c => c.layout ++ [.blank, kw .AS, .blank, nm token]
  | .reference token => [nm token]
  | .rawLiteral keyword => [nm keyword]
  | .raw v => [.lexeme (.numeral v)]
  | .over c partition =>
      c.layout ++ .blank :: kw .OVER :: .blank :: punct .opening :: partition.layout ++
        [punct .closing]
  | .partitionBy c => kw .PARTITION :: .blank :: kw .BY :: .blank :: c.layout
  | .binaryCriteria token c parameter =>
      c.layout ++ .blank :: punct token.mark :: .blank :: parameter.layout
  | .not criteria => punct .exclamation :: punct .opening :: criteria.layout ++ [punct .closing]
  | .isNull c =>
      punct .opening :: c.layout ++ [.blank, kw .IS, .blank, kw .NULL, punct .closing]
  | .parameter c => [.lexeme (.fresh c.valueType)]
  | .boundParameter i => [.lexeme (.bound i)]
  | .constant v => [.lexeme (.numeral v)]
  | .whereClause c => kw .WHERE :: .blank :: c.layout
  | .conjunction components =>
      punct .opening :: joined [.blank, kw .AND, .blank] (layoutEach components) ++ [punct .closing]
  | .disjunction components =>
      punct .opening :: joined [.blank, kw .OR, .blank] (layoutEach components) ++ [punct .closing]
  | .offset c => kw .OFFSET :: .blank :: c.layout
  | .limit c => kw .LIMIT :: .blank :: c.layout
  | .orderClause c ascending => c.layout ++ [.blank, kw (if ascending then .ASC else .DESC)]
  | .orderBy components =>
      kw .ORDER :: .blank :: kw .BY :: .blank :: joined commaPieces (layoutEach components)
  | .groupBy components =>
      kw .GROUP :: .blank :: kw .BY :: .blank :: joined commaPieces (layoutEach components)
  | .cte name recursive query =>
      (if recursive then [kw .RECURSIVE, .blank, nm name] else [nm name]) ++
        .blank :: kw .AS :: .blank :: punct .opening :: query.layout ++ [punct .closing]
  | .select projection entity components =>
      kw .SELECT :: .blank :: projection.layout ++ .blank :: kw .FROM :: .blank ::
        entity.layout ++
        (if 0 < components.length then [.blank] else []) ++ joined [.blank] (layoutEach components)
  | .withExpressions query expressions =>
      kw .WITH :: .blank :: joined commaPieces (layoutEach expressions) ++ .blank :: query.layout
  | .insert e columns parameters =>
      kw .INSERT :: .blank :: kw .INTO :: .blank :: e.layout ++ .blank :: punct .opening ::
        joined commaPieces (columns.map Column.layout) ++ punct .closing :: .blank ::
        kw .VALUES :: .blank :: punct .opening :: joined commaPieces (layoutEach parameters) ++
        [punct .closing]
  | .onConflict query conflicting c =>
      query.layout ++ .blank :: kw .ON :: .blank :: kw .CONFLICT :: .blank :: punct .opening ::
        conflicting.layout ++ punct .closing :: .blank :: kw .DO :: .blank :: c.layout
  | .returning query c => query.layout ++ .blank :: kw .RETURNING :: .blank :: c.layout
  | .onConstraint name => [kw .ON, .blank, kw .CONSTRAINT, .blank, nm name]
  | .updateFromExcluded _ columns =>
      kw .UPDATE :: .blank :: kw .SET :: .blank ::
        joined commaPieces (columns.map Column.layoutExcluded)
  | .doNothing => [kw .NOTHING]
  | .set assignments =>
      .blank :: kw .SET :: .blank :: joined commaPieces (layoutEach assignments)
  | .update e assignments =>
      kw .UPDATE :: .blank :: e.layout ++ .blank ::
        .blank :: kw .SET :: .blank :: joined commaPieces (layoutEach assignments)
  | .updateWhere query criteria => query.layout ++ .blank :: kw .WHERE :: .blank :: criteria.layout
  | .delete e criteria =>
      kw .DELETE :: .blank :: kw .FROM :: e.layout ++ .blank :: criteria.layout

/-- The layout of each component of a pack. -/
def layoutEach : List (Component T) → List (List (Piece T))
  | [] => []
  | c :: components => c.layout :: layoutEach components
end

/-! ## Rendering writes the layout -/

/-- Two texts written one after the other are one text. -/
theorem emit_emit (a b : Bytes) (r : Renderer) : emit a >=> emit b >=> r = emit (a ++ b) >=> r := by
  funext s
  simp [Bind.kleisliRight, emit]

theorem emit_last (a b : Bytes) : emit a >=> emit b = emit (a ++ b) := by
  funext s
  simp [Bind.kleisliRight, emit]

theorem some_then (r : Renderer) : (some : Renderer) >=> r = r := by
  funext s
  simp [Bind.kleisliRight]

theorem then_some (r : Renderer) : r >=> (some : Renderer) = r := by
  funext s
  simp [Bind.kleisliRight]

theorem write_append (a b : List (Piece T)) : write (a ++ b) = write a >=> write b := by
  induction a with
  | nil => rw [List.nil_append, write, some_then]
  | cons piece a ih => rw [List.cons_append, write, write, ih, fish_assoc]

/-- `VariadicRenderable` writes the layouts with its token between. -/
theorem renderVariadic_eq_write {token : Bytes} {separator : List (Piece T)}
    (hsep : emit token = write separator) {components : List Renderer}
    {layouts : List (List (Piece T))} (h : components = layouts.map write) :
    renderVariadic token 0 components = write (joined separator layouts) := by
  have htail : ∀ (layouts : List (List (Piece T))) (i : Nat), 0 < i →
      renderVariadic token i (layouts.map write)
        = write (layouts.flatMap fun l => separator ++ l) := by
    intro layouts
    induction layouts with
    | nil => intro i _; rfl
    | cons l layouts ih =>
        intro i hi
        rw [List.map_cons, renderVariadic, if_pos hi, ih (i + 1) (by omega), hsep,
          List.flatMap_cons, write_append, write_append]
  rw [h]
  cases layouts with
  | nil => rfl
  | cons l layouts =>
      rw [List.map_cons, renderVariadic, if_neg (Nat.lt_irrefl 0), htail layouts 1 Nat.one_pos,
        joined, write_append]

theorem comma_eq_write : emit (ascii ", ") = write (commaPieces : List (Piece T)) := by
  funext s
  simp [write, Piece.emit, emit, commaPieces, Bind.kleisliRight]
  rfl

theorem and_eq_write :
    emit (ascii " AND ") = write ([.blank, kw .AND, .blank] : List (Piece T)) := by
  funext s
  simp [write, Piece.emit, emit, Bind.kleisliRight]
  rfl

theorem or_eq_write :
    emit (ascii " OR ") = write ([.blank, kw .OR, .blank] : List (Piece T)) := by
  funext s
  simp [write, Piece.emit, emit, Bind.kleisliRight]
  rfl

theorem blank_eq_write : emit (ascii " ") = write ([.blank] : List (Piece T)) := by
  simp only [write, Piece.emit, then_some]

theorem Entity.renderTo_eq_write (e : Entity T) : e.renderTo = write e.layout := by
  simp only [Entity.renderTo, Entity.layout, write, Piece.emit, then_some]
  rfl

theorem Column.renderTo_eq_write (c : Column T) : c.renderTo = write c.layout := by
  simp only [Column.renderTo, Column.layout, write, Piece.emit, then_some]

theorem Column.renderOf_eq_write (c : Column T) : c.renderOf = write c.layoutOf := by
  simp only [Column.renderOf, Column.layoutOf, write, Piece.emit, then_some]
  rfl

theorem Comparison.token_eq_write (c : Comparison) :
    emit c.token = write ([.blank, punct c.mark, .blank] : List (Piece T)) := by
  funext s
  cases c <;> simp [write, Piece.emit, emit, Bind.kleisliRight] <;> rfl

theorem Column.renderExcluded_eq_write (c : Column T) :
    c.renderExcluded = write c.layoutExcluded := by
  rw [Column.renderExcluded, Column.layoutExcluded, write_append, write_append,
    c.renderTo_eq_write, c.renderOf_eq_write, Comparison.token_eq_write (T := T) .equals]
  simp only [write, Piece.emit, fish_assoc, then_some]
  rfl

mutual
/-- `render_to` writes the layout. -/
theorem Component.renderTo_eq_write : ∀ c : Component T, c.renderTo = write c.layout
  | .column c => c.renderTo_eq_write
  | .of projection c => by
      rw [Component.renderTo, Component.layout, write_append, projection.renderTo_eq_write,
        c.renderOf_eq_write]
  | .entity e => e.renderTo_eq_write
  | .projection columns => renderVariadic_eq_write comma_eq_write (renderers_eq_write columns)
  | .function _ name components => by
      rw [Component.renderTo, Component.layout,
        renderVariadic_eq_write comma_eq_write (renderers_eq_write components)]
      simp only [write, write_append, Piece.emit, fish_assoc, then_some]
      rfl
  | .selector token c => by
      rw [Component.renderTo, Component.layout, c.renderTo_eq_write]
      rfl
  | .distinctOn c criteria => by
      rw [Component.renderTo, Component.layout, c.renderTo_eq_write, criteria.renderTo_eq_write]
      simp only [write, write_append, Piece.emit, emit_emit, fish_assoc]
      rfl
  | .aliased token c => by
      rw [Component.renderTo, Component.layout, c.renderTo_eq_write]
      simp only [write, write_append, Piece.emit, emit_emit, then_some]
      rfl
  | .reference _ | .rawLiteral _ | .raw _ | .parameter _ | .boundParameter _ | .constant _
  | .doNothing => (then_some _).symm
  | .over c partition => by
      rw [Component.renderTo, Component.layout, c.renderTo_eq_write, partition.renderTo_eq_write]
      simp only [write, write_append, Piece.emit, emit_emit, fish_assoc, then_some]
      rfl
  | .partitionBy c | .whereClause c | .offset c | .limit c => by
      rw [Component.renderTo, Component.layout, c.renderTo_eq_write]
      simp only [write, Piece.emit, emit_emit]
      rfl
  | .binaryCriteria token c parameter => by
      rw [Component.renderTo, Component.layout, c.renderTo_eq_write, parameter.renderTo_eq_write,
        token.token_eq_write (T := T)]
      simp only [write, write_append, fish_assoc, some_then]
  | .not criteria => by
      rw [Component.renderTo, Component.layout, criteria.renderTo_eq_write]
      simp only [write, write_append, Piece.emit, emit_emit, fish_assoc, then_some]
      rfl
  | .isNull c => by
      rw [Component.renderTo, Component.layout, c.renderTo_eq_write]
      simp only [write, write_append, Piece.emit, emit_last, fish_assoc, then_some]
      rfl
  | .conjunction components => by
      rw [Component.renderTo, Component.layout,
        renderVariadic_eq_write and_eq_write (renderers_eq_write components)]
      simp only [write, write_append, Piece.emit, fish_assoc, then_some]
      rfl
  | .disjunction components => by
      rw [Component.renderTo, Component.layout,
        renderVariadic_eq_write or_eq_write (renderers_eq_write components)]
      simp only [write, write_append, Piece.emit, fish_assoc, then_some]
      rfl
  | .orderClause c ascending => by
      rw [Component.renderTo, Component.layout, c.renderTo_eq_write]
      simp only [write, write_append, Piece.emit, emit_last, then_some]
      cases ascending <;> rfl
  | .orderBy components | .groupBy components | .set components => by
      rw [Component.renderTo, Component.layout,
        renderVariadic_eq_write comma_eq_write (renderers_eq_write components)]
      simp only [write, Piece.emit, emit_emit]
      rfl
  | .cte name recursive query => by
      rw [Component.renderTo, Component.layout, query.renderTo_eq_write]
      cases recursive <;>
        simp only [write, write_append, Piece.emit, emit_emit, fish_assoc, then_some, if_true,
          if_false, Bool.false_eq_true] <;> rfl
  | .select projection entity components => by
      rw [Component.renderTo, Component.layout, projection.renderTo_eq_write,
        entity.renderTo_eq_write,
        renderVariadic_eq_write blank_eq_write (renderers_eq_write components)]
      split <;>
        simp only [write, write_append, Piece.emit, emit_emit, fish_assoc, some_then] <;> rfl
  | .withExpressions query expressions => by
      rw [Component.renderTo, Component.layout, query.renderTo_eq_write,
        renderVariadic_eq_write comma_eq_write (renderers_eq_write expressions)]
      simp only [write, write_append, Piece.emit, emit_emit, fish_assoc]
      rfl
  | .insert e columns parameters => by
      have hcolumns : columns.map Column.renderTo = (columns.map Column.layout).map write := by
        simp [List.map_map, Function.comp_def, Column.renderTo_eq_write]
      rw [Component.renderTo, Component.layout, e.renderTo_eq_write,
        renderVariadic_eq_write comma_eq_write (renderers_eq_write parameters),
        renderVariadic_eq_write comma_eq_write hcolumns]
      simp only [write, write_append, Piece.emit, emit_emit, fish_assoc, then_some]
      rfl
  | .onConflict query conflicting c => by
      rw [Component.renderTo, Component.layout, query.renderTo_eq_write,
        conflicting.renderTo_eq_write, c.renderTo_eq_write]
      simp only [write, write_append, Piece.emit, emit_emit, fish_assoc]
      rfl
  | .returning query c | .updateWhere query c => by
      rw [Component.renderTo, Component.layout, query.renderTo_eq_write, c.renderTo_eq_write]
      simp only [write, write_append, Piece.emit, emit_emit]
      rfl
  | .onConstraint name => by
      rw [Component.renderTo, Component.layout]
      simp only [write, Piece.emit, emit_emit, then_some]
      rfl
  | .updateFromExcluded _ columns => by
      have hcolumns : columns.map Column.renderExcluded
          = (columns.map Column.layoutExcluded).map write := by
        simp [List.map_map, Function.comp_def, Column.renderExcluded_eq_write]
      rw [Component.renderTo, Component.layout, renderVariadic_eq_write comma_eq_write hcolumns]
      simp only [write, Piece.emit, emit_emit]
      rfl
  | .update e assignments => by
      rw [Component.renderTo, Component.layout, e.renderTo_eq_write,
        renderVariadic_eq_write comma_eq_write (renderers_eq_write assignments)]
      simp only [write, write_append, Piece.emit, emit_emit]
      rfl
  | .delete e criteria => by
      rw [Component.renderTo, Component.layout, e.renderTo_eq_write, criteria.renderTo_eq_write]
      simp only [write, write_append, Piece.emit, emit_emit, fish_assoc]
      rfl

theorem renderers_eq_write : ∀ components : List (Component T),
    renderers components = (layoutEach components).map write
  | [] => rfl
  | c :: components => by
      rw [renderers, layoutEach, List.map_cons, c.renderTo_eq_write, renderers_eq_write components]
end

/-! ## Lexemes of the layout -/

@[simp] theorem filterMap_blank (pieces : List (Piece T)) :
    (Piece.blank :: pieces).filterMap lexeme? = pieces.filterMap lexeme? := rfl

@[simp] theorem filterMap_lexeme (l : Lexeme T) (pieces : List (Piece T)) :
    (Piece.lexeme l :: pieces).filterMap lexeme? = l :: pieces.filterMap lexeme? := rfl

theorem filterMap_joined {α β : Type} (f : α → Option β) (separator : List α)
    (ls : List (List α)) :
    (joined separator ls).filterMap f
      = joined (separator.filterMap f) (ls.map fun l => l.filterMap f) := by
  cases ls with
  | nil => rfl
  | cons l ls => simp [joined, List.filterMap_flatMap, List.flatMap_map]

theorem Column.filterMap_layoutExcluded (c : Column T) :
    c.layoutExcluded.filterMap lexeme? = c.lexemesExcluded := rfl

section Cases

attribute [local simp] Component.layout Component.lexemes Column.layout Column.layoutOf
  Entity.layout Entity.lexemes commaPieces filterMap_joined

mutual
/-- Without the blanks, the layout is the lexemes. -/
theorem Component.filterMap_layout : ∀ c : Component T,
    c.layout.filterMap Piece.lexeme? = c.lexemes
  -- components without parts
  | .column _ | .entity _ | .reference _ | .rawLiteral _ | .raw _ | .parameter _
  | .boundParameter _ | .constant _ | .onConstraint _ | .doNothing => by
      simp
  -- components with one part
  | .of c _ | .selector _ c | .aliased _ c | .partitionBy c | .not c | .isNull c
  | .whereClause c | .offset c | .limit c | .orderClause c _ | .delete _ c => by
      simp [c.filterMap_layout]
  -- components with two parts
  | .distinctOn c d | .over c d | .binaryCriteria _ c d | .returning c d | .updateWhere c d => by
      simp [c.filterMap_layout, d.filterMap_layout]
  -- components with a pack
  | .projection components | .function _ _ components | .conjunction components
  | .disjunction components | .orderBy components | .groupBy components | .set components
  | .update _ components => by
      simp [filterMap_layoutEach components]
  | .cte name recursive query => by
      cases recursive <;> simp [query.filterMap_layout]
  | .select projection entity components => by
      cases components <;>
        simp [projection.filterMap_layout, entity.filterMap_layout, filterMap_layoutEach]
  | .withExpressions query expressions => by
      simp [filterMap_layoutEach expressions, query.filterMap_layout]
  | .insert e columns parameters => by
      simp [Function.comp_def, filterMap_layoutEach parameters]
  | .onConflict query conflicting c => by
      simp [query.filterMap_layout, conflicting.filterMap_layout, c.filterMap_layout]
  | .updateFromExcluded _ columns => by
      simp [Function.comp_def, Column.filterMap_layoutExcluded]

theorem filterMap_layoutEach : ∀ components : List (Component T),
    ((layoutEach components).map fun l => l.filterMap Piece.lexeme?) = lexemesEach components
  | [] => rfl
  | c :: components => by
      rw [layoutEach, lexemesEach, List.map_cons, c.filterMap_layout,
        filterMap_layoutEach components]
end

end Cases

/-! ## The text of a layout -/

/-- The next index after a lexeme. -/
def Lexeme.next (p : Nat) : Lexeme T → Nat
  | .fresh _ => p + 1
  | _ => p

/-- The next index after a piece. -/
def Piece.next (p : Nat) : Piece T → Nat
  | .blank => p
  | .lexeme l => l.next p

/-- The characters that are written for a piece when the next index is `p`. -/
def Piece.written (p : Nat) : Piece T → Bytes
  | .blank => ascii " "
  | .lexeme (.keyword k) => k.text
  | .lexeme (.name n) => n.text
  | .lexeme (.numeral v) => explode v
  | .lexeme (.fresh _) => ascii "$" ++ explode p
  | .lexeme (.bound i) => ascii "$" ++ explode i
  | .lexeme (.mark m) => [m.char]

/-- The text of pieces from index `p`. -/
def written : Nat → List (Piece T) → Bytes
  | _, [] => []
  | p, piece :: pieces => piece.written p ++ written (piece.next p) pieces

/-- The index after pieces. -/
def following : Nat → List (Lexeme T) → Nat
  | p, [] => p
  | p, l :: ls => following (l.next p) ls

/-- The `static_assert` of a bound placeholder: it is smaller than the index. -/
def Lexeme.Asserted (p : Nat) : Lexeme T → Prop
  | .bound i => i < p
  | _ => True

/-- Every `static_assert` along the lexemes holds. -/
def Bounded : Nat → List (Lexeme T) → Prop
  | _, [] => True
  | p, l :: ls => l.Asserted p ∧ Bounded (l.next p) ls

/-- What one piece does. -/
theorem Piece.emit_eq_some {piece : Piece T} {prev : Bytes} {p : Nat} {s : Bytes × Nat}
    (h : piece.emit (prev, p) = some s) :
    s = (prev ++ piece.written p, piece.next p) ∧ ∀ l ∈ piece.lexeme?, l.Asserted p := by
  cases piece with
  | blank => cases h; exact ⟨rfl, fun l hl => by cases hl⟩
  | lexeme l =>
      cases l with
      | fresh type =>
          cases h
          refine ⟨?_, fun l hl => by cases hl; trivial⟩
          rw [Piece.written, ← List.append_assoc]
          rfl
      | bound i =>
          rw [Piece.emit, emitBound] at h
          split at h
          · rename_i hi
            cases h
            refine ⟨?_, fun l hl => by cases hl; exact hi⟩
            rw [Piece.written, ← List.append_assoc]
            rfl
          · cases h
      | _ => cases h; exact ⟨rfl, fun l hl => by cases hl; trivial⟩

/-- What a list of pieces does: the text, the next index and the assertions. -/
theorem write_eq_some {pieces : List (Piece T)} {prev : Bytes} {p : Nat} {s : Bytes × Nat}
    (h : write pieces (prev, p) = some s) :
    s = (prev ++ written p pieces, following p (pieces.filterMap lexeme?)) ∧
      Bounded p (pieces.filterMap lexeme?) := by
  induction pieces generalizing prev p with
  | nil =>
      cases h
      exact ⟨by simp [written, following], trivial⟩
  | cons piece pieces ih =>
      rw [write, Bind.kleisliRight] at h
      obtain ⟨s₁, h₁, h₂⟩ := Option.bind_eq_some_iff.mp h
      obtain ⟨rfl, hasserted⟩ := Piece.emit_eq_some h₁
      obtain ⟨rfl, hbounded⟩ := ih h₂
      cases piece with
      | blank => exact ⟨by simp [written, Piece.next], hbounded⟩
      | lexeme l =>
          exact ⟨by simp [written, following, Piece.next], hasserted l rfl, hbounded⟩

/-- What `render_to` does. -/
theorem Component.renderTo_eq_some {c : Component T} {prev : Bytes} {p : Nat} {s : Bytes × Nat}
    (h : c.renderTo (prev, p) = some s) :
    s = (prev ++ written p c.layout, following p c.lexemes) ∧ Bounded p c.lexemes := by
  rw [c.renderTo_eq_write] at h
  rw [← c.filterMap_layout]
  exact write_eq_some h

end Orm

end Tactmon
