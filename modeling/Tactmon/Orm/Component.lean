import Mathlib.Control.Basic
import Tactmon.Lib.Text

/-!
# The components of queries

`backend/db/orm`: the class templates that queries are written with.  A query
is a type, and its text is found at compile time by `render_to`, which threads
the text so far and the next parameter index through the tree.

A `Component` is an instance of one of the templates.  `Parameter`,
`BoundParameter` and `Column` are bound to the component on their left before
they are rendered (`Operand.bindToProjection`), and the tree holds the bound
types.  Names are identifiers by construction.

The text and the list of argument types (`parameterTypes`) are two recursions
over the tree that do not look at each other.
-/

namespace Tactmon

namespace Orm

open Binary Text

/-! ## Names -/

/-- The characters of identifiers. -/
def isNameChar (c : UInt8) : Bool :=
  let n := c.toNat
  decide (48 ≤ n ∧ n ≤ 57 ∨ 65 ≤ n ∧ n ≤ 90 ∨ 97 ≤ n ∧ n ≤ 122 ∨ n = 95 ∨ 128 ≤ n)

/-- An identifier. -/
structure Name where
  text : Bytes
  ne_nil : text ≠ []
  isName : ∀ c ∈ text, isNameChar c = true
deriving DecidableEq

/-- The name that a literal spells, if it spells one. -/
def Name.literal (s : String) : Name :=
  if h : ascii s ≠ [] ∧ (ascii s).all isNameChar = true then
    ⟨ascii s, h.1, List.all_eq_true.mp h.2⟩
  else ⟨[95], List.cons_ne_nil _ _, fun c hc => by cases List.mem_singleton.mp hc; rfl⟩

/-- `Column<NAME, TYPE>`. -/
structure Column (T : Type) where
  name : Name
  type : T
deriving DecidableEq

/-- `Entity<NAME, SCHEMA, COMPONENTS...>`. -/
structure Entity (T : Type) where
  name : Name
  schema : Name
  columns : List (Column T)
deriving DecidableEq

/-- The tokens of `Equals`, `GreaterThan` and `LessThan`. -/
inductive Comparison where
  | equals
  | greaterThan
  | lessThan
deriving DecidableEq, Repr

/-! ## Components -/

/-- The instances of the templates. -/
inductive Component (T : Type) where
  /-- `Column` -/
  | column (c : Column T)
  /-- `Column::Of<PROJECTION>` -/
  | of (projection : Component T) (c : Column T)
  /-- `Entity` -/
  | entity (e : Entity T)
  /-- `Projection<COLUMNS...>` -/
  | projection (columns : List (Component T))
  /-- `Function<TYPE, NAME, COMPONENTS...>` -/
  | function (type : T) (name : Name) (components : List (Component T))
  /-- `Selector<TOKEN, COMPONENT>` -/
  | selector (token : Name) (c : Component T)
  /-- `Distinct<COMPONENT>::On<CRITERIA>` -/
  | distinctOn (c criteria : Component T)
  /-- `Alias<TOKEN, COMPONENT>` -/
  | aliased (token : Name) (c : Component T)
  /-- `Alias<TOKEN, COMPONENT>::Reference` -/
  | reference (token : Name)
  /-- `RawLiteral<KEYWORD>` -/
  | rawLiteral (keyword : Name)
  /-- `Raw<V>` -/
  | raw (v : Nat)
  /-- `Over<COMPONENT, PARTITION>` -/
  | over (c partition : Component T)
  /-- `PartitionBy<COMPONENT>` -/
  | partitionBy (c : Component T)
  /-- `BinaryCriteria<TOKEN, COMPONENT, PARAMETER>`, with `PARAMETER` bound -/
  | binaryCriteria (token : Comparison) (c parameter : Component T)
  /-- `Not<CRITERIA>` -/
  | not (criteria : Component T)
  /-- `IsNull<COMPONENT>` -/
  | isNull (c : Component T)
  /-- `Parameter::BindToProjection<COMPONENT>` -/
  | parameter (c : Component T)
  /-- `BoundParameter<I>::BindToProjection<COMPONENT>` -/
  | boundParameter (i : Nat)
  /-- `Constant<V>` -/
  | constant (v : Nat)
  /-- `Where<COMPONENT>` -/
  | whereClause (c : Component T)
  /-- `Conjunction<COMPONENTS...>` -/
  | conjunction (components : List (Component T))
  /-- `Disjunction<COMPONENTS...>` -/
  | disjunction (components : List (Component T))
  /-- `Offset<COMPONENT>` -/
  | offset (c : Component T)
  /-- `Limit<COMPONENT>` -/
  | limit (c : Component T)
  /-- `OrderClause<COMPONENT, ASCENDING>` -/
  | orderClause (c : Component T) (ascending : Bool)
  /-- `OrderBy<COMPONENTS...>` -/
  | orderBy (components : List (Component T))
  /-- `GroupBy<COMPONENTS...>` -/
  | groupBy (components : List (Component T))
  /-- `select::CTE<ALIAS, RECURSIVE, QUERY>` -/
  | cte (name : Name) (recursive : Bool) (query : Component T)
  /-- `select::detail::QueryImpl<R, P, E, CS...>` -/
  | select (projection entity : Component T) (components : List (Component T))
  /-- `select::detail::WithImpl<QUERYBASE, ES...>` -/
  | withExpressions (query : Component T) (expressions : List (Component T))
  /-- `insert::detail::QueryImpl<ENTITY, COLUMNS...>`: the column types and the
  parameter types of `COLUMNS` -/
  | insert (e : Entity T) (columns : List (Column T)) (parameters : List (Component T))
  /-- `insert::detail::OnConflictImpl<QUERYBASE, CONFLICTING, COMPONENT>` -/
  | onConflict (query conflicting c : Component T)
  /-- `insert::detail::ReturningImpl<QUERYBASE, COMPONENT>` -/
  | returning (query c : Component T)
  /-- `insert::OnConstraint<NAME>` -/
  | onConstraint (name : Name)
  /-- `insert::UpdateFromExcluded<ENTITY, COMPONENTS...>` -/
  | updateFromExcluded (e : Entity T) (columns : List (Column T))
  /-- `insert::DoNothing` -/
  | doNothing
  /-- `update::Set<ASSIGNMENTS...>` -/
  | set (assignments : List (Component T))
  /-- `update::detail::QueryImpl<ENTITY, SET>` -/
  | update (e : Entity T) (assignments : List (Component T))
  /-- `update::detail::WhereImpl<QUERYBASE, CRITERIA>` -/
  | updateWhere (query criteria : Component T)
  /-- `del::detail::QueryImpl<ENTITY, CRITERIA>` -/
  | delete (e : Entity T) (criteria : Component T)

variable {T : Type}

/-! ## Rendering -/

/-- `Explode<Remainder, Digits...>`: the digits found so far, most significant
first.  Nothing is written for a remainder of zero. -/
def explodeFrom (remainder : Nat) (digits : Bytes) : Bytes :=
  if remainder = 0 then digits
  else explodeFrom (remainder / 10) (digitChar (remainder % 10) :: digits)
termination_by remainder

/-- `Explode<V>::Value`. -/
def explode (v : Nat) : Bytes := explodeFrom v []

theorem explodeFrom_eq (remainder : Nat) (digits : Bytes) :
    explodeFrom remainder digits
      = ((Nat.digits 10 remainder).map digitChar).reverse ++ digits := by
  fun_induction explodeFrom remainder digits with
  | case1 digits => simp
  | case2 remainder digits h ih =>
      rw [ih, Nat.digits_def' (by omega) (Nat.pos_of_ne_zero h)]
      simp

/-- No digit is written for zero. -/
theorem explode_zero : explode 0 = [] := by
  rw [explode, explodeFrom_eq, Nat.digits_zero]
  rfl

/-- Any other number is written in base ten. -/
theorem explode_eq {v : Nat} (h : v ≠ 0) : explode v = decimal v := by
  rw [explode, explodeFrom_eq, decimal, if_neg h, List.append_nil]

/-- What a `render_to` does to the text so far and the next parameter index.  A
`static_assert` that fails leaves nothing. -/
abbrev Renderer : Type := Bytes × Nat → Option (Bytes × Nat)

/-- Appends to the text. -/
def emit (text : Bytes) : Renderer := fun s => some (s.1 ++ text, s.2)

/-- `Parameter::BindToProjection<COMPONENT>::render_to`. -/
def emitParameter : Renderer := fun s => some (s.1 ++ ascii "$" ++ explode s.2, s.2 + 1)

/-- `BoundParameter<I>::BindToProjection<COMPONENT>::render_to`. -/
def emitBound (i : Nat) : Renderer := fun s =>
  if i < s.2 then some (s.1 ++ ascii "$" ++ explode i, s.2) else none

/-- `Entity::render_to`. -/
def Entity.renderTo (e : Entity T) : Renderer :=
  emit e.schema.text >=> emit (ascii ".") >=> emit e.name.text

/-- `Column::render_to`. -/
def Column.renderTo (c : Column T) : Renderer := emit (ascii " ") >=> emit c.name.text

/-- The second half of `Column::Of<PROJECTION>::render_to`. -/
def Column.renderOf (c : Column T) : Renderer := emit (ascii ".") >=> emit c.name.text

/-- `TOKEN` of the comparisons. -/
def Comparison.token : Comparison → Bytes
  | .equals => ascii " = "
  | .greaterThan => ascii " > "
  | .lessThan => ascii " < "

/-- `VariadicRenderable<TOKEN, COMPONENTS...>`, from component `i` on. -/
def renderVariadic (token : Bytes) : Nat → List Renderer → Renderer
  | _, [] => some
  | i, c :: components =>
      (if 0 < i then emit token >=> c else c) >=> renderVariadic token (i + 1) components

/-- `Equals<COMPONENT, COMPONENT::BindToProjection<Excluded>>::render_to`, for a
column. -/
def Column.renderExcluded (c : Column T) : Renderer :=
  c.renderTo >=> emit Comparison.equals.token >=> emit (ascii "EXCLUDED") >=> c.renderOf

mutual
/-- `render_to`. -/
def Component.renderTo : Component T → Renderer
  | .column c => c.renderTo
  | .of projection c => projection.renderTo >=> c.renderOf
  | .entity e => e.renderTo
  | .projection columns => renderVariadic (ascii ", ") 0 (renderers columns)
  | .function _ name components =>
      emit name.text >=> emit (ascii "(") >=>
        renderVariadic (ascii ", ") 0 (renderers components) >=> emit (ascii ")")
  | .selector token c => emit token.text >=> emit (ascii " ") >=> c.renderTo
  | .distinctOn c criteria =>
      emit (ascii "DISTINCT ON (") >=> criteria.renderTo >=> emit (ascii ") ") >=> c.renderTo
  | .aliased token c => c.renderTo >=> emit (ascii " AS ") >=> emit token.text
  | .reference token => emit token.text
  | .rawLiteral keyword => emit keyword.text
  | .raw v => emit (explode v)
  | .over c partition =>
      c.renderTo >=> emit (ascii " OVER (") >=> partition.renderTo >=> emit (ascii ")")
  | .partitionBy c => emit (ascii "PARTITION BY ") >=> c.renderTo
  | .binaryCriteria token c parameter => c.renderTo >=> emit token.token >=> parameter.renderTo
  | .not criteria => emit (ascii "!(") >=> criteria.renderTo >=> emit (ascii ")")
  | .isNull c => emit (ascii "(") >=> c.renderTo >=> emit (ascii " IS NULL)")
  | .parameter _ => emitParameter
  | .boundParameter i => emitBound i
  | .constant v => emit (explode v)
  | .whereClause c => emit (ascii "WHERE ") >=> c.renderTo
  | .conjunction components =>
      emit (ascii "(") >=> renderVariadic (ascii " AND ") 0 (renderers components) >=>
        emit (ascii ")")
  | .disjunction components =>
      emit (ascii "(") >=> renderVariadic (ascii " OR ") 0 (renderers components) >=>
        emit (ascii ")")
  | .offset c => emit (ascii "OFFSET ") >=> c.renderTo
  | .limit c => emit (ascii "LIMIT ") >=> c.renderTo
  | .orderClause c ascending =>
      c.renderTo >=> (if ascending then emit (ascii " ASC") else emit (ascii " DESC"))
  | .orderBy components =>
      emit (ascii "ORDER BY ") >=> renderVariadic (ascii ", ") 0 (renderers components)
  | .groupBy components =>
      emit (ascii "GROUP BY ") >=> renderVariadic (ascii ", ") 0 (renderers components)
  | .cte name recursive query =>
      (if recursive then emit (ascii "RECURSIVE ") >=> emit name.text else emit name.text) >=>
        emit (ascii " AS (") >=> query.renderTo >=> emit (ascii ")")
  | .select projection entity components =>
      emit (ascii "SELECT ") >=> projection.renderTo >=> emit (ascii " FROM ") >=>
        entity.renderTo >=>
        (if 0 < components.length then
          emit (ascii " ") >=> renderVariadic (ascii " ") 0 (renderers components)
        else renderVariadic (ascii " ") 0 (renderers components))
  | .withExpressions query expressions =>
      emit (ascii "WITH ") >=> renderVariadic (ascii ", ") 0 (renderers expressions) >=>
        emit (ascii " ") >=> query.renderTo
  | .insert e columns parameters =>
      emit (ascii "INSERT INTO ") >=> e.renderTo >=> emit (ascii " (") >=>
        renderVariadic (ascii ", ") 0 (columns.map Column.renderTo) >=>
        emit (ascii ") VALUES (") >=> renderVariadic (ascii ", ") 0 (renderers parameters) >=>
        emit (ascii ")")
  | .onConflict query conflicting c =>
      query.renderTo >=> emit (ascii " ON CONFLICT (") >=> conflicting.renderTo >=>
        emit (ascii ") DO ") >=> c.renderTo
  | .returning query c => query.renderTo >=> emit (ascii " RETURNING ") >=> c.renderTo
  | .onConstraint name => emit (ascii "ON CONSTRAINT ") >=> emit name.text
  | .updateFromExcluded _ columns =>
      emit (ascii "UPDATE SET ") >=>
        renderVariadic (ascii ", ") 0 (columns.map Column.renderExcluded)
  | .doNothing => emit (ascii "NOTHING")
  | .set assignments =>
      emit (ascii " SET ") >=> renderVariadic (ascii ", ") 0 (renderers assignments)
  | .update e assignments =>
      emit (ascii "UPDATE ") >=> e.renderTo >=> emit (ascii " ") >=>
        emit (ascii " SET ") >=> renderVariadic (ascii ", ") 0 (renderers assignments)
  | .updateWhere query criteria =>
      query.renderTo >=> emit (ascii " WHERE ") >=> criteria.renderTo
  | .delete e criteria =>
      emit (ascii "DELETE FROM") >=> e.renderTo >=> emit (ascii " ") >=> criteria.renderTo

/-- `render_to` of each component of a pack. -/
def renderers : List (Component T) → List Renderer
  | [] => []
  | c :: components => c.renderTo :: renderers components
end

/-- `IQuery::ToString`. -/
def Component.toString (query : Component T) : Option Bytes :=
  (query.renderTo ([], 1)).map Prod.fst

/-! ## Parameter types -/

/-- `value_type`, of the components that declare it. -/
def Component.valueType : Component T → Option T
  | .column c => some c.type
  | .of _ c => some c.type
  | .function type _ _ => some type
  | .selector _ c => c.valueType
  | .distinctOn c _ => c.valueType
  | .aliased _ c => c.valueType
  | .over c _ => c.valueType
  | _ => none

/-- `utility::tuple_cat`. -/
def tupleCat (types more : Option (List T)) : Option (List T) :=
  types.bind fun types => more.map fun more => types ++ more

/-- `Column::parameter_types`. -/
def Column.parameterTypes (_ : Column T) : List T := []

/-- `Entity::parameter_types`. -/
def Entity.parameterTypes (e : Entity T) : List T := e.columns.flatMap Column.parameterTypes

mutual
/-- `parameter_types`, of the components that declare it. -/
def Component.parameterTypes : Component T → Option (List T)
  | .column c => some c.parameterTypes
  | .of _ _ => some []
  | .entity e => some e.parameterTypes
  | .projection columns => parameterTypesCat columns
  | .function _ _ components => parameterTypesCat components
  | .selector _ c => c.parameterTypes
  | .distinctOn _ _ => none
  | .aliased _ c => c.parameterTypes
  | .reference _ => some []
  | .rawLiteral _ => none
  | .raw _ => none
  | .over c partition => tupleCat c.parameterTypes partition.parameterTypes
  | .partitionBy c => c.parameterTypes
  | .binaryCriteria _ c parameter => tupleCat c.parameterTypes parameter.parameterTypes
  | .not criteria => criteria.parameterTypes
  | .isNull c => c.parameterTypes
  | .parameter c => c.valueType.map fun type => [type]
  | .boundParameter _ => some []
  | .constant _ => some []
  | .whereClause c => c.parameterTypes
  | .conjunction components => parameterTypesCat components
  | .disjunction components => parameterTypesCat components
  | .offset c => c.parameterTypes
  | .limit c => c.parameterTypes
  | .orderClause c _ => c.parameterTypes
  | .orderBy components => parameterTypesCat components
  | .groupBy components => parameterTypesCat components
  | .cte _ _ query => query.parameterTypes
  | .select projection entity components =>
      tupleCat projection.parameterTypes
        (tupleCat entity.parameterTypes (parameterTypesCat components))
  | .withExpressions query expressions =>
      tupleCat (parameterTypesCat expressions) query.parameterTypes
  | .insert e _ parameters => tupleCat (some e.parameterTypes) (parameterTypesCat parameters)
  | .onConflict query _ c => tupleCat query.parameterTypes c.parameterTypes
  | .returning query c => tupleCat query.parameterTypes c.parameterTypes
  | .onConstraint _ => some []
  | .updateFromExcluded e columns =>
      tupleCat (some e.parameterTypes) (some (columns.flatMap Column.parameterTypes))
  | .doNothing => some []
  | .set assignments => parameterTypesCat assignments
  | .update e assignments => tupleCat (some e.parameterTypes) (parameterTypesCat assignments)
  | .updateWhere query criteria => tupleCat query.parameterTypes criteria.parameterTypes
  | .delete _ criteria => criteria.parameterTypes

/-- The `parameter_types` of a pack, one after the other. -/
def parameterTypesCat : List (Component T) → Option (List T)
  | [] => some []
  | c :: components => tupleCat c.parameterTypes (parameterTypesCat components)
end

/-! ## Queries as they are written -/

/-- What a comparison or a value may name on its right. -/
inductive Operand (T : Type) where
  | parameter
  | boundParameter (i : Nat)
  | column (c : Column T)
  | of (projection : Component T) (c : Column T)

/-- `PARAMETER::BindToProjection<COMPONENT>`. -/
def Operand.bindToProjection (c : Component T) : Operand T → Component T
  | .parameter => .parameter c
  | .boundParameter i => .boundParameter i
  | .column d => .of c d
  | .of projection d => .of projection d

/-- `Equals<COMPONENT, PARAMETER>`. -/
def equals (c : Component T) (operand : Operand T) : Component T :=
  .binaryCriteria .equals c (operand.bindToProjection c)

/-- `Entity::projection_type`. -/
def Entity.projectionType (e : Entity T) : Component T :=
  .projection (e.columns.map fun c => .of (.entity e) c)

/-- `select::Query<ENTITY, ENTITY, COMPONENTS...>`. -/
def selectEntity (e : Entity T) (components : List (Component T)) : Component T :=
  .select e.projectionType (.entity e) components

/-- `insert::Query<ENTITY, Value<COLUMN, VALUE>...>`. -/
def insertInto (e : Entity T) (values : List (Column T × Operand T)) : Component T :=
  .insert e (values.map Prod.fst) (values.map fun v => v.2.bindToProjection (.column v.1))

end Orm

end Tactmon
