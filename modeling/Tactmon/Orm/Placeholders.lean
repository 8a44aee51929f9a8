import Tactmon.Orm.Rendering

/-!
# Placeholders and parameter types

A prepared statement is sent with one argument for each of its
`parameter_types`, and the text refers to the arguments by number.  The two are
found by separate recursions over the tree, and `Matches` is what the database
needs them to have in common.

They agree as long as every template that renders a component also lists the
component's types.  Two do not: `Column::Of` renders its projection and lists
nothing, and `OnConflict` leaves out its target.  `unlisted` counts the
placeholders that are rendered there, and `renderTo_matches_iff` says that
nothing else goes wrong.
-/

namespace Tactmon

namespace Orm

open Binary Text Piece

variable {T : Type}

/-! ## Placeholders of a text -/

/-- The number at the front of a text. -/
def readIndex (text : Bytes) : Option Nat :=
  let digits := text.takeWhile isDigit
  if digits = [] then none else some (decimalNat digits)

/-- The numbers after the dollars of a text, from left to right. -/
def placeholders : Bytes → List (Option Nat)
  | [] => []
  | c :: text => if c = 36 then readIndex text :: placeholders text else placeholders text

/-- The index of a placeholder. -/
def Lexeme.index? (p : Nat) : Lexeme T → Option Nat
  | .fresh _ => some p
  | .bound i => some i
  | _ => none

/-- The indices of the placeholders among lexemes, with fresh ones numbered from
`p`. -/
def indices : Nat → List (Lexeme T) → List Nat
  | _, [] => []
  | p, l :: ls => (l.index? p).toList ++ indices (l.next p) ls

theorem placeholders_append {word : Bytes} (h : (36 : UInt8) ∉ word) (text : Bytes) :
    placeholders (word ++ text) = placeholders text := by
  induction word with
  | nil => rfl
  | cons c word ih =>
      rw [List.mem_cons, not_or] at h
      rw [List.cons_append, placeholders, if_neg (Ne.symm h.1), ih h.2]

theorem readIndex_decimal {text : Bytes} (h : ∀ c ∈ text.head?, isDigit c = false) (i : Nat) :
    readIndex (decimal i ++ text) = some i := by
  have hdigits : (decimal i ++ text).takeWhile isDigit = decimal i := by
    rw [List.takeWhile_append_of_pos fun c hc => isDigit_of_mem_decimal hc]
    cases text with
    | nil => simp
    | cons c text => simp [h c rfl]
  rw [readIndex, hdigits, if_neg (decimal_ne_nil i), decimalNat_decimal]

/-- A placeholder is read where it does not run into a digit. -/
theorem placeholders_placeholder {text : Bytes} (h : ∀ c ∈ text.head?, isDigit c = false)
    (i : Nat) : placeholders (ascii "$" ++ decimal i ++ text) = some i :: placeholders text := by
  rw [List.append_assoc]
  show placeholders (36 :: (decimal i ++ text)) = _
  rw [placeholders, if_pos rfl, readIndex_decimal h,
    placeholders_append (not_mem_decimal (by decide))]

theorem dollar_not_mem_name (n : Name) : (36 : UInt8) ∉ n.text := fun h =>
  absurd (n.isName 36 h) (by decide)

theorem dollar_not_mem_keyword (k : Keyword) : (36 : UInt8) ∉ k.text := by
  cases k <;> decide

theorem dollar_not_mem_mark (m : Mark) : (36 : UInt8) ∉ [m.char] := by
  cases m <;> decide

theorem dollar_not_mem_blank : (36 : UInt8) ∉ ascii " " := by decide

theorem dollar_not_mem_explode (v : Nat) : (36 : UInt8) ∉ explode v := by
  by_cases hv : v = 0
  · rw [hv, explode_zero]
    exact List.not_mem_nil
  · rw [explode_eq hv]
    exact not_mem_decimal (by decide)

/-- Blanks and marks are no digits. -/
theorem not_isDigit_of_not_isWord {piece : Piece T} (h : ¬ piece.IsWord) (p : Nat)
    (text : Bytes) : ∀ c ∈ (piece.written p ++ text).head?, isDigit c = false := by
  intro c hc
  cases piece with
  | blank => cases hc; rfl
  | lexeme l =>
      cases l with
      | mark m => cases hc; cases m <;> rfl
      | _ => exact absurd trivial h

/-- Whether a lexeme is a placeholder, of either kind. -/
def Lexeme.isPlaceholder : Lexeme T → Bool
  | .fresh _ => true
  | .bound _ => true
  | _ => false

/-- A placeholder is not followed by a word. -/
def Ended (a b : Piece T) : Prop :=
  (∀ l ∈ a.lexeme?, l.isPlaceholder = true) → ¬ a.IsWord ∨ ¬ b.IsWord

theorem ended_wordRelation : WordRelation (Ended (T := T)) True where
  right _ _ h _ := .inr h
  left _ _ h _ := .inl h
  from_name _ := iff_true_intro fun h => absurd (h _ rfl) Bool.false_ne_true

/-- The placeholders of the text are those of the layout. -/
theorem placeholders_written {pieces : List (Piece T)} (hchain : pieces.IsChain Ended) {p : Nat}
    (hp : 0 < p) (hbound : .bound 0 ∉ pieces.filterMap lexeme?) :
    placeholders (written p pieces) = (indices p (pieces.filterMap lexeme?)).map some := by
  induction pieces generalizing p with
  | nil => rfl
  | cons piece pieces ih =>
      have htail := (List.isChain_cons.mp hchain).2
      rw [written]
      cases piece with
      | blank =>
          rw [Piece.written, placeholders_append dollar_not_mem_blank]
          exact ih htail hp hbound
      | lexeme l =>
          rw [filterMap_lexeme, List.mem_cons, not_or] at hbound
          have ih := ih htail (l.next_pos hp) hbound.2
          have hend : l.isPlaceholder = true → (Piece.lexeme l).IsWord →
              ∀ c ∈ (written (l.next p) pieces).head?, isDigit c = false := by
            intro hplaceholder hword
            cases pieces with
            | nil => intro c hc; cases hc
            | cons next pieces =>
                have hnext := (List.isChain_cons_cons.mp hchain).1
                  (fun l' hl' => by cases hl'; exact hplaceholder)
                exact not_isDigit_of_not_isWord (hnext.resolve_left (not_not_intro hword)) _ _
          rw [filterMap_lexeme, indices, List.map_append, ← ih, Piece.next]
          cases l with
          | keyword k => exact placeholders_append (dollar_not_mem_keyword k) _
          | name n => exact placeholders_append (dollar_not_mem_name n) _
          | numeral v => exact placeholders_append (dollar_not_mem_explode v) _
          | mark m => exact placeholders_append (dollar_not_mem_mark m) _
          | fresh type =>
              rw [Piece.written, explode_eq (by omega)]
              exact placeholders_placeholder (hend rfl trivial) p
          | bound i =>
              have hi : i ≠ 0 := fun hi => hbound.1 (by rw [hi])
              rw [Piece.written, explode_eq hi]
              exact placeholders_placeholder (hend rfl trivial) i

/-! ## What the database needs -/

/-- Whether a lexeme is a fresh placeholder. -/
def Lexeme.isFresh : Lexeme T → Bool
  | .fresh _ => true
  | _ => false

/-- The value type of the component that a fresh placeholder is bound to. -/
def Lexeme.freshType? : Lexeme T → Option (Option T)
  | .fresh type => some type
  | _ => none

/-- The placeholders among lexemes. -/
def marks (ls : List (Lexeme T)) : List (Lexeme T) := ls.filter Lexeme.isPlaceholder

/-- The value types of the fresh placeholders among lexemes. -/
def freshTypes (ls : List (Lexeme T)) : List (Option T) := ls.filterMap Lexeme.freshType?

/-- A text and a next index fit a component that is rendered from index `p`, and
its list of parameter types. -/
structure Matches (c : Component T) (types : List T) (p : Nat) (text : Bytes) (next : Nat) :
    Prop where
  /-- The index goes up by one for each type. -/
  next_eq : next = p + types.length
  /-- The text has the placeholders of the component. -/
  length_eq : (placeholders text).length = (marks c.lexemes).length
  /-- The fresh ones are numbered from `p`, one number for each type. -/
  fresh : (((marks c.lexemes).zip (placeholders text)).filter fun m => m.1.isFresh).map Prod.snd
    = (List.range' p types.length).map some
  /-- Any other refers to an index before that of the next fresh one. -/
  bound : ∀ j i, (marks c.lexemes)[j]? = some (.bound i) →
    (placeholders text)[j]? = some (some i) ∧
      i < p + (((marks c.lexemes).take j).filter Lexeme.isFresh).length
  /-- The types are those of what the fresh placeholders are bound to. -/
  types_eq : freshTypes c.lexemes = types.map some

theorem following_eq (ls : List (Lexeme T)) (p : Nat) :
    following p ls = p + (freshTypes ls).length := by
  induction ls generalizing p with
  | nil => rfl
  | cons l ls ih =>
      rw [following, ih]
      cases l with
      | fresh type =>
          show p + 1 + (freshTypes ls).length = p + ((freshTypes ls).length + 1)
          omega
      | _ => rfl

theorem indices_length (ls : List (Lexeme T)) (p : Nat) :
    (indices p ls).length = (marks ls).length := by
  induction ls generalizing p with
  | nil => rfl
  | cons l ls ih =>
      rw [indices, List.length_append, ih]
      cases l with
      | fresh type => exact Nat.add_comm 1 _
      | bound i => exact Nat.add_comm 1 _
      | _ => exact Nat.zero_add _

/-- Fresh placeholders are numbered one after the other. -/
theorem indices_fresh (ls : List (Lexeme T)) (p : Nat) :
    (((marks ls).zip ((indices p ls).map some)).filter fun m => m.1.isFresh).map Prod.snd
      = (List.range' p (freshTypes ls).length).map some := by
  induction ls generalizing p with
  | nil => rfl
  | cons l ls ih =>
      cases l with
      | fresh type =>
          have ih := ih (p + 1)
          simp only [marks, indices, Lexeme.index?, Lexeme.isPlaceholder, Lexeme.next,
            List.filter_cons, freshTypes, List.filterMap_cons, Lexeme.freshType?] at ih ⊢
          simpa [List.range'_succ, Lexeme.isFresh] using ih
      | bound i =>
          have ih := ih p
          simp only [marks, indices, Lexeme.index?, Lexeme.isPlaceholder, Lexeme.next,
            List.filter_cons, freshTypes, List.filterMap_cons, Lexeme.freshType?] at ih ⊢
          simpa [Lexeme.isFresh] using ih
      | _ => exact ih p

/-- Bound placeholders refer back. -/
theorem indices_bound {ls : List (Lexeme T)} {p : Nat} (h : Bounded p ls) {j i : Nat}
    (hj : (marks ls)[j]? = some (.bound i)) :
    ((indices p ls).map some)[j]? = some (some i) ∧
      i < p + (((marks ls).take j).filter Lexeme.isFresh).length := by
  induction ls generalizing p j with
  | nil => cases hj
  | cons l ls ih =>
      cases l with
      | fresh type =>
          cases j with
          | zero => cases hj
          | succ j =>
              obtain ⟨h₁, h₂⟩ := ih h.2 hj
              refine ⟨h₁, ?_⟩
              show i < p + ((((marks ls).take j).filter Lexeme.isFresh).length + 1)
              rw [Lexeme.next] at h₂
              omega
      | bound k =>
          cases j with
          | zero =>
              cases hj
              exact ⟨rfl, h.1⟩
          | succ j => exact ih h.2 hj
      | _ => exact ih h.2 hj

/-! ## Types that are not listed -/

mutual
/-- The fresh placeholders in components that are rendered and whose types are not
listed. -/
def Component.unlisted : Component T → Nat
  | .of projection _ => (freshTypes projection.lexemes).length
  | .projection columns => unlistedSum columns
  | .function _ _ components => unlistedSum components
  | .selector _ c => c.unlisted
  | .distinctOn c criteria => c.unlisted + criteria.unlisted
  | .aliased _ c => c.unlisted
  | .over c partition => c.unlisted + partition.unlisted
  | .partitionBy c => c.unlisted
  | .binaryCriteria _ c parameter => c.unlisted + parameter.unlisted
  | .not criteria => criteria.unlisted
  | .isNull c => c.unlisted
  | .whereClause c => c.unlisted
  | .conjunction components => unlistedSum components
  | .disjunction components => unlistedSum components
  | .offset c => c.unlisted
  | .limit c => c.unlisted
  | .orderClause c _ => c.unlisted
  | .orderBy components => unlistedSum components
  | .groupBy components => unlistedSum components
  | .cte _ _ query => query.unlisted
  | .select projection entity components =>
      projection.unlisted + (entity.unlisted + unlistedSum components)
  | .withExpressions query expressions => unlistedSum expressions + query.unlisted
  | .insert _ _ parameters => unlistedSum parameters
  | .onConflict query conflicting c =>
      query.unlisted + (c.unlisted + (freshTypes conflicting.lexemes).length)
  | .returning query c => query.unlisted + c.unlisted
  | .set assignments => unlistedSum assignments
  | .update _ assignments => unlistedSum assignments
  | .updateWhere query criteria => query.unlisted + criteria.unlisted
  | .delete _ criteria => criteria.unlisted
  | _ => 0

/-- The sum over the components of a pack. -/
def unlistedSum : List (Component T) → Nat
  | [] => 0
  | c :: components => c.unlisted + unlistedSum components
end

/-- The fresh placeholders are those of the listed types and `n` more. -/
def Lists (fresh : List (Option T)) (types : Option (List T)) (n : Nat) : Prop :=
  ∀ ts, types = some ts → fresh.length = ts.length + n ∧ (n = 0 → fresh = ts.map some)

theorem Lists.nil : Lists ([] : List (Option T)) (some []) 0 := by
  intro ts h
  cases h
  exact ⟨rfl, fun _ => rfl⟩

theorem Lists.of_none (fresh : List (Option T)) (n : Nat) : Lists fresh none n := by
  intro ts h
  cases h

/-- Components one after the other. -/
theorem Lists.cat {a b : List (Option T)} {s t : Option (List T)} {m n : Nat}
    (ha : Lists a s m) (hb : Lists b t n) : Lists (a ++ b) (tupleCat s t) (m + n) := by
  intro ts h
  obtain ⟨s, rfl, h⟩ := Option.bind_eq_some_iff.mp h
  obtain ⟨t, rfl, rfl⟩ := Option.map_eq_some_iff.mp h
  obtain ⟨hlength, heq⟩ := ha s rfl
  obtain ⟨hlength', heq'⟩ := hb t rfl
  refine ⟨by rw [List.length_append, List.length_append]; omega, fun h => ?_⟩
  rw [heq (by omega), heq' (by omega), List.map_append]

/-- A component whose types are not listed. -/
theorem Lists.omit {a b : List (Option T)} {t : Option (List T)} {n : Nat} (hb : Lists b t n) :
    Lists (a ++ b) t (n + a.length) := by
  intro ts h
  obtain ⟨hlength, heq⟩ := hb ts h
  refine ⟨by rw [List.length_append]; omega, fun h => ?_⟩
  rw [List.length_eq_zero_iff.mp (by omega : a.length = 0), heq (by omega), List.nil_append]

theorem columns_parameterTypes (columns : List (Column T)) :
    columns.flatMap Column.parameterTypes = [] := by
  simp [Column.parameterTypes]

theorem Entity.parameterTypes_eq (e : Entity T) : e.parameterTypes = [] :=
  columns_parameterTypes e.columns

@[simp] theorem tupleCat_nil (types : Option (List T)) : tupleCat (some []) types = types := by
  simp [tupleCat]

@[simp] theorem freshTypes_nil : freshTypes ([] : List (Lexeme T)) = [] := rfl

@[simp] theorem freshTypes_append (a b : List (Lexeme T)) :
    freshTypes (a ++ b) = freshTypes a ++ freshTypes b :=
  List.filterMap_append

@[simp] theorem freshTypes_keyword (k : Keyword) (ls : List (Lexeme T)) :
    freshTypes (.keyword k :: ls) = freshTypes ls := rfl

@[simp] theorem freshTypes_name (n : Name) (ls : List (Lexeme T)) :
    freshTypes (.name n :: ls) = freshTypes ls := rfl

@[simp] theorem freshTypes_mark (m : Mark) (ls : List (Lexeme T)) :
    freshTypes (.mark m :: ls) = freshTypes ls := rfl

@[simp] theorem freshTypes_entity (e : Entity T) : freshTypes e.lexemes = [] := rfl

/-- Separators have no placeholders. -/
theorem freshTypes_joined {separator : List (Lexeme T)} (h : freshTypes separator = [])
    (ls : List (List (Lexeme T))) :
    freshTypes (joined separator ls) = (ls.map freshTypes).flatten := by
  rw [freshTypes, filterMap_joined, ← freshTypes, h]
  show joined [] (ls.map freshTypes) = (ls.map freshTypes).flatten
  cases ls <;> simp [joined]

@[simp] theorem freshTypes_joined_mark (m : Mark) (ls : List (List (Lexeme T))) :
    freshTypes (joined [.mark m] ls) = (ls.map freshTypes).flatten :=
  freshTypes_joined rfl ls

@[simp] theorem freshTypes_joined_keyword (k : Keyword) (ls : List (List (Lexeme T))) :
    freshTypes (joined [.keyword k] ls) = (ls.map freshTypes).flatten :=
  freshTypes_joined rfl ls

@[simp] theorem freshTypes_joined_nil (ls : List (List (Lexeme T))) :
    freshTypes (joined [] ls) = (ls.map freshTypes).flatten :=
  freshTypes_joined rfl ls

mutual
/-- The listed types are those of the fresh placeholders, as far as they go. -/
theorem Component.lists : ∀ c : Component T,
    Lists (freshTypes c.lexemes) c.parameterTypes c.unlisted
  | .column _ => .nil
  | .of projection c => by
      simpa [Component.lexemes, Component.parameterTypes, Component.unlisted]
        using Lists.nil.omit
  | .entity e => by
      rw [Component.parameterTypes, e.parameterTypes_eq]
      exact .nil
  | .projection columns => by
      simpa [Component.lexemes, Component.parameterTypes, Component.unlisted
       ] using lists_each columns
  | .function _ name components => by
      simpa [Component.lexemes, Component.parameterTypes, Component.unlisted
       ] using lists_each components
  | .selector token c => by
      simpa [Component.lexemes, Component.parameterTypes, Component.unlisted] using c.lists
  | .distinctOn _ _ => .of_none _ _
  | .aliased token c => by
      simpa [Component.lexemes, Component.parameterTypes, Component.unlisted] using c.lists
  | .reference _ => .nil
  | .rawLiteral _ => .of_none _ _
  | .raw _ => .of_none _ _
  | .over c partition => by
      simpa [Component.lexemes, Component.parameterTypes, Component.unlisted
       ] using c.lists.cat partition.lists
  | .partitionBy c => by
      simpa [Component.lexemes, Component.parameterTypes, Component.unlisted] using c.lists
  | .binaryCriteria token c parameter => by
      simpa [Component.lexemes, Component.parameterTypes, Component.unlisted
       ] using c.lists.cat parameter.lists
  | .not criteria => by
      simpa [Component.lexemes, Component.parameterTypes, Component.unlisted] using criteria.lists
  | .isNull c => by
      simpa [Component.lexemes, Component.parameterTypes, Component.unlisted] using c.lists
  | .parameter c => by
      intro ts h
      obtain ⟨type, htype, rfl⟩ := Option.map_eq_some_iff.mp h
      show ([c.valueType] : List (Option T)).length = 1 + 0 ∧ (0 = 0 → [c.valueType] = [some type])
      rw [htype]
      exact ⟨rfl, fun _ => rfl⟩
  | .boundParameter _ => .nil
  | .constant _ => .nil
  | .whereClause c => by
      simpa [Component.lexemes, Component.parameterTypes, Component.unlisted] using c.lists
  | .conjunction components => by
      simpa [Component.lexemes, Component.parameterTypes, Component.unlisted
       ] using lists_each components
  | .disjunction components => by
      simpa [Component.lexemes, Component.parameterTypes, Component.unlisted
       ] using lists_each components
  | .offset c => by
      simpa [Component.lexemes, Component.parameterTypes, Component.unlisted] using c.lists
  | .limit c => by
      simpa [Component.lexemes, Component.parameterTypes, Component.unlisted] using c.lists
  | .orderClause c ascending => by
      simpa [Component.lexemes, Component.parameterTypes, Component.unlisted] using c.lists
  | .orderBy components => by
      simpa [Component.lexemes, Component.parameterTypes, Component.unlisted
       ] using lists_each components
  | .groupBy components => by
      simpa [Component.lexemes, Component.parameterTypes, Component.unlisted
       ] using lists_each components
  | .cte name recursive query => by
      cases recursive <;>
        simpa [Component.lexemes, Component.parameterTypes, Component.unlisted] using query.lists
  | .select projection entity components => by
      simpa [Component.lexemes, Component.parameterTypes, Component.unlisted
       ] using projection.lists.cat (entity.lists.cat (lists_each components))
  | .withExpressions query expressions => by
      simpa [Component.lexemes, Component.parameterTypes, Component.unlisted
       ] using (lists_each expressions).cat query.lists
  | .insert e columns parameters => by
      simpa [Component.lexemes, Component.parameterTypes, Component.unlisted, e.parameterTypes_eq,
        Function.comp_def] using lists_each parameters
  | .onConflict query conflicting c => by
      simpa [Component.lexemes, Component.parameterTypes, Component.unlisted
       ] using query.lists.cat (c.lists.omit (a := freshTypes conflicting.lexemes))
  | .returning query c => by
      simpa [Component.lexemes, Component.parameterTypes, Component.unlisted
       ] using query.lists.cat c.lists
  | .onConstraint _ => .nil
  | .updateFromExcluded e columns => by
      have hcolumns : (columns.map (freshTypes ∘ Column.lexemesExcluded)).flatten = [] := by
        rw [List.flatten_eq_nil_iff, List.forall_mem_map]
        exact fun c _ => rfl
      simpa [Component.lexemes, Component.parameterTypes, Component.unlisted,
        e.parameterTypes_eq, columns_parameterTypes, hcolumns] using Lists.nil
  | .doNothing => .nil
  | .set assignments => by
      simpa [Component.lexemes, Component.parameterTypes, Component.unlisted
       ] using lists_each assignments
  | .update e assignments => by
      simpa [Component.lexemes, Component.parameterTypes, Component.unlisted, e.parameterTypes_eq
       ] using lists_each assignments
  | .updateWhere query criteria => by
      simpa [Component.lexemes, Component.parameterTypes, Component.unlisted
       ] using query.lists.cat criteria.lists
  | .delete e criteria => by
      simpa [Component.lexemes, Component.parameterTypes, Component.unlisted] using criteria.lists

/-- The same for the components of a pack. -/
theorem lists_each : ∀ components : List (Component T),
    Lists ((lexemesEach components).map freshTypes).flatten (parameterTypesCat components)
      (unlistedSum components)
  | [] => .nil
  | c :: components => c.lists.cat (lists_each components)
end

/-- Rendering a component from an index fits its parameter types just when every
fresh placeholder is rendered by a component whose types are listed. -/
theorem renderTo_matches_iff (c : Component T) {types : List T}
    (htypes : c.parameterTypes = some types) (hbound : .bound 0 ∉ c.lexemes) {p : Nat} (hp : 0 < p)
    {s : Bytes × Nat} (hs : c.renderTo ([], p) = some s) :
    Matches c types p s.1 s.2 ↔ c.unlisted = 0 := by
  obtain ⟨rfl, hbounded⟩ := Component.renderTo_eq_some hs
  obtain ⟨hlength, htypes_eq⟩ := c.lists types htypes
  have hread : placeholders (written p c.layout) = (indices p c.lexemes).map some := by
    rw [← c.filterMap_layout] at hbound ⊢
    exact placeholders_written ((c.chain_layout_iff ended_wordRelation).mpr fun _ => trivial)
      hp hbound
  rw [List.nil_append]
  constructor
  · intro h
    have hnext := h.next_eq
    rw [following_eq] at hnext
    omega
  · intro hnone
    rw [hnone, Nat.add_zero] at hlength
    exact {
      next_eq := by rw [following_eq, hlength]
      length_eq := by rw [hread, List.length_map, indices_length]
      fresh := by rw [hread, indices_fresh, hlength]
      bound := fun j i hj => by
        rw [hread]
        exact indices_bound hbounded hj
      types_eq := htypes_eq hnone }

theorem renderTo_matches_insert :
    ∃ s, TrackedFile.insert.renderTo ([], 1) = some s ∧
      Matches TrackedFile.insert [.string, .string, .string] 1 s.1 s.2 := by
  obtain ⟨s, hs⟩ : ∃ s, TrackedFile.insert.renderTo ([], 1) = some s :=
    Option.isSome_iff_exists.mp (by decide +kernel)
  exact ⟨s, hs, (renderTo_matches_iff _ (by decide +kernel) (by decide +kernel) (by decide)
    hs).mpr (by decide +kernel)⟩

/-- A column on the right of a comparison renders the left side once more. -/
def comparedTwice : Component ValueType :=
  .select (.projection [.column Build.id]) (.entity Build.entity)
    [.whereClause (equals (.function .uint64 (.literal "COUNT")
      [equals (.column Build.region) .parameter]) (.column Build.id))]

/-- The statement has two fresh placeholders and one argument. -/
theorem renderTo_matches_wrong :
    comparedTwice.parameterTypes = some [.string] ∧
      ∃ s, comparedTwice.renderTo ([], 1) = some s ∧
        ¬ Matches comparedTwice [.string] 1 s.1 s.2 := by
  refine ⟨by decide +kernel, (ascii ("SELECT  id FROM public.builds WHERE COUNT( region = $1) = " ++
    "COUNT( region = $2).id"), 3), by decide +kernel, fun h => ?_⟩
  exact absurd h.next_eq (by decide)

end Orm

end Tactmon
