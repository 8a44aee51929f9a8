import Mathlib.Data.List.Nodup
import Tactmon.Ribbit.Records

/-!
# Product updates

`RibbitMonitor::OnUpdate` over the table of products.  The schema has a unique
index on the name of a product, so a table is a list of rows with different
names, and an insert for a name that is there fails.

A statement that fails is an empty optional or does nothing, and a query gives
the same empty optional for no row.  The listeners are functions on a world of
their own, and one that throws ends the poll.

`Store` is the table with the sequence ids that were ever stored in it.  The
loop over the records is a list of `Step`s, one for each record that is reached.
The stored ids are bounded by the rows (`Store.Bounded`), so a record can only
go wrong where its row is not found although it is there
(`Step.monotone_iff`).
-/

namespace Tactmon

namespace Backend

open Binary

/-! ## The table -/

/-- A row of `products`, without its primary key. -/
structure ProductRow where
  name : Bytes
  sequenceID : UInt64
deriving DecidableEq, Repr

/-- The table `products`. -/
structure Products where
  rows : List ProductRow
  /-- `ix_products_name`. -/
  unique : (rows.map ProductRow.name).Nodup

/-- `PreparedStatementBase::ExecuteOne` of a query. -/
def executeOne {E : Type} (succeeded : Bool) (resultSet : List E) : Option E :=
  if succeeded then
    match resultSet with
    | [row] => some row
    | _ => none
  else none

theorem executeOne_eq_some {E : Type} {succeeded : Bool} {resultSet : List E} {row : E} :
    executeOne succeeded resultSet = some row ↔ succeeded = true ∧ resultSet = [row] := by
  cases succeeded with
  | false => simp [executeOne]
  | true =>
      cases resultSet with
      | nil => simp [executeOne]
      | cons first rest =>
          cases rest with
          | nil => simp [executeOne]
          | cons second rest => simp [executeOne]

/-- A row with a key of its own keeps an index unique. -/
theorem nodup_map_concat {E K : Type} {key : E → K} {rows : List E} {row : E}
    (hrows : (rows.map key).Nodup) (hrow : key row ∉ rows.map key) :
    ((rows ++ [row]).map key).Nodup := by
  rw [List.map_append, List.map_singleton, ← List.concat_eq_append]
  exact List.Nodup.concat hrow hrows

namespace Products

/-- `GetByName`. -/
def getByName (db : Products) (succeeded : Bool) (name : Bytes) : Option ProductRow :=
  executeOne succeeded (db.rows.filter (·.name = name))

theorem insert_unique {rows : List ProductRow} (hrows : (rows.map ProductRow.name).Nodup)
    {name : Bytes} (hname : name ∉ rows.map ProductRow.name) (sequenceID : UInt64) :
    ((rows ++ [(⟨name, sequenceID⟩ : ProductRow)]).map ProductRow.name).Nodup :=
  nodup_map_concat hrows hname

/-- `Insert`. -/
def insert (db : Products) (succeeded : Bool) (name : Bytes) (sequenceID : UInt64) : Products :=
  if h : succeeded = true ∧ name ∉ db.rows.map ProductRow.name then
    ⟨db.rows ++ [⟨name, sequenceID⟩], insert_unique db.unique h.2 sequenceID⟩
  else db

/-- The rows after an update. -/
def updated (rows : List ProductRow) (name : Bytes) (sequenceID : UInt64) : List ProductRow :=
  rows.map fun row => if row.name = name then { row with sequenceID } else row

theorem updated_names (rows : List ProductRow) (name : Bytes) (sequenceID : UInt64) :
    (updated rows name sequenceID).map ProductRow.name = rows.map ProductRow.name := by
  rw [updated, List.map_map]
  refine List.map_congr_left fun row _ => ?_
  rw [Function.comp_apply]
  split
  · rfl
  · rfl

/-- `Update`. -/
def update (db : Products) (succeeded : Bool) (name : Bytes) (sequenceID : UInt64) : Products :=
  if succeeded then
    ⟨updated db.rows name sequenceID, by rw [updated_names]; exact db.unique⟩
  else db

end Products

/-! ## The loop over the records -/

/-- Which statements succeed for a record. -/
structure Statements where
  getByName : Bool
  insert : Bool
  update : Bool
deriving DecidableEq, Repr

/-- A record of a summary, with what becomes of its statements. -/
structure Arrival where
  record : Ribbit.Summary
  statements : Statements

/-- The sequence id of the record, as it is stored and compared. -/
def Arrival.sequenceID (a : Arrival) : UInt64 := a.record.sequenceID.toUInt64

/-- The table, and every sequence id that was stored in it so far.  The code
keeps the table only. -/
structure Store where
  products : Products
  stored : List (Bytes × UInt64)

/-- The store a run begins with. -/
def Store.ofProducts (products : Products) : Store :=
  ⟨products, products.rows.map fun row => (row.name, row.sequenceID)⟩

/-- Note what a statement has stored. -/
def Store.write (s : Store) (products : Products) : Store :=
  ⟨products, s.stored ++ products.rows.map fun row => (row.name, row.sequenceID)⟩

/-- The body of the loop in `OnUpdate` up to the listeners: the sequence id they
are notified with, if they are. -/
def Store.onRecord (s : Store) (a : Arrival) : Option UInt64 × Store :=
  if a.record.flags ≠ [] then (none, s)
  else
    match s.products.getByName a.statements.getByName a.record.product with
    | none =>
        (some a.sequenceID,
          s.write (s.products.insert a.statements.insert a.record.product a.sequenceID))
    | some productState =>
        if productState.sequenceID < a.sequenceID then
          (some a.sequenceID,
            s.write (s.products.update a.statements.update a.record.product a.sequenceID))
        else (none, s)

/-- What one record did. -/
structure Step where
  before : Store
  arrival : Arrival
  notified : Option UInt64
  after : Store

section Listeners

variable {σ : Type}

/-- A listener, on the world it lives in.  It returns false when it throws. -/
abbrev Listener (σ : Type) := Bytes → UInt64 → σ → Bool × σ

/-- `NotifyProductUpdate`. -/
def notifyProductUpdate (productName : Bytes) (sequenceID : UInt64) :
    List (Listener σ) → σ → Bool × σ
  | [], world => (true, world)
  | listener :: listeners, world =>
      match listener productName sequenceID world with
      | (true, world) => notifyProductUpdate productName sequenceID listeners world
      | (false, world) => (false, world)

variable (listeners : List (Listener σ))

/-- The loop in `OnUpdate`: the records that are reached, whether it came to its
end, and the store and the world it leaves. -/
def onRecords : Store → σ → List Arrival → List Step × Bool × Store × σ
  | s, world, [] => ([], true, s, world)
  | s, world, a :: arrivals =>
      match s.onRecord a with
      | (none, after) =>
          let (steps, r) := onRecords after world arrivals
          (⟨s, a, none, after⟩ :: steps, r)
      | (some sequenceID, after) =>
          match notifyProductUpdate a.record.product sequenceID listeners world with
          | (true, world) =>
              let (steps, r) := onRecords after world arrivals
              (⟨s, a, some sequenceID, after⟩ :: steps, r)
          | (false, world) => ([⟨s, a, some sequenceID, after⟩], false, after, world)

/-- A poll: whether its wait was aborted, and the summary if there is one. -/
structure Poll where
  aborted : Bool
  summary : Option (List Arrival)

/-- `OnUpdate`. -/
def onUpdate (s : Store) (world : σ) (poll : Poll) : List Step × Bool × Store × σ :=
  if poll.aborted then ([], true, s, world)
  else
    match poll.summary with
    | none => ([], true, s, world)
    | some arrivals => onRecords listeners s world arrivals

/-- The records that the polls of a run reach. -/
def steps : Store → σ → List Poll → List Step
  | _, _, [] => []
  | s, world, poll :: polls =>
      let (reached, _, s, world) := onUpdate listeners s world poll
      reached ++ steps s world polls

end Listeners

/-! ## What the rows say about the stored ids -/

/-- The rows are the newest of the ids that were stored. -/
structure Store.Bounded (s : Store) : Prop where
  bounded : ∀ {name q}, (name, q) ∈ s.stored →
    ∃ row ∈ s.products.rows, row.name = name ∧ q ≤ row.sequenceID
  recorded : ∀ {row}, row ∈ s.products.rows → (row.name, row.sequenceID) ∈ s.stored

theorem Store.ofProducts_bounded (products : Products) : (Store.ofProducts products).Bounded where
  bounded := by
    intro name q h
    obtain ⟨row, hrow, he⟩ := List.mem_map.mp h
    rw [Prod.mk.injEq] at he
    exact ⟨row, hrow, he.1, UInt64.le_of_eq he.2.symm⟩
  recorded := fun h => List.mem_map.mpr ⟨_, h, rfl⟩

/-- No row loses its name, and its sequence id does not go down. -/
def Grows (rows rows' : List ProductRow) : Prop :=
  ∀ row ∈ rows, ∃ row' ∈ rows', row'.name = row.name ∧ row.sequenceID ≤ row'.sequenceID

theorem Grows.refl (rows : List ProductRow) : Grows rows rows :=
  fun row h => ⟨row, h, rfl, UInt64.le_refl _⟩

theorem Store.Bounded.write {s : Store} (h : s.Bounded) {products : Products}
    (hgrows : Grows s.products.rows products.rows) : (s.write products).Bounded where
  bounded := by
    intro name q hq
    rcases List.mem_append.mp hq with hq | hq
    · obtain ⟨row, hrow, rfl, hle⟩ := h.bounded hq
      obtain ⟨row', hrow', hname, hle'⟩ := hgrows row hrow
      exact ⟨row', hrow', hname, UInt64.le_trans hle hle'⟩
    · obtain ⟨row, hrow, he⟩ := List.mem_map.mp hq
      rw [Prod.mk.injEq] at he
      exact ⟨row, hrow, he.1, UInt64.le_of_eq he.2.symm⟩
  recorded := fun hrow => List.mem_append_right _ (List.mem_map.mpr ⟨_, hrow, rfl⟩)

/-! ## The table -/

namespace Products

/-- A row that is found is the only one of its name. -/
theorem getByName_some {db : Products} {succeeded : Bool} {name : Bytes} {row : ProductRow}
    (h : db.getByName succeeded name = some row) :
    row ∈ db.rows ∧ row.name = name ∧ ∀ row' ∈ db.rows, row'.name = name → row' = row := by
  obtain ⟨-, hfilter⟩ := executeOne_eq_some.mp h
  have hmem : ∀ row', row' ∈ [row] ↔ row' ∈ db.rows ∧ decide (row'.name = name) = true := by
    intro row'
    rw [← hfilter, List.mem_filter]
  obtain ⟨hin, hname⟩ := (hmem row).mp List.mem_cons_self
  refine ⟨hin, of_decide_eq_true hname, fun row' hrow' hname' => ?_⟩
  exact List.mem_singleton.mp ((hmem row').mpr ⟨hrow', decide_eq_true hname'⟩)

/-- A query that succeeds finds the row of a name, if there is one. -/
theorem getByName_none {db : Products} {name : Bytes} (h : db.getByName true name = none) :
    ∀ row ∈ db.rows, row.name ≠ name := by
  intro row hrow hname
  have hnodup : ((db.rows.filter (·.name = name)).map ProductRow.name).Nodup :=
    db.unique.sublist (List.filter_sublist.map _)
  have hall : ∀ x ∈ db.rows.filter (·.name = name), x.name = name :=
    fun x hx => of_decide_eq_true (List.mem_filter.mp hx).2
  have hin : row ∈ db.rows.filter (·.name = name) :=
    List.mem_filter.mpr ⟨hrow, decide_eq_true hname⟩
  cases hfilter : db.rows.filter (·.name = name) with
  | nil =>
      rw [hfilter] at hin
      cases hin
  | cons first rest =>
      rw [hfilter] at hnodup hall
      cases rest with
      | nil =>
          rw [getByName, executeOne_eq_some.mpr ⟨rfl, hfilter⟩] at h
          cases h
      | cons second rest =>
          rw [List.map_cons, List.map_cons, List.nodup_cons] at hnodup
          refine hnodup.1 ?_
          rw [hall first List.mem_cons_self, ← hall second (by simp)]
          exact List.mem_cons_self

theorem insert_grows (db : Products) (succeeded : Bool) (name : Bytes) (sequenceID : UInt64) :
    Grows db.rows (db.insert succeeded name sequenceID).rows := by
  intro row hrow
  rw [insert]
  split
  · exact ⟨row, List.mem_append_left _ hrow, rfl, UInt64.le_refl _⟩
  · exact ⟨row, hrow, rfl, UInt64.le_refl _⟩

/-- An update to a larger id. -/
theorem update_grows {db : Products} {name : Bytes} {sequenceID : UInt64} (succeeded : Bool)
    (h : ∀ row ∈ db.rows, row.name = name → row.sequenceID ≤ sequenceID) :
    Grows db.rows (db.update succeeded name sequenceID).rows := by
  intro row hrow
  rw [update]
  split
  · refine ⟨_, List.mem_map.mpr ⟨row, hrow, rfl⟩, ?_⟩
    split
    · rename_i hname
      exact ⟨rfl, h row hrow hname⟩
    · exact ⟨rfl, UInt64.le_refl _⟩
  · exact ⟨row, hrow, rfl, UInt64.le_refl _⟩

end Products

/-! ## Monotone notifications -/

namespace Step

/-- The listeners are notified only with more than was ever stored for the
product, no stored id goes down, and no name has two rows. -/
structure Monotone (step : Step) : Prop where
  notified : ∀ s, step.notified = some s →
    ∀ q, (step.arrival.record.product, q) ∈ step.before.stored → q < s
  grows : Grows step.before.products.rows step.after.products.rows
  unique : (step.after.products.rows.map ProductRow.name).Nodup

/-- A query that fails does not hide a row with the sequence id of the record, or
a larger one. -/
def Meets (step : Step) : Prop :=
  step.arrival.record.flags = [] → step.arrival.statements.getByName = false →
    ∀ row ∈ step.before.products.rows, row.name = step.arrival.record.product →
      row.sequenceID < step.arrival.sequenceID

/-- The step of a record. -/
def OfRecord (step : Step) : Prop :=
  (step.notified, step.after) = step.before.onRecord step.arrival

end Step

/-- What a record does to the table, and when the listeners are notified. -/
theorem Store.onRecord_cases (s : Store) (a : Arrival) :
    ((a.record.flags ≠ [] ∨
        s.products.getByName a.statements.getByName a.record.product ≠ none) ∧
      s.onRecord a = (none, s)) ∨
    (a.record.flags = [] ∧ s.products.getByName a.statements.getByName a.record.product = none ∧
      ∃ products, Grows s.products.rows products.rows ∧
        s.onRecord a = (some a.sequenceID, s.write products)) ∨
    (∃ row products, s.products.getByName a.statements.getByName a.record.product = some row ∧
      row.sequenceID < a.sequenceID ∧ Grows s.products.rows products.rows ∧
      s.onRecord a = (some a.sequenceID, s.write products)) := by
  rw [onRecord]
  split
  · rename_i hflags
    exact .inl ⟨.inl hflags, rfl⟩
  · rename_i hflags
    cases hfound : s.products.getByName a.statements.getByName a.record.product with
    | none =>
        exact .inr (.inl ⟨not_not.mp hflags, rfl, _, Products.insert_grows _ _ _ _, rfl⟩)
    | some row =>
        dsimp only
        split
        · rename_i hlt
          obtain ⟨-, -, honly⟩ := Products.getByName_some hfound
          refine .inr (.inr ⟨row, _, rfl, hlt, Products.update_grows _ ?_, rfl⟩)
          intro row' hrow' hname
          rw [honly row' hrow' hname]
          exact UInt64.le_of_lt hlt
        · exact .inl ⟨.inr (by simp), rfl⟩

theorem Store.onRecord_bounded {s : Store} (h : s.Bounded) (a : Arrival) :
    (s.onRecord a).2.Bounded := by
  rcases s.onRecord_cases a with ⟨-, he⟩ | ⟨-, -, products, hgrows, he⟩ |
    ⟨-, products, -, -, hgrows, he⟩
  · rw [he]
    exact h
  · rw [he]
    exact h.write hgrows
  · rw [he]
    exact h.write hgrows

/-- A query that fails finds nothing. -/
theorem Products.getByName_failed (db : Products) (name : Bytes) :
    db.getByName false name = none := rfl

/-- A step is monotone exactly when no failed query hides a row that is new
enough. -/
theorem Step.monotone_iff {step : Step} (h : step.before.Bounded) (hstep : step.OfRecord) :
    step.Monotone ↔ step.Meets := by
  obtain ⟨before, arrival, notified, after⟩ := step
  rw [OfRecord] at hstep
  dsimp only at h hstep
  rcases before.onRecord_cases arrival with ⟨hfound, he⟩ | ⟨hflags, hfound, products, hgrows, he⟩ |
    ⟨row, products, hfound, hlt, hgrows, he⟩
  · rw [he, Prod.mk.injEq] at hstep
    obtain ⟨rfl, rfl⟩ := hstep
    refine iff_of_true ⟨fun s hs => (by cases hs), .refl _, after.products.unique⟩ ?_
    intro hflags hquery
    dsimp only at hflags hquery
    rcases hfound with hne | hne
    · exact absurd hflags hne
    · rw [hquery] at hne
      exact absurd (Products.getByName_failed _ _) hne
  · rw [he, Prod.mk.injEq] at hstep
    obtain ⟨rfl, rfl⟩ := hstep
    constructor
    · intro hmonotone _ hquery row hrow hname
      dsimp only at hrow hname
      have hstored := h.recorded hrow
      rw [hname] at hstored
      exact hmonotone.notified _ rfl _ hstored
    · intro hmeets
      refine ⟨fun s hs q hq => ?_, hgrows, products.unique⟩
      cases hs
      dsimp only at hq
      obtain ⟨row, hrow, hname, hle⟩ := h.bounded hq
      cases hquery : arrival.statements.getByName with
      | true =>
          rw [hquery] at hfound
          exact absurd hname (Products.getByName_none hfound row hrow)
      | false =>
          exact UInt64.lt_of_le_of_lt hle (hmeets hflags hquery row hrow hname)
  · rw [he, Prod.mk.injEq] at hstep
    obtain ⟨rfl, rfl⟩ := hstep
    obtain ⟨-, -, honly⟩ := Products.getByName_some hfound
    refine iff_of_true ⟨fun s hs q hq => ?_, hgrows, products.unique⟩ ?_
    · cases hs
      obtain ⟨row', hrow', hname, hle⟩ := h.bounded hq
      rw [honly row' hrow' hname] at hle
      exact UInt64.lt_of_le_of_lt hle hlt
    · intro _ hquery
      dsimp only at hquery
      rw [hquery, Products.getByName_failed] at hfound
      cases hfound

/-! ## Runs -/

section Listeners

variable {σ : Type} (listeners : List (Listener σ))

theorem onRecords_spec (arrivals : List Arrival) :
    ∀ {s : Store} {world : σ}, s.Bounded →
      (∀ step ∈ (onRecords listeners s world arrivals).1, step.before.Bounded ∧ step.OfRecord) ∧
      (onRecords listeners s world arrivals).2.2.1.Bounded := by
  induction arrivals with
  | nil => exact fun h => ⟨fun _ hstep => absurd hstep List.not_mem_nil, h⟩
  | cons a arrivals ih =>
      intro s world h
      have hafter := Store.onRecord_bounded h a
      rw [onRecords]
      cases hrecord : s.onRecord a with
      | mk notified after =>
          rw [hrecord] at hafter
          have hfirst : ∀ step : Step, step = ⟨s, a, notified, after⟩ →
              step.before.Bounded ∧ step.OfRecord := by
            rintro step rfl
            exact ⟨h, hrecord.symm⟩
          cases notified with
          | none =>
              refine ⟨fun step hstep => ?_, (ih hafter).2⟩
              rcases List.mem_cons.mp hstep with he | hstep
              · exact hfirst step he
              · exact (ih hafter).1 step hstep
          | some sequenceID =>
              dsimp only
              cases hnotify : notifyProductUpdate a.record.product sequenceID listeners world with
              | mk returned world' =>
                  cases returned with
                  | true =>
                      refine ⟨fun step hstep => ?_, (ih hafter).2⟩
                      rcases List.mem_cons.mp hstep with he | hstep
                      · exact hfirst step he
                      · exact (ih hafter).1 step hstep
                  | false =>
                      exact ⟨fun step hstep => hfirst step (List.mem_singleton.mp hstep), hafter⟩

theorem onUpdate_spec (poll : Poll) {s : Store} (world : σ) (h : s.Bounded) :
    (∀ step ∈ (onUpdate listeners s world poll).1, step.before.Bounded ∧ step.OfRecord) ∧
      (onUpdate listeners s world poll).2.2.1.Bounded := by
  rw [onUpdate]
  split
  · exact ⟨fun _ hstep => absurd hstep List.not_mem_nil, h⟩
  · split
    · exact ⟨fun _ hstep => absurd hstep List.not_mem_nil, h⟩
    · exact onRecords_spec listeners _ h

theorem steps_spec (polls : List Poll) :
    ∀ {s : Store} {world : σ}, s.Bounded →
      ∀ step ∈ steps listeners s world polls, step.before.Bounded ∧ step.OfRecord := by
  induction polls with
  | nil => exact fun _ _ hstep => absurd hstep List.not_mem_nil
  | cons poll polls ih =>
      intro s world h step hstep
      obtain ⟨hsteps, hafter⟩ := onUpdate_spec listeners poll world h
      rw [steps] at hstep
      rcases List.mem_append.mp hstep with hstep | hstep
      · exact hsteps step hstep
      · exact ih hafter step hstep

end Listeners

/-- In every run of polls the notifications are monotone exactly when no query
fails over a row that is as new as the record. -/
theorem steps_monotone_iff {σ : Type} (listeners : List (Listener σ)) (products : Products)
    (world : σ) (polls : List Poll) :
    (∀ step ∈ steps listeners (.ofProducts products) world polls, step.Monotone) ↔
      ∀ step ∈ steps listeners (.ofProducts products) world polls, step.Meets := by
  refine forall₂_congr fun step hstep => ?_
  obtain ⟨hbounded, hrecord⟩ :=
    steps_spec listeners polls (Store.ofProducts_bounded products) step hstep
  exact step.monotone_iff hbounded hrecord

/-- The table holds sequence id 5.  The query fails once, and the listeners are
notified with 5 again. -/
theorem steps_renotify :
    ∃ step ∈ steps ([] : List (Listener Unit))
        (.ofProducts ⟨[⟨Text.ascii "wow", 5⟩], List.pairwise_singleton _ _⟩) ()
        [⟨false, some [⟨⟨Text.ascii "wow", 5, []⟩, ⟨false, true, true⟩⟩]⟩],
      step.notified = some 5 ∧ ¬ step.Monotone := by
  refine ⟨_, List.mem_cons_self, rfl, fun h => ?_⟩
  exact absurd (h.notified 5 rfl 5 (by decide)) (by decide)

end Backend

end Tactmon
