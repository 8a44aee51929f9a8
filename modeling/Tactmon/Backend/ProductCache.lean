import Tactmon.Lib.Conformance
import Mathlib.Data.List.Basic

/-!
# The product cache

`Product` and `ProductCache` of `backend/Product.cpp` and
`backend/ProductCache.cpp`.  The `Load` of the underlying product is a call
whose outcome the run decides, so of the underlying product only the factory
that made it and its last `Load` are kept.  A call reads the clock once.

A `Ledger` says what the cache comes to: the calls whose records are kept, and
when each is dropped.  It has no products, listeners or loading flags.  The
cache answers as its ledger does (`step_cache`), and on the ledger one sees
which earlier call a repeated request is answered from.

The cache matches a request by the id of its build and by nothing else, and
the record of a failed `Load` stays.  A repeated request is served exactly when
the call it is answered from was one for the same factory and the same
configurations whose `Load` succeeded.
-/

namespace Tactmon

namespace Backend

open Conformance

/-! ## Products -/

/-- `db::entity::build::Entity`, the columns a cache reads. -/
structure Build where
  id : UInt32
  buildConfig : String
  cdnConfig : String
deriving DecidableEq, Repr

/-- The default constructor zeroes every column. -/
def Build.default : Build := ⟨0, "", ""⟩

/-- A `Load` of the underlying product, and what it returned. -/
structure LoadCall where
  buildConfig : String
  cdnConfig : String
  succeeded : Bool
deriving DecidableEq, Repr

/-- `libtactmon::tact::data::product::Product`, as far as the cache can tell. -/
structure Underlying (F : Type) where
  /-- The factory that made it. -/
  maker : F
  lastLoad : Option LoadCall
deriving DecidableEq

/-- `Load`, with its outcome. -/
def Underlying.load {F : Type} (p : Underlying F) (buildConfig cdnConfig : String)
    (outcome : Bool) : Bool × Underlying F :=
  (outcome, { p with lastLoad := some ⟨buildConfig, cdnConfig, outcome⟩ })

/-- `backend::Product`. -/
structure Product (F H : Type) where
  currentBuild : Build
  product : Underlying F
  loadListeners : List H
  loading : Bool
deriving DecidableEq

/-- A handler with the product it is called on. -/
abbrev Invocation (F H : Type) := H × Product F H

namespace Product

variable {F H : Type}

/-- The constructor. -/
def ofUnderlying (product : Underlying F) : Product F H := ⟨.default, product, [], false⟩

/-- `AddListener`. -/
def addListener (p : Product F H) (handler : H) : Product F H :=
  { p with loadListeners := p.loadListeners ++ [handler] }

/-- The end of `Load`: every listener is called. -/
def notify (p : Product F H) : Bool × List (Invocation F H) × Product F H :=
  let p := { p with loading := false }
  (true, p.loadListeners.map fun handler => (handler, p), p)

/-- `Load`. -/
def load (p : Product F H) (entity : Build) (outcome : Bool) :
    Bool × List (Invocation F H) × Product F H :=
  if entity.id ≠ p.currentBuild.id then
    let p := { p with currentBuild := entity }
    if p.loading then p.notify
    else
      let (loaded, product) := p.product.load entity.buildConfig entity.cdnConfig outcome
      let p := { p with product, loading := true }
      if loaded then p.notify else (false, [], { p with loading := false })
  else p.notify

end Product

/-! ## The cache -/

/-- Nanoseconds of the clock. -/
def minutes (n : Int) : Int := n * 60000000000

/-- A call of `LoadConfiguration`, with the time it is made at and the outcome
of the `Load` it may lead to.  Ids of builds are positive. -/
structure Call (H : Type) where
  productName : String
  configuration : Build
  handler : H
  lifetime : Int
  now : Int
  outcome : Bool
  positive : configuration.id ≠ 0

/-- What a call returns, and the handlers it invokes. -/
structure Answer (F H : Type) where
  returned : Bool
  invoked : List (Invocation F H)
deriving DecidableEq

/-- `ProductCache::Record`. -/
structure Record (F H : Type) where
  product : Product F H
  expirationTimer : Int

/-- `ProductCache`. -/
structure ProductCache (F H : Type) where
  products : List (Record F H)
  productFactories : List (String × F)

/-- What happens to a cache. -/
inductive Op (H : Type) where
  | loadConfiguration (call : Call H)
  | removeExpiredEntries (now : Int)

namespace ProductCache

variable {F H : Type}

/-- The constructor. -/
def empty : ProductCache F H := ⟨[], []⟩

/-- `RegisterFactory`: `emplace` keeps a factory that is there already. -/
def registerFactory (c : ProductCache F H) (productName : String) (factory : F) :
    ProductCache F H :=
  match c.productFactories.lookup productName with
  | some _ => c
  | none => { c with productFactories := c.productFactories ++ [(productName, factory)] }

/-- These registrations, made in turn. -/
def register (c : ProductCache F H) (registrations : List (String × F)) : ProductCache F H :=
  registrations.foldl (fun c r => c.registerFactory r.1 r.2) c

@[simp] theorem registerFactory_products (c : ProductCache F H) (productName : String)
    (factory : F) : (c.registerFactory productName factory).products = c.products := by
  rw [registerFactory]
  split <;> rfl

theorem register_products (registrations : List (String × F)) :
    ∀ c : ProductCache F H, (c.register registrations).products = c.products := by
  induction registrations with
  | nil => exact fun _ => rfl
  | cons r registrations ih =>
      intro c
      exact (ih _).trans (registerFactory_products c r.1 r.2)

/-- `RemoveExpiredEntries`. -/
def removeExpiredEntries (c : ProductCache F H) (now : Int) : ProductCache F H :=
  { c with
    products := c.products.filterMap fun record =>
      if record.expirationTimer ≤ now then
        if record.product.loading then
          some { record with expirationTimer := record.expirationTimer + minutes 1 }
        else none
      else some record }

/-- The loop of `LoadConfiguration` over the records, when it finds one. -/
def findLoaded (call : Call H) :
    List (Record F H) → Option (List (Invocation F H) × List (Record F H))
  | [] => none
  | loadedProduct :: products =>
      if loadedProduct.product.currentBuild.id ≠ call.configuration.id then
        (findLoaded call products).map fun r => (r.1, loadedProduct :: r.2)
      else
        -- an expiry timer is set anew by whatever call finds its record
        let loadedProduct := { loadedProduct with expirationTimer := call.now + call.lifetime }
        if loadedProduct.product.loading then
          let product := loadedProduct.product.addListener call.handler
          some ([], { loadedProduct with product } :: products)
        else some ([(call.handler, loadedProduct.product)], loadedProduct :: products)

/-- `LoadConfiguration`. -/
def loadConfiguration (c : ProductCache F H) (call : Call H) : Answer F H × ProductCache F H :=
  match findLoaded call c.products with
  | some (invoked, products) => (⟨true, invoked⟩, { c with products })
  | none =>
      match c.productFactories.lookup call.productName with
      | none => (⟨false, []⟩, c)
      | some factory =>
          let product := (Product.ofUnderlying ⟨factory, none⟩).addListener call.handler
          let (success, invoked, product) := product.load call.configuration call.outcome
          (⟨success, invoked⟩,
            { c with products := c.products ++ [⟨product, call.now + minutes 15⟩] })

/-- One step of a run.  A sweep has no answer. -/
def step (c : ProductCache F H) : Op H → Option (Answer F H) × ProductCache F H
  | .loadConfiguration call =>
      let (answer, c) := c.loadConfiguration call
      (some answer, c)
  | .removeExpiredEntries now => (none, c.removeExpiredEntries now)

end ProductCache

/-! ## The ledger -/

/-- A call whose record is kept, with the factory that served it. -/
structure Entry (F H : Type) where
  maker : F
  call : Call H
  expires : Int

/-- The calls whose records are kept, oldest first. -/
structure Ledger (F H : Type) where
  entries : List (Entry F H)
  factories : List (String × F)

namespace Entry

variable {F H : Type}

/-- The product of the record. -/
def product (e : Entry F H) : Product F H where
  currentBuild := e.call.configuration
  product := ⟨e.maker,
    some ⟨e.call.configuration.buildConfig, e.call.configuration.cdnConfig, e.call.outcome⟩⟩
  loadListeners := [e.call.handler]
  loading := false

/-- The record. -/
def record (e : Entry F H) : Record F H := ⟨e.product, e.expires⟩

/-- The builds have the same id. -/
def isFor (call : Call H) (e : Entry F H) : Bool :=
  e.call.configuration.id = call.configuration.id

/-- Loading a fresh product leaves the product of an entry. -/
theorem load_fresh (factory : F) (call : Call H) (expires : Int) :
    ((Product.ofUnderlying ⟨factory, none⟩).addListener call.handler).load call.configuration
        call.outcome =
      (call.outcome,
        if call.outcome then [(call.handler, (Entry.mk factory call expires).product)] else [],
        (Entry.mk factory call expires).product) := by
  have hid : call.configuration.id ≠ Build.default.id := call.positive
  rw [Product.load]
  cases hout : call.outcome with
  | true =>
      simp [Product.ofUnderlying, Product.addListener, Product.notify, Underlying.load, product,
        hid, hout]
  | false =>
      simp [Product.ofUnderlying, Product.addListener, Underlying.load, product, hid, hout]

end Entry

namespace Ledger

variable {F H : Type}

/-- The first kept call for the build. -/
def holder (l : Ledger F H) (call : Call H) : Option (Entry F H) :=
  l.entries.find? (Entry.isFor call)

/-- The first kept call for the build is kept for another lifetime. -/
def renew (call : Call H) : List (Entry F H) → List (Entry F H)
  | [] => []
  | e :: es =>
      if e.isFor call then { e with expires := call.now + call.lifetime } :: es
      else e :: renew call es

/-- One step of a run. -/
def step (l : Ledger F H) : Op H → Option (Answer F H) × Ledger F H
  | .removeExpiredEntries now =>
      (none, { l with entries := l.entries.filter fun e => now < e.expires })
  | .loadConfiguration call =>
      match l.holder call with
      | some e =>
          (some ⟨true, [(call.handler, e.product)]⟩, { l with entries := renew call l.entries })
      | none =>
          match l.factories.lookup call.productName with
          | none => (some ⟨false, []⟩, l)
          | some factory =>
              let e := ⟨factory, call, call.now + minutes 15⟩
              (some ⟨call.outcome, if call.outcome then [(call.handler, e.product)] else []⟩,
                { l with entries := l.entries ++ [e] })

/-- The cache with the records of the ledger. -/
def cache (l : Ledger F H) : ProductCache F H := ⟨l.entries.map Entry.record, l.factories⟩

/-- The loop over the records finds the record of the holder. -/
theorem findLoaded_records (call : Call H) (es : List (Entry F H)) :
    ProductCache.findLoaded call (es.map Entry.record) =
      (es.find? (Entry.isFor call)).map fun e =>
        ([(call.handler, e.product)], (renew call es).map Entry.record) := by
  induction es with
  | nil => rfl
  | cons e es ih =>
      rw [List.map_cons, ProductCache.findLoaded, ih]
      by_cases h : e.call.configuration.id = call.configuration.id
      · have hfor : e.isFor call = true := decide_eq_true h
        simp [Entry.record, Entry.product, renew, h, hfor]
      · have hfor : e.isFor call = false := decide_eq_false h
        have hid : e.record.product.currentBuild.id ≠ call.configuration.id := h
        rw [if_pos hid, List.find?_cons, hfor]
        cases es.find? (Entry.isFor call) with
        | none => rfl
        | some e' => simp [renew, hfor]

/-- A sweep drops the records of the entries it drops. -/
theorem removeExpiredEntries_records (now : Int) (es : List (Entry F H)) :
    ((es.map Entry.record).filterMap fun record =>
      if record.expirationTimer ≤ now then
        if record.product.loading then
          some { record with expirationTimer := record.expirationTimer + minutes 1 }
        else none
      else some record) = (es.filter fun e => now < e.expires).map Entry.record := by
  induction es with
  | nil => rfl
  | cons e es ih =>
      rw [List.map_cons, List.filterMap_cons, ih]
      by_cases h : e.expires ≤ now
      · have hlt : ¬ now < e.expires := by omega
        simp [Entry.record, Entry.product, h, hlt]
      · have hlt : now < e.expires := by omega
        simp [Entry.record, h, hlt]

/-- The cache answers as its ledger does, and stays its cache. -/
theorem step_cache (l : Ledger F H) (op : Op H) :
    l.cache.step op = ((l.step op).1, (l.step op).2.cache) := by
  cases op with
  | removeExpiredEntries now =>
      rw [ProductCache.step, ProductCache.removeExpiredEntries, cache, removeExpiredEntries_records]
      rfl
  | loadConfiguration call =>
      have hloop : ProductCache.findLoaded call l.cache.products = (l.holder call).map fun e =>
          ([(call.handler, e.product)], (renew call l.entries).map Entry.record) :=
        findLoaded_records call l.entries
      rw [ProductCache.step, ProductCache.loadConfiguration, hloop, step]
      cases l.holder call with
      | some e => rfl
      | none =>
          have hfactories : l.cache.productFactories = l.factories := rfl
          rw [hfactories, Option.map_none]
          cases l.factories.lookup call.productName with
          | none => rfl
          | some factory =>
              dsimp only
              rw [Entry.load_fresh factory call (call.now + minutes 15)]
              simp [cache, Entry.record]

end Ledger

/-! ## Repeated requests -/

section Serving

variable {F H : Type}

/-- The call's own handler is invoked, once, on a product of the registered
factory whose last `Load` was for the call's build and succeeded.  A call that
fails invokes nobody. -/
def Served (factories : List (String × F)) (call : Call H) (answer : Answer F H) : Prop :=
  (answer.returned = true →
    ∃ p, answer.invoked = [(call.handler, p)] ∧
      factories.lookup call.productName = some p.product.maker ∧
      p.product.lastLoad =
        some ⟨call.configuration.buildConfig, call.configuration.cdnConfig, true⟩) ∧
  (answer.returned = false → answer.invoked = [])

/-- Every call of a step is served. -/
def Serves (c : ProductCache F H) : Op H → Prop
  | .removeExpiredEntries _ => True
  | .loadConfiguration call => Served c.productFactories call (c.loadConfiguration call).1

/-- An earlier call that a call is answered from was one for the same factory
and the same configurations, and its `Load` succeeded. -/
def Repeats (l : Ledger F H) : Op H → Prop
  | .removeExpiredEntries _ => True
  | .loadConfiguration call =>
      ∀ e ∈ l.holder call, l.factories.lookup call.productName = some e.maker ∧
        e.call.configuration.buildConfig = call.configuration.buildConfig ∧
        e.call.configuration.cdnConfig = call.configuration.cdnConfig ∧ e.call.outcome = true

/-- One step serves its call exactly when it repeats a call that succeeded. -/
theorem serves_iff_repeats (l : Ledger F H) (op : Op H) : Serves l.cache op ↔ Repeats l op := by
  cases op with
  | removeExpiredEntries now => exact Iff.rfl
  | loadConfiguration call =>
      have hanswer : some (l.cache.loadConfiguration call).1 =
          (l.step (.loadConfiguration call)).1 := by
        have h := l.step_cache (.loadConfiguration call)
        exact congrArg Prod.fst h
      rw [Ledger.step] at hanswer
      change Served l.factories call (l.cache.loadConfiguration call).1 ↔ _
      cases hholder : l.holder call with
      | some e =>
          rw [hholder] at hanswer
          rw [Option.some.inj hanswer]
          simp [Served, Repeats, hholder, Entry.product]
      | none =>
          rw [hholder] at hanswer
          refine iff_of_true ?_ fun e he => ?_
          · cases hfactory : l.factories.lookup call.productName with
            | none =>
                rw [hfactory] at hanswer
                rw [Option.some.inj hanswer]
                exact ⟨fun h => (nomatch h), fun _ => rfl⟩
            | some factory =>
                rw [hfactory] at hanswer
                rw [Option.some.inj hanswer]
                cases hout : call.outcome with
                | true => simp [Served, hout, hfactory, Entry.product]
                | false => simp [Served]
          · rw [hholder] at he
            cases he

/-- Before the first request the cache is that of the empty ledger. -/
theorem register_cache (registrations : List (String × F)) :
    (ProductCache.empty (H := H)).register registrations = Ledger.cache
      ⟨[], ((ProductCache.empty (H := H)).register registrations).productFactories⟩ := by
  have h := ProductCache.register_products registrations (ProductCache.empty (H := H))
  rw [Ledger.cache, List.map_nil, ← show ProductCache.products _ = [] from h]

/-- A run, whatever was registered, serves all of its calls exactly when every
repeated request repeats a call that succeeded. -/
theorem run_serves_iff (registrations : List (String × F)) (ops : List (Op H)) :
    Along ProductCache.step Serves (ProductCache.empty.register registrations) ops ↔
      Along Ledger.step Repeats
        ⟨[], ((ProductCache.empty (H := H)).register registrations).productFactories⟩ ops := by
  refine Along.iff_of_sim (fun c l => c = l.cache) ?_ ?_ ops (register_cache registrations)
  · rintro _ l op rfl
    rw [l.step_cache]
  · rintro _ l op rfl
    exact serves_iff_repeats l op

end Serving

/-- A request for build 1. -/
def Call.sample (productName : String) (handler : Nat) (outcome : Bool) : Call Nat where
  productName := productName
  configuration := ⟨1, "build", "cdn"⟩
  handler := handler
  lifetime := minutes 15
  now := 0
  outcome := outcome
  positive := by decide

/-- A request repeated after its `Load` failed is answered with the product
that failed to load, and one under another name with the first name's product. -/
theorem run_serves_wrong :
    ¬ Along ProductCache.step Serves (ProductCache.empty.register [("wow", "wow")])
      [.loadConfiguration (.sample "wow" 0 false), .loadConfiguration (.sample "wow" 1 true)] ∧
    ¬ Along ProductCache.step Serves
      (ProductCache.empty.register [("wow", "wow"), ("wow_beta", "wow_beta")])
      [.loadConfiguration (.sample "wow" 0 true),
        .loadConfiguration (.sample "wow_beta" 1 true)] := by
  constructor
  · rintro ⟨-, ⟨hserved, -⟩, -⟩
    obtain ⟨p, hinvoked, -, hload⟩ := hserved (by decide)
    cases hinvoked
    exact absurd hload (by decide)
  · rintro ⟨-, ⟨hserved, -⟩, -⟩
    obtain ⟨p, hinvoked, hmaker, -⟩ := hserved (by decide)
    cases hinvoked
    exact absurd hmaker (by decide)

end Backend

end Tactmon
