import Tactmon.Backend.ProductCache
import Mathlib.Data.List.Nodup

/-!
# How long a cached product lives

`LoadConfiguration` blocks in the `Load` of the underlying product, and the
sweep runs on a timer of its own.  So here a call is a request, which leaves a
loading record behind, and the end of its `Load`, and sweeps may come between
the two.  `ProductCache.loadConfiguration_eq` joins them again.

A `Request` is the last call for a build: when it was made, for which lifetime,
and the sweeps that have found its record loading since.  `Request.due` is when
the record is to go by the documentation of `lifetime`.  The first call for a
build sets the timer to a quarter of an hour whatever lifetime it was given, so
a record lives as requested exactly when no sweep can tell the two times apart.
-/

namespace Tactmon

namespace Backend

open Conformance

/-! ## The two halves of a call -/

namespace Product

variable {F H : Type}

/-- `Load`, up to the `Load` of the underlying product. -/
def start (p : Product F H) (entity : Build) : Product F H :=
  { p with currentBuild := entity, loading := true }

/-- The rest of it. -/
def finish (p : Product F H) (outcome : Bool) : Bool × List (Invocation F H) × Product F H :=
  let (loaded, product) :=
    p.product.load p.currentBuild.buildConfig p.currentBuild.cdnConfig outcome
  let p := { p with product }
  if loaded then p.notify else (false, [], { p with loading := false })

theorem load_eq {p : Product F H} {entity : Build} (hid : entity.id ≠ p.currentBuild.id)
    (hloading : p.loading = false) (outcome : Bool) :
    p.load entity outcome = (p.start entity).finish outcome := by
  cases outcome with
  | true => simp [load, start, finish, hid, hloading, Underlying.load]
  | false => simp [load, start, finish, hid, hloading, Underlying.load]

@[simp] theorem finish_currentBuild (p : Product F H) (outcome : Bool) :
    (p.finish outcome).2.2.currentBuild = p.currentBuild := by
  cases outcome with
  | true => rfl
  | false => rfl

end Product

/-- The build of a record. -/
def Record.id {F H : Type} (r : Record F H) : UInt32 := r.product.currentBuild.id

namespace ProductCache

variable {F H : Type}

/-- `LoadConfiguration`, up to the `Load` of the underlying product. -/
def request (c : ProductCache F H) (call : Call H) : ProductCache F H :=
  match findLoaded call c.products with
  | some (_, products) => { c with products }
  | none =>
      match c.productFactories.lookup call.productName with
      | none => c
      | some factory =>
          let product := (Product.ofUnderlying ⟨factory, none⟩).addListener call.handler
          { c with products :=
              c.products ++ [⟨product.start call.configuration, call.now + minutes 15⟩] }

/-- The end of the `Load` for a build. -/
def finishLoad (c : ProductCache F H) (id : UInt32) (outcome : Bool) : ProductCache F H :=
  { c with products := c.products.map fun record =>
      if record.id = id ∧ record.product.loading = true then
        { record with product := (record.product.finish outcome).2.2 }
      else record }

/-- The build's record is loading. -/
def isLoading (c : ProductCache F H) (id : UInt32) : Bool :=
  c.products.any fun record => record.id = id ∧ record.product.loading = true

end ProductCache

/-! ## Requests -/

/-- The last call for a build. -/
structure Request where
  now : Int
  lifetime : Int
  /-- It made the record, and did not find one. -/
  inserted : Bool
  /-- The sweeps since that have found the record loading. -/
  sweeps : List Int
  /-- The `Load` of the record has succeeded. -/
  succeeded : Bool

/-- A sweep extends what is due and still loading by a minute. -/
def extend (due sweep : Int) : Int := if due ≤ sweep then due + minutes 1 else due

namespace Request

/-- Before the first call. -/
def none : Request := ⟨0, 0, false, [], false⟩

/-- When the record is to go. -/
def due (r : Request) : Int := r.sweeps.foldl extend (r.now + r.lifetime)

/-- When the timer of the record says so. -/
def timer (r : Request) : Int :=
  r.sweeps.foldl extend (r.now + if r.inserted then minutes 15 else r.lifetime)

end Request

/-! ## Runs -/

/-- The cache, with the last request for each build. -/
structure Live (F H : Type) where
  cache : ProductCache F H
  requests : UInt32 → Request

/-- What happens to the cache. -/
inductive LoadEvent (H : Type) where
  | request (call : Call H)
  | finish (id : UInt32) (outcome : Bool)
  | sweep (now : Int)

namespace Live

variable {F H : Type}

/-- A cache with these factories, before the first call. -/
def start (registrations : List (String × F)) : Live F H :=
  ⟨ProductCache.empty.register registrations, fun _ => Request.none⟩

def step (s : Live F H) : LoadEvent H → Live F H
  | .request call =>
      { cache := s.cache.request call
        requests := fun id =>
          if id = call.configuration.id then
            let found := (ProductCache.findLoaded call s.cache.products).isSome
            ⟨call.now, call.lifetime, !found, [], found && (s.requests id).succeeded⟩
          else s.requests id }
  | .finish id outcome =>
      { cache := s.cache.finishLoad id outcome
        requests := fun id' =>
          if id' = id ∧ s.cache.isLoading id = true then
            { s.requests id' with succeeded := outcome }
          else s.requests id' }
  | .sweep now =>
      { cache := s.cache.removeExpiredEntries now
        requests := fun id =>
          if s.cache.isLoading id = true then
            { s.requests id with sweeps := (s.requests id).sweeps ++ [now] }
          else s.requests id }

/-- At most one record is there for a build. -/
def Unique (s : Live F H) : Prop := (s.cache.products.map Record.id).Nodup

/-- A sweep removes the record of a loaded build if it is due, and only then,
and extends one that is loading. -/
def LivesAsRequested (s : Live F H) : LoadEvent H → Prop
  | .sweep now => ∀ r ∈ s.cache.products,
      (r.product.loading = true → ∃ r' ∈ (s.cache.removeExpiredEntries now).products,
        r'.id = r.id ∧ r'.expirationTimer = extend r.expirationTimer now) ∧
      (r.product.loading = false → (s.requests r.id).succeeded = true →
        ((∀ r' ∈ (s.cache.removeExpiredEntries now).products, r'.id ≠ r.id) ↔
          (s.requests r.id).due ≤ now))
  | _ => True

/-- A sweep does not come between the time a loaded record is due and the time
its first call has set its timer to. -/
def Timely (s : Live F H) : LoadEvent H → Prop
  | .sweep now => ∀ r ∈ s.cache.products, r.product.loading = false →
      (s.requests r.id).succeeded = true → (s.requests r.id).inserted = true →
      ((s.requests r.id).timer ≤ now ↔ (s.requests r.id).due ≤ now)
  | _ => True

end Live

/-! ## The loop over the records -/

namespace ProductCache

variable {F H : Type} {c : ProductCache F H} {call : Call H}

theorem findLoaded_cons_of_ne {r : Record F H} (ps : List (Record F H))
    (h : r.id ≠ call.configuration.id) :
    findLoaded call (r :: ps) = (findLoaded call ps).map fun f => (f.1, r :: f.2) := if_pos h

/-- The record of the build gets another lifetime, and maybe a listener. -/
theorem findLoaded_cons_of_eq {r : Record F H} (ps : List (Record F H))
    (h : r.id = call.configuration.id) :
    ∃ invoked r', findLoaded call (r :: ps) = some (invoked, r' :: ps) ∧ r'.id = r.id ∧
      r'.product.loading = r.product.loading ∧
      r'.expirationTimer = call.now + call.lifetime := by
  have hne : ¬ r.product.currentBuild.id ≠ call.configuration.id := not_not.mpr h
  by_cases hloading : r.product.loading = true
  · exact ⟨_, ⟨r.product.addListener call.handler, call.now + call.lifetime⟩,
      by simp [findLoaded, hne, hloading]; rfl, rfl, rfl, rfl⟩
  · exact ⟨_, ⟨r.product, call.now + call.lifetime⟩,
      by simp [findLoaded, hne, hloading]; rfl, rfl, rfl, rfl⟩

theorem findLoaded_eq_none {ps : List (Record F H)} :
    findLoaded call ps = none ↔ ∀ r ∈ ps, r.id ≠ call.configuration.id := by
  induction ps with
  | nil => simp [findLoaded]
  | cons r ps ih =>
      rw [List.forall_mem_cons, ← ih]
      by_cases hid : r.id = call.configuration.id
      · obtain ⟨invoked, r', hfound, -⟩ := findLoaded_cons_of_eq ps hid
        rw [hfound]
        exact iff_of_false (Option.some_ne_none _) fun h => h.1 hid
      · rw [findLoaded_cons_of_ne ps hid, Option.map_eq_none_iff]
        exact (and_iff_right hid).symm

/-- The loop changes the first record for the build and no other. -/
theorem findLoaded_eq_some {invoked : List (Invocation F H)} {ps : List (Record F H)} :
    ∀ {ps' : List (Record F H)}, findLoaded call ps = some (invoked, ps') →
      ∃ front r back r', ps = front ++ r :: back ∧ ps' = front ++ r' :: back ∧
        r.id = call.configuration.id ∧ r'.id = r.id ∧
        r'.product.loading = r.product.loading ∧
        r'.expirationTimer = call.now + call.lifetime := by
  induction ps with
  | nil => exact nofun
  | cons r ps ih =>
      intro ps' h
      by_cases hid : r.id = call.configuration.id
      · obtain ⟨invoked', r', hfound, hr'⟩ := findLoaded_cons_of_eq ps hid
        rw [hfound] at h
        cases h
        exact ⟨[], r, ps, r', rfl, rfl, hid, hr'⟩
      · rw [findLoaded_cons_of_ne ps hid, Option.map_eq_some_iff] at h
        obtain ⟨⟨invoked', qs⟩, hqs, hpair⟩ := h
        cases hpair
        obtain ⟨front, r₁, back, r₂, rfl, rfl, hrest⟩ := ih hqs
        exact ⟨r :: front, r₁, back, r₂, rfl, rfl, hrest⟩

/-- Nothing is finished where nothing is loading. -/
theorem finishLoad_idle {id : UInt32} {outcome : Bool}
    (hc : ∀ r ∈ c.products, r.product.loading = false) : c.finishLoad id outcome = c := by
  have hmap : (c.products.map fun record => if record.id = id ∧ record.product.loading = true
      then { record with product := (record.product.finish outcome).2.2 } else record) =
      c.products := by
    refine (List.map_congr_left fun r hr => ?_).trans (List.map_id _)
    rw [hc r hr]
    simp
  rw [finishLoad, hmap]

/-- A call in one piece is its two halves, when no other call is under way. -/
theorem loadConfiguration_eq (hc : ∀ r ∈ c.products, r.product.loading = false) :
    (c.loadConfiguration call).2 =
      (c.request call).finishLoad call.configuration.id call.outcome := by
  rw [loadConfiguration, request]
  cases hfound : findLoaded call c.products with
  | some found =>
      obtain ⟨invoked, ps'⟩ := found
      obtain ⟨front, r, back, r', hps, rfl, -, -, hloading, -⟩ := findLoaded_eq_some hfound
      rw [hps, List.forall_mem_append, List.forall_mem_cons] at hc
      refine (finishLoad_idle ?_).symm
      show ∀ x ∈ front ++ r' :: back, _
      rw [List.forall_mem_append, List.forall_mem_cons]
      exact ⟨hc.1, hloading.trans hc.2.1, hc.2.2⟩
  | none =>
      cases hfactory : c.productFactories.lookup call.productName with
      | none => exact (finishLoad_idle hc).symm
      | some factory =>
          have hload : ((Product.ofUnderlying ⟨factory, none⟩).addListener call.handler).load
              call.configuration call.outcome = _ := Product.load_eq call.positive rfl call.outcome
          have hidle : (c.finishLoad call.configuration.id call.outcome).products = c.products :=
            congrArg products (finishLoad_idle hc)
          simp only [finishLoad] at hidle
          simp only [hload, finishLoad, List.map_append, hidle]
          simp [Record.id, Product.start]

/-! ## What each half and a sweep do -/

/-- A request renews the record of the build, or adds one if there is none and
there is a factory. -/
theorem request_cases (c : ProductCache F H) (call : Call H) :
    ((findLoaded call c.products).isSome = true ∧
      ∃ front r back r', c.products = front ++ r :: back ∧
        (c.request call).products = front ++ r' :: back ∧
        r.id = call.configuration.id ∧ r'.id = r.id ∧
        r'.expirationTimer = call.now + call.lifetime) ∨
    ((findLoaded call c.products).isSome = false ∧
      (∀ r ∈ c.products, r.id ≠ call.configuration.id) ∧
      ((c.request call).products = c.products ∨
        ∃ r', (c.request call).products = c.products ++ [r'] ∧
          r'.id = call.configuration.id ∧ r'.expirationTimer = call.now + minutes 15)) := by
  rw [request]
  cases hfound : findLoaded call c.products with
  | some found =>
      obtain ⟨invoked, ps'⟩ := found
      obtain ⟨front, r, back, r', hps, rfl, hid, hid', -, htimer⟩ := findLoaded_eq_some hfound
      exact .inl ⟨rfl, front, r, back, r', hps, rfl, hid, hid', htimer⟩
  | none =>
      refine .inr ⟨rfl, findLoaded_eq_none.mp hfound, ?_⟩
      cases c.productFactories.lookup call.productName with
      | none => exact .inl rfl
      | some factory => exact .inr ⟨_, rfl, rfl, rfl⟩

/-- A sweep extends the records that are loading, and keeps the others until
their time. -/
theorem mem_removeExpiredEntries {now : Int} {r' : Record F H} :
    r' ∈ (c.removeExpiredEntries now).products ↔ ∃ r ∈ c.products,
      (r.product.loading = true ∧ r' = { r with expirationTimer := extend r.expirationTimer now }) ∨
      (r.product.loading = false ∧ now < r.expirationTimer ∧ r' = r) := by
  rw [removeExpiredEntries, List.mem_filterMap]
  refine exists_congr fun r => and_congr_right fun _ => ?_
  by_cases hkeep : now < r.expirationTimer
  · have hle : ¬ r.expirationTimer ≤ now := by omega
    cases hloading : r.product.loading with
    | true => simp [hle, extend, eq_comm]
    | false => simp [hle, hkeep, eq_comm]
  · have hdue : r.expirationTimer ≤ now := by omega
    cases hloading : r.product.loading with
    | true => simp [hdue, extend, eq_comm]
    | false => simp [hdue, hkeep]

/-- The end of a `Load` moves no record and no timer. -/
theorem mem_finishLoad {id : UInt32} {outcome : Bool} {r' : Record F H}
    (h : r' ∈ (c.finishLoad id outcome).products) :
    ∃ r ∈ c.products, r'.id = r.id ∧ r'.expirationTimer = r.expirationTimer := by
  obtain ⟨r, hr, rfl⟩ := List.mem_map.mp h
  refine ⟨r, hr, ?_⟩
  split
  · exact ⟨congrArg Build.id (Product.finish_currentBuild _ _), rfl⟩
  · exact ⟨rfl, rfl⟩

end ProductCache

/-! ## What every state of a run has -/

namespace Live

variable {F H : Type} {s : Live F H}

/-- No build has two records, and every timer is that of the last request. -/
structure Sound (s : Live F H) : Prop where
  unique : s.Unique
  timers : ∀ r ∈ s.cache.products, r.expirationTimer = (s.requests r.id).timer

theorem Sound.eq_of_id (h : s.Sound) {r r' : Record F H} (hr : r ∈ s.cache.products)
    (hr' : r' ∈ s.cache.products) (hid : r.id = r'.id) : r = r' :=
  List.inj_on_of_nodup_map h.unique hr hr' hid

theorem Sound.isLoading_eq (h : s.Sound) {r : Record F H} (hr : r ∈ s.cache.products) :
    s.cache.isLoading r.id = r.product.loading := by
  rw [Bool.eq_iff_iff, ProductCache.isLoading, List.any_eq_true]
  constructor
  · rintro ⟨x, hx, hfor⟩
    obtain ⟨hid, hloading⟩ := of_decide_eq_true hfor
    rwa [h.eq_of_id hx hr hid] at hloading
  · exact fun hloading => ⟨r, hr, decide_eq_true ⟨rfl, hloading⟩⟩

theorem Request.timer_sweep (r : Request) (now : Int) :
    Request.timer { r with sweeps := r.sweeps ++ [now] } = extend r.timer now := by
  rw [Request.timer, Request.timer, List.foldl_append, List.foldl_cons, List.foldl_nil]

/-- A record for the build is renewed, and no other is for that build. -/
theorem Sound.renew (h : s.Sound) {call : Call H} {front back : List (Record F H)}
    {r r' : Record F H} (hfound : (ProductCache.findLoaded call s.cache.products).isSome = true)
    (hps : s.cache.products = front ++ r :: back)
    (hps' : (s.cache.request call).products = front ++ r' :: back)
    (hid : r.id = call.configuration.id) (hid' : r'.id = r.id)
    (htimer : r'.expirationTimer = call.now + call.lifetime) :
    (s.step (.request call)).Sound := by
  have hunique := h.unique
  rw [Unique, hps] at hunique
  have hother : ∀ x, x ∈ front ∨ x ∈ back → x.id ≠ call.configuration.id := by
    rw [← hid]
    simp only [List.map_append, List.map_cons, List.nodup_append, List.nodup_cons] at hunique
    rintro x (hx | hx) heq
    · exact hunique.2.2 _ (List.mem_map_of_mem hx) _ List.mem_cons_self heq
    · exact hunique.2.1.1 (heq ▸ List.mem_map_of_mem hx)
  have hkept : ∀ x, x ∈ front ∨ x ∈ back →
      x.expirationTimer = ((s.step (.request call)).requests x.id).timer := by
    intro x hx
    have hold : x ∈ s.cache.products := by
      rw [hps, List.mem_append, List.mem_cons]
      exact hx.imp_right .inr
    simp [step, hother x hx, h.timers x hold]
  refine ⟨?_, ?_⟩
  · show ((s.cache.request call).products.map Record.id).Nodup
    rw [hps', List.map_append, List.map_cons, hid']
    rwa [List.map_append, List.map_cons] at hunique
  · show ∀ x ∈ (s.cache.request call).products, _
    rw [hps', List.forall_mem_append, List.forall_mem_cons]
    refine ⟨fun x hx => hkept x (.inl hx), ?_, fun x hx => hkept x (.inr hx)⟩
    simp [step, hid', hid, htimer, hfound, Request.timer]

/-- A record is inserted for a build that has none, or the call fails. -/
theorem Sound.insert (h : s.Sound) {call : Call H}
    (hfound : (ProductCache.findLoaded call s.cache.products).isSome = false)
    (hnone : ∀ r ∈ s.cache.products, r.id ≠ call.configuration.id)
    (hadd : (s.cache.request call).products = s.cache.products ∨
      ∃ r', (s.cache.request call).products = s.cache.products ++ [r'] ∧
        r'.id = call.configuration.id ∧ r'.expirationTimer = call.now + minutes 15) :
    (s.step (.request call)).Sound := by
  have hold : ∀ x ∈ s.cache.products,
      x.expirationTimer = ((s.step (.request call)).requests x.id).timer := by
    intro x hx
    simp [step, hnone x hx, h.timers x hx]
  rcases hadd with hsame | ⟨r', hps', hid', htimer⟩
  · refine ⟨?_, ?_⟩
    · show ((s.cache.request call).products.map Record.id).Nodup
      rw [hsame]
      exact h.unique
    · show ∀ x ∈ (s.cache.request call).products, _
      rwa [hsame]
  · refine ⟨?_, ?_⟩
    · show ((s.cache.request call).products.map Record.id).Nodup
      rw [hps', List.map_append, List.map_singleton, List.nodup_append]
      refine ⟨h.unique, List.nodup_singleton _, ?_⟩
      intro id hid id' hid'' heq
      obtain ⟨x, hx, rfl⟩ := List.mem_map.mp hid
      rw [List.mem_singleton, hid'] at hid''
      exact hnone x hx (heq.trans hid'')
    · show ∀ x ∈ (s.cache.request call).products, _
      rw [hps', List.forall_mem_append, List.forall_mem_singleton]
      refine ⟨hold, ?_⟩
      simp [step, hid', htimer, hfound, Request.timer]

theorem Sound.request (h : s.Sound) (call : Call H) : (s.step (.request call)).Sound := by
  rcases s.cache.request_cases call with
    ⟨hfound, front, r, back, r', hps, hps', hid, hid', htimer⟩ | ⟨hfound, hnone, hadd⟩
  · exact h.renew hfound hps hps' hid hid' htimer
  · exact h.insert hfound hnone hadd

theorem Sound.finish (h : s.Sound) (id : UInt32) (outcome : Bool) :
    (s.step (.finish id outcome)).Sound where
  unique := by
    have hids : (s.cache.finishLoad id outcome).products.map Record.id =
        s.cache.products.map Record.id := by
      rw [ProductCache.finishLoad, List.map_map]
      refine List.map_congr_left fun r _ => ?_
      rw [Function.comp_apply]
      split
      · exact congrArg Build.id (Product.finish_currentBuild _ _)
      · rfl
    show ((s.cache.finishLoad id outcome).products.map Record.id).Nodup
    rw [hids]
    exact h.unique
  timers := by
    intro r' hr'
    obtain ⟨r, hr, hid, htimer⟩ := ProductCache.mem_finishLoad hr'
    rw [htimer, h.timers r hr, hid, step]
    dsimp only
    split <;> rfl

theorem Sound.sweep (h : s.Sound) (now : Int) : (s.step (.sweep now)).Sound where
  unique := by
    have hpairs : s.cache.products.Pairwise fun a b => a.id ≠ b.id :=
      List.pairwise_map.mp h.unique
    show ((s.cache.removeExpiredEntries now).products.map Record.id).Nodup
    -- what a sweep makes of a record is for the same build
    have hid : ∀ a a' : Record F H, (if a.expirationTimer ≤ now then
        if a.product.loading = true then
          some { a with expirationTimer := a.expirationTimer + minutes 1 } else none
        else some a) = some a' → a'.id = a.id := by
      intro a a' ha
      split at ha
      · split at ha
        · cases ha
          rfl
        · cases ha
      · cases ha
        rfl
    refine List.pairwise_map.mpr (hpairs.filterMap _ ?_)
    intro a b hab a' ha' b' hb'
    rw [hid a a' ha', hid b b' hb']
    exact hab
  timers := by
    intro r' hr'
    obtain ⟨r, hr, hkind⟩ := ProductCache.mem_removeExpiredEntries.mp hr'
    have hloading := h.isLoading_eq hr
    rcases hkind with ⟨hl, rfl⟩ | ⟨hl, -, rfl⟩
    · show extend r.expirationTimer now = ((s.step (.sweep now)).requests r.id).timer
      simp only [step]
      rw [if_pos (hloading.trans hl), Request.timer_sweep, h.timers r hr]
    · simp only [step]
      rw [if_neg (by rw [hloading, hl]; exact Bool.noConfusion), h.timers r' hr]

theorem Sound.step (h : s.Sound) (event : LoadEvent H) : (s.step event).Sound := by
  cases event with
  | request call => exact h.request call
  | finish id outcome => exact h.finish id outcome
  | sweep now => exact h.sweep now

/-! ## Sweeps -/

/-- A sweep removes a loaded record exactly when its timer has run out. -/
theorem Sound.removed_iff (h : s.Sound) {r : Record F H} (hr : r ∈ s.cache.products)
    (hloading : r.product.loading = false) (now : Int) :
    (∀ r' ∈ (s.cache.removeExpiredEntries now).products, r'.id ≠ r.id) ↔
      r.expirationTimer ≤ now := by
  constructor
  · intro hgone
    by_contra hkeep
    have hstays : r ∈ (s.cache.removeExpiredEntries now).products :=
      ProductCache.mem_removeExpiredEntries.mpr ⟨r, hr, .inr ⟨hloading, by omega, rfl⟩⟩
    exact hgone r hstays rfl
  · intro hdue r' hr' hid
    obtain ⟨x, hx, ⟨hl, rfl⟩ | ⟨-, hkeep, rfl⟩⟩ := ProductCache.mem_removeExpiredEntries.mp hr'
    · rw [h.eq_of_id hx hr hid, hloading] at hl
      cases hl
    · rw [h.eq_of_id hx hr hid] at hkeep
      omega

theorem Sound.livesAsRequested_iff (h : s.Sound) (event : LoadEvent H) :
    s.LivesAsRequested event ↔ s.Timely event := by
  cases event with
  | request call => exact Iff.rfl
  | finish id outcome => exact Iff.rfl
  | sweep now =>
      refine forall₂_congr fun r hr => ?_
      have hextended : r.product.loading = true →
          ∃ r' ∈ (s.cache.removeExpiredEntries now).products,
            r'.id = r.id ∧ r'.expirationTimer = extend r.expirationTimer now := fun hl =>
        ⟨{ r with expirationTimer := extend r.expirationTimer now },
          ProductCache.mem_removeExpiredEntries.mpr ⟨r, hr, .inl ⟨hl, rfl⟩⟩, rfl, rfl⟩
      rw [and_iff_right hextended]
      refine forall₂_congr fun hloading _ => ?_
      rw [h.removed_iff hr hloading, h.timers r hr]
      cases hinserted : (s.requests r.id).inserted with
      | true => exact ⟨fun h _ => h, fun h => h rfl⟩
      | false =>
          -- a renewed record has the lifetime that was asked for
          have htimer : (s.requests r.id).timer = (s.requests r.id).due := by
            rw [Request.timer, Request.due, hinserted]
            rfl
          rw [htimer]
          exact iff_of_true Iff.rfl nofun

theorem start_sound (registrations : List (String × F)) :
    (Live.start (H := H) registrations).Sound := by
  have hempty : (ProductCache.empty.register registrations : ProductCache F H).products = [] :=
    ProductCache.register_products registrations ProductCache.empty
  refine ⟨?_, ?_⟩
  · show ((ProductCache.empty.register registrations : ProductCache F H).products.map _).Nodup
    rw [hempty]
    exact List.nodup_nil
  · show ∀ r ∈ (ProductCache.empty.register registrations : ProductCache F H).products, _
    rw [hempty]
    exact fun _ h => absurd h List.not_mem_nil

theorem states_sound (events : List (LoadEvent H)) :
    ∀ {s : Live F H}, s.Sound → ∀ t ∈ states Live.step s events, t.Sound := by
  induction events with
  | nil =>
      intro s h
      rw [states, List.forall_mem_singleton]
      exact h
  | cons event events ih =>
      intro s h
      rw [states, List.forall_mem_cons]
      exact ⟨h, ih (h.step event)⟩

/-- A build never has two records.  Its record lives as the last call asked
exactly when no sweep comes between the end of that lifetime and the quarter of
an hour that a first call is given. -/
theorem run_lives_iff (registrations : List (String × F)) (events : List (LoadEvent H)) :
    ((∀ s ∈ states Live.step (Live.start registrations) events, s.Unique) ∧
        Along (silent Live.step) LivesAsRequested (Live.start registrations) events) ↔
      Along (silent Live.step) Timely (Live.start registrations) events := by
  have hstart : (Live.start (H := H) registrations).Sound := start_sound registrations
  have hunique : ∀ s ∈ states Live.step (Live.start registrations) events, s.Unique :=
    fun s hs => (states_sound events hstart s hs).unique
  rw [and_iff_right hunique]
  exact Along.iff_of_step Sound LivesAsRequested (fun h _ => h.livesAsRequested_iff _)
    (fun h _ _ => h.step _) events hstart (Along.of_forall (fun _ _ => trivial) _ events)

/-- A request for two minutes, and a sweep after three. -/
theorem run_outlives :
    ¬ ((∀ s ∈ states Live.step (Live.start [("wow", "wow")])
          [.request { Call.sample "wow" 0 true with lifetime := minutes 2 }, .finish 1 true,
            .sweep (minutes 3)], s.Unique) ∧
        Along (silent Live.step) LivesAsRequested (Live.start [("wow", "wow")])
          [.request { Call.sample "wow" 0 true with lifetime := minutes 2 }, .finish 1 true,
            .sweep (minutes 3)]) := by
  rintro ⟨-, -, -, hsweep, -⟩
  have hdue := ((hsweep _ List.mem_cons_self).2 rfl rfl).mpr (by decide)
  exact hdue _ List.mem_cons_self rfl

end Live

end Backend

end Tactmon
