import Mathlib.Data.List.Nodup
import Tactmon.Tact.IndexLookup
import Tactmon.Wow.Loading
import Tactmon.Wow.Published

/-!
# Loading a product again

Behind a complete `Load` all that it was given is held by the cache
(`Complete.Shared.loadFrom_held`).  A `Load` of which all is held returns what is
held, and leaves it there (`Complete.loadFrom_returns`); it is what `Product.load`
makes of the files in the cache (`Complete.load_cached`).  So every later `Load` of
the same configuration gives the same product, whatever the network and other
threads do (`reload`).
-/

namespace Tactmon

namespace Wow

open Binary Cxx Text Zlib

/-! ## Loading from what is held -/

section Returns

open Stateful

variable {digest : Bytes → Digest} {Z : Zlib.Inflate} {namable : Bytes → Bool} {root path : Bytes}
  {env : Surroundings} {buildConfig cdnConfig : Bytes} {g : Complete}
  {cdn : Ribbit.CDN} {cdns : List Ribbit.CDN}

/-- All answers are held. -/
def Complete.AllHeld (digest : Bytes → Digest) (Z : Zlib.Inflate) (namable : Bytes → Bool)
    (root path buildConfig cdnConfig : Bytes) (g : Complete) (s : Resolution) : Prop :=
  ∀ a ∈ g.answers digest Z buildConfig cdnConfig, a.Held namable root path s

/-- What others resolve spares all that the `Load` was given. -/
def Complete.SparedBy (digest : Bytes → Digest) (Z : Zlib.Inflate)
    (root path buildConfig cdnConfig : Bytes) (g : Complete) (env : Surroundings) : Prop :=
  ∀ a ∈ g.answers digest Z buildConfig cdnConfig, env.Spare root path a.resource

theorem Complete.request_returns (hcdn : cdn.path = path)
    (hspared : g.SparedBy digest Z root path buildConfig cdnConfig env) {r : Resource}
    {value : r.Value} (ha : ⟨r, value⟩ ∈ g.answers digest Z buildConfig cdnConfig) :
    Returns (g.AllHeld digest Z namable root path buildConfig cdnConfig)
      (request namable root env (cdn :: cdns) r) (some value)
      (g.AllHeld digest Z namable root path buildConfig cdnConfig) :=
  Wow.request_returns hcdn cdns ha hspared

/-- The task of an archive gives its index. -/
theorem Complete.indexTask_returns (hcdn : cdn.path = path)
    (hspared : g.SparedBy digest Z root path buildConfig cdnConfig env) {i : Nat}
    (hi : i < g.cdnConfig.archives.length) :
    Returns (g.AllHeld digest Z namable root path buildConfig cdnConfig)
      (indexTask digest namable root env (cdn :: cdns) g.cdnConfig.archives i) (g.indices[i]?)
      (g.AllHeld digest Z namable root path buildConfig cdnConfig) := by
  have hi' : i < g.indices.length := g.loaded ▸ hi
  rw [indexTask, List.getElem?_eq_getElem hi, List.getElem?_eq_getElem hi']
  exact g.request_returns hcdn hspared (g.index_mem hi hi')

/-- The tasks leave the indices in their futures. -/
theorem Complete.runTasks_returns (hcdn : cdn.path = path)
    (hspared : g.SparedBy digest Z root path buildConfig cdnConfig env) (tasks : List Nat) :
    ∀ futures : Nat → Option Index, (∀ i ∈ tasks, i < g.cdnConfig.archives.length) →
      Returns (g.AllHeld digest Z namable root path buildConfig cdnConfig)
        (runTasks digest namable root env (cdn :: cdns) g.cdnConfig.archives tasks futures)
        (fun i => if i ∈ tasks then g.indices[i]? else futures i)
        (g.AllHeld digest Z namable root path buildConfig cdnConfig) := by
  induction tasks with
  | nil => exact fun futures _ => .pure futures
  | cons i tasks ih =>
      intro futures htasks
      have hrest := ih (Function.update futures i g.indices[i]?) fun j hj =>
        htasks j (List.mem_cons_of_mem _ hj)
      have hvalue : (fun j => if j ∈ i :: tasks then g.indices[j]? else futures j) = fun j =>
          if j ∈ tasks then g.indices[j]? else Function.update futures i g.indices[i]? j := by
        funext j
        by_cases hj : j = i
        · subst hj
          rw [if_pos List.mem_cons_self, Function.update_self, ite_self]
        · rw [Function.update_of_ne hj]
          simp only [List.mem_cons, hj, false_or]
      rw [hvalue]
      exact (g.indexTask_returns hcdn hspared (htasks i List.mem_cons_self)).bind hrest

theorem Complete.loadFileIndex_returns (hcdn : cdn.path = path)
    (hspared : g.SparedBy digest Z root path buildConfig cdnConfig env)
    {product : Tactmon.Product} (hnone : product.fileIndex = none) :
    Returns (g.AllHeld digest Z namable root path buildConfig cdnConfig)
      (loadFileIndex digest namable root env (cdn :: cdns) g.cdnConfig product)
      { product with fileIndex := g.fileIndex }
      (g.AllHeld digest Z namable root path buildConfig cdnConfig) := by
  have hnamed := g.named
  rw [loadFileIndex]
  cases hfile : g.cdnConfig.fileIndex with
  | none =>
      rw [hfile] at hnamed
      rw [Option.isNone_iff_eq_none.mp (Option.isSome_eq_false_iff.mp hnamed), ← hnone]
      exact .pure product
  | some archive =>
      rw [hfile] at hnamed
      obtain ⟨index, hindex⟩ := Option.isSome_iff_exists.mp hnamed
      rw [hindex]
      exact (g.request_returns hcdn hspared (g.fileIndex_mem hfile hindex)).bind (.pure _)

/-- The futures in order, without the empty ones, are these values exactly when
each holds its value. -/
theorem filterMap_range'_eq_iff {α : Type} {futures : Nat → Option α} (xs : List α) :
    ∀ k, (List.range' k xs.length).filterMap futures = xs ↔
      ∀ i < xs.length, futures (k + i) = xs[i]? := by
  induction xs with
  | nil => exact fun k => iff_of_true rfl fun i hi => absurd hi (Nat.not_lt_zero i)
  | cons x xs ih =>
      intro k
      rw [List.length_cons, List.range'_succ, List.filterMap_cons]
      have hrest : (∀ i < xs.length + 1, futures (k + i) = (x :: xs)[i]?) ↔
          futures k = some x ∧ ∀ i < xs.length, futures (k + 1 + i) = xs[i]? := by
        constructor
        · intro h
          refine ⟨h 0 (Nat.succ_pos _), fun i hi => ?_⟩
          rw [Nat.add_assoc, Nat.add_comm 1 i]
          exact h (i + 1) (Nat.succ_lt_succ hi)
        · rintro ⟨hfirst, hrest⟩ i hi
          cases i with
          | zero => exact hfirst
          | succ i =>
              have hplace : k + (i + 1) = k + 1 + i := by omega
              rw [hplace]
              exact hrest i (Nat.lt_of_succ_lt_succ hi)
      rw [hrest]
      cases hk : futures k with
      | none =>
          -- The others are too few.
          refine iff_of_false (fun h => ?_) fun h => by cases h.1
          have hlength := List.length_filterMap_le futures (List.range' (k + 1) xs.length)
          dsimp only at h
          rw [h, List.length_range', List.length_cons] at hlength
          exact Nat.not_succ_le_self _ hlength
      | some y =>
          dsimp only
          rw [List.cons.injEq, Option.some.injEq, ih]

theorem Complete.loadIndices_returns (hcdn : cdn.path = path)
    (hspared : g.SparedBy digest Z root path buildConfig cdnConfig env)
    (hpool : (env.early ++ env.late).Perm (List.range g.cdnConfig.archives.length))
    {product : Tactmon.Product} (hnone : product.fileIndex = none) (hnil : product.indices = []) :
    Returns (g.AllHeld digest Z namable root path buildConfig cdnConfig)
      (loadIndices digest namable root env (cdn :: cdns) g.cdnConfig product)
      (true, { product with fileIndex := g.fileIndex, indices := g.indices })
      (g.AllHeld digest Z namable root path buildConfig cdnConfig) := by
  have htasks : ∀ i, i ∈ env.early ∨ i ∈ env.late ↔ i < g.cdnConfig.archives.length := by
    intro i
    rw [← List.mem_append, hpool.mem_iff, List.mem_range]
  refine (g.runTasks_returns hcdn hspared env.early _ fun i hi => (htasks i).mp (.inl hi)).bind
    ((g.loadFileIndex_returns hcdn hspared hnone).bind
      ((g.runTasks_returns hcdn hspared env.late _ fun i hi => (htasks i).mp (.inr hi)).bind ?_))
  have hindices : (List.range g.cdnConfig.archives.length).filterMap
      (fun i => if i ∈ env.late then g.indices[i]? else
        if i ∈ env.early then g.indices[i]? else none) = g.indices := by
    rw [List.range_eq_range', ← g.loaded, filterMap_range'_eq_iff]
    intro i hi
    rw [Nat.zero_add]
    rcases (htasks i).mpr (g.loaded ▸ hi) with hearly | hlate
    · rw [if_pos hearly, ite_self]
    · rw [if_pos hlate]
  rw [hindices, hnil]
  exact .pure _

/-- A `Load` of the product of which all is held returns, and gives what is
held. -/
theorem Complete.loadBase_returns (hcdns : env.cdns = .ok (some (cdn :: cdns)))
    (hcdn : cdn.path = path)
    (hspared : g.SparedBy digest Z root path buildConfig cdnConfig env)
    (hpool : (env.early ++ env.late).Perm (List.range g.cdnConfig.archives.length)) :
    Returns (g.AllHeld digest Z namable root path buildConfig cdnConfig)
      (loadBase digest Z namable root env buildConfig cdnConfig .fresh)
      (true, { g.product.base with cdns := some (cdn :: cdns) })
      (g.AllHeld digest Z namable root path buildConfig cdnConfig) := by
  exact (Returns.ofExcept hcdns).bind
    ((g.request_returns hcdn hspared g.buildConfig_mem).bind
      ((g.request_returns hcdn hspared g.cdnConfig_mem).bind
        ((g.request_returns hcdn hspared g.encoding_mem).bind
          ((g.request_returns hcdn hspared g.install_mem).bind
            (g.loadIndices_returns hcdn hspared hpool rfl rfl)))))

/-- Behind a complete `Load` of the product the root has its one key. -/
theorem Complete.loadManifest_eq (g : Complete) (r : Option Root) :
    loadManifest digest Z namable root env ⟨g.product.base, r⟩ = (do
      let root ← loadRootFrom digest Z namable root env g.cdns g.encoding.header.contentKeySize
        g.location [0]
      pure (root.isSome, ⟨g.product.base, root⟩)) := by
  have hfind : g.product.base.findFile g.buildConfig.root = some g.location := g.located
  rw [loadManifest]
  dsimp only [Complete.product] at hfind ⊢
  rw [hfind]
  dsimp only
  rw [g.single, List.range_one]

/-- A `Load` of which all is held returns, and gives what is held. -/
theorem Complete.loadFrom_returns (hcdns : env.cdns = .ok (some (cdn :: cdns)))
    (hcdn : cdn.path = path)
    (hspared : g.SparedBy digest Z root path buildConfig cdnConfig env)
    (hpool : (env.early ++ env.late).Perm (List.range g.cdnConfig.archives.length)) :
    Returns (g.AllHeld digest Z namable root path buildConfig cdnConfig)
      (loadFrom digest Z namable root env buildConfig cdnConfig .fresh)
      (true, { g with cdns := cdn :: cdns }.product)
      (g.AllHeld digest Z namable root path buildConfig cdnConfig) := by
  refine (g.loadBase_returns hcdns hcdn hspared hpool).bind ?_
  have hloop : Returns (g.AllHeld digest Z namable root path buildConfig cdnConfig)
      (loadRootFrom digest Z namable root env (cdn :: cdns) g.encoding.header.contentKeySize
        g.location [0]) (some g.root)
      (g.AllHeld digest Z namable root path buildConfig cdnConfig) := by
    rw [loadRootFrom, g.keyed]
    exact (Returns.ofExcept rfl).bind ((g.request_returns hcdn hspared g.root_mem).bind (.pure _))
  change Returns _ (loadManifest digest Z namable root env
    ⟨{ g with cdns := cdn :: cdns }.product.base, none⟩) _ _
  rw [Complete.loadManifest_eq]
  exact hloop.bind (.pure _)

end Returns

/-! ## Loading from the files alone -/

section Cached

/-- What the file of a resource is parsed as. -/
def Resource.cached (root path : Bytes) (files : Files) (r : Resource) :
    Except Thrown (Option r.Value) :=
  match files (r.file root path) with
  | none => .ok none
  | some contents => r.handler (openFile (some contents))

theorem Answer.Held.cached {namable : Bytes → Bool} {root path : Bytes} {a : Answer}
    {s : Resolution} (h : a.Held namable root path s) :
    a.resource.cached root path s.files = .ok (some a.value) := by
  obtain ⟨contents, hfile, hvalue⟩ := h.stored
  rw [Resource.cached, hfile]
  exact hvalue

/-- The files of the cache, without a network. -/
def cachedRemote (digest : Bytes → Digest) (Z : Zlib.Inflate) (root path : Bytes) (files : Files)
    (cdns : List Ribbit.CDN) : Remote where
  base :=
    { cdns := .ok (some cdns)
      buildConfig := fun _ key => (buildConfigResource key).cached root path files
      cdnConfig := fun _ key => (cdnConfigResource key).cached root path files
      encoding := fun _ _ key => (encodingResource digest Z key).cached root path files
      install := fun _ _ key => (installResource digest Z key).cached root path files
      fileIndex := fun _ _ name => (indexResource digest name).cached root path files
      archiveIndex := fun _ _ _ name => (indexResource digest name).cached root path files }
  root := fun _ key contentKeySize =>
    Resource.cached root path files ⟨rootHandler digest Z contentKeySize, ascii "data", key⟩

theorem archiveIndices_of_forall₂ {remote : Tactmon.Remote} {cdns : List Ribbit.CDN}
    {archives : List CDNConfig.Archive} {indices : List Index}
    (h : List.Forall₂ (fun archive index => ∀ i, remote.archiveIndex cdns i
      (indexName archive.name) archive.name = .ok (some index)) archives indices) :
    ∀ i, remote.archiveIndices cdns i archives = .ok indices := by
  induction h with
  | nil => exact fun _ => rfl
  | cons hindex _ ih =>
      intro i
      rw [Remote.archiveIndices, hindex i, ih (i + 1)]
      rfl

/-- The answers that `Product::Load` was given. -/
def Complete.given (g : Complete) : Answers :=
  ⟨g.cdns, g.buildConfig, g.cdnConfig, g.encoding, g.install, g.fileIndex, g.indices⟩

/-- A fresh object is filled with what the product has. -/
theorem Complete.fill_given (g : Complete) : Tactmon.Product.fresh.fill g.given = g.product.base := by
  have hnamed : (if g.given.named then g.given.fileIndex else none) = g.fileIndex := by
    rw [Answers.named, Complete.given, ← g.named]
    cases g.fileIndex with
    | none => rfl
    | some index => rfl
  rw [Tactmon.Product.fill, Tactmon.Product.fresh, hnamed]
  rfl

section Files

variable {digest : Bytes → Digest} {Z : Zlib.Inflate} {namable : Bytes → Bool}
  {root path buildConfig cdnConfig : Bytes} {g : Complete} {s : Resolution}
  (h : g.AllHeld digest Z namable root path buildConfig cdnConfig s)

include h

theorem Complete.cached {r : Resource} {value : r.Value}
    (ha : ⟨r, value⟩ ∈ g.answers digest Z buildConfig cdnConfig) :
    r.cached root path s.files = .ok (some value) := (h _ ha).cached

theorem Complete.namedIndex_cached (cdns : List Ribbit.CDN) :
    (cachedRemote digest Z root path s.files cdns).base.namedIndex cdns g.cdnConfig =
      .ok g.fileIndex := by
  have hnamed := g.named
  rw [Remote.namedIndex]
  cases hfile : g.cdnConfig.fileIndex with
  | none =>
      rw [hfile] at hnamed
      rw [Option.isNone_iff_eq_none.mp (Option.isSome_eq_false_iff.mp hnamed)]
  | some archive =>
      rw [hfile] at hnamed
      obtain ⟨index, hindex⟩ := Option.isSome_iff_exists.mp hnamed
      rw [hindex]
      exact Complete.cached h (g.fileIndex_mem hfile hindex)

theorem Complete.archiveIndices_cached (cdns : List Ribbit.CDN) :
    (cachedRemote digest Z root path s.files cdns).base.archiveIndices cdns 0
      g.cdnConfig.archives = .ok g.indices := by
  refine archiveIndices_of_forall₂ (List.forall₂_iff_get.mpr ⟨g.loaded.symm, ?_⟩) 0
  exact fun i hi hi' _ => Complete.cached h (g.index_mem hi hi')

/-- `Product::Load` finds all its answers in the files. -/
theorem Complete.answers_cached :
    LoadCall.answers ⟨(cachedRemote digest Z root path s.files g.cdns).base, buildConfig,
      cdnConfig⟩ = some g.given := by
  have hbuild := Complete.cached h g.buildConfig_mem
  have hconfig := Complete.cached h g.cdnConfig_mem
  have hencoding := Complete.cached h g.encoding_mem
  have hinstall := Complete.cached h g.install_mem
  have hfile := Complete.namedIndex_cached h g.cdns
  have hindices := Complete.archiveIndices_cached h g.cdns
  rw [LoadCall.answers]
  dsimp only [cachedRemote, encodingResource, installResource] at hencoding hinstall hfile hindices ⊢
  rw [hbuild, hconfig]
  dsimp only [found, bind, Option.bind]
  rw [hencoding]
  dsimp only
  rw [hinstall]
  dsimp only
  rw [hfile, hindices]
  rfl

/-- Where all is held, `Load` makes the product of the files in the cache. -/
theorem Complete.load_cached :
    Product.load (cachedRemote digest Z root path s.files g.cdns) buildConfig cdnConfig .fresh =
      .ok (true, g.product) := by
  let call : LoadCall := ⟨cachedRemote digest Z root path s.files g.cdns, buildConfig, cdnConfig⟩
  have hspec := call.run_spec .fresh
  have hanswers : call.base.answers = some g.given := Complete.answers_cached h
  have hroot : call.remote.root g.cdns (hex g.rootKey) g.encoding.header.contentKeySize =
      .ok (some g.root) := Complete.cached h g.root_mem
  have hrootOf : call.rootOf g.given = .ok (some (some g.root)) := by
    have hlocated : g.given.encoding.findFile g.given.buildConfig.root = some g.location :=
      g.located
    rw [LoadCall.rootOf, hlocated]
    dsimp only
    rw [g.single, List.range_one]
    exact congrArg (Except.map some) (Product.loadRoot_eq [] g.keyed hroot)
  rw [hanswers] at hspec
  dsimp only at hspec
  rw [hrootOf] at hspec
  refine hspec.trans (congrArg Except.ok ?_)
  rw [LoadCall.finish]
  exact congrArg (fun base => (true, (⟨base, some g.root⟩ : Product))) g.fill_given

end Files

end Cached

/-! ## What a Load leaves in the cache -/

section Held

open Stateful

variable {digest : Bytes → Digest} {Z : Zlib.Inflate} {namable : Bytes → Bool} {root path : Bytes}
  {env : Surroundings} {buildConfig cdnConfig : Bytes} {g : Complete}

/-- The `Load` was given an answer for the resource. -/
def Complete.Asks (digest : Bytes → Digest) (Z : Zlib.Inflate) (buildConfig cdnConfig : Bytes)
    (g : Complete) (r : Resource) : Prop :=
  ∃ a ∈ g.answers digest Z buildConfig cdnConfig, a.resource = r

/-- The parsers of what the `Load` asks for take in the same for the same file. -/
def Complete.Consistent (digest : Bytes → Digest) (Z : Zlib.Inflate)
    (root path buildConfig cdnConfig : Bytes) (g : Complete) : Prop :=
  ∀ a ∈ g.answers digest Z buildConfig cdnConfig, ∀ a' ∈ g.answers digest Z buildConfig cdnConfig,
    a.resource.Compatible root path a'.resource

/-- Resources with files of their own are consistent. -/
theorem Complete.consistent_of_nodup
    (h : ((g.answers digest Z buildConfig cdnConfig).map fun a =>
      a.resource.file root path).Nodup) :
    g.Consistent digest Z root path buildConfig cdnConfig := by
  intro a ha a' ha' hfile stream value hvalue
  obtain rfl := List.inj_on_of_nodup_map h ha ha' hfile
  exact ⟨value, hvalue⟩

/-- What a `Load` has to rely on: its CDNs have one path, and nobody takes less
in than it does. -/
structure Complete.Shared (digest : Bytes → Digest) (Z : Zlib.Inflate)
    (root path buildConfig cdnConfig : Bytes) (g : Complete) (env : Surroundings) : Prop where
  paths : ∀ cdn ∈ g.cdns, cdn.path = path
  spared : g.SparedBy digest Z root path buildConfig cdnConfig env
  consistent : g.Consistent digest Z root path buildConfig cdnConfig

/-- A request of the `Load` leaves what was held before. -/
theorem Complete.Shared.request_keeps
    (h : g.Shared digest Z root path buildConfig cdnConfig env) {a : Answer}
    (ha : g.Asks digest Z buildConfig cdnConfig a.resource) {r : Resource}
    (hr : g.Asks digest Z buildConfig cdnConfig r) :
    Keeps (a.Held namable root path) (request namable root env g.cdns r) := by
  obtain ⟨b, hb, hsame⟩ := ha
  obtain ⟨c, hc, rfl⟩ := hr
  have hspare := h.spared b hb
  have hcompatible := h.consistent b hb c hc
  rw [hsame] at hspare hcompatible
  exact Wow.request_keeps h.paths hspare hcompatible

/-- The index of each archive is asked for. -/
theorem Complete.asks_index {i : Nat} {archive : CDNConfig.Archive}
    (hi : g.cdnConfig.archives[i]? = some archive) :
    g.Asks digest Z buildConfig cdnConfig (indexResource digest archive.name) := by
  obtain ⟨hlt, rfl⟩ := List.getElem?_eq_some_iff.mp hi
  exact ⟨_, g.index_mem hlt (g.loaded ▸ hlt), rfl⟩

theorem Complete.Shared.indexTask_keeps
    (h : g.Shared digest Z root path buildConfig cdnConfig env) {a : Answer}
    (ha : g.Asks digest Z buildConfig cdnConfig a.resource) (i : Nat) :
    Keeps (a.Held namable root path)
      (indexTask digest namable root env g.cdns g.cdnConfig.archives i) := by
  rw [indexTask]
  cases hi : g.cdnConfig.archives[i]? with
  | none => exact .pure _
  | some archive => exact h.request_keeps ha (g.asks_index hi)

theorem Complete.Shared.runTasks_keeps
    (h : g.Shared digest Z root path buildConfig cdnConfig env) {a : Answer}
    (ha : g.Asks digest Z buildConfig cdnConfig a.resource) (tasks : List Nat) :
    ∀ futures, Keeps (a.Held namable root path)
      (runTasks digest namable root env g.cdns g.cdnConfig.archives tasks futures) := by
  induction tasks with
  | nil => exact fun futures => .pure futures
  | cons i tasks ih => exact fun futures => (h.indexTask_keeps ha i).bind fun _ => ih _

/-- Every index in a future is held. -/
def FuturesHeld (digest : Bytes → Digest) (namable : Bytes → Bool) (root path : Bytes)
    (archives : List CDNConfig.Archive) (futures : Nat → Option Index) (s : Resolution) : Prop :=
  ∀ i archive index, archives[i]? = some archive → futures i = some index →
    Answer.Held namable root path ⟨indexResource digest archive.name, index⟩ s

theorem Complete.Shared.runTasks_held
    (h : g.Shared digest Z root path buildConfig cdnConfig env) (tasks : List Nat) :
    ∀ {futures futures' : Nat → Option Index} {s s' : Resolution},
      runTasks digest namable root env g.cdns g.cdnConfig.archives tasks futures s =
        (.ok futures', s') →
      FuturesHeld digest namable root path g.cdnConfig.archives futures s →
        FuturesHeld digest namable root path g.cdnConfig.archives futures' s' := by
  induction tasks with
  | nil =>
      intro futures futures' s s' hrun hheld
      cases hrun
      exact hheld
  | cons i tasks ih =>
      intro futures futures' s s' hrun hheld
      obtain ⟨outcome, s₁, htask, hrest⟩ := bind_eq_ok.mp hrun
      refine ih hrest fun j archive index hj hindex => ?_
      by_cases hji : j = i
      · subst hji
        rw [Function.update_self] at hindex
        subst hindex
        rw [indexTask, hj] at htask
        exact request_held h.paths htask
      · rw [Function.update_of_ne hji] at hindex
        exact (h.indexTask_keeps (g.asks_index hj) i).of_eq htask (hheld j archive index hj hindex)

theorem Complete.asks_fileIndex {archive : CDNConfig.Archive}
    (hfile : g.cdnConfig.fileIndex = some archive) :
    g.Asks digest Z buildConfig cdnConfig (indexResource digest archive.name) := by
  have hnamed := g.named
  rw [hfile] at hnamed
  obtain ⟨index, hindex⟩ := Option.isSome_iff_exists.mp hnamed
  exact ⟨_, g.fileIndex_mem hfile hindex, rfl⟩

theorem Complete.Shared.loadFileIndex_keeps
    (h : g.Shared digest Z root path buildConfig cdnConfig env) {a : Answer}
    (ha : g.Asks digest Z buildConfig cdnConfig a.resource) (product : Tactmon.Product) :
    Keeps (a.Held namable root path)
      (loadFileIndex digest namable root env g.cdns g.cdnConfig product) := by
  rw [loadFileIndex]
  cases hfile : g.cdnConfig.fileIndex with
  | none => exact .pure _
  | some archive => exact (h.request_keeps ha (g.asks_fileIndex hfile)).bind fun _ => .pure _

theorem loadFileIndex_product {cdns : List Ribbit.CDN} {cdnConfig : CDNConfig}
    {product product' : Tactmon.Product} {s s' : Resolution}
    (hrun : loadFileIndex digest namable root env cdns cdnConfig product s = (.ok product', s')) :
    product' = { product with fileIndex := product'.fileIndex } := by
  rw [loadFileIndex] at hrun
  cases hfile : cdnConfig.fileIndex with
  | none =>
      rw [hfile] at hrun
      cases hrun
      rfl
  | some archive =>
      rw [hfile] at hrun
      obtain ⟨fileIndex, s₁, -, hpure⟩ := bind_eq_ok.mp hrun
      cases hpure
      rfl

/-- The file index that was loaded is held. -/
theorem Complete.Shared.loadFileIndex_held
    (h : g.Shared digest Z root path buildConfig cdnConfig env)
    {product product' : Tactmon.Product} {s s' : Resolution}
    (hrun : loadFileIndex digest namable root env g.cdns g.cdnConfig product s =
      (.ok product', s')) (hproduct : product'.fileIndex = g.fileIndex) :
    ∀ a ∈ g.fileIndexAnswers digest, a.Held namable root path s' := by
  intro a ha
  rw [loadFileIndex] at hrun
  rw [Complete.fileIndexAnswers] at ha
  cases hfile : g.cdnConfig.fileIndex with
  | none =>
      rw [hfile] at ha
      exact absurd ha List.not_mem_nil
  | some archive =>
      rw [hfile] at hrun ha
      obtain ⟨fileIndex, s₁, hrequest, hpure⟩ := bind_eq_ok.mp hrun
      cases hpure
      dsimp only at hproduct
      rw [← hproduct] at ha
      cases fileIndex with
      | none => exact absurd ha List.not_mem_nil
      | some index =>
          rw [List.mem_singleton.mp ha]
          exact request_held h.paths hrequest

theorem Complete.Shared.loadIndices_keeps
    (h : g.Shared digest Z root path buildConfig cdnConfig env) {a : Answer}
    (ha : g.Asks digest Z buildConfig cdnConfig a.resource) (product : Tactmon.Product) :
    Keeps (a.Held namable root path)
      (loadIndices digest namable root env g.cdns g.cdnConfig product) :=
  (h.runTasks_keeps ha _ _).bind fun _ => (h.loadFileIndex_keeps ha _).bind fun _ =>
    (h.runTasks_keeps ha _ _).bind fun _ => .pure _

/-- The indices that were loaded are held. -/
theorem Complete.Shared.loadIndices_held
    (h : g.Shared digest Z root path buildConfig cdnConfig env)
    {product product' : Tactmon.Product} {s s' : Resolution}
    (hrun : loadIndices digest namable root env g.cdns g.cdnConfig product s =
      (.ok (true, product'), s')) (hnil : product.indices = [])
    (hfile : product'.fileIndex = g.fileIndex) (hindices : product'.indices = g.indices) :
    ∀ a ∈ g.fileIndexAnswers digest ++ g.indexAnswers digest, a.Held namable root path s' := by
  obtain ⟨early, s₁, hearly, hrun⟩ := bind_eq_ok.mp hrun
  obtain ⟨product₁, s₂, hindex, hrun⟩ := bind_eq_ok.mp hrun
  obtain ⟨late, s₃, hlate, hrun⟩ := bind_eq_ok.mp hrun
  cases hrun
  have hearly' := h.runTasks_held env.early hearly fun _ _ _ _ hnone => by cases hnone
  have hlate' := h.runTasks_held env.late hlate fun i archive index hi hvalue =>
    (h.loadFileIndex_keeps (g.asks_index hi) product).of_eq hindex
      (hearly' i archive index hi hvalue)
  dsimp only at hfile hindices
  rw [loadFileIndex_product hindex, hnil, List.nil_append, List.range_eq_range', ← g.loaded,
    filterMap_range'_eq_iff] at hindices
  refine List.forall_mem_append.mpr ⟨fun a ha => ?_, fun a ha => ?_⟩
  · have hasks : g.Asks digest Z buildConfig cdnConfig a.resource :=
      ⟨a, List.mem_append_right _ (List.mem_append_left _ ha), rfl⟩
    exact (h.runTasks_keeps hasks _ _).of_eq hlate (h.loadFileIndex_held hindex hfile a ha)
  · obtain ⟨i, hi, rfl⟩ := List.mem_iff_getElem.mp ha
    rw [Complete.indexAnswers, List.length_zipWith] at hi
    obtain ⟨hi, hi'⟩ := Nat.lt_min.mp hi
    have hvalue := hindices i hi'
    rw [Nat.zero_add, List.getElem?_eq_getElem hi'] at hvalue
    simp only [Complete.indexAnswers, List.getElem_zipWith]
    exact hlate' i _ _ (List.getElem?_eq_getElem hi) hvalue

theorem loadIndices_product {cdns : List Ribbit.CDN} {cdnConfig : CDNConfig}
    {product product' : Tactmon.Product} {loaded : Bool} {s s' : Resolution}
    (hrun : loadIndices digest namable root env cdns cdnConfig product s =
      (.ok (loaded, product'), s')) :
    product' = { product with fileIndex := product'.fileIndex, indices := product'.indices } := by
  obtain ⟨early, s₁, -, hrun⟩ := bind_eq_ok.mp hrun
  obtain ⟨product₁, s₂, hindex, hrun⟩ := bind_eq_ok.mp hrun
  obtain ⟨late, s₃, -, hrun⟩ := bind_eq_ok.mp hrun
  cases hrun
  rw [loadFileIndex_product hindex]

/-- What a `Load` of the product was given is held behind it. -/
theorem Complete.Shared.loadBase_held
    (h : g.Shared digest Z root path buildConfig cdnConfig env) {s s' : Resolution}
    (hrun : loadBase digest Z namable root env buildConfig cdnConfig .fresh s =
      (.ok (true, g.product.base), s')) :
    ∀ a ∈ g.answers digest Z buildConfig cdnConfig,
      a ≠ ⟨rootResource digest Z g.encoding.header.contentKeySize g.rootKey, g.root⟩ →
        a.Held namable root path s' := by
  obtain ⟨cdns, s₀, hcdns, hrun⟩ := bind_eq_ok.mp hrun
  cases cdns with
  | none => cases hrun
  | some cdns =>
  obtain ⟨build, s₁, hbuild, hrun⟩ := bind_eq_ok.mp hrun
  cases build with
  | none => cases hrun
  | some build =>
  obtain ⟨config, s₂, hconfig, hrun⟩ := bind_eq_ok.mp hrun
  cases config with
  | none => cases hrun
  | some config =>
  obtain ⟨encoding, s₃, hencoding, hrun⟩ := bind_eq_ok.mp hrun
  cases encoding with
  | none => cases hrun
  | some encoding =>
  obtain ⟨install, s₄, hinstall, hrun⟩ := bind_eq_ok.mp hrun
  cases install with
  | none => cases hrun
  | some install =>
  change loadIndices digest namable root env cdns config
    ⟨some cdns, some build, some config, some encoding, some install, none, []⟩ s₄ = _ at hrun
  have hproduct := loadIndices_product hrun
  dsimp only [Complete.product] at hproduct
  rw [Tactmon.Product.mk.injEq] at hproduct
  obtain ⟨hsame, hsame₁, hsame₂, hsame₃, hsame₄, -⟩ := hproduct
  cases hsame
  cases hsame₁
  cases hsame₂
  cases hsame₃
  cases hsame₄
  intro a ha hroot
  -- What is held behind a step is held to the end, since the later steps keep it.
  have hasks : g.Asks digest Z buildConfig cdnConfig a.resource := ⟨a, ha, rfl⟩
  have hend₄ := (h.loadIndices_keeps hasks _).of_eq hrun
  have hend₃ := fun hheld => hend₄ ((h.request_keeps hasks ⟨_, g.install_mem, rfl⟩).of_eq
    hinstall hheld)
  have hend₂ := fun hheld => hend₃ ((h.request_keeps hasks ⟨_, g.encoding_mem, rfl⟩).of_eq
    hencoding hheld)
  have hend₁ := fun hheld => hend₂ ((h.request_keeps hasks ⟨_, g.cdnConfig_mem, rfl⟩).of_eq
    hconfig hheld)
  rw [Complete.answers, List.mem_append, Complete.manifestAnswers] at ha
  simp only [List.mem_cons, List.not_mem_nil, or_false] at ha
  rcases ha with (rfl | rfl | rfl | rfl | rfl) | ha
  · exact hend₁ (request_held h.paths hbuild)
  · exact hend₂ (request_held h.paths hconfig)
  · exact hend₃ (request_held h.paths hencoding)
  · exact hend₄ (request_held h.paths hinstall)
  · exact absurd rfl hroot
  · exact h.loadIndices_held hrun rfl rfl rfl a ha

theorem loadManifest_base {product product' : Product} {loaded : Bool} {s s' : Resolution}
    (hrun : loadManifest digest Z namable root env product s = (.ok (loaded, product'), s')) :
    product'.base = product.base := by
  rw [loadManifest] at hrun
  cases hcdns : product.base.cdns with
  | none =>
      rw [hcdns] at hrun
      cases hrun
  | some cdns =>
      cases hbuild : product.base.buildConfig with
      | none =>
          rw [hcdns, hbuild] at hrun
          cases hrun
      | some build =>
          cases hencoding : product.base.encoding with
          | none =>
              rw [hcdns, hbuild, hencoding] at hrun
              cases hrun
          | some encoding =>
              rw [hcdns, hbuild, hencoding] at hrun
              dsimp only at hrun
              cases hlocation : product.base.findFile build.root with
              | none =>
                  rw [hlocation] at hrun
                  cases hrun
                  rfl
              | some location =>
                  rw [hlocation] at hrun
                  obtain ⟨found, s₁, -, hpure⟩ := bind_eq_ok.mp hrun
                  cases hpure
                  rfl

/-- All that a `Load` was given is held behind it. -/
theorem Complete.Shared.loadFrom_held
    (h : g.Shared digest Z root path buildConfig cdnConfig env) {s s' : Resolution}
    (hrun : loadFrom digest Z namable root env buildConfig cdnConfig .fresh s =
      (.ok (true, g.product), s')) :
    g.AllHeld digest Z namable root path buildConfig cdnConfig s' := by
  obtain ⟨⟨loaded, base⟩, s₁, hbase, hrun⟩ := bind_eq_ok.mp hrun
  cases loaded with
  | false => cases hrun
  | true =>
  change loadManifest digest Z namable root env ⟨base, none⟩ s₁ = _ at hrun
  have hsame : g.product.base = base := loadManifest_base hrun
  subst hsame
  rw [g.loadManifest_eq] at hrun
  obtain ⟨found, s₂, hloop, hrun⟩ := bind_eq_ok.mp hrun
  cases found with
  | none => cases hrun
  | some found =>
  cases hrun
  rw [loadRootFrom, g.keyed] at hloop
  obtain ⟨key, s₃, hkey, hloop⟩ := bind_eq_ok.mp hloop
  cases hkey
  obtain ⟨answer, s₄, hrequest, hloop⟩ := bind_eq_ok.mp hloop
  cases answer with
  | none => cases hloop
  | some answer =>
  cases hloop
  intro a ha
  have hasks : g.Asks digest Z buildConfig cdnConfig a.resource := ⟨a, ha, rfl⟩
  by_cases hroot : a = ⟨rootResource digest Z g.encoding.header.contentKeySize g.rootKey, g.root⟩
  · subst hroot
    exact request_held h.paths hrequest
  · exact (h.request_keeps hasks ⟨_, g.root_mem, rfl⟩).of_eq hrequest
      (h.loadBase_held hbase a ha hroot)

end Held

/-! ## Loading again -/

section Again

variable (digest : Bytes → Digest) (Z : Zlib.Inflate) (namable : Bytes → Bool) (root : Bytes)
  (buildConfig cdnConfig : Bytes)

/-- `Load` on fresh objects, one after the other. -/
def loads : List Surroundings → Resolution → List (Except Thrown (Bool × Product)) × Resolution
  | [], s => ([], s)
  | env :: later, s =>
      let (result, s) := loadFrom digest Z namable root env buildConfig cdnConfig .fresh s
      let (results, s) := loads later s
      (result :: results, s)

/-- What a later `Load` has to rely on: Ribbit names a CDN, the first one has
the same path, nobody takes less in than the first `Load` did, and the pool runs
each task once. -/
structure Complete.Repeats (path : Bytes) (g : Complete) (env : Surroundings) : Prop where
  answered : ∃ cdn cdns, env.cdns = .ok (some (cdn :: cdns)) ∧ cdn.path = path
  spared : g.SparedBy digest Z root path buildConfig cdnConfig env
  pool : (env.early ++ env.late).Perm (List.range g.cdnConfig.archives.length)

variable {digest Z namable root buildConfig cdnConfig} {path : Bytes} {g : Complete}

/-- The product, with the CDNs that Ribbit names now. -/
def Complete.again (g : Complete) (env : Surroundings) : Product where
  base := { g.product.base with cdns := found env.cdns }
  root := some g.root

/-- What is held stays held, and each `Load` gives it. -/
theorem Complete.loads_returns (later : List Surroundings) :
    ∀ {s : Resolution}, g.AllHeld digest Z namable root path buildConfig cdnConfig s →
      (∀ env ∈ later, g.Repeats digest Z root buildConfig cdnConfig path env) →
      (loads digest Z namable root buildConfig cdnConfig later s).1 =
          later.map (fun env => .ok (true, g.again env)) ∧
        g.AllHeld digest Z namable root path buildConfig cdnConfig
          (loads digest Z namable root buildConfig cdnConfig later s).2 := by
  induction later with
  | nil => exact fun h _ => ⟨rfl, h⟩
  | cons env later ih =>
      intro s h hrepeats
      obtain ⟨hfirst, hlater⟩ := List.forall_mem_cons.mp hrepeats
      obtain ⟨cdn, cdns, hcdns, hcdn⟩ := hfirst.answered
      obtain ⟨s', hrun, hheld⟩ := g.loadFrom_returns hcdns hcdn hfirst.spared hfirst.pool s h
      have hproduct : { g with cdns := cdn :: cdns }.product = g.again env := by
        rw [Complete.again, hcdns]
        rfl
      obtain ⟨hresults, hend⟩ := ih hheld hlater
      rw [loads, hrun, hproduct, List.map_cons, ← hresults]
      exact ⟨rfl, hend⟩

/-- Behind a complete `Load`, every `Load` of the same configuration gives the
same product, and in the end the files in the cache still do. -/
theorem reload {env : Surroundings} {s s' : Resolution}
    (hrun : loadFrom digest Z namable root env buildConfig cdnConfig .fresh s =
      (.ok (true, g.product), s'))
    (hshared : g.Shared digest Z root path buildConfig cdnConfig env) (later : List Surroundings)
    (hlater : ∀ env ∈ later, g.Repeats digest Z root buildConfig cdnConfig path env) :
    (loads digest Z namable root buildConfig cdnConfig later s').1 =
        later.map (fun env => .ok (true, g.again env)) ∧
      Product.load (cachedRemote digest Z root path
          (loads digest Z namable root buildConfig cdnConfig later s').2.files g.cdns)
        buildConfig cdnConfig .fresh = .ok (true, g.product) := by
  obtain ⟨hresults, hheld⟩ := Complete.loads_returns later (hshared.loadFrom_held hrun) hlater
  exact ⟨hresults, Complete.load_cached hheld⟩

end Again

/-! ## A build in the cache -/

section Sample

/-- A file that is parsed as the answer. -/
structure Answer.Parsed (a : Answer) (body : Bytes) : Prop where
  key : 2 ≤ a.resource.key.length
  value : a.resource.handler (openFile (some body)) = .ok (some a.value)

/-- Where each file has a place of its own, all answers are held. -/
theorem held_of_zip {root path : Bytes} {answers : List Answer} {bodies : List Bytes}
    (hfiles : (answers.map fun a => a.resource.file root path).Nodup)
    (hparsed : List.Forall₂ Answer.Parsed answers bodies) (log : List Use) :
    ∀ a ∈ answers, a.Held (fun _ => true) root path ⟨fun p =>
      List.lookup p ((answers.map fun a => a.resource.file root path).zip bodies), log⟩ := by
  induction hparsed with
  | nil => exact fun a ha => absurd ha List.not_mem_nil
  | @cons answer body answers bodies hanswer _ ih =>
      obtain ⟨hnew, hfiles⟩ := List.nodup_cons.mp hfiles
      refine List.forall_mem_cons.mpr
        ⟨⟨hanswer.key, rfl, body, List.lookup_cons_self, hanswer.value⟩, fun a ha => ?_⟩
      refine (ih hfiles a ha).of_files ?_
      have hne : (a.resource.file root path == answer.resource.file root path) = false :=
        beq_eq_false_iff_ne.mpr fun heq => hnew (List.mem_map.mpr ⟨a, ha, heq⟩)
      change List.lookup _ ((_, body) :: _) = _
      rw [List.lookup_cons, hne]
      rfl

theorem Complete.eq_of_cdns {g : Complete} {cdns : List Ribbit.CDN} (h : g.cdns = cdns) :
    { g with cdns := cdns } = g := by
  subst h
  rfl

/-- The install manifest in two chunks. -/
def installPieces : Archive Inflate.copying where
  chunks := [.plain (installSample.bytes.take 4), .plain (installSample.bytes.drop 4)]
  count_lt := by decide
  size_lt := by decide

/-- The small build, with a path of its own for each manifest. -/
def Build.apart : Build Inflate.copying :=
  { Build.sample with
    buildConfig :=
      { root := [0xBB]
        encoding := { key := acceptedKey encodingArchiveSample }
        install := { key := acceptedKey installPieces } }
    installArchive := installPieces
    install_packed := by decide }

/-- The name of an archive. -/
def archiveName : Bytes := hex (Digest.leading Index.sample.footerBytes).bytes

/-- A line of the build configuration. -/
def keyLine (name : String) (key : KeyPair) : Bytes :=
  ascii name ++ ascii " = " ++ hex key.contentKey ++ ascii " " ++ hex key.encodingKey ++ ascii "\n"

def buildConfigText : Bytes :=
  ascii "root = bb\n" ++ keyLine "encoding" Build.apart.buildConfig.encoding.key ++
    keyLine "install" Build.apart.buildConfig.install.key

def cdnConfigText : Bytes :=
  ascii "archives = " ++ archiveName ++ ascii "\narchives-index-size = 1\n"

def cdnSample (host : String) : Ribbit.CDN := ⟨ascii "us", ascii "tpr", [ascii host], [], ascii "c"⟩

def completeSample : Complete where
  cdns := [cdnSample "a.net"]
  buildConfig := Build.apart.buildConfig
  cdnConfig := ⟨[⟨archiveName, 1⟩], none⟩
  encoding := encodingSample.encoding
  install := installSample.parsed.2
  fileIndex := none
  indices := [Index.sample.index archiveName]
  root := (Root.Manifest.sample 2 Root.noNameHash 0).root
  location := ⟨7, 1, [3, 4]⟩
  rootKey := [3, 4]
  named := rfl
  loaded := rfl
  located := by decide
  single := rfl
  keyed := by decide

/-- The files, in the order of the answers. -/
def bodiesSample : List Bytes :=
  [buildConfigText, cdnConfigText, Build.apart.encodingArchive.bytes Digest.leading,
    Build.apart.installArchive.bytes Digest.leading, Build.apart.rootArchive.bytes Digest.leading,
    Index.sample.bytes Digest.leading]

def answersSample : List Answer :=
  completeSample.answers Digest.leading Inflate.copying (ascii "b0b0") (ascii "c0c0")

theorem openFile_of_ne {contents : Bytes} (h : contents ≠ []) :
    openFile (some contents) = some contents := by
  cases contents with
  | nil => exact absurd rfl h
  | cons b bs => rfl

theorem buildConfig_parsed :
    Answer.Parsed ⟨buildConfigResource (ascii "b0b0"), Build.apart.buildConfig⟩
      buildConfigText where
  key := by decide
  value := by
    dsimp only [buildConfigResource]
    decide +kernel

theorem cdnConfig_parsed :
    Answer.Parsed ⟨cdnConfigResource (ascii "c0c0"), ⟨[⟨archiveName, 1⟩], none⟩⟩
      cdnConfigText where
  key := by decide
  value := by
    dsimp only [cdnConfigResource]
    decide

theorem encoding_parsed :
    Answer.Parsed ⟨encodingResource Digest.leading Inflate.copying
        Build.apart.buildConfig.encoding.key, encodingSample.encoding⟩
      (Build.apart.encodingArchive.bytes Digest.leading) where
  key := by decide
  value := by
    dsimp only [encodingResource]
    rw [openFile_of_ne (by decide), Build.encodingHandler_eq, if_pos]
    · rfl
    · exact accepts_acceptedKey encodingArchiveSample

theorem install_parsed :
    Answer.Parsed ⟨installResource Digest.leading Inflate.copying
        Build.apart.buildConfig.install.key, installSample.parsed.2⟩
      (Build.apart.installArchive.bytes Digest.leading) where
  key := by decide
  value := by
    dsimp only [installResource]
    rw [openFile_of_ne (by decide), Build.installHandler_eq, if_pos]
    · rfl
    · exact accepts_acceptedKey installPieces

theorem root_parsed :
    Answer.Parsed ⟨rootResource Digest.leading Inflate.copying 1 [3, 4],
        (Root.Manifest.sample 2 Root.noNameHash 0).root⟩
      (Build.apart.rootArchive.bytes Digest.leading) where
  key := by decide
  value := by
    dsimp only [rootResource]
    rw [openFile_of_ne (by decide)]
    exact Build.apart.rootHandler_eq Digest.leading aligned_sample

theorem index_parsed :
    Answer.Parsed ⟨indexResource Digest.leading archiveName, Index.sample.index archiveName⟩
      (Index.sample.bytes Digest.leading) where
  key := by decide
  value := by
    have hread := Index.read_archive Digest.leading Index.sample (by
      intro c hc hle
      obtain rfl : c = 16 := Nat.le_antisymm hle hc
      decide +kernel) (FileStream.ofBuffer_rep Index.sampleBuffer)
    have hindex : Index.read Digest.leading archiveName
        (⟨Index.sample.bytes Digest.leading, 0⟩ : FileStream) =
          .ok (Index.sample.index archiveName) := hread
    dsimp only [indexResource]
    rw [openFile_of_ne (by decide), indexHandler, hindex]
    rfl

theorem paths_nodup :
    (answersSample.map fun a => a.resource.file (ascii "/cache") (ascii "tpr")).Nodup := by
  decide +kernel

/-- The cache has the files of the build. -/
def cacheSample : Resolution :=
  ⟨fun p => List.lookup p ((answersSample.map fun a =>
    a.resource.file (ascii "/cache") (ascii "tpr")).zip bodiesSample), []⟩

theorem held_sample :
    completeSample.AllHeld Digest.leading Inflate.copying (fun _ => true) (ascii "/cache")
      (ascii "tpr") (ascii "b0b0") (ascii "c0c0") cacheSample := by
  have hparsed : List.Forall₂ Answer.Parsed answersSample bodiesSample :=
    .cons buildConfig_parsed <| .cons cdnConfig_parsed <| .cons encoding_parsed <|
      .cons install_parsed <| .cons root_parsed <| .cons index_parsed .nil
  exact held_of_zip paths_nodup hparsed []

/-- A `Load` without a network, while others ask for the build configuration. -/
def offlineSample (host : String) (early late : List Nat) : Surroundings where
  cdns := .ok (some [cdnSample host])
  network _ := .unreachable
  others _ := [(buildConfigResource (ascii "b0b0")).call (fun _ => .unreachable) [cdnSample host]]
  early := early
  late := late

theorem repeats_sample (host : String) {early late : List Nat} (hpool : early ++ late = [0]) :
    completeSample.Repeats Digest.leading Inflate.copying (ascii "/cache") (ascii "b0b0")
      (ascii "c0c0") (ascii "tpr") (offlineSample host early late) where
  answered := ⟨_, _, rfl, rfl⟩
  spared a ha n c hc := by
    cases List.mem_singleton.mp hc
    have hcompatible := Complete.consistent_of_nodup paths_nodup a ha _
      completeSample.buildConfig_mem
    refine hcompatible.spares (fun cdn hcdn => ?_) _
    cases List.mem_singleton.mp hcdn
    rfl
  pool := List.Perm.of_eq hpool

theorem shared_sample :
    completeSample.Shared Digest.leading Inflate.copying (ascii "/cache") (ascii "tpr")
      (ascii "b0b0") (ascii "c0c0") (offlineSample "a.net" [0] []) where
  paths cdn hcdn := by
    cases List.mem_singleton.mp hcdn
    rfl
  spared := (repeats_sample "a.net" rfl).spared
  consistent := Complete.consistent_of_nodup paths_nodup

/-- A first `Load`, and two that give the same. -/
theorem reload_sample :
    ∃ s', loadFrom Digest.leading Inflate.copying (fun _ => true) (ascii "/cache")
        (offlineSample "a.net" [0] []) (ascii "b0b0") (ascii "c0c0") .fresh cacheSample =
        (.ok (true, completeSample.product), s') ∧
      (loads Digest.leading Inflate.copying (fun _ => true) (ascii "/cache") (ascii "b0b0")
        (ascii "c0c0") [offlineSample "b.net" [0] [], offlineSample "c.net" [] [0]] s').1 =
        [.ok (true, completeSample.again (offlineSample "b.net" [0] [])),
          .ok (true, completeSample.again (offlineSample "c.net" [] [0]))] := by
  have hfirst : completeSample.Repeats Digest.leading Inflate.copying (ascii "/cache")
      (ascii "b0b0") (ascii "c0c0") (ascii "tpr") (offlineSample "a.net" [0] []) :=
    repeats_sample "a.net" rfl
  have hcdns : (offlineSample "a.net" [0] []).cdns = .ok (some [cdnSample "a.net"]) := rfl
  have hcdn : (cdnSample "a.net").path = ascii "tpr" := rfl
  obtain ⟨s', hrun, -⟩ := Complete.loadFrom_returns hcdns hcdn hfirst.spared hfirst.pool
    cacheSample held_sample
  have hsame : { completeSample with cdns := [cdnSample "a.net"] } = completeSample :=
    Complete.eq_of_cdns rfl
  rw [hsame] at hrun
  refine ⟨s', hrun, (reload hrun shared_sample _ ?_).1⟩
  exact List.forall_mem_cons.mpr ⟨repeats_sample "b.net" rfl,
    List.forall_mem_singleton.mpr (repeats_sample "c.net" rfl)⟩

end Sample

end Wow

end Tactmon
