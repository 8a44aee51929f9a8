import Tactmon.Lib.Stateful
import Tactmon.Tact.Caching
import Tactmon.Wow.Product

/-!
# Loading over the cache

`Load` of a product over the cache and the network, while other threads resolve
resources from the same cache.

`Product.load` is given its answers by a `Remote`.  Here each of them is a call
of `Resolve`, and the calls are one after the other.  The tasks for the indices
of the archives are run by a pool, some in front of the file index and some
behind it.  Between any two calls, and in front of the first one, other threads
may make calls of their own.

A value that a call returned is held by the cache (`Answer.Held`).  The calls
of others leave it there if their parsers take in what the parser of the
resource takes in, and a call for what is held returns it (`request_returns`).

A `Load` is `Complete` if it returned true with every index that the CDN
configuration names, and its root has one encoding key.
-/

namespace Tactmon

namespace Wow

open Binary Cxx Text

/-! ## Resources -/

/-- What a call of `Resolve` is for. -/
structure Resource where
  {Value : Type}
  handler : Handler Value
  kind : Bytes
  key : Bytes

/-- The call for a resource. -/
def Resource.call (r : Resource) (network : Nat → Exchange) (cdns : List Ribbit.CDN) :
    ResolveCall where
  handler := r.handler
  network := network
  kind := r.kind
  key := r.key
  cdns := cdns

/-- The parser of the CDN configuration. -/
def cdnConfigHandler : Handler CDNConfig := fun stream =>
  orThrow (CDNConfig.parse (⟨stream.getD [], 0⟩ : FileStream))

section Resources

variable (digest : Bytes → Digest) (Z : Zlib.Inflate)

/-- The parser of an index. -/
def indexHandler (name : Bytes) : Handler Index
  | none => .ok none
  | some contents => do
      let index ← orThrow (Index.read digest name (⟨contents, 0⟩ : FileStream))
      .ok (some index)

def buildConfigResource (key : Bytes) : Resource := ⟨BuildConfig.handler, ascii "config", key⟩

def cdnConfigResource (key : Bytes) : Resource := ⟨cdnConfigHandler, ascii "config", key⟩

def encodingResource (key : KeyPair) : Resource :=
  ⟨encodingHandler digest Z key, ascii "data", hex key.encodingKey⟩

def installResource (key : KeyPair) : Resource :=
  ⟨installHandler digest Z key, ascii "data", hex key.encodingKey⟩

def indexResource (name : Bytes) : Resource :=
  ⟨indexHandler digest name, ascii "data", indexName name⟩

def rootResource (contentKeySize : Nat) (key : EKey) : Resource :=
  ⟨rootHandler digest Z contentKeySize, ascii "data", hex key⟩

end Resources

/-! ## Loading -/

/-- What there is around a `Load`. -/
structure Surroundings where
  /-- The answer of Ribbit. -/
  cdns : Except Thrown (Option (List Ribbit.CDN))
  network : Nat → Exchange
  /-- What other threads resolve in front of an own call, told by the log so far. -/
  others : Nat → List ResolveCall
  /-- The tasks that are run in front of the file index. -/
  early : List Nat
  /-- The tasks that are run behind it. -/
  late : List Nat

/-- A part of `Load`. -/
abbrev Loading (α : Type) := Stateful Resolution Thrown α

section Load

variable (digest : Bytes → Digest) (Z : Zlib.Inflate) (namable : Bytes → Bool) (root : Bytes)
  (env : Surroundings)

/-- `ResolveConfiguration` and `ResolveData`, behind what others resolve. -/
def request (cdns : List Ribbit.CDN) (r : Resource) : Loading (Option r.Value) := fun s =>
  (r.call env.network cdns).run namable root
    (ResolveCall.runs namable root (env.others s.log.length) s)

/-- The task of an archive. -/
def indexTask (cdns : List Ribbit.CDN) (archives : List CDNConfig.Archive) (i : Nat) :
    Loading (Option Index) :=
  match archives[i]? with
  | some archive => request namable root env cdns (indexResource digest archive.name)
  | none => pure none

/-- The tasks, in the order of the pool, and what their futures hold. -/
def runTasks (cdns : List Ribbit.CDN) (archives : List CDNConfig.Archive) :
    List Nat → (Nat → Option Index) → Loading (Nat → Option Index)
  | [], futures => pure futures
  | i :: tasks, futures => do
      let futureOutcome ← indexTask digest namable root env cdns archives i
      runTasks cdns archives tasks (Function.update futures i futureOutcome)

/-- The file index, where the configuration names one. -/
def loadFileIndex (cdns : List Ribbit.CDN) (cdnConfig : CDNConfig) (product : Tactmon.Product) :
    Loading Tactmon.Product :=
  match cdnConfig.fileIndex with
  | some fileIndex => do
      let fileIndex ← request namable root env cdns (indexResource digest fileIndex.name)
      pure { product with fileIndex }
  | none => pure product

/-- The end of `Product::Load`. -/
def loadIndices (cdns : List Ribbit.CDN) (cdnConfig : CDNConfig) (product : Tactmon.Product) :
    Loading (Bool × Tactmon.Product) := do
  let archives := cdnConfig.archives
  let futures ← runTasks digest namable root env cdns archives env.early fun _ => none
  let product ← loadFileIndex digest namable root env cdns cdnConfig product
  let futures ← runTasks digest namable root env cdns archives env.late futures
  let indices := (List.range archives.length).filterMap futures
  pure (true, { product with indices := product.indices ++ indices })

/-- `Product::Load`. -/
def loadBase (buildConfig cdnConfig : Bytes) (product : Tactmon.Product) :
    Loading (Bool × Tactmon.Product) := do
  let cdns ← Stateful.ofExcept env.cdns
  let product := { product with cdns }
  match cdns with
  | none => pure (false, product)
  | some cdns => do
      let buildConfig ← request namable root env cdns (buildConfigResource buildConfig)
      let product := { product with buildConfig }
      match buildConfig with
      | none => pure (false, product)
      | some buildConfig => do
          let cdnConfig ← request namable root env cdns (cdnConfigResource cdnConfig)
          let product := { product with cdnConfig }
          match cdnConfig with
          | none => pure (false, product)
          | some cdnConfig => do
              let encoding ← request namable root env cdns
                (encodingResource digest Z buildConfig.encoding.key)
              let product := { product with encoding }
              if encoding.isNone then pure (false, product)
              else do
                let install ← request namable root env cdns
                  (installResource digest Z buildConfig.install.key)
                let product := { product with install }
                if install.isNone then pure (false, product)
                else loadIndices digest namable root env cdns cdnConfig product

/-- The loop over the encoding keys of the root. -/
def loadRootFrom (cdns : List Ribbit.CDN) (contentKeySize : Nat) (rootLocation : FileLocation) :
    List Nat → Loading (Option Root)
  | [] => pure none
  | i :: indices => do
      let key ← Stateful.ofExcept (orThrow (rootLocation.at i))
      match ← request namable root env cdns (rootResource digest Z contentKeySize key) with
      | some root => pure (some root)
      | none => loadRootFrom cdns contentKeySize rootLocation indices

/-- The end of `Load`, where the product was loaded. -/
def loadManifest (product : Product) : Loading (Bool × Product) :=
  match product.base.cdns, product.base.buildConfig, product.base.encoding with
  | some cdns, some buildConfig, some encoding =>
      match product.base.findFile buildConfig.root with
      | none => pure (false, product)
      | some rootLocation => do
          let root ← loadRootFrom digest Z namable root env cdns encoding.header.contentKeySize
            rootLocation (List.range rootLocation.keyCount)
          pure (root.isSome, { product with root })
  | _, _, _ => Stateful.ofExcept (.error (.fault .outOfBounds))

/-- `wow::Product::Load`. -/
def loadFrom (buildConfig cdnConfig : Bytes) (product : Product) : Loading (Bool × Product) := do
  let (loaded, base) ← loadBase digest Z namable root env buildConfig cdnConfig product.base
  let product := { product with base }
  if !loaded then pure (false, product)
  else loadManifest digest Z namable root env product

end Load

/-! ## What the cache holds -/

/-- A resource, and what its file is parsed as. -/
structure Answer where
  resource : Resource
  value : resource.Value

section Held

variable {namable : Bytes → Bool} {root path : Bytes}

/-- The file of a resource, where the CDNs have this path. -/
def Resource.file (root path : Bytes) (r : Resource) : Bytes :=
  getAbsolutePath root (resourcePath ⟨[], path, [], [], []⟩ r.kind r.key)

/-- The resource can be looked up, and its file is parsed as the value. -/
structure Answer.Held (namable : Bytes → Bool) (root path : Bytes) (a : Answer) (s : Resolution) :
    Prop where
  key : 2 ≤ a.resource.key.length
  name : namable (a.resource.file root path) = true
  stored : Stored a.resource.handler s.files (a.resource.file root path) a.value

/-- A call that looks up the file of the resource takes in what the resource
takes in. -/
def Spares (root path : Bytes) (c : ResolveCall) (r : Resource) : Prop :=
  r.file root path ∈ c.paths root →
    ∀ stream value, r.handler stream = .ok (some value) → c.Accepts stream

/-- Two resources are for different files, or the second one takes in what the
first one takes in. -/
def Resource.Compatible (root path : Bytes) (r r' : Resource) : Prop :=
  r.file root path = r'.file root path →
    ∀ stream value, r.handler stream = .ok (some value) →
      ∃ value', r'.handler stream = .ok (some value')

theorem Resource.file_of_path {cdn : Ribbit.CDN} (h : cdn.path = path) (r : Resource) :
    getAbsolutePath root (resourcePath cdn r.kind r.key) = r.file root path :=
  congrArg (getAbsolutePath root) (resourcePath_congr h _ _)

/-- The own calls spare what is compatible with them. -/
theorem Resource.Compatible.spares {r r' : Resource} (h : r.Compatible root path r')
    {cdns : List Ribbit.CDN} (hcdns : ∀ cdn ∈ cdns, cdn.path = path) (network : Nat → Exchange) :
    Spares root path (r'.call network cdns) r := by
  intro hmem stream value hvalue
  obtain ⟨cdn, hcdn, hfile⟩ := ResolveCall.mem_paths.mp hmem
  exact h (hfile.symm.trans (r'.file_of_path (hcdns cdn hcdn))) stream value hvalue

theorem Answer.Held.of_files {a : Answer} {s s' : Resolution} (h : a.Held namable root path s)
    (hfiles : s'.files (a.resource.file root path) = s.files (a.resource.file root path)) :
    a.Held namable root path s' :=
  ⟨h.key, h.name, by rw [Stored, hfiles]; exact h.stored⟩

/-- A call that spares the resource leaves its file. -/
theorem Answer.Held.run {a : Answer} {s : Resolution} (h : a.Held namable root path s)
    {c : ResolveCall} (hspares : Spares root path c a.resource) :
    a.Held namable root path (c.run namable root s).2 := by
  obtain ⟨contents, hfile, hvalue⟩ := h.stored
  have hleaves : s.Leaves (a.resource.file root path) (c.run namable root s).2 :=
    ResolveCall.run_leaves fun hmem => (hspares hmem _ _ hvalue).stored hfile
  exact h.of_files hleaves.files

theorem Answer.Held.runs {a : Answer} (calls : List ResolveCall) :
    ∀ {s : Resolution}, a.Held namable root path s →
      (∀ c ∈ calls, Spares root path c a.resource) →
        a.Held namable root path (ResolveCall.runs namable root calls s) := by
  induction calls with
  | nil => exact fun h _ => h
  | cons c calls ih =>
      intro s h hspares
      exact ih (h.run (hspares c List.mem_cons_self)) fun c' hc' =>
        hspares c' (List.mem_cons_of_mem _ hc')

end Held

section Request

variable {namable : Bytes → Bool} {root path : Bytes} {env : Surroundings}

/-- What others resolve spares the resource. -/
def Surroundings.Spare (root path : Bytes) (env : Surroundings) (r : Resource) : Prop :=
  ∀ n, ∀ c ∈ env.others n, Spares root path c r

/-- A request leaves what is compatible with it. -/
theorem request_keeps {a : Answer} {r : Resource} {cdns : List Ribbit.CDN}
    (hcdns : ∀ cdn ∈ cdns, cdn.path = path) (hothers : env.Spare root path a.resource)
    (hown : a.resource.Compatible root path r) :
    Stateful.Keeps (a.Held namable root path) (request namable root env cdns r) :=
  fun _ h => (h.runs _ (hothers _)).run (hown.spares hcdns env.network)

/-- A value that a request returned is held. -/
theorem request_held {r : Resource} {cdns : List Ribbit.CDN} {value : r.Value}
    (hcdns : ∀ cdn ∈ cdns, cdn.path = path) {s s' : Resolution}
    (h : request namable root env cdns r s = (.ok (some value), s')) :
    Answer.Held namable root path ⟨r, value⟩ s' := by
  have hrun : resolve r.handler namable env.network root r.kind r.key cdns _ =
      (.ok (some value), s') := h
  obtain ⟨cdn, hcdn, hstored⟩ := ResolveCall.resolve_some hrun
  rw [r.file_of_path (hcdns cdn hcdn)] at hstored
  cases cdns with
  | nil => exact absurd hcdn List.not_mem_nil
  | cons head rest =>
      obtain ⟨hkey, hname⟩ := ResolveCall.resolve_some_usable hrun
      rw [r.file_of_path (hcdns head List.mem_cons_self)] at hname
      exact ⟨hkey, hname, hstored⟩

/-- What is held is returned, and nothing changes but for what others do. -/
theorem request_returns {a : Answer} {cdn : Ribbit.CDN} (hcdn : cdn.path = path)
    (cdns : List Ribbit.CDN) {answers : List Answer} (ha : a ∈ answers)
    (hothers : ∀ a ∈ answers, env.Spare root path a.resource) :
    Stateful.Returns (fun s => ∀ a ∈ answers, a.Held namable root path s)
      (request namable root env (cdn :: cdns) a.resource) (some a.value)
      (fun s => ∀ a ∈ answers, a.Held namable root path s) := by
  intro s h
  have hheld : ∀ a ∈ answers, a.Held namable root path
      (ResolveCall.runs namable root (env.others s.log.length) s) :=
    fun a ha => (h a ha).runs _ (hothers a ha _)
  obtain ⟨hkey, hname, hstored⟩ := hheld a ha
  rw [← a.resource.file_of_path hcdn] at hname hstored
  obtain ⟨s', hrun, hfiles, -⟩ := ResolveCall.resolve_stored hkey hname hstored
  exact ⟨s', hrun, fun a ha => (hheld a ha).of_files (congrFun hfiles _)⟩

end Request

/-! ## A complete Load -/

/-- What a `Load` was given that misses nothing: each index that the CDN
configuration names was loaded, and the root has one encoding key. -/
structure Complete where
  cdns : List Ribbit.CDN
  buildConfig : BuildConfig
  cdnConfig : CDNConfig
  encoding : Encoding
  install : Install
  fileIndex : Option Index
  indices : List Index
  root : Root
  location : FileLocation
  rootKey : EKey
  named : fileIndex.isSome = cdnConfig.fileIndex.isSome
  loaded : indices.length = cdnConfig.archives.length
  located : encoding.findFile buildConfig.root = some location
  single : location.keyCount = 1
  keyed : location.at 0 = .ok rootKey

namespace Complete

/-- The object behind the `Load`. -/
def product (g : Complete) : Product where
  base :=
    ⟨some g.cdns, some g.buildConfig, some g.cdnConfig, some g.encoding, some g.install,
      g.fileIndex, g.indices⟩
  root := some g.root

section Answers

variable (digest : Bytes → Digest) (Z : Zlib.Inflate) (buildConfig cdnConfig : Bytes)

/-- The answers for the indices of the archives. -/
def indexAnswers (g : Complete) : List Answer :=
  List.zipWith (fun archive index => ⟨indexResource digest archive.name, index⟩)
    g.cdnConfig.archives g.indices

/-- The answer for the file index. -/
def fileIndexAnswers (g : Complete) : List Answer :=
  List.zipWith (fun archive index => ⟨indexResource digest archive.name, index⟩)
    g.cdnConfig.fileIndex.toList g.fileIndex.toList

/-- The answers for the manifests. -/
def manifestAnswers (g : Complete) : List Answer :=
  [⟨buildConfigResource buildConfig, g.buildConfig⟩, ⟨cdnConfigResource cdnConfig, g.cdnConfig⟩,
    ⟨encodingResource digest Z g.buildConfig.encoding.key, g.encoding⟩,
    ⟨installResource digest Z g.buildConfig.install.key, g.install⟩,
    ⟨rootResource digest Z g.encoding.header.contentKeySize g.rootKey, g.root⟩]

/-- All that the `Load` was given from the cache or the CDNs. -/
def answers (g : Complete) : List Answer :=
  g.manifestAnswers digest Z buildConfig cdnConfig ++
    (g.fileIndexAnswers digest ++ g.indexAnswers digest)

end Answers

end Complete

section Members

variable {digest : Bytes → Digest} {Z : Zlib.Inflate} {buildConfig cdnConfig : Bytes}
  (g : Complete)

theorem Complete.manifest_mem {a : Answer} {i : Nat}
    (h : (g.manifestAnswers digest Z buildConfig cdnConfig)[i]? = some a) :
    a ∈ g.answers digest Z buildConfig cdnConfig :=
  List.mem_append_left _ (List.mem_of_getElem? h)

theorem Complete.buildConfig_mem :
    ⟨buildConfigResource buildConfig, g.buildConfig⟩ ∈ g.answers digest Z buildConfig cdnConfig :=
  g.manifest_mem (i := 0) rfl

theorem Complete.cdnConfig_mem :
    ⟨cdnConfigResource cdnConfig, g.cdnConfig⟩ ∈ g.answers digest Z buildConfig cdnConfig :=
  g.manifest_mem (i := 1) rfl

theorem Complete.encoding_mem :
    ⟨encodingResource digest Z g.buildConfig.encoding.key, g.encoding⟩ ∈
      g.answers digest Z buildConfig cdnConfig :=
  g.manifest_mem (i := 2) rfl

theorem Complete.install_mem :
    ⟨installResource digest Z g.buildConfig.install.key, g.install⟩ ∈
      g.answers digest Z buildConfig cdnConfig :=
  g.manifest_mem (i := 3) rfl

theorem Complete.root_mem :
    ⟨rootResource digest Z g.encoding.header.contentKeySize g.rootKey, g.root⟩ ∈
      g.answers digest Z buildConfig cdnConfig :=
  g.manifest_mem (i := 4) rfl

theorem Complete.index_mem {i : Nat} (hi : i < g.cdnConfig.archives.length)
    (hi' : i < g.indices.length) :
    ⟨indexResource digest g.cdnConfig.archives[i].name, g.indices[i]⟩ ∈
      g.answers digest Z buildConfig cdnConfig := by
  have hlength : i < (g.indexAnswers digest).length := by
    rw [Complete.indexAnswers, List.length_zipWith]
    exact Nat.lt_min.mpr ⟨hi, hi'⟩
  exact List.mem_append_right _ (List.mem_append_right _
    (List.mem_iff_getElem.mpr ⟨i, hlength, List.getElem_zipWith⟩))

theorem Complete.fileIndex_mem {archive : CDNConfig.Archive} {index : Index}
    (hfile : g.cdnConfig.fileIndex = some archive) (hindex : g.fileIndex = some index) :
    ⟨indexResource digest archive.name, index⟩ ∈ g.answers digest Z buildConfig cdnConfig := by
  refine List.mem_append_right _ (List.mem_append_left _ ?_)
  rw [Complete.fileIndexAnswers, hfile, hindex]
  exact List.mem_singleton.mpr rfl

end Members

end Wow

end Tactmon
