import Mathlib.Algebra.Order.BigOperators.Group.List
import Tactmon.Tact.CDNConfig
import Tactmon.Tact.Encoding
import Tactmon.Tact.Index
import Tactmon.Tact.Install

/-!
# Loading a product

`Product::Load` of `tact/data/product/Product.cpp`, and the lookups of a product
that was loaded.  What the resolver returns is a parameter: a `Remote` gives
the answers to everything one `Load` asks of the CDNs and of the local cache.
`Load` does not throw, so an exception of the resolver ends the program.

`Load` assigns most members, but it leaves the file index alone where the CDN
configuration names none, and it puts the archive indices behind those that are
there already.  `Answers` is what a `Load` that returns true was given, and
`LoadCall.run_spec` says what becomes of the object.

So the lookups of files only depend on the last `Load`, and the lookups of
archives also on what earlier ones have left behind (`load_iff`).
-/

namespace Tactmon

open Binary Cxx Text

/-! ## Loading -/

/-- What the CDNs and the local cache answer to one `Load`.  Each answer
depends on the CDNs and on the key that is asked for. -/
structure Remote where
  cdns : Except Thrown (Option (List Ribbit.CDN))
  buildConfig : List Ribbit.CDN → Bytes → Except Thrown (Option BuildConfig)
  cdnConfig : List Ribbit.CDN → Bytes → Except Thrown (Option CDNConfig)
  encoding : List Ribbit.CDN → Bytes → KeyPair → Except Thrown (Option Encoding)
  install : List Ribbit.CDN → Bytes → KeyPair → Except Thrown (Option Install)
  fileIndex : List Ribbit.CDN → Bytes → Bytes → Except Thrown (Option Index)
  /-- The task of each archive is told from the others. -/
  archiveIndex : List Ribbit.CDN → Nat → Bytes → Bytes → Except Thrown (Option Index)

/-- `Product`. -/
structure Product where
  cdns : Option (List Ribbit.CDN)
  buildConfig : Option BuildConfig
  cdnConfig : Option CDNConfig
  encoding : Option Encoding
  install : Option Install
  fileIndex : Option Index
  indices : List Index
deriving DecidableEq, Repr

/-- `{}.index`. -/
def indexName (name : Bytes) : Bytes := name ++ ascii ".index"

/-- The results of the tasks from archive `i` on, in order, without the empty
ones. -/
def Remote.archiveIndices (remote : Remote) (cdns : List Ribbit.CDN) :
    Nat → List CDNConfig.Archive → Except Thrown (List Index)
  | _, [] => .ok []
  | i, archive :: archives => do
      let futureOutcome ← remote.archiveIndex cdns i (indexName archive.name) archive.name
      let indices ← archiveIndices remote cdns (i + 1) archives
      .ok (futureOutcome.toList ++ indices)

namespace Product

/-- The constructor. -/
def fresh : Product := ⟨none, none, none, none, none, none, []⟩

/-- The end of `Load`, where all manifests are there. -/
def loadIndices (remote : Remote) (cdns : List Ribbit.CDN) (cdnConfig : CDNConfig)
    (product : Product) : Except Thrown (Bool × Product) := do
  let product ←
    match cdnConfig.fileIndex with
    | some fileIndex => do
        let fileIndex ← remote.fileIndex cdns (indexName fileIndex.name) fileIndex.name
        .ok { product with fileIndex }
    | none => .ok product
  let indices ← remote.archiveIndices cdns 0 cdnConfig.archives
  .ok (true, { product with indices := product.indices ++ indices })

/-- `Load`. -/
def load (remote : Remote) (buildConfig cdnConfig : Bytes) (product : Product) :
    Except Thrown (Bool × Product) := do
  let cdns ← remote.cdns
  let product := { product with cdns }
  match cdns with
  | none => .ok (false, product)
  | some cdns =>
  let buildConfig ← remote.buildConfig cdns buildConfig
  let product := { product with buildConfig }
  match buildConfig with
  | none => .ok (false, product)
  | some buildConfig =>
  let cdnConfig ← remote.cdnConfig cdns cdnConfig
  let product := { product with cdnConfig }
  match cdnConfig with
  | none => .ok (false, product)
  | some cdnConfig =>
  let key := buildConfig.encoding.key
  let encoding ← remote.encoding cdns (hex key.encodingKey) key
  let product := { product with encoding }
  if encoding.isNone then .ok (false, product)
  else do
  let key := buildConfig.install.key
  let install ← remote.install cdns (hex key.encodingKey) key
  let product := { product with install }
  if install.isNone then .ok (false, product)
  else loadIndices remote cdns cdnConfig product

/-! ## Lookups -/

/-- `FindFile`, by content key. -/
def findFile (product : Product) (contentKey : CKey) : Option FileLocation :=
  product.encoding.bind fun encoding => encoding.findFile contentKey

/-- `FindFile`, by file name.  It looks at the install manifest, loaded or not. -/
def findFileNamed (product : Product) (fileName : Bytes) : Exec (Option FileLocation) :=
  match product.install with
  | none => .error .outOfBounds
  | some install => .ok ((install.findFile fileName).bind product.findFile)

/-- The location of a file that is not in an archive. -/
def fileLocation (fileIndex : Option Index) (ekey : EKey) : Option ArchiveFileLocation :=
  fileIndex.bind fun index =>
    (index.at ekey).map fun entry => ⟨hex ekey, entry.offset, entry.size⟩

/-- The location of a file in the first archive that has it. -/
def archiveLocation (indices : List Index) (ekey : EKey) : Option ArchiveFileLocation :=
  indices.findSome? fun index =>
    (index.at ekey).map fun entry => ⟨index.archiveName, entry.offset, entry.size⟩

/-- `FindArchive`. -/
def findArchive (product : Product) (ekey : EKey) : Option ArchiveFileLocation :=
  match fileLocation product.fileIndex ekey with
  | some location => some location
  | none => archiveLocation product.indices ekey

/-- The indices that `FindArchive` looks into, in order. -/
def consulted (product : Product) (ekey : EKey) : List Index :=
  product.fileIndex.toList ++
    match fileLocation product.fileIndex ekey with
    | some _ => []
    | none =>
        product.indices.take (product.indices.findIdx (fun index => (index.at ekey).isSome) + 1)

end Product

/-! ## What a Load leaves -/

/-- A call of `Load`. -/
structure LoadCall where
  remote : Remote
  buildConfig : Bytes
  cdnConfig : Bytes

namespace LoadCall

/-- The call, on an object. -/
def run (call : LoadCall) (product : Product) : Except Thrown (Bool × Product) :=
  product.load call.remote call.buildConfig call.cdnConfig

/-- The calls, one after the other. -/
def runAll : List LoadCall → Product → Except Thrown Product
  | [], product => .ok product
  | call :: calls, product => do
      let (_, product) ← call.run product
      runAll calls product

end LoadCall

/-- What the remote gives to a `Load` that returns true. -/
structure Answers where
  cdns : List Ribbit.CDN
  buildConfig : BuildConfig
  cdnConfig : CDNConfig
  encoding : Encoding
  install : Install
  /-- Empty where the CDN configuration names no file index. -/
  fileIndex : Option Index
  indices : List Index

/-- The CDN configuration names a file index. -/
def Answers.named (answers : Answers) : Bool := answers.cdnConfig.fileIndex.isSome

/-- An answer that is neither an exception nor empty. -/
def found {α : Type} : Except Thrown (Option α) → Option α
  | .ok (some a) => some a
  | _ => none

/-- The file index that a CDN configuration names, if any. -/
def Remote.namedIndex (remote : Remote) (cdns : List Ribbit.CDN) (cdnConfig : CDNConfig) :
    Except Thrown (Option Index) :=
  match cdnConfig.fileIndex with
  | some fileIndex => remote.fileIndex cdns (indexName fileIndex.name) fileIndex.name
  | none => .ok none

/-- All the answers of the remote, when none of those that `Load` needs is
missing. -/
def LoadCall.answers (call : LoadCall) : Option Answers := do
  let cdns ← found call.remote.cdns
  let buildConfig ← found (call.remote.buildConfig cdns call.buildConfig)
  let cdnConfig ← found (call.remote.cdnConfig cdns call.cdnConfig)
  let key := buildConfig.encoding.key
  let encoding ← found (call.remote.encoding cdns (hex key.encodingKey) key)
  let key := buildConfig.install.key
  let install ← found (call.remote.install cdns (hex key.encodingKey) key)
  let fileIndex ← (call.remote.namedIndex cdns cdnConfig).toOption
  let indices ← (call.remote.archiveIndices cdns 0 cdnConfig.archives).toOption
  some ⟨cdns, buildConfig, cdnConfig, encoding, install, fileIndex, indices⟩

/-- An object behind a `Load` with these answers. -/
def Product.fill (product : Product) (answers : Answers) : Product where
  cdns := some answers.cdns
  buildConfig := some answers.buildConfig
  cdnConfig := some answers.cdnConfig
  encoding := some answers.encoding
  install := some answers.install
  fileIndex := if answers.named then answers.fileIndex else product.fileIndex
  indices := product.indices ++ answers.indices

/-- The end of `Load` fills in the indices. -/
theorem Product.loadIndices_spec (remote : Remote) (cdns : List Ribbit.CDN) (cdnConfig : CDNConfig)
    (product : Product) :
    product.loadIndices remote cdns cdnConfig = (do
      let fileIndex ← remote.namedIndex cdns cdnConfig
      let indices ← remote.archiveIndices cdns 0 cdnConfig.archives
      .ok (true, { product with
        fileIndex := if cdnConfig.fileIndex.isSome then fileIndex else product.fileIndex
        indices := product.indices ++ indices })) := by
  rw [loadIndices, Remote.namedIndex]
  cases cdnConfig.fileIndex with
  | none => rfl
  | some archive =>
      dsimp only
      cases remote.fileIndex cdns (indexName archive.name) archive.name with
      | error e => rfl
      | ok fileIndex => rfl

/-- What `Load` leaves when it does not come to the indices. -/
def Product.Untouched (product : Product) (result : Except Thrown (Bool × Product)) : Prop :=
  ∀ loaded product', result = .ok (loaded, product') →
    loaded = false ∧ product'.fileIndex = product.fileIndex ∧ product'.indices = product.indices

theorem Product.untouched_error (product : Product) (e : Thrown) :
    product.Untouched (.error e) := fun _ _ h => by cases h

theorem Product.untouched_false {product product' : Product}
    (hfile : product'.fileIndex = product.fileIndex)
    (hindices : product'.indices = product.indices) :
    product.Untouched (.ok (false, product')) := fun _ _ h => by
  cases h
  exact ⟨rfl, hfile, hindices⟩

/-- With all answers `Load` returns true and fills the object.  Without them it
returns false, if it returns, and leaves the indices alone. -/
theorem LoadCall.run_spec (call : LoadCall) (product : Product) :
    match call.answers with
    | some answers => call.run product = .ok (true, product.fill answers)
    | none => product.Untouched (call.run product) := by
  rw [run, Product.load, answers]
  rcases call.remote.cdns with e | _ | cdns
  · exact product.untouched_error e
  · exact Product.untouched_false rfl rfl
  dsimp only [found, bind, Except.bind, Option.bind]
  rcases call.remote.buildConfig cdns call.buildConfig with e | _ | buildConfig
  · exact product.untouched_error e
  · exact Product.untouched_false rfl rfl
  dsimp only
  rcases call.remote.cdnConfig cdns call.cdnConfig with e | _ | cdnConfig
  · exact product.untouched_error e
  · exact Product.untouched_false rfl rfl
  dsimp only
  rcases call.remote.encoding cdns (hex buildConfig.encoding.key.encodingKey)
    buildConfig.encoding.key with e | _ | encoding
  · exact product.untouched_error e
  · exact Product.untouched_false rfl rfl
  dsimp only
  rcases call.remote.install cdns (hex buildConfig.install.key.encodingKey)
    buildConfig.install.key with e | _ | install
  · exact product.untouched_error e
  · exact Product.untouched_false rfl rfl
  dsimp only [Option.isNone]
  rw [if_neg Bool.false_ne_true, if_neg Bool.false_ne_true, Product.loadIndices_spec]
  cases call.remote.namedIndex cdns cdnConfig with
  | error e => exact product.untouched_error e
  | ok fileIndex =>
      cases call.remote.archiveIndices cdns 0 cdnConfig.archives with
      | error e => exact product.untouched_error e
      | ok indices => rfl

/-! ## What earlier calls leave behind -/

/-- A file index and archive indices. -/
structure Leftover where
  fileIndex : Option Index
  indices : List Index
deriving DecidableEq, Repr

namespace Leftover

/-- Nothing was left. -/
def nothing : Leftover := ⟨none, []⟩

/-- What is left after one more call. -/
def add (left : Leftover) (call : LoadCall) : Leftover :=
  match call.answers with
  | some answers =>
      ⟨if answers.named then answers.fileIndex else left.fileIndex, left.indices ++ answers.indices⟩
  | none => left

/-- What is left after all calls: the last file index that was named, and the
indices of all archives. -/
def of (calls : List LoadCall) : Leftover := calls.foldl add nothing

/-- The file index that a call with these answers finds and does not replace. -/
def staleFileIndex (left : Leftover) (answers : Answers) : Option Index :=
  if answers.named then none else left.fileIndex

/-- Where a lookup comes to what was left, and finds something, the call's own
archive indices give the same. -/
def Harmless (left : Leftover) (answers : Answers) : Prop :=
  ∀ ekey location, Product.fileLocation answers.fileIndex ekey = none →
    (Product.fileLocation (left.staleFileIndex answers) ekey).or
      (Product.archiveLocation left.indices ekey) = some location →
    Product.archiveLocation answers.indices ekey = some location

/-- There is nothing that the call does not replace. -/
def Empty (left : Leftover) (answers : Answers) : Prop :=
  left.staleFileIndex answers = none ∧ left.indices = []

end Leftover

/-- One call leaves what it was given. -/
theorem LoadCall.run_leftover {call : LoadCall} {product product' : Product} {loaded : Bool}
    (h : call.run product = .ok (loaded, product')) :
    Leftover.mk product'.fileIndex product'.indices =
      (Leftover.mk product.fileIndex product.indices).add call := by
  have hspec := call.run_spec product
  rw [Leftover.add]
  cases hanswers : call.answers with
  | none =>
      rw [hanswers] at hspec
      obtain ⟨-, hfile, hindices⟩ := hspec loaded product' h
      rw [hfile, hindices]
  | some answers =>
      rw [hanswers] at hspec
      rw [hspec] at h
      cases h
      rfl

/-- A run leaves what its calls were given. -/
theorem LoadCall.runAll_leftover (calls : List LoadCall) :
    ∀ {product product' : Product}, runAll calls product = .ok product' →
      Leftover.mk product'.fileIndex product'.indices =
        calls.foldl Leftover.add ⟨product.fileIndex, product.indices⟩ := by
  induction calls with
  | nil =>
      intro product product' h
      cases h
      rfl
  | cons call calls ih =>
      intro product product' h
      rw [runAll] at h
      cases hrun : call.run product with
      | error e =>
          rw [hrun] at h
          cases h
      | ok r =>
          obtain ⟨loaded, next⟩ := r
          rw [hrun] at h
          rw [List.foldl_cons, ← run_leftover hrun]
          exact ih h

/-! ## Lookups behind a Load -/

namespace Product

theorem findArchive_eq (product : Product) (ekey : EKey) :
    product.findArchive ekey =
      (fileLocation product.fileIndex ekey).or (archiveLocation product.indices ekey) := by
  rw [findArchive]
  cases fileLocation product.fileIndex ekey with
  | none => rfl
  | some location => rfl

theorem archiveLocation_append (indices more : List Index) (ekey : EKey) :
    archiveLocation (indices ++ more) ekey =
      (archiveLocation indices ekey).or (archiveLocation more ekey) :=
  List.findSome?_append

/-- The archives are found as on a fresh object exactly when what was left is
harmless. -/
theorem findArchive_fill_iff {product : Product} {answers : Answers}
    (hnamed : answers.named = false → answers.fileIndex = none) :
    (∀ ekey, (product.fill answers).findArchive ekey = (fresh.fill answers).findArchive ekey) ↔
      Leftover.Harmless ⟨product.fileIndex, product.indices⟩ answers := by
  refine forall_congr' fun ekey => ?_
  have hown : (fresh.fill answers).fileIndex = answers.fileIndex := by
    cases h : answers.named with
    | true => simp [fill, h]
    | false => simp [fill, h, hnamed h, fresh]
  have hindices : (fresh.fill answers).indices = answers.indices := List.nil_append _
  have hor : ∀ old new : Option ArchiveFileLocation,
      old.or new = new ↔ ∀ location, old = some location → new = some location := by
    intro old new
    cases old with
    | none => simp
    | some location => simp [eq_comm]
  have hnone : fileLocation none ekey = none := rfl
  rw [findArchive_eq, findArchive_eq, hown, hindices]
  change (fileLocation (if _ then _ else _) ekey).or (archiveLocation (_ ++ _) ekey) = _ ↔ _
  rw [archiveLocation_append, ← Option.or_assoc, Leftover.staleFileIndex]
  cases h : answers.named with
  | true =>
      rw [if_pos rfl, if_pos rfl, hnone, Option.none_or]
      cases fileLocation answers.fileIndex ekey with
      | some location => simp
      | none =>
          exact (hor _ _).trans ⟨fun hsame location _ => hsame location,
            fun hsame location => hsame location rfl⟩
  | false =>
      rw [if_neg Bool.false_ne_true, if_neg Bool.false_ne_true, hnamed h, hnone, Option.none_or]
      exact (hor _ _).trans ⟨fun hsame location _ => hsame location,
        fun hsame location => hsame location rfl⟩

/-- No key of this length is in the index. -/
theorem at_eq_none {index : Index} {ekey : EKey} (h : index.keySizeBytes < ekey.length) :
    index.at ekey = none := by
  refine List.find?_eq_none.mpr fun entry _ hkey => ?_
  have hle : (entry.key index).length ≤ index.keySizeBytes := List.length_take_le _ _
  rw [of_decide_eq_true hkey] at hle
  omega

/-- A key that none of the indices has. -/
theorem exists_missing (indices : List Index) :
    ∃ ekey : EKey, ∀ index ∈ indices, index.at ekey = none := by
  refine ⟨List.replicate ((indices.map Index.keySizeBytes).sum + 1) 0, fun index hindex =>
    at_eq_none ?_⟩
  rw [List.length_replicate]
  exact Nat.lt_succ_of_le (List.le_sum_of_mem (List.mem_map_of_mem hindex))

/-- A lookup that finds nothing looks into all indices. -/
theorem consulted_missing {product : Product} {ekey : EKey}
    (hfile : ∀ index ∈ product.fileIndex.toList, index.at ekey = none)
    (hindices : ∀ index ∈ product.indices, index.at ekey = none) :
    product.consulted ekey = product.fileIndex.toList ++ product.indices := by
  have hnone : fileLocation product.fileIndex ekey = none := by
    cases hindex : product.fileIndex with
    | none => rfl
    | some index =>
        rw [hindex] at hfile
        rw [fileLocation, Option.bind_some, hfile index List.mem_cons_self, Option.map_none]
  have hall : product.indices.findIdx (fun index => (index.at ekey).isSome) =
      product.indices.length :=
    List.findIdx_eq_length.mpr fun index hindex => by rw [hindices index hindex, Option.isSome_none]
  rw [consulted, hnone, hall]
  dsimp only
  rw [List.take_of_length_le (Nat.le_succ _)]

/-- The same indices are consulted as on a fresh object exactly when nothing
was left that the call does not replace. -/
theorem consulted_fill_iff {product : Product} {answers : Answers} :
    (∀ ekey, (product.fill answers).consulted ekey = (fresh.fill answers).consulted ekey) ↔
      Leftover.Empty ⟨product.fileIndex, product.indices⟩ answers := by
  constructor
  · intro hsame
    obtain ⟨ekey, hmissing⟩ := exists_missing ((product.fill answers).fileIndex.toList ++
      (product.fill answers).indices ++ ((fresh.fill answers).fileIndex.toList ++
      (fresh.fill answers).indices))
    simp only [List.forall_mem_append] at hmissing
    obtain ⟨⟨hfile, hindices⟩, hfile', hindices'⟩ := hmissing
    have hlength := congrArg List.length (hsame ekey)
    rw [consulted_missing hfile hindices, consulted_missing hfile' hindices', List.length_append,
      List.length_append] at hlength
    simp only [fill, fresh, List.length_append, List.length_nil] at hlength
    rw [Leftover.Empty, Leftover.staleFileIndex, ← List.length_eq_zero_iff]
    cases h : answers.named with
    | true =>
        rw [h, if_pos rfl, if_pos rfl] at hlength
        exact ⟨rfl, by dsimp only; omega⟩
    | false =>
        rw [h, if_neg Bool.false_ne_true, if_neg Bool.false_ne_true, Option.toList_none,
          List.length_nil] at hlength
        have hzero : product.fileIndex.toList.length = 0 := by omega
        rw [if_neg Bool.false_ne_true]
        exact ⟨by simpa using hzero, by dsimp only; omega⟩
  · intro hempty ekey
    obtain ⟨hstale, hindices⟩ := hempty
    have hfile : (product.fill answers).fileIndex = (fresh.fill answers).fileIndex := by
      rw [Leftover.staleFileIndex] at hstale
      cases h : answers.named with
      | true => simp [fill, h]
      | false =>
          rw [h, if_neg Bool.false_ne_true] at hstale
          have hleft : product.fileIndex = none := hstale
          simp [fill, h, hleft, fresh]
    have hall : (product.fill answers).indices = (fresh.fill answers).indices :=
      congrArg (· ++ answers.indices) hindices
    rw [consulted, consulted, hfile, hall]

end Product

/-- A configuration that names no file index is given none. -/
theorem LoadCall.fileIndex_of_unnamed {call : LoadCall} {answers : Answers}
    (h : call.answers = some answers) (hnamed : answers.named = false) :
    answers.fileIndex = none := by
  simp only [LoadCall.answers, Option.bind_eq_bind, Option.bind_eq_some_iff, Option.some.injEq] at h
  obtain ⟨cdns, -, buildConfig, -, cdnConfig, -, encoding, -, install, -, fileIndex, hfile,
    indices, -, rfl⟩ := h
  have hunnamed : cdnConfig.fileIndex = none :=
    Option.isNone_iff_eq_none.mp (Option.isSome_eq_false_iff.mp hnamed)
  rw [Remote.namedIndex, hunnamed] at hfile
  exact (Option.some.inj hfile).symm

/-- Behind a `Load` that returns true, files are found as on a fresh object
that only made this call.  Archives are found as there exactly when what the
earlier calls left is harmless, and the same indices are consulted exactly when
they left nothing that the call does not replace. -/
theorem load_iff {calls : List LoadCall} {call : LoadCall} {product product' : Product}
    (hcalls : LoadCall.runAll calls .fresh = .ok product)
    (hcall : call.run product = .ok (true, product')) :
    ∃ answers fresh', call.answers = some answers ∧ call.run .fresh = .ok (true, fresh') ∧
      (∀ fileName, product'.findFileNamed fileName = fresh'.findFileNamed fileName) ∧
      (∀ contentKey, product'.findFile contentKey = fresh'.findFile contentKey) ∧
      ((∀ ekey, product'.findArchive ekey = fresh'.findArchive ekey) ↔
        (Leftover.of calls).Harmless answers) ∧
      ((∀ ekey, product'.consulted ekey = fresh'.consulted ekey) ↔
        (Leftover.of calls).Empty answers) := by
  have hspec := call.run_spec product
  cases hanswers : call.answers with
  | none =>
      rw [hanswers] at hspec
      have hfalse := (hspec true product' hcall).1
      cases hfalse
  | some answers =>
      rw [hanswers] at hspec
      rw [hspec] at hcall
      cases hcall
      have hfresh := call.run_spec .fresh
      rw [hanswers] at hfresh
      have hnamed := LoadCall.fileIndex_of_unnamed hanswers
      have hleft : Leftover.of calls = ⟨product.fileIndex, product.indices⟩ :=
        (LoadCall.runAll_leftover calls hcalls).symm
      rw [hleft]
      exact ⟨answers, _, rfl, hfresh, fun _ => rfl, fun _ => rfl,
        Product.findArchive_fill_iff hnamed, Product.consulted_fill_iff⟩

/-- An index with one entry, of the key `AA`. -/
def sampleIndex (archiveName : Bytes) (offset : UInt64) : Index :=
  ⟨archiveName, 1, ⟨[0xAA], [⟨0, 1, offset⟩]⟩⟩

/-- A configuration with one archive, and no file index. -/
def sampleCall (archiveName : Bytes) (offset : UInt64) : LoadCall where
  remote :=
    { cdns := .ok (some [⟨ascii "us", ascii "tpr/wow", [ascii "a.net"], [], []⟩])
      buildConfig := fun _ _ => .ok (some {})
      cdnConfig := fun _ _ => .ok (some ⟨[⟨archiveName, 1⟩], none⟩)
      encoding := fun _ _ _ => .ok (some ⟨{}, []⟩)
      install := fun _ _ _ => .ok (some ⟨[]⟩)
      fileIndex := fun _ _ _ => .ok none
      archiveIndex := fun _ _ _ name => .ok (some (sampleIndex name offset)) }
  buildConfig := ascii "b0"
  cdnConfig := ascii "c0"

/-- What the sample is given. -/
def sampleAnswers (archiveName : Bytes) (offset : UInt64) : Answers where
  cdns := [⟨ascii "us", ascii "tpr/wow", [ascii "a.net"], [], []⟩]
  buildConfig := {}
  cdnConfig := ⟨[⟨archiveName, 1⟩], none⟩
  encoding := ⟨{}, []⟩
  install := ⟨[]⟩
  fileIndex := none
  indices := [sampleIndex archiveName offset]

theorem load_iff_sample :
    ∃ answers fresh', (sampleCall (ascii "0b") 7).answers = some answers ∧
      (sampleCall (ascii "0b") 7).run .fresh = .ok (true, fresh') ∧
      (∀ fileName, ((Product.fresh.fill (sampleAnswers (ascii "0a") 5)).fill
        (sampleAnswers (ascii "0b") 7)).findFileNamed fileName = fresh'.findFileNamed fileName) ∧
      (∀ contentKey, ((Product.fresh.fill (sampleAnswers (ascii "0a") 5)).fill
        (sampleAnswers (ascii "0b") 7)).findFile contentKey = fresh'.findFile contentKey) ∧
      ((∀ ekey, ((Product.fresh.fill (sampleAnswers (ascii "0a") 5)).fill
          (sampleAnswers (ascii "0b") 7)).findArchive ekey = fresh'.findArchive ekey) ↔
        (Leftover.of [sampleCall (ascii "0a") 5]).Harmless answers) ∧
      ((∀ ekey, ((Product.fresh.fill (sampleAnswers (ascii "0a") 5)).fill
          (sampleAnswers (ascii "0b") 7)).consulted ekey = fresh'.consulted ekey) ↔
        (Leftover.of [sampleCall (ascii "0a") 5]).Empty answers) :=
  @load_iff [sampleCall (ascii "0a") 5] _ _ _ rfl rfl

/-- The archive of the first configuration is found after the second `Load`. -/
theorem load_wrong :
    ∃ product product' fresh',
      LoadCall.runAll [sampleCall (ascii "0a") 5] .fresh = .ok product ∧
      (sampleCall (ascii "0b") 7).run product = .ok (true, product') ∧
      (sampleCall (ascii "0b") 7).run .fresh = .ok (true, fresh') ∧
      product'.findArchive [0xAA] = some ⟨ascii "0a", 5, 1⟩ ∧
      fresh'.findArchive [0xAA] = some ⟨ascii "0b", 7, 1⟩ :=
  ⟨_, _, _, rfl, rfl, rfl, rfl, rfl⟩

end Tactmon
