import Tactmon.Tact.Archive
import Tactmon.Tact.Product
import Tactmon.Wow.NameLookup

/-!
# Loading a game

`wow::Product` of `tact/data/product/wow/Product.cpp`: a product with a root
manifest.  The root is looked for under each of its encoding keys in turn, and
the first one that parses is taken.

`Load` leaves the root alone where the product itself cannot be loaded, or where
the encoding manifest does not have the root.  `Answers` is what a `Load` that
returns true was given, and `LoadCall.run_spec` says what becomes of the object.
-/

namespace Tactmon

namespace Wow

open Binary Cxx Text

/-! ## Parsers -/

/-- A step without a defined outcome ends the call. -/
def orThrow {α : Type} : Exec α → Except Thrown α
  | .ok a => .ok a
  | .error f => .error (.fault f)

section Parsers

variable (digest : Bytes → Digest) (Z : Zlib.Inflate)

/-- The parser of the encoding manifest, which `Load` hands to the resolver. -/
def encodingHandler (key : KeyPair) : Handler Encoding
  | none => .ok none
  | some contents =>
      orThrow do
        match ← BLTE.parseKeyed digest Z (⟨contents, 0⟩ : FileStream) key.encodingKey
            key.contentKey with
        | none => .ok none
        | some compressedArchive =>
            let encoding ← Encoding.read compressedArchive.dataBuffer
            .ok (some encoding)

/-- The parser of the install manifest. -/
def installHandler (key : KeyPair) : Handler Install
  | none => .ok none
  | some contents =>
      orThrow do
        match ← BLTE.parseKeyed digest Z (⟨contents, 0⟩ : FileStream) key.encodingKey
            key.contentKey with
        | none => .ok none
        | some compressedArchive =>
            match ← Install.parse compressedArchive.dataBuffer with
            | none => .ok none
            | some (_, install) => .ok (some install)

/-- The parser of the root, which does not check any key. -/
def rootHandler (contentKeySize : Nat) : Handler Root := fun stream =>
  orThrow do
    match ← BLTE.parse digest Z (⟨stream.getD [], 0⟩ : FileStream) with
    | none => .ok none
    | some blte => Root.parse blte.dataBuffer contentKeySize

end Parsers

/-! ## Loading -/

/-- What the CDNs and the local cache answer to one `Load`. -/
structure Remote where
  base : Tactmon.Remote
  /-- The root is parsed with the size of the content keys. -/
  root : List Ribbit.CDN → Bytes → Nat → Except Thrown (Option Root)

/-- `wow::Product`. -/
structure Product where
  base : Tactmon.Product
  root : Option Root
deriving DecidableEq, Repr

namespace Product

/-- The constructor. -/
def fresh : Product := ⟨.fresh, none⟩

/-- The loop over the encoding keys of the root. -/
def loadRoot (remote : Remote) (cdns : List Ribbit.CDN) (contentKeySize : Nat)
    (rootLocation : FileLocation) : List Nat → Except Thrown (Option Root)
  | [] => .ok none
  | i :: indices => do
      let key ← orThrow (rootLocation.at i)
      match ← remote.root cdns (hex key) contentKeySize with
      | some root => .ok (some root)
      | none => loadRoot remote cdns contentKeySize rootLocation indices

/-- `Load`.  What a `Load` of the product that returns true leaves is there. -/
def load (remote : Remote) (buildConfig cdnConfig : Bytes) (product : Product) :
    Except Thrown (Bool × Product) := do
  let (loaded, base) ← product.base.load remote.base buildConfig cdnConfig
  let product := { product with base }
  if !loaded then .ok (false, product)
  else
    match base.cdns, base.buildConfig, base.encoding with
    | some cdns, some buildConfig, some encoding =>
        match base.findFile buildConfig.root with
        | none => .ok (false, product)
        | some rootLocation => do
            let root ← loadRoot remote cdns encoding.header.contentKeySize rootLocation
              (List.range rootLocation.keyCount)
            .ok (root.isSome, { product with root })
    | _, _, _ => .error (.fault .outOfBounds)

/-! ## Lookups -/

/-- `FindFile`, by file name: the install manifest first, then the root. -/
def findFileNamed (hashlittle2 : Bytes → UInt32 × UInt32) (product : Product) (fileName : Bytes) :
    Exec (Option FileLocation) := do
  match ← product.base.findFileNamed fileName with
  | some location => .ok (some location)
  | none =>
      let contentKey := product.root.bind fun root => root.findFileNamed hashlittle2 fileName
      .ok (contentKey.bind product.base.findFile)

/-- `FindFile`, by file data ID. -/
def findFile (product : Product) (fileDataID : UInt32) : Exec (Option FileLocation) :=
  match product.root with
  | none => .ok none
  | some root => do
      let contentKey ← root.findFile fileDataID
      .ok (contentKey.bind product.base.findFile)

end Product

/-! ## What a Load leaves -/

/-- A call of `Load`. -/
structure LoadCall where
  remote : Remote
  buildConfig : Bytes
  cdnConfig : Bytes

namespace LoadCall

/-- The call of `Load` of the product, which comes first. -/
def base (call : LoadCall) : Tactmon.LoadCall :=
  ⟨call.remote.base, call.buildConfig, call.cdnConfig⟩

/-- The call, on an object. -/
def run (call : LoadCall) (product : Product) : Except Thrown (Bool × Product) :=
  product.load call.remote call.buildConfig call.cdnConfig

/-- The root that is looked for where the product was loaded from these
answers, or nothing where the encoding manifest does not have it. -/
def rootOf (call : LoadCall) (answers : Answers) : Except Thrown (Option (Option Root)) :=
  match answers.encoding.findFile answers.buildConfig.root with
  | none => .ok none
  | some location =>
      (Product.loadRoot call.remote answers.cdns answers.encoding.header.contentKeySize location
        (List.range location.keyCount)).map some

/-- The end of `Load`. -/
def finish (product : Product) (answers : Answers) : Option (Option Root) → Bool × Product
  | some root => (root.isSome, ⟨product.base.fill answers, root⟩)
  | none => (false, ⟨product.base.fill answers, product.root⟩)

/-- With all answers for the product the root is looked for.  Without them `Load`
returns false, if it returns, and leaves the root alone. -/
theorem run_spec (call : LoadCall) (product : Product) :
    match call.base.answers with
    | some answers => call.run product = (call.rootOf answers).map (finish product answers)
    | none => ∀ loaded product', call.run product = .ok (loaded, product') →
        loaded = false ∧ product'.root = product.root := by
  have hspec := call.base.run_spec product.base
  rw [run, Product.load]
  change match call.base.answers with
    | some answers => (call.base.run product.base >>= _) = _
    | none => ∀ loaded product', (call.base.run product.base >>= _) = _ → _
  cases hanswers : call.base.answers with
  | none =>
      rw [hanswers] at hspec
      intro loaded product' h
      cases hrun : call.base.run product.base with
      | error e =>
          rw [hrun] at h
          cases h
      | ok result =>
          obtain ⟨loaded', base⟩ := result
          obtain ⟨rfl, -⟩ := hspec loaded' base hrun
          rw [hrun] at h
          cases h
          exact ⟨rfl, rfl⟩
  | some answers =>
      rw [hanswers] at hspec
      dsimp only
      rw [hspec, rootOf]
      change (match (product.base.fill answers).findFile answers.buildConfig.root with
        | none => _
        | some rootLocation => _) = _
      have hfind : (product.base.fill answers).findFile answers.buildConfig.root =
          answers.encoding.findFile answers.buildConfig.root := rfl
      rw [hfind]
      cases answers.encoding.findFile answers.buildConfig.root with
      | none => rfl
      | some location =>
          dsimp only
          cases Product.loadRoot call.remote answers.cdns answers.encoding.header.contentKeySize
            location (List.range location.keyCount) with
          | error e => rfl
          | ok root => rfl

end LoadCall

end Wow

end Tactmon
