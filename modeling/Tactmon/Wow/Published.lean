import Tactmon.Tact.InstallManifest
import Tactmon.Tact.Manifest
import Tactmon.Wow.Product
import Tactmon.Wow.RoundTrip

/-!
# A published build

A `Build` is what a publisher puts on the CDNs: an encoding manifest, an install
manifest and a root, each serialised and packed into an archive.  `Serves` says
that what the resolver gives is parsed from these archives, or missing.

`load_published` follows a build through `Load` and the lookups.  The parsers
undo the packing, and the serialisation too where the root is `Root.Aligned`: name
hashes are read eight bytes too late, so what is read for a block that has them
is in the next page.  So an object that loaded such a build looks files up as the
manifests list them, whatever it loaded before.

`load_published_iff` says when `Load` returns true: the keys in the build
configuration are compared with digests of the two manifests, and the digest of
a header is not taken from the header as it is in the file.
-/

namespace Tactmon

namespace Wow

open Binary Cxx Text Zlib CursorReadable LawfulReadable

/-- Manifests, and the archives they are in. -/
structure Build (Z : Inflate) where
  buildConfig : BuildConfig
  encoding : Encoding.Manifest
  install : Install.Manifest
  root : Root.Manifest encoding.contentKeySize
  encodingArchive : Archive Z
  installArchive : Archive Z
  rootArchive : Archive Z
  encoding_packed : encodingArchive.contents = encoding.bytes
  install_packed : installArchive.contents = install.bytes
  root_packed : rootArchive.contents = root.bytes
  encoding_fits : encoding.bytes.length < 2 ^ 63
  install_fits : install.bytes.length < 2 ^ 63
  root_fits : root.bytes.length < 2 ^ 63

namespace Build

variable {Z : Inflate} (digest : Bytes → Digest) (build : Build Z)

/-! ## What the manifests list -/

/-- The first entry of the encoding manifest with the key. -/
def entry (contentKey : CKey) : Option Encoding.Entry :=
  build.encoding.entries.find? fun entry => entry.contentKey = contentKey

/-- Its size and its encoding keys. -/
def locate (contentKey : CKey) : Option FileLocation :=
  (build.entry contentKey).map fun entry =>
    ⟨.ofNat entry.fileSize, entry.keys.length, entry.keys.flatten⟩

/-- The key of the first file of the install manifest with the name. -/
def installKey (fileName : Bytes) : Option CKey :=
  (build.install.files.find? fun file => file.name = fileName).map Install.FileRecord.hash

/-- The key of the first entry of the root with the hash of the name. -/
def rootKey (hashlittle2 : Bytes → UInt32 × UInt32) (fileName : Bytes) : Option CKey :=
  (Root.firstWith (Crypto.jenkinsHash hashlittle2 fileName).toUInt64 build.root.root.entries).map
    Root.Entry.contentKey

/-- The entry of a file, by the install manifest first and then by the root. -/
def located (hashlittle2 : Bytes → UInt32 × UInt32) (fileName : Bytes) : Option Encoding.Entry :=
  ((build.installKey fileName).bind build.entry).or
    ((build.rootKey hashlittle2 fileName).bind build.entry)

/-! ## What the parsers make of the archives -/

section Parsers

variable {build} {key : KeyPair}

/-- The contents of an archive as a stream. -/
theorem holding_rep {contents : Bytes} (h : contents.length < 2 ^ 63) :
    Rep (BLTE.holding contents).dataBuffer contents 0 := ⟨rfl, rfl, h⟩

/-- An archive in a file. -/
theorem file_rep (archive : Archive Z) :
    Rep (⟨archive.bytes digest, 0⟩ : FileStream) (archive.bytes digest) 0 :=
  FileStream.ofBuffer_rep (archive.buffer digest)

/-- The archive is accepted for the keys. -/
def Accepts (archive : Archive Z) (key : KeyPair) : Prop :=
  key.encodingKey = (digest (archive.widenedHeader digest)).bytes ∧
    key.contentKey = (digest archive.contents).bytes

instance (archive : Archive Z) (key : KeyPair) : Decidable (Accepts digest archive key) :=
  inferInstanceAs (Decidable (_ ∧ _))

theorem parseKeyed_eq (archive : Archive Z) (key : KeyPair) :
    BLTE.parseKeyed digest Z (⟨archive.bytes digest, 0⟩ : FileStream) key.encodingKey
        key.contentKey =
      .ok (if Accepts digest archive key then some (BLTE.holding archive.contents) else none) := by
  rw [BLTE.parseKeyed, archive._parse_archive digest (file_rep digest archive), Option.any_some,
    Option.all_some]
  by_cases hekey : key.encodingKey = (digest (archive.widenedHeader digest)).bytes
  · rw [if_neg (by simp [hekey])]
    by_cases hckey : key.contentKey = (digest archive.contents).bytes
    · rw [if_pos (by simp [hckey]), if_pos ⟨hekey, hckey⟩]
    · rw [if_neg (by simp [hckey]), if_neg fun h => hckey h.2]
  · rw [if_pos (by simp [hekey]), if_neg fun h => hekey h.1]

theorem encodingHandler_eq (key : KeyPair) :
    encodingHandler digest Z key (some (build.encodingArchive.bytes digest)) =
      .ok (if Accepts digest build.encodingArchive key then some build.encoding.encoding
        else none) := by
  have hread := Encoding.read_manifest build.encoding (holding_rep build.encoding_fits)
  rw [encodingHandler, parseKeyed_eq]
  by_cases h : Accepts digest build.encodingArchive key
  · rw [if_pos h, if_pos h, build.encoding_packed, Exec.ok_bind]
    dsimp only
    rw [hread]
    rfl
  · rw [if_neg h, if_neg h]
    rfl

theorem installHandler_eq (key : KeyPair) :
    installHandler digest Z key (some (build.installArchive.bytes digest)) =
      .ok (if Accepts digest build.installArchive key then some build.install.parsed.2
        else none) := by
  have hall : Unread (BLTE.holding build.install.bytes).dataBuffer
      build.install.bytes (build.install.bytes ++ []) := by
    rw [List.append_nil]
    exact Unread.of_rep (holding_rep build.install_fits)
  have hparse := Install.parse_manifest build.install hall
  rw [installHandler, parseKeyed_eq]
  by_cases h : Accepts digest build.installArchive key
  · rw [if_pos h, if_pos h, build.install_packed, Exec.ok_bind]
    dsimp only
    rw [hparse]
    rfl
  · rw [if_neg h, if_neg h]
    rfl

/-- The root is read back where its blocks are aligned. -/
theorem parse_root {contentKeySize : Nat} (m : Root.Manifest contentKeySize)
    (hfits : m.bytes.length < 2 ^ 63) (haligned : Root.Aligned m.canSkip m.blocks) :
    Root.parse (BLTE.holding m.bytes).dataBuffer contentKeySize = .ok (some m.root) := by
  obtain ⟨stream, hparse, hrest⟩ := Root.parse_manifest_header m (holding_rep hfits)
  have hfuel : m.blocks.length ≤ IReadableStream.getLength stream := by
    obtain ⟨c, hs, hlen, -⟩ := hrest
    have := Root.length_le_pageBytes m.canSkip m.blocks
    rw [getLength_eq hs]
    omega
  obtain ⟨pages, hpages, hcut⟩ := Root.readPages_blocks m.blocks m.fits hrest hfuel
  rw [hparse, Root.parsePages, hpages, Exec.ok_bind]
  dsimp only
  rw [(Root.parseBlocks_iff hcut).mpr haligned]
  rfl

theorem rootHandler_eq (haligned : Root.Aligned build.root.canSkip build.root.blocks) :
    rootHandler digest Z build.encoding.contentKeySize
        (some (build.rootArchive.bytes digest)) = .ok (some build.root.root) := by
  have hparse : BLTE.parse digest Z (⟨build.rootArchive.bytes digest, 0⟩ : FileStream) =
      .ok (some (BLTE.holding build.rootArchive.contents)) :=
    build.rootArchive._parse_archive digest (file_rep digest build.rootArchive) none none
  rw [rootHandler, Option.getD_some, hparse, Exec.ok_bind, build.root_packed]
  dsimp only
  rw [parse_root build.root build.root_fits haligned]
  rfl

end Parsers

/-! ## What a Load is given -/

/-- What the resolver gives is parsed from the archives of the build, or
missing. -/
structure Serves (call : LoadCall) : Prop where
  buildConfig : ∀ cdns config,
    call.remote.base.buildConfig cdns call.buildConfig = .ok (some config) →
      config = build.buildConfig
  encoding : ∀ cdns encoding, call.remote.base.encoding cdns
      (hex build.buildConfig.encoding.key.encodingKey) build.buildConfig.encoding.key =
        .ok (some encoding) →
    encodingHandler digest Z build.buildConfig.encoding.key
      (some (build.encodingArchive.bytes digest)) = .ok (some encoding)
  install : ∀ cdns install, call.remote.base.install cdns
      (hex build.buildConfig.install.key.encodingKey) build.buildConfig.install.key =
        .ok (some install) →
    installHandler digest Z build.buildConfig.install.key
      (some (build.installArchive.bytes digest)) = .ok (some install)
  root : ∀ cdns entry key root, build.entry build.buildConfig.root = some entry →
    key ∈ entry.keys →
    call.remote.root cdns (hex key) build.encoding.contentKeySize = .ok (some root) →
    rootHandler digest Z build.encoding.contentKeySize
      (some (build.rootArchive.bytes digest)) = .ok (some root)

end Build

/-- An answer that was found. -/
theorem found_eq_some {α : Type} {r : Except Thrown (Option α)} {a : α} :
    found r = some a ↔ r = .ok (some a) := by
  rcases r with e | _ | a
  · simp [found]
  · simp [found]
  · simp [found]

/-- The answers come from the remote. -/
theorem answers_given {call : Tactmon.LoadCall} {answers : Answers}
    (h : call.answers = some answers) :
    call.remote.buildConfig answers.cdns call.buildConfig = .ok (some answers.buildConfig) ∧
      call.remote.encoding answers.cdns (hex answers.buildConfig.encoding.key.encodingKey)
        answers.buildConfig.encoding.key = .ok (some answers.encoding) ∧
      call.remote.install answers.cdns (hex answers.buildConfig.install.key.encodingKey)
        answers.buildConfig.install.key = .ok (some answers.install) := by
  simp only [Tactmon.LoadCall.answers, Option.bind_eq_bind, Option.bind_eq_some_iff,
    Option.some.injEq] at h
  obtain ⟨cdns, -, buildConfig, hbuild, cdnConfig, -, encoding, hencoding, install, hinstall,
    fileIndex, -, indices, -, rfl⟩ := h
  exact ⟨found_eq_some.mp hbuild, found_eq_some.mp hencoding, found_eq_some.mp hinstall⟩

namespace Product

/-- A root that was found was found under one of the keys. -/
theorem loadRoot_some {remote : Remote} {cdns : List Ribbit.CDN} {contentKeySize : Nat}
    {location : FileLocation} {root : Root} (indices : List Nat)
    (h : loadRoot remote cdns contentKeySize location indices = .ok (some root)) :
    ∃ i ∈ indices, ∃ key, location.at i = .ok key ∧
      remote.root cdns (hex key) contentKeySize = .ok (some root) := by
  induction indices with
  | nil => cases h
  | cons i indices ih =>
      rw [loadRoot] at h
      cases hkey : location.at i with
      | error f =>
          rw [hkey] at h
          cases h
      | ok key =>
          rw [hkey] at h
          change (remote.root cdns (hex key) contentKeySize >>= _) = _ at h
          rcases hroot : remote.root cdns (hex key) contentKeySize with e | _ | found
          · rw [hroot] at h
            cases h
          · rw [hroot] at h
            obtain ⟨j, hj, hfound⟩ := ih h
            exact ⟨j, List.mem_cons_of_mem _ hj, hfound⟩
          · rw [hroot] at h
            cases h
            exact ⟨i, List.mem_cons_self, key, hkey, hroot⟩

/-- Where each key gives the root it is found. -/
theorem loadRoot_eq {remote : Remote} {cdns : List Ribbit.CDN} {contentKeySize : Nat}
    {location : FileLocation} {root : Root} {i : Nat} {key : EKey} (indices : List Nat)
    (hkey : location.at i = .ok key)
    (hroot : remote.root cdns (hex key) contentKeySize = .ok (some root)) :
    loadRoot remote cdns contentKeySize location (i :: indices) = .ok (some root) := by
  rw [loadRoot, hkey]
  change (remote.root cdns (hex key) contentKeySize >>= _) = _
  rw [hroot]
  rfl

end Product

/-! ## Lookups -/

namespace Build

variable {Z : Inflate} {digest : Bytes → Digest} {build : Build Z}

theorem locate_some {contentKey : CKey} {location : FileLocation}
    (h : build.locate contentKey = some location) :
    ∃ entry, build.entry contentKey = some entry ∧ location.keyCount = entry.keys.length ∧
      ∀ i (hi : i < entry.keys.length), location.at i = .ok entry.keys[i] := by
  obtain ⟨entry, hentry, rfl⟩ := Option.map_eq_some_iff.mp h
  have hfits := Encoding.Manifest.fits_of_mem (List.mem_of_find?_eq_some hentry)
  exact ⟨entry, hentry, rfl, fun i hi => Encoding.Entry.at_eq _ hfits hi⟩

/-- What the resolver gives is what was published. -/
theorem Serves.given {call : LoadCall} (hserves : build.Serves digest call) {answers : Answers}
    (h : call.base.answers = some answers) :
    answers.buildConfig = build.buildConfig ∧ answers.encoding = build.encoding.encoding ∧
      answers.install = build.install.parsed.2 := by
  obtain ⟨hbuild, hencoding, hinstall⟩ := answers_given h
  have hconfig : answers.buildConfig = build.buildConfig := hserves.buildConfig _ _ hbuild
  rw [hconfig] at hencoding hinstall
  have hparsed := hserves.encoding _ _ hencoding
  have hparsed' := hserves.install _ _ hinstall
  rw [encodingHandler_eq] at hparsed
  rw [installHandler_eq] at hparsed'
  refine ⟨hconfig, ?_, ?_⟩
  · split at hparsed
    · exact (Option.some.inj (Except.ok.inj hparsed)).symm
    · cases hparsed
  · split at hparsed'
    · exact (Option.some.inj (Except.ok.inj hparsed')).symm
    · cases hparsed'

/-- What a `Load` that returns true leaves. -/
theorem Serves.loaded {call : LoadCall} (hserves : build.Serves digest call)
    (haligned : Root.Aligned build.root.canSkip build.root.blocks)
    {product product' : Product} (h : call.run product = .ok (true, product')) :
    product'.base.encoding = some build.encoding.encoding ∧
      product'.base.install = some build.install.parsed.2 ∧
      product'.root = some build.root.root := by
  have hspec := call.run_spec product
  cases hanswers : call.base.answers with
  | none =>
      rw [hanswers] at hspec
      obtain ⟨hfalse, -⟩ := hspec true product' h
      cases hfalse
  | some answers =>
      rw [hanswers] at hspec
      obtain ⟨hconfig, hencoding, hinstall⟩ := hserves.given hanswers
      have hlocate : answers.encoding.findFile answers.buildConfig.root =
          build.locate build.buildConfig.root := by
        rw [hencoding, hconfig, Encoding.Manifest.encoding_findFile]
        rfl
      dsimp only at hspec
      rw [hspec, LoadCall.rootOf, hlocate] at h
      cases hlocation : build.locate build.buildConfig.root with
      | none =>
          rw [hlocation] at h
          cases h
      | some location =>
          rw [hlocation] at h
          dsimp only at h
          rcases hload : Product.loadRoot call.remote answers.cdns
            answers.encoding.header.contentKeySize location (List.range location.keyCount)
            with e | _ | root
          · rw [hload] at h
            cases h
          · rw [hload] at h
            cases h
          · rw [hload] at h
            cases h
            obtain ⟨entry, hentry, hcount, hkeys⟩ := locate_some hlocation
            obtain ⟨i, hi, key, hkey, hroot⟩ := Product.loadRoot_some _ hload
            have hlt : i < entry.keys.length := hcount ▸ List.mem_range.mp hi
            rw [hkeys i hlt] at hkey
            cases hkey
            rw [hencoding] at hroot
            have hparsed := hserves.root _ entry _ root hentry (List.getElem_mem hlt) hroot
            rw [rootHandler_eq digest haligned] at hparsed
            cases hparsed
            exact ⟨congrArg some hencoding, congrArg some hinstall, rfl⟩

end Build

/-- Where the search leads to the ID, it gives the key of an entry with it, if
there is one. -/
theorem Root.Hits.exact {root : Root} {fileDataID : UInt32} (h : root.Hits fileDataID) :
    ∃ contentKey, root.findFile fileDataID = .ok contentKey ∧
      root.Exact fileDataID contentKey := by
  rw [findFile, findIn_eq]
  cases hfirst : root.blocks.find? (Block.reaches fileDataID) with
  | none =>
      refine ⟨none, rfl, ⟨fun contentKey hkey => absurd hkey.symm (Option.some_ne_none contentKey),
        iff_of_true rfl fun contentKey hholds => ?_⟩⟩
      obtain ⟨block, hblock, hreaches⟩ := hholds.reaches
      exact List.find?_eq_none.mp hfirst block hblock hreaches
  | some block =>
      obtain ⟨hpart, hentry⟩ := h block hfirst
      have hreaches : block.reaches fileDataID = true := List.find?_some hfirst
      obtain ⟨entry, hfind⟩ : ∃ entry,
          block.entries.find? (fun entry => !below fileDataID entry) = some entry :=
        Option.isSome_iff_exists.mp (List.find?_isSome.mpr (List.any_eq_true.mp hreaches))
      have hholds := hentry entry hfind
      refine ⟨some entry.contentKey, ?_, ⟨fun contentKey hkey => ?_, ?_⟩⟩
      · dsimp only
        rw [if_pos hpart, hfind]
        rfl
      · cases hkey
        exact hholds
      · exact iff_of_false (Option.some_ne_none _) fun hnone => hnone _ hholds

namespace Build

variable {Z : Inflate} {digest : Bytes → Digest} {build : Build Z} {call : LoadCall}
  {product product' : Product}

/-- Content keys are looked up in the encoding manifest. -/
theorem Serves.findFile (hserves : build.Serves digest call)
    (haligned : Root.Aligned build.root.canSkip build.root.blocks)
    (hload : call.run product = .ok (true, product')) :
    product'.base.findFile = build.locate := by
  obtain ⟨hencoding, -, -⟩ := hserves.loaded haligned hload
  funext contentKey
  rw [Tactmon.Product.findFile, hencoding, Option.bind_some, Encoding.Manifest.encoding_findFile]
  rfl

/-- File names are looked up in the install manifest and then in the root. -/
theorem Serves.findFileNamed (hserves : build.Serves digest call)
    (haligned : Root.Aligned build.root.canSkip build.root.blocks)
    (hload : call.run product = .ok (true, product'))
    (hashlittle2 : Bytes → UInt32 × UInt32) (fileName : Bytes) :
    product'.findFileNamed hashlittle2 fileName =
      .ok (((build.installKey fileName).bind build.locate).or
        ((build.rootKey hashlittle2 fileName).bind build.locate)) := by
  obtain ⟨-, hinstall, hroot⟩ := hserves.loaded haligned hload
  rw [Product.findFileNamed, Tactmon.Product.findFileNamed, hinstall]
  dsimp only
  rw [Exec.ok_bind, Install.Manifest.parsed_findFile, hserves.findFile haligned hload, hroot,
    Option.bind_some, Root.findFileNamed, Root.findNamed_eq]
  cases hfirst : (build.installKey fileName).bind build.locate with
  | some location =>
      rw [Build.installKey] at hfirst
      rw [hfirst]
      rfl
  | none =>
      rw [Build.installKey] at hfirst
      rw [hfirst]
      rfl

/-- The entry of a file is well formed. -/
theorem located_fits {hashlittle2 : Bytes → UInt32 × UInt32} {fileName : Bytes}
    {entry : Encoding.Entry} (h : build.located hashlittle2 fileName = some entry) :
    entry.Fits build.encoding.encodingKeySize build.encoding.contentKeySize := by
  have hkey : ∃ contentKey, build.entry contentKey = some entry := by
    rw [located, Option.or_eq_some_iff] at h
    rcases h with h | ⟨-, h⟩
    · obtain ⟨contentKey, -, hentry⟩ := Option.bind_eq_some_iff.mp h
      exact ⟨contentKey, hentry⟩
    · obtain ⟨contentKey, -, hentry⟩ := Option.bind_eq_some_iff.mp h
      exact ⟨contentKey, hentry⟩
  obtain ⟨contentKey, hentry⟩ := hkey
  exact Encoding.Manifest.fits_of_mem (List.mem_of_find?_eq_some hentry)

end Build

/-- An object that loaded a published build looks up what was published.  A
content key is found in the encoding manifest, a file name in the install
manifest first and then in the root, and a file data ID in the root, where the
search of the root leads to it. -/
theorem load_published {Z : Inflate} {digest : Bytes → Digest} {build : Build Z} {call : LoadCall}
    {product product' : Product} (hserves : build.Serves digest call)
    (haligned : Root.Aligned build.root.canSkip build.root.blocks)
    (hload : call.run product = .ok (true, product')) :
    (∀ contentKey, product'.base.findFile contentKey = build.locate contentKey) ∧
    (∀ hashlittle2 fileName, product'.findFileNamed hashlittle2 fileName =
      .ok (((build.installKey fileName).bind build.locate).or
        ((build.rootKey hashlittle2 fileName).bind build.locate))) ∧
    ∀ fileDataID, build.root.root.Hits fileDataID →
      ∃ contentKey, build.root.root.Exact fileDataID contentKey ∧
        product'.findFile fileDataID = .ok (contentKey.bind build.locate) := by
  obtain ⟨-, -, hroot⟩ := hserves.loaded haligned hload
  have hlocate := hserves.findFile haligned hload
  refine ⟨fun contentKey => congrFun hlocate contentKey, fun hashlittle2 fileName =>
    hserves.findFileNamed haligned hload hashlittle2 fileName, fun fileDataID hhits => ?_⟩
  obtain ⟨contentKey, hfind, hexact⟩ := hhits.exact
  refine ⟨contentKey, hexact, ?_⟩
  rw [Product.findFile, hroot]
  dsimp only
  rw [hfind, Exec.ok_bind, hlocate]

/-! ## When a build is loaded -/

/-- The resolver gives what is parsed from the archives of the build, and
everything else that is asked for. -/
structure Build.Delivers {Z : Inflate} (digest : Bytes → Digest) (build : Build Z)
    (call : LoadCall) : Prop where
  cdns : ∃ cdns, call.remote.base.cdns = .ok (some cdns)
  buildConfig : ∀ cdns, call.remote.base.buildConfig cdns call.buildConfig =
    .ok (some build.buildConfig)
  cdnConfig : ∀ cdns, ∃ cdnConfig, call.remote.base.cdnConfig cdns call.cdnConfig =
    .ok (some cdnConfig)
  encoding : ∀ cdns, call.remote.base.encoding cdns
      (hex build.buildConfig.encoding.key.encodingKey) build.buildConfig.encoding.key =
    encodingHandler digest Z build.buildConfig.encoding.key
      (some (build.encodingArchive.bytes digest))
  install : ∀ cdns, call.remote.base.install cdns
      (hex build.buildConfig.install.key.encodingKey) build.buildConfig.install.key =
    installHandler digest Z build.buildConfig.install.key
      (some (build.installArchive.bytes digest))
  fileIndex : ∀ cdns key name, ∃ index, call.remote.base.fileIndex cdns key name = .ok index
  archiveIndex : ∀ cdns i key name, ∃ index,
    call.remote.base.archiveIndex cdns i key name = .ok index
  root : ∀ cdns entry key, build.entry build.buildConfig.root = some entry → key ∈ entry.keys →
    call.remote.root cdns (hex key) build.encoding.contentKeySize =
      rootHandler digest Z build.encoding.contentKeySize
        (some (build.rootArchive.bytes digest))

/-- Indices that are given, empty or not. -/
theorem archiveIndices_ok {remote : Tactmon.Remote} {cdns : List Ribbit.CDN}
    (h : ∀ i key name, ∃ index, remote.archiveIndex cdns i key name = .ok index)
    (archives : List CDNConfig.Archive) :
    ∀ i, ∃ indices, remote.archiveIndices cdns i archives = .ok indices := by
  induction archives with
  | nil => exact fun i => ⟨[], rfl⟩
  | cons archive archives ih =>
      intro i
      obtain ⟨index, hindex⟩ := h i (indexName archive.name) archive.name
      obtain ⟨indices, hindices⟩ := ih (i + 1)
      refine ⟨index.toList ++ indices, ?_⟩
      rw [Tactmon.Remote.archiveIndices, hindex]
      change (remote.archiveIndices cdns (i + 1) archives >>= _) = _
      rw [hindices]
      rfl

/-- `Load` of the product returns, and true where both manifests are
accepted. -/
theorem Build.Delivers.base {Z : Inflate} {digest : Bytes → Digest} {build : Build Z}
    {call : LoadCall} (h : build.Delivers digest call) (product : Tactmon.Product) :
    (∃ answers, call.base.answers = some answers ∧
      Build.Accepts digest build.encodingArchive build.buildConfig.encoding.key ∧
      Build.Accepts digest build.installArchive build.buildConfig.install.key) ∨
    (∃ product', call.base.run product = .ok (false, product')) ∧
      ¬(Build.Accepts digest build.encodingArchive build.buildConfig.encoding.key ∧
        Build.Accepts digest build.installArchive build.buildConfig.install.key) := by
  obtain ⟨cdns, hcdns⟩ := h.cdns
  obtain ⟨cdnConfig, hcdnConfig⟩ := h.cdnConfig cdns
  have hbuild := h.buildConfig cdns
  have hencoding := h.encoding cdns
  have hinstall := h.install cdns
  rw [Build.encodingHandler_eq] at hencoding
  rw [Build.installHandler_eq] at hinstall
  by_cases haccepts : Build.Accepts digest build.encodingArchive build.buildConfig.encoding.key
  · by_cases haccepts' : Build.Accepts digest build.installArchive build.buildConfig.install.key
    · left
      rw [if_pos haccepts] at hencoding
      rw [if_pos haccepts'] at hinstall
      obtain ⟨indices, hindices⟩ := archiveIndices_ok (h.archiveIndex cdns) cdnConfig.archives 0
      obtain ⟨fileIndex, hfileIndex⟩ : ∃ fileIndex,
          call.remote.base.namedIndex cdns cdnConfig = .ok fileIndex := by
        rw [Tactmon.Remote.namedIndex]
        cases cdnConfig.fileIndex with
        | none => exact ⟨none, rfl⟩
        | some archive => exact h.fileIndex cdns _ _
      refine ⟨⟨cdns, build.buildConfig, cdnConfig, build.encoding.encoding,
        build.install.parsed.2, fileIndex, indices⟩, ?_, haccepts, haccepts'⟩
      simp only [Tactmon.LoadCall.answers, LoadCall.base, Option.bind_eq_bind,
        Option.bind_eq_some_iff, found_eq_some]
      exact ⟨cdns, hcdns, build.buildConfig, hbuild, cdnConfig, hcdnConfig, _, hencoding, _,
        hinstall, _, by rw [hfileIndex]; rfl, _, by rw [hindices]; rfl, rfl⟩
    · right
      rw [if_pos haccepts] at hencoding
      rw [if_neg haccepts'] at hinstall
      refine ⟨⟨{ product with
        cdns := some cdns
        buildConfig := some build.buildConfig
        cdnConfig := some cdnConfig
        encoding := some build.encoding.encoding
        install := none }, ?_⟩, fun hboth => haccepts' hboth.2⟩
      rw [Tactmon.LoadCall.run, Tactmon.Product.load, LoadCall.base, hcdns]
      dsimp only [bind, Except.bind]
      rw [hbuild]
      dsimp only
      rw [hcdnConfig]
      dsimp only
      rw [hencoding]
      dsimp only [Option.isNone]
      rw [if_neg Bool.false_ne_true, hinstall]
      rfl
  · right
    rw [if_neg haccepts] at hencoding
    refine ⟨⟨{ product with
      cdns := some cdns
      buildConfig := some build.buildConfig
      cdnConfig := some cdnConfig
      encoding := none }, ?_⟩, fun hboth => haccepts hboth.1⟩
    rw [Tactmon.LoadCall.run, Tactmon.Product.load, LoadCall.base, hcdns]
    dsimp only [bind, Except.bind]
    rw [hbuild]
    dsimp only
    rw [hcdnConfig]
    dsimp only
    rw [hencoding]
    rfl

theorem Build.Delivers.serves {Z : Inflate} {digest : Bytes → Digest} {build : Build Z}
    {call : LoadCall} (h : build.Delivers digest call) : build.Serves digest call where
  buildConfig cdns config hconfig := by
    rw [h.buildConfig] at hconfig
    exact (Option.some.inj (Except.ok.inj hconfig)).symm
  encoding cdns encoding hencoding := (h.encoding cdns).symm.trans hencoding
  install cdns install hinstall := (h.install cdns).symm.trans hinstall
  root cdns entry key root hentry hkey hroot := (h.root cdns entry key hentry hkey).symm.trans hroot

/-- `Load` of a published build returns, and true exactly where the keys in the
build configuration are the digests that are compared with them, and the
encoding manifest has the root. -/
theorem load_published_iff {Z : Inflate} {digest : Bytes → Digest} {build : Build Z}
    {call : LoadCall} (hdelivers : build.Delivers digest call)
    (haligned : Root.Aligned build.root.canSkip build.root.blocks) (product : Product) :
    ∃ loaded product', call.run product = .ok (loaded, product') ∧
      (loaded = true ↔
        (Build.Accepts digest build.encodingArchive build.buildConfig.encoding.key ∧
          Build.Accepts digest build.installArchive build.buildConfig.install.key) ∧
        (build.entry build.buildConfig.root).isSome) := by
  rcases hdelivers.base product.base with ⟨answers, hanswers, haccepts⟩ | ⟨⟨base, hbase⟩, hrejects⟩
  · have hspec := call.run_spec product
    rw [hanswers] at hspec
    obtain ⟨hconfig, hencoding, -⟩ := hdelivers.serves.given hanswers
    have hlocate : answers.encoding.findFile answers.buildConfig.root =
        build.locate build.buildConfig.root := by
      rw [hencoding, hconfig, Encoding.Manifest.encoding_findFile]
      rfl
    dsimp only at hspec
    rw [hspec, LoadCall.rootOf, hlocate]
    cases hentry : build.entry build.buildConfig.root with
    | none =>
        rw [Build.locate, hentry]
        exact ⟨false, _, rfl, iff_of_false Bool.false_ne_true fun h => Bool.false_ne_true h.2⟩
    | some entry =>
        have hlocation : build.locate build.buildConfig.root =
            some ⟨.ofNat entry.fileSize, entry.keys.length, entry.keys.flatten⟩ := by
          rw [Build.locate, hentry]
          rfl
        have hfits := Encoding.Manifest.fits_of_mem (List.mem_of_find?_eq_some hentry)
        have hroot := hdelivers.root answers.cdns entry _ hentry (List.getElem_mem hfits.keys_pos)
        rw [Build.rootHandler_eq digest haligned] at hroot
        have hcontent : answers.encoding.header.contentKeySize = build.encoding.contentKeySize := by
          rw [hencoding]
          rfl
        obtain ⟨n, hn⟩ := Nat.exists_eq_succ_of_ne_zero (Nat.ne_of_gt hfits.keys_pos)
        rw [hlocation]
        dsimp only
        rw [hn, List.range_succ_eq_map, hcontent,
          Product.loadRoot_eq _ (hn ▸ Encoding.Entry.at_eq _ hfits hfits.keys_pos) hroot]
        exact ⟨true, _, rfl, iff_of_true rfl ⟨haccepts, rfl⟩⟩
  · refine ⟨false, { product with base }, ?_, iff_of_false Bool.false_ne_true fun h =>
      hrejects h.1⟩
    rw [LoadCall.run, Product.load]
    change (call.base.run product.base >>= _) = _
    rw [hbase]
    rfl

/-! ## A small build -/

/-- The entries of a file and of the root. -/
def entriesSample : List Encoding.Entry :=
  [⟨[0xAA], 5, [[1, 2]]⟩, ⟨[0xBB], 7, [[3, 4]]⟩]

theorem entriesSample_fit : ∀ page ∈ [entriesSample], ∀ entry ∈ page, entry.Fits 2 1 := by
  decide

theorem entriesSample_page :
    ∀ page ∈ [entriesSample], (Encoding.entryBytes page).length ≤ (1 : UInt16).toNat * 1024 := by
  decide

theorem one_lt_pow_eight : 1 < 2 ^ 8 := by decide

theorem two_lt_pow_eight : 2 < 2 ^ 8 := by decide

theorem nil_lt_pow : ([] : Bytes).length < 2 ^ 32 := Nat.two_pow_pos 32

/-- One page, with a file and the root. -/
def encodingSample : Encoding.Manifest where
  version := 1
  encodingKeySize := 2
  contentKeySize := 1
  cePageSizeKb := 1
  eSpecPageSizeKb := 0
  eSpecPageCount := 0
  eSpec := []
  index := List.replicate 18 0
  pages := [entriesSample]
  encodingKeySize_pos := Nat.two_pos
  encodingKeySize_lt := two_lt_pow_eight
  contentKeySize_pos := Nat.one_pos
  contentKeySize_lt := one_lt_pow_eight
  eSpec_lt := nil_lt_pow
  pages_lt := by decide
  index_length := by decide
  entries_fit := entriesSample_fit
  pages_fit := entriesSample_page

theorem zero_lt_pow : 0 < 2 ^ 16 := by decide

theorem one_lt_pow : 1 < 2 ^ 32 := by decide

def namesSample : List Install.FileRecord := [⟨ascii "Glue.toc", [0xAA], 5⟩]

theorem namesSample_fit : ∀ file ∈ namesSample, file.Fits 1 := by decide

theorem no_tags_fit (n : Nat) : ∀ tag ∈ ([] : List Install.TagRecord), tag.Fits n :=
  fun _ h => absurd h List.not_mem_nil

/-- The file has a name. -/
def installSample : Install.Manifest where
  signature := 0x494E
  version := 1
  hashSize := 1
  tags := []
  files := namesSample
  hashSize_lt := one_lt_pow_eight
  tags_lt := zero_lt_pow
  files_lt := one_lt_pow
  tags_fit := no_tags_fit 1
  files_fit := namesSample_fit

/-- One stored chunk. -/
def stored (contents : Bytes) (h : contents.length + 1 < 2 ^ 32) : Archive Inflate.copying where
  chunks := [.plain contents]
  count_lt := Nat.one_lt_two_pow (by decide)
  size_lt := by
    intro chunk hchunk
    cases List.mem_singleton.mp hchunk
    exact h

/-- The keys an archive is accepted for. -/
def acceptedKey (archive : Archive Inflate.copying) : KeyPair :=
  ⟨(Digest.leading archive.contents).bytes,
    (Digest.leading (archive.widenedHeader Digest.leading)).bytes⟩

theorem accepts_acceptedKey (archive : Archive Inflate.copying) :
    Build.Accepts Digest.leading archive (acceptedKey archive) := ⟨rfl, rfl⟩

def encodingArchiveSample : Archive Inflate.copying :=
  stored encodingSample.bytes (by decide +kernel)

def installArchiveSample : Archive Inflate.copying :=
  stored installSample.bytes (by decide)

def Build.sample : Build Inflate.copying where
  buildConfig :=
    { root := [0xBB]
      encoding := { key := acceptedKey encodingArchiveSample }
      install := { key := acceptedKey installArchiveSample } }
  encoding := encodingSample
  install := installSample
  root := Root.Manifest.sample 2 Root.noNameHash 0
  encodingArchive := encodingArchiveSample
  installArchive := installArchiveSample
  rootArchive := stored (Root.Manifest.sample 2 Root.noNameHash 0).bytes (by decide)
  encoding_packed := List.append_nil _
  install_packed := List.append_nil _
  root_packed := List.append_nil _
  encoding_fits := by decide +kernel
  install_fits := by decide
  root_fits := by decide

/-- An index that has the key of the file. -/
def indexSample (archiveName : Bytes) : Index := ⟨archiveName, 2, ⟨[1, 2], [⟨0, 57, 3⟩]⟩⟩

/-- A resolver that gives all of it. -/
def callSample : LoadCall where
  remote :=
    { base :=
        { cdns := .ok (some [])
          buildConfig := fun _ _ => .ok (some Build.sample.buildConfig)
          cdnConfig := fun _ _ => .ok (some ⟨[⟨ascii "0a1b2c", 1⟩], none⟩)
          encoding := fun _ _ _ => .ok (some encodingSample.encoding)
          install := fun _ _ _ => .ok (some installSample.parsed.2)
          fileIndex := fun _ _ _ => .ok none
          archiveIndex := fun _ _ _ name => .ok (some (indexSample name)) }
      root := fun _ _ _ => .ok (some (Root.Manifest.sample 2 Root.noNameHash 0).root) }
  buildConfig := ascii "b0"
  cdnConfig := ascii "c0"

theorem aligned_sample : Root.Aligned Build.sample.root.canSkip Build.sample.root.blocks := by
  decide

theorem delivers_sample : Build.sample.Delivers Digest.leading callSample where
  cdns := ⟨_, rfl⟩
  buildConfig _ := rfl
  cdnConfig _ := ⟨_, rfl⟩
  encoding _ := by
    rw [Build.encodingHandler_eq, if_pos]
    · rfl
    · exact accepts_acceptedKey encodingArchiveSample
  install _ := by
    rw [Build.installHandler_eq, if_pos]
    · rfl
    · exact accepts_acceptedKey installArchiveSample
  fileIndex _ _ _ := ⟨_, rfl⟩
  archiveIndex _ _ _ _ := ⟨_, rfl⟩
  root _ _ _ _ _ := (Build.rootHandler_eq Digest.leading aligned_sample).symm

/-- What the sample leaves on a fresh object. -/
def loadedSample : Product where
  base :=
    { cdns := some []
      buildConfig := some Build.sample.buildConfig
      cdnConfig := some ⟨[⟨ascii "0a1b2c", 1⟩], none⟩
      encoding := some encodingSample.encoding
      install := some installSample.parsed.2
      fileIndex := none
      indices := [indexSample (ascii "0a1b2c")] }
  root := some (Root.Manifest.sample 2 Root.noNameHash 0).root

theorem run_sample : callSample.run .fresh = .ok (true, loadedSample) := rfl

theorem hits_sample : Build.sample.root.root.Hits 5 := by
  intro block hblock
  have heq : (⟨Root.noNameHash, 2, [⟨[0xAA], 5, 0⟩]⟩ : Root.Block) = block :=
    Option.some.inj hblock
  subst heq
  refine ⟨by decide, fun entry hentry => ?_⟩
  have heq : (⟨[0xAA], 5, 0⟩ : Root.Entry) = entry := Option.some.inj hentry
  subst heq
  exact ⟨_, List.mem_cons_self, _, List.mem_cons_self, rfl, rfl⟩

theorem load_published_sample :
    (∀ contentKey, loadedSample.base.findFile contentKey = Build.sample.locate contentKey) ∧
      ∃ contentKey, Build.sample.root.root.Exact 5 contentKey ∧
        loadedSample.findFile 5 = .ok (contentKey.bind Build.sample.locate) := by
  have h := load_published delivers_sample.serves aligned_sample run_sample
  exact ⟨h.1, h.2.2 5 hits_sample⟩

theorem load_published_iff_sample :
    ∃ loaded product', callSample.run .fresh = .ok (loaded, product') ∧
      (loaded = true ↔
        (Build.Accepts Digest.leading Build.sample.encodingArchive
            Build.sample.buildConfig.encoding.key ∧
          Build.Accepts Digest.leading Build.sample.installArchive
            Build.sample.buildConfig.install.key) ∧
        (Build.sample.entry Build.sample.buildConfig.root).isSome) :=
  load_published_iff delivers_sample aligned_sample .fresh

end Wow

end Tactmon
