import Tactmon.Backend.Listener
import Tactmon.Frontend.Tracking
import Tactmon.Net.Delivery
import Tactmon.Wow.Published

/-!
# Links that are shown

The two places that show links to files.  `DownloadCommand::HandleSlashCommand`
answers with a link to the first key that an index has.  The handler that
`Execute` of `Program.cpp` passes to `LoadConfiguration` posts a message for each
tracked file, with a button for each key that an index has.

For an object that loaded a published build, both are made from the `mirrors` of
the entry that the build has for the file (`publish_published`,
`announceFile_published`).  So they are put together with the lookups of the
product, the target of a request and the loop over the CDNs:
`shows_delivers` follows a link from the build to the body of the response.
-/

namespace Tactmon

namespace Frontend

open Backend Binary Cxx Net Text Zlib

/-! ## The download command -/

/-- An embed of a reply. -/
structure Embed where
  title : Bytes
  color : Option Nat
  description : Bytes
  url : Option Bytes
  footer : Option Bytes
deriving DecidableEq

/-- The parameters of `/download`. -/
structure DownloadCommand where
  product : Bytes
  region : Bytes
  version : Bytes
  file : Bytes
deriving DecidableEq

namespace DownloadCommand

/-- `get_parameter`, of the options at the top. -/
def parameter (name : Bytes) : List CommandDataOption → CommandValue
  | [] => .monostate
  | .mk optionName value _ :: options =>
      if optionName = name then value else parameter name options

/-- The parameters that `HandleSlashCommand` reads.  It throws where one is not a
string. -/
def ofInteraction (options : List CommandDataOption) : Option DownloadCommand := do
  let product ← (parameter (ascii "product") options).text?
  let region ← (parameter (ascii "region") options).text?
  let version ← (parameter (ascii "version") options).text?
  let file ← (parameter (ascii "file") options).text?
  return ⟨product, region, version, file⟩

/-- A reply that something went wrong. -/
def failure (c : DownloadCommand) (description : Bytes) (footer : Option Bytes) : Embed :=
  ⟨c.product, some 0x00FF0000, description, none, footer⟩

/-- The reply where the file is not found. -/
def missing (c : DownloadCommand) : Embed :=
  c.failure (ascii "`" ++ c.file ++ ascii "` does not exist.") (some c.version)

/-- The reply with a link. -/
def linked (c : DownloadCommand) (url : Bytes) : Embed :=
  ⟨ascii "Download this file.", none, ascii "Click here to download `" ++ c.file ++ ascii "`.",
    some url, some c.version⟩

/-- The loop over the keys.  Without a server there is nothing to make a link
with. -/
def publishFrom (c : DownloadCommand) (httpServer : Option Bytes) (product : Wow.Product)
    (fileLocation : FileLocation) : List Nat → Exec Embed
  | [] => .ok c.missing
  | i :: indices => do
      let ekey ← fileLocation.at i
      match product.base.findArchive ekey with
      | none => publishFrom c httpServer product fileLocation indices
      | some indexLocation =>
          match httpServer with
          | none => .error .outOfBounds
          | some documentRoot =>
              .ok (c.linked (Publisher.downloadCommand.link documentRoot c.product c.file
                fileLocation indexLocation))

/-- The handler that is passed to `LoadConfiguration`, up to its reply. -/
def publish (c : DownloadCommand) (hashlittle2 : Bytes → UInt32 × UInt32)
    (httpServer : Option Bytes) (product : Wow.Product) : Exec Embed := do
  match ← product.findFileNamed hashlittle2 c.file with
  | none => .ok c.missing
  | some fileLocation =>
      c.publishFrom httpServer product fileLocation (List.range fileLocation.keyCount)

/-- `HandleSlashCommand`: its replies, each in place of the one before, and how it
ends.  `load` is the object that `LoadConfiguration` gives to the handler. -/
def handle (c : DownloadCommand) (hashlittle2 : Bytes → UInt32 × UInt32)
    (httpServer : Option Bytes) (builds : Builds) (succeeded : Bool)
    (load : Bytes → BuildRow → Option Wow.Product) : List Embed × Exec Unit :=
  let disabled := match httpServer with
    | none => [c.failure (ascii "The HTTP server for this command is disabled. " ++
        ascii "How did you even manage to execute this command?") none]
    | some _ => []
  match builds.getByBuildName succeeded c.version c.region with
  | none => (disabled ++ [c.failure (ascii "Build configuration cannot be found.") none], .ok ())
  | some buildEntry =>
      if c.product ≠ buildEntry.productName then
        (disabled ++ [c.failure
          (ascii "Build configuration cannot be found for this product.") none], .ok ())
      else
        let loading : Embed :=
          ⟨c.version, some 0x0000FF00, ascii "Loading... This may take a while.", none, none⟩
        match load c.product buildEntry with
        | none => (disabled ++ [loading], .ok ())
        | some product =>
            match c.publish hashlittle2 httpServer product with
            | .error f => (disabled ++ [loading], .error f)
            | .ok reply => (disabled ++ [loading, reply], .ok ())

end DownloadCommand

/-! ## The announcement of a build -/

/-- A button with a link. -/
structure Button where
  label : Bytes
  url : Bytes
deriving DecidableEq

/-- A message about a tracked file. -/
structure Message where
  title : Bytes
  description : Bytes
  buttons : List Button
deriving DecidableEq

/-- A thread that was created in a channel, with its messages. -/
structure Thread where
  channelID : Nat
  name : Bytes
  messages : List Message
deriving DecidableEq

/-- The name of the thread of a build. -/
def threadName (newBuild : NewBuild) : Bytes :=
  newBuild.configuration.buildName ++ ascii " (" ++ (ascii ", ").intercalate newBuild.regions ++
    ascii ")"

section Announce

variable (documentRoot productName : Bytes) (hashlittle2 : Bytes → UInt32 × UInt32)
  (product : Wow.Product)

/-- The button of a key. -/
def mirrorButton (filePath : Bytes) (fileLocation : FileLocation)
    (mirror : Nat × ArchiveFileLocation) : Button :=
  ⟨ascii "Mirror #" ++ decimal mirror.1,
    Publisher.trackedFile.link documentRoot productName filePath fileLocation mirror.2⟩

/-- The loop over the keys. -/
def buttons (filePath : Bytes) (fileLocation : FileLocation) : List Nat → Exec (List Button)
  | [] => .ok []
  | i :: indices => do
      let ekey ← fileLocation.at i
      let rest ← buttons filePath fileLocation indices
      match product.base.findArchive ekey with
      | none => .ok rest
      | some indexLocation =>
          .ok (mirrorButton documentRoot productName filePath fileLocation (i, indexLocation) ::
            rest)

/-- What is posted about a tracked file. -/
def announceFile (filePath : Bytes) : Exec (Option Message) := do
  match ← product.findFileNamed hashlittle2 filePath with
  | none => .ok none
  | some fileLocation =>
      if fileLocation.keyCount = 0 then .ok none
      else do
        let buttons ← buttons documentRoot productName product filePath fileLocation
          (List.range fileLocation.keyCount)
        .ok (some ⟨ascii "Download `" ++ filename filePath ++ ascii "`.",
          decimal fileLocation.keyCount ++ ascii " possible links.", buttons⟩)

/-- The messages about all tracked files, of whatever product. -/
def announceFiles : List TrackedFile → Exec (List Message)
  | [] => .ok []
  | trackedFile :: trackedFiles => do
      let message ← announceFile documentRoot productName hashlittle2 product trackedFile.filePath
      let rest ← announceFiles trackedFiles
      .ok (message.toList ++ rest)

/-- The handler that is passed to `LoadConfiguration` for a new build, with the
rows of `bound_channels` as channel and product. -/
def announce (newBuild : NewBuild) (trackedFiles : List TrackedFile) :
    List (Nat × Bytes) → Exec (List Thread)
  | [] => .ok []
  | (channelID, boundProduct) :: boundChannels => do
      if boundProduct ≠ productName then
        announce newBuild trackedFiles boundChannels
      else do
        let messages ← announceFiles documentRoot productName hashlittle2 product trackedFiles
        let rest ← announce newBuild trackedFiles boundChannels
        .ok (⟨channelID, threadName newBuild, messages⟩ :: rest)

end Announce

/-! ## What the build has for a file -/

/-- The size and the keys of an entry. -/
def locationOf (entry : Encoding.Entry) : FileLocation :=
  ⟨.ofNat entry.fileSize, entry.keys.length, entry.keys.flatten⟩

/-- The archive location of the key at an index. -/
def mirror (product : Tactmon.Product) (entry : Encoding.Entry) (i : Nat) :
    Option (Nat × ArchiveFileLocation) :=
  (entry.keys[i]?.bind product.findArchive).map fun location => (i, location)

/-- The keys of an entry that an index has, by their places, with their locations. -/
def mirrors (product : Tactmon.Product) (entry : Encoding.Entry) :
    List (Nat × ArchiveFileLocation) :=
  (List.range entry.keys.length).filterMap (mirror product entry)

theorem mem_mirrors {product : Tactmon.Product} {entry : Encoding.Entry}
    {m : Nat × ArchiveFileLocation} (h : m ∈ mirrors product entry) :
    ∃ ekey ∈ entry.keys, product.findArchive ekey = some m.2 := by
  obtain ⟨i, -, hi⟩ := List.mem_filterMap.mp h
  obtain ⟨location, hlocation, rfl⟩ := Option.map_eq_some_iff.mp hi
  obtain ⟨ekey, hekey, hfound⟩ := Option.bind_eq_some_iff.mp hlocation
  exact ⟨ekey, List.mem_of_getElem? hekey, hfound⟩

/-- The reply with a link to a mirror. -/
def DownloadCommand.answer (c : DownloadCommand) (documentRoot : Bytes)
    (fileLocation : FileLocation) : Option (Nat × ArchiveFileLocation) → Embed
  | none => c.missing
  | some m => c.linked (Publisher.downloadCommand.link documentRoot c.product c.file
      fileLocation m.2)

section Loops

variable {encodingKeySize contentKeySize : Nat} {entry : Encoding.Entry}

/-- The key at an index. -/
theorem at_locationOf (hfits : entry.Fits encodingKeySize contentKeySize) {i : Nat}
    (hi : i < entry.keys.length) : (locationOf entry).at i = .ok entry.keys[i] :=
  Encoding.Entry.at_eq _ hfits hi

theorem mirror_eq (product : Tactmon.Product) {i : Nat} (hi : i < entry.keys.length) :
    mirror product entry i =
      (product.findArchive entry.keys[i]).map fun location => (i, location) := by
  rw [mirror, List.getElem?_eq_getElem hi, Option.bind_some]

theorem publishFrom_eq (hfits : entry.Fits encodingKeySize contentKeySize) (c : DownloadCommand)
    (documentRoot : Bytes) (product : Wow.Product) (indices : List Nat)
    (hindices : ∀ i ∈ indices, i < entry.keys.length) :
    c.publishFrom (some documentRoot) product (locationOf entry) indices =
      .ok (c.answer documentRoot (locationOf entry)
        (indices.filterMap (mirror product.base entry)).head?) := by
  induction indices with
  | nil => rfl
  | cons i indices ih =>
      obtain ⟨hi, hindices⟩ := List.forall_mem_cons.mp hindices
      rw [DownloadCommand.publishFrom, at_locationOf hfits hi, Exec.ok_bind, List.filterMap_cons,
        mirror_eq product.base hi]
      cases product.base.findArchive entry.keys[i] with
      | none => exact ih hindices
      | some location => rfl

/-- Without a server the first mirror is where the handler goes wrong. -/
theorem publishFrom_none (hfits : entry.Fits encodingKeySize contentKeySize)
    (c : DownloadCommand) (product : Wow.Product) (indices : List Nat)
    (hindices : ∀ i ∈ indices, i < entry.keys.length) :
    c.publishFrom none product (locationOf entry) indices =
      if indices.filterMap (mirror product.base entry) = [] then .ok c.missing
      else .error .outOfBounds := by
  induction indices with
  | nil => rfl
  | cons i indices ih =>
      obtain ⟨hi, hindices⟩ := List.forall_mem_cons.mp hindices
      rw [DownloadCommand.publishFrom, at_locationOf hfits hi, Exec.ok_bind, List.filterMap_cons,
        mirror_eq product.base hi]
      cases product.base.findArchive entry.keys[i] with
      | none => exact ih hindices
      | some location => rfl

theorem buttons_eq (hfits : entry.Fits encodingKeySize contentKeySize)
    (documentRoot productName : Bytes) (product : Wow.Product) (filePath : Bytes)
    (indices : List Nat) (hindices : ∀ i ∈ indices, i < entry.keys.length) :
    buttons documentRoot productName product filePath (locationOf entry) indices =
      .ok ((indices.filterMap (mirror product.base entry)).map
        (mirrorButton documentRoot productName filePath (locationOf entry))) := by
  induction indices with
  | nil => rfl
  | cons i indices ih =>
      obtain ⟨hi, hindices⟩ := List.forall_mem_cons.mp hindices
      rw [buttons, at_locationOf hfits hi, Exec.ok_bind, ih hindices, Exec.ok_bind,
        List.filterMap_cons, mirror_eq product.base hi]
      cases product.base.findArchive entry.keys[i] with
      | none => rfl
      | some location => rfl

end Loops

/-! ## Links of a published build -/

section Published

variable {Z : Inflate} {digest : Bytes → Digest} {build : Wow.Build Z} {call : Wow.LoadCall}
  {fresh product : Wow.Product} {hashlittle2 : Bytes → UInt32 × UInt32}

theorem findFileNamed_published (hserves : build.Serves digest call)
    (haligned : Wow.Root.Aligned build.root.canSkip build.root.blocks)
    (hload : call.run fresh = .ok (true, product)) (fileName : Bytes) :
    product.findFileNamed hashlittle2 fileName =
      .ok ((build.located hashlittle2 fileName).map locationOf) := by
  have hlocate : build.locate = fun contentKey => (build.entry contentKey).map locationOf := rfl
  rw [hserves.findFileNamed haligned hload, hlocate, Wow.Build.located, Option.map_or,
    Option.map_bind, Option.map_bind]
  rfl

/-- The reply to the download command is a link to the first mirror. -/
theorem publish_published (hserves : build.Serves digest call)
    (haligned : Wow.Root.Aligned build.root.canSkip build.root.blocks)
    (hload : call.run fresh = .ok (true, product)) (c : DownloadCommand) (documentRoot : Bytes) :
    c.publish hashlittle2 (some documentRoot) product =
      .ok (((build.located hashlittle2 c.file).map fun entry =>
        c.answer documentRoot (locationOf entry) (mirrors product.base entry).head?).getD
          c.missing) := by
  rw [DownloadCommand.publish, findFileNamed_published hserves haligned hload, Exec.ok_bind]
  cases hlocated : build.located hashlittle2 c.file with
  | none => rfl
  | some entry =>
      change c.publishFrom _ _ (locationOf entry) (List.range entry.keys.length) = _
      exact publishFrom_eq (Wow.Build.located_fits hlocated) c documentRoot product _
        fun i hi => List.mem_range.mp hi

/-- The message about a file of a published build. -/
def messageOf (build : Wow.Build Z) (hashlittle2 : Bytes → UInt32 × UInt32)
    (documentRoot productName : Bytes) (product : Tactmon.Product) (filePath : Bytes) :
    Option Message :=
  (build.located hashlittle2 filePath).map fun entry =>
    ⟨ascii "Download `" ++ filename filePath ++ ascii "`.",
      decimal entry.keys.length ++ ascii " possible links.",
      (mirrors product entry).map
        (mirrorButton documentRoot productName filePath (locationOf entry))⟩

/-- The message about a tracked file has a button for each mirror. -/
theorem announceFile_published (hserves : build.Serves digest call)
    (haligned : Wow.Root.Aligned build.root.canSkip build.root.blocks)
    (hload : call.run fresh = .ok (true, product)) (documentRoot productName filePath : Bytes) :
    announceFile documentRoot productName hashlittle2 product filePath =
      .ok (messageOf build hashlittle2 documentRoot productName product.base filePath) := by
  rw [announceFile, messageOf, findFileNamed_published hserves haligned hload, Exec.ok_bind]
  cases hlocated : build.located hashlittle2 filePath with
  | none => rfl
  | some entry =>
      have hfits := Wow.Build.located_fits hlocated
      have hkeys : (locationOf entry).keyCount ≠ 0 := Nat.ne_of_gt hfits.keys_pos
      dsimp only [Option.map_some]
      rw [if_neg hkeys, buttons_eq hfits documentRoot productName product filePath
        (List.range (locationOf entry).keyCount) fun i hi => List.mem_range.mp hi]
      rfl

/-- Without a server the handler goes wrong where it would reply with a link. -/
theorem publish_none_iff (hserves : build.Serves digest call)
    (haligned : Wow.Root.Aligned build.root.canSkip build.root.blocks)
    (hload : call.run fresh = .ok (true, product)) (c : DownloadCommand) :
    c.publish hashlittle2 none product = .error .outOfBounds ↔
      ∃ entry, build.located hashlittle2 c.file = some entry ∧
        mirrors product.base entry ≠ [] := by
  rw [DownloadCommand.publish, findFileNamed_published hserves haligned hload, Exec.ok_bind]
  cases hlocated : build.located hashlittle2 c.file with
  | none =>
      refine iff_of_false (fun h => ?_) (fun h => ?_)
      · cases h
      · obtain ⟨entry, hentry, -⟩ := h
        cases hentry
  | some entry =>
      change c.publishFrom _ _ (locationOf entry) (List.range entry.keys.length) = _ ↔ _
      rw [publishFrom_none (Wow.Build.located_fits hlocated) c product _
        fun i hi => List.mem_range.mp hi, ← mirrors]
      simp only [Option.some.injEq, exists_eq_left']
      cases mirrors product.base entry with
      | nil => exact iff_of_false (by rw [if_pos rfl]; simp) (not_not.mpr rfl)
      | cons m ms => exact iff_of_true (if_neg (List.cons_ne_nil m ms)) (List.cons_ne_nil m ms)

/-- The download command for a build that is known and was published.  With the
server, the last reply is a link to the first mirror, or says that there is no
such file.  Without it, the handler says so and goes on, and dereferences a null
pointer exactly where there is a mirror. -/
theorem handle_published (hserves : build.Serves digest call)
    (haligned : Wow.Root.Aligned build.root.canSkip build.root.blocks)
    (hload : call.run fresh = .ok (true, product)) {c : DownloadCommand} {builds : Builds}
    {succeeded : Bool} {load : Bytes → BuildRow → Option Wow.Product} {row : BuildRow}
    (hrow : builds.getByBuildName succeeded c.version c.region = some row)
    (hproduct : c.product = row.productName) (hgiven : load c.product row = some product) :
    (∀ documentRoot, ∃ loading,
      c.handle hashlittle2 (some documentRoot) builds succeeded load =
        ([loading, ((build.located hashlittle2 c.file).map fun entry =>
          c.answer documentRoot (locationOf entry) (mirrors product.base entry).head?).getD
            c.missing], .ok ())) ∧
      ((c.handle hashlittle2 none builds succeeded load).2 = .error .outOfBounds ↔
        ∃ entry, build.located hashlittle2 c.file = some entry ∧
          mirrors product.base entry ≠ []) := by
  constructor
  · intro documentRoot
    refine ⟨⟨c.version, some 0x0000FF00, ascii "Loading... This may take a while.", none, none⟩, ?_⟩
    rw [DownloadCommand.handle, hrow]
    dsimp only
    rw [if_neg (not_not.mpr hproduct), hgiven]
    dsimp only
    rw [publish_published hserves haligned hload]
    rfl
  · rw [DownloadCommand.handle, hrow]
    dsimp only
    rw [if_neg (not_not.mpr hproduct), hgiven]
    dsimp only
    rw [← publish_none_iff hserves haligned hload]
    cases c.publish hashlittle2 none product with
    | error f => simp
    | ok reply => simp

/-- The messages about the tracked files that a published build has. -/
theorem announceFiles_published (hserves : build.Serves digest call)
    (haligned : Wow.Root.Aligned build.root.canSkip build.root.blocks)
    (hload : call.run fresh = .ok (true, product)) (documentRoot productName : Bytes)
    (trackedFiles : List TrackedFile) :
    announceFiles documentRoot productName hashlittle2 product trackedFiles =
      .ok (trackedFiles.filterMap fun trackedFile =>
        messageOf build hashlittle2 documentRoot productName product.base
          trackedFile.filePath) := by
  induction trackedFiles with
  | nil => rfl
  | cons trackedFile trackedFiles ih =>
      rw [announceFiles, announceFile_published hserves haligned hload, Exec.ok_bind, ih,
        Exec.ok_bind, List.filterMap_cons]
      cases messageOf build hashlittle2 documentRoot productName product.base
        trackedFile.filePath with
      | none => rfl
      | some message => rfl

/-- The channels of the product get a thread with the same messages each. -/
theorem announce_of_announceFiles {documentRoot productName : Bytes}
    {trackedFiles : List TrackedFile} {messages : List Message}
    (hfiles : announceFiles documentRoot productName hashlittle2 product trackedFiles =
      .ok messages) (newBuild : NewBuild) (boundChannels : List (Nat × Bytes)) :
    announce documentRoot productName hashlittle2 product newBuild trackedFiles boundChannels =
      .ok ((boundChannels.filter fun channel => channel.2 = productName).map fun channel =>
        ⟨channel.1, threadName newBuild, messages⟩) := by
  induction boundChannels with
  | nil => rfl
  | cons channel boundChannels ih =>
      obtain ⟨channelID, boundProduct⟩ := channel
      rw [announce, List.filter_cons]
      by_cases hbound : boundProduct = productName
      · rw [if_neg (not_not.mpr hbound), hfiles, Exec.ok_bind, ih, Exec.ok_bind,
          if_pos (decide_eq_true hbound)]
        rfl
      · rw [if_pos hbound, ih, if_neg (by simp [hbound])]

/-- The announcement of a published build: a thread for each channel that is
bound to its product, with a message for each tracked file that the build has,
whatever product it is tracked for. -/
theorem announce_published (hserves : build.Serves digest call)
    (haligned : Wow.Root.Aligned build.root.canSkip build.root.blocks)
    (hload : call.run fresh = .ok (true, product)) (documentRoot productName : Bytes)
    (newBuild : NewBuild) (trackedFiles : List TrackedFile) (boundChannels : List (Nat × Bytes)) :
    announce documentRoot productName hashlittle2 product newBuild trackedFiles boundChannels =
      .ok ((boundChannels.filter fun channel => channel.2 = productName).map fun channel =>
        ⟨channel.1, threadName newBuild, trackedFiles.filterMap fun trackedFile =>
          messageOf build hashlittle2 documentRoot productName product.base
            trackedFile.filePath⟩) :=
  announce_of_announceFiles
    (announceFiles_published hserves haligned hload documentRoot productName trackedFiles)
    newBuild boundChannels

/-! ## Following a link -/

/-- A link that is shown for a file: in the reply to a command, or on a button. -/
inductive Shows (documentRoot productName : Bytes) (hashlittle2 : Bytes → UInt32 × UInt32)
    (product : Wow.Product) : Publisher → Bytes → Bytes → Prop where
  | reply {c : DownloadCommand} {embed : Embed} {url : Bytes} : c.product = productName →
      c.publish hashlittle2 (some documentRoot) product = .ok embed → embed.url = some url →
      Shows documentRoot productName hashlittle2 product .downloadCommand c.file url
  | button {filePath : Bytes} {message : Message} {button : Button} :
      announceFile documentRoot productName hashlittle2 product filePath = .ok (some message) →
      button ∈ message.buttons →
      Shows documentRoot productName hashlittle2 product .trackedFile filePath button.url

/-- A link that is shown is made from a mirror of the file. -/
theorem Shows.mirror (hserves : build.Serves digest call)
    (haligned : Wow.Root.Aligned build.root.canSkip build.root.blocks)
    (hload : call.run fresh = .ok (true, product)) {documentRoot productName file url : Bytes}
    {publisher : Publisher}
    (h : Shows documentRoot productName hashlittle2 product publisher file url) :
    ∃ entry, build.located hashlittle2 file = some entry ∧
      ∃ m ∈ mirrors product.base entry,
        url = publisher.link documentRoot productName file (locationOf entry) m.2 := by
  cases h with
  | @reply c embed url hproduct hreply hurl =>
      subst hproduct
      rw [publish_published hserves haligned hload] at hreply
      cases hlocated : build.located hashlittle2 c.file with
      | none =>
          rw [hlocated] at hreply
          cases hreply
          cases hurl
      | some entry =>
          rw [hlocated] at hreply
          refine ⟨entry, rfl, ?_⟩
          cases hfirst : (mirrors product.base entry).head? with
          | none =>
              rw [Option.map_some, hfirst] at hreply
              cases hreply
              cases hurl
          | some m =>
              rw [Option.map_some, hfirst] at hreply
              cases hreply
              cases hurl
              exact ⟨m, List.mem_of_head? hfirst, rfl⟩
  | @button _ message button hmessage hbutton =>
      rw [announceFile_published hserves haligned hload, messageOf] at hmessage
      cases hlocated : build.located hashlittle2 file with
      | none =>
          rw [hlocated] at hmessage
          cases hmessage
      | some entry =>
          rw [hlocated] at hmessage
          cases hmessage
          obtain ⟨m, hm, rfl⟩ := List.mem_map.mp hbutton
          exact ⟨entry, rfl, m, hm, rfl⟩

/-- The archives of the encoding keys are in the files on the CDNs where the
indices say. -/
def Stocked (digest : Bytes → Digest) (archives : EKey → Archive Z) (files : Bytes → Bytes)
    (product : Tactmon.Product) : Prop :=
  ∀ ekey location, product.findArchive ekey = some location →
    (∀ c ∈ location.name, isSeparator c = false) ∧ (archives ekey).chunks ≠ [] ∧
      (archives ekey).Placed digest (files location.name) location.offset location.fileSize

theorem link_size_ne_zero {publisher : Publisher} {entry : Encoding.Entry}
    {location : ArchiveFileLocation} (hsize : 0 < entry.fileSize) (hlt : entry.fileSize < 2 ^ 40)
    (hlocation : 0 < location.fileSize.toNat) :
    publisher.decompressedSize (locationOf entry) location ≠ 0 := by
  cases publisher with
  | downloadCommand =>
      intro h
      have htoNat : (UInt64.ofNat entry.fileSize).toNat = entry.fileSize :=
        UInt64.toNat_ofNat_of_lt' (Nat.lt_trans hlt (by decide))
      rw [show UInt64.ofNat entry.fileSize = 0 from h] at htoNat
      exact Nat.ne_of_lt hsize htoNat
  | trackedFile =>
      intro h
      rw [show location.fileSize = 0 from h] at hlocation
      exact Nat.lt_irrefl 0 hlocation

/-- Following a link that is shown for a file of a published build.  The request
is for the archive of an encoding key that the build has for the file, and what
comes back is the beginning of the contents of that archive, whatever becomes of
the connections, and all of them if the loop over the CDNs ends with its exit. -/
theorem shows_delivers (hserves : build.Serves digest call)
    (haligned : Wow.Root.Aligned build.root.canSkip build.root.blocks)
    (hload : call.run fresh = .ok (true, product)) {archives : EKey → Archive Z}
    {files : Bytes → Bytes} (hstocked : Stocked digest archives files product.base)
    {documentRoot productName file url : Bytes} {publisher : Publisher}
    (hshows : Shows documentRoot productName hashlittle2 product publisher file url)
    (hproduct : ∀ c ∈ productName, isSeparator c = false) (hfile : lastComponent file ≠ [])
    (hback : backslash ∉ publisher.fileName file)
    (hsize : ∀ entry, build.located hashlittle2 file = some entry → 0 < entry.fileSize) :
    ∃ entry ekey params, build.located hashlittle2 file = some entry ∧ ekey ∈ entry.keys ∧
      parseTarget (url.drop documentRoot.length) = .ok params ∧
      ∀ env : Net.Environment,
        (∀ turn ∈ env.turns digest Z params, turn.Honest (files params.archiveName)) →
        Session.fed ((env.turns digest Z params).flatMap Session.Turn.calls) < 2 ^ 63 →
        (processRequest digest Z env (url.drop documentRoot.length)).body <+:
            (archives ekey).contents ∧
          (env.bodyWrites = none → (∃ turn ∈ env.turns digest Z params, turn.exits = true) →
            8 ≤ (Archive.bodies (archives ekey).chunks).length →
            (processRequest digest Z env (url.drop documentRoot.length)).body =
              (archives ekey).contents) := by
  obtain ⟨entry, hlocated, m, hm, rfl⟩ := hshows.mirror hserves haligned hload
  obtain ⟨ekey, hekey, hfound⟩ := mem_mirrors hm
  obtain ⟨hname, hsome, hplaced⟩ := hstocked ekey m.2 hfound
  have hclean : ∀ c ∈ publisher.fileName file, isSeparator c = false := by
    rw [fileName_eq_of_clean hback]
    exact fun c hc => Bool.eq_false_iff.mpr fun hsep => not_mem_lastComponent hsep hc
  have hnonzero : publisher.decompressedSize (locationOf entry) m.2 ≠ 0 :=
    link_size_ne_zero (hsize entry hlocated) (Wow.Build.located_fits hlocated).fileSize_lt
      hplaced.length_pos
  have hparse : parseTarget (targetOf productName m.2 (publisher.fileName file)
      (publisher.decompressedSize (locationOf entry) m.2)) = _ :=
    parseTarget_target hproduct hname hclean (fileName_ne_nil hfile)
  rw [if_neg hnonzero] at hparse
  rw [link_drop]
  exact ⟨entry, ekey, _, hlocated, hekey, hparse, fun env hhonest hfit =>
    processRequest_delivers digest Z env hparse hsome hplaced hhonest hfit⟩

end Published

/-! ## A link to the sample -/

theorem stocked_sample :
    Stocked Digest.leading (fun _ => relayedArchive) (fun _ => relayedFile)
      Wow.loadedSample.base := by
  intro ekey location h
  obtain ⟨entry, hentry, rfl⟩ : ∃ entry, (Wow.indexSample (ascii "0a1b2c")).at ekey = some entry ∧
      (⟨ascii "0a1b2c", entry.offset, entry.size⟩ : ArchiveFileLocation) = location := by
    change List.findSome? _ [_] = _ at h
    rw [List.findSome?_singleton] at h
    obtain ⟨entry, hentry, hlocation⟩ := Option.map_eq_some_iff.mp h
    exact ⟨entry, hentry, hlocation⟩
  have hmem : entry ∈ [(⟨0, 57, 3⟩ : Index.Entry)] := List.mem_of_find?_eq_some hentry
  cases List.mem_singleton.mp hmem
  exact ⟨by decide +kernel, List.cons_ne_nil _ _, relayed_placed⟩

/-- What the command replies with leads to the file. -/
def sampleDownload : DownloadCommand := ⟨ascii "wow", ascii "us", ascii "1.0", ascii "Glue.toc"⟩

theorem sampleDownload_reply :
    sampleDownload.publish (fun _ => (0, 0)) (some (ascii "http://localhost")) Wow.loadedSample =
      .ok (sampleDownload.linked (ascii "http://localhost/wow/0a1b2c/3/57/5/Glue.toc")) := by
  decide

theorem located_sample {entry : Encoding.Entry}
    (h : Wow.Build.sample.located (fun _ => (0, 0)) (ascii "Glue.toc") = some entry) :
    0 < entry.fileSize := by
  have hentry : Wow.Build.sample.located (fun _ => (0, 0)) (ascii "Glue.toc") =
      some ⟨[0xAA], 5, [[1, 2]]⟩ := by decide
  rw [hentry] at h
  cases h
  decide

theorem shows_delivers_sample :
    (processRequest Digest.leading Inflate.copying Net.Environment.relayed
      (ascii "/wow/0a1b2c/3/57/5/Glue.toc")).body = ascii "## Title: Glue addon" := by
  obtain ⟨_, _, params, -, -, hparse, hdelivers⟩ := shows_delivers
    Wow.delivers_sample.serves Wow.aligned_sample Wow.run_sample stocked_sample
    (.reply rfl sampleDownload_reply rfl) (by decide +kernel) (by decide +kernel)
    (by decide) fun entry => located_sample
  have htarget : (ascii "http://localhost/wow/0a1b2c/3/57/5/Glue.toc").drop
      (ascii "http://localhost").length = ascii "/wow/0a1b2c/3/57/5/Glue.toc" := by decide
  have hparams : (⟨ascii "wow", ascii "0a1b2c", 3, 57, 5, ascii "Glue.toc"⟩ : FileQueryParams) =
      params := by
    rw [htarget] at hparse
    exact Except.ok.inj ((by decide : _ = _).trans hparse)
  subst hparams
  rw [htarget] at hdelivers
  exact (hdelivers Net.Environment.relayed (by decide) (by decide)).2 rfl
    (by decide) (by decide)

/-- The build is known. -/
def sampleBuilds : Builds :=
  ⟨[⟨1, ascii "wow", ascii "1.0", ascii "b0", ascii "c0", ascii "us"⟩], List.nodup_singleton _⟩

theorem mirrors_sample :
    Wow.Build.sample.located (fun _ => (0, 0)) (ascii "Glue.toc") =
        some ⟨[0xAA], 5, [[1, 2]]⟩ ∧
      mirrors Wow.loadedSample.base ⟨[0xAA], 5, [[1, 2]]⟩ = [(0, ⟨ascii "0a1b2c", 3, 57⟩)] := by
  decide

/-- A command without a server. -/
theorem handle_published_sample :
    (sampleDownload.handle (fun _ => (0, 0)) none sampleBuilds true
      fun _ _ => some Wow.loadedSample).2 = .error .outOfBounds := by
  refine Iff.mpr (And.right (handle_published Wow.delivers_sample.serves Wow.aligned_sample
    Wow.run_sample rfl rfl rfl)) ⟨_, mirrors_sample.1, ?_⟩
  rw [mirrors_sample.2]
  exact List.cons_ne_nil _ _

/-- Two channels, and a file that is tracked for another product. -/
theorem announce_published_sample :
    announce (ascii "http://localhost") (ascii "wow") (fun _ => (0, 0)) Wow.loadedSample
        ⟨[ascii "us", ascii "eu"],
          ⟨1, ascii "wow", ascii "1.0", ascii "b0", ascii "c0", ascii "us"⟩⟩
        [⟨1, ascii "wow_beta", ascii "Glue.toc", ascii "Glue"⟩]
        [(7, ascii "wow"), (8, ascii "wow_beta")] =
      .ok [⟨7, ascii "1.0 (us, eu)", [⟨ascii "Download `Glue.toc`.", ascii "1 possible links.",
        [⟨ascii "Mirror #0", ascii "http://localhost/wow/0a1b2c/3/57/57/Glue.toc"⟩]⟩]⟩] := by
  rw [announce_published Wow.delivers_sample.serves Wow.aligned_sample Wow.run_sample]
  decide

end Frontend

end Tactmon
