import Mathlib.Data.List.DropRight
import Tactmon.Detail.Tokenizer
import Tactmon.Lib.Text
import Tactmon.Tact.Key

/-!
# Links to files

`Server::GenerateAdress` writes a link, and the head of
`Session::ProcessRequest` reads the target of a request.  The two are an
encoder and a decoder of six fields behind slashes.  There are two publishers
of links, `DownloadCommand` and the listener for tracked files.  They differ in
how they take the file name off a path and in the size they pass.

The document root has no path component, so the target of a link is what
follows the root.  Paths are those of a POSIX system, where
`std::filesystem::path` knows `/` as its only separator.

`parseTarget_target` reads back what was written, when no field has a separator
in it.  `parseTarget_clean` says that nothing else is read back.
-/

namespace Tactmon

namespace Net

open Binary Text Detail

/-! ## The target of a request -/

/-- `/`. -/
def slash : UInt8 := 47

/-- `\`. -/
def backslash : UInt8 := 92

/-- `FileQueryParams`. -/
structure FileQueryParams where
  product : Bytes
  archiveName : Bytes
  /-- In the archive. -/
  offset : UInt64
  /-- In the archive. -/
  length : UInt64
  decompressedSize : UInt64
  fileName : Bytes
deriving DecidableEq, Repr

/-- An error response: its status and its body. -/
structure ErrorResponse where
  status : Nat
  body : Bytes
deriving DecidableEq, Repr

/-- `std::from_chars` into a `std::size_t`. -/
def readSize (token : Bytes) : Option UInt64 := (fromChars 64 token).map UInt64.ofNat

/-- The fields of a request, from the tokens behind the first slash. -/
def readFields : List Bytes → Except ErrorResponse FileQueryParams
  | [product, archiveName, offset, length, decompressedSize, fileName] =>
      match readSize offset with
      | none => .error ⟨400, ascii "Invalid range start value"⟩
      | some offset =>
          match readSize length with
          | none => .error ⟨400, ascii "Invalid range length value"⟩
          | some length =>
              match readSize decompressedSize with
              | none => .error ⟨400, ascii "Invalid length"⟩
              | some decompressedSize =>
                  if decompressedSize = 0 then .error ⟨400, ascii "Invalid length"⟩
                  else .ok ⟨product, archiveName, offset, length, decompressedSize, fileName⟩
  | _ => .error ⟨400, ascii "Malformed request"⟩

/-- The validation in `ProcessRequest`. -/
def parseTarget (target : Bytes) : Except ErrorResponse FileQueryParams :=
  if backslash ∈ target then .error ⟨400, ascii "Don't try to exploit me"⟩
  else readFields (tokenize slash false target).tail

/-! ## The publishers -/

/-- `find_last_of`. -/
def findLastOf (isSeparator : UInt8 → Bool) : Bytes → Option Nat
  | [] => none
  | c :: s =>
      match findLastOf isSeparator s with
      | some pos => some (pos + 1)
      | none => if isSeparator c then some 0 else none

/-- What follows the last separator. -/
def afterLast (isSeparator : UInt8 → Bool) (file : Bytes) : Bytes :=
  match findLastOf isSeparator file with
  | some separatorPos => file.drop (separatorPos + 1)
  | none => file

/-- The separators of `DownloadCommand`. -/
def isSeparator (c : UInt8) : Bool := c = slash || c = backslash

/-- `fileNameComponent` of `DownloadCommand`. -/
def fileNameComponent (file : Bytes) : Bytes := afterLast isSeparator file

/-- `std::filesystem::path::filename`, on POSIX. -/
def filename (file : Bytes) : Bytes := afterLast (· = slash) file

/-- `Server::GenerateAdress` of a location in an archive. -/
def generateAdress (documentRoot product : Bytes) (location : ArchiveFileLocation)
    (fileName : Bytes) (decompressedSize : UInt64) : Bytes :=
  documentRoot ++ slashed slash [product, location.name, decimal location.offset.toNat,
    decimal location.fileSize.toNat, decimal decompressedSize.toNat, fileName]

/-- Who publishes a link. -/
inductive Publisher where
  /-- `DownloadCommand::HandleSlashCommand`. -/
  | downloadCommand
  /-- The notification about tracked files in `Execute`. -/
  | trackedFile
deriving DecidableEq, Repr

/-- The file name a publisher takes off a path. -/
def Publisher.fileName : Publisher → Bytes → Bytes
  | .downloadCommand => fileNameComponent
  | .trackedFile => filename

/-- The size a publisher passes on. -/
def Publisher.decompressedSize : Publisher → FileLocation → ArchiveFileLocation → UInt64
  | .downloadCommand, fileLocation, _ => fileLocation.fileSize
  | .trackedFile, _, indexLocation => indexLocation.fileSize

/-- The link a publisher makes. -/
def Publisher.link (publisher : Publisher) (documentRoot product file : Bytes)
    (fileLocation : FileLocation) (indexLocation : ArchiveFileLocation) : Bytes :=
  generateAdress documentRoot product indexLocation (publisher.fileName file)
    (publisher.decompressedSize fileLocation indexLocation)

/-- The last component of a path, components being separated by `/` or `\`. -/
def lastComponent (file : Bytes) : Bytes := file.rtakeWhile fun c => !isSeparator c

/-! ## File names -/

theorem findLastOf_eq_none {isSeparator : UInt8 → Bool} {file : Bytes} :
    findLastOf isSeparator file = none ↔ ∀ c ∈ file, isSeparator c = false := by
  induction file with
  | nil => simp [findLastOf]
  | cons c file ih =>
      rw [findLastOf, List.forall_mem_cons, ← ih]
      cases findLastOf isSeparator file with
      | none => simp
      | some pos => simp

/-- The position found is that of the last separator. -/
theorem afterLast_eq (isSeparator : UInt8 → Bool) (file : Bytes) :
    afterLast isSeparator file = file.rtakeWhile fun c => !isSeparator c := by
  induction file with
  | nil => rfl
  | cons c file ih =>
      rw [afterLast] at ih
      rw [afterLast, findLastOf, List.rtakeWhile, List.reverse_cons, List.takeWhile_append]
      cases hpos : findLastOf isSeparator file with
      | none =>
          rw [hpos] at ih
          have hall := findLastOf_eq_none.mp hpos
          have htake : file.reverse.takeWhile (fun c => !isSeparator c) = file.reverse :=
            List.takeWhile_eq_self_iff.mpr fun x hx => by rw [hall x (List.mem_reverse.mp hx)]; rfl
          rw [htake, if_pos rfl, List.reverse_append, List.reverse_reverse]
          cases hc : isSeparator c with
          | true => simp [hc]
          | false => simp [hc]
      | some pos =>
          rw [hpos] at ih
          have hsep : ∃ x ∈ file, isSeparator x = true := by
            by_contra hno
            have hnone : findLastOf isSeparator file = none :=
              findLastOf_eq_none.mpr fun x hx => Bool.eq_false_iff.mpr fun h => hno ⟨x, hx, h⟩
            rw [hnone] at hpos
            cases hpos
          have hlen : ¬ (file.reverse.takeWhile fun c => !isSeparator c).length =
              file.reverse.length := by
            intro hlen
            obtain ⟨x, hx, hsep⟩ := hsep
            have hself := (List.takeWhile_prefix fun c => !isSeparator c).eq_of_length hlen
            have := List.takeWhile_eq_self_iff.mp hself x (List.mem_reverse.mpr hx)
            rw [hsep] at this
            cases this
          rw [if_neg hlen, ← List.rtakeWhile, ← ih]
          rfl

/-- A coarser cut that gave nothing to cut off again is the finer one. -/
theorem rtakeWhile_congr {p q : UInt8 → Bool} {file : Bytes} (hqp : ∀ c, q c = true → p c = true)
    (hq : ∀ c ∈ file.rtakeWhile p, q c = true) : file.rtakeWhile q = file.rtakeWhile p := by
  have hlist : ∀ l : Bytes, (∀ c ∈ l.takeWhile p, q c = true) → l.takeWhile q = l.takeWhile p := by
    intro l
    induction l with
    | nil => exact fun _ => rfl
    | cons c l ih =>
        intro hl
        rw [List.takeWhile_cons, List.takeWhile_cons] at *
        cases hp : p c with
        | true =>
            rw [hp, if_pos rfl] at hl
            obtain ⟨hc, hl⟩ := List.forall_mem_cons.mp hl
            rw [if_pos hc, if_pos rfl, ih hl]
        | false =>
            have hc : ¬ q c = true := fun h => by rw [hqp c h] at hp; cases hp
            rw [if_neg hc, if_neg Bool.false_ne_true]
  rw [List.rtakeWhile, List.rtakeWhile, hlist file.reverse]
  exact fun c hc => hq c (List.mem_reverse.mpr hc)

theorem isSeparator_iff {c : UInt8} : isSeparator c = true ↔ c = slash ∨ c = backslash := by
  rw [isSeparator, Bool.or_eq_true, decide_eq_true_iff, decide_eq_true_iff]

theorem fileNameComponent_eq (file : Bytes) : fileNameComponent file = lastComponent file :=
  afterLast_eq _ _

theorem filename_eq (file : Bytes) :
    filename file = file.rtakeWhile fun c => !decide (c = slash) := afterLast_eq _ _

theorem not_mem_lastComponent {file : Bytes} {c : UInt8} (h : isSeparator c = true) :
    c ∉ lastComponent file := by
  intro hc
  have := List.mem_rtakeWhile_imp hc
  rw [h] at this
  cases this

/-- No publisher leaves a slash in the file name. -/
theorem slash_not_mem_fileName (publisher : Publisher) (file : Bytes) :
    slash ∉ publisher.fileName file := by
  cases publisher with
  | downloadCommand =>
      rw [Publisher.fileName, fileNameComponent_eq]
      exact not_mem_lastComponent rfl
  | trackedFile =>
      rw [Publisher.fileName, filename_eq]
      intro hc
      have := List.mem_rtakeWhile_imp hc
      cases this

/-- The file name ends where the path ends. -/
theorem fileName_ne_nil {publisher : Publisher} {file : Bytes} (h : lastComponent file ≠ []) :
    publisher.fileName file ≠ [] := by
  cases publisher with
  | downloadCommand => rwa [Publisher.fileName, fileNameComponent_eq]
  | trackedFile =>
      rw [Publisher.fileName, filename_eq, Ne, List.rtakeWhile_eq_nil_iff]
      rw [lastComponent, Ne, List.rtakeWhile_eq_nil_iff] at h
      intro hlast
      refine h fun hne hsep => hlast hne ?_
      rw [Bool.not_eq_true', Bool.eq_false_iff, Ne, isSeparator_iff, not_or] at hsep
      rw [Bool.not_eq_true', decide_eq_false_iff_not]
      exact hsep.1

/-- Without a backslash in it, the file name is the last component. -/
theorem fileName_eq_of_clean {publisher : Publisher} {file : Bytes}
    (h : backslash ∉ publisher.fileName file) : publisher.fileName file = lastComponent file := by
  cases publisher with
  | downloadCommand => exact fileNameComponent_eq file
  | trackedFile =>
      have hslash := slash_not_mem_fileName .trackedFile file
      rw [Publisher.fileName, filename_eq] at h hslash ⊢
      refine (rtakeWhile_congr (fun c hc => ?_) fun c hc => ?_).symm
      · rw [Bool.not_eq_true', Bool.eq_false_iff, Ne, isSeparator_iff, not_or] at hc
        rw [Bool.not_eq_true', decide_eq_false_iff_not]
        exact hc.1
      · rw [Bool.not_eq_true', Bool.eq_false_iff, Ne, isSeparator_iff]
        rintro (rfl | rfl)
        · exact hslash hc
        · exact h hc

/-! ## Reading what was written -/

/-- The six fields behind their slashes. -/
def targetOf (product : Bytes) (location : ArchiveFileLocation) (fileName : Bytes)
    (decompressedSize : UInt64) : Bytes :=
  generateAdress [] product location fileName decompressedSize

theorem targetOf_eq (product : Bytes) (location : ArchiveFileLocation) (fileName : Bytes)
    (decompressedSize : UInt64) :
    targetOf product location fileName decompressedSize =
      slashed slash ([product, location.name, decimal location.offset.toNat,
        decimal location.fileSize.toNat, decimal decompressedSize.toNat] ++ [fileName]) := rfl

theorem link_drop (publisher : Publisher) (documentRoot product file : Bytes)
    (fileLocation : FileLocation) (indexLocation : ArchiveFileLocation) :
    (publisher.link documentRoot product file fileLocation indexLocation).drop
        documentRoot.length =
      targetOf product indexLocation (publisher.fileName file)
        (publisher.decompressedSize fileLocation indexLocation) := by
  rw [Publisher.link, generateAdress, List.drop_left]
  rfl

theorem readSize_decimal (n : UInt64) : readSize (decimal n.toNat) = some n := by
  rw [readSize, fromChars_decimal n.toNat_lt, Option.map_some, UInt64.ofNat_toNat]

theorem separator_not_mem_decimal {n : Nat} {c : UInt8} (h : isSeparator c = true) :
    c ∉ decimal n := by
  rcases isSeparator_iff.mp h with rfl | rfl
  · exact not_mem_decimal rfl
  · exact not_mem_decimal rfl

/-- A target without separators in its fields is read back, unless its last
size is zero. -/
theorem parseTarget_target {product fileName : Bytes} {location : ArchiveFileLocation}
    {decompressedSize : UInt64} (hproduct : ∀ c ∈ product, isSeparator c = false)
    (hname : ∀ c ∈ location.name, isSeparator c = false)
    (hfile : ∀ c ∈ fileName, isSeparator c = false) (hne : fileName ≠ []) :
    parseTarget (targetOf product location fileName decompressedSize) =
      if decompressedSize = 0 then .error ⟨400, ascii "Invalid length"⟩
      else .ok ⟨product, location.name, location.offset, location.fileSize, decompressedSize,
        fileName⟩ := by
  have hfree : ∀ {s : Bytes} {c : UInt8}, (∀ x ∈ s, isSeparator x = false) →
      isSeparator c = true → c ∉ s := fun hs hc hmem => by rw [hs _ hmem] at hc; cases hc
  have hpieces : ∀ c, isSeparator c = true → ∀ piece ∈ [product, location.name,
      decimal location.offset.toNat, decimal location.fileSize.toNat,
      decimal decompressedSize.toNat], c ∉ piece := by
    intro c hc
    simp only [List.forall_mem_cons]
    exact ⟨hfree hproduct hc, hfree hname hc, separator_not_mem_decimal hc,
      separator_not_mem_decimal hc, separator_not_mem_decimal hc,
      fun _ h => absurd h List.not_mem_nil⟩
  have hback : backslash ∉ targetOf product location fileName decompressedSize := by
    rw [targetOf_eq, slashed, List.mem_flatMap]
    rintro ⟨piece, hpiece, hmem⟩
    rcases List.mem_cons.mp hmem with hc | hmem
    · cases hc
    · rcases List.mem_append.mp hpiece with hpiece | hpiece
      · exact hpieces backslash rfl piece hpiece hmem
      · rw [List.mem_singleton.mp hpiece] at hmem
        exact hfree hfile rfl hmem
  have htokens := tokenize_slashed (List.not_mem_nil : slash ∉ []) (hpieces slash rfl)
    (hfree hfile rfl) hne
  rw [List.nil_append] at htokens
  rw [parseTarget, if_neg hback, targetOf_eq, htokens, List.tail_cons]
  simp only [List.cons_append, List.nil_append, readFields, readSize_decimal]

theorem length_of_readFields {tokens : List Bytes} {params : FileQueryParams}
    (h : readFields tokens = .ok params) : tokens.length = 6 := by
  rw [readFields.eq_def] at h
  split at h
  · rfl
  · cases h

/-- A target that is accepted has no separator in its archive name. -/
theorem parseTarget_clean {product fileName : Bytes} {location : ArchiveFileLocation}
    {decompressedSize : UInt64} {params : FileQueryParams} (hslash : slash ∉ fileName)
    (hne : fileName ≠ [])
    (h : parseTarget (targetOf product location fileName decompressedSize) = .ok params) :
    (∀ c ∈ location.name, isSeparator c = false) ∧ backslash ∉ fileName := by
  rw [parseTarget] at h
  split at h
  · cases h
  rename_i hback
  rw [targetOf_eq, slashed, List.mem_flatMap] at hback
  have hpiece : ∀ piece ∈ [product, location.name, decimal location.offset.toNat,
      decimal location.fileSize.toNat, decimal decompressedSize.toNat] ++ [fileName],
      backslash ∉ piece :=
    fun piece hpiece hmem => hback ⟨piece, hpiece, List.mem_cons_of_mem _ hmem⟩
  have hcount := length_of_readFields h
  have htarget : targetOf product location fileName decompressedSize =
      slashed slash [product, location.name, decimal location.offset.toNat,
        decimal location.fileSize.toNat, decimal decompressedSize.toNat] ++ [slash] ++
        fileName := by
    rw [targetOf_eq, slashed, slashed, List.flatMap_append, List.append_assoc,
      List.flatMap_singleton, List.singleton_append]
  rw [List.length_tail, htarget, tokenize_length hslash hne, List.count_append, slashed] at hcount
  simp only [List.flatMap_cons, List.flatMap_nil, List.count_append, List.count_cons_self,
    List.count_nil] at hcount
  have hname : slash ∉ location.name := List.count_eq_zero.mp (by omega)
  refine ⟨fun c hc => Bool.eq_false_iff.mpr fun hsep => ?_, hpiece fileName (by simp)⟩
  rcases isSeparator_iff.mp hsep with rfl | rfl
  · exact hname hc
  · exact hpiece location.name (by simp) hc

/-! ## Links are understood as meant -/

/-- What a link for a file is to be understood as. -/
def meant (product file : Bytes) (fileLocation : FileLocation)
    (indexLocation : ArchiveFileLocation) : FileQueryParams :=
  ⟨product, indexLocation.name, indexLocation.offset, indexLocation.fileSize,
    fileLocation.fileSize, lastComponent file⟩

/-- The archive name has no separator.  For a tracked file, the sizes in and out
of the archive are the same, and no backslash follows the last slash of the
path. -/
def Publisher.Faithful (publisher : Publisher) (file : Bytes) (fileLocation : FileLocation)
    (indexLocation : ArchiveFileLocation) : Prop :=
  (∀ c ∈ indexLocation.name, isSeparator c = false) ∧
    (publisher = .trackedFile → indexLocation.fileSize = fileLocation.fileSize ∧
      backslash ∉ filename file)

/-- The server understands a published link as meant exactly when the archive
name has no separator and, for a tracked file, the file is stored at its
decompressed size under a name without a backslash. -/
theorem Publisher.parseTarget_link_iff (publisher : Publisher) (documentRoot product file : Bytes)
    (fileLocation : FileLocation) (indexLocation : ArchiveFileLocation)
    (hproduct : ∀ c ∈ product, isSeparator c = false) (hfile : lastComponent file ≠ [])
    (hsize : 0 < fileLocation.fileSize) :
    parseTarget ((publisher.link documentRoot product file fileLocation indexLocation).drop
        documentRoot.length) = .ok (meant product file fileLocation indexLocation) ↔
      publisher.Faithful file fileLocation indexLocation := by
  have hne : publisher.fileName file ≠ [] := fileName_ne_nil hfile
  rw [link_drop]
  constructor
  · intro h
    obtain ⟨hname, hback⟩ := parseTarget_clean (slash_not_mem_fileName publisher file) hne h
    refine ⟨hname, fun htracked => ?_⟩
    subst htracked
    have hclean : ∀ c ∈ Publisher.trackedFile.fileName file, isSeparator c = false := by
      rw [fileName_eq_of_clean hback]
      exact fun c hc => Bool.eq_false_iff.mpr fun hsep => not_mem_lastComponent hsep hc
    rw [parseTarget_target hproduct hname hclean hne] at h
    split at h
    · cases h
    · rw [Except.ok.injEq, FileQueryParams.mk.injEq] at h
      exact ⟨h.2.2.2.2.1, hback⟩
  · rintro ⟨hname, htracked⟩
    have hback : backslash ∉ publisher.fileName file := by
      cases publisher with
      | downloadCommand =>
          rw [Publisher.fileName, fileNameComponent_eq]
          exact not_mem_lastComponent rfl
      | trackedFile => exact (htracked rfl).2
    have hlast := fileName_eq_of_clean hback
    have hclean : ∀ c ∈ publisher.fileName file, isSeparator c = false := by
      rw [hlast]
      exact fun c hc => Bool.eq_false_iff.mpr fun hsep => not_mem_lastComponent hsep hc
    have hsizes : publisher.decompressedSize fileLocation indexLocation =
        fileLocation.fileSize := by
      cases publisher with
      | downloadCommand => rfl
      | trackedFile => exact (htracked rfl).1
    have hpos : fileLocation.fileSize ≠ 0 := fun h => by rw [h] at hsize; cases hsize
    rw [parseTarget_target hproduct hname hclean hne, hsizes, if_neg hpos, hlast]
    rfl

/-- A tracked file of 100 bytes that takes 40 in its archive is linked to with
the wrong size. -/
theorem Publisher.trackedFile_link_wrong :
    lastComponent (ascii "Interface/Glue.toc") ≠ [] ∧
      parseTarget ((Publisher.trackedFile.link (ascii "http://localhost") (ascii "wow")
        (ascii "Interface/Glue.toc") ⟨100, 1, [0xAB]⟩ ⟨ascii "0a1b", 5, 40⟩).drop 16) ≠
      .ok (meant (ascii "wow") (ascii "Interface/Glue.toc") ⟨100, 1, [0xAB]⟩
        ⟨ascii "0a1b", 5, 40⟩) := by
  decide

/-- The other publisher passes the size of the file itself. -/
theorem Publisher.parseTarget_link_sample :
    parseTarget ((Publisher.downloadCommand.link (ascii "http://localhost") (ascii "wow")
        (ascii "Interface/Glue.toc") ⟨100, 1, [0xAB]⟩ ⟨ascii "0a1b", 5, 40⟩).drop
        (ascii "http://localhost").length) =
      .ok (meant (ascii "wow") (ascii "Interface/Glue.toc") ⟨100, 1, [0xAB]⟩
        ⟨ascii "0a1b", 5, 40⟩) :=
  (Publisher.parseTarget_link_iff .downloadCommand (ascii "http://localhost") (ascii "wow")
    (ascii "Interface/Glue.toc") ⟨100, 1, [0xAB]⟩ ⟨ascii "0a1b", 5, 40⟩ (by decide +kernel)
    (by decide +kernel) (by decide)).mpr ⟨by decide +kernel, fun h => by cases h⟩

end Net

end Tactmon
