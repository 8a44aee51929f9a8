import Tactmon.Tact.BuildConfig

/-!
# CDN configurations

`CDNConfig::Parse` of `tact/config/CDNConfig.cpp`.  The names of the archives
and their sizes come on lines of their own.  The names set the number of
archives, and the sizes are written to archives that are taken to be there.
-/

namespace Tactmon

open Binary Cxx Text Detail

/-- `config::CDNConfig::Archive`. -/
structure CDNConfig.Archive where
  name : Bytes
  size : UInt64
deriving DecidableEq, Repr

/-- `config::CDNConfig`. -/
structure CDNConfig where
  archives : List CDNConfig.Archive
  fileIndex : Option CDNConfig.Archive
deriving DecidableEq, Repr

namespace CDNConfig

open BuildConfig (token readSize isSeparator)

/-- The constructor of `Archive`. -/
def Archive.init : Archive := ⟨[], 0⟩

/-- `archives.resize`, and the loop that sets the names. -/
def setNames (archives : List Archive) (names : List Bytes) : List Archive :=
  (archives.take names.length ++
    List.replicate (names.length - archives.length) Archive.init).zipWith
      (fun archive name => { archive with name }) names

/-- The loop over the sizes. -/
def setSizes : List Archive → List Bytes → Exec (Option (List Archive))
  | archives, [] => .ok (some archives)
  | [], _ :: _ => .error .outOfBounds
  | archive :: archives, token :: tokens =>
      match readSize token with
      | none => .ok none
      | some size => do
          let archives ← setSizes archives tokens
          .ok (archives.map ({ archive with size } :: ·))

/-- The branches of the loop over the lines, for the tokens of a line. -/
def handle (config : CDNConfig) (tokens : List Bytes) : Exec (Option CDNConfig) := do
  let first ← token tokens 0
  if first = ascii "archives" then
    .ok (some { config with archives := setNames config.archives (tokens.drop 1) })
  else if first = ascii "archives-index-size" then do
    let archives ← setSizes config.archives (tokens.drop 1)
    .ok (archives.map fun archives => { config with archives })
  else if first = ascii "file-index" then
    if tokens.length = 1 then .ok none
    else do
      let name ← token tokens 1
      .ok (some { config with fileIndex := some { config.fileIndex.getD Archive.init with name } })
  else if first = ascii "file-index-size" then
    if tokens.length = 1 then .ok none
    else do
      match readSize (← token tokens 1) with
      | none => .ok none
      | some size =>
          .ok (some { config with
            fileIndex := some { config.fileIndex.getD Archive.init with size } })
  else .ok (some config)

/-- The loop over the lines. -/
def parseLines : CDNConfig → List Bytes → Exec (Option CDNConfig)
  | config, [] => .ok (some config)
  | _, [] :: _ => .error .outOfBounds
  | config, (c :: line) :: lines =>
      if c = 35 then parseLines config lines
      else do
        match ← handle config (tokenizeAny isSeparator true (c :: line)) with
        | none => .ok none
        | some config => parseLines config lines

/-- `CDNConfig::Parse`. -/
def parse {σ : Type} [IReadableStream σ] (stream : σ) : Exec (Option CDNConfig) := do
  let stream := (seekRead stream 0).2
  let contents ← dataBytes stream (getLength stream)
  let lines := tokenize 10 true contents
  if lines.isEmpty then .ok none else parseLines ⟨[], none⟩ lines

end CDNConfig

end Tactmon
