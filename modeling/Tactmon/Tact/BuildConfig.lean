import Tactmon.Detail.Tokenizer
import Tactmon.Io.MemoryStream
import Tactmon.Lib.Text
import Tactmon.Tact.Key
import Tactmon.Tact.Resource

/-!
# Build configurations

`BuildConfig::Parse` of `tact/config/BuildConfig.cpp`.  A line is split at
spaces and equal signs, and its first token selects a handler.  The handlers
index their tokens, and the loop the lines and their tokens, without looking
at their number first: an empty line, a line of separators, or an `encoding`
line with one key is read past its end.
-/

namespace Tactmon

open Binary Cxx Text Detail

/-- `BuildConfig::Key`. -/
structure KeyPair where
  contentKey : CKey := []
  encodingKey : EKey := []
deriving DecidableEq, Repr

/-- A manifest that a build configuration names. -/
structure ManifestRef where
  key : KeyPair := {}
  size : UInt64 × UInt64 := (0, 0)
deriving DecidableEq, Repr

/-- `config::BuildConfig`. -/
structure BuildConfig where
  root : CKey := []
  install : ManifestRef := {}
  encoding : ManifestRef := {}
  buildName : Bytes := []
deriving DecidableEq, Repr

namespace BuildConfig

/-! ## Handlers -/

/-- `tokens[i]`. -/
def token (tokens : List Bytes) (i : Nat) : Exec Bytes :=
  match tokens[i]? with
  | some token => .ok token
  | none => .error .outOfBounds

/-- `CKey::TryParse` and `EKey::TryParse`, which never fail. -/
def tryParse (value : Bytes) : Exec Bytes := unhex value

/-- The handler of `root`. -/
def rootHandler (config : BuildConfig) (tokens : List Bytes) : Exec (Option BuildConfig) :=
  if tokens.length ≠ 2 then .ok none
  else do
    let root ← tryParse (← token tokens 1)
    .ok (some { config with root })

/-- The handlers of `install` and `encoding`. -/
def keysHandler (set : KeyPair → BuildConfig) (tokens : List Bytes) :
    Exec (Option BuildConfig) :=
  if tokens.length ≠ 3 ∧ tokens.length ≠ 2 then .ok none
  else do
    let contentKey ← tryParse (← token tokens 1)
    let encodingKey ← tryParse (← token tokens 2)
    .ok (some (set ⟨contentKey, encodingKey⟩))

/-- `std::from_chars` into a `std::size_t`. -/
def readSize (token : Bytes) : Option UInt64 := (fromChars 64 token).map UInt64.ofNat

/-- The handlers of `install-size` and `encoding-size`.  The second size is kept
where there is no third token. -/
def sizesHandler (size : UInt64 × UInt64) (set : UInt64 × UInt64 → BuildConfig)
    (tokens : List Bytes) : Exec (Option BuildConfig) :=
  if tokens.length ≠ 3 ∧ tokens.length ≠ 2 then .ok none
  else do
    match readSize (← token tokens 1) with
    | none => .ok none
    | some first =>
        if tokens.length = 3 then
          match readSize (← token tokens 2) with
          | none => .ok none
          | some second => .ok (some (set (first, second)))
        else .ok (some (set (first, size.2)))

/-- The handler of `build-name`. -/
def buildNameHandler (config : BuildConfig) (tokens : List Bytes) : Exec (Option BuildConfig) :=
  if tokens.length ≠ 2 then .ok none
  else do
    let buildName ← token tokens 1
    .ok (some { config with buildName })

/-- The table of handlers. -/
def handlers : List (Bytes × (BuildConfig → List Bytes → Exec (Option BuildConfig))) :=
  [(ascii "root", rootHandler),
    (ascii "install", fun config => keysHandler fun key =>
      { config with install := { config.install with key } }),
    (ascii "install-size", fun config => sizesHandler config.install.size fun size =>
      { config with install := { config.install with size } }),
    (ascii "encoding", fun config => keysHandler fun key =>
      { config with encoding := { config.encoding with key } }),
    (ascii "encoding-size", fun config => sizesHandler config.encoding.size fun size =>
      { config with encoding := { config.encoding with size } }),
    (ascii "build-name", buildNameHandler)]

/-! ## Lines -/

/-- The separators inside a line. -/
def isSeparator (c : UInt8) : Bool := c = 32 || c = 61

/-- The loop over the handlers, for the tokens of a line.  A key that has no
handler is not modelled. -/
def handle (config : BuildConfig) (tokens : List Bytes) : Exec (Option BuildConfig) := do
  let first ← token tokens 0
  match handlers.find? fun handler => handler.1 = first with
  | some handler => handler.2 config tokens
  | none => .ok (some config)

/-- The loop over the lines. -/
def parseLines : BuildConfig → List Bytes → Exec (Option BuildConfig)
  | config, [] => .ok (some config)
  | _, [] :: _ => .error .outOfBounds
  | config, (c :: line) :: lines =>
      if c = 35 then parseLines config lines
      else do
        match ← handle config (tokenizeAny isSeparator true (c :: line)) with
        | none => .ok none
        | some config => parseLines config lines

/-- `BuildConfig::Parse`. -/
def parse {σ : Type} [IReadableStream σ] (stream : σ) : Exec (Option BuildConfig) := do
  let stream := (seekRead stream 0).2
  let contents ← dataBytes stream (getLength stream)
  let lines := tokenize 10 false contents
  if lines.isEmpty then .ok none else parseLines {} lines

/-- The parser that is handed to the resolver.  A file that cannot be mapped
has no contents. -/
def handler : Handler BuildConfig := fun stream =>
  match parse (⟨stream.getD [], 0⟩ : FileStream) with
  | .ok config => .ok config
  | .error f => .error (.fault f)

end BuildConfig

end Tactmon
