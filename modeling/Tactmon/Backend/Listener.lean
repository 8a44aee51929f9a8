import Tactmon.Backend.RibbitMonitor
import Tactmon.Lib.Grouping
import Tactmon.Lib.Trace
import Tactmon.Tact.BuildConfig

/-!
# The listener for product updates

The listener that `Execute` of `Program.cpp` registers with the monitor.  For
each version of a product it resolves the build configuration, inserts a build
that is not known yet, and gathers the builds it inserted into `newBuilds`.  At
the end every gathered build is loaded, so that links to its files can be
published.

`newBuilds` is captured by reference and never emptied.  A later update loads
every build of the earlier ones again, under the name of its own product
(`notifications_published_iff`).

What the listener captures is a state with a log of its effects.  The world
around it answers by the length of the log, so two questions never have to
have the same answer.
-/

namespace Tactmon

namespace Backend

open Binary Text Grouping

/-! ## The table -/

/-- A row of `builds`. -/
structure BuildRow where
  id : UInt32
  productName : Bytes
  buildName : Bytes
  buildConfig : Bytes
  cdnConfig : Bytes
  region : Bytes
deriving DecidableEq, Repr

/-- The table `builds`. -/
structure Builds where
  rows : List BuildRow
  /-- `builds_pkey`. -/
  unique : (rows.map BuildRow.id).Nodup

namespace Builds

/-- `GetByBuildName`. -/
def getByBuildName (db : Builds) (succeeded : Bool) (buildName region : Bytes) :
    Option BuildRow :=
  executeOne succeeded
    (db.rows.filter fun row => row.buildName = buildName ∧ row.region = region)

theorem insert_unique {rows : List BuildRow} {row : BuildRow}
    (hrows : (rows.map BuildRow.id).Nodup) (hrow : row.id ∉ rows.map BuildRow.id) :
    ((rows ++ [row]).map BuildRow.id).Nodup := nodup_map_concat hrows hrow

/-- `Insert`, of a row with the next value of the sequence. -/
def insert (db : Builds) (succeeded : Bool) (row : BuildRow) : Option BuildRow × Builds :=
  if h : succeeded = true ∧ row.id ∉ db.rows.map BuildRow.id then
    (some row, ⟨db.rows ++ [row], insert_unique db.unique h.2⟩)
  else (none, db)

theorem insert_cases (db : Builds) (succeeded : Bool) (row : BuildRow) :
    ¬ (succeeded = true ∧ row.id ∉ db.rows.map BuildRow.id) ∧
        db.insert succeeded row = (none, db) ∨
      (succeeded = true ∧ row.id ∉ db.rows.map BuildRow.id) ∧
        ∃ db', db.insert succeeded row = (some row, db') ∧ db'.rows = db.rows ++ [row] := by
  rw [insert]
  split
  · rename_i h
    exact .inr ⟨h, _, rfl, rfl⟩
  · rename_i h
    exact .inl ⟨h, rfl⟩

end Builds

/-! ## What the listener captures -/

/-- `NewBuild`. -/
structure NewBuild where
  regions : List Bytes
  configuration : BuildRow
deriving DecidableEq, Repr

/-- A call of `ProductCache::LoadConfiguration`, with the regions its handler
publishes. -/
structure Publication where
  productName : Bytes
  configuration : BuildRow
  regions : List Bytes
deriving DecidableEq, Repr

/-- What the listener does to the world around it. -/
inductive Event where
  /-- Ribbit is asked.  The call returns, or not. -/
  | query (returned : Bool)
  | resolve (use : Use)
  /-- A statement is executed that inserts nothing. -/
  | statement
  | insert (row : BuildRow)
  /-- A configuration is loaded.  The call returns, or not. -/
  | load (publication : Publication) (returned : Bool)
deriving DecidableEq, Repr

/-- What the listener captures by reference. -/
structure Captured where
  newBuilds : List NewBuild
  builds : Builds
  files : Files
  log : List Event

/-- The program starts with nothing gathered. -/
def Captured.start (builds : Builds) (files : Files) : Captured := ⟨[], builds, files, []⟩

/-- Note an effect. -/
def Captured.note (s : Captured) (event : Event) : Captured := { s with log := s.log ++ [event] }

/-- The world around the listener, by the number of effects so far. -/
structure Environment where
  /-- `ProductCache::IsAwareOf`. -/
  isAwareOf : Bytes → Bool
  versions : Nat → Except Thrown (Option (List Ribbit.Versions))
  cdns : Nat → Except Thrown (Option (List Ribbit.CDN))
  /-- The root of the cache. -/
  root : Bytes
  /-- The operating system can look a path up. -/
  namable : Bytes → Bool
  exchange : Nat → Exchange
  /-- A statement succeeds. -/
  statement : Nat → Bool
  /-- `builds_id_seq`. -/
  nextval : Nat → UInt32
  /-- `LoadConfiguration` returns. -/
  load : Nat → Bool

/-! ## The listener -/

section Listener

variable (env : Environment)

/-- `ResourceResolver::ResolveConfiguration`, for a build configuration. -/
def resolveConfiguration (cdns : List Ribbit.CDN) (key : Bytes) (s : Captured) :
    Except Thrown (Option BuildConfig) × Captured :=
  let (result, r) := resolve BuildConfig.handler env.namable
    (fun n => env.exchange (s.log.length + n)) env.root (ascii "config") key cdns ⟨s.files, []⟩
  (result, { s with files := r.files, log := s.log ++ r.log.map .resolve })

/-- The new build belongs to the group of one that was gathered. -/
def sameBuild (buildName : Bytes) (version : Ribbit.Versions)
    (configuration databaseRecord : BuildRow) : Bool :=
  configuration.id = databaseRecord.id ||
    (configuration.buildName = buildName && configuration.cdnConfig = version.cdnConfig &&
      configuration.buildConfig = version.buildConfig)

/-- The regions of a build are gathered. -/
def addBuild (buildName : Bytes) (version : Ribbit.Versions) (databaseRecord : BuildRow) :
    List NewBuild → List NewBuild
  | [] => [⟨[version.region], databaseRecord⟩]
  | build :: newBuilds =>
      if sameBuild buildName version build.configuration databaseRecord then
        { build with regions := build.regions ++ [version.region] } :: newBuilds
      else build :: addBuild buildName version databaseRecord newBuilds

/-- A build is inserted, unless it is known. -/
def insertBuild (productName buildName : Bytes) (version : Ribbit.Versions) (s : Captured) :
    Captured :=
  let existingRow :=
    s.builds.getByBuildName (env.statement s.log.length) buildName version.region
  let s := s.note .statement
  match existingRow with
  | some _ => s
  | none =>
      match s.builds.insert (env.statement s.log.length)
        ⟨env.nextval s.log.length, productName, buildName, version.buildConfig,
          version.cdnConfig, version.region⟩ with
      | (none, builds) => { s with builds }.note .statement
      | (some row, builds) =>
          { s with builds, newBuilds := addBuild buildName version row s.newBuilds }.note
            (.insert row)

/-- The loop over the versions.  It comes to its end, or throws. -/
def onVersions (productName : Bytes) (cdns : List Ribbit.CDN) :
    List Ribbit.Versions → Captured → Bool × Captured
  | [], s => (true, s)
  | version :: versions, s =>
      match resolveConfiguration env cdns version.buildConfig s with
      | (.error _, s) => (false, s)
      | (.ok none, s) => onVersions productName cdns versions s
      | (.ok (some buildConfig), s) =>
          onVersions productName cdns versions
            (insertBuild env productName buildConfig.buildName version s)

/-- How the listener comes to the builds to publish. -/
inductive Collected where
  /-- It returns before. -/
  | left
  | threw
  | ready
deriving DecidableEq, Repr

/-- The listener up to the loop over `newBuilds`. -/
def collect (productName : Bytes) (s : Captured) : Collected × Captured :=
  if !env.isAwareOf productName then (.left, s)
  else
    let versions := env.versions s.log.length
    let s := s.note (.query versions.isOk)
    match versions with
    | .error _ => (.threw, s)
    | .ok versions =>
        let cdns := env.cdns s.log.length
        let s := s.note (.query cdns.isOk)
        match versions, cdns with
        | _, .error _ => (.threw, s)
        | some versions, .ok (some cdns) =>
            match onVersions env productName cdns versions s with
            | (true, s) => (.ready, s)
            | (false, s) => (.threw, s)
        | _, .ok _ => (.left, s)

/-- The loop over `newBuilds`. -/
def publish (productName : Bytes) : List NewBuild → Captured → Bool × Captured
  | [], s => (true, s)
  | newBuild :: newBuilds, s =>
      let publication := ⟨productName, newBuild.configuration, newBuild.regions⟩
      if env.load s.log.length then
        publish productName newBuilds (s.note (.load publication true))
      else (false, s.note (.load publication false))

/-- The listener.  Builds are published where there is a proxy server. -/
def listener (proxyServer : Bool) : Listener Captured := fun productName _ s =>
  match collect env productName s with
  | (.left, s) => (true, s)
  | (.threw, s) => (false, s)
  | (.ready, s) => if proxyServer then publish env productName s.newBuilds s else (true, s)

end Listener

end Backend

end Tactmon
