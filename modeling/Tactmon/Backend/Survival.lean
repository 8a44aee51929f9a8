import Tactmon.Backend.Monitor
import Tactmon.Tact.BuildGrammar
import Tactmon.Tact.Caching

/-!
# What the monitor survives

The responses and the files behind which one wait is always left.

`Resolve` makes a path from the characters of a key, asks the operating system
for it, and parses what lies there or what a host sends.  So a run is harmless
where every key of a version has the two characters, every path can be looked
up, and every configuration at hand keeps its lines inside of their tokens
(`Environment.Harmless`); a key that is too short stops the listener at once
(`onVersions_short`).  The invariant of a run is that the files under the
paths at stake are of that kind, and that the log has nothing unsafe but calls
of `LoadConfiguration` (`Captured.Calm`).
-/

namespace Tactmon

open Binary Text

/-! ## Files that can be read -/

/-- The exchange comes to its end, and a body that is kept is fine. -/
structure Exchange.Delivers (Fine : Bytes → Prop) (e : Exchange) : Prop where
  returns : e.returns = true
  fine : ∀ body completed shutdown, e = .answered statusOk body completed shutdown → Fine body

section Resolve

variable {R : Type} (handler : Handler R) (namable : Bytes → Bool) (paths : Bytes → Prop)
  (Fine : Bytes → Bytes → Prop)

namespace Resolution

/-- All that was asked has an answer, and each file under one of the paths is
fine there. -/
structure Tidy (s : Resolution) : Prop where
  safe : ∀ use ∈ s.log, use.Safe handler namable
  files : ∀ path, paths path → ∀ contents, s.files path = some contents → Fine path contents

variable {handler namable paths Fine} {s : Resolution}

theorem Tidy.note (h : s.Tidy handler namable paths Fine) {use : Use}
    (huse : use.Safe handler namable) : (s.note use).Tidy handler namable paths Fine where
  safe := List.forall_mem_append.mpr ⟨h.safe, List.forall_mem_singleton.mpr huse⟩
  files := h.files

theorem Tidy.erase (h : s.Tidy handler namable paths Fine) (path : Bytes) :
    Tidy handler namable paths Fine { s with files := Function.update s.files path none } where
  safe := h.safe
  files := by
    intro p hp contents hfile
    by_cases hpath : p = path
    · subst hpath
      cases (Function.update_self p none s.files).symm.trans hfile
    · exact h.files p hp contents ((Function.update_of_ne hpath none s.files).symm.trans hfile)

end Resolution

variable {handler namable paths Fine} {network : Nat → Exchange}

theorem finishDownload_fine {files files' : Files} {path body : Bytes} {status : Nat}
    {shutdown : Bool} {result : Except Thrown (Option (Option Bytes))}
    (hfine : status = statusOk → Fine path body) (hshutdown : shutdown = true)
    (h : finishDownload files path status body shutdown = (result, files')) :
    ∀ contents, files' path = some contents → Fine path contents := by
  intro contents hfile
  rw [finishDownload, if_pos hshutdown] at h
  split at h
  · cases h
    rw [Function.update_self] at hfile
    cases hfile
  · rename_i hstatus
    cases h
    rw [Function.update_self] at hfile
    cases hfile
    exact hfine (not_not.mp hstatus)

/-- What a download leaves under its path is fine. -/
theorem runDownload_fine {files files' : Files} {path : Bytes} {exchange : Exchange}
    {result : Except Thrown (Option (Option Bytes))} (hempty : Fine path [])
    (hexchange : exchange.Delivers (Fine path))
    (hbefore : ∀ contents, files path = some contents → Fine path contents)
    (h : runDownload files path exchange = (result, files')) :
    ∀ contents, files' path = some contents → Fine path contents := by
  cases exchange with
  | threw =>
      cases h
      exact hbefore
  | unreachable =>
      cases h
      exact hbefore
  | noDirectory =>
      cases h
      exact hbefore
  | noFile =>
      cases h
      exact hbefore
  | headerless shutdown => exact finishDownload_fine (fun _ => hempty) hexchange.returns h
  | answered status body completed shutdown =>
      refine finishDownload_fine (fun hstatus => ?_) hexchange.returns h
      subst hstatus
      exact hexchange.fine body completed shutdown rfl

variable (hparse : ∀ path contents, Fine path contents →
    (handler (openFile (some contents))).isOk = true)
  (hempty : ∀ path, Fine path [])
  (hnetwork : ∀ n path, (network n).Delivers (Fine path))

include hparse

/-- The parser returns on a file that is fine. -/
theorem safe_parse {path contents : Bytes} (h : Fine path contents) (cached : Bool) :
    (Use.parse cached (openFile (some contents))).Safe handler namable := by
  have hok := hparse path contents h
  rw [Use.Safe]
  cases hresult : handler (openFile (some contents)) with
  | ok value => trivial
  | error e =>
      rw [hresult] at hok
      cases hok

theorem cacheResolve_tidy {path : Bytes} (hpath : paths path) {s : Resolution}
    (h : s.Tidy handler namable paths Fine) :
    (cacheResolve handler path s).2.Tidy handler namable paths Fine := by
  rw [cacheResolve]
  cases hfile : s.files path with
  | none => exact h
  | some contents =>
      have hnote : (s.note (.parse true (openFile (some contents)))).Tidy handler namable paths
          Fine := h.note (safe_parse hparse (h.files path hpath contents hfile) true)
      dsimp only
      cases handler (openFile (some contents)) with
      | ok value => exact hnote
      | error e =>
          cases e with
          | exception => exact hnote.erase path
          | fault f => exact hnote

include hempty hnetwork

theorem resolveHosts_tidy {path : Bytes} (hpath : paths path) (hosts : List Bytes) :
    ∀ {s : Resolution}, s.Tidy handler namable paths Fine →
      (resolveHosts handler network path hosts s).2.Tidy handler namable paths Fine := by
  induction hosts with
  | nil => exact fun h => h
  | cons host hosts ih =>
      intro s h
      rw [resolveHosts]
      cases hrun : runDownload s.files path (network s.log.length) with
      | mk result files =>
          have hfile := runDownload_fine (hempty path) (hnetwork s.log.length path)
            (h.files path hpath) hrun
          have hdownload : ∀ returned, (s.download path (network s.log.length) files
              returned).Tidy handler namable paths Fine := by
            intro returned
            refine ⟨List.forall_mem_append.mpr ⟨h.safe, List.forall_mem_singleton.mpr
              (hnetwork s.log.length path).returns⟩, fun p hp contents hcontents => ?_⟩
            by_cases hsame : p = path
            · subst hsame
              exact hfile contents hcontents
            · have hframe := runDownload_frame s.files (network s.log.length) hsame
              rw [hrun] at hframe
              exact h.files p hp contents (hframe.symm.trans hcontents)
          cases result with
          | error e => exact hdownload false
          | ok stream =>
              cases stream with
              | none => exact ih (hdownload false)
              | some stream =>
                  obtain ⟨contents, hcontents, rfl⟩ := runDownload_some hrun
                  have hsafe : (Use.parse false (openFile (some contents))).Safe handler
                      namable := safe_parse hparse (hfile contents hcontents) false
                  dsimp only
                  cases handler (openFile (some contents)) with
                  | error e => exact (hdownload false).note hsafe
                  | ok value =>
                      cases value with
                      | none => exact ih ((hdownload false).note hsafe)
                      | some value => exact (hdownload true).note hsafe

/-- A call with a key and paths that can be used asks for nothing that has no
answer. -/
theorem resolve_tidy {root kind key : Bytes} {cdns : List Ribbit.CDN}
    (hcdns : ∀ cdn ∈ cdns, 2 ≤ key.length ∧
      namable (getAbsolutePath root (resourcePath cdn kind key)) = true ∧
      paths (getAbsolutePath root (resourcePath cdn kind key))) :
    ∀ {s : Resolution}, s.Tidy handler namable paths Fine →
      (resolve handler namable network root kind key cdns s).2.Tidy handler namable paths
        Fine := by
  induction cdns with
  | nil => exact fun h => h
  | cons cdn cdns ih =>
      intro s h
      obtain ⟨⟨hkey, hname, hpath⟩, hcdns⟩ := List.forall_mem_cons.mp hcdns
      have hkeyed : (s.note (.key key)).Tidy handler namable paths Fine := h.note hkey
      have hlookup : ((s.note (.key key)).note (.lookup (getAbsolutePath root
          (resourcePath cdn kind key)))).Tidy handler namable paths Fine := hkeyed.note hname
      have hcache := cacheResolve_tidy hparse hpath hlookup
      rw [resolve]
      dsimp only
      split
      · exact hkeyed
      · split
        · exact hlookup
        · split
          · rename_i s' hcached
            rw [hcached] at hcache
            have hhosts := resolveHosts_tidy hparse hempty hnetwork hpath cdn.hosts hcache
            split
            · rename_i s'' hresult
              rw [hresult] at hhosts
              exact ih hcdns hhosts
            · exact hhosts
          · exact hcache

end Resolve

/-! ## Build configurations -/

namespace BuildConfig

/-- The text of lines that are read inside of their tokens, in a file that a
stream can hold. -/
def Readable (contents : Bytes) : Prop :=
  contents.length < 2 ^ 63 ∧ ∃ lines : List ConfigLine, (∀ line ∈ lines, line.WellFormed) ∧
    ConfigLine.joined lines = contents ∧ ConfigLine.InBounds lines

theorem readable_nil : Readable [] :=
  ⟨Nat.two_pow_pos 63, [], fun _ h => absurd h List.not_mem_nil, rfl, trivial⟩

/-- The parser returns on a text that can be read. -/
theorem handler_readable {contents : Bytes} (h : Readable contents) :
    (handler (openFile (some contents))).isOk = true := by
  obtain ⟨hfits, lines, hlines, rfl, hbounds⟩ := h
  have hstream : (openFile (some (ConfigLine.joined lines))).getD [] =
      ConfigLine.joined lines := by
    cases ConfigLine.joined lines with
    | nil => rfl
    | cons b bs => rfl
  obtain ⟨result, hresult⟩ := parse_inBounds hlines
    (FileStream.ofBuffer_rep ⟨ConfigLine.joined lines, hfits⟩) hbounds
  have hparse : parse (⟨(openFile (some (ConfigLine.joined lines))).getD [], 0⟩ : FileStream) =
      .ok result := by
    rw [hstream]
    exact hresult
  rw [handler, hparse]
  rfl

end BuildConfig

namespace Backend

/-! ## Harmless responses -/

namespace Environment

/-- A version and a CDN of the responses to one notification. -/
def Asks (env : Environment) (version : Ribbit.Versions) (cdn : Ribbit.CDN) : Prop :=
  ∃ n versions cdns, env.versions n = .ok (some versions) ∧ env.cdns (n + 1) = .ok (some cdns) ∧
    version ∈ versions ∧ cdn ∈ cdns

/-- Where the build configuration of a version is cached. -/
def configPath (env : Environment) (version : Ribbit.Versions) (cdn : Ribbit.CDN) : Bytes :=
  getAbsolutePath env.root (resourcePath cdn (ascii "config") version.buildConfig)

/-- The body of a response with status 200, as much of it as arrived. -/
def Delivered (env : Environment) (contents : Bytes) : Prop :=
  ∃ n completed shutdown, env.exchange n = .answered statusOk contents completed shutdown

/-- No call of the network throws, and the directories of a download can be made. -/
structure Returns (env : Environment) : Prop where
  versions : ∀ n, (env.versions n).isOk = true
  cdns : ∀ n, (env.cdns n).isOk = true
  exchange : ∀ n, (env.exchange n).returns = true

/-- Where there is a CDN, the keys have the two characters of a directory, and
the operating system can look up the paths made from them.  What is cached
there, or delivered, is read inside of the tokens of its lines. -/
structure Harmless (env : Environment) (files : Files) : Prop where
  key : ∀ version cdn, env.Asks version cdn → 2 ≤ version.buildConfig.length
  namable : ∀ version cdn, env.Asks version cdn → env.namable (env.configPath version cdn) = true
  cached : ∀ version cdn contents, env.Asks version cdn →
    files (env.configPath version cdn) = some contents → BuildConfig.Readable contents
  delivered : ∀ contents, env.Delivered contents → BuildConfig.Readable contents

/-- Statements succeed, and the table has the build of each configuration that
is cached or delivered. -/
structure Knows (env : Environment) (builds : Builds) (files : Files) : Prop where
  statement : ∀ n, env.statement n = true
  build : ∀ version cdn contents config, env.Asks version cdn →
    files (env.configPath version cdn) = some contents ∨ env.Delivered contents →
    BuildConfig.handler (openFile (some contents)) = .ok (some config) →
      (builds.getByBuildName true config.buildName version.region).isSome = true

/-- A path the listener may look up. -/
def AtStake (env : Environment) (path : Bytes) : Prop :=
  ∃ version cdn, env.Asks version cdn ∧ path = env.configPath version cdn

/-- A file of this run: it was there, or is what a download has left. -/
structure Fine (env : Environment) (files : Files) (path contents : Bytes) : Prop where
  readable : BuildConfig.Readable contents
  source : contents = [] ∨ files path = some contents ∨ env.Delivered contents

end Environment

section Listener

variable (env : Environment) (proxyServer : Bool) (builds : Builds) (files : Files)

/-- What was done so far has an end, but for what is published.  The files at
stake are of this run, and without a new build nothing is gathered. -/
structure Captured.Calm (s : Captured) : Prop where
  log : ∀ event ∈ s.log, event.Safe env ∨ (proxyServer = true ∧ ¬ env.Knows builds files) ∧
    ∃ publication, event = .load publication false
  cached : ∀ path, env.AtStake path → ∀ contents, s.files path = some contents →
    env.Fine files path contents
  known : env.Knows builds files → s.newBuilds = [] ∧ s.builds = builds

variable {env proxyServer builds files} {s : Captured}

theorem Captured.Calm.note (h : s.Calm env proxyServer builds files) {event : Event}
    (hevent : event.Safe env ∨ (proxyServer = true ∧ ¬ env.Knows builds files) ∧
      ∃ publication, event = .load publication false) :
    (s.note event).Calm env proxyServer builds files where
  log := List.forall_mem_append.mpr ⟨h.log, List.forall_mem_singleton.mpr hevent⟩
  cached := h.cached
  known := h.known

/-- What is gathered does not matter where a build is new. -/
theorem Captured.Calm.gather (h : s.Calm env proxyServer builds files)
    (hnew : ¬ env.Knows builds files) (newBuilds : List NewBuild) (builds' : Builds) :
    Captured.Calm env proxyServer builds files { s with newBuilds, builds := builds' } where
  log := h.log
  cached := h.cached
  known := fun hknows => absurd hknows hnew

/-- A configuration that was resolved is a file of this run. -/
theorem resolveConfiguration_some {cdns : List Ribbit.CDN} {key : Bytes} {s' : Captured}
    {config : BuildConfig} (h : resolveConfiguration env cdns key s = (.ok (some config), s')) :
    ∃ cdn ∈ cdns, Stored BuildConfig.handler s'.files
      (getAbsolutePath env.root (resourcePath cdn (ascii "config") key)) config := by
  rw [resolveConfiguration] at h
  obtain ⟨hresult, rfl⟩ := Prod.mk.inj h
  exact ResolveCall.resolve_some (Prod.ext hresult rfl)

/-- A key without the two characters ends the loop wherever there is a CDN. -/
theorem onVersions_short {productName : Bytes} {cdns : List Ribbit.CDN} (hcdns : cdns ≠ [])
    {versions : List Ribbit.Versions}
    (hshort : ∃ version ∈ versions, version.buildConfig.length < 2) :
    ∀ s : Captured, (onVersions env productName cdns versions s).1 = false := by
  induction versions with
  | nil =>
      obtain ⟨version, hversion, -⟩ := hshort
      cases hversion
  | cons version versions ih =>
      intro s
      rw [onVersions]
      rcases (List.exists_mem_cons_iff ..).mp hshort with hkey | hshort
      · have hthrows : (resolveConfiguration env cdns version.buildConfig s).1 =
            .error .exception := by
          cases cdns with
          | nil => exact absurd rfl hcdns
          | cons cdn cdns =>
              rw [resolveConfiguration, resolve, if_pos hkey]
        split
        · rfl
        · rename_i s' hs'
          rw [hs'] at hthrows
          cases hthrows
        · rename_i config s' hs'
          rw [hs'] at hthrows
          cases hthrows
      · split
        · rfl
        · exact ih hshort _
        · exact ih hshort _

/-- A build is inserted only where it is new. -/
theorem insertBuild_calm {productName buildName : Bytes} {version : Ribbit.Versions}
    (hknown : env.Knows builds files →
      (builds.getByBuildName true buildName version.region).isSome = true)
    (h : s.Calm env proxyServer builds files) :
    (insertBuild env productName buildName version s).Calm env proxyServer builds files := by
  have hasked : (s.note .statement).Calm env proxyServer builds files := h.note (.inl trivial)
  rw [insertBuild]
  split
  · exact hasked
  · rename_i hmissing
    have hnew : ¬ env.Knows builds files := by
      intro hknows
      have hsome := hknown hknows
      rw [hknows.statement, (h.known hknows).2] at hmissing
      rw [hmissing] at hsome
      cases hsome
    split
    · exact (hasked.gather hnew _ _).note (.inl trivial)
    · exact (hasked.gather hnew _ _).note (.inl trivial)

variable (hreturns : env.Returns) (hharmless : env.Harmless files)

include hreturns hharmless

theorem exchange_delivers (n : Nat) (path : Bytes) :
    (env.exchange n).Delivers (env.Fine files path) where
  returns := hreturns.exchange n
  fine body completed shutdown hbody :=
    have hdelivered : env.Delivered body := ⟨n, completed, shutdown, hbody⟩
    ⟨hharmless.delivered body hdelivered, .inr (.inr hdelivered)⟩

theorem resolveConfiguration_calm {cdns : List Ribbit.CDN} {version : Ribbit.Versions}
    (hcdns : ∀ cdn ∈ cdns, env.Asks version cdn)
    (h : s.Calm env proxyServer builds files) :
    (resolveConfiguration env cdns version.buildConfig s).2.Calm env proxyServer builds
      files := by
  have htidy := resolve_tidy (s := ⟨s.files, []⟩)
    (fun path contents hfine => BuildConfig.handler_readable hfine.readable)
    (fun path => ⟨BuildConfig.readable_nil, .inl rfl⟩)
    (fun n path => exchange_delivers hreturns hharmless (s.log.length + n) path)
    (fun cdn hcdn => ⟨hharmless.key version cdn (hcdns cdn hcdn),
      hharmless.namable version cdn (hcdns cdn hcdn), version, cdn, hcdns cdn hcdn, rfl⟩)
    ⟨fun use huse => absurd huse List.not_mem_nil, h.cached⟩
  exact {
    log := by
      refine List.forall_mem_append.mpr ⟨h.log, ?_⟩
      rw [List.forall_mem_map]
      exact fun use huse => .inl (htidy.safe use huse)
    cached := htidy.files
    known := h.known }

theorem onVersions_calm {productName : Bytes} {cdns : List Ribbit.CDN}
    {versions : List Ribbit.Versions}
    (hversions : ∀ version ∈ versions, ∀ cdn ∈ cdns, env.Asks version cdn) :
    ∀ {s : Captured}, s.Calm env proxyServer builds files →
      (onVersions env productName cdns versions s).2.Calm env proxyServer builds files := by
  induction versions with
  | nil => exact fun h => h
  | cons version versions ih =>
      intro s h
      obtain ⟨hversion, hversions⟩ := List.forall_mem_cons.mp hversions
      have hresolve := resolveConfiguration_calm hreturns hharmless hversion h
      rw [onVersions]
      split
      · rename_i s' hs'
        rw [hs'] at hresolve
        exact hresolve
      · rename_i s' hs'
        rw [hs'] at hresolve
        exact ih hversions hresolve
      · rename_i config s' hs'
        rw [hs'] at hresolve
        refine ih hversions (insertBuild_calm (fun hknows => ?_) hresolve)
        obtain ⟨cdn, hcdn, contents, hfile, hconfig⟩ := resolveConfiguration_some hs'
        have hasks := hversion cdn hcdn
        have hfine := hresolve.cached _ ⟨version, cdn, hasks, rfl⟩ contents hfile
        rcases hfine.source with rfl | hsource
        · cases hconfig
        · exact hknows.build version cdn contents config hasks hsource hconfig

theorem collect_calm (productName : Bytes) (h : s.Calm env proxyServer builds files) :
    (collect env productName s).2.Calm env proxyServer builds files := by
  rw [collect]
  split
  · exact h
  · dsimp only
    have hasked : (s.note (.query (env.versions s.log.length).isOk)).Calm env proxyServer builds
        files := h.note (.inl (hreturns.versions _))
    have hready : ((s.note (.query (env.versions s.log.length).isOk)).note (.query
        (env.cdns (s.note (.query (env.versions s.log.length).isOk)).log.length).isOk)).Calm env
        proxyServer builds files := hasked.note (.inl (hreturns.cdns _))
    split
    · exact hasked
    · rename_i found hfound
      split
      · exact hready
      · rename_i versions cdns hcdns
        have hlength : (s.note (.query (env.versions s.log.length).isOk)).log.length =
            s.log.length + 1 := List.length_append
        have hasks : ∀ version ∈ versions, ∀ cdn ∈ cdns, env.Asks version cdn :=
          fun version hversion cdn hcdn => ⟨s.log.length, versions, cdns, hfound,
            hlength ▸ hcdns, hversion, hcdn⟩
        have hloop : (onVersions env productName cdns versions _).2.Calm env proxyServer builds
            files := onVersions_calm hreturns hharmless hasks hready
        split
        · rename_i s' hs'
          rw [hs'] at hloop
          exact hloop
        · rename_i s' hs'
          rw [hs'] at hloop
          exact hloop
      · exact hready

omit hreturns hharmless in
theorem publish_calm {productName : Bytes} {newBuilds : List NewBuild}
    (hpublish : newBuilds ≠ [] → proxyServer = true ∧ ¬ env.Knows builds files) :
    ∀ {s : Captured}, s.Calm env proxyServer builds files →
      (publish env productName newBuilds s).2.Calm env proxyServer builds files := by
  induction newBuilds with
  | nil => exact fun h => h
  | cons build newBuilds ih =>
      intro s h
      have hnew := hpublish (List.cons_ne_nil _ _)
      rw [publish]
      split
      · exact ih (fun _ => hnew) (h.note (.inl rfl))
      · exact h.note (.inr ⟨hnew, _, rfl⟩)

theorem listener_calm (productName : Bytes) (sequenceID : UInt64)
    (h : s.Calm env proxyServer builds files) :
    (listener env proxyServer productName sequenceID s).2.Calm env proxyServer builds files := by
  have hcollect := collect_calm hreturns hharmless productName h
  rw [listener]
  split
  · rename_i s' hs'
    rw [hs'] at hcollect
    exact hcollect
  · rename_i s' hs'
    rw [hs'] at hcollect
    exact hcollect
  · rename_i s' hs'
    rw [hs'] at hcollect
    split
    · rename_i hproxy
      exact publish_calm (fun hne => ⟨hproxy, fun hknows => hne (hcollect.known hknows).1⟩)
        hcollect
    · exact hcollect

theorem notifyProductUpdate_calm (productName : Bytes) (sequenceID : UInt64)
    (h : s.Calm env proxyServer builds files) :
    (notifyProductUpdate productName sequenceID [listener env proxyServer] s).2.Calm env
      proxyServer builds files := by
  have hlistener := listener_calm hreturns hharmless productName sequenceID h
  rw [notifyProductUpdate]
  split
  · rename_i s' hs'
    rw [hs'] at hlistener
    exact hlistener
  · rename_i s' hs'
    rw [hs'] at hlistener
    exact hlistener

theorem onRecords_calm (arrivals : List Arrival) :
    ∀ (store : Store) {s : Captured}, s.Calm env proxyServer builds files →
      (onRecords [listener env proxyServer] store s arrivals).2.2.2.Calm env proxyServer builds
        files := by
  induction arrivals with
  | nil => exact fun _ _ h => h
  | cons a arrivals ih =>
      intro store s h
      rw [onRecords]
      split
      · exact ih _ h
      · rename_i sequenceID after _
        have hnotify :=
          notifyProductUpdate_calm hreturns hharmless a.record.product sequenceID h
        split
        · rename_i s' hs'
          rw [hs'] at hnotify
          exact ih _ hnotify
        · rename_i s' hs'
          rw [hs'] at hnotify
          exact hnotify

/-- A poll of harmless responses. -/
theorem onUpdate_calm (store : Store) (poll : Poll) (h : s.Calm env proxyServer builds files) :
    (onUpdate [listener env proxyServer] store s poll).2.2.2.Calm env proxyServer builds
      files := by
  rw [onUpdate]
  split
  · exact h
  · split
    · exact h
    · exact onRecords_calm hreturns hharmless _ store h

end Listener

/-! ## The timer -/

namespace Monitor

section Timer

variable {env : Environment} {proxyServer : Bool} {builds : Builds} {files : Files}
  (hreturns : env.Returns) (hharmless : env.Harmless files)

include hreturns hharmless

theorem beginUpdate_calm (summary : Option (List Arrival)) {m : Monitor}
    (h : m.world.Calm env proxyServer builds files) :
    (m.beginUpdate env proxyServer summary).world.Calm env proxyServer builds files := by
  have hpoll := onUpdate_calm hreturns hharmless m.store ⟨false, summary⟩ h
  rw [beginUpdate]
  split
  · rename_i m' hm'
    obtain ⟨-, rfl⟩ := Prod.mk.inj hm'
    exact hpoll
  · rename_i m' hm'
    obtain ⟨-, rfl⟩ := Prod.mk.inj hm'
    exact hpoll

theorem onWait_calm (c : Completion) {m : Monitor}
    (h : m.world.Calm env proxyServer builds files) :
    (m.onWait env proxyServer c).world.Calm env proxyServer builds files := by
  have hpoll := onUpdate_calm hreturns hharmless m.store c.poll h
  rw [onWait]
  split
  · exact h
  · split
    · rename_i m' hm'
      obtain ⟨-, rfl⟩ := Prod.mk.inj hm'
      exact beginUpdate_calm hreturns hharmless c.summary hpoll
    · rename_i m' hm'
      obtain ⟨-, rfl⟩ := Prod.mk.inj hm'
      exact hpoll

theorem run_calm (completions : List Completion) :
    ∀ {m : Monitor}, m.world.Calm env proxyServer builds files →
      (m.run env proxyServer completions).world.Calm env proxyServer builds files := by
  induction completions with
  | nil => exact fun h => h
  | cons c completions ih => exact fun h => ih (onWait_calm hreturns hharmless c h)

variable (proxyServer builds)

theorem launch_calm (products : Products) (summary : Option (List Arrival)) :
    (launch env proxyServer products builds files summary).world.Calm env proxyServer builds
      files :=
  beginUpdate_calm hreturns hharmless summary
    { log := fun event hevent => absurd hevent List.not_mem_nil
      cached := by
        rintro path ⟨version, cdn, hasks, rfl⟩ contents hfile
        exact ⟨hharmless.cached version cdn contents hasks hfile, .inr (.inl hfile)⟩
      known := fun _ => ⟨rfl, rfl⟩ }

end Timer

/-- A version of the build `A`, and its configuration. -/
def keyedEnvironment : Environment where
  isAwareOf _ := true
  versions _ := .ok ((Ribbit.Versions.parse (ascii "us|0a1b|2c3d||1|1.0|p")).map ([·]))
  cdns _ := .ok ((Ribbit.CDN.parse (ascii "us|tpr|a.net|http://a.net|tpr")).map ([·]))
  root := ascii "/cache"
  namable _ := true
  exchange _ := .answered statusOk (ConfigLine.joined [.keyLine "build-name" ["A"]]) true true
  statement _ := true
  nextval _ := 1
  load _ := false

/-- A table that has the build. -/
def keyedBuilds : Builds :=
  ⟨[⟨1, ascii "wow", ascii "A", ascii "0a1b", ascii "2c3d", ascii "us"⟩], List.nodup_singleton _⟩

/-- A poll that has the product in it. -/
def keyedSummary (sequenceID : String) : Option (List Arrival) :=
  (Ribbit.Summary.parse (ascii "wow|" ++ ascii sequenceID)).map fun record =>
    [⟨record, ⟨true, true, true⟩⟩]

theorem keyed_returns : keyedEnvironment.Returns := ⟨fun _ => rfl, fun _ => rfl, fun _ => rfl⟩

theorem keyed_asks {version : Ribbit.Versions} {cdn : Ribbit.CDN}
    (h : keyedEnvironment.Asks version cdn) :
    version.buildConfig = ascii "0a1b" ∧ version.region = ascii "us" := by
  obtain ⟨n, versions, cdns, hversions, -, hversion, -⟩ := h
  cases hversions
  cases List.mem_singleton.mp hversion
  exact ⟨rfl, rfl⟩

theorem keyed_delivered {contents : Bytes} (h : keyedEnvironment.Delivered contents) :
    contents = ConfigLine.joined [.keyLine "build-name" ["A"]] := by
  obtain ⟨n, completed, shutdown, hbody⟩ := h
  cases hbody
  rfl

theorem keyed_harmless : keyedEnvironment.Harmless (fun _ => none) where
  key version cdn h := by
    rw [(keyed_asks h).1]
    decide
  namable _ _ _ := rfl
  cached _ _ _ _ h := by cases h
  delivered contents h := by
    rw [keyed_delivered h]
    exact ⟨by decide +kernel, _, by decide +kernel, rfl, by decide +kernel⟩

theorem keyed_knows : keyedEnvironment.Knows keyedBuilds (fun _ => none) where
  statement _ := rfl
  build version cdn contents config hasks hsource hconfig := by
    rcases hsource with h | h
    · cases h
    · rw [keyed_delivered h] at hconfig
      rw [(keyed_asks hasks).2]
      cases hconfig
      decide

/-- A row of versions without a build configuration. -/
def emptyKeyRow : Bytes := ascii "us||4567|k|1|1.0|p"

/-- A row of hosts. -/
def hostRow : Bytes := ascii "us|tpr/wow|a.net|http://a.net|tpr/configs"

/-- One version, one host, and nothing cached. -/
def emptyKeyEnvironment : Environment where
  isAwareOf _ := true
  versions _ := .ok ((Ribbit.Versions.parse emptyKeyRow).map ([·]))
  cdns _ := .ok ((Ribbit.CDN.parse hostRow).map ([·]))
  root := ascii "/cache"
  namable _ := true
  exchange _ := .unreachable
  statement _ := true
  nextval _ := 1
  load _ := true

/-- The first poll, of a product that is not in the table. -/
def emptyKeySummary : Option (List Arrival) :=
  (Ribbit.Summary.parse (ascii "wow|1")).map fun record => [⟨record, ⟨true, true, true⟩⟩]

end Monitor

end Backend

end Tactmon
