import Mathlib.Logic.Function.Basic
import Tactmon.Lib.Memory
import Tactmon.Lib.Text
import Tactmon.Lib.Trace
import Tactmon.Ribbit.Records

/-!
# Resources from the cache and the CDNs

`Cache` of `tact/Cache.cpp`, `DownloadTask::Run` as `FileDownloadTask` makes it,
and `ResourceResolver::Resolve`.  The cache is the regular files under their
absolute paths.  What the network does to one download is an `Exchange`.  A
parser is given the contents of a stream, or nothing where the file is empty,
since an empty file cannot be mapped.

`Run` looks at the error code of the transfer for its log only.  What becomes
of the file is decided by the status, which is 200 before a header is read.  So
a transfer that is cut leaves its file wherever the status says 200, and
wherever shutting down the socket throws.

A `Download` is what one call of `Run` did to the file under its path, and
`Download.whole_iff` says when it keeps to the rule that a partial download is
neither served nor kept.

`Resolve` keeps a log of what it asks of the world around it.  It ends without
a result exactly when one entry of the log is not safe (`resolve_grew`).
-/

namespace Tactmon

open Binary Cxx Text

/-- What ends a call without a result. -/
inductive Thrown where
  /-- An exception. -/
  | exception
  /-- A step without a defined outcome. -/
  | fault (f : Fault)
deriving DecidableEq, Repr

/-! ## The cache -/

/-- Regular files, by their absolute paths. -/
abbrev Files := Bytes → Option Bytes

/-- `operator /` of `std::filesystem::path`, on POSIX. -/
def joinPath (root path : Bytes) : Bytes :=
  if path.head? = some 47 then path else root ++ ascii "/" ++ path

/-- `Cache::GetAbsolutePath`. -/
def getAbsolutePath (root relativePath : Bytes) : Bytes :=
  if relativePath.head? = some 47 ∨ relativePath.head? = some 92 then
    joinPath root relativePath.tail
  else joinPath root relativePath

/-- `io::FileStream`: the contents of a file that can be mapped. -/
def openFile (contents : Option Bytes) : Option Bytes :=
  match contents with
  | some (b :: bs) => some (b :: bs)
  | _ => none

/-- A parser of a stream. -/
abbrev Handler (R : Type) := Option Bytes → Except Thrown (Option R)

/-! ## One download -/

/-- How the exchange of one download goes. -/
inductive Exchange where
  /-- The host name could not be resolved. -/
  | threw
  /-- The connection or the request failed. -/
  | unreachable
  /-- The directories of the file could not be made. -/
  | noDirectory
  /-- The file for the body could not be opened. -/
  | noFile
  /-- The transfer failed in front of the header. -/
  | headerless (shutdown : Bool)
  /-- The header had this status, and this much of the body arrived.  The
  transfer came to its end, or not.  The socket could be shut down, or not. -/
  | answered (status : Nat) (body : Bytes) (completed shutdown : Bool)
deriving DecidableEq, Repr

/-- The transfer came to its end. -/
def Exchange.completed : Exchange → Bool
  | .answered _ _ completed _ => completed
  | _ => false

/-- `http::status::ok`, which a response has from the start. -/
def statusOk : Nat := 200

/-- The end of `Run`, and `TransformMessage`. -/
def finishDownload (files : Files) (path : Bytes) (status : Nat) (body : Bytes)
    (shutdown : Bool) : Except Thrown (Option (Option Bytes)) × Files :=
  let files := Function.update files path (some body)
  if shutdown then
    if status ≠ statusOk then (.ok none, Function.update files path none)
    else (.ok (some (openFile (some body))), files)
  else (.error .exception, files)

/-- `DownloadTask::Run`.  The stream it may return is that of the file. -/
def runDownload (files : Files) (path : Bytes) :
    Exchange → Except Thrown (Option (Option Bytes)) × Files
  | .threw => (.error .exception, files)
  | .unreachable => (.ok none, files)
  | .noDirectory => (.error .exception, files)
  | .noFile => (.ok none, files)
  | .headerless shutdown => finishDownload files path statusOk [] shutdown
  | .answered status body _ shutdown => finishDownload files path status body shutdown

/-- What a download did to the file under its path, and whether the value that
was parsed from it was returned. -/
structure Download where
  path : Bytes
  exchange : Exchange
  before : Option Bytes
  after : Option Bytes
  returned : Bool
deriving DecidableEq, Repr

/-! ## Resolving a resource -/

/-- What `Resolve` asks of the world around it. -/
inductive Use where
  /-- A path is made from a key. -/
  | key (key : Bytes)
  /-- The file under a path is looked up. -/
  | lookup (path : Bytes)
  /-- A stream is parsed, of a cached file or not. -/
  | parse (cached : Bool) (stream : Option Bytes)
  | download (d : Download)
deriving DecidableEq, Repr

/-- The files, and what was asked so far. -/
structure Resolution where
  files : Files
  log : List Use

namespace Resolution

/-- Note what is asked. -/
def note (s : Resolution) (use : Use) : Resolution := { s with log := s.log ++ [use] }

/-- Note a download. -/
def download (s : Resolution) (path : Bytes) (exchange : Exchange) (files : Files)
    (returned : Bool) : Resolution :=
  ⟨files, s.log ++ [.download ⟨path, exchange, s.files path, files path, returned⟩]⟩

/-- The downloads among what was asked. -/
def downloads (s : Resolution) : List Download :=
  s.log.filterMap fun use =>
    match use with
    | .download d => some d
    | _ => none

end Resolution

section Resolve

variable {R : Type} (handler : Handler R) (namable : Bytes → Bool) (network : Nat → Exchange)

/-- `Cache::Resolve`, where the path can be looked up. -/
def cacheResolve (path : Bytes) (s : Resolution) : Except Thrown (Option R) × Resolution :=
  match s.files path with
  | none => (.ok none, s)
  | some contents =>
      let stream := openFile (some contents)
      let s := s.note (.parse true stream)
      match handler stream with
      | .error .exception => (.ok none, { s with files := Function.update s.files path none })
      | .error (.fault f) => (.error (.fault f), s)
      | .ok value => (.ok value, s)

/-- The loop over the hosts of a CDN. -/
def resolveHosts (path : Bytes) : List Bytes → Resolution → Except Thrown (Option R) × Resolution
  | [], s => (.ok none, s)
  | _ :: hosts, s =>
      let exchange := network s.log.length
      match runDownload s.files path exchange with
      | (.error e, files) => (.error e, s.download path exchange files false)
      | (.ok none, files) => resolveHosts path hosts (s.download path exchange files false)
      | (.ok (some stream), files) =>
          match handler stream with
          | .error e =>
              (.error e, (s.download path exchange files false).note (.parse false stream))
          | .ok none =>
              resolveHosts path hosts
                ((s.download path exchange files false).note (.parse false stream))
          | .ok (some value) =>
              (.ok (some value),
                (s.download path exchange files true).note (.parse false stream))

/-- The path of a resource on a CDN. -/
def resourcePath (cdn : Ribbit.CDN) (kind key : Bytes) : Bytes :=
  ascii "/" ++ cdn.path ++ ascii "/" ++ kind ++ ascii "/" ++ key.take 2 ++ ascii "/" ++
    (key.drop 2).take 2 ++ ascii "/" ++ key

/-- `ResourceResolver::Resolve`.  The second `substr` throws where the key has
less than two characters, and `is_regular_file` where the operating system
cannot look the path up. -/
def resolve (root kind key : Bytes) :
    List Ribbit.CDN → Resolution → Except Thrown (Option R) × Resolution
  | [], s => (.ok none, s)
  | cdn :: cdns, s =>
      let s := s.note (.key key)
      if key.length < 2 then (.error .exception, s)
      else
        let path := getAbsolutePath root (resourcePath cdn kind key)
        let s := s.note (.lookup path)
        if !namable path then (.error .exception, s)
        else
          match cacheResolve handler path s with
          | (.ok none, s) =>
              match resolveHosts handler network path cdn.hosts s with
              | (.ok none, s) => resolve root kind key cdns s
              | r => r
          | r => r

end Resolve

/-! ## Partial downloads -/

namespace Download

/-- A value is returned only from a complete body with status 200, and a
transfer that did not complete leaves no file. -/
structure Whole (d : Download) : Prop where
  served : d.returned = true → ∃ body shutdown, d.exchange = .answered statusOk body true shutdown
  kept : d.exchange.completed = false → d.after = none

/-- The transfer completed; or a header with another status than 200 was read
and the socket could be shut down; or it failed before the file was opened, and
there was none. -/
def Meets (d : Download) : Prop :=
  match d.exchange with
  | .threw => d.before = none
  | .unreachable => d.before = none
  | .noDirectory => d.before = none
  | .noFile => d.before = none
  | .headerless _ => False
  | .answered status _ completed shutdown =>
      completed = true ∨ status ≠ statusOk ∧ shutdown = true

/-- The download is what `Run` makes of its exchange. -/
def OfRun (d : Download) : Prop :=
  ∃ files result files', runDownload files d.path d.exchange = (result, files') ∧
    d.before = files d.path ∧ d.after = files' d.path ∧
    (d.returned = true → ∃ stream, result = .ok (some stream))

end Download

/-- The file is gone again only where the status said so and the socket could
be shut down, and its stream is returned only where the status is 200. -/
theorem finishDownload_spec {files files' : Files} {path body : Bytes} {status : Nat}
    {shutdown : Bool} {result : Except Thrown (Option (Option Bytes))}
    (h : finishDownload files path status body shutdown = (result, files')) :
    (files' path = none ↔ status ≠ statusOk ∧ shutdown = true) ∧
      ∀ stream, result = .ok (some stream) → status = statusOk := by
  rw [finishDownload] at h
  have hfile : Function.update files path (some body) path ≠ none := by
    rw [Function.update_self]
    exact Option.some_ne_none _
  split at h
  · rename_i hshutdown
    split at h
    · rename_i hstatus
      rw [Prod.mk.injEq] at h
      obtain ⟨rfl, rfl⟩ := h
      exact ⟨iff_of_true (Function.update_self _ _ _) ⟨hstatus, hshutdown⟩,
        fun _ h => by cases h⟩
    · rename_i hstatus
      rw [Prod.mk.injEq] at h
      obtain ⟨rfl, rfl⟩ := h
      exact ⟨iff_of_false hfile fun h => hstatus h.1, fun _ _ => not_not.mp hstatus⟩
  · rename_i hshutdown
    rw [Prod.mk.injEq] at h
    obtain ⟨rfl, rfl⟩ := h
    exact ⟨iff_of_false hfile fun h => hshutdown h.2, fun _ h => by cases h⟩

/-- A download that does not touch the file keeps to the rule when there is none. -/
theorem Download.whole_iff_of_untouched {d : Download} (hcompleted : d.exchange.completed = false)
    (hsame : d.after = d.before) (hreturned : d.returned = false) :
    d.Whole ↔ d.before = none := by
  constructor
  · intro hwhole
    exact hsame.symm.trans (hwhole.kept hcompleted)
  · intro hnone
    refine ⟨fun hret => ?_, fun _ => hsame.trans hnone⟩
    rw [hreturned] at hret
    cases hret

/-- A download keeps to the rule exactly when its exchange lets it. -/
theorem Download.whole_iff {d : Download} (h : d.OfRun) : d.Whole ↔ d.Meets := by
  obtain ⟨path, exchange, before, after, returned⟩ := d
  obtain ⟨files, result, files', hrun, hbefore, hafter, hreturned⟩ := h
  dsimp only at hrun hbefore hafter hreturned
  have hnot : (∀ stream, result ≠ .ok (some stream)) → returned = false := fun hresult =>
    Bool.eq_false_iff.mpr fun hret => by
      obtain ⟨stream, hstream⟩ := hreturned hret
      exact hresult stream hstream
  rw [runDownload.eq_def] at hrun
  cases exchange with
  | threw =>
      cases hrun
      exact whole_iff_of_untouched rfl (hafter.trans hbefore.symm) (hnot fun _ h => by cases h)
  | unreachable =>
      cases hrun
      exact whole_iff_of_untouched rfl (hafter.trans hbefore.symm) (hnot fun _ h => by cases h)
  | noDirectory =>
      cases hrun
      exact whole_iff_of_untouched rfl (hafter.trans hbefore.symm) (hnot fun _ h => by cases h)
  | noFile =>
      cases hrun
      exact whole_iff_of_untouched rfl (hafter.trans hbefore.symm) (hnot fun _ h => by cases h)
  | headerless shutdown =>
      obtain ⟨hfile, -⟩ := finishDownload_spec hrun
      refine iff_of_false (fun hwhole => ?_) not_false
      exact (hfile.mp (hafter.symm.trans (hwhole.kept rfl))).1 rfl
  | answered status body completed shutdown =>
      obtain ⟨hfile, hresult⟩ := finishDownload_spec hrun
      cases completed with
      | true =>
          refine iff_of_true ⟨fun hret => ?_, fun h => by cases h⟩ (.inl rfl)
          obtain ⟨stream, hstream⟩ := hreturned hret
          rw [hresult stream hstream]
          exact ⟨body, shutdown, rfl⟩
      | false =>
          constructor
          · intro hwhole
            exact .inr (hfile.mp (hafter.symm.trans (hwhole.kept rfl)))
          · rintro (h | hmeets)
            · cases h
            · refine ⟨fun hret => ?_, fun _ => hafter.trans (hfile.mpr hmeets)⟩
              obtain ⟨stream, hstream⟩ := hreturned hret
              exact absurd (hresult stream hstream) hmeets.1

/-! ## The downloads of a call -/

namespace Resolution

/-- Every download noted so far is one that was run. -/
def AllRun (s : Resolution) : Prop := ∀ d ∈ s.downloads, d.OfRun

theorem AllRun.of_log {s s' : Resolution} (h : s.AllRun) (hlog : s'.log = s.log) : s'.AllRun := by
  rw [AllRun, downloads, hlog]
  exact h

theorem AllRun.note {s : Resolution} (h : s.AllRun) (use : Use)
    (huse : ∀ d, use = .download d → d.OfRun) : (s.note use).AllRun := by
  intro d hd
  rw [downloads, Resolution.note, List.filterMap_append, List.mem_append] at hd
  rcases hd with hd | hd
  · exact h d hd
  · obtain ⟨u, hu, hsome⟩ := List.mem_filterMap.mp hd
    rw [List.mem_singleton.mp hu] at hsome
    cases use with
    | key key => cases hsome
    | lookup path => cases hsome
    | parse cached stream => cases hsome
    | download d' =>
        cases hsome
        exact huse d rfl

theorem AllRun.download {s : Resolution} (h : s.AllRun) {path : Bytes} {exchange : Exchange}
    {files : Files} {result : Except Thrown (Option (Option Bytes))} (returned : Bool)
    (hrun : runDownload s.files path exchange = (result, files))
    (hreturned : returned = true → ∃ stream, result = .ok (some stream)) :
    (s.download path exchange files returned).AllRun := by
  refine (h.note (.download ⟨path, exchange, s.files path, files path, returned⟩)
    fun d hd => ?_).of_log rfl
  cases hd
  exact ⟨s.files, result, files, hrun, rfl, rfl, hreturned⟩

end Resolution

section Resolve

variable {R : Type} (handler : Handler R) (namable : Bytes → Bool) (network : Nat → Exchange)

theorem resolveHosts_allRun (path : Bytes) (hosts : List Bytes) :
    ∀ {s : Resolution}, s.AllRun → (resolveHosts handler network path hosts s).2.AllRun := by
  induction hosts with
  | nil => exact fun h => h
  | cons host hosts ih =>
      intro s h
      rw [resolveHosts]
      cases hrun : runDownload s.files path (network s.log.length) with
      | mk result files =>
          have hnote := h.download false hrun (fun h => by cases h)
          cases result with
          | error e => exact hnote
          | ok stream =>
              cases stream with
              | none => exact ih hnote
              | some stream =>
                  have hparse := hnote.note (.parse false stream) (fun _ h => by cases h)
                  dsimp only
                  cases handler stream with
                  | error e => exact hparse
                  | ok value =>
                      cases value with
                      | none => exact ih hparse
                      | some value =>
                          exact (h.download true hrun fun _ => ⟨stream, rfl⟩).note
                            (.parse false stream) (fun _ h => by cases h)

theorem cacheResolve_allRun (path : Bytes) {s : Resolution} (h : s.AllRun) :
    (cacheResolve handler path s).2.AllRun := by
  rw [cacheResolve]
  cases hfile : s.files path with
  | none => exact h
  | some contents =>
      have hparse := h.note (.parse true (openFile (some contents))) (fun _ h => by cases h)
      dsimp only
      cases handler (openFile (some contents)) with
      | ok value => exact hparse
      | error e =>
          cases e with
          | exception => exact hparse.of_log rfl
          | fault f => exact hparse

theorem resolve_allRun (root kind key : Bytes) (cdns : List Ribbit.CDN) :
    ∀ {s : Resolution}, s.AllRun →
      (resolve handler namable network root kind key cdns s).2.AllRun := by
  induction cdns with
  | nil => exact fun h => h
  | cons cdn cdns ih =>
      intro s h
      have hkey := h.note (.key key) (fun _ h => by cases h)
      have hlookup := hkey.note (.lookup (getAbsolutePath root (resourcePath cdn kind key)))
        (fun _ h => by cases h)
      have hcache := cacheResolve_allRun handler
        (getAbsolutePath root (resourcePath cdn kind key)) hlookup
      rw [resolve]
      dsimp only
      split
      · exact hkey
      · split
        · exact hlookup
        · split
          · rename_i s' hcached
            rw [hcached] at hcache
            have hhosts := resolveHosts_allRun handler network
              (getAbsolutePath root (resourcePath cdn kind key)) cdn.hosts hcache
            split
            · rename_i s'' hresult
              rw [hresult] at hhosts
              exact ih hhosts
            · exact hhosts
          · exact hcache

end Resolve

/-- In every call of `Resolve` no partial download is served or kept exactly
when each of its exchanges completes, or says with another status than 200 that
there is nothing, or fails before the file is opened while there is none. -/
theorem resolve_whole_iff {R : Type} (handler : Handler R) (namable : Bytes → Bool)
    (network : Nat → Exchange) (root kind key : Bytes) (cdns : List Ribbit.CDN) (files : Files) :
    (∀ d ∈ (resolve handler namable network root kind key cdns ⟨files, []⟩).2.downloads, d.Whole) ↔
      ∀ d ∈ (resolve handler namable network root kind key cdns ⟨files, []⟩).2.downloads,
        d.Meets := by
  have hrun : (⟨files, []⟩ : Resolution).AllRun := fun _ hd => absurd hd List.not_mem_nil
  exact forall₂_congr fun d hd =>
    d.whole_iff (resolve_allRun handler namable network root kind key cdns hrun d hd)

/-- A host that breaks off a 200 response after one byte: the byte is served, and
the file stays. -/
theorem resolve_partial :
    ∃ d ∈ (resolve (fun stream => .ok stream) (fun _ => true)
        (fun _ => .answered 200 [0x72] false true)
        (ascii "/cache") (ascii "config") (ascii "0a1b")
        [⟨ascii "us", ascii "tpr", [ascii "a.net"], [], ascii "c"⟩]
        ⟨fun _ => none, []⟩).2.downloads,
      d.returned = true ∧ d.after = some [0x72] ∧ ¬ d.Whole := by
  refine ⟨_, List.mem_singleton.mpr rfl, rfl, rfl, fun h => ?_⟩
  exact absurd (h.kept rfl) (Option.some_ne_none _)

/-! ## What ends a call without a result -/

/-- `Run` returns. -/
def Exchange.returns : Exchange → Bool
  | .threw => false
  | .unreachable => true
  | .noDirectory => false
  | .noFile => true
  | .headerless shutdown => shutdown
  | .answered _ _ _ shutdown => shutdown

theorem finishDownload_isOk (files : Files) (path : Bytes) (status : Nat) (body : Bytes)
    (shutdown : Bool) :
    (finishDownload files path status body shutdown).1.isOk = shutdown := by
  rw [finishDownload]
  cases shutdown with
  | false => rfl
  | true =>
      rw [if_pos rfl]
      split
      · rfl
      · rfl

theorem runDownload_isOk (files : Files) (path : Bytes) (exchange : Exchange) :
    (runDownload files path exchange).1.isOk = exchange.returns := by
  cases exchange with
  | threw => rfl
  | unreachable => rfl
  | noDirectory => rfl
  | noFile => rfl
  | headerless shutdown => exact finishDownload_isOk _ _ _ _ _
  | answered status body completed shutdown => exact finishDownload_isOk _ _ _ _ _

section Safe

variable {R : Type} (handler : Handler R) (namable : Bytes → Bool)

/-- What is asked has an answer. -/
def Use.Safe : Use → Prop
  | .key k => 2 ≤ k.length
  | .lookup path => namable path = true
  | .parse cached stream =>
      match handler stream with
      | .error .exception => cached = true
      | .error (.fault _) => False
      | .ok _ => True
  | .download d => d.exchange.returns = true

variable (network : Nat → Exchange)

/-- A call that has grown the log by what is safe, or ended at what is not. -/
abbrev Resolution.Grew (s s' : Resolution) (result : Except Thrown (Option R)) : Prop :=
  Trace.Grew Resolution.log (Use.Safe handler namable) s s' (result.isOk = true)

theorem Resolution.grew_note (s : Resolution) (use : Use) (h : use.Safe handler namable) :
    Trace.Grew Resolution.log (Use.Safe handler namable) s (s.note use) True :=
  .of_note rfl (iff_of_true trivial h)

theorem Resolution.grew_download (s : Resolution) (path : Bytes) {exchange : Exchange}
    (files : Files) (returned : Bool) (h : exchange.returns = true) :
    Trace.Grew Resolution.log (Use.Safe handler namable) s
      (s.download path exchange files returned) True :=
  .of_note rfl (iff_of_true trivial h)

theorem cacheResolve_grew (path : Bytes) (s : Resolution) :
    s.Grew handler namable (cacheResolve handler path s).2 (cacheResolve handler path s).1 := by
  rw [cacheResolve]
  cases hfile : s.files path with
  | none => exact .of_eq rfl rfl
  | some contents =>
      dsimp only
      cases hparse : handler (openFile (some contents)) with
      | ok value => exact .of_note rfl (iff_of_true rfl (by rw [Use.Safe, hparse]; trivial))
      | error e =>
          cases e with
          | exception => exact .of_note rfl (iff_of_true rfl (by rw [Use.Safe, hparse]))
          | fault f =>
              refine .of_note rfl (iff_of_false Bool.false_ne_true ?_)
              rw [Use.Safe, hparse]
              exact id

theorem resolveHosts_grew (path : Bytes) (hosts : List Bytes) :
    ∀ s : Resolution, s.Grew handler namable (resolveHosts handler network path hosts s).2
      (resolveHosts handler network path hosts s).1 := by
  induction hosts with
  | nil => exact fun _ => .of_eq rfl rfl
  | cons host hosts ih =>
      intro s
      have hreturns := runDownload_isOk s.files path (network s.log.length)
      rw [resolveHosts]
      cases hrun : runDownload s.files path (network s.log.length) with
      | mk result files =>
          rw [hrun] at hreturns
          cases result with
          | error e =>
              refine .of_note rfl (iff_of_false Bool.false_ne_true fun hsafe => ?_)
              rw [Use.Safe, ← hreturns] at hsafe
              cases hsafe
          | ok stream =>
              have hnote := s.grew_download handler namable path files false hreturns.symm
              cases stream with
              | none => exact hnote.and_then (ih _)
              | some stream =>
                  dsimp only
                  cases hparse : handler stream with
                  | error e =>
                      refine hnote.and_then (.of_note rfl (iff_of_false Bool.false_ne_true ?_))
                      rw [Use.Safe, hparse]
                      cases e with
                      | exception => exact Bool.false_ne_true
                      | fault f => exact id
                  | ok value =>
                      have hsafe : (Use.parse false stream).Safe handler namable := by
                        rw [Use.Safe, hparse]
                        trivial
                      cases value with
                      | none =>
                          have hparsed := hnote.and_then
                            (Resolution.grew_note handler namable _ _ hsafe)
                          exact hparsed.and_then (ih _)
                      | some value =>
                          exact (s.grew_download handler namable path files true
                            hreturns.symm).and_then (.of_note rfl (iff_of_true rfl hsafe))

/-- A call of `Resolve` ends with a result exactly when all it asks is safe. -/
theorem resolve_grew (root kind key : Bytes) (cdns : List Ribbit.CDN) :
    ∀ s : Resolution, s.Grew handler namable
      (resolve handler namable network root kind key cdns s).2
      (resolve handler namable network root kind key cdns s).1 := by
  induction cdns with
  | nil => exact fun _ => .of_eq rfl rfl
  | cons cdn cdns ih =>
      intro s
      rw [resolve]
      dsimp only
      split
      · rename_i hshort
        exact .of_note rfl (iff_of_false Bool.false_ne_true (Nat.not_le_of_lt hshort))
      · rename_i hlong
        have hkey := s.grew_note handler namable (.key key) (Nat.le_of_not_lt hlong)
        split
        · rename_i hname
          refine hkey.and_then (.of_note rfl (iff_of_false Bool.false_ne_true fun hsafe => ?_))
          rw [Bool.not_eq_true'] at hname
          rw [Use.Safe, hname] at hsafe
          cases hsafe
        · rename_i hname
          have hname' : namable (getAbsolutePath root (resourcePath cdn kind key)) = true := by
            rw [Bool.not_eq_true', Bool.not_eq_false] at hname
            exact hname
          have hlookup := hkey.and_then ((s.note (.key key)).grew_note handler namable
            (.lookup (getAbsolutePath root (resourcePath cdn kind key))) hname')
          have hcache := cacheResolve_grew handler namable
            (getAbsolutePath root (resourcePath cdn kind key))
            ((s.note (.key key)).note (.lookup (getAbsolutePath root (resourcePath cdn kind key))))
          split
          · rename_i s' hcached
            rw [hcached] at hcache
            have hcached' := hlookup.and_then (hcache.congr (iff_of_true rfl trivial))
            have hhosts := resolveHosts_grew handler namable network
              (getAbsolutePath root (resourcePath cdn kind key)) cdn.hosts s'
            split
            · rename_i s'' hresult
              rw [hresult] at hhosts
              exact (hcached'.and_then (hhosts.congr (iff_of_true rfl trivial))).and_then (ih _)
            · exact hcached'.and_then hhosts
          · exact hlookup.and_then hcache

end Safe

end Tactmon
