import Mathlib.Data.List.Pairwise
import Tactmon.Tact.Resource

/-!
# What the cache saves

Calls of `ResourceResolver::Resolve`, one behind the other, over one cache.

A file that the parser of a call takes in is left where it is by the call, and
the call downloads nothing to its path (`resolve_leaves`).  A download whose
value is returned leaves such a file behind (`resolve_fetches`).  So it is the
last download to its path, as long as the parsers that are given for a path
take in the same (`runs_downloads`).

The cache is looked up with the path of each CDN in turn, and a CDN comes into
it only by its path.  So where all CDNs of a call have one path, the call that
returned a value returns it again without the network (`runs_run`).
-/

namespace Tactmon

open Binary Text

/-! ## Calls -/

/-- A call of `ResolveConfiguration` or `ResolveData`. -/
structure ResolveCall where
  {Value : Type}
  handler : Handler Value
  network : Nat → Exchange
  kind : Bytes
  key : Bytes
  cdns : List Ribbit.CDN

namespace ResolveCall

section Run

variable (namable : Bytes → Bool) (root : Bytes)

/-- The call, with the cache under this root. -/
def run (c : ResolveCall) (s : Resolution) : Except Thrown (Option c.Value) × Resolution :=
  resolve c.handler namable c.network root c.kind c.key c.cdns s

/-- Calls, one behind the other. -/
def runs (calls : List ResolveCall) (s : Resolution) : Resolution :=
  calls.foldl (fun s c => (c.run namable root s).2) s

/-- The file that a CDN stands for. -/
def path (c : ResolveCall) (cdn : Ribbit.CDN) : Bytes :=
  getAbsolutePath root (resourcePath cdn c.kind c.key)

/-- The files that the call may look up. -/
def paths (c : ResolveCall) : List Bytes := c.cdns.map (c.path root)

end Run

/-- The call takes a stream in. -/
def Accepts (c : ResolveCall) (stream : Option Bytes) : Prop :=
  ∃ value, c.handler stream = .ok (some value)

end ResolveCall

/-- There is a file, and it is parsed as the value. -/
def Stored {R : Type} (handler : Handler R) (files : Files) (path : Bytes) (value : R) : Prop :=
  ∃ contents, files path = some contents ∧ handler (openFile (some contents)) = .ok (some value)

namespace Resolution

@[simp] theorem files_note (s : Resolution) (use : Use) : (s.note use).files = s.files := rfl

@[simp] theorem files_download (s : Resolution) (path : Bytes) (exchange : Exchange)
    (files : Files) (returned : Bool) :
    (s.download path exchange files returned).files = files := rfl

@[simp] theorem downloads_key (s : Resolution) (key : Bytes) :
    (s.note (.key key)).downloads = s.downloads := by
  rw [downloads, note, List.filterMap_append]
  exact List.append_nil _

@[simp] theorem downloads_lookup (s : Resolution) (path : Bytes) :
    (s.note (.lookup path)).downloads = s.downloads := by
  rw [downloads, note, List.filterMap_append]
  exact List.append_nil _

@[simp] theorem downloads_parse (s : Resolution) (cached : Bool) (stream : Option Bytes) :
    (s.note (.parse cached stream)).downloads = s.downloads := by
  rw [downloads, note, List.filterMap_append]
  exact List.append_nil _

@[simp] theorem downloads_download (s : Resolution) (path : Bytes) (exchange : Exchange)
    (files : Files) (returned : Bool) :
    (s.download path exchange files returned).downloads =
      s.downloads ++ [⟨path, exchange, s.files path, files path, returned⟩] := by
  rw [downloads, download, List.filterMap_append]
  rfl

/-! ## What is left alone -/

/-- The file under a path is as it was, and nothing was downloaded to it. -/
structure Leaves (path : Bytes) (s s' : Resolution) : Prop where
  files : s'.files path = s.files path
  downloads : ∃ new, s'.downloads = s.downloads ++ new ∧ ∀ d ∈ new, d.path ≠ path

namespace Leaves

variable {path : Bytes} {s s' s'' : Resolution}

theorem of_downloads (hfiles : s'.files path = s.files path) (h : s'.downloads = s.downloads) :
    Leaves path s s' :=
  ⟨hfiles, [], by rw [h, List.append_nil], fun _ hd => absurd hd List.not_mem_nil⟩

theorem refl (path : Bytes) (s : Resolution) : Leaves path s s := of_downloads rfl rfl

theorem trans (h : Leaves path s s') (h' : Leaves path s' s'') : Leaves path s s'' := by
  obtain ⟨new, hnew, hpaths⟩ := h.downloads
  obtain ⟨new', hnew', hpaths'⟩ := h'.downloads
  refine ⟨h'.files.trans h.files, new ++ new', ?_, List.forall_mem_append.mpr ⟨hpaths, hpaths'⟩⟩
  rw [hnew', hnew, List.append_assoc]

theorem stored (h : Leaves path s s') {R : Type} {handler : Handler R} {value : R}
    (hstored : Stored handler s.files path value) : Stored handler s'.files path value := by
  rw [Stored, h.files]
  exact hstored

end Leaves

/-- Of the downloads that are new none was for the result, but for the last
one, and that one left a file which is parsed as the result. -/
def Fetches {R : Type} (handler : Handler R) (s s' : Resolution)
    (result : Except Thrown (Option R)) : Prop :=
  ∃ (dropped : List Download) (kept : Option Download),
    s'.downloads = s.downloads ++ (dropped ++ kept.toList) ∧
      (∀ d ∈ dropped, d.returned = false) ∧
        ∀ d ∈ kept, ∃ value, result = .ok (some value) ∧ Stored handler s'.files d.path value

namespace Fetches

variable {R : Type} {handler : Handler R} {s s' s'' : Resolution}
  {result : Except Thrown (Option R)}

/-- Downloads that were not for the result. -/
theorem of_dropped {dropped : List Download} (h : s'.downloads = s.downloads ++ dropped)
    (hdropped : ∀ d ∈ dropped, d.returned = false) : Fetches handler s s' result :=
  ⟨dropped, none, by rw [h, Option.toList_none, List.append_nil], hdropped,
    fun _ hd => absurd hd (Option.not_mem_none _)⟩

theorem of_downloads (h : s'.downloads = s.downloads) : Fetches handler s s' result :=
  of_dropped (h.trans (List.append_nil _).symm) fun _ hd => absurd hd List.not_mem_nil

/-- Behind a part that had no result. -/
theorem and_then (h : Fetches handler s s' (.ok none)) (h' : Fetches handler s' s'' result) :
    Fetches handler s s'' result := by
  obtain ⟨dropped, kept, hs', hdropped, hkept⟩ := h
  obtain ⟨dropped', kept', hs'', hdropped', hkept'⟩ := h'
  cases kept with
  | some d =>
      obtain ⟨value, hvalue, -⟩ := hkept d rfl
      cases hvalue
  | none =>
      refine ⟨dropped ++ dropped', kept', ?_, List.forall_mem_append.mpr ⟨hdropped, hdropped'⟩,
        hkept'⟩
      rw [hs'', hs', Option.toList_none, List.append_nil, List.append_assoc, List.append_assoc]

end Fetches

end Resolution

section Resolve

variable {R : Type} (handler : Handler R) (namable : Bytes → Bool) (network : Nat → Exchange)

/-! ## One download -/

theorem finishDownload_frame (files : Files) {path p : Bytes} (status : Nat) (body : Bytes)
    (shutdown : Bool) (h : p ≠ path) :
    (finishDownload files path status body shutdown).2 p = files p := by
  rw [finishDownload]
  split
  · split
    · exact (Function.update_of_ne h _ _).trans (Function.update_of_ne h _ _)
    · exact Function.update_of_ne h _ _
  · exact Function.update_of_ne h _ _

/-- A download touches the file under its own path only. -/
theorem runDownload_frame (files : Files) {path p : Bytes} (exchange : Exchange) (h : p ≠ path) :
    (runDownload files path exchange).2 p = files p := by
  cases exchange with
  | threw => rfl
  | unreachable => rfl
  | noDirectory => rfl
  | noFile => rfl
  | headerless shutdown => exact finishDownload_frame files _ _ _ h
  | answered status body completed shutdown => exact finishDownload_frame files _ _ _ h

theorem finishDownload_some {files files' : Files} {path body : Bytes} {status : Nat}
    {shutdown : Bool} {stream : Option Bytes}
    (h : finishDownload files path status body shutdown = (.ok (some stream), files')) :
    ∃ contents, files' path = some contents ∧ stream = openFile (some contents) := by
  rw [finishDownload] at h
  split at h
  · split at h
    · cases h
    · cases h
      exact ⟨body, Function.update_self _ _ _, rfl⟩
  · cases h

/-- The stream that a download returns is that of the file it left. -/
theorem runDownload_some {files files' : Files} {path : Bytes} {exchange : Exchange}
    {stream : Option Bytes}
    (h : runDownload files path exchange = (.ok (some stream), files')) :
    ∃ contents, files' path = some contents ∧ stream = openFile (some contents) := by
  cases exchange with
  | threw => cases h
  | unreachable => cases h
  | noDirectory => cases h
  | noFile => cases h
  | headerless shutdown => exact finishDownload_some h
  | answered status body completed shutdown => exact finishDownload_some h

/-! ## One path -/

/-- A file that is taken in is served from the cache. -/
theorem cacheResolve_stored {path : Bytes} {s : Resolution} {value : R}
    (h : Stored handler s.files path value) :
    ∃ stream, cacheResolve handler path s = (.ok (some value), s.note (.parse true stream)) := by
  obtain ⟨contents, hfile, hvalue⟩ := h
  refine ⟨openFile (some contents), ?_⟩
  rw [cacheResolve, hfile]
  dsimp only
  rw [hvalue]

/-- What the cache returns is stored there. -/
theorem cacheResolve_some {path : Bytes} {s s' : Resolution} {value : R}
    (h : cacheResolve handler path s = (.ok (some value), s')) :
    Stored handler s'.files path value := by
  rw [cacheResolve] at h
  cases hfile : s.files path with
  | none =>
      rw [hfile] at h
      cases h
  | some contents =>
      rw [hfile] at h
      dsimp only at h
      cases hparse : handler (openFile (some contents)) with
      | error e =>
          rw [hparse] at h
          cases e with
          | exception => cases h
          | fault f => cases h
      | ok parsed =>
          rw [hparse] at h
          cases h
          exact ⟨contents, hfile, hparse⟩

theorem cacheResolve_downloads (path : Bytes) (s : Resolution) :
    (cacheResolve handler path s).2.downloads = s.downloads := by
  rw [cacheResolve]
  cases s.files path with
  | none => rfl
  | some contents =>
      dsimp only
      cases handler (openFile (some contents)) with
      | error e =>
          cases e with
          | exception => exact s.downloads_parse true _
          | fault f => exact s.downloads_parse true _
      | ok parsed => exact s.downloads_parse true _

theorem cacheResolve_leaves {path p : Bytes} (s : Resolution) (h : p ≠ path) :
    s.Leaves p (cacheResolve handler path s).2 := by
  refine .of_downloads ?_ (cacheResolve_downloads handler path s)
  rw [cacheResolve]
  cases s.files path with
  | none => rfl
  | some contents =>
      dsimp only
      cases handler (openFile (some contents)) with
      | error e =>
          cases e with
          | exception => exact Function.update_of_ne h _ _
          | fault f => rfl
      | ok parsed => rfl

namespace Resolution

theorem leaves_note_parse (s : Resolution) (p : Bytes) (cached : Bool) (stream : Option Bytes) :
    s.Leaves p (s.note (.parse cached stream)) := .of_downloads rfl (s.downloads_parse _ _)

/-- A download to another path. -/
theorem leaves_download (s : Resolution) {path p : Bytes} {exchange : Exchange} {files : Files}
    {result : Except Thrown (Option (Option Bytes))} (returned : Bool)
    (hrun : runDownload s.files path exchange = (result, files)) (h : p ≠ path) :
    s.Leaves p (s.download path exchange files returned) := by
  have hframe := runDownload_frame s.files exchange h
  rw [hrun] at hframe
  refine ⟨hframe, _, s.downloads_download path exchange files returned, fun d hd => ?_⟩
  rw [List.mem_singleton.mp hd]
  exact Ne.symm h

/-- A download that was not for the result. -/
theorem fetches_dropped (s : Resolution) (path : Bytes) (exchange : Exchange) (files : Files)
    (result : Except Thrown (Option R)) :
    s.Fetches handler (s.download path exchange files false) result := by
  refine .of_dropped (s.downloads_download path exchange files false) fun d hd => ?_
  rw [List.mem_singleton.mp hd]

theorem fetches_dropped_parse (s : Resolution) (path : Bytes) (exchange : Exchange)
    (files : Files) (stream : Option Bytes) (result : Except Thrown (Option R)) :
    s.Fetches handler ((s.download path exchange files false).note (.parse false stream))
      result :=
  (s.fetches_dropped handler path exchange files (.ok none)).and_then
    (.of_downloads (downloads_parse _ _ _))

/-- A download that was for the result. -/
theorem fetches_returned (s : Resolution) {path contents : Bytes} (exchange : Exchange)
    {files : Files} (stream : Option Bytes) {value : R} (hfile : files path = some contents)
    (hparse : handler (openFile (some contents)) = .ok (some value)) :
    s.Fetches handler ((s.download path exchange files true).note (.parse false stream))
      (.ok (some value)) := by
  refine ⟨[], some ⟨path, exchange, s.files path, files path, true⟩, ?_,
    fun _ hd => absurd hd List.not_mem_nil, fun d hd => ?_⟩
  · rw [downloads_parse, downloads_download]
    rfl
  · cases hd
    exact ⟨value, rfl, contents, hfile, hparse⟩

end Resolution

theorem resolveHosts_leaves {path p : Bytes} (h : p ≠ path) (hosts : List Bytes) :
    ∀ s : Resolution, s.Leaves p (resolveHosts handler network path hosts s).2 := by
  induction hosts with
  | nil => exact .refl p
  | cons host hosts ih =>
      intro s
      rw [resolveHosts]
      cases hrun : runDownload s.files path (network s.log.length) with
      | mk result files =>
          have hdropped := s.leaves_download false hrun h
          cases result with
          | error e => exact hdropped
          | ok stream =>
              cases stream with
              | none => exact hdropped.trans (ih _)
              | some stream =>
                  have hparsed := hdropped.trans (Resolution.leaves_note_parse _ p false stream)
                  dsimp only
                  cases handler stream with
                  | error e => exact hparsed
                  | ok value =>
                      cases value with
                      | none => exact hparsed.trans (ih _)
                      | some value =>
                          exact (s.leaves_download true hrun h).trans
                            (Resolution.leaves_note_parse _ p false stream)

theorem resolveHosts_fetches (path : Bytes) (hosts : List Bytes) :
    ∀ s : Resolution, s.Fetches handler (resolveHosts handler network path hosts s).2
      (resolveHosts handler network path hosts s).1 := by
  induction hosts with
  | nil => exact fun _ => .of_downloads rfl
  | cons host hosts ih =>
      intro s
      rw [resolveHosts]
      cases hrun : runDownload s.files path (network s.log.length) with
      | mk result files =>
          cases result with
          | error e => exact s.fetches_dropped handler path _ files _
          | ok stream =>
              cases stream with
              | none => exact (s.fetches_dropped handler path _ files _).and_then (ih _)
              | some stream =>
                  dsimp only
                  cases hparse : handler stream with
                  | error e => exact s.fetches_dropped_parse handler path _ files stream _
                  | ok value =>
                      cases value with
                      | none =>
                          exact (s.fetches_dropped_parse handler path _ files stream _).and_then
                            (ih _)
                      | some value =>
                          obtain ⟨contents, hfile, rfl⟩ := runDownload_some hrun
                          exact s.fetches_returned handler _ _ hfile hparse

/-- What is returned of a download is stored in the cache. -/
theorem resolveHosts_some {path : Bytes} {hosts : List Bytes} {value : R} :
    ∀ {s s' : Resolution},
      resolveHosts handler network path hosts s = (.ok (some value), s') →
        Stored handler s'.files path value := by
  induction hosts with
  | nil => exact fun h => by cases h
  | cons host hosts ih =>
      intro s s' h
      rw [resolveHosts] at h
      cases hrun : runDownload s.files path (network s.log.length) with
      | mk result files =>
          rw [hrun] at h
          cases result with
          | error e => cases h
          | ok stream =>
              cases stream with
              | none => exact ih h
              | some stream =>
                  dsimp only at h
                  cases hparse : handler stream with
                  | error e =>
                      rw [hparse] at h
                      cases h
                  | ok parsed =>
                      rw [hparse] at h
                      cases parsed with
                      | none => exact ih h
                      | some parsed =>
                          cases h
                          obtain ⟨contents, hfile, rfl⟩ := runDownload_some hrun
                          exact ⟨contents, hfile, hparse⟩

end Resolve

/-! ## One call -/

/-- A CDN comes into a path only by its own. -/
theorem resourcePath_congr {cdn cdn' : Ribbit.CDN} (h : cdn'.path = cdn.path) (kind key : Bytes) :
    resourcePath cdn' kind key = resourcePath cdn kind key := by
  rw [resourcePath, h, resourcePath]

namespace ResolveCall

variable {namable : Bytes → Bool} {root : Bytes}

section Step

variable {R : Type} {handler : Handler R} {network : Nat → Exchange} {kind key : Bytes}

/-- The steps that come first for every CDN. -/
theorem noted_leaves (s : Resolution) (p key path : Bytes) :
    s.Leaves p ((s.note (.key key)).note (.lookup path)) :=
  .of_downloads rfl ((Resolution.downloads_lookup _ _).trans (s.downloads_key key))

/-- A call leaves a file alone that it does not look up, or that it takes in. -/
theorem resolve_leaves {p : Bytes} (cdns : List Ribbit.CDN) :
    ∀ s : Resolution,
      ((∃ cdn ∈ cdns, getAbsolutePath root (resourcePath cdn kind key) = p) →
          ∃ value, Stored handler s.files p value) →
        s.Leaves p (resolve handler namable network root kind key cdns s).2 := by
  induction cdns with
  | nil => exact fun s _ => .refl p s
  | cons cdn cdns ih =>
      intro s hstored
      rw [resolve]
      dsimp only
      split
      · exact .of_downloads rfl (s.downloads_key key)
      · have hnoted := noted_leaves s p key (getAbsolutePath root (resourcePath cdn kind key))
        split
        · exact hnoted
        · by_cases hp : getAbsolutePath root (resourcePath cdn kind key) = p
          · -- The cache serves the file, and the call ends.
            obtain ⟨value, hvalue⟩ := hstored ⟨cdn, List.mem_cons_self, hp⟩
            subst hp
            obtain ⟨stream, hcache⟩ := cacheResolve_stored handler (hnoted.stored hvalue)
            rw [hcache]
            exact hnoted.trans (Resolution.leaves_note_parse _ _ true stream)
          · have hcache := hnoted.trans
              (cacheResolve_leaves handler _ (Ne.symm hp : p ≠ _))
            split
            · rename_i s' hcached
              rw [hcached] at hcache
              have hhosts := hcache.trans
                (resolveHosts_leaves handler network (Ne.symm hp) cdn.hosts s')
              split
              · rename_i s'' hresult
                rw [hresult] at hhosts
                refine hhosts.trans (ih s'' fun hmem => ?_)
                obtain ⟨cdn', hcdn', hp'⟩ := hmem
                obtain ⟨value, hvalue⟩ := hstored ⟨cdn', List.mem_cons_of_mem _ hcdn', hp'⟩
                exact ⟨value, hhosts.stored hvalue⟩
              · exact hhosts
            · exact hcache

theorem resolve_fetches (cdns : List Ribbit.CDN) :
    ∀ s : Resolution, s.Fetches handler
      (resolve handler namable network root kind key cdns s).2
      (resolve handler namable network root kind key cdns s).1 := by
  induction cdns with
  | nil => exact fun _ => .of_downloads rfl
  | cons cdn cdns ih =>
      intro s
      rw [resolve]
      dsimp only
      split
      · exact .of_downloads (s.downloads_key key)
      · have hnoted : ∀ path, ((s.note (.key key)).note (.lookup path)).downloads = s.downloads :=
          fun path => (Resolution.downloads_lookup _ _).trans (s.downloads_key key)
        split
        · exact .of_downloads (hnoted _)
        · have hcache := (cacheResolve_downloads handler
            (getAbsolutePath root (resourcePath cdn kind key)) _).trans
            (hnoted (getAbsolutePath root (resourcePath cdn kind key)))
          split
          · rename_i s' hcached
            rw [hcached] at hcache
            have hhosts := resolveHosts_fetches handler network
              (getAbsolutePath root (resourcePath cdn kind key)) cdn.hosts s'
            split
            · rename_i s'' hresult
              rw [hresult] at hhosts
              exact (Resolution.Fetches.of_downloads hcache).and_then (hhosts.and_then (ih s''))
            · exact (Resolution.Fetches.of_downloads hcache).and_then hhosts
          · exact .of_downloads hcache

/-- What a call returns is stored for one of its CDNs. -/
theorem resolve_some {value : R} {cdns : List Ribbit.CDN} :
    ∀ {s s' : Resolution},
      resolve handler namable network root kind key cdns s = (.ok (some value), s') →
        ∃ cdn ∈ cdns,
          Stored handler s'.files (getAbsolutePath root (resourcePath cdn kind key)) value := by
  induction cdns with
  | nil => exact fun h => by cases h
  | cons cdn cdns ih =>
      intro s s' h
      rw [resolve] at h
      dsimp only at h
      split at h
      · cases h
      · split at h
        · cases h
        · split at h
          · split at h
            · obtain ⟨cdn', hcdn', hstored⟩ := ih h
              exact ⟨cdn', List.mem_cons_of_mem _ hcdn', hstored⟩
            · exact ⟨cdn, List.mem_cons_self, resolveHosts_some handler network h⟩
          · exact ⟨cdn, List.mem_cons_self, cacheResolve_some handler h⟩

/-- A call whose first file is taken in returns what is stored there. -/
theorem resolve_stored {value : R} {cdn : Ribbit.CDN} {cdns : List Ribbit.CDN} {s : Resolution}
    (hkey : 2 ≤ key.length) (hname : namable (getAbsolutePath root (resourcePath cdn kind key)))
    (h : Stored handler s.files (getAbsolutePath root (resourcePath cdn kind key)) value) :
    ∃ s', resolve handler namable network root kind key (cdn :: cdns) s = (.ok (some value), s') ∧
      s'.files = s.files ∧ s'.downloads = s.downloads := by
  obtain ⟨stream, hcache⟩ := cacheResolve_stored handler
    ((noted_leaves s _ key (getAbsolutePath root (resourcePath cdn kind key))).stored h)
  rw [resolve, if_neg (Nat.not_lt_of_le hkey)]
  dsimp only
  rw [hname, hcache]
  exact ⟨_, rfl, rfl, (Resolution.downloads_parse _ _ _).trans
    ((Resolution.downloads_lookup _ _).trans (s.downloads_key key))⟩

/-- A call that returned something had a key and a path that can be used. -/
theorem resolve_some_usable {value : R} {cdn : Ribbit.CDN} {cdns : List Ribbit.CDN}
    {s s' : Resolution}
    (h : resolve handler namable network root kind key (cdn :: cdns) s = (.ok (some value), s')) :
    2 ≤ key.length ∧ namable (getAbsolutePath root (resourcePath cdn kind key)) = true := by
  rw [resolve] at h
  dsimp only at h
  split at h
  · cases h
  · rename_i hkey
    split at h
    · cases h
    · rename_i hname
      rw [Bool.not_eq_true', Bool.not_eq_false] at hname
      exact ⟨Nat.le_of_not_lt hkey, hname⟩

end Step

/-! ## Runs of calls -/

theorem mem_paths {c : ResolveCall} {p : Bytes} :
    p ∈ c.paths root ↔ ∃ cdn ∈ c.cdns, getAbsolutePath root (resourcePath cdn c.kind c.key) = p :=
  List.mem_map

/-- What one call does to the file under a path that it takes in, or does not
look up. -/
theorem run_leaves {c : ResolveCall} {p : Bytes} {s : Resolution}
    (h : p ∈ c.paths root → ∃ value, Stored c.handler s.files p value) :
    s.Leaves p (c.run namable root s).2 :=
  resolve_leaves c.cdns s fun hmem => h (mem_paths.mpr hmem)

theorem run_fetches (c : ResolveCall) (namable : Bytes → Bool) (root : Bytes) (s : Resolution) :
    s.Fetches c.handler (c.run namable root s).2 (c.run namable root s).1 :=
  resolve_fetches c.cdns s

theorem Accepts.stored {c : ResolveCall} {files : Files} {p contents : Bytes}
    (h : c.Accepts (openFile (some contents))) (hfile : files p = some contents) :
    ∃ value, Stored c.handler files p value := by
  obtain ⟨value, hvalue⟩ := h
  exact ⟨value, contents, hfile, hvalue⟩

/-- A file is left by a run of calls that take it in. -/
theorem runs_leaves {p contents : Bytes} (calls : List ResolveCall) :
    ∀ s : Resolution, s.files p = some contents →
      (∀ c ∈ calls, p ∈ c.paths root → c.Accepts (openFile (some contents))) →
        s.Leaves p (runs namable root calls s) := by
  induction calls with
  | nil => exact fun s _ _ => .refl p s
  | cons c calls ih =>
      intro s hfile haccepts
      have hstep : s.Leaves p (c.run namable root s).2 :=
        run_leaves fun hp => (haccepts c List.mem_cons_self hp).stored hfile
      exact hstep.trans (ih _ (hstep.files.trans hfile) fun c' hc' =>
        haccepts c' (List.mem_cons_of_mem _ hc'))

/-- The parsers that are given for a path take in the same. -/
def Agree (root : Bytes) (c c' : ResolveCall) : Prop :=
  ∀ p ∈ c.paths root, p ∈ c'.paths root → ∀ stream, c.Accepts stream → c'.Accepts stream

/-- The downloads so far, and what they left for the calls.  A download whose
value was returned is the last one to its path, and its file is taken in by
every call that looks it up. -/
structure Settled (root : Bytes) (calls : List ResolveCall) (s : Resolution) : Prop where
  last : s.downloads.Pairwise fun d d' => d.returned = true → d'.path ≠ d.path
  stored : ∀ d ∈ s.downloads, d.returned = true → ∀ c ∈ calls, d.path ∈ c.paths root →
    ∃ value, Stored c.handler s.files d.path value

/-- A new download whose value is returned is to a path of the call. -/
theorem run_returned {c : ResolveCall} {s : Resolution} {new : List Download}
    (hnew : (c.run namable root s).2.downloads = s.downloads ++ new) {d : Download} (hd : d ∈ new) :
    d.path ∈ c.paths root := by
  by_contra hpath
  have hleaves : s.Leaves d.path (c.run namable root s).2 := run_leaves fun hp => absurd hp hpath
  obtain ⟨new', hnew', hother⟩ := hleaves.downloads
  rw [hnew] at hnew'
  rw [← List.append_cancel_left hnew'] at hother
  exact hother d hd rfl

/-- One call keeps what is settled. -/
theorem Settled.run {calls : List ResolveCall} {s : Resolution} (h : Settled root calls s)
    {c : ResolveCall} (hc : c ∈ calls) (hagree : ∀ c' ∈ calls, c.Agree root c') :
    Settled root calls (c.run namable root s).2 := by
  obtain ⟨dropped, kept, hnew, hdropped, hkept⟩ := c.run_fetches namable root s
  -- What is settled is left alone.
  have hleaves : ∀ d ∈ s.downloads, d.returned = true →
      s.Leaves d.path (c.run namable root s).2 :=
    fun d hd hreturned => run_leaves (h.stored d hd hreturned c hc)
  have hold : ∀ d ∈ s.downloads, ∀ d' ∈ dropped ++ kept.toList, d.returned = true →
      d'.path ≠ d.path := by
    intro d hd d' hd' hreturned
    obtain ⟨new, hs', hother⟩ := (hleaves d hd hreturned).downloads
    rw [hnew] at hs'
    rw [← List.append_cancel_left hs'] at hother
    exact hother d' hd'
  have hfirst : ∀ d ∈ dropped, ∀ d' : Download, d.returned = true → d'.path ≠ d.path := by
    intro d hd _ hreturned
    rw [hdropped d hd] at hreturned
    cases hreturned
  constructor
  · rw [hnew]
    refine List.pairwise_append.mpr ⟨h.last, List.pairwise_append.mpr
      ⟨List.pairwise_of_forall_mem_list fun d hd d' _ => hfirst d hd d', ?_,
        fun d hd d' _ => hfirst d hd d'⟩, hold⟩
    cases kept with
    | none => exact .nil
    | some d => exact List.pairwise_singleton _ _
  · intro d hd hreturned c' hc' hpath
    rw [hnew, List.mem_append, List.mem_append] at hd
    rcases hd with hd | hd | hd
    · obtain ⟨value, hvalue⟩ := h.stored d hd hreturned c' hc' hpath
      exact ⟨value, (hleaves d hd hreturned).stored hvalue⟩
    · exact absurd hpath (fun _ => hfirst d hd d hreturned rfl)
    · -- The last download left a file for this call, so the others take it in too.
      obtain ⟨value, -, contents, hfile, hparse⟩ := hkept d (Option.mem_toList.mp hd)
      have hown : d.path ∈ c.paths root := run_returned hnew (List.mem_append_right _ hd)
      exact (hagree c' hc' d.path hown hpath _ ⟨value, hparse⟩).stored hfile

theorem Settled.runs {calls : List ResolveCall}
    (hagree : ∀ c ∈ calls, ∀ c' ∈ calls, c.Agree root c') :
    ∀ (run : List ResolveCall) {s : Resolution}, (∀ c ∈ run, c ∈ calls) → Settled root calls s →
      Settled root calls (ResolveCall.runs namable root run s) := by
  intro run
  induction run with
  | nil => exact fun _ h => h
  | cons c run ih =>
      intro s hrun h
      have hc := hrun c List.mem_cons_self
      exact ih (fun c' hc' => hrun c' (List.mem_cons_of_mem _ hc')) (h.run hc (hagree c hc))

end ResolveCall

open ResolveCall

/-- In a run of calls whose parsers take in the same for the same path, a
download whose value is returned is the last one to its path, so each file is
fetched for use at most once.  This is so from any cache, whatever the network
does, and however calls end. -/
theorem runs_downloads (namable : Bytes → Bool) (root : Bytes) (calls : List ResolveCall)
    (files : Files) (hagree : ∀ c ∈ calls, ∀ c' ∈ calls, c.Agree root c') :
    (runs namable root calls ⟨files, []⟩).downloads.Pairwise fun d d' =>
      d.returned = true → d'.path ≠ d.path :=
  (Settled.runs hagree calls (fun _ hc => hc)
    ⟨.nil, fun _ hd => absurd hd List.not_mem_nil⟩).last

/-- A call that returned a value returns it again, without the network and with
the files as they are, whatever calls there were in between, if these take in
what it takes in, and its CDNs all have one path.  The CDNs may be others by
then, with that path. -/
theorem runs_run {namable : Bytes → Bool} {root : Bytes} {c : ResolveCall} {value : c.Value}
    {s s' : Resolution} (hrun : c.run namable root s = (.ok (some value), s')) {path : Bytes}
    (hpath : ∀ cdn ∈ c.cdns, cdn.path = path) (between : List ResolveCall)
    (hagree : ∀ c' ∈ between, c.Agree root c') (network : Nat → Exchange) {cdn : Ribbit.CDN}
    (hcdn : cdn.path = path) (cdns : List Ribbit.CDN) :
    ∃ s'', resolve c.handler namable network root c.kind c.key (cdn :: cdns)
        (runs namable root between s') = (.ok (some value), s'') ∧
      s''.files = (runs namable root between s').files ∧
        s''.downloads = (runs namable root between s').downloads := by
  obtain ⟨first, hfirst, contents, hfile, hparse⟩ := resolve_some hrun
  -- All CDNs stand for one file, so the first one that was looked up does, too.
  have hsame : ∀ cdn' ∈ c.cdns, resourcePath cdn' c.kind c.key = resourcePath cdn c.kind c.key :=
    fun cdn' hcdn' => resourcePath_congr ((hpath cdn' hcdn').trans hcdn.symm) _ _
  have husable : 2 ≤ c.key.length ∧
      namable (getAbsolutePath root (resourcePath cdn c.kind c.key)) = true := by
    rw [run] at hrun
    cases hcdns : c.cdns with
    | nil =>
        rw [hcdns] at hfirst
        exact absurd hfirst List.not_mem_nil
    | cons head rest =>
        rw [hcdns] at hrun
        rw [← hsame head (hcdns ▸ List.mem_cons_self)]
        exact resolve_some_usable hrun
  have hmem : getAbsolutePath root (resourcePath first c.kind c.key) ∈ c.paths root :=
    mem_paths.mpr ⟨first, hfirst, rfl⟩
  have hleaves : Resolution.Leaves _ s' (runs namable root between s') :=
    runs_leaves between s' hfile fun c' hc' hp => hagree c' hc' _ hmem hp _ ⟨value, hparse⟩
  have hstored : Stored c.handler _ _ value := hleaves.stored ⟨contents, hfile, hparse⟩
  rw [hsame first hfirst] at hstored
  exact resolve_stored husable.1 husable.2 hstored

/-- A call for a file of the only CDN. -/
def sampleResolve (key : Bytes) (network : Nat → Exchange) : ResolveCall where
  handler := fun stream => .ok stream
  network := network
  kind := ascii "config"
  key := key
  cdns := [⟨ascii "us", ascii "tpr", [ascii "a.net"], [], ascii "c"⟩]

/-- A call whose host answers. -/
def sampleAnswered : ResolveCall :=
  sampleResolve (ascii "0a1b") fun _ => .answered 200 [0x72] true true

/-- A call for a file that the host does not have, and one for the first file
that would only get an empty body. -/
def sampleBetween : List ResolveCall :=
  [sampleResolve (ascii "0c1d") fun _ => .answered 404 [] true true,
    sampleResolve (ascii "0a1b") fun _ => .headerless true]

theorem sampleResolve_agree (key key' : Bytes) (network network' : Nat → Exchange) :
    (sampleResolve key network).Agree (ascii "/cache") (sampleResolve key' network') :=
  fun _ _ _ _ h => h

/-- Over these calls each file is fetched for use at most once. -/
theorem runs_downloads_sample :
    (runs (fun _ => true) (ascii "/cache") (sampleAnswered :: sampleBetween)
        ⟨fun _ => none, []⟩).downloads.Pairwise fun d d' =>
      d.returned = true → d'.path ≠ d.path := by
  refine runs_downloads _ _ _ _ fun c hc c' hc' => ?_
  simp only [sampleBetween, List.mem_cons, List.not_mem_nil, or_false] at hc hc'
  rcases hc with rfl | rfl | rfl <;> rcases hc' with rfl | rfl | rfl <;>
    exact sampleResolve_agree _ _ _ _

/-- The first file is served behind these calls, with the host down. -/
theorem runs_run_sample :
    ∃ s'', resolve sampleAnswered.handler (fun _ => true) (fun _ => .unreachable) (ascii "/cache")
        sampleAnswered.kind sampleAnswered.key
        [⟨ascii "eu", ascii "tpr", [ascii "b.net"], [], ascii "c"⟩]
        (runs (fun _ => true) (ascii "/cache") sampleBetween
          (sampleAnswered.run (fun _ => true) (ascii "/cache") ⟨fun _ => none, []⟩).2) =
        (.ok (some [0x72]), s'') ∧
      s''.files = (runs (fun _ => true) (ascii "/cache") sampleBetween
        (sampleAnswered.run (fun _ => true) (ascii "/cache") ⟨fun _ => none, []⟩).2).files ∧
      s''.downloads = (runs (fun _ => true) (ascii "/cache") sampleBetween
        (sampleAnswered.run (fun _ => true) (ascii "/cache") ⟨fun _ => none, []⟩).2).downloads := by
  have hpath : ∀ cdn ∈ sampleAnswered.cdns, cdn.path = ascii "tpr" := by decide
  refine runs_run (s := ⟨fun _ => none, []⟩) rfl hpath _ (fun c hc => ?_) _ rfl _
  simp only [sampleBetween, List.mem_cons, List.not_mem_nil, or_false] at hc
  rcases hc with rfl | rfl
  · exact sampleResolve_agree _ _ _ _
  · exact sampleResolve_agree _ _ _ _

end Tactmon
