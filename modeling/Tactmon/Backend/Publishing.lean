import Tactmon.Backend.Listener

/-!
# Publishing new builds

What the listener publishes, notification by notification.  The builds it
gathers are the groups of the rows it has inserted since the program started
(`Gathers`), and a row that is inserted has an id that no row had before.  So
once something was gathered, the first build of every later notification is an
old one.

`Notified.published_iff` is the step: a notification publishes its own builds,
each group once, exactly when nothing was gathered before it and no call in
between throws.
-/

namespace Tactmon

namespace Backend

open Binary Text Grouping

/-! ## Notifications -/

/-- The rows that were inserted. -/
def inserted (events : List Event) : List BuildRow :=
  events.filterMap fun event =>
    match event with
    | .insert row => some row
    | _ => none

/-- The calls of `LoadConfiguration`. -/
def publications (events : List Event) : List Publication :=
  events.filterMap fun event =>
    match event with
    | .load publication _ => some publication
    | _ => none

theorem inserted_append (xs ys : List Event) : inserted (xs ++ ys) = inserted xs ++ inserted ys :=
  List.filterMap_append

theorem publications_append (xs ys : List Event) :
    publications (xs ++ ys) = publications xs ++ publications ys := List.filterMap_append

/-- What makes two rows one build. -/
def BuildRow.key (row : BuildRow) : Bytes × Bytes × Bytes :=
  (row.buildName, row.buildConfig, row.cdnConfig)

/-- The build is not known in the region, and the statement that inserts it
succeeds, with an id that no row has. -/
def isNew (env : Environment) (buildName : Bytes) (version : Ribbit.Versions) (s : Captured) :
    Bool :=
  s.builds.getByBuildName (env.statement s.log.length) buildName version.region = none &&
    env.statement (s.log.length + 1) &&
    decide (env.nextval (s.log.length + 1) ∉ s.builds.rows.map BuildRow.id)

/-- What the versions ask for, behind those that had a new build or not.  If a
resolution throws, there is no new build in front of it.  Otherwise nothing was
gathered before the notification, and no call of `LoadConfiguration` but the
last throws. -/
def PublishesOwn (env : Environment) (productName : Bytes) (cdns : List Ribbit.CDN)
    (gathered : List NewBuild) : Bool → List Ribbit.Versions → Captured → Prop
  | _, [], s => gathered = [] ∧
      ∀ i, i + 1 < s.newBuilds.length → env.load (s.log.length + i) = true
  | found, version :: versions, s =>
      match resolveConfiguration env cdns version.buildConfig s with
      | (.error _, _) => found = false
      | (.ok none, s) => PublishesOwn env productName cdns gathered found versions s
      | (.ok (some buildConfig), s) =>
          PublishesOwn env productName cdns gathered
            (found || isNew env buildConfig.buildName version s) versions
            (insertBuild env productName buildConfig.buildName version s)

/-- The responses to a notification, if it asks for them and there are any, let
it publish its own builds only. -/
def Captured.Meets (env : Environment) (productName : Bytes) (s : Captured) : Prop :=
  env.isAwareOf productName = true → ∀ versions cdns,
    env.versions s.log.length = .ok (some versions) →
    env.cdns (s.log.length + 1) = .ok (some cdns) →
      PublishesOwn env productName cdns s.newBuilds false versions
        ((s.note (.query true)).note (.query true))

/-- A notification that was handled. -/
structure Notified where
  productName : Bytes
  before : Captured
  after : Captured

namespace Notified

/-- What happened meanwhile. -/
def events (n : Notified) : List Event := n.after.log.drop n.before.log.length

/-- The builds that were inserted are published, each once, for this product
and with its regions. -/
structure Published (n : Notified) : Prop where
  named : ∀ p ∈ publications n.events, p.productName = n.productName
  calls : ((publications n.events).map fun p => (p.configuration.key, p.regions)).Perm
    (((inserted n.events).map BuildRow.key).dedup.map fun k =>
      (k, (withKey BuildRow.key (inserted n.events) k).map BuildRow.region))
  fresh : ∀ p ∈ publications n.events, p.configuration ∈ inserted n.events

/-- The responses let the notification publish its own builds only. -/
def Meets (env : Environment) (n : Notified) : Prop := n.before.Meets env n.productName

end Notified

/-- The notifications of a run. -/
def notifications (env : Environment) : Captured → List (Bytes × UInt64) → List Notified
  | _, [] => []
  | s, (productName, sequenceID) :: updates =>
      let after := (listener env true productName sequenceID s).2
      ⟨productName, s, after⟩ :: notifications env after updates

/-! ## Gathering -/

/-- A new build as a group of rows. -/
def NewBuild.group (build : NewBuild) : Group BuildRow Bytes := ⟨build.configuration, build.regions⟩

/-- The builds gathered so far are the groups of the rows. -/
structure Gathers (rows : List BuildRow) (s : Captured) : Prop where
  grouped : Grouped BuildRow.key BuildRow.region rows (s.newBuilds.map NewBuild.group)
  stored : rows ⊆ s.builds.rows

/-- What the listener does before it publishes: rows are inserted, and
gathered. -/
structure Moved (s s' : Captured) (rows : List BuildRow) : Prop where
  log : ∃ events, s'.log = s.log ++ events ∧ inserted events = rows ∧ publications events = []
  table : s'.builds.rows = s.builds.rows ++ rows
  gathers : ∀ {before}, Gathers before s → Gathers (before ++ rows) s'
  head : ∀ {build builds}, s.newBuilds = build :: builds →
    ∃ build' builds', s'.newBuilds = build' :: builds' ∧
      build'.configuration = build.configuration

namespace Moved

variable {s s₁ s₂ : Captured} {rows rows' : List BuildRow}

/-- Nothing but the log and the files has changed. -/
theorem of_log (events : List Event) (hlog : s₁.log = s.log ++ events)
    (hevents : inserted events = [] ∧ publications events = [])
    (hbuilds : s₁.newBuilds = s.newBuilds ∧ s₁.builds = s.builds) : Moved s s₁ [] where
  log := ⟨events, hlog, hevents⟩
  table := by rw [hbuilds.2, List.append_nil]
  gathers := fun h => by
    rw [List.append_nil]
    exact ⟨by rw [hbuilds.1]; exact h.grouped, by rw [hbuilds.2]; exact h.stored⟩
  head := fun h => ⟨_, _, hbuilds.1.trans h, rfl⟩

theorem refl (s : Captured) : Moved s s [] :=
  of_log [] (List.append_nil _).symm ⟨rfl, rfl⟩ ⟨rfl, rfl⟩

theorem trans (h : Moved s s₁ rows) (h' : Moved s₁ s₂ rows') : Moved s s₂ (rows ++ rows') where
  log := by
    obtain ⟨events, hlog, hins, hpub⟩ := h.log
    obtain ⟨events', hlog', hins', hpub'⟩ := h'.log
    refine ⟨events ++ events', by rw [hlog', hlog, List.append_assoc], ?_, ?_⟩
    · rw [inserted_append, hins, hins']
    · rw [publications_append, hpub, hpub', List.append_nil]
  table := by rw [h'.table, h.table, List.append_assoc]
  gathers := fun hbefore => by
    rw [← List.append_assoc]
    exact h'.gathers (h.gathers hbefore)
  head := fun hs => by
    obtain ⟨build, builds, hs₁, hconf⟩ := h.head hs
    obtain ⟨build', builds', hs₂, hconf'⟩ := h'.head hs₁
    exact ⟨build', builds', hs₂, hconf'.trans hconf⟩

/-- A row that is inserted has an id of its own. -/
theorem fresh (h : Moved s s₁ rows) {row : BuildRow} (hrow : row ∈ rows) :
    row ∉ s.builds.rows := by
  have hunique := s₁.builds.unique
  rw [h.table, List.map_append] at hunique
  intro hold
  exact List.disjoint_of_nodup_append hunique (List.mem_map_of_mem hold)
    (List.mem_map_of_mem hrow)

end Moved

/-- Gathering a row is adding it to the groups. -/
theorem map_addBuild (buildName : Bytes) (version : Ribbit.Versions) (row : BuildRow)
    (newBuilds : List NewBuild) :
    (addBuild buildName version row newBuilds).map NewBuild.group =
      Grouping.add (sameBuild buildName version) row version.region
        (newBuilds.map NewBuild.group) := by
  induction newBuilds with
  | nil => rfl
  | cons build newBuilds ih =>
      rw [addBuild, List.map_cons, Grouping.add, NewBuild.group]
      split
      · rfl
      · rw [List.map_cons, ih, NewBuild.group]

theorem addBuild_head (buildName : Bytes) (version : Ribbit.Versions) (row : BuildRow)
    (build : NewBuild) (newBuilds : List NewBuild) :
    ∃ build' newBuilds', addBuild buildName version row (build :: newBuilds) =
      build' :: newBuilds' ∧ build'.configuration = build.configuration := by
  rw [addBuild]
  split
  · exact ⟨_, _, rfl, rfl⟩
  · exact ⟨_, _, rfl, rfl⟩

/-- Rows with different ids are the same build exactly when they have one key. -/
theorem sameBuild_iff {buildName : Bytes} {version : Ribbit.Versions} {leader row : BuildRow}
    (hid : leader.id ≠ row.id)
    (hkey : row.key = (buildName, version.buildConfig, version.cdnConfig)) :
    sameBuild buildName version leader row = true ↔ leader.key = row.key := by
  rw [hkey, sameBuild, BuildRow.key, decide_eq_false hid]
  simp only [Bool.false_or, Bool.and_eq_true, decide_eq_true_iff, Prod.mk.injEq]
  exact ⟨fun ⟨⟨hname, hcdn⟩, hbuild⟩ => ⟨hname, hbuild, hcdn⟩,
    fun ⟨hname, hbuild, hcdn⟩ => ⟨⟨hname, hcdn⟩, hbuild⟩⟩

section Steps

variable (env : Environment)

/-- A row that is inserted joins its build, or opens one. -/
theorem insert_moved {buildName : Bytes} {version : Ribbit.Versions} {s : Captured}
    {row : BuildRow} {builds : Builds} (hid : row.id ∉ s.builds.rows.map BuildRow.id)
    (hkey : row.key = (buildName, version.buildConfig, version.cdnConfig))
    (hregion : row.region = version.region) (hbuilds : builds.rows = s.builds.rows ++ [row]) :
    Moved s ({ s with
      builds, newBuilds := addBuild buildName version row s.newBuilds }.note (.insert row))
      [row] where
  log := ⟨[.insert row], rfl, rfl, rfl⟩
  table := hbuilds
  gathers := fun {before} h => by
    have hsame : ∀ group ∈ s.newBuilds.map NewBuild.group,
        sameBuild buildName version group.leader row = true ↔ group.leader.key = row.key := by
      intro group hgroup
      refine sameBuild_iff (fun hleader => hid ?_) hkey
      rw [← hleader]
      exact List.mem_map_of_mem (h.stored (h.grouped.leader_mem group hgroup))
    refine ⟨?_, ?_⟩
    · show Grouped _ _ _ ((addBuild buildName version row s.newBuilds).map NewBuild.group)
      rw [map_addBuild, ← hregion]
      exact h.grouped.add hsame
    · show before ++ [row] ⊆ builds.rows
      rw [hbuilds]
      exact List.append_subset.mpr
        ⟨List.subset_append_of_subset_left _ h.stored, List.subset_append_right _ _⟩
  head := fun {build newBuilds} hs => by
    show ∃ build' newBuilds', addBuild buildName version row s.newBuilds = _ ∧ _
    rw [hs]
    exact addBuild_head buildName version row build newBuilds

/-- A row is inserted exactly where the build is new. -/
theorem insertBuild_moved (productName buildName : Bytes) (version : Ribbit.Versions)
    (s : Captured) :
    ∃ rows, Moved s (insertBuild env productName buildName version s) rows ∧
      (rows = [] ↔ isNew env buildName version s = false) := by
  rw [insertBuild, isNew]
  cases hquery : s.builds.getByBuildName (env.statement s.log.length) buildName
      version.region with
  | some row =>
      exact ⟨[], .of_log [.statement] rfl ⟨rfl, rfl⟩ ⟨rfl, rfl⟩, iff_of_true rfl rfl⟩
  | none =>
      have hasked : Moved s (s.note .statement) [] :=
        .of_log [.statement] rfl ⟨rfl, rfl⟩ ⟨rfl, rfl⟩
      have hlength : (s.note .statement).log.length = s.log.length + 1 := List.length_append
      have hsame : (s.note .statement).builds = s.builds := rfl
      dsimp only
      rw [hlength, hsame]
      rcases Builds.insert_cases s.builds (env.statement (s.log.length + 1))
        ⟨env.nextval (s.log.length + 1), productName, buildName, version.buildConfig,
          version.cdnConfig, version.region⟩ with ⟨hnot, h⟩ | ⟨hnew, builds, h, hbuilds⟩
      · rw [h]
        refine ⟨_, hasked.trans (.of_log [.statement] rfl ⟨rfl, rfl⟩ ⟨rfl, rfl⟩),
          iff_of_true rfl ?_⟩
        simpa using hnot
      · rw [h]
        refine ⟨_, hasked.trans (insert_moved hnew.2 rfl rfl hbuilds),
          iff_of_false (List.cons_ne_nil _ _) ?_⟩
        simpa using hnew

theorem resolveConfiguration_moved (cdns : List Ribbit.CDN) (key : Bytes) (s : Captured) :
    Moved s (resolveConfiguration env cdns key s).2 [] := by
  have hresolve : ∀ uses : List Use,
      inserted (uses.map .resolve) = [] ∧ publications (uses.map .resolve) = [] := fun uses =>
    ⟨by rw [inserted, List.filterMap_map]; exact List.filterMap_none _,
      by rw [publications, List.filterMap_map]; exact List.filterMap_none _⟩
  exact .of_log _ rfl (hresolve _) ⟨rfl, rfl⟩

/-- Rows in front of other rows. -/
theorem rows_eq_nil_iff {found new : Bool} {rows rows' : List BuildRow}
    (hnew : rows = [] ↔ new = false) :
    (found || new) = false ∧ rows' = [] ↔ found = false ∧ rows ++ rows' = [] := by
  rw [Bool.or_eq_false_iff, List.append_eq_nil_iff, hnew, and_assoc]

/-- What the loop inserts, and when it lets the notification publish its own
builds only. -/
theorem onVersions_moved (productName : Bytes) (cdns : List Ribbit.CDN)
    (gathered : List NewBuild) (versions : List Ribbit.Versions) :
    ∀ (found : Bool) (s : Captured), ∃ rows,
      Moved s (onVersions env productName cdns versions s).2 rows ∧
      (PublishesOwn env productName cdns gathered found versions s ↔
        if (onVersions env productName cdns versions s).1 then
          gathered = [] ∧ ∀ i,
            i + 1 < (onVersions env productName cdns versions s).2.newBuilds.length →
            env.load ((onVersions env productName cdns versions s).2.log.length + i) = true
        else found = false ∧ rows = []) := by
  induction versions with
  | nil => exact fun found s => ⟨[], .refl s, Iff.rfl⟩
  | cons version versions ih =>
      intro found s
      have hresolve := resolveConfiguration_moved env cdns version.buildConfig s
      rw [onVersions, PublishesOwn]
      cases hresult : resolveConfiguration env cdns version.buildConfig s with
      | mk result s' =>
          rw [hresult] at hresolve
          cases result with
          | error e => exact ⟨_, hresolve, (and_iff_left rfl).symm⟩
          | ok config =>
              cases config with
              | none =>
                  obtain ⟨rows, hrest, hown⟩ := ih found s'
                  exact ⟨_, hresolve.trans hrest, hown⟩
              | some config =>
                  obtain ⟨row, hinsert, hnew⟩ :=
                    insertBuild_moved env productName config.buildName version s'
                  obtain ⟨rows, hrest, hown⟩ := ih (found || isNew env config.buildName version s')
                    (insertBuild env productName config.buildName version s')
                  refine ⟨_, (hresolve.trans hinsert).trans hrest, hown.trans ?_⟩
                  rw [List.nil_append, rows_eq_nil_iff hnew]

/-- What is gathered by a notification, and whether its responses let it publish
its own builds only. -/
theorem collect_moved (productName : Bytes) (s : Captured) :
    ∃ rows, Moved s (collect env productName s).2 rows ∧
      match collect env productName s with
      | (.left, _) => rows = [] ∧ s.Meets env productName
      | (.threw, _) => s.Meets env productName ↔ rows = []
      | (.ready, s') => s.Meets env productName ↔ s.newBuilds = [] ∧
          ∀ i, i + 1 < s'.newBuilds.length → env.load (s'.log.length + i) = true := by
  have hasked : ∀ (s : Captured) (returned : Bool), Moved s (s.note (.query returned)) [] :=
    fun s returned => .of_log [.query returned] rfl ⟨rfl, rfl⟩ ⟨rfl, rfl⟩
  have hboth := fun returned returned' =>
    (hasked s returned).trans (hasked (s.note (.query returned)) returned')
  have hlength : ∀ returned, (s.note (.query returned)).log.length = s.log.length + 1 :=
    fun _ => List.length_append
  rw [collect]
  cases haware : env.isAwareOf productName with
  | false => exact ⟨[], .refl s, rfl, fun h => by cases haware.symm.trans h⟩
  | true =>
      rw [Bool.not_true, if_neg Bool.false_ne_true]
      dsimp only
      rw [hlength]
      cases hversions : env.versions s.log.length with
      | error e =>
          refine ⟨[], hasked s _, iff_of_true (fun _ versions cdns h => ?_) rfl⟩
          cases hversions.symm.trans h
      | ok versions =>
          dsimp only
          cases hcdns : env.cdns (s.log.length + 1) with
          | error e =>
              refine ⟨[], hboth _ _, iff_of_true (fun _ versions cdns _ h => ?_) rfl⟩
              cases hcdns.symm.trans h
          | ok cdns =>
              cases versions with
              | none =>
                  have hmeets : s.Meets env productName := fun _ versions cdns h => by
                    cases hversions.symm.trans h
                  cases cdns with
                  | none => exact ⟨[], hboth _ _, rfl, hmeets⟩
                  | some cdns => exact ⟨[], hboth _ _, rfl, hmeets⟩
              | some versions =>
                  cases cdns with
                  | none =>
                      refine ⟨[], hboth _ _, rfl, fun _ versions cdns _ h => ?_⟩
                      cases hcdns.symm.trans h
                  | some cdns =>
                      have hmeets : s.Meets env productName ↔
                          PublishesOwn env productName cdns s.newBuilds false versions
                            ((s.note (.query true)).note (.query true)) := by
                        constructor
                        · exact fun h => h haware versions cdns hversions hcdns
                        · intro h _ versions' cdns' hversions' hcdns'
                          cases hversions.symm.trans hversions'
                          cases hcdns.symm.trans hcdns'
                          exact h
                      obtain ⟨rows, hmoved, hown⟩ := onVersions_moved env productName cdns
                        s.newBuilds versions false ((s.note (.query true)).note (.query true))
                      dsimp only [Except.isOk, Except.toBool]
                      rcases hloop : onVersions env productName cdns versions
                        ((s.note (.query true)).note (.query true)) with ⟨returned, s'⟩
                      rw [hloop] at hmoved hown
                      refine ⟨rows, ?_, ?_⟩
                      · cases returned with
                        | true => exact (hboth true true).trans hmoved
                        | false => exact (hboth true true).trans hmoved
                      · cases returned with
                        | true => exact hmeets.trans hown
                        | false => exact hmeets.trans (hown.trans (and_iff_right rfl))

/-- The call of `LoadConfiguration` for a build. -/
def NewBuild.publication (productName : Bytes) (build : NewBuild) : Publication :=
  ⟨productName, build.configuration, build.regions⟩

/-- The loop over `newBuilds` loads the builds in order, up to the first call
that throws. -/
theorem publish_publications (productName : Bytes) (newBuilds : List NewBuild) :
    ∀ s : Captured, ∃ events, (publish env productName newBuilds s).2.log = s.log ++ events ∧
      inserted events = [] ∧
      publications events <+: newBuilds.map (NewBuild.publication productName) ∧
      (publications events = [] → newBuilds = []) ∧
      (publications events = newBuilds.map (NewBuild.publication productName) ↔
        ∀ i, i + 1 < newBuilds.length → env.load (s.log.length + i) = true) := by
  induction newBuilds with
  | nil =>
      intro s
      exact ⟨[], (List.append_nil _).symm, rfl, List.prefix_refl _, fun _ => rfl,
        iff_of_true rfl fun i hi => absurd hi (Nat.not_lt_zero _)⟩
  | cons build newBuilds ih =>
      intro s
      rw [publish]
      split
      · rename_i hload
        obtain ⟨events, hlog, hins, hpre, -, hall⟩ :=
          ih (s.note (.load (build.publication productName) true))
        refine ⟨.load (build.publication productName) true :: events, ?_, hins, ?_, nofun, ?_⟩
        · exact hlog.trans (by rw [Captured.note, List.append_assoc, List.singleton_append])
        · exact List.prefix_cons_inj _ |>.mpr hpre
        · show build.publication productName :: publications events = _ ↔ _
          rw [List.map_cons, List.cons.injEq, and_iff_right rfl, hall, Captured.note,
            List.length_append, List.length_singleton, List.length_cons]
          constructor
          · intro h i hi
            cases i with
            | zero => exact hload
            | succ i =>
                have hi' := h i (Nat.lt_of_succ_lt_succ hi)
                rwa [Nat.add_assoc, Nat.add_comm 1 i] at hi'
          · intro h i hi
            rw [Nat.add_assoc, Nat.add_comm 1 i]
            exact h (i + 1) (Nat.succ_lt_succ hi)
      · rename_i hload
        refine ⟨[.load (build.publication productName) false], rfl, rfl, ?_, nofun, ?_⟩
        · exact List.prefix_cons_inj _ |>.mpr (List.nil_prefix)
        · show [build.publication productName] = _ ↔ _
          rw [List.map_cons, List.cons.injEq, and_iff_right rfl, List.length_cons]
          cases newBuilds with
          | nil =>
              exact iff_of_true rfl fun i hi => absurd hi (Nat.not_lt_of_le (Nat.le_add_left 1 i))
          | cons build' newBuilds =>
              refine iff_of_false (by rw [List.map_cons]; exact nofun) fun h => hload ?_
              exact h 0 (Nat.succ_lt_succ (Nat.succ_pos _))

theorem publish_keeps (productName : Bytes) (newBuilds : List NewBuild) :
    ∀ s : Captured, (publish env productName newBuilds s).2.newBuilds = s.newBuilds ∧
      (publish env productName newBuilds s).2.builds = s.builds := by
  induction newBuilds with
  | nil => exact fun s => ⟨rfl, rfl⟩
  | cons build newBuilds ih =>
      intro s
      rw [publish]
      split
      · exact ih _
      · exact ⟨rfl, rfl⟩

end Steps

/-! ## One notification -/

namespace Notified

variable {n : Notified}

theorem events_eq {events : List Event} (h : n.after.log = n.before.log ++ events) :
    n.events = events := by
  rw [Notified.events, h, List.drop_left]

/-- A notification that publishes nothing. -/
theorem published_of_none (h : publications n.events = []) :
    n.Published ↔ inserted n.events = [] := by
  constructor
  · intro hn
    have hcalls := hn.calls
    rw [h, List.map_nil, List.nil_perm, List.map_eq_nil_iff, List.dedup_eq_nil,
      List.map_eq_nil_iff] at hcalls
    exact hcalls
  · intro hnone
    refine ⟨fun p hp => ?_, ?_, fun p hp => ?_⟩
    · rw [h] at hp
      exact absurd hp List.not_mem_nil
    · rw [h, hnone]
      exact .refl _
    · rw [h] at hp
      exact absurd hp List.not_mem_nil

/-- A notification that gathered its own builds only. -/
theorem published_of_own {newBuilds : List NewBuild}
    (hgrouped : Grouped BuildRow.key BuildRow.region (inserted n.events)
      (newBuilds.map NewBuild.group))
    (hpre : publications n.events <+: newBuilds.map (NewBuild.publication n.productName)) :
    n.Published ↔
      publications n.events = newBuilds.map (NewBuild.publication n.productName) := by
  constructor
  · intro hn
    refine hpre.eq_of_length ?_
    have hcalls := hn.calls.length_eq
    have hgroups := hgrouped.perm.length_eq
    rw [List.length_map] at hcalls hgroups
    rw [hcalls, ← hgroups, List.length_map, List.length_map]
  · intro hall
    refine ⟨fun p hp => ?_, ?_, fun p hp => ?_⟩
    · rw [hall] at hp
      obtain ⟨build, -, rfl⟩ := List.mem_map.mp hp
      rfl
    · rw [hall, List.map_map]
      have hperm := hgrouped.perm
      rw [List.map_map] at hperm
      exact hperm
    · rw [hall] at hp
      obtain ⟨build, hbuild, rfl⟩ := List.mem_map.mp hp
      exact hgrouped.leader_mem _ (List.mem_map_of_mem hbuild)

/-- A notification that publishes a build gathered before it. -/
theorem not_published_of_old {rows : List BuildRow} {old build : NewBuild}
    {newBuilds : List NewBuild} {s : Captured} (hbefore : Gathers rows n.before)
    (hmoved : Moved n.before s (inserted n.events)) (hold : old ∈ n.before.newBuilds)
    (hconf : build.configuration = old.configuration)
    (hpre : publications n.events <+:
      (build :: newBuilds).map (NewBuild.publication n.productName))
    (hsome : publications n.events ≠ []) : ¬ n.Published := by
  intro hn
  obtain ⟨p, ps, hp⟩ := List.exists_cons_of_ne_nil hsome
  rw [hp, List.map_cons, List.cons_prefix_cons] at hpre
  have hfresh := hn.fresh p (by rw [hp]; exact List.mem_cons_self)
  rw [hpre.1] at hfresh
  refine hmoved.fresh hfresh ?_
  show build.configuration ∈ n.before.builds.rows
  rw [hconf]
  exact hbefore.stored (hbefore.grouped.leader_mem _ (List.mem_map_of_mem hold))

variable (env : Environment)

/-- A notification that ends before the loop over `newBuilds`. -/
theorem published_of_moved {s : Captured} {rows : List BuildRow} (hafter : n.after = s)
    (hmoved : Moved n.before s rows) : n.Published ↔ rows = [] := by
  obtain ⟨events, hlog, hins, hpub⟩ := hmoved.log
  have hevents := n.events_eq ((congrArg Captured.log hafter).trans hlog)
  rw [published_of_none (by rw [hevents, hpub]), hevents, hins]

/-- A notification that comes to the loop over `newBuilds`. -/
theorem published_of_ready {s : Captured} {rows rows' : List BuildRow}
    (hafter : n.after = (publish env n.productName s.newBuilds s).2)
    (hbefore : Gathers rows n.before) (hmoved : Moved n.before s rows') :
    n.Published ↔ n.before.newBuilds = [] ∧
      ∀ i, i + 1 < s.newBuilds.length → env.load (s.log.length + i) = true := by
  obtain ⟨events, hlog, hins, hpub⟩ := hmoved.log
  obtain ⟨loads, hloads, hnone, hpre, hsome, hall⟩ :=
    publish_publications env n.productName s.newBuilds s
  have hevents : n.events = events ++ loads := by
    refine n.events_eq ((congrArg Captured.log hafter).trans (hloads.trans ?_))
    rw [hlog, List.append_assoc]
  have hinserted : inserted n.events = rows' := by
    rw [hevents, inserted_append, hins, hnone, List.append_nil]
  have hpublished : publications n.events = publications loads := by
    rw [hevents, publications_append, hpub, List.nil_append]
  cases hnew : n.before.newBuilds with
  | nil =>
      have hgathers := hmoved.gathers hbefore
      have hrows : rows = [] := by
        rw [← hbefore.grouped.eq_nil_iff, hnew, List.map_nil]
      rw [hrows, List.nil_append] at hgathers
      rw [and_iff_right rfl, ← hall, ← hpublished]
      exact published_of_own (by rw [hinserted]; exact hgathers.grouped)
        (by rw [hpublished]; exact hpre)
  | cons old olds =>
      obtain ⟨build, newBuilds, hbuilds, hconf⟩ := hmoved.head hnew
      rw [hbuilds] at hpre hsome
      refine iff_of_false (not_published_of_old hbefore (by rw [hinserted]; exact hmoved)
        (by rw [hnew]; exact List.mem_cons_self) hconf (by rw [hpublished]; exact hpre) ?_)
        (fun h => List.cons_ne_nil _ _ h.1)
      rw [hpublished]
      exact fun h => List.cons_ne_nil _ _ (hsome h)

/-- A notification publishes its builds exactly when it finds nothing gathered,
and nothing throws in between. -/
theorem published_iff {rows : List BuildRow} {sequenceID : UInt64}
    (hafter : n.after = (listener env true n.productName sequenceID n.before).2)
    (hbefore : Gathers rows n.before) : n.Published ↔ n.Meets env := by
  obtain ⟨rows', hmoved, hmeets⟩ := collect_moved env n.productName n.before
  rw [listener] at hafter
  rw [Meets]
  rcases hcollect : collect env n.productName n.before with ⟨collected, s⟩
  rw [hcollect] at hafter hmoved hmeets
  cases collected with
  | left =>
      obtain ⟨hnone, hmeets⟩ := hmeets
      exact (published_of_moved hafter hmoved).trans (iff_of_true hnone hmeets)
  | threw => exact (published_of_moved hafter hmoved).trans hmeets.symm
  | ready => exact (published_of_ready env hafter hbefore hmoved).trans hmeets.symm

end Notified

/-! ## Runs -/

section Run

variable (env : Environment)

/-- What is gathered stays gathered. -/
theorem listener_gathers (proxyServer : Bool) (productName : Bytes) (sequenceID : UInt64)
    {rows : List BuildRow} {s : Captured} (h : Gathers rows s) :
    ∃ rows', Gathers rows' (listener env proxyServer productName sequenceID s).2 := by
  obtain ⟨rows', hmoved, -⟩ := collect_moved env productName s
  have hgathers := hmoved.gathers h
  rw [listener]
  split
  · rename_i s' hcollect
    rw [hcollect] at hgathers
    exact ⟨_, hgathers⟩
  · rename_i s' hcollect
    rw [hcollect] at hgathers
    exact ⟨_, hgathers⟩
  · rename_i s' hcollect
    rw [hcollect] at hgathers
    split
    · obtain ⟨hnew, hbuilds⟩ := publish_keeps env productName s'.newBuilds s'
      refine ⟨rows ++ rows', ?_, ?_⟩
      · rw [hnew]
        exact hgathers.grouped
      · rw [hbuilds]
        exact hgathers.stored
    · exact ⟨_, hgathers⟩

theorem gathers_start (builds : Builds) (files : Files) : Gathers [] (.start builds files) where
  grouped := .nil
  stored := List.nil_subset _

theorem published_of_gathers (updates : List (Bytes × UInt64)) :
    ∀ {rows : List BuildRow} {s : Captured}, Gathers rows s →
      ∀ n ∈ notifications env s updates, n.Published ↔ n.Meets env := by
  induction updates with
  | nil => exact fun _ _ h => absurd h List.not_mem_nil
  | cons update updates ih =>
      intro rows s h n hn
      rw [notifications] at hn
      rcases List.mem_cons.mp hn with rfl | hn
      · exact Notified.published_iff env rfl h
      · obtain ⟨rows', h'⟩ := listener_gathers env true update.1 update.2 h
        exact ih h' n hn

/-- Every notification of a run publishes its own builds, each once, exactly
when none finds a build gathered before it and nothing throws in between. -/
theorem notifications_published_iff (builds : Builds) (files : Files)
    (updates : List (Bytes × UInt64)) :
    (∀ n ∈ notifications env (.start builds files) updates, n.Published) ↔
      ∀ n ∈ notifications env (.start builds files) updates, n.Meets env :=
  forall₂_congr fun n hn => published_of_gathers env updates (gathers_start builds files) n hn

end Run

/-- One version, for the first notification only. -/
def sampleVersion : Ribbit.Versions :=
  ⟨ascii "us", ascii "0123", ascii "4567", [], 1, ascii "1.0", ascii "p"⟩

/-- A build configuration that is cached, for a product with one version. -/
def sampleEnvironment : Environment where
  isAwareOf _ := true
  versions n := .ok (some (if n = 0 then [sampleVersion] else []))
  cdns _ := .ok (some [⟨ascii "us", ascii "tpr/wow", [], [], ascii "tpr/configs"⟩])
  root := ascii "/cache"
  namable _ := true
  exchange _ := .unreachable
  statement _ := true
  nextval _ := 1
  load _ := true

/-- A build of `wow`, and then an update of `wow_beta` without one. -/
def sampleNotified : List Notified :=
  notifications sampleEnvironment (.start ⟨[], .nil⟩ fun _ => some (ascii "build-name = A"))
    [(ascii "wow", 1), (ascii "wow_beta", 1)]

/-- The build of `wow` is published again, as one of `wow_beta`. -/
theorem sample_published_again : ¬ ∀ n ∈ sampleNotified, n.Published := by
  intro h
  have hshape : sampleNotified.map (fun n => (n.productName, (publications n.events).map
      Publication.productName, inserted n.events)) =
      [(ascii "wow", [ascii "wow"], [⟨1, ascii "wow", ascii "A", ascii "0123", ascii "4567",
        ascii "us"⟩]), (ascii "wow_beta", [ascii "wow_beta"], [])] := by decide
  obtain ⟨first, run, hrun, -, hrest⟩ := List.map_eq_cons_iff.mp hshape
  obtain ⟨second, run', hrun', hsecond, -⟩ := List.map_eq_cons_iff.mp hrest
  rw [Prod.mk.injEq, Prod.mk.injEq] at hsecond
  obtain ⟨p, hp, -⟩ := List.mem_map.mp (hsecond.2.1 ▸ List.mem_singleton.mpr rfl)
  have hfresh := (h second (by rw [hrun, hrun']; simp)).fresh p hp
  rw [hsecond.2.2] at hfresh
  exact absurd hfresh List.not_mem_nil

end Backend

end Tactmon
