import Tactmon.Backend.Repository
import Tactmon.Lib.Replay
import Tactmon.Lib.Text

/-!
# Tracking files

`TrackFileCommand` with the table `tracked_files` and the cache in front of it.
The handler asks the cache whether the file is tracked (`Any`), replies, and
then inserts or deletes.  The cache is filled from the table on a timer.

Handlers run on a pool, and a refresh on another, so a run is any sequence of
these events: a command is received, a handler looks into the cache, a handler
acts on the table, a refresh loads the rows, a refresh fills the cache.

* `Ordered` is what the commands are for: there is one row for each pair of the
  set that the handled commands give in the order they were received.
* `Timely` is when an act keeps that.  What the cache said has to be so in the
  table still, and a handler that was overtaken must leave its pair alone.
* `run_ordered_iff` lifts it to runs.

The schema has a unique index on the pair, and the insert has no conflict
clause, so with the index a second row is refused and the failure dropped.
-/

namespace Tactmon

namespace Frontend

open Binary Backend Conformance Replay Text

/-! ## Parameters of an interaction -/

/-- `dpp::command_value`.  The kinds that the command does not read are one. -/
inductive CommandValue where
  | monostate
  | text (value : Bytes)
  | other

/-- `std::get<std::monostate>`. -/
def CommandValue.monostate? : CommandValue → Option Unit
  | .monostate => some ()
  | _ => none

/-- `std::get<std::string>`. -/
def CommandValue.text? : CommandValue → Option Bytes
  | .text value => some value
  | _ => none

/-- `dpp::command_data_option`. -/
inductive CommandDataOption where
  | mk (name : Bytes) (value : CommandValue) (options : List CommandDataOption)

mutual
/-- `GetParameter` of an option. -/
def getParameterOf {T : Type} (get : CommandValue → Option T) (name : Bytes) :
    CommandDataOption → Option T
  | .mk optionName value options =>
      if optionName = name then get value else getParameter get name options

/-- `GetParameter`, and its loop over children. -/
def getParameter {T : Type} (get : CommandValue → Option T) (name : Bytes) :
    List CommandDataOption → Option T
  | [] => none
  | option :: options =>
      match getParameterOf get name option with
      | some value => some value
      | none => getParameter get name options
end

/-- The parameters of `/track`. -/
structure TrackCommand where
  isInsertionCommand : Bool
  product : Bytes
  filePath : Bytes
  displayName : Option Bytes
deriving DecidableEq

namespace TrackCommand

/-- The parameters that `HandleSlashCommand` reads.  It throws without a product
or a path. -/
def ofInteraction (options : List CommandDataOption) : Option TrackCommand := do
  let isInsertionCommand := getParameter CommandValue.monostate? (ascii "add") options
  let product ← getParameter CommandValue.text? (ascii "product") options
  let filePath ← getParameter CommandValue.text? (ascii "filepath") options
  let displayName := getParameter CommandValue.text? (ascii "displayname") options
  return ⟨isInsertionCommand.isSome, product, filePath, displayName⟩

/-- The interaction that Discord sends for a command, by `GetRegistrationInfo`. -/
def interaction (c : TrackCommand) : List CommandDataOption :=
  [.mk (ascii "filename") .monostate
    [.mk (ascii (if c.isInsertionCommand then "add" else "remove")) .monostate
      (.mk (ascii "product") (.text c.product) [] ::
        .mk (ascii "filepath") (.text c.filePath) [] ::
        match c.displayName with
        | none => []
        | some displayName => [.mk (ascii "displayname") (.text displayName) []])]]

/-- The handler reads what was sent. -/
theorem ofInteraction_interaction (c : TrackCommand) : ofInteraction c.interaction = some c := by
  obtain ⟨isInsertionCommand, product, filePath, displayName⟩ := c
  cases isInsertionCommand <;> cases displayName <;> rfl

/-- What is tracked. -/
def pair (c : TrackCommand) : Bytes × Bytes := (c.product, c.filePath)

/-- What the command is for: the pair is put in, or taken out. -/
def update (c : TrackCommand) : Update (Bytes × Bytes) := ⟨c.pair, c.isInsertionCommand⟩

end TrackCommand

/-! ## The table -/

/-- A row of `tracked_files`. -/
structure TrackedFile where
  id : Nat
  productName : Bytes
  filePath : Bytes
  displayName : Bytes
deriving DecidableEq

/-- What a row tracks. -/
def TrackedFile.pair (entry : TrackedFile) : Bytes × Bytes := (entry.productName, entry.filePath)

theorem TrackedFile.pair_eq {entry : TrackedFile} {productName filePath : Bytes} :
    entry.pair = (productName, filePath) ↔
      entry.productName = productName ∧ entry.filePath = filePath := Prod.mk_inj

/-- The table `tracked_files`, with the sequence of its ids. -/
structure TrackedFiles where
  rows : List TrackedFile
  nextId : Nat

/-- A statement on the table, with its parameters. -/
inductive TrackStatement where
  | insert (productName filePath displayName : Bytes)
  | delete (productName filePath : Bytes)

namespace TrackedFiles

/-- The pairs of the rows. -/
def pairs (t : TrackedFiles) : List (Bytes × Bytes) := t.rows.map TrackedFile.pair

/-- Execute a statement.  An insert draws an id, also when the index refuses it. -/
def execute (uniquePair : Bool) (t : TrackedFiles) : TrackStatement → TrackedFiles
  | .insert productName filePath displayName =>
      if uniquePair = true ∧ (productName, filePath) ∈ t.pairs then
        { t with nextId := t.nextId + 1 }
      else
        { rows := t.rows ++ [⟨t.nextId, productName, filePath, displayName⟩]
          nextId := t.nextId + 1 }
  | .delete productName filePath =>
      { t with rows := t.rows.filter fun entry =>
          ¬ (entry.productName = productName ∧ entry.filePath = filePath) }

theorem pairs_insert (uniquePair : Bool) (t : TrackedFiles) (productName filePath : Bytes)
    (displayName : Bytes) :
    (t.execute uniquePair (.insert productName filePath displayName)).pairs =
      if uniquePair = true ∧ (productName, filePath) ∈ t.pairs then t.pairs
      else t.pairs ++ [(productName, filePath)] := by
  rw [execute]
  split
  · rfl
  · exact List.map_append

theorem pairs_delete (uniquePair : Bool) (t : TrackedFiles) (productName filePath : Bytes) :
    (t.execute uniquePair (.delete productName filePath)).pairs =
      t.pairs.filter fun pair => pair ≠ (productName, filePath) := by
  rw [execute, pairs, pairs, List.filter_map]
  congr 1
  exact List.filter_congr fun entry _ => decide_eq_decide.mpr (not_congr TrackedFile.pair_eq.symm)

end TrackedFiles

/-! ## The handler -/

/-- The embed of `edit_response`. -/
structure Reply where
  description : Bytes
  footer : Option Bytes
deriving DecidableEq

/-- The footer of a reply to a command that changes the table. -/
def takesAMinute : Bytes := ascii "This may take a minute to apply."

/-- The rest of `HandleSlashCommand` behind `Any`, with `TrackedFile::Insert` and
`TrackedFile::Delete`. -/
def TrackCommand.handle (c : TrackCommand) (alreadyChecked : Bool) :
    Reply × Option TrackStatement :=
  let file := ascii "File `" ++ c.filePath
  if c.isInsertionCommand then
    if alreadyChecked then
      (⟨file ++ ascii "` is already tracked for product `" ++ c.product ++ ascii "`.", none⟩, none)
    else
      (⟨file ++ ascii "` is now tracked for product `" ++ c.product ++ ascii "`.",
          some takesAMinute⟩,
        some (.insert c.product c.filePath (c.displayName.getD c.filePath)))
  else if alreadyChecked then
    (⟨file ++ ascii "` is no longer tracked for product `" ++ c.product ++ ascii "`.",
        some takesAMinute⟩,
      some (.delete c.product c.filePath))
  else
    (⟨file ++ ascii "` is not currently tracked for product `" ++ c.product ++
        ascii "`. Did you forget to track it?", none⟩, none)

/-- What a handler does to the table. -/
def TrackedFiles.act (uniquePair : Bool) (t : TrackedFiles) (c : TrackCommand)
    (alreadyChecked : Bool) : TrackedFiles :=
  match (c.handle alreadyChecked).2 with
  | none => t
  | some statement => t.execute uniquePair statement

/-- How far a handler has come. -/
inductive Progress where
  | posted
  | looked (alreadyChecked : Bool)
  | handled
deriving DecidableEq

/-- A command with its handler. -/
structure Job where
  command : TrackCommand
  progress : Progress

/-- The table, the cache, the rows of a refresh on its way, the commands in the
order they were received, and the replies. -/
structure Tracker where
  table : TrackedFiles
  cache : Repository Nat TrackedFile
  loading : Option (List TrackedFile)
  jobs : List Job
  replies : List (Nat × Reply)

/-- What happens next. -/
inductive TrackEvent where
  /-- `OnSlashCommand` posts a handler. -/
  | receive (options : List CommandDataOption)
  /-- A handler looks into the cache and replies. -/
  | look (job : Nat)
  /-- A handler executes its statement, if it has one. -/
  | act (job : Nat)
  /-- `LoadFromDB_` executes the load statement. -/
  | load
  /-- `LoadFromDB_` fills the cache. -/
  | fill

namespace Tracker

/-- The predicate that the handler gives to `Any`. -/
def isTracked (cache : Repository Nat TrackedFile) (c : TrackCommand) : Bool :=
  cache.any fun entry => entry.productName = c.product ∧ entry.filePath = c.filePath

/-- Nothing received yet. -/
def start (table : TrackedFiles) (cache : Repository Nat TrackedFile) : Tracker :=
  ⟨table, cache, none, [], []⟩

section Run

variable (uniquePair : Bool)

/-- One event.  One that is not due changes nothing, and neither does a command
whose handler throws. -/
def step (s : Tracker) : TrackEvent → Tracker
  | .receive options =>
      match TrackCommand.ofInteraction options with
      | none => s
      | some c => { s with jobs := s.jobs ++ [⟨c, .posted⟩] }
  | .look i =>
      match s.jobs[i]? with
      | some ⟨c, .posted⟩ =>
          let alreadyChecked := isTracked s.cache c
          { s with
            jobs := s.jobs.set i ⟨c, .looked alreadyChecked⟩
            replies := s.replies ++ [(i, (c.handle alreadyChecked).1)] }
      | _ => s
  | .act i =>
      match s.jobs[i]? with
      | some ⟨c, .looked alreadyChecked⟩ =>
          { s with
            jobs := s.jobs.set i ⟨c, .handled⟩
            table := s.table.act uniquePair c alreadyChecked }
      | _ => s
  | .load => { s with loading := some s.table.rows }
  | .fill =>
      match s.loading with
      | none => s
      | some storage =>
          { s with
            cache := s.cache.loadFromDB TrackedFile.id (.committed storage)
            loading := none }

end Run

/-! ## What the commands are for -/

/-- The commands that are handled, in the order they were received. -/
def updates (jobs : List Job) : List (Update (Bytes × Bytes)) :=
  jobs.filterMap fun job =>
    if job.progress = .handled then some job.command.update else none

/-- There is one row for each pair of the set that the handled commands give. -/
structure Ordered (initial : Finset (Bytes × Bytes)) (s : Tracker) : Prop where
  one_row : s.table.pairs.Nodup
  in_order : s.table.pairs.toFinset = replay initial (updates s.jobs)

/-- A command for the pair that was received behind this one is handled already. -/
def Overtaken (s : Tracker) (i : Nat) (pair : Bytes × Bytes) : Prop :=
  Touches (updates (s.jobs.drop (i + 1))) pair

instance (s : Tracker) (i : Nat) (pair : Bytes × Bytes) : Decidable (s.Overtaken i pair) :=
  inferInstanceAs (Decidable (Touches _ pair))

/-- When an act is in time.  A handler that skips its statement needs the table to
be as the cache was, or to be overtaken.  One that executes it must not be
overtaken, unless that changes nothing, and needs the index if the row is there. -/
def Timely (uniquePair insertion alreadyChecked : Bool) (tracked overtaken : Prop) : Prop :=
  match insertion, alreadyChecked with
  | true, true => tracked ∨ overtaken
  | true, false => (tracked → uniquePair = true) ∧ (overtaken → tracked)
  | false, true => tracked → ¬ overtaken
  | false, false => tracked → overtaken

/-- Every act is in time. -/
def Meets (uniquePair : Bool) (s : Tracker) : TrackEvent → Prop
  | .act i => ∀ c alreadyChecked, s.jobs[i]? = some ⟨c, .looked alreadyChecked⟩ →
      Timely uniquePair c.isInsertionCommand alreadyChecked (c.pair ∈ s.table.pairs)
        (s.Overtaken i c.pair)
  | _ => True

/-! ## One act -/

/-- The pairs behind an act. -/
theorem pairs_act (uniquePair : Bool) (t : TrackedFiles) (c : TrackCommand)
    (alreadyChecked : Bool) :
    (t.act uniquePair c alreadyChecked).pairs =
      match c.isInsertionCommand, alreadyChecked with
      | true, false =>
          if uniquePair = true ∧ c.pair ∈ t.pairs then t.pairs else t.pairs ++ [c.pair]
      | false, true => t.pairs.filter fun pair => pair ≠ c.pair
      | _, _ => t.pairs := by
  rw [TrackedFiles.act, TrackCommand.handle]
  cases c.isInsertionCommand <;> cases alreadyChecked
  · rfl
  · exact TrackedFiles.pairs_delete uniquePair t c.product c.filePath
  · exact TrackedFiles.pairs_insert uniquePair t c.product c.filePath _
  · rfl

/-- An act is about its own pair. -/
theorem mem_pairs_act_of_ne (uniquePair : Bool) (t : TrackedFiles) (c : TrackCommand)
    (alreadyChecked : Bool) {pair : Bytes × Bytes} (h : pair ≠ c.pair) :
    pair ∈ (t.act uniquePair c alreadyChecked).pairs ↔ pair ∈ t.pairs := by
  rw [pairs_act]
  split
  · split <;> simp [h]
  · simp [h]
  · rfl

/-- An act in time leaves one row behind if its pair is to be there, and none if
not. -/
theorem timely_iff (uniquePair : Bool) {t : TrackedFiles} (hone : t.pairs.Nodup)
    (c : TrackCommand) (alreadyChecked : Bool) (overtaken : Prop) [Decidable overtaken] :
    (t.act uniquePair c alreadyChecked).pairs.Nodup ∧
        (c.pair ∈ (t.act uniquePair c alreadyChecked).pairs ↔
          if overtaken then c.pair ∈ t.pairs else c.isInsertionCommand = true) ↔
      Timely uniquePair c.isInsertionCommand alreadyChecked (c.pair ∈ t.pairs) overtaken := by
  rw [pairs_act]
  have hconcat : (t.pairs ++ [c.pair]).Nodup ↔ c.pair ∉ t.pairs := by
    rw [List.nodup_append_comm, List.singleton_append, List.nodup_cons, and_iff_left hone]
  by_cases htracked : c.pair ∈ t.pairs <;> by_cases ho : overtaken
  all_goals cases c.isInsertionCommand <;> cases alreadyChecked
  all_goals cases uniquePair <;> simp [Timely, *, hone.filter]

/-- Only commands that are handled count. -/
theorem updates_set {jobs : List Job} {i : Nat} {job : Job} (h : jobs[i]? = some job)
    (job' : Job) :
    updates (jobs.set i job') =
      updates (jobs.take i) ++ updates [job'] ++ updates (jobs.drop (i + 1)) := by
  have hi := (List.getElem?_eq_some_iff.mp h).1
  rw [List.set_eq_take_append_cons_drop, if_pos hi, updates, List.filterMap_append,
    ← List.singleton_append, List.filterMap_append, ← List.append_assoc]
  rfl

theorem updates_self {jobs : List Job} {i : Nat} {job : Job} (h : jobs[i]? = some job) :
    updates jobs = updates (jobs.take i) ++ updates [job] ++ updates (jobs.drop (i + 1)) := by
  obtain ⟨hi, rfl⟩ := List.getElem?_eq_some_iff.mp h
  have hset := updates_set h jobs[i]
  rwa [List.set_getElem_self] at hset

theorem updates_pending {job : Job} (h : job.progress ≠ .handled) : updates [job] = [] := by
  simp [updates, h]

/-- The set that the handled commands give once one more is handled. -/
theorem mem_replay_act {initial : Finset (Bytes × Bytes)} {s : Tracker} (hs : s.Ordered initial)
    {i : Nat} {c : TrackCommand} {alreadyChecked : Bool}
    (h : s.jobs[i]? = some ⟨c, .looked alreadyChecked⟩) (pair : Bytes × Bytes) :
    pair ∈ replay initial (updates (s.jobs.set i ⟨c, .handled⟩)) ↔
      if pair = c.pair then
        if s.Overtaken i c.pair then c.pair ∈ s.table.pairs else c.isInsertionCommand = true
      else pair ∈ s.table.pairs := by
  have hset : updates (s.jobs.set i ⟨c, .handled⟩) = updates (s.jobs.take i) ++
      c.update :: updates (s.jobs.drop (i + 1)) := by
    rw [updates_set h, List.append_assoc]
    rfl
  have hself : updates s.jobs = updates (s.jobs.take i) ++ updates (s.jobs.drop (i + 1)) := by
    rw [updates_self h, updates_pending (by simp), List.append_nil]
  rw [hset, mem_replay_middle, ← hself, ← hs.in_order, List.mem_toFinset]
  by_cases hpair : pair = c.pair
  · subst hpair
    by_cases ho : s.Overtaken i c.pair
    · rw [if_neg fun hn => hn.2 ho, if_pos rfl, if_pos ho]
    · rw [if_pos ⟨rfl, ho⟩, if_pos rfl, if_neg ho]
      rfl
  · rw [if_neg fun hn => hpair hn.1, if_neg hpair]

/-- An act keeps what the commands are for when it is in time, and only then. -/
theorem ordered_act_iff (uniquePair : Bool) {initial : Finset (Bytes × Bytes)} {s : Tracker}
    (hs : s.Ordered initial) {i : Nat} {c : TrackCommand} {alreadyChecked : Bool}
    (h : s.jobs[i]? = some ⟨c, .looked alreadyChecked⟩) :
    (s.step uniquePair (.act i)).Ordered initial ↔
      Timely uniquePair c.isInsertionCommand alreadyChecked (c.pair ∈ s.table.pairs)
        (s.Overtaken i c.pair) := by
  have hstep : s.step uniquePair (.act i) = { s with
      jobs := s.jobs.set i ⟨c, .handled⟩
      table := s.table.act uniquePair c alreadyChecked } := by
    rw [step, h]
  rw [hstep, ← timely_iff uniquePair hs.one_row c alreadyChecked (s.Overtaken i c.pair)]
  constructor
  · rintro ⟨hnodup, horder⟩
    have hmem := mem_replay_act hs h c.pair
    rw [← horder, List.mem_toFinset, if_pos rfl] at hmem
    exact ⟨hnodup, hmem⟩
  · rintro ⟨hnodup, hmem⟩
    refine ⟨hnodup, Finset.ext fun pair => ?_⟩
    rw [mem_replay_act hs h, List.mem_toFinset]
    split
    · rename_i hpair
      rw [hpair]
      exact hmem
    · rename_i hpair
      exact mem_pairs_act_of_ne uniquePair s.table c alreadyChecked hpair

/-! ## Runs -/

/-- What the commands are for is about the table and the handled commands. -/
theorem Ordered.congr {initial : Finset (Bytes × Bytes)} {s t : Tracker} (hs : s.Ordered initial)
    (htable : t.table = s.table) (hjobs : updates t.jobs = updates s.jobs) :
    t.Ordered initial := by
  constructor
  · rw [htable]
    exact hs.one_row
  · rw [htable, hjobs]
    exact hs.in_order

/-- An event keeps what the commands are for when its act is in time, and only
then. -/
theorem ordered_step_iff (uniquePair : Bool) {initial : Finset (Bytes × Bytes)} {s : Tracker}
    (hs : s.Ordered initial) (event : TrackEvent) :
    (s.step uniquePair event).Ordered initial ↔ s.Meets uniquePair event := by
  cases event with
  | receive options =>
      refine iff_of_true ?_ trivial
      rw [step]
      split
      · exact hs
      · refine hs.congr rfl ?_
        simp [updates]
  | look i =>
      refine iff_of_true ?_ trivial
      rw [step]
      split
      · rename_i c h
        refine hs.congr rfl ?_
        rw [updates_set h, updates_self h, updates_pending (by simp), updates_pending (by simp)]
      · exact hs
  | act i =>
      by_cases hlooked : ∃ c alreadyChecked, s.jobs[i]? = some ⟨c, .looked alreadyChecked⟩
      · obtain ⟨c, alreadyChecked, h⟩ := hlooked
        rw [ordered_act_iff uniquePair hs h]
        constructor
        · intro htimely c' alreadyChecked' h'
          cases h.symm.trans h'
          exact htimely
        · exact fun hmeets => hmeets c alreadyChecked h
      · refine iff_of_true ?_ fun c alreadyChecked h => absurd ⟨c, alreadyChecked, h⟩ hlooked
        rw [step]
        split
        · rename_i c alreadyChecked h
          exact absurd ⟨c, alreadyChecked, h⟩ hlooked
        · exact hs
  | load => exact iff_of_true (hs.congr rfl rfl) trivial
  | fill =>
      refine iff_of_true ?_ trivial
      rw [step]
      split
      · exact hs
      · exact hs.congr rfl rfl

/-- In every state of a run there is one row for each pair of the set that the
handled commands give, just when there was at first and every act is in time. -/
theorem run_ordered_iff (uniquePair : Bool) (table : TrackedFiles)
    (cache : Repository Nat TrackedFile) (events : List TrackEvent) :
    (∀ s ∈ states (step uniquePair) (start table cache) events,
        s.Ordered table.pairs.toFinset) ↔
      table.pairs.Nodup ∧
        Along (silent (step uniquePair)) (Meets uniquePair) (start table cache) events := by
  have hstart : (start table cache).Ordered table.pairs.toFinset ↔ table.pairs.Nodup :=
    ⟨fun h => h.one_row, fun h => ⟨h, rfl⟩⟩
  rw [forall_states_iff, hstart]
  refine and_congr_right fun hone => ?_
  exact Along.iff_of_step (fun s => s.Ordered table.pairs.toFinset)
    (fun s event => (step uniquePair s event).Ordered table.pairs.toFinset)
    (fun hs _ => ordered_step_iff uniquePair hs _)
    (fun hs _ hmeets => (ordered_step_iff uniquePair hs _).mpr hmeets) events
    (hstart.mpr hone) (.of_forall (P := fun _ _ => True) (fun _ _ => trivial) _ events)

/-! ## Between two refreshes -/

/-- `/track filename add`, or `remove`, for one file. -/
def sampleCommand (isInsertionCommand : Bool) : TrackCommand :=
  ⟨isInsertionCommand, ascii "wow", ascii "Wow.exe", none⟩

/-- A command that is received and handled at once. -/
def handledAtOnce (job : Nat) (isInsertionCommand : Bool) : List TrackEvent :=
  [.receive (sampleCommand isInsertionCommand).interaction, .look job, .act job]

/-- A file that is added is not removed until the cache is refreshed, and without the
index it is added twice. -/
theorem run_ordered_wrong :
    (¬ ∀ s ∈ states (step true) (start ⟨[], 1⟩ .initial)
        (handledAtOnce 0 true ++ handledAtOnce 1 false), s.Ordered ∅) ∧
    (¬ ∀ s ∈ states (step false) (start ⟨[], 1⟩ .initial)
        (handledAtOnce 0 true ++ handledAtOnce 1 false), s.Ordered ∅) ∧
    ¬ ∀ s ∈ states (step false) (start ⟨[], 1⟩ .initial)
        (handledAtOnce 0 true ++ handledAtOnce 1 true), s.Ordered ∅ := by
  refine ⟨fun h => ?_, fun h => ?_, fun h => ?_⟩
  all_goals obtain ⟨-, -, -, -, -, -, hlast, -⟩ := (forall_states_iff _).mp h
  · exact absurd hlast.in_order (by decide)
  · exact absurd hlast.in_order (by decide)
  · exact absurd hlast.one_row (by decide)

end Tracker

end Frontend

end Tactmon
