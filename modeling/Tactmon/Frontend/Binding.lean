import Tactmon.Frontend.Download
import Tactmon.Lib.Replay
import Tactmon.Orm.Rendering

/-!
# Bound channels

`BindCommand` with the table `bound_channels`, and the cache that announcements go
through.  A command to bind inserts a row, a command to unbind deletes the rows of
its channel and product.  The primary key of the table has an id, so a channel that
is bound twice has two rows.

The statements are prepared as the texts that their queries render to, and the one
that deletes has no blank behind its `FROM`.  Which texts the database understands
is a parameter: `understands` says so, and a statement it does not understand changes
nothing.

Handlers run on a pool, and a refresh on another.  A run is any sequence of these
events: a command is received, a handler executes its statement, a refresh loads
the rows, a refresh fills the cache, the program is started again.

`Ledger` is what remains of this without rows: the commands that were handled, in
order, and how many of them the cache knows.  `run_agrees` says that the table and
the cache have a row for each binding of the ledger, and `run_announces` that an
announcement makes a thread for each that the cache knows.
-/

namespace Tactmon

namespace Frontend

open Backend Binary Cxx Orm Replay Text Zlib

/-! ## The command -/

/-- The parameters of `/bind`, with the guild and the channel of the interaction. -/
structure BindCommand where
  guildID : Nat
  channelID : Nat
  product : Bytes
  bind : Bool
deriving DecidableEq

/-- A statement on the table, with its parameters. -/
inductive BindStatement where
  | insert (guildID channelID : Nat) (productName : Bytes)
  | delete (channelID : Nat) (productName : Bytes)
deriving DecidableEq

namespace BindStatement

/-- `entity::bound_channel::guild_id`. -/
def guildIDColumn : Column ValueType := ⟨.literal "guild_id", .uint64⟩

/-- `entity::bound_channel::channel_id`. -/
def channelIDColumn : Column ValueType := ⟨.literal "channel_id", .uint64⟩

/-- `entity::bound_channel::product_name`. -/
def productNameColumn : Column ValueType := ⟨.literal "product_name", .string⟩

/-- `entity::bound_channel::Entity`. -/
def entity : Entity ValueType where
  name := .literal "bound_channels"
  schema := .literal "public"
  columns := [⟨.literal "id", .uint32⟩, guildIDColumn, channelIDColumn, productNameColumn]

/-- `entity::bound_channel::queries::Insert` and `Delete`. -/
def query : BindStatement → Component ValueType
  | .insert _ _ _ =>
      insertInto entity [(guildIDColumn, .parameter), (channelIDColumn, .parameter),
        (productNameColumn, .parameter)]
  | .delete _ _ =>
      .delete entity (.whereClause (.conjunction
        [equals (.column channelIDColumn) .parameter,
          equals (.column productNameColumn) .parameter]))

/-- The text of the statement is one that the database understands. -/
def understood (understands : Bytes → Bool) (statement : BindStatement) : Bool :=
  statement.query.toString.any understands

example : (delete 7 (ascii "wow")).query.toString =
    some (ascii ("DELETE FROMpublic.bound_channels WHERE ( channel_id = $1 AND " ++
      " product_name = $2)")) := by decide +kernel

end BindStatement

namespace BindCommand

/-- What is bound. -/
def pair (c : BindCommand) : Nat × Bytes := (c.channelID, c.product)

/-- What the command is for. -/
def update (c : BindCommand) : Update (Nat × Bytes) := ⟨c.pair, c.bind⟩

/-- `HandleSlashCommand`: its reply, and its statement. -/
def handle (c : BindCommand) : Bytes × BindStatement :=
  if !c.bind then
    (ascii "I will no longer announce pushes to `" ++ c.product ++
        ascii "` on this channel.\r\n:information_source: This may take a minute to apply.",
      .delete c.channelID c.product)
  else
    (ascii "I will announce pushes to `" ++ c.product ++
        ascii "` on this channel.\r\n:information_source: This may take a minute to apply.",
      .insert c.guildID c.channelID c.product)

end BindCommand

/-! ## The table -/

/-- A row of `bound_channels`. -/
structure BoundChannel where
  id : Nat
  guildID : Nat
  channelID : Nat
  productName : Bytes
deriving DecidableEq

/-- What a row binds. -/
def BoundChannel.pair (entity : BoundChannel) : Nat × Bytes :=
  (entity.channelID, entity.productName)

/-- The table `bound_channels`, with the sequence of its ids. -/
structure BoundChannels where
  rows : List BoundChannel
  nextId : Nat
  /-- The sequence is ahead of the ids. -/
  drawn : ∀ entity ∈ rows, entity.id < nextId
  /-- `bound_channels_pkey`, where the ids are distinct already. -/
  unique : (rows.map BoundChannel.id).Nodup

namespace BoundChannels

/-- A table without rows. -/
def empty : BoundChannels := ⟨[], 1, by simp, by simp⟩

theorem drawn_insert (t : BoundChannels) (entity : BoundChannel) (h : entity.id = t.nextId) :
    ∀ other ∈ t.rows ++ [entity], other.id < t.nextId + 1 := by
  intro other hmem
  obtain hmem | hmem := List.mem_append.mp hmem
  · exact Nat.lt_succ_of_lt (t.drawn other hmem)
  · obtain rfl := List.mem_singleton.mp hmem
    exact Nat.lt_succ_of_le (Nat.le_of_eq h)

theorem unique_insert (t : BoundChannels) (entity : BoundChannel) (h : entity.id = t.nextId) :
    ((t.rows ++ [entity]).map BoundChannel.id).Nodup := by
  rw [List.map_append, List.map_singleton, List.nodup_append_comm, List.singleton_append,
    List.nodup_cons]
  refine ⟨fun hmem => ?_, t.unique⟩
  obtain ⟨other, hother, hid⟩ := List.mem_map.mp hmem
  exact Nat.ne_of_lt (t.drawn other hother) (hid.trans h)

/-- Execute a statement that is understood. -/
def execute (t : BoundChannels) : BindStatement → BoundChannels
  | .insert guildID channelID productName =>
      { rows := t.rows ++ [⟨t.nextId, guildID, channelID, productName⟩]
        nextId := t.nextId + 1
        drawn := t.drawn_insert _ rfl
        unique := t.unique_insert _ rfl }
  | .delete channelID productName =>
      { rows := t.rows.filter fun entity =>
          ¬ (entity.channelID = channelID ∧ entity.productName = productName)
        nextId := t.nextId
        drawn := fun entity hmem => t.drawn entity (List.mem_filter.mp hmem).1
        unique := t.unique.sublist (List.filter_sublist.map _) }

/-- What the rows bind. -/
def pairs (t : BoundChannels) : List (Nat × Bytes) := t.rows.map BoundChannel.pair

end BoundChannels

/-! ## The program -/

/-- A command with its handler. -/
structure BindJob where
  command : BindCommand
  handled : Bool

/-- The table, the cache, the rows of a refresh on its way, and the commands in the
order they were received. -/
structure Binder where
  table : BoundChannels
  cache : Repository Nat BoundChannel
  loading : Option (List BoundChannel)
  jobs : List BindJob

/-- What happens next. -/
inductive BindEvent where
  /-- `OnSlashCommand` posts a handler. -/
  | receive (command : BindCommand)
  /-- A handler executes its statement, which may fail. -/
  | act (job : Nat) (succeeded : Bool)
  /-- `LoadFromDB_` executes the load statement, which may fail. -/
  | load (succeeded : Bool)
  /-- `LoadFromDB_` fills the cache. -/
  | fill
  /-- The program is started again.  What was not handled is lost. -/
  | restart

namespace Binder

/-- The first start, without rows. -/
def start : Binder := ⟨.empty, .initial, none, []⟩

/-- One event.  One that is not due changes nothing. -/
def step (understands : Bytes → Bool) (s : Binder) : BindEvent → Binder
  | .receive command => { s with jobs := s.jobs ++ [⟨command, false⟩] }
  | .act i succeeded =>
      match s.jobs[i]? with
      | some ⟨command, false⟩ =>
          { s with
            table :=
              if succeeded && command.handle.2.understood understands then
                s.table.execute command.handle.2
              else s.table
            jobs := s.jobs.set i ⟨command, true⟩ }
      | _ => s
  | .load succeeded =>
      match s.loading with
      | none => { s with loading := some (if succeeded then s.table.rows else []) }
      | some _ => s
  | .fill =>
      match s.loading with
      | none => s
      | some storage =>
          { s with
            cache := s.cache.loadFromDB BoundChannel.id (.committed storage)
            loading := none }
  | .restart => { s with cache := .initial, loading := none, jobs := [] }

/-- What `ForEach` gives to the handler of an announcement. -/
def channels (s : Binder) : List (Nat × Bytes) :=
  s.cache.storage.entries.map fun entry => entry.2.pair

end Binder

/-! ## The ledger -/

/-- The commands that wait, those that were handled, and the handled ones that a
refresh has on its way and that the cache knows. -/
structure Ledger where
  jobs : List BindJob
  handled : List (Update (Nat × Bytes))
  loading : Option (List (Update (Nat × Bytes)))
  known : List (Update (Nat × Bytes))

namespace Ledger

def start : Ledger := ⟨[], [], none, []⟩

/-- One event.  A command is handled when its statement succeeds and is understood.
A load that fails knows of nothing. -/
def step (understands : Bytes → Bool) (l : Ledger) : BindEvent → Ledger
  | .receive command => { l with jobs := l.jobs ++ [⟨command, false⟩] }
  | .act i succeeded =>
      match l.jobs[i]? with
      | some ⟨command, false⟩ =>
          { l with
            jobs := l.jobs.set i ⟨command, true⟩
            handled :=
              if succeeded && command.handle.2.understood understands then
                l.handled ++ [command.update]
              else l.handled }
      | _ => l
  | .load succeeded =>
      match l.loading with
      | none => { l with loading := some (if succeeded then l.handled else []) }
      | some _ => l
  | .fill =>
      match l.loading with
      | none => l
      | some log => { l with loading := none, known := log }
  | .restart => { l with jobs := [], loading := none, known := [] }

end Ledger

/-- How often a pair is bound: the commands to bind behind the last to unbind. -/
def bindings (log : List (Update (Nat × Bytes))) (pair : Nat × Bytes) : Nat :=
  ((log.reverse.filter fun update => decide (update.element = pair)).takeWhile
    Update.present).length

theorem bindings_concat (log : List (Update (Nat × Bytes))) (update : Update (Nat × Bytes))
    (pair : Nat × Bytes) :
    bindings (log ++ [update]) pair =
      if update.element = pair then if update.present then bindings log pair + 1 else 0
      else bindings log pair := by
  rw [bindings, List.reverse_append, List.reverse_singleton, List.singleton_append]
  by_cases hpair : update.element = pair
  · rw [List.filter_cons_of_pos (by simp [hpair]), if_pos hpair]
    cases hpresent : update.present with
    | true => rw [List.takeWhile_cons_of_pos hpresent, if_pos rfl, List.length_cons, bindings]
    | false =>
        rw [List.takeWhile_cons_of_neg (by simp [hpresent]), if_neg Bool.false_ne_true]
        rfl
  · rw [List.filter_cons_of_neg (by simp [hpair]), if_neg hpair, bindings]

/-- A command changes the rows as it changes the ledger. -/
theorem count_execute (t : BoundChannels) (command : BindCommand)
    (log : List (Update (Nat × Bytes))) (h : ∀ pair, t.pairs.count pair = bindings log pair)
    (pair : Nat × Bytes) :
    (t.execute command.handle.2).pairs.count pair = bindings (log ++ [command.update]) pair := by
  rw [bindings_concat]
  cases hbind : command.bind with
  | true =>
      have hexecute : (t.execute command.handle.2).pairs = t.pairs ++ [command.pair] := by
        rw [BindCommand.handle, hbind]
        exact List.map_append
      rw [hexecute, List.count_append, h, List.count_singleton,
        show command.update.element = command.pair from rfl,
        show command.update.present = true from hbind, if_pos rfl]
      by_cases hpair : command.pair = pair <;> simp [hpair]
  | false =>
      have hexecute : (t.execute command.handle.2).pairs =
          t.pairs.filter fun pair => decide (pair ≠ command.pair) := by
        rw [BindCommand.handle, hbind, BoundChannels.pairs, BoundChannels.pairs, List.filter_map]
        refine congrArg (List.map BoundChannel.pair) (List.filter_congr fun entity _ => ?_)
        exact decide_eq_decide.mpr (not_congr Prod.mk_inj.symm)
      rw [hexecute, show command.update.element = command.pair from rfl,
        show command.update.present = false from hbind, if_neg Bool.false_ne_true]
      by_cases hpair : command.pair = pair
      · rw [if_pos hpair, List.count_eq_zero]
        exact fun hmem => of_decide_eq_true (List.mem_filter.mp hmem).2 hpair.symm
      · rw [if_neg hpair, List.count_filter (by simp [Ne.symm hpair]), h]

/-! ## Runs -/

section Runs

variable (understands : Bytes → Bool)

/-- The rows that a refresh has on its way are as many as the bindings that it knows. -/
inductive Carries : Option (List BoundChannel) → Option (List (Update (Nat × Bytes))) → Prop where
  | none : Carries none none
  | some {rows : List BoundChannel} {log : List (Update (Nat × Bytes))}
      (unique : (rows.map BoundChannel.id).Nodup)
      (count : ∀ pair, (rows.map BoundChannel.pair).count pair = bindings log pair) :
      Carries (some rows) (some log)

/-- The table and the cache have a row for each binding. -/
structure Agrees (s : Binder) (l : Ledger) : Prop where
  jobs : s.jobs = l.jobs
  table : ∀ pair, s.table.pairs.count pair = bindings l.handled pair
  loading : Carries s.loading l.loading
  known : ∀ pair, s.channels.count pair = bindings l.known pair

theorem agrees_start : Agrees Binder.start Ledger.start :=
  ⟨rfl, fun _ => rfl, .none, fun _ => rfl⟩

/-- The channels of a cache that is filled. -/
theorem channels_fill (s : Binder) {rows : List BoundChannel}
    (hloading : s.loading = some rows) (hunique : (rows.map BoundChannel.id).Nodup) :
    (s.step understands .fill).channels.Perm (rows.map BoundChannel.pair) := by
  have hperm := FlatMap.entries_emplaceAll_perm BoundChannel.id hunique (m := FlatMap.empty)
    fun e he => absurd he List.not_mem_nil
  have hmap := hperm.map fun entry : Nat × BoundChannel => entry.2.pair
  rw [Binder.step, hloading]
  refine hmap.trans (.of_eq ?_)
  rw [List.map_append, List.map_map]
  rfl

theorem agrees_step {s : Binder} {l : Ledger} (h : Agrees s l) (event : BindEvent) :
    Agrees (s.step understands event) (l.step understands event) := by
  obtain ⟨hjobs, htable, hloading, hknown⟩ := h
  cases event with
  | receive command =>
      refine ⟨?_, htable, hloading, hknown⟩
      rw [Binder.step, Ledger.step, hjobs]
  | act i succeeded =>
      rw [Binder.step, Ledger.step, hjobs]
      split
      · refine ⟨rfl, ?_, hloading, hknown⟩
        dsimp only
        split
        · exact count_execute s.table _ l.handled htable
        · exact htable
      · exact ⟨hjobs, htable, hloading, hknown⟩
  | load succeeded =>
      obtain ⟨table, cache, loading, jobs⟩ := s
      obtain ⟨ledgerJobs, handled, ledgerLoading, known⟩ := l
      cases hloading with
      | none =>
          refine ⟨hjobs, htable, ?_, hknown⟩
          cases succeeded with
          | true => exact .some table.unique htable
          | false => exact .some List.nodup_nil fun _ => rfl
      | some unique count => exact ⟨hjobs, htable, .some unique count, hknown⟩
  | fill =>
      have hchannels := fun rows (hrows : s.loading = some rows) =>
        channels_fill understands s hrows
      obtain ⟨table, cache, loading, jobs⟩ := s
      obtain ⟨ledgerJobs, handled, ledgerLoading, known⟩ := l
      cases hloading with
      | none => exact ⟨hjobs, htable, .none, hknown⟩
      | some unique count =>
          refine ⟨hjobs, htable, .none, fun pair => ?_⟩
          rw [(hchannels _ rfl unique).count_eq]
          exact count pair
  | restart => exact ⟨rfl, htable, .none, fun _ => rfl⟩

/-- At any point of a run the table and the cache have a row for each binding. -/
theorem run_agrees (events : List BindEvent) :
    Agrees (events.foldl (Binder.step understands) .start)
      (events.foldl (Ledger.step understands) .start) := by
  induction events using List.reverseRecOn with
  | nil => exact agrees_start
  | append_singleton events event ih =>
      rw [List.foldl_concat, List.foldl_concat]
      exact agrees_step understands ih event

end Runs

/-! ## Announcements -/

section Announce

variable {Z : Inflate} {digest : Bytes → Digest} {build : Wow.Build Z} {call : Wow.LoadCall}
  {fresh product : Wow.Product} {hashlittle2 : Bytes → UInt32 × UInt32}

/-- A pair is as often in a list as its channel is among the channels of its product. -/
theorem count_channels (channels : List (Nat × Bytes)) (channelID : Nat) (productName : Bytes) :
    ((channels.filter fun channel => channel.2 = productName).map Prod.fst).count channelID =
      channels.count (channelID, productName) := by
  induction channels with
  | nil => rfl
  | cons channel channels ih =>
      obtain ⟨otherID, boundProduct⟩ := channel
      rw [List.filter_cons, List.count_cons]
      by_cases hproduct : boundProduct = productName
      · rw [if_pos (decide_eq_true hproduct), List.map_cons, List.count_cons, ih]
        by_cases hid : otherID = channelID <;> simp [hproduct, hid]
      · rw [if_neg (by simp [hproduct]), ih]
        simp [hproduct]

/-- An announcement of a published build at any point of a run.  A channel has a
thread for each binding to the product that the cache knows, and the threads have
the same messages. -/
theorem run_announces (understands : Bytes → Bool) (hserves : build.Serves digest call)
    (haligned : Wow.Root.Aligned build.root.canSkip build.root.blocks)
    (hload : call.run fresh = .ok (true, product)) (documentRoot productName : Bytes)
    (newBuild : NewBuild) (trackedFiles : List TrackedFile) (events : List BindEvent) :
    ∃ threads, announce documentRoot productName hashlittle2 product newBuild trackedFiles
        (events.foldl (Binder.step understands) .start).channels = .ok threads ∧
      (∀ channelID, (threads.map Thread.channelID).count channelID =
        bindings (events.foldl (Ledger.step understands) .start).known
          (channelID, productName)) ∧
      ∀ thread ∈ threads, thread.name = threadName newBuild ∧
        thread.messages = trackedFiles.filterMap fun trackedFile =>
          messageOf build hashlittle2 documentRoot productName product.base
            trackedFile.filePath := by
  refine ⟨_, announce_of_announceFiles (announceFiles_published hserves haligned hload
    documentRoot productName trackedFiles) newBuild _, fun channelID => ?_, fun thread hmem => ?_⟩
  · rw [List.map_map, ← (run_agrees understands events).known, ← count_channels]
    rfl
  · obtain ⟨channel, -, rfl⟩ := List.mem_map.mp hmem
    exact ⟨rfl, rfl⟩

end Announce

/-- A channel that is unbound and then bound twice, with a refresh behind the
commands. -/
def boundTwice : List BindEvent :=
  [.receive ⟨1, 7, ascii "wow", false⟩, .receive ⟨1, 7, ascii "wow", true⟩,
    .receive ⟨1, 7, ascii "wow", true⟩, .act 2 true, .act 0 true, .act 1 true, .load true, .fill]

/-- What a database understands that looks for the keywords. -/
def understandsInsert (text : Bytes) : Bool := (ascii "INSERT INTO ").isPrefixOf text

/-- The handler to unbind runs behind the first one to bind.  One thread is left,
or two where the database does not understand the statement that deletes. -/
theorem run_announces_sample :
    (∃ threads, announce (ascii "http://localhost") (ascii "wow") (fun _ => (0, 0))
        Wow.loadedSample
        ⟨[ascii "us"], ⟨1, ascii "wow", ascii "1.0", ascii "b0", ascii "c0", ascii "us"⟩⟩
        [] (boundTwice.foldl (Binder.step fun _ => true) .start).channels = .ok threads ∧
      (threads.map Thread.channelID).count 7 = 1) ∧
    ∃ threads, announce (ascii "http://localhost") (ascii "wow") (fun _ => (0, 0))
        Wow.loadedSample
        ⟨[ascii "us"], ⟨1, ascii "wow", ascii "1.0", ascii "b0", ascii "c0", ascii "us"⟩⟩
        [] (boundTwice.foldl (Binder.step understandsInsert) .start).channels = .ok threads ∧
      (threads.map Thread.channelID).count 7 = 2 := by
  have hannounces := fun understands => @run_announces _ _ _ _ _ _ (fun _ => (0, 0))
    understands Wow.delivers_sample.serves Wow.aligned_sample Wow.run_sample
    (ascii "http://localhost") (ascii "wow")
    ⟨[ascii "us"], ⟨1, ascii "wow", ascii "1.0", ascii "b0", ascii "c0", ascii "us"⟩⟩ []
    boundTwice
  obtain ⟨threads, hthreads, hcount, -⟩ := hannounces fun _ => true
  obtain ⟨others, hothers, hcount', -⟩ := hannounces understandsInsert
  exact ⟨⟨threads, hthreads, (hcount 7).trans (by decide +kernel)⟩,
    others, hothers, (hcount' 7).trans (by decide +kernel)⟩

end Frontend

end Tactmon
