import Tactmon.Backend.RibbitMonitor
import Tactmon.Lib.Conformance

/-!
# Synchronising commands with Discord

`Discord::HandleGuildCreate` registers the commands of the bot with a guild.  A
command is sent only if its row in `command_states` does not match its
registration info (`requiresSynchronization`), and the row is then written by
`InsertOrUpdate`.

The conflict target of that statement is the primary key, which the database
draws from a sequence, so there is never a conflict and the statement only
inserts (`insertOrUpdate_eq`).  The schema has a unique index on the name.  With
it a second version of a command is never stored, and without it there are two
rows, which are taken for none; `run_synchronized_iff` says that a command is in
step only as long as its registration info never changes.

A row says which info was sent, and does not say to whom (`run_registered_iff`).
-/

namespace Tactmon

namespace Frontend

open Binary Backend Conformance

/-! ## Registration info -/

/-- `dpp::command_option`, with the fields that are hashed. -/
inductive CommandOption where
  | mk (name : Bytes) (type : UInt8) (description : Bytes) (required autocomplete : Bool)
      (options : List CommandOption)

/-- `dpp::slashcommand`.  The fields that are not hashed are `rest`. -/
structure SlashCommand (R : Type) where
  name : Bytes
  description : Bytes
  options : List CommandOption
  rest : R

/-- `boost::hash_combine`, for each type that is hashed. -/
structure Combine where
  text : UInt64 → Bytes → UInt64
  kind : UInt64 → UInt8 → UInt64
  flag : UInt64 → Bool → UInt64
  number : UInt64 → UInt32 → UInt64

mutual
/-- `hashOption` of `Discord::Hash`. -/
def hashOption (combine : Combine) (hash : UInt64) : CommandOption → UInt64
  | .mk name type description required autocomplete options =>
      let hash := combine.text hash name
      let hash := combine.kind hash type
      let hash := combine.text hash description
      let hash := combine.flag hash required
      let hash := combine.flag hash autocomplete
      hashOptions combine hash options

/-- The loops over options. -/
def hashOptions (combine : Combine) (hash : UInt64) : List CommandOption → UInt64
  | [] => hash
  | option :: options => hashOptions combine (hashOption combine hash option) options
end

variable {R : Type}

/-- `Discord::Hash`. -/
def hash (combine : Combine) (command : SlashCommand R) : UInt64 :=
  hashOptions combine (combine.text (combine.text 0 command.name) command.description)
    command.options

/-! ## The table -/

/-- A row of `command_states`. -/
structure CommandRow where
  id : Nat
  name : Bytes
  hash : UInt64
  version : UInt32
deriving DecidableEq, Repr

/-- The table `command_states`, with the sequence of its primary key. -/
structure CommandStates where
  rows : List CommandRow
  nextId : Nat
  /-- The sequence has not drawn the ids that it will draw. -/
  drawn : ∀ row ∈ rows, row.id < nextId

/-- What the schema adds to the statements. -/
structure Schema where
  /-- `command_state_uniq_name`. -/
  uniqueName : Bool
  /-- Whether the columns hold the values. -/
  holds : UInt64 → UInt32 → Bool

namespace CommandStates

/-- The rows of a command. -/
def named (t : CommandStates) (name : Bytes) : List CommandRow := t.rows.filter (·.name = name)

/-- `SelectByName`. -/
def findCommand (t : CommandStates) (name : Bytes) : Option CommandRow :=
  executeOne true (t.named name)

/-- `UPDATE SET name, hash, version` of the row in conflict. -/
def updateFromExcluded (t : CommandStates) (excluded : CommandRow) : CommandStates where
  rows := t.rows.map fun row =>
    if row.id = excluded.id then { excluded with id := row.id } else row
  nextId := t.nextId
  drawn row h := by
    obtain ⟨old, hold, rfl⟩ := List.mem_map.mp h
    split <;> exact t.drawn old hold

/-- The row is added. -/
def insert (t : CommandStates) (name : Bytes) (hash : UInt64) (version : UInt32) :
    CommandStates where
  rows := t.rows ++ [⟨t.nextId, name, hash, version⟩]
  nextId := t.nextId + 1
  drawn row h := by
    rcases List.mem_append.mp h with h | h
    · exact Nat.lt_succ_of_lt (t.drawn row h)
    · rw [List.mem_singleton.mp h]
      exact Nat.lt_succ_self t.nextId

/-- `InsertOrUpdate`.  A statement that fails leaves the table as it was. -/
def insertOrUpdate (schema : Schema) (t : CommandStates) (name : Bytes) (hash : UInt64)
    (version : UInt32) : CommandStates :=
  if schema.holds hash version then
    match t.rows.find? (·.id = t.nextId) with
    | some _ => t.updateFromExcluded ⟨t.nextId, name, hash, version⟩
    | none =>
        if schema.uniqueName ∧ t.named name ≠ [] then t else t.insert name hash version
  else t

/-- There is never a conflict. -/
theorem insertOrUpdate_eq (schema : Schema) (t : CommandStates) (name : Bytes) (hash : UInt64)
    (version : UInt32) :
    t.insertOrUpdate schema name hash version =
      if schema.holds hash version = true ∧ ¬ (schema.uniqueName = true ∧ t.named name ≠ []) then
        t.insert name hash version
      else t := by
  have hnone : t.rows.find? (·.id = t.nextId) = none :=
    List.find?_eq_none.mpr fun row h => by
      simpa using Nat.ne_of_lt (t.drawn row h)
  rw [insertOrUpdate, hnone]
  by_cases hholds : schema.holds hash version = true
  · by_cases hunique : schema.uniqueName = true
    · by_cases hnamed : t.named name = [] <;> simp [hholds, hunique, hnamed]
    · simp [hholds, hunique]
  · simp [hholds]

theorem named_insert (t : CommandStates) (name other : Bytes) (hash : UInt64)
    (version : UInt32) :
    (t.insert name hash version).named other =
      t.named other ++ if name = other then [⟨t.nextId, name, hash, version⟩] else [] := by
  rw [named, insert, List.filter_append]
  split <;> simp [named, *]

/-- Only rows of the command are written. -/
theorem named_insertOrUpdate_of_ne (schema : Schema) (t : CommandStates) {name other : Bytes}
    (h : name ≠ other) (hash : UInt64) (version : UInt32) :
    (t.insertOrUpdate schema name hash version).named other = t.named other := by
  rw [insertOrUpdate_eq]
  split
  · rw [named_insert, if_neg h, List.append_nil]
  · rfl

end CommandStates

/-! ## Guild events -/

/-- `Discord::RequiresSynchronization`. -/
def requiresSynchronization (combine : Combine) (t : CommandStates) (command : SlashCommand R) :
    Bool × UInt64 × UInt32 :=
  match t.findCommand command.name with
  | none => (true, hash combine command, 1)
  | some record =>
      (decide (combine.number (hash combine command) record.version ≠ record.hash),
        hash combine command, record.version + 1)

/-- The table, and what was sent to each guild, in order. -/
structure Bot (R : Type) where
  commandStates : CommandStates
  sent : List (UInt64 × SlashCommand R)

/-- `guild_create_t` with the registration info that the commands have then. -/
structure GuildCreate (R : Type) where
  created : Option UInt64
  commands : List (SlashCommand R)
  /-- Commands have names of their own. -/
  distinct : (commands.map SlashCommand.name).Nodup

/-- One turn of the loop of `HandleGuildCreate`. -/
def synchronize (combine : Combine) (schema : Schema) (guild : UInt64) (bot : Bot R)
    (registrationInfo : SlashCommand R) : Bot R :=
  let (needsUpdate, hash, newVersion) :=
    requiresSynchronization combine bot.commandStates registrationInfo
  if needsUpdate then
    { commandStates := bot.commandStates.insertOrUpdate schema registrationInfo.name
        (combine.number hash newVersion) newVersion
      sent := bot.sent ++ [(guild, registrationInfo)] }
  else bot

theorem synchronize_eq (combine : Combine) (schema : Schema) (guild : UInt64) (bot : Bot R)
    (info : SlashCommand R) :
    synchronize combine schema guild bot info =
      let decision := requiresSynchronization combine bot.commandStates info
      if decision.1 = true then
        { commandStates := bot.commandStates.insertOrUpdate schema info.name
            (combine.number decision.2.1 decision.2.2) decision.2.2
          sent := bot.sent ++ [(guild, info)] }
      else bot := rfl

/-- `Discord::HandleGuildCreate`. -/
def handleGuildCreate (combine : Combine) (schema : Schema) (bot : Bot R)
    (event : GuildCreate R) : Bot R :=
  match event.created with
  | none => bot
  | some guild => event.commands.foldl (synchronize combine schema guild) bot

/-- The registration that was last sent to a guild for a command. -/
def Bot.lastSent (bot : Bot R) (guild : UInt64) (name : Bytes) : Option (SlashCommand R) :=
  ((bot.sent.filter fun s => s.1 = guild ∧ s.2.name = name).getLast?).map Prod.snd

/-! ## One command at a time -/

/-- Two states have the same rows of a command and have sent the same of it. -/
structure SameFor (name : Bytes) (bot bot' : Bot R) : Prop where
  named : bot.commandStates.named name = bot'.commandStates.named name
  lastSent : ∀ guild, bot.lastSent guild name = bot'.lastSent guild name

theorem SameFor.refl (name : Bytes) (bot : Bot R) : SameFor name bot bot := ⟨rfl, fun _ => rfl⟩

theorem SameFor.trans {name : Bytes} {b₁ b₂ b₃ : Bot R} (h₁ : SameFor name b₁ b₂)
    (h₂ : SameFor name b₂ b₃) : SameFor name b₁ b₃ :=
  ⟨h₁.named.trans h₂.named, fun guild => (h₁.lastSent guild).trans (h₂.lastSent guild)⟩

/-- The decision looks at the rows of the command. -/
theorem requiresSynchronization_congr (combine : Combine) {t t' : CommandStates}
    {command : SlashCommand R} (h : t.named command.name = t'.named command.name) :
    requiresSynchronization combine t command = requiresSynchronization combine t' command := by
  rw [requiresSynchronization, requiresSynchronization, CommandStates.findCommand,
    CommandStates.findCommand, h]

theorem lastSent_concat (t : CommandStates) (sent : List (UInt64 × SlashCommand R))
    (guild guild' : UInt64) (info : SlashCommand R) (name : Bytes) :
    (Bot.mk t (sent ++ [(guild, info)])).lastSent guild' name =
      if guild = guild' ∧ info.name = name then some info
      else (Bot.mk t sent).lastSent guild' name := by
  rw [Bot.lastSent, List.filter_append]
  by_cases h : guild = guild' ∧ info.name = name
  · simp [h]
  · rw [if_neg h, List.filter_cons_of_neg (by simpa using h), List.filter_nil, List.append_nil]
    rfl

variable (combine : Combine) (schema : Schema)

/-- A turn of the loop leaves the other commands alone. -/
theorem synchronize_other (guild : UInt64) (bot : Bot R) (info : SlashCommand R) {name : Bytes}
    (h : info.name ≠ name) : SameFor name (synchronize combine schema guild bot info) bot := by
  rw [synchronize_eq]
  dsimp only
  split
  · exact ⟨CommandStates.named_insertOrUpdate_of_ne schema _ h _ _,
      fun guild' => by rw [lastSent_concat, if_neg fun hs => h hs.2]; rfl⟩
  · exact .refl name bot

theorem foldl_other (guild : UInt64) (commands : List (SlashCommand R)) {name : Bytes}
    (h : ∀ info ∈ commands, info.name ≠ name) (bot : Bot R) :
    SameFor name (commands.foldl (synchronize combine schema guild) bot) bot := by
  induction commands generalizing bot with
  | nil => exact .refl name bot
  | cons info commands ih =>
      rw [List.forall_mem_cons] at h
      exact (ih h.2 _).trans (synchronize_other combine schema guild bot info h.1)

/-- In a whole event, a command is synchronised as if it were the only one. -/
theorem foldl_mem (guild : UInt64) {commands : List (SlashCommand R)}
    (hdistinct : (commands.map SlashCommand.name).Nodup) {info : SlashCommand R}
    (h : info ∈ commands) (bot : Bot R) :
    ∃ before, SameFor info.name before bot ∧
      SameFor info.name (commands.foldl (synchronize combine schema guild) bot)
        (synchronize combine schema guild before info) := by
  obtain ⟨before, after, rfl⟩ := List.append_of_mem h
  rw [List.map_append, List.map_cons, List.nodup_append, List.nodup_cons] at hdistinct
  obtain ⟨-, ⟨hafter, -⟩, hbefore⟩ := hdistinct
  refine ⟨before.foldl (synchronize combine schema guild) bot,
    foldl_other combine schema guild before (fun i hi heq => ?_) bot, ?_⟩
  · exact hbefore _ (List.mem_map_of_mem hi) _ List.mem_cons_self heq
  · rw [List.foldl_append, List.foldl_cons]
    exact foldl_other combine schema guild after
      (fun i hi heq => hafter (List.mem_map.mpr ⟨i, hi, heq⟩)) _

/-! ## Every guild gets every command -/

/-- Behind an event, the guild was last sent what the commands are now. -/
def Registered (bot : Bot R) (event : GuildCreate R) : Prop :=
  ∀ guild, event.created = some guild → ∀ info ∈ event.commands,
    (handleGuildCreate combine schema bot event).lastSent guild info.name = some info

/-- Every command of the event has to be updated, or was last sent to this guild
as it is now. -/
def Due (bot : Bot R) (event : GuildCreate R) : Prop :=
  ∀ guild, event.created = some guild → ∀ info ∈ event.commands,
    (requiresSynchronization combine bot.commandStates info).1 = true ∨
      bot.lastSent guild info.name = some info

/-- A command is sent when it has to be updated, and only then. -/
theorem lastSent_synchronize_iff (guild : UInt64) (bot : Bot R) (info : SlashCommand R) :
    (synchronize combine schema guild bot info).lastSent guild info.name = some info ↔
      (requiresSynchronization combine bot.commandStates info).1 = true ∨
        bot.lastSent guild info.name = some info := by
  rw [synchronize_eq]
  dsimp only
  split
  · rename_i hneeds
    rw [lastSent_concat, if_pos ⟨rfl, rfl⟩]
    exact ⟨fun _ => .inl hneeds, fun _ => rfl⟩
  · rename_i hneeds
    exact ⟨.inr, fun h => h.resolve_left hneeds⟩

theorem registered_iff (bot : Bot R) (event : GuildCreate R) :
    Registered combine schema bot event ↔ Due combine bot event := by
  refine forall_congr' fun guild => forall_congr' fun hcreated => forall_congr' fun info =>
    forall_congr' fun hinfo => ?_
  obtain ⟨before, hbefore, hafter⟩ :=
    foldl_mem combine schema guild event.distinct hinfo bot
  have hhandle : handleGuildCreate combine schema bot event
      = event.commands.foldl (synchronize combine schema guild) bot := by
    rw [handleGuildCreate, hcreated]
  rw [hhandle, hafter.lastSent, lastSent_synchronize_iff,
    requiresSynchronization_congr combine hbefore.named, hbefore.lastSent]

/-- Along every sequence of events, every guild has every command behind its
event just when each command was due or known to the guild. -/
theorem run_registered_iff (events : List (GuildCreate R)) (bot : Bot R) :
    Along (silent (handleGuildCreate combine schema)) (Registered combine schema) bot events ↔
      Along (silent (handleGuildCreate combine schema)) (Due combine) bot events :=
  Along.iff_of_step (fun _ => True) _
    (fun _ _ => registered_iff combine schema _ _) (fun _ _ _ => trivial) events trivial
    (.of_forall (P := fun _ _ => True) (fun _ _ => trivial) bot events)

/-! ## A fixpoint -/

/-- The version that is stored for a command. -/
def storedVersion (t : CommandStates) (name : Bytes) : UInt32 :=
  match t.findCommand name with
  | none => 0
  | some record => record.version

/-- What `HandleGuildCreate` is to leave behind for a command: no need to update
it again, and one row, with the next version if it was updated. -/
structure Synchronized (t t' : CommandStates) (info : SlashCommand R) : Prop where
  settled : (requiresSynchronization combine t' info).1 = false
  one_row : ∃ row, t'.named info.name = [row] ∧
    row.version = if (requiresSynchronization combine t info).1 = true
      then storedVersion t info.name + 1 else storedVersion t info.name

/-- The hash that is stored with a version of a command. -/
def versioned (info : SlashCommand R) (version : UInt32) : UInt64 :=
  combine.number (hash combine info) version

/-- The rows of a command let it be synchronised: there is none and the columns
hold its first version, or there is one and it matches. -/
def Settling (rows : List CommandRow) (info : SlashCommand R) : Prop :=
  match rows with
  | [] => schema.holds (versioned combine info 1) 1 = true
  | [row] => versioned combine info row.version = row.hash
  | _ => False

theorem findCommand_eq {t : CommandStates} {name : Bytes} {row : CommandRow} :
    t.findCommand name = some row ↔ t.named name = [row] := by
  rw [CommandStates.findCommand, executeOne_eq_some]
  exact and_iff_right rfl

theorem findCommand_none {t : CommandStates} {name : Bytes}
    (h : ∀ row, t.named name ≠ [row]) : t.findCommand name = none := by
  cases hfind : t.findCommand name with
  | none => rfl
  | some row => exact absurd (findCommand_eq.mp hfind) (h row)

theorem requiresSynchronization_none {t : CommandStates} {info : SlashCommand R}
    (h : ∀ row, t.named info.name ≠ [row]) :
    requiresSynchronization combine t info = (true, hash combine info, 1) := by
  rw [requiresSynchronization, findCommand_none h]

theorem requiresSynchronization_some {t : CommandStates} {info : SlashCommand R}
    {row : CommandRow} (h : t.named info.name = [row]) :
    requiresSynchronization combine t info =
      (decide (versioned combine info row.version ≠ row.hash), hash combine info,
        row.version + 1) := by
  rw [requiresSynchronization, findCommand_eq.mpr h]
  rfl

/-- The rows of a command behind its turn. -/
def rowsAfter (rows : List CommandRow) (nextId : Nat) (info : SlashCommand R) : List CommandRow :=
  match rows with
  | [] => [⟨nextId, info.name, versioned combine info 1, 1⟩]
  | rows => rows

/-- A turn that settles a command adds its first version or changes nothing. -/
theorem named_synchronize (guild : UInt64) (bot : Bot R) (info : SlashCommand R)
    (h : Settling combine schema (bot.commandStates.named info.name) info) :
    (synchronize combine schema guild bot info).commandStates.named info.name
      = rowsAfter combine (bot.commandStates.named info.name) bot.commandStates.nextId info := by
  rw [synchronize_eq]
  dsimp only
  match hrows : bot.commandStates.named info.name with
  | [] =>
      rw [hrows] at h
      rw [requiresSynchronization_none combine (by simp [hrows])]
      simp only [if_true, CommandStates.insertOrUpdate_eq]
      rw [if_pos ⟨h, fun hunique => hunique.2 hrows⟩, CommandStates.named_insert, hrows,
        if_pos rfl]
      rfl
  | [row] =>
      rw [hrows] at h
      rw [requiresSynchronization_some combine hrows]
      have hmatch : versioned combine info row.version = row.hash := h
      simp [hmatch, hrows, rowsAfter]
  | first :: second :: rest =>
      rw [hrows] at h
      exact absurd h id

/-- A turn adds at most one row of the command. -/
theorem named_synchronize_cases (guild : UInt64) (bot : Bot R) (info : SlashCommand R) :
    (synchronize combine schema guild bot info).commandStates.named info.name
        = bot.commandStates.named info.name ∨
      (∃ row, (synchronize combine schema guild bot info).commandStates.named info.name
        = bot.commandStates.named info.name ++ [row]) ∧
        let decision := requiresSynchronization combine bot.commandStates info
        schema.holds (combine.number decision.2.1 decision.2.2) decision.2.2 = true := by
  rw [synchronize_eq]
  dsimp only
  split
  · simp only [CommandStates.insertOrUpdate_eq]
    split
    · rename_i hinsert
      refine .inr ⟨?_, hinsert.1⟩
      rw [CommandStates.named_insert, if_pos rfl]
      exact ⟨_, rfl⟩
    · exact .inl rfl
  · exact .inl rfl

/-- A command is synchronised by its turn just when its rows let it be. -/
theorem synchronized_iff (guild : UInt64) (bot : Bot R) (info : SlashCommand R) :
    Synchronized combine bot.commandStates
        (synchronize combine schema guild bot info).commandStates info ↔
      Settling combine schema (bot.commandStates.named info.name) info := by
  have hafter := named_synchronize combine schema guild bot info
  have hcases := named_synchronize_cases combine schema guild bot info
  match hrows : bot.commandStates.named info.name with
  | [] =>
      rw [hrows] at hafter hcases
      rw [requiresSynchronization_none combine (by simp [hrows])] at hcases
      constructor
      · intro h
        obtain ⟨row, hone, -⟩ := h.one_row
        exact hcases.elim (fun h => by rw [h] at hone; cases hone) And.right
      · intro h
        have hone := hafter h
        refine ⟨?_, _, hone, ?_⟩
        · rw [requiresSynchronization_some combine hone]
          exact decide_eq_false (not_not_intro rfl)
        · rw [requiresSynchronization_none combine (by simp [hrows]), storedVersion,
            findCommand_none (by simp [hrows])]
          rfl
  | [row] =>
      rw [hrows] at hafter hcases
      have hdecision := requiresSynchronization_some combine hrows
      constructor
      · intro h
        obtain ⟨row', hone, -⟩ := h.one_row
        have hkept : (synchronize combine schema guild bot info).commandStates.named info.name
            = [row] := hcases.elim id fun ⟨⟨new, hnew⟩, _⟩ => by rw [hnew] at hone; cases hone
        have hsettled := h.settled
        rw [requiresSynchronization_some combine hkept] at hsettled
        show versioned combine info row.version = row.hash
        exact Decidable.not_not.mp (of_decide_eq_false hsettled)
      · intro h
        have hone := hafter h
        have hmatch : versioned combine info row.version = row.hash := h
        refine ⟨?_, row, hone, ?_⟩
        · rw [requiresSynchronization_some combine hone]
          exact decide_eq_false (not_not_intro hmatch)
        · rw [hdecision, storedVersion, findCommand_eq.mpr hrows]
          simp [hmatch]
  | first :: second :: rest =>
      rw [hrows] at hcases
      refine ⟨fun h => ?_, fun h => absurd h id⟩
      obtain ⟨row, hone, -⟩ := h.one_row
      exact hcases.elim (fun h => by rw [h] at hone; cases hone)
        fun ⟨⟨new, hnew⟩, _⟩ => by rw [hnew] at hone; cases hone

/-- The registration info of a command that an event has the bot handle. -/
def GuildCreate.handled (event : GuildCreate R) (name : Bytes) : Option (SlashCommand R) :=
  event.created.bind fun _ => event.commands.find? (·.name = name)

theorem GuildCreate.name_of_handled {event : GuildCreate R} {name : Bytes}
    {info : SlashCommand R} (h : event.handled name = some info) : info.name = name := by
  obtain ⟨guild, -, hfind⟩ := Option.bind_eq_some_iff.mp h
  simpa using List.find?_some hfind

/-- An event without the command leaves it alone. -/
theorem handleGuildCreate_other {event : GuildCreate R} {name : Bytes}
    (h : event.handled name = none) (bot : Bot R) :
    SameFor name (handleGuildCreate combine schema bot event) bot := by
  rw [handleGuildCreate]
  cases hcreated : event.created with
  | none => exact .refl name bot
  | some guild =>
      rw [GuildCreate.handled, hcreated, Option.bind_some, List.find?_eq_none] at h
      exact foldl_other combine schema guild event.commands
        (fun info hinfo => by simpa using h info hinfo) bot

/-- An event with the command gives it its turn. -/
theorem handleGuildCreate_handled {event : GuildCreate R} {name : Bytes} {info : SlashCommand R}
    (h : event.handled name = some info) (bot : Bot R) :
    ∃ guild before, SameFor info.name before bot ∧
      SameFor info.name (handleGuildCreate combine schema bot event)
        (synchronize combine schema guild before info) := by
  obtain ⟨guild, hcreated, hfind⟩ := Option.bind_eq_some_iff.mp h
  rw [handleGuildCreate, hcreated]
  exact ⟨guild, foldl_mem combine schema guild event.distinct (List.mem_of_find?_eq_some hfind) bot⟩

/-- Behind an event, the command is synchronised. -/
def SynchronizedBy (name : Bytes) (bot : Bot R) (event : GuildCreate R) : Prop :=
  ∀ info, event.handled name = some info →
    Synchronized combine bot.commandStates
      (handleGuildCreate combine schema bot event).commandStates info

/-- The history of the registration info of a command. -/
def history (name : Bytes) (events : List (GuildCreate R)) : List (SlashCommand R) :=
  events.filterMap fun event => event.handled name

/-- The registration info of a command never changes: as long as it has no row, the
first version is that of every other, and any version matches the row. -/
def Unchanged (rows : List CommandRow) (infos : List (SlashCommand R)) : Prop :=
  match rows with
  | [] => ∀ first ∈ infos.head?, schema.holds (versioned combine first 1) 1 = true ∧
      ∀ info ∈ infos, versioned combine info 1 = versioned combine first 1
  | [row] => ∀ info ∈ infos, versioned combine info row.version = row.hash
  | _ => infos = []

/-- `Synchronized` is about the rows of the command. -/
theorem Synchronized.congr {info : SlashCommand R} {t₁ t₁' t₂ t₂' : CommandStates}
    (h₁ : t₁.named info.name = t₂.named info.name)
    (h₂ : t₁'.named info.name = t₂'.named info.name) :
    Synchronized combine t₁ t₁' info ↔ Synchronized combine t₂ t₂' info := by
  have hstored : storedVersion t₁ info.name = storedVersion t₂ info.name := by
    rw [storedVersion, storedVersion, CommandStates.findCommand, CommandStates.findCommand, h₁]
  constructor
  · rintro ⟨hsettled, hone⟩
    rw [h₂, requiresSynchronization_congr combine h₁, hstored] at hone
    exact ⟨requiresSynchronization_congr combine h₂ ▸ hsettled, hone⟩
  · rintro ⟨hsettled, hone⟩
    rw [← h₂, ← requiresSynchronization_congr combine h₁, ← hstored] at hone
    exact ⟨requiresSynchronization_congr combine h₂ ▸ hsettled, hone⟩

theorem unchanged_nil (rows : List CommandRow) :
    Unchanged combine schema rows ([] : List (SlashCommand R)) := by
  rcases rows with _ | ⟨row, _ | ⟨second, rest⟩⟩
  · simp [Unchanged]
  · simp [Unchanged]
  · rfl

/-- What the rest of a history asks of a command that has had its turn. -/
theorem unchanged_cons (rows : List CommandRow) (nextId : Nat) (info : SlashCommand R)
    (infos : List (SlashCommand R)) :
    Unchanged combine schema rows (info :: infos) ↔
      Settling combine schema rows info ∧
        Unchanged combine schema (rowsAfter combine rows nextId info) infos := by
  match rows with
  | [] => simp [Unchanged, Settling, rowsAfter]
  | [row] => simp [Unchanged, Settling, rowsAfter]
  | first :: second :: rest => simp [Unchanged, Settling]

/-- Along every sequence of events, a command is synchronised behind each of its
turns just when its registration info never changes. -/
theorem run_synchronized_iff (name : Bytes) (events : List (GuildCreate R)) (bot : Bot R) :
    Along (silent (handleGuildCreate combine schema)) (SynchronizedBy combine schema name) bot
        events ↔
      Unchanged combine schema (bot.commandStates.named name) (history name events) := by
  induction events generalizing bot with
  | nil =>
      rw [Along, history, List.filterMap_nil]
      exact iff_of_true trivial (unchanged_nil combine schema _)
  | cons event events ih =>
      rw [Along, silent, ih]
      cases hhandled : event.handled name with
      | none =>
          have hhistory : history name (event :: events) = history name events :=
            List.filterMap_cons_none hhandled
          rw [hhistory, (handleGuildCreate_other combine schema hhandled bot).named]
          refine and_iff_right fun info h => ?_
          rw [hhandled] at h
          cases h
      | some info =>
          obtain ⟨guild, before, hbefore, hafter⟩ :=
            handleGuildCreate_handled combine schema hhandled bot
          have hby : SynchronizedBy combine schema name bot event ↔
              Settling combine schema (bot.commandStates.named info.name) info := by
            rw [← hbefore.named, ← synchronized_iff combine schema guild before info,
              Synchronized.congr combine hbefore.named hafter.named.symm]
            simp [SynchronizedBy, hhandled]
          have hname := GuildCreate.name_of_handled hhandled
          have hhistory : history name (event :: events) = info :: history name events :=
            List.filterMap_cons_some hhandled
          rw [hhistory, hby, unchanged_cons combine schema _ before.commandStates.nextId, ← hname]
          refine and_congr_right fun hsettling => ?_
          rw [hafter.named, named_synchronize combine schema guild before info
            (hbefore.named ▸ hsettling), hbefore.named]

/-! ## Two versions, two guilds -/

/-- The mixing of `boost::hash_combine`. -/
def mix (seed value : UInt64) : UInt64 :=
  seed ^^^ (value + 0x9e3779b9 + (seed <<< (6 : UInt64)) + (seed >>> (2 : UInt64)))

/-- Values hashed with `mix`. -/
def sampleCombine : Combine where
  text seed value := mix seed (value.foldl (fun h c => h * 31 + c.toUInt64) 7)
  kind seed value := mix seed value.toUInt64
  flag seed value := mix seed (if value then 1 else 0)
  number seed value := mix seed value.toUInt64

/-- The statements as they are declared, with or without the index of the schema. -/
def declared (uniqueName : Bool) : Schema := ⟨uniqueName, fun _ _ => true⟩

/-- `/track`, with a description. -/
def track (description : Bytes) : SlashCommand Unit := ⟨Text.ascii "track", description, [], ()⟩

/-- An event of a guild in which `/track` has a description. -/
def trackEvent (guild : UInt64) (description : Bytes) : GuildCreate Unit :=
  ⟨some guild, [track description], List.nodup_singleton _⟩

/-- Nothing stored, nothing sent. -/
def freshBot : Bot Unit := ⟨⟨[], 1, fun _ h => by cases h⟩, []⟩

/-- A command that has changed is not synchronised. -/
theorem run_synchronized_wrong :
    (¬ Along (silent (handleGuildCreate sampleCombine (declared false)))
      (SynchronizedBy sampleCombine (declared false) (Text.ascii "track")) freshBot
      [trackEvent 1 (Text.ascii "files"), trackEvent 1 (Text.ascii "paths")]) ∧
    ¬ Along (silent (handleGuildCreate sampleCombine (declared true)))
      (SynchronizedBy sampleCombine (declared true) (Text.ascii "track")) freshBot
      [trackEvent 1 (Text.ascii "files"), trackEvent 1 (Text.ascii "paths")] := by
  constructor <;> rintro ⟨-, h, -⟩ <;>
    exact absurd (h (track (Text.ascii "paths")) rfl).settled (by decide)

/-- The second guild gets nothing. -/
theorem run_registered_wrong :
    (¬ Along (silent (handleGuildCreate sampleCombine (declared false)))
      (Registered sampleCombine (declared false)) freshBot
      [trackEvent 1 (Text.ascii "files"), trackEvent 2 (Text.ascii "files")]) ∧
    ¬ Along (silent (handleGuildCreate sampleCombine (declared true)))
      (Registered sampleCombine (declared true)) freshBot
      [trackEvent 1 (Text.ascii "files"), trackEvent 2 (Text.ascii "files")] := by
  constructor <;> rintro ⟨-, h, -⟩ <;>
    exact absurd (congrArg Option.isSome (h 2 rfl (track (Text.ascii "files"))
      List.mem_cons_self)) (by decide)

end Frontend

end Tactmon
