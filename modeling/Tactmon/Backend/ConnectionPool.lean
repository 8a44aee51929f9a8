import Tactmon.Lib.Conformance
import Tactmon.Lib.Memory
import Mathlib.Data.List.Perm.Basic

/-!
# The connection pool

`Pool` and `Connection` of `backend/ConnectionPool.{hpp,cpp}`.  Every member
function holds the mutex, so a run is a sequence of calls.  A call of `Open` on
an empty queue waits, and nothing changes until another call.

The statements of a connection are those its server has accepted.  Whether it
accepts another is up to the server (`accepts`), and `prepare` throws when it
does not.

`Prepare` counts to the capacity of the pool, and the queue it indexes has lost
what is rented.  So it runs past the end as soon as one connection is rented,
unless an idle one throws first.  Up to there nothing is lost: the connections
are those the pool was made with, and each has the statements of every
`Prepare` that has returned.
-/

namespace Tactmon

namespace Backend

open Cxx Conformance

/-! ## The pool -/

/-- A statement, under its name. -/
structure Definition where
  name : String
  definition : String
deriving DecidableEq, Repr

/-- `pqxx::connection`, with the statements it has prepared. -/
structure Connection where
  id : Nat
  statements : List Definition
deriving DecidableEq, Repr

/-- `_poolCapacity`. -/
def poolCapacity : Nat := 10

/-- `Pool`, with the connections it has handed out. -/
structure Pool where
  /-- `_pool`. -/
  idle : List Connection
  rented : List Connection
  /-- What a `Prepare` that has returned was called with.  The code does not
  keep it. -/
  promised : List Definition
deriving DecidableEq, Repr

/-- A call on the pool. -/
inductive PoolCall where
  | openConnection
  /-- The destruction of a connection. -/
  | close (id : Nat)
  | prepare (statement : Definition)
deriving DecidableEq, Repr

namespace Pool

/-- The constructor. -/
def ofCapacity (capacity : Nat) : Pool := ⟨(List.range capacity).map fun id => ⟨id, []⟩, [], []⟩

/-- `Open`, for a caller who waits while the queue is empty. -/
def openConnection (s : Pool) : Pool :=
  match s.idle with
  | [] => s
  | connection :: idle => { s with idle, rented := connection :: s.rented }

/-- The connection with this id, and the others. -/
def withdraw (id : Nat) : List Connection → Option (Connection × List Connection)
  | [] => none
  | c :: cs => if c.id = id then some (c, cs) else (withdraw id cs).map fun r => (r.1, c :: r.2)

/-- `Return`, from the destructor of a connection. -/
def close (s : Pool) (id : Nat) : Pool :=
  match withdraw id s.rented with
  | none => s
  | some (connection, rented) => { s with idle := s.idle ++ [connection], rented }

section Prepare

variable (accepts : List Definition → Definition → Bool)

/-- The loop of `Prepare`, with so many turns to go.  It says whether it has
come to its end, or was left by an exception. -/
def prepareLoop (statement : Definition) :
    Nat → List Connection → Exec (Bool × List Connection)
  | 0, cs => .ok (true, cs)
  | _ + 1, [] => .error .outOfBounds
  | turns + 1, c :: cs =>
      if accepts c.statements statement then do
        let (done, cs) ← prepareLoop statement turns cs
        .ok (done, { c with statements := statement :: c.statements } :: cs)
      else .ok (false, c :: cs)

/-- `Prepare`. -/
def prepare (capacity : Nat) (s : Pool) (statement : Definition) : Exec Pool := do
  let (done, idle) ← prepareLoop accepts statement capacity s.idle
  .ok { s with idle, promised := if done then statement :: s.promised else s.promised }

/-- One call. -/
def step (capacity : Nat) (s : Pool) : PoolCall → Exec Pool
  | .openConnection => .ok s.openConnection
  | .close id => .ok (s.close id)
  | .prepare statement => s.prepare accepts capacity statement

/-- The next state of a run, as long as there is one. -/
def next (capacity : Nat) (r : Exec Pool) (call : PoolCall) : Exec Pool := do
  let s ← r
  step accepts capacity s call

end Prepare

/-! ## What is asked of a run -/

/-- All connections of the pool. -/
def connections (s : Pool) : List Connection := s.idle ++ s.rented

/-- The connections are those the pool was made with, each once. -/
def Conserved (capacity : Nat) (s : Pool) : Prop :=
  (s.connections.map Connection.id).Perm (List.range capacity)

/-- The pool is there, and holds what it was made with. -/
def Intact (capacity : Nat) (r : Exec Pool) : Prop := ∃ s, r = .ok s ∧ s.Conserved capacity

/-- A connection that is handed out has every promised statement. -/
def HandsPrepared (r : Exec Pool) (call : PoolCall) : Prop :=
  ∀ s, r = .ok s → call = .openConnection → ∀ c ∈ s.idle.head?, ∀ statement ∈ s.promised,
    statement ∈ c.statements

/-- A `Prepare` comes while nothing is rented, or an idle connection will have
none of it. -/
def InBounds (accepts : List Definition → Definition → Bool) (r : Exec Pool) (call : PoolCall) :
    Prop :=
  ∀ s statement, r = .ok s → call = .prepare statement →
    s.rented = [] ∨ ∃ c ∈ s.idle, accepts c.statements statement = false

/-! ## What a call does to the connections -/

theorem withdraw_perm {id : Nat} {c : Connection} {cs : List Connection} :
    ∀ {cs' : List Connection}, withdraw id cs = some (c, cs') → cs.Perm (c :: cs') := by
  induction cs with
  | nil => exact nofun
  | cons d cs ih =>
      intro cs' h
      rw [withdraw] at h
      split at h
      · cases h
        exact List.Perm.refl _
      · obtain ⟨⟨c', ds⟩, hds, hpair⟩ := Option.map_eq_some_iff.mp h
        cases hpair
        exact ((ih hds).cons d).trans (List.Perm.swap _ _ _)

theorem openConnection_perm (s : Pool) : s.openConnection.connections.Perm s.connections := by
  obtain ⟨idle, rented, promised⟩ := s
  cases idle with
  | nil => exact List.Perm.refl _
  | cons c idle => exact List.perm_middle

theorem close_perm (s : Pool) (id : Nat) : (s.close id).connections.Perm s.connections := by
  rw [close]
  cases h : withdraw id s.rented with
  | none => exact List.Perm.refl _
  | some r =>
      obtain ⟨c, rented⟩ := r
      show ((s.idle ++ [c]) ++ rented).Perm (s.idle ++ s.rented)
      rw [List.append_assoc]
      exact (withdraw_perm h).symm.append_left s.idle

theorem openConnection_promised (s : Pool) : s.openConnection.promised = s.promised := by
  rw [openConnection]
  split <;> rfl

theorem close_promised (s : Pool) (id : Nat) : (s.close id).promised = s.promised := by
  rw [close]
  split <;> rfl

section Prepare

variable {accepts : List Definition → Definition → Bool} {statement : Definition}

/-- The loop runs past the end of a queue that is too short for it and that
accepts the statement. -/
theorem prepareLoop_fault_iff {cs : List Connection} :
    ∀ {turns : Nat}, (∃ r, prepareLoop accepts statement turns cs = .ok r) ↔
      turns ≤ cs.length ∨ ∃ c ∈ cs, accepts c.statements statement = false := by
  induction cs with
  | nil =>
      intro turns
      cases turns with
      | zero => simp [prepareLoop]
      | succ turns => simp [prepareLoop]
  | cons c cs ih =>
      intro turns
      cases turns with
      | zero => simp [prepareLoop]
      | succ turns =>
          rw [prepareLoop, List.length_cons, Nat.add_le_add_iff_right]
          cases haccepts : accepts c.statements statement with
          | false => exact iff_of_true ⟨_, rfl⟩ (.inr ⟨c, List.mem_cons_self, haccepts⟩)
          | true =>
              have hrest : (∃ d ∈ c :: cs, accepts d.statements statement = false) ↔
                  ∃ d ∈ cs, accepts d.statements statement = false := by
                simp [haccepts]
              rw [hrest, ← ih, if_pos rfl]
              constructor
              · rintro ⟨r, h⟩
                obtain ⟨p, hp, -⟩ := Exec.bind_eq_ok.mp h
                exact ⟨p, hp⟩
              · rintro ⟨p, hp⟩
                exact ⟨_, by rw [hp, Exec.ok_bind]⟩

/-- The loop keeps the connections and what they had, and if it comes to its
end those it was to reach have the statement. -/
theorem prepareLoop_ok {cs : List Connection} :
    ∀ {turns : Nat} {done : Bool} {cs' : List Connection},
      prepareLoop accepts statement turns cs = .ok (done, cs') →
      cs'.map Connection.id = cs.map Connection.id ∧
        (∀ c' ∈ cs', ∃ c ∈ cs, ∀ d ∈ c.statements, d ∈ c'.statements) ∧
        (done = true → turns ≤ cs.length ∧
          (turns = cs.length → ∀ c' ∈ cs', statement ∈ c'.statements)) := by
  induction cs with
  | nil =>
      intro turns done cs' h
      cases turns with
      | zero =>
          cases h
          simp
      | succ turns => cases h
  | cons c cs ih =>
      intro turns done cs' h
      cases turns with
      | zero =>
          cases h
          exact ⟨rfl, fun c' hc' => ⟨c', hc', fun _ hd => hd⟩, fun _ => ⟨Nat.zero_le _, nofun⟩⟩
      | succ turns =>
          rw [prepareLoop] at h
          split at h
          · obtain ⟨⟨done', ds⟩, hloop, h⟩ := Exec.bind_eq_ok.mp h
            cases h
            obtain ⟨hids, hkept, hdone⟩ := ih hloop
            refine ⟨by rw [List.map_cons, List.map_cons, hids], ?_, fun hd => ?_⟩
            · rw [List.forall_mem_cons]
              refine ⟨⟨c, List.mem_cons_self, fun d hd => List.mem_cons_of_mem _ hd⟩, ?_⟩
              intro c' hc'
              obtain ⟨e, he, hsub⟩ := hkept c' hc'
              exact ⟨e, List.mem_cons_of_mem _ he, hsub⟩
            · obtain ⟨hle, hall⟩ := hdone hd
              refine ⟨Nat.succ_le_succ hle, fun heq => ?_⟩
              rw [List.forall_mem_cons]
              exact ⟨List.mem_cons_self, hall (Nat.succ.inj heq)⟩
          · cases h
            exact ⟨rfl, fun c' hc' => ⟨c', hc', fun _ hd => hd⟩, nofun⟩

end Prepare

/-! ## What every state of a run has -/

/-- Nothing is lost, and every promise is kept on every connection. -/
structure Sound (capacity : Nat) (s : Pool) : Prop where
  conserved : s.Conserved capacity
  prepared : ∀ c ∈ s.connections, ∀ statement ∈ s.promised, statement ∈ c.statements

variable {accepts : List Definition → Definition → Bool} {capacity : Nat} {s : Pool}

theorem Sound.length_eq (h : s.Sound capacity) : s.idle.length + s.rented.length = capacity := by
  have hlen := h.conserved.length_eq
  rwa [List.length_map, connections, List.length_append, List.length_range] at hlen

theorem Sound.of_perm (h : s.Sound capacity) {t : Pool} (hperm : t.connections.Perm s.connections)
    (hpromised : t.promised = s.promised) : t.Sound capacity where
  conserved := (hperm.map _).trans h.conserved
  prepared := by
    rw [hpromised]
    exact fun c hc => h.prepared c (hperm.mem_iff.mp hc)

theorem Sound.handsPrepared (h : s.Sound capacity) (call : PoolCall) :
    HandsPrepared (.ok s) call := by
  rintro t ht - c hc
  cases ht
  exact h.prepared c (List.mem_append_left _ (List.mem_of_mem_head? hc))

/-- `Prepare` returns, or throws, unless a connection is rented and every idle
one accepts. -/
theorem Sound.prepare_ok_iff (h : s.Sound capacity) (statement : Definition) :
    (∃ t, s.prepare accepts capacity statement = .ok t) ↔
      s.rented = [] ∨ ∃ c ∈ s.idle, accepts c.statements statement = false := by
  have hlen := h.length_eq
  have hfull : capacity ≤ s.idle.length ↔ s.rented = [] := by
    rw [← List.length_eq_zero_iff]
    omega
  rw [← hfull, ← prepareLoop_fault_iff]
  constructor
  · rintro ⟨t, ht⟩
    obtain ⟨r, hr, -⟩ := Exec.bind_eq_ok.mp ht
    exact ⟨r, hr⟩
  · rintro ⟨r, hr⟩
    exact ⟨_, by rw [prepare, hr, Exec.ok_bind]⟩

/-- What `Prepare` leaves is as sound as it was, and keeps one promise more if
the loop came to its end. -/
theorem Sound.prepare (h : s.Sound capacity) {statement : Definition} {t : Pool}
    (ht : s.prepare accepts capacity statement = .ok t) : t.Sound capacity := by
  obtain ⟨⟨done, idle⟩, hloop, ht⟩ := Exec.bind_eq_ok.mp ht
  cases ht
  obtain ⟨hids, hkept, hdone⟩ := prepareLoop_ok hloop
  have hlen := h.length_eq
  have hold : ∀ c ∈ idle ++ s.rented, ∀ d ∈ s.promised, d ∈ c.statements := by
    rw [List.forall_mem_append]
    refine ⟨fun c hc d hd => ?_, fun c hc => h.prepared c (List.mem_append_right _ hc)⟩
    obtain ⟨c₀, hc₀, hsub⟩ := hkept c hc
    exact hsub d (h.prepared c₀ (List.mem_append_left _ hc₀) d hd)
  refine ⟨?_, ?_⟩
  · show ((idle ++ s.rented).map Connection.id).Perm (List.range capacity)
    rw [List.map_append, hids, ← List.map_append]
    exact h.conserved
  · show ∀ c ∈ idle ++ s.rented, ∀ d ∈ if done then statement :: s.promised else s.promised, _
    cases done with
    | false => exact hold
    | true =>
        -- the loop reached its end, so nothing was rented
        obtain ⟨hle, hall⟩ := hdone rfl
        have hrented : s.rented = [] := List.length_eq_zero_iff.mp (by omega)
        intro c hc d hd
        cases List.mem_cons.mp hd with
        | inl heq =>
            rw [hrented, List.append_nil] at hc
            exact heq ▸ hall (by omega) c hc
        | inr hmem => exact hold c hc d hmem

theorem Sound.step_intact_iff (h : s.Sound capacity) (call : PoolCall) :
    (Intact capacity (step accepts capacity s call) ↔ InBounds accepts (.ok s) call) ∧
      ∀ t, step accepts capacity s call = .ok t → t.Sound capacity := by
  have hsafe : ∀ t : Pool, t.connections.Perm s.connections → t.promised = s.promised →
      (∀ statement, call ≠ .prepare statement) →
      (Intact capacity (.ok t) ↔ InBounds accepts (.ok s) call) ∧
        ∀ u, Except.ok t = (.ok u : Exec Pool) → u.Sound capacity := by
    intro t hperm hpromised hcall
    have ht := h.of_perm hperm hpromised
    refine ⟨iff_of_true ⟨t, rfl, ht.conserved⟩ ?_, fun u hu => by cases hu; exact ht⟩
    rintro - statement - rfl
    exact absurd rfl (hcall statement)
  cases call with
  | openConnection => exact hsafe _ s.openConnection_perm s.openConnection_promised nofun
  | close id => exact hsafe _ (s.close_perm id) (s.close_promised id) nofun
  | prepare statement =>
      refine ⟨?_, fun t ht => h.prepare ht⟩
      have hbounds : InBounds accepts (.ok s) (.prepare statement) ↔
          s.rented = [] ∨ ∃ c ∈ s.idle, accepts c.statements statement = false := by
        refine ⟨fun hb => hb s statement rfl rfl, ?_⟩
        rintro hb t d ht hd
        cases ht
        cases hd
        exact hb
      rw [hbounds, ← h.prepare_ok_iff]
      exact ⟨fun ⟨t, ht, _⟩ => ⟨t, ht⟩, fun ⟨t, ht⟩ => ⟨t, ht, (h.prepare ht).conserved⟩⟩

theorem ofCapacity_sound (capacity : Nat) : (ofCapacity capacity).Sound capacity where
  conserved := by simp [Conserved, connections, ofCapacity, Function.comp_def]
  prepared := fun _ _ _ hd => absurd hd List.not_mem_nil

/-! ## Runs -/

/-- In every state of a run the pool holds what it was made with, and what it
hands out is prepared, exactly when no `Prepare` runs past the queue. -/
theorem run_intact_iff (accepts : List Definition → Definition → Bool) (capacity : Nat)
    (calls : List PoolCall) :
    ((∀ r ∈ states (next accepts capacity) (.ok (ofCapacity capacity)) calls,
          Intact capacity r) ∧
        Along (silent (next accepts capacity)) HandsPrepared (.ok (ofCapacity capacity)) calls) ↔
      Along (silent (next accepts capacity)) (InBounds accepts) (.ok (ofCapacity capacity))
        calls := by
  have hstart : (ofCapacity capacity).Sound capacity := ofCapacity_sound capacity
  have hintact : Intact capacity (.ok (ofCapacity capacity)) := ⟨_, rfl, hstart.conserved⟩
  rw [forall_states_iff, and_assoc, and_iff_right hintact, ← Along.and_iff]
  refine Along.iff_of_step (fun r => ∃ s, r = .ok s ∧ Sound capacity s)
    (fun r call => Intact capacity (next accepts capacity r call) ∧ HandsPrepared r call)
    ?_ ?_ calls ⟨_, rfl, hstart⟩ (Along.of_forall (fun _ _ => trivial) _ calls)
  · rintro _ call ⟨s, rfl, hs⟩ -
    exact (and_iff_left (hs.handsPrepared call)).trans (hs.step_intact_iff call).1
  · rintro _ call ⟨s, rfl, hs⟩ - hbounds
    have hstep : (Intact capacity (step accepts capacity s call) ↔ _) ∧ _ :=
      hs.step_intact_iff call
    obtain ⟨t, ht, -⟩ := hstep.1.mpr hbounds
    exact ⟨t, ht, hstep.2 t ht⟩

/-- A connection is rented, and a statement is prepared. -/
theorem run_prepare_rented :
    ¬ ((∀ r ∈ states (next (fun _ _ => true) poolCapacity) (.ok (ofCapacity poolCapacity))
          [.openConnection, .prepare ⟨"Build.SelById", "SELECT"⟩], Intact poolCapacity r) ∧
        Along (silent (next (fun _ _ => true) poolCapacity)) HandsPrepared
          (.ok (ofCapacity poolCapacity))
          [.openConnection, .prepare ⟨"Build.SelById", "SELECT"⟩]) := by
  rintro ⟨hintact, -⟩
  obtain ⟨s, hs, -⟩ := hintact _
    (List.mem_cons_of_mem _ (List.mem_cons_of_mem _ List.mem_cons_self))
  have hfault : next (fun _ _ => true) poolCapacity
      (next (fun _ _ => true) poolCapacity (.ok (ofCapacity poolCapacity)) .openConnection)
      (.prepare ⟨"Build.SelById", "SELECT"⟩) = .error .outOfBounds := by decide
  rw [hfault] at hs
  cases hs

end Pool

end Backend

end Tactmon
