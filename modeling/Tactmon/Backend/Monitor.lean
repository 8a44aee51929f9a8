import Tactmon.Backend.Listener

/-!
# Polling

`BeginUpdate` of `RibbitMonitor`, with the listener of `Execute`.  The timer is
armed behind a poll, and again when its wait completes, so an exception inside
of a poll leaves no wait behind.

A `Monitor` is the table, what the listener captures, and the number of waits.
Whatever the polls do to the world is in the log of the listener, and a poll
returns exactly when what it adds to the log is safe (`onUpdate_grew`).
Nothing is polled where no wait is left, so the number of waits says whether
the whole log is safe (`run_armed`).
-/

namespace Tactmon

namespace Backend

open Binary Text

/-! ## What ends a notification -/

/-- What the listener does has an end. -/
def Event.Safe (env : Environment) : Event → Prop
  | .query returned => returned = true
  | .resolve use => use.Safe BuildConfig.handler env.namable
  | .statement => True
  | .insert _ => True
  | .load _ returned => returned = true

section Notification

variable (env : Environment)

/-- The log has grown, by what is safe exactly when `ok`. -/
abbrev Captured.Grew (s s' : Captured) (ok : Prop) : Prop :=
  Trace.Grew Captured.log (Event.Safe env) s s' ok

theorem resolveConfiguration_grew (cdns : List Ribbit.CDN) (key : Bytes) (s : Captured) :
    s.Grew env (resolveConfiguration env cdns key s).2
      ((resolveConfiguration env cdns key s).1.isOk = true) := by
  obtain ⟨uses, hlog, huses⟩ := resolve_grew BuildConfig.handler env.namable
    (fun n => env.exchange (s.log.length + n)) env.root (ascii "config") key cdns ⟨s.files, []⟩
  refine ⟨uses.map .resolve, ?_, ?_⟩
  · rw [List.nil_append] at hlog
    rw [resolveConfiguration, ← hlog]
  · rw [List.forall_mem_map]
    exact huses

theorem insertBuild_grew (productName buildName : Bytes) (version : Ribbit.Versions)
    (s : Captured) : s.Grew env (insertBuild env productName buildName version s) True := by
  have hasked : s.Grew env (s.note .statement) True := .of_note rfl (iff_of_true trivial trivial)
  rw [insertBuild]
  split
  · exact hasked
  · split
    · exact hasked.and_then (.of_note rfl (iff_of_true trivial trivial))
    · exact hasked.and_then (.of_note rfl (iff_of_true trivial trivial))

theorem onVersions_grew (productName : Bytes) (cdns : List Ribbit.CDN)
    (versions : List Ribbit.Versions) :
    ∀ s : Captured, s.Grew env (onVersions env productName cdns versions s).2
      ((onVersions env productName cdns versions s).1 = true) := by
  induction versions with
  | nil => exact fun _ => .of_eq rfl rfl
  | cons version versions ih =>
      intro s
      have hresolve := resolveConfiguration_grew env cdns version.buildConfig s
      rw [onVersions]
      split
      · rename_i s' h
        rw [h] at hresolve
        exact hresolve.congr Iff.rfl
      · rename_i s' h
        rw [h] at hresolve
        exact (hresolve.congr (iff_true_intro rfl)).and_then (ih s')
      · rename_i buildConfig s' h
        rw [h] at hresolve
        exact ((hresolve.congr (iff_true_intro rfl)).and_then
          (insertBuild_grew env productName buildConfig.buildName version s')).and_then (ih _)

theorem query_grew (s : Captured) (returned : Bool) :
    s.Grew env (s.note (.query returned)) (returned = true) := .of_note rfl Iff.rfl

theorem collect_grew (productName : Bytes) (s : Captured) :
    s.Grew env (collect env productName s).2 ((collect env productName s).1 ≠ .threw) := by
  rw [collect]
  split
  · exact .of_eq rfl nofun
  · dsimp only
    have hversions := query_grew env s (env.versions s.log.length).isOk
    have hcdns := query_grew env (s.note (.query (env.versions s.log.length).isOk))
      (env.cdns (s.note (.query (env.versions s.log.length).isOk)).log.length).isOk
    split
    · rename_i h
      refine hversions.congr (iff_of_false ?_ fun hne => hne rfl)
      rw [h]
      exact Bool.false_ne_true
    · rename_i h
      have hasked := hversions.congr (iff_true_intro (by rw [h]; rfl))
      split
      · rename_i h'
        refine hasked.and_then (hcdns.congr (iff_of_false ?_ fun hne => hne rfl))
        rw [h']
        exact Bool.false_ne_true
      · rename_i versions cdns h'
        have hready := hasked.and_then (hcdns.congr (iff_true_intro (by rw [h']; rfl)))
        have hloop := hready.and_then (onVersions_grew env productName cdns versions _)
        split
        · rename_i s' hs'
          rw [hs'] at hloop
          exact hloop.congr (iff_of_true rfl nofun)
        · rename_i s' hs'
          rw [hs'] at hloop
          exact hloop.congr (iff_of_false Bool.false_ne_true fun hne => hne rfl)
      · rename_i h'
        exact hasked.and_then (hcdns.congr (iff_of_true (by rw [h']; rfl) nofun))

theorem publish_grew (productName : Bytes) (newBuilds : List NewBuild) :
    ∀ s : Captured, s.Grew env (publish env productName newBuilds s).2
      ((publish env productName newBuilds s).1 = true) := by
  induction newBuilds with
  | nil => exact fun _ => .of_eq rfl rfl
  | cons build newBuilds ih =>
      intro s
      rw [publish]
      split
      · have hload : s.Grew env
            (s.note (.load ⟨productName, build.configuration, build.regions⟩ true)) True :=
          .of_note rfl (iff_of_true trivial rfl)
        exact hload.and_then (ih _)
      · exact .of_note rfl (iff_of_false Bool.false_ne_true Bool.false_ne_true)

/-- The listener returns exactly when all it does is safe. -/
theorem listener_grew (proxyServer : Bool) (productName : Bytes) (sequenceID : UInt64)
    (s : Captured) :
    s.Grew env (listener env proxyServer productName sequenceID s).2
      ((listener env proxyServer productName sequenceID s).1 = true) := by
  have hcollect := collect_grew env productName s
  rw [listener]
  split
  · rename_i s' h
    rw [h] at hcollect
    exact hcollect.congr (iff_of_true nofun rfl)
  · rename_i s' h
    rw [h] at hcollect
    exact hcollect.congr (iff_of_false (fun hne => hne rfl) Bool.false_ne_true)
  · rename_i s' h
    rw [h] at hcollect
    have hready := hcollect.congr (iff_of_true nofun trivial)
    split
    · exact hready.and_then (publish_grew env productName s'.newBuilds s')
    · exact hready.congr (iff_of_true trivial rfl)

theorem notifyProductUpdate_grew (proxyServer : Bool) (productName : Bytes)
    (sequenceID : UInt64) (s : Captured) :
    s.Grew env (notifyProductUpdate productName sequenceID [listener env proxyServer] s).2
      ((notifyProductUpdate productName sequenceID [listener env proxyServer] s).1 = true) := by
  have hlistener := listener_grew env proxyServer productName sequenceID s
  rw [notifyProductUpdate]
  split
  · rename_i s' h
    rw [h] at hlistener
    exact hlistener
  · rename_i s' h
    rw [h] at hlistener
    exact hlistener

theorem onRecords_grew (proxyServer : Bool) (arrivals : List Arrival) :
    ∀ (store : Store) (s : Captured),
      s.Grew env (onRecords [listener env proxyServer] store s arrivals).2.2.2
        ((onRecords [listener env proxyServer] store s arrivals).2.1 = true) := by
  induction arrivals with
  | nil => exact fun _ _ => .of_eq rfl rfl
  | cons a arrivals ih =>
      intro store s
      rw [onRecords]
      split
      · exact ih _ _
      · rename_i sequenceID after _
        have hnotify :=
          notifyProductUpdate_grew env proxyServer a.record.product sequenceID s
        split
        · rename_i s' h
          rw [h] at hnotify
          exact (hnotify.congr (iff_true_intro rfl)).and_then (ih _ _)
        · rename_i s' h
          rw [h] at hnotify
          exact hnotify

/-- A poll returns exactly when all the listener does meanwhile is safe. -/
theorem onUpdate_grew (proxyServer : Bool) (store : Store) (s : Captured) (poll : Poll) :
    s.Grew env (onUpdate [listener env proxyServer] store s poll).2.2.2
      ((onUpdate [listener env proxyServer] store s poll).2.1 = true) := by
  rw [onUpdate]
  split
  · exact .of_eq rfl rfl
  · split
    · exact .of_eq rfl rfl
    · exact onRecords_grew env proxyServer _ store s

end Notification

/-! ## The timer -/

/-- The monitor, with the waits of its timer. -/
structure Monitor where
  store : Store
  world : Captured
  waits : Nat

/-- The completion of a wait: how it came, what is polled for it, and what is
polled by `BeginUpdate`. -/
structure Completion where
  poll : Poll
  summary : Option (List Arrival)

namespace Monitor

section Timer

variable (env : Environment) (proxyServer : Bool)

/-- `OnUpdate`.  It returns, or throws. -/
def onUpdate (m : Monitor) (poll : Poll) : Bool × Monitor :=
  let (_, returned, store, world) :=
    Backend.onUpdate [listener env proxyServer] m.store m.world poll
  (returned, { m with store, world })

/-- `BeginUpdate`. -/
def beginUpdate (m : Monitor) (summary : Option (List Arrival)) : Monitor :=
  match m.onUpdate env proxyServer ⟨false, summary⟩ with
  | (true, m) => { m with waits := m.waits + 1 }
  | (false, m) => m

/-- The handler of the timer, if it is waited for. -/
def onWait (m : Monitor) (c : Completion) : Monitor :=
  match m.waits with
  | 0 => m
  | waits + 1 =>
      match { m with waits }.onUpdate env proxyServer c.poll with
      | (true, m) => m.beginUpdate env proxyServer c.summary
      | (false, m) => m

/-- The monitor after some completions. -/
def run (m : Monitor) (completions : List Completion) : Monitor :=
  completions.foldl (onWait env proxyServer) m

/-- The monitor as `Execute` leaves it. -/
def launch (products : Products) (builds : Builds) (files : Files)
    (summary : Option (List Arrival)) : Monitor :=
  beginUpdate env proxyServer ⟨.ofProducts products, .start builds files, 0⟩ summary

/-- There is one wait as long as all that was done is safe, and none otherwise. -/
structure Armed (m : Monitor) : Prop where
  waits_le : m.waits ≤ 1
  safe : m.waits = 1 ↔ ∀ event ∈ m.world.log, event.Safe env

variable {env} {m : Monitor}

/-- A poll that returns leaves a log that is safe. -/
theorem safe_iff_of_onUpdate {poll : Poll} {m' : Monitor} {returned : Bool}
    (hsafe : ∀ event ∈ m.world.log, event.Safe env)
    (h : m.onUpdate env proxyServer poll = (returned, m')) :
    m'.waits = m.waits ∧ (returned = true ↔ ∀ event ∈ m'.world.log, event.Safe env) := by
  have hgrew := onUpdate_grew env proxyServer m.store m.world poll
  obtain ⟨rfl, rfl⟩ := Prod.mk.inj h
  exact ⟨rfl, hgrew.iff_all hsafe⟩

/-- A monitor with no wait that has thrown. -/
theorem Armed.of_thrown (hwaits : m.waits = 0)
    (hsafe : false = true ↔ ∀ event ∈ m.world.log, event.Safe env) : m.Armed env where
  waits_le := by
    rw [hwaits]
    exact Nat.zero_le 1
  safe := by
    rw [← hsafe, hwaits]
    exact iff_of_false Nat.zero_ne_one Bool.false_ne_true

theorem beginUpdate_armed (hwaits : m.waits = 0)
    (hsafe : ∀ event ∈ m.world.log, event.Safe env) (summary : Option (List Arrival)) :
    (m.beginUpdate env proxyServer summary).Armed env := by
  rw [beginUpdate]
  split
  · rename_i m' h
    obtain ⟨hsame, hreturned⟩ := safe_iff_of_onUpdate proxyServer hsafe h
    have hone : m'.waits + 1 = 1 := by rw [hsame, hwaits]
    exact ⟨Nat.le_of_eq hone, iff_of_true hone (hreturned.mp rfl)⟩
  · rename_i m' h
    obtain ⟨hsame, hreturned⟩ := safe_iff_of_onUpdate proxyServer hsafe h
    exact .of_thrown (hsame.trans hwaits) hreturned

theorem onWait_armed (h : m.Armed env) (c : Completion) :
    (m.onWait env proxyServer c).Armed env := by
  rw [onWait]
  split
  · exact h
  · rename_i waits hwaits
    have hzero : waits = 0 := by
      have hle := h.waits_le
      rw [hwaits] at hle
      exact Nat.le_zero.mp (Nat.le_of_succ_le_succ hle)
    have hsafe := h.safe.mp (by rw [hwaits, hzero])
    split
    · rename_i m' h'
      obtain ⟨hsame, hreturned⟩ := safe_iff_of_onUpdate (m := { m with waits }) proxyServer hsafe h'
      exact beginUpdate_armed proxyServer (hsame.trans hzero) (hreturned.mp rfl) c.summary
    · rename_i m' h'
      obtain ⟨hsame, hreturned⟩ := safe_iff_of_onUpdate (m := { m with waits }) proxyServer hsafe h'
      exact .of_thrown (hsame.trans hzero) hreturned

theorem run_armed (completions : List Completion) :
    ∀ {m : Monitor}, m.Armed env → (m.run env proxyServer completions).Armed env := by
  induction completions with
  | nil => exact fun h => h
  | cons c completions ih => exact fun h => ih (onWait_armed proxyServer h c)

variable (env)

theorem launch_armed (products : Products) (builds : Builds) (files : Files)
    (summary : Option (List Arrival)) :
    (launch env proxyServer products builds files summary).Armed env :=
  beginUpdate_armed proxyServer rfl (fun _ h => absurd h List.not_mem_nil) summary

end Timer

end Monitor

end Backend

end Tactmon
