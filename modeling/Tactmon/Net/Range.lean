import Tactmon.Net.Session

/-!
# The range of a request

The loop over the CDNs, turn by turn, and what becomes of `Offset` and `Length`.

`turns` lists the turns of a run of the loop, `turns_calls` says that their
calls are the ones of `cdnLoop`.  A turn `exits` when the payload was read
without a failure and `Length` is zero.

The feedback subtracts what arrives, whatever was asked for.  As long as no
more arrives than the request asked for, `Length` is what is still missing
(`turns_split`).  A request for a whole file has `Length` zero from the start.
-/

namespace Tactmon

open Binary Cxx Zlib

namespace Session

/-- How many bytes some calls feed to the decoder. -/
def fed (calls : List Call) : Nat := (calls.map fun call => call.piece.length).sum

/-- One turn of the loop over the CDNs: the session in front of it, its calls,
whether the payload was read without a failure, and the session it leaves unless
it ends in a fault. -/
structure Turn where
  before : Session
  calls : List Call
  succeeded : Bool
  after : Option Session

/-- The `Length == 0` exit. -/
def Turn.exits (turn : Turn) : Bool := turn.succeeded && turn.after.any fun s => s.length = 0

section Loop

variable (digest : Bytes → Digest) (Z : Inflate)

/-- The turn of an attempt. -/
def turn (s : Session) : Attempt → Turn
  | .unavailable => ⟨s, [], false, some s⟩
  | .answered pieces completed =>
      match s.read digest Z pieces with
      | (calls, none) => ⟨s, calls, false, none⟩
      | (calls, some (s', failed)) => ⟨s, calls, completed && !failed, some s'⟩

/-- The turns of the loop over the CDNs. -/
def turns : Session → List Attempt → List Turn
  | _, [] => []
  | s, attempt :: attempts =>
      s.turn digest Z attempt ::
        match (s.turn digest Z attempt).after with
        | none => []
        | some s' => if (s.turn digest Z attempt).exits then [] else turns s' attempts

end Loop

/-- All that a request asked for has been fed to the decoder: as many bytes as
it asked for, or the whole payload of some turn. -/
def AllFed (length : UInt64) (done : List Turn) : Prop :=
  if length = 0 then ∃ turn ∈ done, turn.succeeded = true
  else length.toNat ≤ fed (done.flatMap Turn.calls)

section Runs

variable (digest : Bytes → Digest) (Z : Inflate)

/-- No call takes more from `Length` than there is. -/
def LengthKept (s : Session) (attempts : List Attempt) : Prop :=
  ∀ call ∈ s.cdnLoop digest Z attempts, call.piece.length ≤ call.before.length.toNat

/-- The last position of every range that is requested is a `std::size_t`. -/
def RangesFit (s : Session) (attempts : List Attempt) : Prop :=
  ∀ turn ∈ s.turns digest Z attempts, turn.before.length ≠ 0 →
    turn.before.offset.toNat + turn.before.length.toNat - 1 ≤ 2 ^ 64 - 1

/-- The exit is taken after a turn when all has been fed, and only then. -/
def ExitsWhenFed (s : Session) (attempts : List Attempt) : Prop :=
  ∀ front turn back, s.turns digest Z attempts = front ++ turn :: back → turn.after ≠ none →
    (turn.exits = true ↔ AllFed s.length (front ++ [turn]))

variable {digest Z}

/-! ## The turns and the calls -/

theorem fed_append (calls calls' : List Call) : fed (calls ++ calls') = fed calls + fed calls' := by
  rw [fed, fed, fed, List.map_append, List.sum_append]

@[simp] theorem fed_nil : fed [] = 0 := rfl

@[simp] theorem fed_cons (call : Call) (calls : List Call) :
    fed (call :: calls) = call.piece.length + fed calls := by
  simp [fed]

/-- The turns make the calls of the loop. -/
theorem turns_calls (attempts : List Attempt) : ∀ s : Session,
    (s.turns digest Z attempts).flatMap Turn.calls = s.cdnLoop digest Z attempts := by
  induction attempts with
  | nil => exact fun _ => rfl
  | cons attempt attempts ih =>
      intro s
      cases attempt with
      | unavailable =>
          rw [turns, cdnLoop, ← ih, List.flatMap_cons]
          rfl
      | answered pieces completed =>
          rw [turns, cdnLoop, List.flatMap_cons, turn]
          cases s.read digest Z pieces with
          | mk calls last =>
              cases last with
              | none => simp
              | some r =>
                  obtain ⟨s', failed⟩ := r
                  have hexits : (Turn.mk s calls (completed && !failed) (some s')).exits =
                      (completed && !failed && decide (s'.length = 0)) := rfl
                  dsimp only
                  rw [hexits]
                  split
                  · rw [List.flatMap_nil, List.append_nil]
                  · rw [ih]

/-! ## What a call takes -/

theorem toNat_sub_ofNat {a : UInt64} {n : Nat} (h : n ≤ a.toNat) :
    (a - .ofNat n).toNat = a.toNat - n := by
  have hn : (UInt64.ofNat n).toNat = n :=
    UInt64.toNat_ofNat_of_lt' (Nat.lt_of_le_of_lt h a.toNat_lt)
  rw [UInt64.toNat_sub_of_le _ _ (by rw [UInt64.le_iff_toNat_le, hn]; exact h), hn]

variable (digest Z) in
/-- The calls of one payload take no more than there is exactly when they feed
no more, and then `Length` is what is still missing. -/
theorem read_length (pieces : List Bytes) : ∀ s : Session,
    ((∀ call ∈ (s.read digest Z pieces).1, call.piece.length ≤ call.before.length.toNat) ↔
      fed (s.read digest Z pieces).1 ≤ s.length.toNat) ∧
    (fed (s.read digest Z pieces).1 ≤ s.length.toNat →
      ∀ s' failed, (s.read digest Z pieces).2 = some (s', failed) →
        s'.length.toNat + fed (s.read digest Z pieces).1 = s.length.toNat ∧
        s'.offset = s.offset + .ofNat (fed (s.read digest Z pieces).1)) := by
  induction pieces with
  | nil =>
      intro s
      refine ⟨by simp [read], fun _ s' failed h => ?_⟩
      cases h
      simp [read]
  | cons piece pieces ih =>
      intro s
      rw [read]
      cases hput : s.put digest Z piece with
      | error f =>
          refine ⟨by simp, fun _ s' failed h => ?_⟩
          cases h
      | ok r =>
          obtain ⟨s₁, e⟩ := r
          obtain ⟨r', -, -, hs₁⟩ := put_ok hput
          have hlength : piece.length ≤ s.length.toNat →
              s₁.length.toNat = s.length.toNat - piece.length := by
            intro h
            rw [hs₁]
            exact toNat_sub_ofNat h
          cases e with
          | some e =>
              refine ⟨by simp, fun hfed s' failed h => ?_⟩
              cases h
              simp only [fed_cons, fed_nil, Nat.add_zero] at hfed ⊢
              refine ⟨?_, by rw [hs₁]⟩
              have := hlength hfed
              omega
          | none =>
              obtain ⟨hcalls, hlast⟩ := ih s₁
              dsimp only
              rw [List.forall_mem_cons, fed_cons, hcalls]
              dsimp only
              refine ⟨?_, fun hfed s' failed h => ?_⟩
              · constructor
                · rintro ⟨hfirst, hrest⟩
                  have := hlength hfirst
                  omega
                · intro hfed
                  have := hlength (by omega)
                  exact ⟨by omega, by omega⟩
              · have hfirst := hlength (by omega)
                obtain ⟨hleft, hoffset⟩ := hlast (by omega) s' failed h
                refine ⟨by omega, ?_⟩
                rw [hoffset, hs₁, UInt64.ofNat_add, UInt64.add_assoc]

theorem turn_before (s : Session) (attempt : Attempt) : (s.turn digest Z attempt).before = s := by
  cases attempt with
  | unavailable => rfl
  | answered pieces completed =>
      rw [turn]
      split <;> rfl

variable (digest Z) in
/-- What a turn leaves, when it feeds no more than is missing. -/
theorem turn_length (s : Session) (attempt : Attempt) :
    ((∀ call ∈ (s.turn digest Z attempt).calls,
        call.piece.length ≤ call.before.length.toNat) ↔
      fed (s.turn digest Z attempt).calls ≤ s.length.toNat) ∧
    (fed (s.turn digest Z attempt).calls ≤ s.length.toNat →
      ∀ s' ∈ (s.turn digest Z attempt).after,
        s'.length.toNat + fed (s.turn digest Z attempt).calls = s.length.toNat ∧
        s'.offset = s.offset + .ofNat (fed (s.turn digest Z attempt).calls)) := by
  cases attempt with
  | unavailable => simp [turn]
  | answered pieces completed =>
      obtain ⟨hcalls, hlast⟩ := read_length digest Z pieces s
      rw [turn]
      cases hread : s.read digest Z pieces with
      | mk calls last =>
          rw [hread] at hcalls hlast
          cases last with
          | none => exact ⟨hcalls, fun _ _ h => nomatch h⟩
          | some r =>
              obtain ⟨s', failed⟩ := r
              refine ⟨hcalls, fun hfed s'' h => ?_⟩
              cases h
              exact hlast hfed s' failed rfl

variable (digest Z) in
/-- What the turns after the first one do. -/
theorem turns_cons (s : Session) (attempt : Attempt) (attempts : List Attempt) :
    ∃ rest, s.turns digest Z (attempt :: attempts) = s.turn digest Z attempt :: rest ∧
      (rest = [] ∨ ∃ s', (s.turn digest Z attempt).after = some s' ∧
        (s.turn digest Z attempt).exits = false ∧ rest = s'.turns digest Z attempts) := by
  refine ⟨_, rfl, ?_⟩
  cases hafter : (s.turn digest Z attempt).after with
  | none => exact Or.inl rfl
  | some s' =>
      cases hexits : (s.turn digest Z attempt).exits with
      | true => simp
      | false => exact Or.inr ⟨s', rfl, rfl, by simp⟩

/-- `Length` is kept exactly when no more is fed than the request asked for. -/
theorem lengthKept_iff (attempts : List Attempt) : ∀ s : Session,
    LengthKept digest Z s attempts ↔ fed (s.cdnLoop digest Z attempts) ≤ s.length.toNat := by
  simp only [LengthKept, ← turns_calls]
  induction attempts with
  | nil => simp [turns]
  | cons attempt attempts ih =>
      intro s
      obtain ⟨rest, hturns, hrest⟩ := turns_cons digest Z s attempt attempts
      obtain ⟨hcalls, hafter⟩ := turn_length digest Z s attempt
      rw [hturns, List.flatMap_cons, List.forall_mem_append, hcalls, fed_append]
      rcases hrest with rfl | ⟨s', hs', -, rfl⟩
      · simp
      · constructor
        · rintro ⟨hfirst, hrest⟩
          have hleft := (hafter hfirst s' hs').1
          have := (ih s').mp hrest
          omega
        · intro hfed
          have hfirst : fed (s.turn digest Z attempt).calls ≤ s.length.toNat := by omega
          have hleft := (hafter hfirst s' hs').1
          exact ⟨hfirst, (ih s').mpr (by omega)⟩

/-- In front of a turn `Length` is what is still missing and `Offset` where it
starts, and behind it too, and none of the turns before was the last. -/
theorem turns_split (attempts : List Attempt) : ∀ {s : Session} {front back : List Turn}
    {turn : Turn}, s.turns digest Z attempts = front ++ turn :: back →
      fed ((front ++ [turn]).flatMap Turn.calls) ≤ s.length.toNat →
      turn.before.length.toNat + fed (front.flatMap Turn.calls) = s.length.toNat ∧
      turn.before.offset = s.offset + .ofNat (fed (front.flatMap Turn.calls)) ∧
      (∀ s' ∈ turn.after,
        s'.length.toNat + fed ((front ++ [turn]).flatMap Turn.calls) = s.length.toNat) ∧
      ∀ earlier ∈ front, earlier.exits = false := by
  induction attempts with
  | nil =>
      intro s front back turn h
      simp [turns] at h
  | cons attempt attempts ih =>
      intro s front back turn h hfed
      obtain ⟨rest, hturns, hrest⟩ := turns_cons digest Z s attempt attempts
      obtain ⟨-, hafter⟩ := turn_length digest Z s attempt
      rw [hturns] at h
      cases front with
      | nil =>
          cases h
          simp only [List.nil_append, List.flatMap_singleton, List.flatMap_nil] at hfed ⊢
          rw [turn_before]
          exact ⟨rfl, by simp, fun s' hs' => (hafter hfed s' hs').1, by simp⟩
      | cons first front =>
          rw [List.cons_append] at h
          obtain ⟨rfl, hback⟩ := List.cons.inj h
          rcases hrest with rfl | ⟨s', hs', hexits, rfl⟩
          · simp at hback
          · rw [List.cons_append, List.flatMap_cons, fed_append] at hfed
            obtain ⟨hlength, hoffset⟩ := hafter (by omega) s' hs'
            obtain ⟨hleft, hstart, hbehind, hearlier⟩ := ih hback (by omega)
            rw [List.flatMap_cons, fed_append]
            refine ⟨by omega, ?_, fun s'' hs'' => ?_, List.forall_mem_cons.mpr ⟨hexits, hearlier⟩⟩
            · rw [hstart, hoffset, UInt64.ofNat_add, UInt64.add_assoc]
            · have := hbehind s'' hs''
              rw [List.cons_append, List.flatMap_cons, fed_append]
              omega

/-- Up to a turn no more is fed than in the whole run. -/
theorem fed_split {s : Session} {attempts : List Attempt} {front back : List Turn} {turn : Turn}
    (h : s.turns digest Z attempts = front ++ turn :: back) :
    fed ((front ++ [turn]).flatMap Turn.calls) ≤ fed (s.cdnLoop digest Z attempts) := by
  have hsum := fed_append ((front ++ [turn]).flatMap Turn.calls) (back.flatMap Turn.calls)
  rw [← List.flatMap_append, List.append_assoc, List.singleton_append, ← h, turns_calls] at hsum
  omega

/-- The ranges fit exactly when the first one does. -/
theorem rangesFit_iff {s : Session} {attempts : List Attempt}
    (hfed : fed (s.cdnLoop digest Z attempts) ≤ s.length.toNat) :
    RangesFit digest Z s attempts ↔
      (s.length ≠ 0 → attempts ≠ [] → s.offset.toNat + s.length.toNat ≤ 2 ^ 64) := by
  constructor
  · intro h hlength hattempts
    cases attempts with
    | nil => exact absurd rfl hattempts
    | cons attempt attempts =>
        obtain ⟨rest, hturns, -⟩ := turns_cons digest Z s attempt attempts
        have hfirst := h (s.turn digest Z attempt) (by rw [hturns]; exact List.mem_cons_self)
        rw [turn_before] at hfirst
        have := hfirst hlength
        omega
  · intro h turn hturn hlength
    obtain ⟨front, back, hsplit⟩ := List.append_of_mem hturn
    obtain ⟨hleft, hoffset, -, -⟩ := turns_split attempts hsplit
      (Nat.le_trans (fed_split hsplit) hfed)
    have hattempts : attempts ≠ [] := by
      rintro rfl
      simp [turns] at hturn
    have hpos : 0 < turn.before.length.toNat := by
      rw [Nat.pos_iff_ne_zero]
      exact fun h0 => hlength (UInt64.toNat_inj.mp h0)
    have hs : s.length ≠ 0 := by
      intro h0
      rw [h0] at hleft
      change _ = 0 at hleft
      omega
    have hfit := h hs hattempts
    have hstart : turn.before.offset.toNat =
        s.offset.toNat + fed (front.flatMap Turn.calls) := by
      rw [hoffset, UInt64.toNat_add, UInt64.toNat_ofNat', Nat.add_mod_mod]
      exact Nat.mod_eq_of_lt (by omega)
    omega

/-- A payload that was read without a failure leaves a session. -/
theorem after_of_succeeded (attempts : List Attempt) : ∀ {s : Session},
    ∀ turn ∈ s.turns digest Z attempts, turn.succeeded = true → ∃ s', turn.after = some s' := by
  induction attempts with
  | nil => exact fun _ h => absurd h List.not_mem_nil
  | cons attempt attempts ih =>
      intro s turn hturn hsucceeded
      obtain ⟨rest, hturns, hrest⟩ := turns_cons digest Z s attempt attempts
      rw [hturns] at hturn
      rcases List.mem_cons.mp hturn with rfl | hturn
      · cases attempt with
        | unavailable => cases hsucceeded
        | answered pieces completed =>
            rw [Session.turn] at hsucceeded ⊢
            split at hsucceeded
            · cases hsucceeded
            · exact ⟨_, rfl⟩
      · rcases hrest with rfl | ⟨s', -, -, rfl⟩
        · exact absurd hturn List.not_mem_nil
        · exact ih turn hturn hsucceeded

/-- A turn exits when its payload was read without a failure and nothing is
missing. -/
theorem exits_iff {s : Session} {attempts : List Attempt} {front back : List Turn} {turn : Turn}
    (hsplit : s.turns digest Z attempts = front ++ turn :: back)
    (hfed : fed ((front ++ [turn]).flatMap Turn.calls) ≤ s.length.toNat) :
    turn.exits = true ↔ turn.succeeded = true ∧
      fed ((front ++ [turn]).flatMap Turn.calls) = s.length.toNat := by
  obtain ⟨-, -, hbehind, -⟩ := turns_split attempts hsplit hfed
  rw [Turn.exits, Bool.and_eq_true]
  refine and_congr_right fun hsucceeded => ?_
  obtain ⟨s', hs'⟩ := after_of_succeeded attempts turn (by rw [hsplit]; simp) hsucceeded
  have hleft := hbehind s' hs'
  rw [hs', Option.any_some, decide_eq_true_iff, ← UInt64.toNat_inj]
  change s'.length.toNat = 0 ↔ _
  omega

/-- The exit is right exactly when no turn that fails is left with nothing
missing. -/
theorem exitsWhenFed_iff {s : Session} {attempts : List Attempt}
    (hfed : fed (s.cdnLoop digest Z attempts) ≤ s.length.toNat) :
    ExitsWhenFed digest Z s attempts ↔
      (s.length ≠ 0 → ∀ front turn back, s.turns digest Z attempts = front ++ turn :: back →
        turn.after ≠ none → turn.succeeded = false →
        fed ((front ++ [turn]).flatMap Turn.calls) < s.length.toNat) := by
  have hle : ∀ {front back : List Turn} {turn : Turn},
      s.turns digest Z attempts = front ++ turn :: back →
      fed ((front ++ [turn]).flatMap Turn.calls) ≤ s.length.toNat :=
    fun hsplit => Nat.le_trans (fed_split hsplit) hfed
  by_cases hlength : s.length = 0
  · refine iff_of_true (fun front turn back hsplit hafter => ?_) fun h => absurd hlength h
    have hnone : ∀ {front back : List Turn} {turn : Turn},
        s.turns digest Z attempts = front ++ turn :: back →
        fed ((front ++ [turn]).flatMap Turn.calls) = s.length.toNat := by
      intro front back turn hsplit
      have := hle hsplit
      rw [hlength] at this ⊢
      exact Nat.le_zero.mp this
    rw [exits_iff hsplit (hle hsplit), and_iff_left (hnone hsplit), AllFed, if_pos hlength]
    refine ⟨fun h => ⟨turn, by simp, h⟩, ?_⟩
    rintro ⟨earlier, hearlier, hsucceeded⟩
    rcases List.mem_append.mp hearlier with hearlier | hearlier
    · -- the loop would have ended there
      obtain ⟨-, -, -, hgoesOn⟩ := turns_split attempts hsplit (hle hsplit)
      obtain ⟨front₁, front₂, rfl⟩ := List.append_of_mem hearlier
      have hsplit₁ : s.turns digest Z attempts =
          front₁ ++ earlier :: (front₂ ++ turn :: back) := by rw [hsplit]; simp
      have hexits := (exits_iff hsplit₁ (hle hsplit₁)).mpr ⟨hsucceeded, hnone hsplit₁⟩
      rw [hgoesOn earlier hearlier] at hexits
      cases hexits
    · rwa [← List.mem_singleton.mp hearlier]
  · have hall : ∀ done, AllFed s.length done ↔ s.length.toNat ≤ fed (done.flatMap Turn.calls) :=
      fun done => by rw [AllFed, if_neg hlength]
    constructor
    · intro h _ front turn back hsplit hafter hfailed
      have hexits := (h front turn back hsplit hafter).not
      rw [hall, exits_iff hsplit (hle hsplit), hfailed] at hexits
      exact Nat.lt_of_not_le (hexits.mp fun h => Bool.false_ne_true h.1)
    · intro h front turn back hsplit hafter
      rw [hall, exits_iff hsplit (hle hsplit)]
      refine ⟨fun hexits => hexits.2.ge, fun hge => ?_⟩
      refine ⟨?_, Nat.le_antisymm (hle hsplit) hge⟩
      by_contra hfailed
      have := h hlength front turn back hsplit hafter (Bool.eq_false_iff.mpr hfailed)
      omega

end Runs

end Session

end Tactmon
