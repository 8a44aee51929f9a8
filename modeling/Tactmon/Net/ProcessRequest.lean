import Tactmon.Net.Link
import Tactmon.Net.Session
import Tactmon.Ribbit.Records

/-!
# One request

`Session::ProcessRequest` from the target of a request to its last effect on
the client.  What the network does is an `Environment`: the answer of Ribbit,
whether the header gets through, the probe of every host, and the transfers.
The loop over the CDNs is `Session.cdnLoop`.

The function has three kinds of effect.  It writes the header of the success
response itself, the decoder's callback writes the body behind it, and an error
response is queued.  An error response has a header of its own.

`writeError` is called in front of the header, and once behind it: where no CDN
has the archive.  `processRequest_oneResponse_iff` says that this is the only
way to a second header.
-/

namespace Tactmon

namespace Net

open Binary Text Ribbit Zlib

/-! ## What the network does -/

/-- How `ribbit::CDNs<>::Execute` ends. -/
inductive RibbitAnswer where
  /-- The host name could not be resolved. -/
  | threw
  | failed
  | answered (cdns : List CDN)

/-- What a host says when it is asked for an archive. -/
inductive Probe where
  /-- The host name could not be resolved. -/
  | threw
  | unreachable
  /-- The status of a `HEAD` and that of a `GET`, or none where the exchange
  failed. -/
  | asked (head get : Option Nat)

/-- One turn of the loop over the available archives. -/
inductive Transfer where
  /-- The host name could not be resolved. -/
  | threw
  | attempt (attempt : Attempt)

/-- The network during one request. -/
structure Environment where
  ribbit : Bytes → RibbitAnswer
  /-- The success header gets through. -/
  headerWritten : Bool
  /-- The probes in the order they are posted. -/
  probe : Nat → Probe
  /-- The order an unordered map is walked in. -/
  order : List (Bytes × Bytes) → List (Bytes × Bytes)
  transfer : Bytes × Bytes → Transfer
  /-- The writes of the body that get through, if one of them throws. -/
  bodyWrites : Option Nat
  order_perm : ∀ archives, (order archives).Perm archives

/-! ## Available archives -/

/-- `checkExistence`, from the status. -/
def accepts (status : Option Nat) : Bool :=
  match status with
  | none => false
  | some code => !(code = 404 || code = 416 || code = 405)

/-- Whether the archive is there.  There is no result when the probe threw. -/
def Probe.result : Probe → Option Bool
  | .threw => none
  | .unreachable => some false
  | .asked head get => some (accepts head || accepts get)

/-- The path of an archive on a CDN. -/
def remotePath (cdn : CDN) (archiveName : Bytes) : Bytes :=
  ascii "/" ++ cdn.path ++ ascii "/data/" ++ archiveName.take 2 ++ ascii "/" ++
    (archiveName.drop 2).take 2 ++ ascii "/" ++ archiveName

/-- The hosts that are probed, each with the path it is asked for. -/
def remoteArchives (cdns : List CDN) (archiveName : Bytes) : List (Bytes × Bytes) :=
  cdns.flatMap fun cdn => cdn.hosts.map (·, remotePath cdn archiveName)

/-- `std::unordered_map::emplace`. -/
def emplace (resultSet : List (Bytes × Bytes)) (archive : Bytes × Bytes) : List (Bytes × Bytes) :=
  if resultSet.any (·.1 = archive.1) then resultSet else resultSet ++ [archive]

/-- The results of the probes, one after the other. -/
def collectResults (probe : Nat → Probe) :
    Nat → List (Bytes × Bytes) → List (Bytes × Bytes) → Option (List (Bytes × Bytes))
  | _, resultSet, [] => some resultSet
  | i, resultSet, archive :: archives =>
      match (probe i).result with
      | none => none
      | some true => collectResults probe (i + 1) (emplace resultSet archive) archives
      | some false => collectResults probe (i + 1) resultSet archives

/-- `CollectAvailableCDNs`.  It throws where a probe did, and where the archive
name has no third character to start from. -/
def collectAvailableCDNs (env : Environment) (cdns : List CDN) (archiveName : Bytes) :
    Option (List (Bytes × Bytes)) :=
  if cdns ≠ [] ∧ archiveName.length < 2 then none
  else collectResults env.probe 0 [] (remoteArchives cdns archiveName)

/-! ## The effects of a request -/

/-- What a request does to the client's stream. -/
inductive Effect where
  /-- `http::write_header` of the success response. -/
  | header (params : FileQueryParams) (written : Bool)
  /-- `asio::write` of decoded bytes. -/
  | body (data : Bytes)
  /-- `BeginWrite` of an error response. -/
  | queued (response : ErrorResponse)
deriving DecidableEq

/-- The effects of a request, and whether it returned true.  An exception that
leaves the function is one way not to. -/
structure Processed where
  effects : List Effect
  again : Bool
deriving DecidableEq

/-- `writeError`, behind the effects that were there before. -/
def writeError (effects : List Effect) (response : ErrorResponse) : Processed :=
  ⟨effects ++ [.queued response], true⟩

/-- The attempts up to the first exception. -/
def attempts : List Transfer → List Attempt
  | [] => []
  | .threw :: _ => []
  | .attempt attempt :: transfers => attempt :: attempts transfers

section Process

variable (digest : Bytes → Digest) (Z : Inflate)

/-- The decoded bytes of a call. -/
def decoded (call : Call) : List Bytes :=
  match call.before.transform.parse digest Z call.piece with
  | .ok (_, r) => r.out
  | .error _ => []

/-- The loop over the CDNs, as it is seen by the client. -/
def stream (env : Environment) (params : FileQueryParams) (archives : List (Bytes × Bytes)) :
    List Effect :=
  let calls := Session.cdnLoop digest Z ⟨params.offset, params.length, .fresh⟩
    (attempts ((env.order archives).map env.transfer))
  let written := calls.flatMap (decoded digest Z)
  match env.bodyWrites with
  | none => written.map .body
  | some n => (written.take n).map .body

/-- `ProcessRequest`. -/
def processRequest (env : Environment) (target : Bytes) : Processed :=
  match parseTarget target with
  | .error response => writeError [] response
  | .ok params =>
      match env.ribbit params.product with
      | .threw => ⟨[], false⟩
      | .failed => writeError [] ⟨404, ascii "Unable to resolve CDN configuration.\r\n" ++
        ascii "This could be due to Ribbit being unavailable or this build not being cached.\r\n" ++
        ascii "Try again in a bit; if this error persists, you're out of luck."⟩
      | .answered cdns =>
          if env.headerWritten then
            match collectAvailableCDNs env cdns params.archiveName with
            | none => ⟨[.header params true], false⟩
            | some [] => writeError [.header params true]
                ⟨404, ascii "No CDN could fulfill this request."⟩
            | some archives => ⟨.header params true :: stream digest Z env params archives, false⟩
          else ⟨[.header params false], true⟩

end Process

/-! ## One response -/

/-- The effect puts a response header on the stream. -/
def Effect.isHeader : Effect → Bool
  | .header _ _ => true
  | .body _ => false
  | .queued _ => true

/-- There is at most one response header, and no error response is queued
behind a success header that got through. -/
def OneResponse (effects : List Effect) : Prop :=
  effects.countP Effect.isHeader ≤ 1 ∧
    ∀ before params later, effects = before ++ .header params true :: later →
      ∀ response, .queued response ∉ later

/-- The host has no copy of the archive, and says so. -/
def Probe.Refuses (probe : Probe) : Prop := probe.result = some false

/-- The request is accepted, its CDNs are known, the success header gets through,
and then every host that is probed refuses. -/
def Environment.NoSource (env : Environment) (target : Bytes) : Prop :=
  ∃ params cdns, parseTarget target = .ok params ∧
    env.ribbit params.product = .answered cdns ∧ env.headerWritten = true ∧
    (cdns = [] ∨ 2 ≤ params.archiveName.length) ∧
    ∀ i < (remoteArchives cdns params.archiveName).length, (env.probe i).Refuses

/-- The request is answered by an error response: it is not accepted, or its CDNs
are not known, or no host has the archive. -/
def Environment.Responds (env : Environment) (target : Bytes) : Prop :=
  (∃ response, parseTarget target = .error response) ∨
    (∃ params, parseTarget target = .ok params ∧ env.ribbit params.product = .failed) ∨
    env.NoSource target

theorem emplace_ne_nil (resultSet : List (Bytes × Bytes)) (archive : Bytes × Bytes) :
    emplace resultSet archive ≠ [] := by
  cases resultSet with
  | nil => exact List.cons_ne_nil _ _
  | cons first resultSet =>
      rw [emplace]
      split
      · exact List.cons_ne_nil _ _
      · exact List.cons_ne_nil _ _

/-- Nothing is found exactly when every host refuses. -/
theorem collectResults_eq_nil_iff {probe : Nat → Probe} (archives : List (Bytes × Bytes)) :
    ∀ {i : Nat} {resultSet : List (Bytes × Bytes)},
      collectResults probe i resultSet archives = some [] ↔
        resultSet = [] ∧ ∀ j < archives.length, (probe (i + j)).Refuses := by
  induction archives with
  | nil =>
      intro i resultSet
      rw [collectResults, Option.some.injEq]
      exact ⟨fun h => ⟨h, fun j hj => absurd hj (Nat.not_lt_zero j)⟩, And.left⟩
  | cons archive archives ih =>
      intro i resultSet
      rw [collectResults]
      have hfirst : (∀ j < (archive :: archives).length, (probe (i + j)).Refuses) ↔
          (probe i).Refuses ∧ ∀ j < archives.length, (probe (i + 1 + j)).Refuses := by
        constructor
        · intro h
          refine ⟨h 0 (Nat.zero_lt_succ _), fun j hj => ?_⟩
          rw [Nat.add_right_comm]
          exact h (j + 1) (Nat.succ_lt_succ hj)
        · rintro ⟨h, hrest⟩ j hj
          cases j with
          | zero => exact h
          | succ j =>
              have := hrest j (Nat.lt_of_succ_lt_succ hj)
              rwa [Nat.add_right_comm] at this
      rw [hfirst, Probe.Refuses]
      cases (probe i).result with
      | none => simp
      | some found =>
          cases found with
          | false => simp [ih]
          | true => simp [ih, emplace_ne_nil]

theorem collectAvailableCDNs_eq_nil_iff {env : Environment} {cdns : List CDN}
    {archiveName : Bytes} :
    collectAvailableCDNs env cdns archiveName = some [] ↔
      (cdns = [] ∨ 2 ≤ archiveName.length) ∧
        ∀ i < (remoteArchives cdns archiveName).length, (env.probe i).Refuses := by
  rw [collectAvailableCDNs]
  split
  · rename_i h
    refine iff_of_false (fun h => by cases h) ?_
    rintro ⟨hcdns | hlen, -⟩
    · exact h.1 hcdns
    · exact absurd hlen (Nat.not_le.mpr h.2)
  · rename_i h
    rw [collectResults_eq_nil_iff]
    simp only [true_and, Nat.zero_add]
    have hlen : cdns = [] ∨ 2 ≤ archiveName.length := by
      by_cases hcdns : cdns = []
      · exact .inl hcdns
      · exact .inr (Nat.not_lt.mp fun hlt => h ⟨hcdns, hlt⟩)
    exact ⟨fun hall => ⟨hlen, hall⟩, And.right⟩

/-- One effect is one response at most. -/
theorem oneResponse_singleton (e : Effect) : OneResponse [e] := by
  refine ⟨Nat.le_trans (List.countP_le_length) (Nat.le_refl 1), fun before params later h => ?_⟩
  have hlater : later = [] := by
    have hlen := congrArg List.length h
    simp only [List.length_append, List.length_cons, List.length_nil] at hlen
    exact List.length_eq_zero_iff.mp (by omega)
  rw [hlater]
  exact fun _ => List.not_mem_nil

/-- A body behind a header keeps to one response. -/
theorem oneResponse_body {first : Effect} {bodies : List Effect}
    (h : ∀ e ∈ bodies, ∃ data, e = .body data) : OneResponse (first :: bodies) := by
  have hnone : bodies.countP Effect.isHeader = 0 := by
    rw [List.countP_eq_zero]
    intro e he
    obtain ⟨data, rfl⟩ := h e he
    exact Bool.false_ne_true
  constructor
  · rw [List.countP_cons, hnone]
    split <;> omega
  · intro before params later hsplit response hmem
    cases before with
    | nil =>
        rw [List.nil_append, List.cons.injEq] at hsplit
        rw [← hsplit.2] at hmem
        obtain ⟨data, hdata⟩ := h _ hmem
        cases hdata
    | cons e before =>
        rw [List.cons_append, List.cons.injEq] at hsplit
        have hin : Effect.queued response ∈ bodies := by
          rw [hsplit.2]
          exact List.mem_append_right _ (List.mem_cons_of_mem _ hmem)
        obtain ⟨data, hdata⟩ := h _ hin
        cases hdata

section Process

variable (digest : Bytes → Digest) (Z : Inflate)

theorem mem_stream {env : Environment} {params : FileQueryParams}
    {archives : List (Bytes × Bytes)} {e : Effect}
    (h : e ∈ stream digest Z env params archives) : ∃ data, e = .body data := by
  rw [stream] at h
  split at h
  · obtain ⟨data, -, rfl⟩ := List.mem_map.mp h
    exact ⟨data, rfl⟩
  · obtain ⟨data, -, rfl⟩ := List.mem_map.mp h
    exact ⟨data, rfl⟩

theorem not_oneResponse_queued (params : FileQueryParams) (response : ErrorResponse) :
    ¬ OneResponse [.header params true, .queued response] := by
  intro h
  exact h.2 [] params [.queued response] rfl response (List.mem_singleton.mpr rfl)

/-- With the target accepted, the CDNs known and the header through, the probes
decide. -/
theorem noSource_iff (env : Environment) {target : Bytes} {params : FileQueryParams}
    (hparams : parseTarget target = .ok params) :
    env.NoSource target ↔ ∃ cdns, env.ribbit params.product = .answered cdns ∧
      env.headerWritten = true ∧ collectAvailableCDNs env cdns params.archiveName = some [] := by
  constructor
  · rintro ⟨params', cdns, hparams', hribbit, hheader, hlen, hall⟩
    rw [hparams, Except.ok.injEq] at hparams'
    subst hparams'
    exact ⟨cdns, hribbit, hheader, collectAvailableCDNs_eq_nil_iff.mpr ⟨hlen, hall⟩⟩
  · rintro ⟨cdns, hribbit, hheader, hcollect⟩
    obtain ⟨hlen, hall⟩ := collectAvailableCDNs_eq_nil_iff.mp hcollect
    exact ⟨params, cdns, hparams, hribbit, hheader, hlen, hall⟩

/-- A request gets one response unless it is accepted, its CDNs are known, the
success header gets through, and then no host has the archive. -/
theorem processRequest_oneResponse_iff (env : Environment) (target : Bytes) :
    OneResponse (processRequest digest Z env target).effects ↔ ¬ env.NoSource target := by
  rw [processRequest]
  cases hparams : parseTarget target with
  | error response =>
      refine iff_of_true (oneResponse_singleton _) ?_
      rintro ⟨params, cdns, h, -⟩
      rw [hparams] at h
      cases h
  | ok params =>
      dsimp only
      rw [noSource_iff env hparams]
      cases hribbit : env.ribbit params.product with
      | threw =>
          refine iff_of_true ⟨Nat.zero_le 1, fun before _ later h => ?_⟩ ?_
          · exact absurd h.symm (by simp)
          · rintro ⟨cdns, h, -⟩
            cases h
      | failed =>
          refine iff_of_true (oneResponse_singleton _) ?_
          rintro ⟨cdns, h, -⟩
          cases h
      | answered cdns =>
          dsimp only
          cases hheader : env.headerWritten with
          | false =>
              refine iff_of_true (oneResponse_singleton _) ?_
              rintro ⟨cdns, -, h, -⟩
              cases h
          | true =>
              rw [if_pos rfl]
              simp only [RibbitAnswer.answered.injEq, true_and, exists_eq_left']
              cases hcollect : collectAvailableCDNs env cdns params.archiveName with
              | none => exact iff_of_true (oneResponse_singleton _) (fun h => by cases h)
              | some archives =>
                  cases archives with
                  | nil => exact iff_of_false (not_oneResponse_queued params _) (fun h => h rfl)
                  | cons archive archives =>
                      refine iff_of_true ?_ (fun h => by cases h)
                      exact oneResponse_body fun e he => mem_stream digest Z he

/-- The error responses that are queued. -/
def Processed.queued (processed : Processed) : List ErrorResponse :=
  processed.effects.filterMap fun
    | .queued response => some response
    | _ => none

/-- One error response is queued, or none. -/
theorem processRequest_queued (env : Environment) (target : Bytes) :
    (env.Responds target ∧ ∃ response, (processRequest digest Z env target).queued = [response]) ∨
      (¬ env.Responds target ∧ (processRequest digest Z env target).queued = []) := by
  rw [processRequest, Environment.Responds]
  cases hparams : parseTarget target with
  | error response => exact .inl ⟨.inl ⟨response, rfl⟩, response, rfl⟩
  | ok params =>
      have hsource := noSource_iff env hparams
      rw [hsource]
      simp only [reduceCtorEq, exists_false, false_or, Except.ok.injEq, exists_eq_left']
      cases hribbit : env.ribbit params.product with
      | threw => exact .inr ⟨by simp, rfl⟩
      | failed => exact .inl ⟨.inl rfl, _, rfl⟩
      | answered cdns =>
          simp only [reduceCtorEq, false_or, RibbitAnswer.answered.injEq, exists_eq_left']
          cases hheader : env.headerWritten with
          | false => exact .inr ⟨by simp, rfl⟩
          | true =>
              rw [if_pos rfl]
              cases hcollect : collectAvailableCDNs env cdns params.archiveName with
              | none => exact .inr ⟨by simp, rfl⟩
              | some archives =>
                  cases archives with
                  | nil => exact .inl ⟨⟨rfl, rfl⟩, _, rfl⟩
                  | cons archive archives =>
                      refine .inr ⟨by simp, ?_⟩
                      rw [Processed.queued, List.filterMap_cons, List.filterMap_eq_nil_iff.mpr]
                      intro e he
                      obtain ⟨data, rfl⟩ := mem_stream digest Z he
                      rfl

end Process

/-- Ribbit knows one CDN, and its host cannot be reached. -/
def Environment.unreachable : Environment where
  ribbit := fun _ => .answered [⟨ascii "us", ascii "tpr/wow", [ascii "a.net"], [], ascii "c"⟩]
  headerWritten := true
  probe := fun _ => .unreachable
  order := id
  transfer := fun _ => .attempt .unavailable
  bodyWrites := none
  order_perm := fun archives => .refl archives

/-- With its only host out of reach, a request gets the success header and an
error response behind it. -/
theorem processRequest_two_responses :
    ∃ params response, (processRequest Digest.leading Inflate.copying Environment.unreachable
        (ascii "/wow/0a1b2c/0/10/5/Glue.toc")).effects = [.header params true, .queued response] ∧
      ¬ OneResponse (processRequest Digest.leading Inflate.copying Environment.unreachable
        (ascii "/wow/0a1b2c/0/10/5/Glue.toc")).effects := by
  have heffects : (processRequest Digest.leading Inflate.copying Environment.unreachable
      (ascii "/wow/0a1b2c/0/10/5/Glue.toc")).effects =
      [.header ⟨ascii "wow", ascii "0a1b2c", 0, 10, 5, ascii "Glue.toc"⟩ true,
        .queued ⟨404, ascii "No CDN could fulfill this request."⟩] := by decide
  refine ⟨_, _, heffects, ?_⟩
  rw [heffects]
  exact not_oneResponse_queued _ _

end Net

end Tactmon
