import Tactmon.Beast.Progress
import Tactmon.Net.ProcessRequest
import Tactmon.Net.Range

/-!
# The body of a response

What a client gets that asks for an archive, when the CDNs answer every request
with the range it asks for.

A CDN may be out of reach, cut its payload off, or be given up because of an
error of the decoder, and the next one resumes.  `Delivers` is what the loop
keeps: the decoder was fed from the archive, and `Offset` and `Length` say where
it is.  So a request asks for the bytes that follow (`Delivers.partialContent`).

The one request without a range is sent after an error behind the last byte.
Then the whole file follows, and the decoder no longer looks at it.

Hence the body is always the beginning of the contents, and all of them if the
loop ends with the exit for `Length == 0` (`processRequest_delivers`).
-/

namespace Tactmon

open Binary Cxx Text Zlib

/-! ## Honest turns -/

namespace Session

/-- The bytes that some calls feed to the decoder. -/
def fedBytes (calls : List Call) : Bytes := calls.flatMap Call.piece

theorem fedBytes_length (calls : List Call) : (fedBytes calls).length = fed calls := by
  rw [fedBytes, List.length_flatMap, fed]

theorem fedBytes_cons (call : Call) (calls : List Call) :
    fedBytes (call :: calls) = call.piece ++ fedBytes calls := List.flatMap_cons

theorem fedBytes_singleton (call : Call) : fedBytes [call] = call.piece :=
  List.flatMap_singleton _ _

/-- The answer to a request for a range of a file.  Without a range it is the
file, and so it is where the range ends in front of its beginning. -/
def partialContent (file : Bytes) : Option (UInt64 × UInt64) → Bytes
  | none => file
  | some (first, last) =>
      if first ≤ last then (file.drop first.toNat).take (last.toNat + 1 - first.toNat) else file

/-- What was read in a turn is the answer to its request, up to where it was cut
off. -/
structure Turn.Honest (file : Bytes) (turn : Turn) : Prop where
  beginning : fedBytes turn.calls <+: partialContent file turn.before.range
  whole : turn.succeeded = true → fedBytes turn.calls = partialContent file turn.before.range

/-- The bytes that some calls hand out. -/
def decodedBytes (digest : Bytes → Digest) (Z : Inflate) (calls : List Call) : Bytes :=
  (calls.flatMap (Net.decoded digest Z)).flatten

section DecodedBytes

variable {digest : Bytes → Digest} {Z : Inflate}

theorem decodedBytes_cons (call : Call) (calls : List Call) :
    decodedBytes digest Z (call :: calls) =
      (Net.decoded digest Z call).flatten ++ decodedBytes digest Z calls := by
  rw [decodedBytes, List.flatMap_cons, List.flatten_append, decodedBytes]

theorem decodedBytes_append (calls calls' : List Call) :
    decodedBytes digest Z (calls ++ calls') =
      decodedBytes digest Z calls ++ decodedBytes digest Z calls' := by
  rw [decodedBytes, List.flatMap_append, List.flatten_append, decodedBytes, decodedBytes]

theorem decodedBytes_nil : decodedBytes digest Z [] = [] := rfl

theorem decodedBytes_singleton (call : Call) :
    decodedBytes digest Z [call] = (Net.decoded digest Z call).flatten := by
  rw [decodedBytes, List.flatMap_singleton]

/-- A call that ends in a fault hands out nothing. -/
theorem decodedBytes_fault {s : Session} {piece : Bytes} {f : Fault}
    (hput : s.put digest Z piece = .error f) :
    decodedBytes digest Z [⟨s, piece, .error f⟩] = [] := by
  rw [decodedBytes_singleton, Net.decoded]
  rw [put] at hput
  cases hparse : s.transform.parse digest Z piece with
  | error f' => rfl
  | ok r =>
      rw [hparse] at hput
      cases hput

end DecodedBytes

instance (file : Bytes) (turn : Turn) : Decidable (turn.Honest file) :=
  decidable_of_iff (fedBytes turn.calls <+: partialContent file turn.before.range ∧
      (turn.succeeded = true → fedBytes turn.calls = partialContent file turn.before.range))
    ⟨fun h => ⟨h.1, h.2⟩, fun h => ⟨h.1, h.2⟩⟩

end Session

namespace Archive

open Session

variable {Z : Inflate} {digest : Bytes → Digest} {a : Archive Z}

theorem Begins.of_append {data x : Bytes} (h : a.Begins digest (data ++ x)) :
    a.Begins digest data := by
  obtain ⟨more, h⟩ := h
  exact ⟨more, (List.prefix_append data x).trans h⟩

theorem Begins.cases {data : Bytes} (h : a.Begins digest data) :
    data.length < (a.bytes digest).length ∧ data <+: a.bytes digest ∨
      a.bytes digest <+: data := by
  obtain ⟨more, h⟩ := h
  have hbytes := List.prefix_append (a.bytes digest) more
  rcases Nat.lt_or_ge data.length (a.bytes digest).length with hlt | hge
  · exact .inl ⟨hlt, List.prefix_of_prefix_length_le h hbytes (Nat.le_of_lt hlt)⟩
  · exact .inr (List.prefix_of_prefix_length_le hbytes h hge)

/-- The archive is in the file, where the request says. -/
structure Placed (digest : Bytes → Digest) (a : Archive Z) (file : Bytes)
    (offset length : UInt64) : Prop where
  split : ∃ front back, file = front ++ (a.bytes digest ++ back) ∧ front.length = offset.toNat
  length_eq : (a.bytes digest).length = length.toNat
  fits : file.length < 2 ^ 64

theorem Placed.range_le {file : Bytes} {offset length : UInt64}
    (h : a.Placed digest file offset length) :
    offset.toNat + length.toNat ≤ file.length := by
  obtain ⟨front, back, rfl, hfront⟩ := h.split
  rw [List.length_append, List.length_append, hfront, h.length_eq]
  omega

theorem Placed.length_pos {file : Bytes} {offset length : UInt64}
    (h : a.Placed digest file offset length) : 0 < length.toNat := by
  rw [← h.length_eq, bytes_eq, List.length_append, lead_length]
  omega

/-- What the loop over the CDNs keeps: the decoder was fed from the archive and
has handed out `out`, and the range is what is missing. -/
structure Delivers (digest : Bytes → Digest) (a : Archive Z) (offset length : UInt64)
    (s : Session) (out : Bytes) : Prop where
  progress : a.Progress digest s.transform out
  offset_eq : s.offset = offset + .ofNat s.transform.ms.data.length
  length_eq : s.length = length - .ofNat s.transform.ms.data.length

theorem delivers_fresh (offset length : UInt64) :
    a.Delivers digest offset length ⟨offset, length, .fresh⟩ [] where
  progress := progress_fresh
  offset_eq := (UInt64.add_zero offset).symm
  length_eq := (UInt64.sub_zero length).symm

section Run

variable {offset length : UInt64} {file : Bytes} {s s' : Session} {out : Bytes}

/-- As long as bytes are missing, a request asks for those that follow. -/
theorem Delivers.partialContent (h : a.Delivers digest offset length s out)
    (hplaced : a.Placed digest file offset length)
    (hlt : s.transform.ms.data.length < (a.bytes digest).length) :
    partialContent file s.range = (a.bytes digest).drop s.transform.ms.data.length := by
  have hle := hplaced.range_le
  have hfits := hplaced.fits
  rw [hplaced.length_eq] at hlt
  have hoffset : s.offset.toNat = offset.toNat + s.transform.ms.data.length := by
    rw [h.offset_eq, UInt64.toNat_add, UInt64.toNat_ofNat', Nat.add_mod_mod]
    exact Nat.mod_eq_of_lt (by omega)
  have hlength : s.length.toNat = length.toNat - s.transform.ms.data.length := by
    rw [h.length_eq]
    exact toNat_sub_ofNat (Nat.le_of_lt hlt)
  have hne : s.length ≠ 0 := fun h0 => by
    rw [h0] at hlength
    change 0 = _ at hlength
    omega
  have hsum : (s.offset + s.length).toNat = offset.toNat + length.toNat := by
    rw [UInt64.toNat_add, hoffset, hlength]
    exact (Nat.mod_eq_of_lt (by omega)).trans (by omega)
  have hlast : (s.offset + s.length - 1).toNat = offset.toNat + length.toNat - 1 := by
    have hone : (1 : UInt64) ≤ s.offset + s.length := by
      rw [UInt64.le_iff_toNat_le, hsum]
      change 1 ≤ _
      omega
    rw [UInt64.toNat_sub_of_le _ _ hone, hsum]
    rfl
  obtain ⟨front, back, rfl, hfront⟩ := hplaced.split
  rw [Session.range, if_pos hne, partialContent, if_pos (UInt64.le_iff_toNat_le.mpr
    (by omega)), hlast, hoffset, ← hfront, List.drop_append, List.drop_eq_nil_of_le (by omega),
    List.nil_append, Nat.add_sub_cancel_left, List.drop_append_of_le_length
      (by rw [hplaced.length_eq]; omega)]
  refine List.take_left' ?_
  rw [List.length_drop, hplaced.length_eq]
  omega

/-- An honest turn feeds bytes of the archive, or the archive has arrived. -/
theorem Delivers.begins {turn : Session.Turn} (h : a.Delivers digest offset length turn.before out)
    (hplaced : a.Placed digest file offset length) (hhonest : turn.Honest file) :
    a.Begins digest (turn.before.transform.ms.data ++ fedBytes turn.calls) := by
  rcases h.progress.held.cases with ⟨hlt, hdata⟩ | hwhole
  · obtain ⟨rest, hrest⟩ := hdata
    have hbeginning := hhonest.beginning
    rw [h.partialContent hplaced hlt, ← hrest, List.drop_left] at hbeginning
    exact begins_of_prefix (hrest ▸ (List.prefix_append_right_inj _).mpr hbeginning)
  · exact begins_of_whole (hwhole.trans (List.prefix_append _ _))

/-- A call hands out whole chunks and moves the range. -/
theorem Delivers.put {piece : Bytes} {e : Option ParseError}
    (h : a.Delivers digest offset length s out) (hsome : a.chunks ≠ [])
    (hx : a.Begins digest (s.transform.ms.data ++ piece))
    (hfit : s.transform.ms.data.length + piece.length < 2 ^ 63)
    (hput : s.put digest Z piece = .ok (s', e)) :
    a.Delivers digest offset length s'
        (out ++ decodedBytes digest Z [⟨s, piece, .ok (s', e)⟩]) ∧
      s'.transform.ms.data = s.transform.ms.data ++ piece ∧
      (e = none → a.Arrived digest s'.transform →
        out ++ decodedBytes digest Z [⟨s, piece, .ok (s', e)⟩] = a.contents) := by
  obtain ⟨-, hdata, -⟩ := Session.put_kept ⟨h.progress.appends, h.offset_eq⟩ hput
  obtain ⟨r, hrun, rfl, rfl⟩ := Session.put_ok hput
  have hparse : s.transform.parse digest Z piece = .ok (piece.length, r) := by
    rw [Transform.parse, hrun]
    rfl
  have hdecoded : decodedBytes digest Z [⟨s, piece, .ok (⟨s.offset + .ofNat piece.length,
      s.length - .ofNat piece.length, r.state⟩, r.error)⟩] = r.out.flatten := by
    rw [decodedBytes_singleton, Net.decoded, hparse]
  rw [hdecoded]
  rw [← List.length_append] at hfit
  obtain ⟨hprogress, hwaits⟩ := h.progress.parse hsome hx hfit hparse
  refine ⟨⟨hprogress, ?_, ?_⟩, hdata, hwaits⟩
  · change s.offset + .ofNat piece.length = offset + .ofNat r.state.ms.data.length
    rw [h.offset_eq, hdata, List.length_append, UInt64.ofNat_add, UInt64.add_assoc]
  · change s.length - .ofNat piece.length = length - .ofNat r.state.ms.data.length
    rw [h.length_eq, hdata, List.length_append, UInt64.ofNat_add,
      UInt64.sub_eq_add_neg, UInt64.sub_eq_add_neg, UInt64.sub_eq_add_neg, UInt64.neg_add,
      UInt64.sub_eq_add_neg, UInt64.add_assoc]

/-- Reading a payload hands out whole chunks, and leaves a decoder that has
nothing left to do unless a call failed. -/
theorem Delivers.read (hsome : a.chunks ≠ []) (pieces : List Bytes) :
    ∀ {s : Session} {out : Bytes} {calls : List Call} {last : Option (Session × Bool)},
      s.read digest Z pieces = (calls, last) → a.Delivers digest offset length s out →
      a.Begins digest (s.transform.ms.data ++ fedBytes calls) →
      s.transform.ms.data.length + fed calls < 2 ^ 63 →
      out ++ decodedBytes digest Z calls <+: a.contents ∧
      ∀ s' failed, last = some (s', failed) →
        a.Delivers digest offset length s' (out ++ decodedBytes digest Z calls) ∧
        s'.transform.ms.data = s.transform.ms.data ++ fedBytes calls ∧
        (failed = false → (calls = [] → a.Arrived digest s.transform → out = a.contents) →
          a.Arrived digest s'.transform → out ++ decodedBytes digest Z calls = a.contents) := by
  induction pieces with
  | nil =>
      intro s out calls last hread h _ _
      cases hread
      rw [decodedBytes_nil, List.append_nil]
      refine ⟨h.progress.output_prefix, fun s' failed hlast => ?_⟩
      cases hlast
      exact ⟨h, (List.append_nil _).symm, fun _ hwaits => hwaits rfl⟩
  | cons piece pieces ih =>
      intro s out calls last hread h hx hfit
      rw [Session.read] at hread
      cases hput : s.put digest Z piece with
      | error f =>
          rw [hput] at hread
          cases hread
          rw [decodedBytes_fault hput, List.append_nil]
          refine ⟨h.progress.output_prefix, fun s' failed hlast => ?_⟩
          cases hlast
      | ok r =>
          obtain ⟨s₁, e⟩ := r
          rw [hput] at hread
          cases e with
          | some e =>
              cases hread
              rw [fedBytes_singleton] at hx
              rw [fed_cons, fed_nil, Nat.add_zero] at hfit
              obtain ⟨h₁, hdata, -⟩ := h.put hsome hx hfit hput
              refine ⟨h₁.progress.output_prefix, fun s' failed hlast => ?_⟩
              cases hlast
              refine ⟨h₁, hdata.trans (by rw [fedBytes_singleton]), fun hfailed => ?_⟩
              cases hfailed
          | none =>
              obtain ⟨⟨rest, last'⟩, hrest⟩ : ∃ r, s₁.read digest Z pieces = r := ⟨_, rfl⟩
              simp only [hrest, Prod.mk.injEq] at hread
              obtain ⟨rfl, rfl⟩ := hread
              rw [fedBytes_cons, ← List.append_assoc] at hx
              rw [fed_cons] at hfit
              obtain ⟨h₁, hdata, hwaits⟩ := h.put hsome hx.of_append (by omega) hput
              rw [← hdata] at hx
              have hfit' : s₁.transform.ms.data.length + fed rest < 2 ^ 63 := by
                rw [hdata, List.length_append]
                omega
              obtain ⟨hbegins, hlater⟩ := ih hrest h₁ hx hfit'
              rw [decodedBytes_cons, ← List.append_assoc, ← decodedBytes_singleton]
              refine ⟨hbegins, fun s' failed hlast => ?_⟩
              obtain ⟨h', hdata', hwaits'⟩ := hlater s' failed hlast
              refine ⟨h', ?_, fun hfailed _ => hwaits' hfailed fun _ => hwaits rfl⟩
              rw [hdata', hdata, fedBytes_cons, List.append_assoc]

/-- Where nothing is missing, exactly the archive has arrived. -/
theorem Delivers.data_eq (h : a.Delivers digest offset length s out)
    (hplaced : a.Placed digest file offset length)
    (hfit : s.transform.ms.data.length < 2 ^ 63) (hlength : s.length = 0) :
    s.transform.ms.data = a.bytes digest := by
  have hle := hplaced.range_le
  have hfits := hplaced.fits
  have heq : length = .ofNat s.transform.ms.data.length := by
    rw [← UInt64.sub_add_cancel length (.ofNat s.transform.ms.data.length), ← h.length_eq,
      hlength, UInt64.zero_add]
  have hsame : (a.bytes digest).length = s.transform.ms.data.length := by
    rw [hplaced.length_eq, heq]
    exact UInt64.toNat_ofNat_of_lt' (Nat.lt_trans hfit (by decide))
  rcases h.progress.held.cases with ⟨hlt, -⟩ | hwhole
  · omega
  · exact (hwhole.eq_of_length hsame).symm

/-- Where nothing is missing, a request is answered with the whole file. -/
theorem partialContent_ne_nil (hplaced : a.Placed digest file offset length)
    (hlength : s.length = 0) : Session.partialContent file s.range ≠ [] := by
  rw [Session.range, if_neg (not_not.mpr hlength), Session.partialContent]
  intro hnil
  have hle := hplaced.range_le
  have hpos := hplaced.length_pos
  rw [hnil, List.length_nil] at hle
  omega

/-- A turn hands out whole chunks, and all of them if the loop ends with it. -/
theorem Delivers.turn {attempt : Attempt} (h : a.Delivers digest offset length s out)
    (hsome : a.chunks ≠ []) (hplaced : a.Placed digest file offset length)
    (hhonest : (s.turn digest Z attempt).Honest file)
    (hfit : s.transform.ms.data.length + fed (s.turn digest Z attempt).calls < 2 ^ 63) :
    out ++ decodedBytes digest Z (s.turn digest Z attempt).calls <+: a.contents ∧
      (∀ s' ∈ (s.turn digest Z attempt).after,
        a.Delivers digest offset length s'
          (out ++ decodedBytes digest Z (s.turn digest Z attempt).calls) ∧
        s'.transform.ms.data.length =
          s.transform.ms.data.length + fed (s.turn digest Z attempt).calls) ∧
      ((s.turn digest Z attempt).exits = true → 8 ≤ (bodies a.chunks).length →
        out ++ decodedBytes digest Z (s.turn digest Z attempt).calls = a.contents) := by
  have hx := Delivers.begins ((turn_before s attempt).symm ▸ h) hplaced hhonest
  have hwhole := hhonest.whole
  rw [turn_before] at hx hwhole
  cases attempt with
  | unavailable =>
      rw [Session.turn, decodedBytes_nil, List.append_nil]
      refine ⟨h.progress.output_prefix, fun s' hs' => ?_, fun hexits => ?_⟩
      · cases hs'
        exact ⟨h, rfl⟩
      · cases hexits
  | answered pieces completed =>
      obtain ⟨⟨calls, last⟩, hread⟩ : ∃ r, s.read digest Z pieces = r := ⟨_, rfl⟩
      cases last with
      | none =>
          have hturn : s.turn digest Z (.answered pieces completed) = ⟨s, calls, false, none⟩ := by
            rw [Session.turn, hread]
          rw [hturn] at hx hwhole hfit ⊢
          obtain ⟨hbegins, -⟩ := h.read hsome pieces hread hx hfit
          refine ⟨hbegins, fun s' hs' => ?_, fun hexits => ?_⟩
          · cases hs'
          · cases hexits
      | some r =>
          obtain ⟨s', failed⟩ := r
          have hturn : s.turn digest Z (.answered pieces completed) =
              ⟨s, calls, completed && !failed, some s'⟩ := by
            rw [Session.turn, hread]
          rw [hturn] at hx hwhole hfit ⊢
          obtain ⟨hbegins, hlast⟩ := h.read hsome pieces hread hx hfit
          obtain ⟨h', hdata, hwaits⟩ := hlast s' failed rfl
          have hlength : s'.transform.ms.data.length = s.transform.ms.data.length + fed calls := by
            rw [hdata, List.length_append, fedBytes_length]
          refine ⟨hbegins, fun s'' hs'' => ?_, fun hexits hlong => ?_⟩
          · cases hs''
            exact ⟨h', hlength⟩
          · rw [Turn.exits, Option.any_some, Bool.and_eq_true, decide_eq_true_iff] at hexits
            obtain ⟨hsucceeded, hzero⟩ := hexits
            have hdata' := h'.data_eq hplaced (hlength ▸ hfit) hzero
            refine hwaits ?_ ?_ ⟨hdata' ▸ List.prefix_rfl, hlong⟩
            · rw [Bool.and_eq_true, Bool.not_eq_true'] at hsucceeded
              exact hsucceeded.2
            · -- nothing was read, so nothing was missing, and the file would have followed
              rintro rfl
              have hsame : s.length = s'.length := by
                rw [h.length_eq, h'.length_eq, hlength, fed_nil, Nat.add_zero]
              exact absurd (hwhole hsucceeded).symm
                (partialContent_ne_nil hplaced (hsame.trans hzero))

/-- The turns hand out whole chunks, and all of them if one of them ends the loop. -/
theorem Delivers.turns (hsome : a.chunks ≠ []) (hplaced : a.Placed digest file offset length)
    (attempts : List Attempt) :
    ∀ {s : Session} {out : Bytes}, a.Delivers digest offset length s out →
      (∀ turn ∈ s.turns digest Z attempts, turn.Honest file) →
      s.transform.ms.data.length + fed ((s.turns digest Z attempts).flatMap Turn.calls) < 2 ^ 63 →
      out ++ decodedBytes digest Z ((s.turns digest Z attempts).flatMap Turn.calls) <+:
          a.contents ∧
        ((∃ turn ∈ s.turns digest Z attempts, turn.exits = true) →
          8 ≤ (bodies a.chunks).length →
          out ++ decodedBytes digest Z ((s.turns digest Z attempts).flatMap Turn.calls) =
            a.contents) := by
  induction attempts with
  | nil =>
      intro s out h _ _
      rw [Session.turns, List.flatMap_nil, decodedBytes_nil, List.append_nil]
      refine ⟨h.progress.output_prefix, fun hends => ?_⟩
      obtain ⟨turn, hturn, -⟩ := hends
      exact absurd hturn List.not_mem_nil
  | cons attempt attempts ih =>
      intro s out h hhonest hfit
      obtain ⟨rest, hturns, hrest⟩ := turns_cons digest Z s attempt attempts
      rw [hturns] at hhonest hfit ⊢
      rw [List.flatMap_cons, fed_append] at hfit
      obtain ⟨hfirst, hlater⟩ := List.forall_mem_cons.mp hhonest
      obtain ⟨hbegins, hafter, hall⟩ := h.turn hsome hplaced hfirst (by omega)
      rw [List.flatMap_cons, decodedBytes_append, ← List.append_assoc]
      rcases hrest with rfl | ⟨s', hs', hexits, rfl⟩
      · rw [List.flatMap_nil, decodedBytes_nil, List.append_nil]
        refine ⟨hbegins, fun hends => ?_⟩
        obtain ⟨turn, hturn, hexits⟩ := hends
        rw [List.mem_singleton.mp hturn] at hexits
        exact hall hexits
      · obtain ⟨h', hlength⟩ := hafter s' hs'
        obtain ⟨hbegins', hall'⟩ := ih h' hlater (by omega)
        refine ⟨hbegins', fun hends => hall' ?_⟩
        obtain ⟨turn, hturn, hend⟩ := hends
        rcases List.mem_cons.mp hturn with rfl | hturn
        · rw [hexits] at hend
          cases hend
        · exact ⟨turn, hturn, hend⟩

end Run

end Archive

/-! ## One request -/

namespace Net

/-- The archives that the loop over the CDNs of a request is given. -/
def Environment.archives (env : Environment) (params : FileQueryParams) : List (Bytes × Bytes) :=
  match env.ribbit params.product with
  | .answered cdns =>
      if env.headerWritten then (collectAvailableCDNs env cdns params.archiveName).getD [] else []
  | _ => []

section Process

variable (digest : Bytes → Digest) (Z : Inflate)

/-- The turns of the loop over the CDNs of a request. -/
def Environment.turns (env : Environment) (params : FileQueryParams) : List Session.Turn :=
  Session.turns digest Z ⟨params.offset, params.length, .fresh⟩
    (attempts ((env.order (env.archives params)).map env.transfer))

/-- The part of the body that is written. -/
def Effect.written : Effect → Bytes
  | .header _ _ => []
  | .body data => data
  | .queued _ => []

/-- The body that gets to the client. -/
def Processed.body (processed : Processed) : Bytes := processed.effects.flatMap Effect.written

theorem flatMap_written (datas : List Bytes) :
    (datas.map Effect.body).flatMap Effect.written = datas.flatten := by
  rw [List.flatMap_map]
  exact List.flatMap_id

theorem Environment.turns_nil {env : Environment} {params : FileQueryParams}
    (h : env.archives params = []) : env.turns digest Z params = [] := by
  have horder : env.order [] = [] := (env.order_perm []).eq_nil
  rw [Environment.turns, h, horder]
  rfl

/-- The body is what the turns hand out, up to the first write that throws. -/
theorem processRequest_body (env : Environment) {target : Bytes} {params : FileQueryParams}
    (hparams : parseTarget target = .ok params) :
    (processRequest digest Z env target).body <+:
        Session.decodedBytes digest Z ((env.turns digest Z params).flatMap Session.Turn.calls) ∧
      (env.bodyWrites = none → (processRequest digest Z env target).body =
        Session.decodedBytes digest Z
          ((env.turns digest Z params).flatMap Session.Turn.calls)) := by
  have hnone : ∀ {p : Processed}, p.body = [] → env.archives params = [] →
      p.body <+: Session.decodedBytes digest Z
          ((env.turns digest Z params).flatMap Session.Turn.calls) ∧
        (env.bodyWrites = none → p.body = Session.decodedBytes digest Z
          ((env.turns digest Z params).flatMap Session.Turn.calls)) := by
    intro p hp h
    rw [hp, Environment.turns_nil digest Z h]
    exact ⟨List.nil_prefix, fun _ => rfl⟩
  rw [processRequest, hparams]
  dsimp only
  cases hribbit : env.ribbit params.product with
  | threw => exact hnone rfl (by rw [Environment.archives, hribbit])
  | failed => exact hnone rfl (by rw [Environment.archives, hribbit])
  | answered cdns =>
      cases hheader : env.headerWritten with
      | false =>
          exact hnone rfl (by rw [Environment.archives, hribbit, hheader]; rfl)
      | true =>
          dsimp only
          rw [if_pos rfl]
          cases hcollect : collectAvailableCDNs env cdns params.archiveName with
          | none =>
              exact hnone rfl (by rw [Environment.archives, hribbit, hheader]; simp [hcollect])
          | some archives =>
              have harchives : env.archives params = archives := by
                rw [Environment.archives, hribbit, hheader]
                simp [hcollect]
              cases archives with
              | nil => exact hnone rfl harchives
              | cons archive archives =>
                  rw [Processed.body, List.flatMap_cons, Effect.written, List.nil_append,
                    Environment.turns, Session.turns_calls, harchives, stream]
                  cases hwrites : env.bodyWrites with
                  | none =>
                      dsimp only
                      rw [flatMap_written]
                      exact ⟨List.prefix_rfl, fun _ => rfl⟩
                  | some n =>
                      dsimp only
                      rw [flatMap_written]
                      refine ⟨(List.take_prefix n _).flatten, fun h => ?_⟩
                      cases h

/-- A client that asks for an archive gets the beginning of its contents, through
any cuts, failures and changes of the CDN, and all of them when the loop ends
with the exit for `Length == 0`. -/
theorem processRequest_delivers (env : Environment) {target : Bytes} {params : FileQueryParams}
    {a : Archive Z} {file : Bytes} (hparams : parseTarget target = .ok params)
    (hsome : a.chunks ≠ []) (hplaced : a.Placed digest file params.offset params.length)
    (hhonest : ∀ turn ∈ env.turns digest Z params, turn.Honest file)
    (hfit : Session.fed ((env.turns digest Z params).flatMap Session.Turn.calls) < 2 ^ 63) :
    (processRequest digest Z env target).body <+: a.contents ∧
      (env.bodyWrites = none → (∃ turn ∈ env.turns digest Z params, turn.exits = true) →
        8 ≤ (Archive.bodies a.chunks).length →
        (processRequest digest Z env target).body = a.contents) := by
  obtain ⟨hbegins, hbody⟩ := processRequest_body digest Z env hparams
  have hfed : Transform.fresh.ms.data.length +
      Session.fed ((env.turns digest Z params).flatMap Session.Turn.calls) < 2 ^ 63 := by
    rw [show Transform.fresh.ms.data.length = 0 from rfl, Nat.zero_add]
    exact hfit
  obtain ⟨hsound, hall⟩ := Archive.Delivers.turns hsome hplaced _
    (Archive.delivers_fresh params.offset params.length) hhonest hfed
  refine ⟨hbegins.trans hsound, fun hwrites hexits hlong => ?_⟩
  rw [hbody hwrites]
  exact hall hexits hlong

end Process

/-- An archive of one block of 20 bytes. -/
def relayedArchive : Archive Inflate.copying where
  chunks := [.plain (ascii "## Title: Glue addon")]
  count_lt := by decide
  size_lt := by
    intro chunk hchunk
    cases List.mem_singleton.mp hchunk
    decide

/-- The file that has it. -/
def relayedFile : Bytes :=
  [1, 2, 3] ++ (relayedArchive.bytes Digest.leading ++ [4, 5])

/-- Two hosts have the file.  The first one is cut off in the chunk table. -/
def Environment.relayed : Environment where
  ribbit := fun _ => .answered
    [⟨ascii "us", ascii "tpr/wow", [ascii "a.net", ascii "b.net"], [], ascii "c"⟩]
  headerWritten := true
  probe := fun _ => .asked (some 206) none
  order := id
  transfer := fun archive => .attempt <|
    if archive.1 = ascii "a.net" then
      .answered [(relayedFile.drop 3).take 10, (relayedFile.drop 13).take 20] false
    else .answered [(relayedFile.drop 33).take 27] true
  bodyWrites := none
  order_perm := Environment.unreachable.order_perm

theorem relayed_placed : relayedArchive.Placed Digest.leading relayedFile 3 57 where
  split := ⟨[1, 2, 3], [4, 5], rfl, rfl⟩
  length_eq := by decide
  fits := by decide

/-- The second host resumes in the chunk table, and the body is complete. -/
theorem processRequest_delivers_sample :
    (processRequest Digest.leading Inflate.copying Environment.relayed
      (ascii "/wow/0a1b2c/3/57/20/Glue.toc")).body = ascii "## Title: Glue addon" :=
  (processRequest_delivers Digest.leading Inflate.copying Environment.relayed
    (by decide : parseTarget (ascii "/wow/0a1b2c/3/57/20/Glue.toc") =
      .ok ⟨ascii "wow", ascii "0a1b2c", 3, 57, 20, ascii "Glue.toc"⟩)
    (List.cons_ne_nil _ _) relayed_placed (by decide) (by decide)).2 rfl
    (by decide) (by decide)

end Net

end Tactmon
