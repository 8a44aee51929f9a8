import Tactmon.Lib.Swaps
import Tactmon.Io.MemoryStream

/-!
# Writing integers and reading them back

`IWritableStream::Write` of `io/IWritableStream.hpp`, for an integer and for a
span of integers.  `_WriteSpan` copies the bytes in the order of the platform
and then swaps them where they are.  For a span `Write` gives it `sizeof(T)` as
the element size, and there `T` is the span, so a big-endian span is swapped in
groups of sixteen bytes whatever its integers are.

What a write leaves in the buffer depends on its value alone
(`WriteCall.put_eq`), and `WriteCall.Palindromic` says when it is the encoding of the
value.  Reading is right by itself, so a script of writes reads back exactly
when that holds of each of them.
-/

namespace Tactmon

open Binary Cxx

/-! ## The writer -/

/-- `sizeof` of a span whose length is not part of its type. -/
def spanSize : Nat := 16

/-- `_WriteSpan`: the bytes are copied first and swapped in the vector. -/
def GrowableMemoryStream.writeSpan (s : GrowableMemoryStream) (bytes : Bytes)
    (endianness : Endian) (elementSize : Nat) : Exec (Nat × GrowableMemoryStream) :=
  let grown := s.writeImpl bytes
  if endianness = .native then .ok (bytes.length, grown)
  else do
    let writtenBytes ← swapElements elementSize bytes.length
      (window grown.data s.writeCursor bytes.length)
    .ok (bytes.length, { grown with
      data := grown.data.take s.writeCursor ++ writtenBytes ++
        grown.data.drop (s.writeCursor + bytes.length) })

/-- In the order of the platform nothing is swapped. -/
theorem GrowableMemoryStream.writeSpan_native (s : GrowableMemoryStream) (bytes : Bytes)
    (elementSize : Nat) : s.writeSpan bytes .native elementSize = .ok (s.write bytes) := rfl

/-! ## Calls -/

/-- The size of an integer type, which divides the size of a span. -/
structure IntSize where
  bytes : Nat
  dvd : bytes ∣ spanSize

/-- How many integers take the room of a span. -/
def IntSize.perSpan (size : IntSize) : Nat := spanSize / size.bytes

theorem IntSize.pos (size : IntSize) : 0 < size.bytes :=
  Nat.pos_of_dvd_of_pos size.dvd (by decide)

/-- The argument of `Write` or `Read`: an integer, or a span of so many. -/
inductive Shape where
  | int
  | span (count : Nat)

def Shape.count : Shape → Nat
  | .int => 1
  | .span count => count

/-- The types of one call, and its byte order. -/
structure CallKind where
  size : IntSize
  shape : Shape
  endianness : Endian

/-- The element size `Write` passes on. -/
def CallKind.writtenSize (k : CallKind) : Nat :=
  match k.shape with
  | .int => k.size.bytes
  | .span _ => spanSize

/-- `Read`, into zeros. -/
def CallKind.read (k : CallKind) (s : GrowableMemoryStream) :
    Exec (List Nat × GrowableMemoryStream) := do
  let (_, dst, s) ← readSpan s (List.replicate (k.shape.count * k.size.bytes) 0) k.endianness
    k.size.bytes
  .ok ((List.range k.shape.count).map fun i => leNat (window dst (i * k.size.bytes) k.size.bytes),
    s)

/-- One call of `Write`. -/
structure WriteCall where
  kind : CallKind
  values : List (Fin (256 ^ kind.size.bytes))
  length_eq : values.length = kind.shape.count

namespace WriteCall

/-- The elements as they are in memory. -/
def rows (x : WriteCall) : List Bytes := x.values.map fun v => leBytes x.kind.size.bytes v.val

/-- `Write`. -/
def put (x : WriteCall) (s : GrowableMemoryStream) : Exec (Nat × GrowableMemoryStream) :=
  s.writeSpan x.rows.flatten x.kind.endianness x.kind.writtenSize

/-- The number of bytes of the value. -/
def byteCount (x : WriteCall) : Nat := x.kind.shape.count * x.kind.size.bytes

/-- The bytes of the value in the order asked for. -/
def encoding (x : WriteCall) : Bytes :=
  match x.kind.endianness with
  | .little => x.rows.flatten
  | .big => (x.rows.map List.reverse).flatten

/-- A big-endian span is swapped as it should be when it divides into groups of
the size of a span, each the same from both sides. -/
def Palindromic (x : WriteCall) : Prop :=
  match x.kind.shape, x.kind.endianness with
  | .span _, .big =>
      x.kind.size.perSpan ∣ x.values.length ∧
        ∀ i < x.values.length / x.kind.size.perSpan,
          ((x.values.drop (i * x.kind.size.perSpan)).take x.kind.size.perSpan).reverse =
            (x.values.drop (i * x.kind.size.perSpan)).take x.kind.size.perSpan
  | _, _ => True

end WriteCall

/-! ## Scripts -/

/-- The writes to one stream, whose bytes fit one allocation. -/
structure Script where
  calls : List WriteCall
  fits : (calls.map WriteCall.byteCount).sum < 2 ^ 63

/-- One write after the other, with what each returns. -/
def writeAll : List WriteCall → GrowableMemoryStream → Exec (List Nat × GrowableMemoryStream)
  | [], s => .ok ([], s)
  | x :: xs, s => do
      let (count, s) ← x.put s
      let (counts, s) ← writeAll xs s
      .ok (count :: counts, s)

/-- One read after the other, with what each returns. -/
def readAll : List CallKind → GrowableMemoryStream → Exec (List (List Nat) × GrowableMemoryStream)
  | [], s => .ok ([], s)
  | k :: ks, s => do
      let (values, s) ← k.read s
      let (rest, s) ← readAll ks s
      .ok (values :: rest, s)

/-- The writes return the sizes of the values, leave their encodings in the
buffer, and the reads give the values back. -/
def Script.RoundTrips (w : Script) : Prop :=
  ∃ s, writeAll w.calls .empty = .ok (w.calls.map WriteCall.byteCount, s) ∧
    s.data = (w.calls.map WriteCall.encoding).flatten ∧
    ∃ s', readAll (w.calls.map WriteCall.kind) s =
      .ok (w.calls.map fun x => x.values.map Fin.val, s')

/-! ## What one write leaves -/

theorem IntSize.perSpan_mul (size : IntSize) : size.perSpan * size.bytes = spanSize :=
  Nat.div_mul_cancel size.dvd

theorem swapElements_length {elementSize count : Nat} {dst out : Bytes}
    (h : swapElements elementSize count dst = .ok out) : out.length = dst.length := by
  rw [swapElements] at h
  split at h
  · cases h
    exact groupsReverse_length _ _ _
  · cases h

namespace WriteCall

variable {x : WriteCall}

theorem rows_width : ∀ r ∈ x.rows, r.length = x.kind.size.bytes := by
  rw [rows, List.forall_mem_map]
  exact fun v _ => leBytes_length _ _

theorem rows_length : x.rows.length = x.kind.shape.count := by
  rw [rows, List.length_map, x.length_eq]

theorem rows_flatten_length : x.rows.flatten.length = x.byteCount := by
  rw [length_flatten_of_width rows_width, rows_length, byteCount]

theorem encoding_length : x.encoding.length = x.byteCount := by
  rw [encoding]
  split
  · exact rows_flatten_length
  · rw [length_flatten_of_width (reverse_width rows_width), List.length_map, rows_length, byteCount]

/-- What `Write` leaves at the write cursor. -/
def stored (x : WriteCall) : Exec Bytes :=
  match x.kind.endianness with
  | .little => .ok x.rows.flatten
  | .big => swapElements x.kind.writtenSize x.rows.flatten.length x.rows.flatten

theorem stored_length {bytes : Bytes} (h : x.stored = .ok bytes) : bytes.length = x.byteCount := by
  rw [stored] at h
  split at h
  · cases h
    exact rows_flatten_length
  · rw [swapElements_length h, rows_flatten_length]

/-- At the end of the stream a write appends what it leaves. -/
theorem put_eq {s : GrowableMemoryStream} (hs : s.writeCursor = s.data.length) :
    x.put s = x.stored.map fun bytes => (x.byteCount, s.grow bytes) := by
  have hgrown := GrowableMemoryStream.writeImpl_append hs x.rows.flatten
  rw [put, GrowableMemoryStream.writeSpan, stored, hgrown, rows_flatten_length]
  cases hend : x.kind.endianness with
  | little =>
      have hnative : Endian.little = .native := rfl
      rw [if_pos hnative, Except.map, GrowableMemoryStream.grow_eq hs, rows_flatten_length]
  | big =>
      have hwin : window (s.data ++ x.rows.flatten) s.writeCursor x.byteCount = x.rows.flatten := by
        rw [hs, window, List.drop_left, ← rows_flatten_length, List.take_length]
      rw [if_neg (by decide), hwin]
      cases hswap : swapElements x.kind.writtenSize x.byteCount x.rows.flatten with
      | error f => rfl
      | ok bytes =>
          have hlen : bytes.length = x.byteCount := by
            rw [swapElements_length hswap, rows_flatten_length]
          rw [Exec.ok_bind, Except.map, GrowableMemoryStream.grow_eq hs, hs, List.take_left' rfl,
            List.drop_eq_nil_of_le (by rw [List.length_append, rows_flatten_length]), hlen,
            List.append_nil]

/-! ## When it is the encoding -/

/-- Elements of one width are the same from both sides as the values are. -/
theorem rows_group_reverse (i g : Nat) :
    ((x.rows.drop i).take g).reverse = (x.rows.drop i).take g ↔
      ((x.values.drop i).take g).reverse = (x.values.drop i).take g := by
  have hinj : ∀ u v : Fin (256 ^ x.kind.size.bytes),
      leBytes x.kind.size.bytes u.val = leBytes x.kind.size.bytes v.val → u = v := by
    intro u v h
    have := congrArg leNat h
    rw [leNat_leBytes_of_lt u.isLt, leNat_leBytes_of_lt v.isLt] at this
    exact Fin.ext this
  rw [rows, ← List.map_drop, ← List.map_take, ← List.map_reverse, List.map_inj_right hinj]

theorem stored_eq_encoding_iff : x.stored = .ok x.encoding ↔ x.Palindromic := by
  rw [stored, encoding, Palindromic]
  cases hend : x.kind.endianness with
  | little =>
      refine iff_of_true rfl ?_
      cases x.kind.shape with
      | int => trivial
      | span n => trivial
  | big =>
      rw [CallKind.writtenSize]
      cases hshape : x.kind.shape with
      | int =>
          have hone : x.rows.length = 1 := by rw [rows_length, hshape, Shape.count]
          have hlen : x.rows.flatten.length = x.kind.size.bytes := by
            rw [length_flatten_of_width rows_width, hone, Nat.one_mul]
          have hswap : groupsReverse x.kind.size.bytes x.rows.length (x.rows.flatten ++ []) = _ :=
            groupsReverse_flatten [] rows_width
          rw [hone, List.append_nil, List.append_nil] at hswap
          refine iff_of_true ?_ trivial
          show swapElements x.kind.size.bytes _ _ = _
          rw [swapElements, hlen, if_pos (Nat.mod_self _), Nat.div_self x.kind.size.pos, hswap]
      | span n =>
          have hlen : x.rows.flatten.length = x.values.length * x.kind.size.bytes := by
            rw [length_flatten_of_width rows_width, rows_length, x.length_eq]
          have hdvd : x.rows.flatten.length % spanSize = 0 ↔
              x.kind.size.perSpan ∣ x.values.length := by
            rw [hlen, ← x.kind.size.perSpan_mul, ← Nat.dvd_iff_mod_eq_zero,
              Nat.mul_dvd_mul_iff_right x.kind.size.pos]
          show swapElements spanSize _ _ = _ ↔ x.kind.size.perSpan ∣ x.values.length ∧ _
          rw [swapElements, ← hdvd]
          by_cases hmod : x.rows.flatten.length % spanSize = 0
          · have hcount : x.rows.flatten.length / spanSize =
                x.values.length / x.kind.size.perSpan := by
              rw [hlen, ← x.kind.size.perSpan_mul, Nat.mul_div_mul_right _ _ x.kind.size.pos]
            have hgroups : x.rows.length =
                x.values.length / x.kind.size.perSpan * x.kind.size.perSpan := by
              rw [Nat.div_mul_cancel (hdvd.mp hmod), rows_length, x.length_eq]
            rw [if_pos hmod, and_iff_right hmod, Except.ok.injEq, hcount,
              ← x.kind.size.perSpan_mul, groupsReverse_mul_eq_iff rows_width hgroups]
            exact forall₂_congr fun i _ => rows_group_reverse _ _
          · rw [if_neg hmod]
            exact iff_of_false (fun h => by cases h) fun h => hmod h.1

end WriteCall

/-! ## Runs of writes -/

open CursorReadable LawfulReadable

theorem GrowableMemoryStream.grow_nil {s : GrowableMemoryStream}
    (hs : s.writeCursor = s.data.length) : s.grow [] = s := by
  rw [grow_eq hs, List.append_nil, List.length_nil, Nat.add_zero, ← hs]

theorem GrowableMemoryStream.grow_append {s : GrowableMemoryStream}
    (hs : s.writeCursor = s.data.length) (x y : Bytes) :
    (s.grow x).grow y = s.grow (x ++ y) := by
  rw [grow_eq hs, grow_eq (by simp), grow_eq hs]
  simp [Nat.add_assoc]

theorem GrowableMemoryStream.grow_ends {s : GrowableMemoryStream}
    (hs : s.writeCursor = s.data.length) (x : Bytes) :
    (s.grow x).writeCursor = (s.grow x).data.length := by
  rw [grow_eq hs, List.length_append]

/-- Whatever is written, it is appended. -/
theorem writeAll_grow {xs : List WriteCall} :
    ∀ {s s' : GrowableMemoryStream} {counts : List Nat}, s.writeCursor = s.data.length →
      writeAll xs s = .ok (counts, s') → ∃ t, s' = s.grow t := by
  induction xs with
  | nil =>
      intro s s' counts hs h
      cases h
      exact ⟨[], (GrowableMemoryStream.grow_nil hs).symm⟩
  | cons x xs ih =>
      intro s s' counts hs h
      obtain ⟨⟨n, s₁⟩, hx, h⟩ := Exec.bind_eq_ok.mp h
      obtain ⟨⟨ns, s₂⟩, hxs, h⟩ := Exec.bind_eq_ok.mp h
      cases h
      rw [WriteCall.put_eq hs] at hx
      obtain ⟨bytes, -, hput⟩ := Exec.map_eq_ok.mp hx
      cases hput
      obtain ⟨t, rfl⟩ := ih (GrowableMemoryStream.grow_ends hs bytes) hxs
      exact ⟨bytes ++ t, GrowableMemoryStream.grow_append hs bytes t⟩

theorem writeAll_of_palindromic {xs : List WriteCall} (hxs : ∀ x ∈ xs, x.Palindromic) :
    ∀ {s : GrowableMemoryStream}, s.writeCursor = s.data.length →
      writeAll xs s =
        .ok (xs.map WriteCall.byteCount, s.grow (xs.map WriteCall.encoding).flatten) := by
  induction xs with
  | nil =>
      intro s hs
      rw [writeAll, List.map_nil, List.map_nil, List.flatten_nil, GrowableMemoryStream.grow_nil hs]
  | cons x xs ih =>
      intro s hs
      rw [List.forall_mem_cons] at hxs
      have hput : x.put s = .ok (x.byteCount, s.grow x.encoding) := by
        rw [WriteCall.put_eq hs, WriteCall.stored_eq_encoding_iff.mpr hxs.1]
        rfl
      have hrest := ih hxs.2 (GrowableMemoryStream.grow_ends hs x.encoding)
      rw [GrowableMemoryStream.grow_append hs] at hrest
      simp only [writeAll, hput, Exec.ok_bind, hrest, List.map_cons, List.flatten_cons]

/-- A run of writes leaves the encodings only if each of its writes does. -/
theorem palindromic_of_writeAll {xs : List WriteCall} :
    ∀ {s s' : GrowableMemoryStream} {counts : List Nat}, s.writeCursor = s.data.length →
      writeAll xs s = .ok (counts, s') → s'.data = s.data ++ (xs.map WriteCall.encoding).flatten →
      ∀ x ∈ xs, x.Palindromic := by
  induction xs with
  | nil => exact fun _ _ _ _ h => absurd h List.not_mem_nil
  | cons x xs ih =>
      intro s s' counts hs h hdata
      obtain ⟨⟨n, s₁⟩, hx, h⟩ := Exec.bind_eq_ok.mp h
      obtain ⟨⟨ns, s₂⟩, hxs, h⟩ := Exec.bind_eq_ok.mp h
      cases h
      rw [WriteCall.put_eq hs] at hx
      obtain ⟨bytes, hstored, hput⟩ := Exec.map_eq_ok.mp hx
      cases hput
      have hs₁ := GrowableMemoryStream.grow_ends hs bytes
      obtain ⟨t, rfl⟩ := writeAll_grow hs₁ hxs
      rw [GrowableMemoryStream.grow_append hs, GrowableMemoryStream.grow_eq hs,
        List.map_cons, List.flatten_cons] at hdata
      -- both sides start with as many bytes as the first value has
      obtain ⟨rfl, rfl⟩ := List.append_inj (List.append_cancel_left hdata)
        (by rw [WriteCall.stored_length hstored, WriteCall.encoding_length])
      rw [List.forall_mem_cons]
      refine ⟨WriteCall.stored_eq_encoding_iff.mp hstored, ih hs₁ hxs ?_⟩
      rw [GrowableMemoryStream.grow_append hs, GrowableMemoryStream.grow_eq hs,
        GrowableMemoryStream.grow_eq hs, List.append_assoc]

/-! ## Runs of reads -/

/-- The integers of an array in memory. -/
theorem WriteCall.range_leNat (x : WriteCall) :
    (List.range x.kind.shape.count).map (fun i =>
      leNat (window x.rows.flatten (i * x.kind.size.bytes) x.kind.size.bytes)) =
      x.values.map Fin.val := by
  refine List.ext_getElem (by simp [x.length_eq]) fun i hi hi' => ?_
  rw [List.length_map, List.length_range, ← WriteCall.rows_length] at hi
  rw [List.getElem_map, List.getElem_range, window_flatten_of_width WriteCall.rows_width hi,
    List.getElem_map]
  simp only [WriteCall.rows, List.getElem_map]
  exact leNat_leBytes_of_lt (Fin.isLt _)

/-- Reading is right whatever the shape and the order. -/
theorem WriteCall.read_append {s : GrowableMemoryStream} {b rest : Bytes} (x : WriteCall)
    (h : Unread s b (x.encoding ++ rest)) :
    ∃ s', x.kind.read s = .ok (x.values.map Fin.val, s') ∧ Unread s' b rest := by
  obtain ⟨c, hs, hlen, hdrop⟩ := h
  obtain ⟨hwin, hrest, hlen'⟩ := Unread.drop_append hlen hdrop
  have hcount : (List.replicate (x.kind.shape.count * x.kind.size.bytes) (0 : UInt8)).length =
      x.encoding.length := by
    rw [List.length_replicate, WriteCall.encoding_length, WriteCall.byteCount]
  obtain ⟨s', hr, hs'⟩ := readImpl_full hs (by rw [hcount]; omega)
  rw [hcount, hwin] at hr
  rw [hcount] at hs'
  refine ⟨s', ?_, c + x.encoding.length, hs', hlen', hrest⟩
  have hread : readSpan s (List.replicate (x.kind.shape.count * x.kind.size.bytes) 0)
      x.kind.endianness x.kind.size.bytes = .ok (x.encoding.length, x.rows.flatten, s') := by
    rw [readSpan, hr, Exec.ok_bind]
    cases hend : x.kind.endianness with
    | little =>
        have hlittle : x.encoding = x.rows.flatten := by rw [WriteCall.encoding, hend]
        simp [Endian.native, hlittle]
    | big =>
        have hbig : x.encoding = (x.rows.map List.reverse).flatten := by
          rw [WriteCall.encoding, hend]
        have hswap := groupsReverse_flatten [] (reverse_width (WriteCall.rows_width (x := x)))
        rw [List.append_nil, List.append_nil, List.length_map, List.map_map, ← hbig,
          WriteCall.rows_length, show List.reverse ∘ List.reverse = (id : Bytes → Bytes) by
            funext r; simp, List.map_id] at hswap
        have hloop : swapElements x.kind.size.bytes x.encoding.length x.encoding =
            .ok x.rows.flatten := by
          rw [swapElements, WriteCall.encoding_length, WriteCall.byteCount, Nat.mul_mod_left,
            if_pos rfl, Nat.mul_div_cancel _ x.kind.size.pos, hswap]
        simp [Endian.native, hloop]
  simp only [CallKind.read, hread, Exec.ok_bind, x.range_leNat]

theorem readAll_append {xs : List WriteCall} {b rest : Bytes} :
    ∀ {s : GrowableMemoryStream}, Unread s b ((xs.map WriteCall.encoding).flatten ++ rest) →
      ∃ s', readAll (xs.map WriteCall.kind) s = .ok (xs.map fun x => x.values.map Fin.val, s') ∧
        Unread s' b rest := by
  induction xs with
  | nil => exact fun h => ⟨_, rfl, h⟩
  | cons x xs ih =>
      intro s h
      rw [List.map_cons, List.flatten_cons, List.append_assoc] at h
      obtain ⟨s₁, hx, h₁⟩ := x.read_append h
      obtain ⟨s', hxs, h'⟩ := ih h₁
      refine ⟨s', ?_, h'⟩
      simp only [List.map_cons, readAll, hx, hxs, Exec.ok_bind]

/-! ## Scripts -/

theorem Script.encoding_length (w : Script) :
    (w.calls.map WriteCall.encoding).flatten.length = (w.calls.map WriteCall.byteCount).sum := by
  rw [List.length_flatten, List.map_map]
  exact congrArg List.sum (List.map_congr_left fun x _ => WriteCall.encoding_length)

/-- A script reads back what it wrote exactly when every big-endian span among
its writes is the same from both sides in groups of the size of a span. -/
theorem Script.roundTrips_iff (w : Script) :
    w.RoundTrips ↔ ∀ x ∈ w.calls, x.Palindromic := by
  constructor
  · rintro ⟨s, hw, hdata, -⟩
    exact palindromic_of_writeAll rfl hw hdata
  · intro h
    have hempty : GrowableMemoryStream.empty.writeCursor =
        GrowableMemoryStream.empty.data.length := rfl
    have hgrow : GrowableMemoryStream.empty.grow (w.calls.map WriteCall.encoding).flatten = _ :=
      GrowableMemoryStream.grow_eq hempty
    have hw := writeAll_of_palindromic h hempty
    rw [hgrow] at hw
    refine ⟨_, hw, List.nil_append _, ?_⟩
    have hfit : ((w.calls.map WriteCall.encoding).flatten).length < 2 ^ 63 := by
      rw [w.encoding_length]
      exact w.fits
    have hunread : Unread (GrowableMemoryStream.mk (w.calls.map WriteCall.encoding).flatten 0
        (w.calls.map WriteCall.encoding).flatten.length) (w.calls.map WriteCall.encoding).flatten
        ((w.calls.map WriteCall.encoding).flatten ++ []) := by
      rw [List.append_nil]
      exact Unread.of_rep ⟨rfl, rfl, hfit⟩
    obtain ⟨s', hr, -⟩ := readAll_append hunread
    refine ⟨s', ?_⟩
    rw [← hr]
    simp [GrowableMemoryStream.empty]

/-- A span of one 32-bit integer, big-endian. -/
def Script.oneSpan : Script where
  calls := [⟨⟨⟨4, by decide⟩, .span 1, .big⟩, [⟨1, by simp⟩], rfl⟩]
  fits := by simp [WriteCall.byteCount, Shape.count]

/-- The swap loop of the writer steps over the end of the four bytes. -/
theorem Script.oneSpan_overruns : ¬ Script.oneSpan.RoundTrips := by
  rintro ⟨s, hw, -⟩
  have herror : writeAll Script.oneSpan.calls .empty = .error .outOfBounds := rfl
  rw [herror] at hw
  cases hw

end Tactmon
