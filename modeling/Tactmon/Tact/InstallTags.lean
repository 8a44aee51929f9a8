import Tactmon.Io.CursorBounds
import Tactmon.Io.Truncation
import Tactmon.Tact.Install

/-!
# Tags that are copied and moved

`Install::Tag` owns its mask through a pointer.  The constructor from a stream
allocates a byte for eight files and keeps the number of files as
`_bitmaskSize`.  Both copies take that number for one of bytes: they allocate as
many, and copy as many from a buffer that has an eighth of them.  The moves take
the pointer and leave a tag of no files without a buffer.

A run is any sequence of these operations on a list of live tags.  Of a tag the
list also has what the stream gave for it (`mask`), which goes with copies and
moves and is not left behind by a move.  `run_kept_iff` says when every live tag
has what its `mask` says.
-/

namespace Tactmon

open Binary Cxx CursorReadable Conformance

/-- A read leaves a destination as long as it was. -/
theorem StreamKind.readImpl_length {k : StreamKind} {s s' : k.State} {dst out : Bytes} {n : Nat}
    (h : IReadableStream.readImpl s dst = .ok (n, out, s')) : out.length = dst.length := by
  have hload : ∀ {source : Span} {m : Nat} {bytes : Bytes}, m ≤ dst.length →
      source.load m = .ok bytes → (bytes ++ dst.drop m).length = dst.length := by
    intro source m bytes hm hbytes
    rw [Span.load] at hbytes
    split at hbytes
    · cases hbytes
      rw [List.length_append, List.length_take, List.length_drop]
      omega
    · cases hbytes
  cases k with
  | span =>
      obtain ⟨view, -, h⟩ := Exec.bind_eq_ok.mp h
      obtain ⟨source, -, h⟩ := Exec.bind_eq_ok.mp h
      obtain ⟨bytes, hbytes, h⟩ := Exec.bind_eq_ok.mp h
      cases h
      exact hload (Nat.min_le_left _ _) hbytes
  | memory =>
      cases h
      rfl
  | growable =>
      obtain ⟨source, -, h⟩ := Exec.bind_eq_ok.mp h
      obtain ⟨bytes, hbytes, h⟩ := Exec.bind_eq_ok.mp h
      cases h
      exact hload (Nat.min_le_left _ _) hbytes
  | file =>
      change FileStream.readImpl s dst = _ at h
      simp only [FileStream.readImpl] at h
      split at h
      · cases h
        rw [List.length_append, window_length_eq, List.length_drop]
        rename_i hle
        rw [List.length_drop] at hle
        omega
      · cases h

namespace Install

/-! ## A tag and its buffer -/

/-- `Install::Tag`, with the buffer its pointer owns. -/
structure TagObject where
  name : Bytes
  type : UInt8
  bitmaskSize : Nat
  bitmask : Option Bytes
deriving DecidableEq, Repr

/-- A tag that owns its mask. -/
def Tag.object (tag : Tag) : TagObject := ⟨tag.name, tag.type, tag.bitmaskSize, some tag.bitmask⟩

namespace TagObject

/-- The size of a mask in bytes.  The sum wraps. -/
def maskSize (bitmaskSize : Nat) : Nat := sizeWrap (bitmaskSize + 7) / 8

/-- The constructor from a stream. -/
def read {σ : Type} [IReadableStream σ] (stream : σ) (bitmaskSize : Nat) (name : Bytes) :
    Exec (TagObject × σ) := do
  let (type, stream) ← readInt 2 stream .big
  let (_, bitmask, stream) ←
    readSpan stream (List.replicate (maskSize bitmaskSize) 0) .little 1
  .ok (⟨name, .ofNat type, bitmaskSize, some bitmask⟩, stream)

/-- `std::copy_n` from the buffer of another tag.  Nothing is read from a null
pointer. -/
def copyMask (bitmask : Option Bytes) (count : Nat) : Exec Bytes :=
  let source := bitmask.getD []
  if count ≤ source.length then .ok (source.take count) else .error .outOfBounds

/-- The copy constructor.  Where no array is that large `make_unique` throws, and
there is no copy. -/
def copyConstruct (other : TagObject) : Exec (Option TagObject) :=
  if 2 ^ 63 ≤ other.bitmaskSize then .ok none
  else do
    let bitmask ← copyMask other.bitmask other.bitmaskSize
    .ok (some ⟨other.name, other.type, other.bitmaskSize, some bitmask⟩)

/-- The copy assignment, and whether it comes to its end.  When `make_unique`
throws the other members have been assigned. -/
def copyAssign (self other : TagObject) : Exec (Bool × TagObject) :=
  let self := ⟨other.name, other.type, other.bitmaskSize, self.bitmask⟩
  if 2 ^ 63 ≤ other.bitmaskSize then .ok (false, self)
  else do
    let bitmask ← copyMask other.bitmask other.bitmaskSize
    .ok (true, { self with bitmask := some bitmask })

/-- The move constructor, and what it leaves of the other tag. -/
def moveConstruct (other : TagObject) : TagObject × TagObject :=
  (⟨other.name, other.type, other.bitmaskSize, other.bitmask⟩,
    { other with bitmaskSize := 0, bitmask := none })

/-- The move assignment, which moves the name as well. -/
def moveAssign (other : TagObject) : TagObject × TagObject :=
  (⟨other.name, other.type, other.bitmaskSize, other.bitmask⟩,
    { other with name := [], bitmaskSize := 0, bitmask := none })

end TagObject

/-! ## Runs -/

/-- What a stream gave for a tag. -/
structure ReadMask where
  files : Nat
  bytes : Bytes
deriving DecidableEq, Repr

/-- A tag, and the mask it has been given and not been moved from. -/
structure LiveTag where
  tag : TagObject
  /-- The code does not keep it. -/
  mask : Option ReadMask
deriving DecidableEq, Repr

/-- A tag that the constructor has read from one of the streams. -/
structure ReadTag where
  kind : StreamKind
  stream : kind.State
  files : UInt64
  name : Bytes
  tag : TagObject
  rest : kind.State
  made : TagObject.read stream files.toNat name = .ok (tag, rest)

/-- What a stream gives for the files of a tag, a byte for eight, behind the type
of the tag. -/
def givenBytes {σ : Type} [IReadableStream σ] (stream : σ) (files : Nat) : Exec Bytes := do
  let (_, stream) ← readInt 2 stream .big
  let (_, bytes, _) ← readSpan stream (List.replicate ((files + 7) / 8) 0) .little 1
  .ok bytes

/-- What was given for a tag. -/
def ReadTag.given (source : ReadTag) : Bytes :=
  match givenBytes source.stream source.files.toNat with
  | .ok bytes => bytes
  | .error _ => []

/-- The tag with what was given for it. -/
def ReadTag.live (source : ReadTag) : LiveTag :=
  ⟨source.tag, some ⟨source.files.toNat, source.given⟩⟩

/-- An operation on the live tags. -/
inductive TagOp where
  | read (source : ReadTag)
  | copyConstruct (src : Nat)
  | moveConstruct (src : Nat)
  | copyAssign (dst src : Nat) (distinct : dst ≠ src)
  | moveAssign (dst src : Nat) (distinct : dst ≠ src)
  | destroy (i : Nat)

/-- The live tags after one operation.  There are none on a tag that is not
there. -/
def TagOp.step (tags : List LiveTag) : TagOp → Exec (List LiveTag)
  | .read source => .ok (tags ++ [source.live])
  | .copyConstruct src =>
      match tags[src]? with
      | none => .ok tags
      | some other => do
          let made ← other.tag.copyConstruct
          match made with
          | none => .ok tags
          | some tag => .ok (tags ++ [⟨tag, other.mask⟩])
  | .moveConstruct src =>
      match tags[src]? with
      | none => .ok tags
      | some other =>
          let (tag, left) := other.tag.moveConstruct
          .ok (tags.set src ⟨left, none⟩ ++ [⟨tag, other.mask⟩])
  | .copyAssign dst src _ =>
      match tags[dst]?, tags[src]? with
      | some self, some other => do
          let (done, tag) ← self.tag.copyAssign other.tag
          .ok (tags.set dst ⟨tag, if done then other.mask else self.mask⟩)
      | _, _ => .ok tags
  | .moveAssign dst src _ =>
      match tags[dst]?, tags[src]? with
      | some _, some other =>
          let (tag, left) := other.tag.moveAssign
          .ok ((tags.set src ⟨left, none⟩).set dst ⟨tag, other.mask⟩)
      | _, _ => .ok tags
  | .destroy i => .ok (tags.eraseIdx i)

/-- The next state of a run, as long as there is one. -/
def next (r : Exec (List LiveTag)) (op : TagOp) : Exec (List LiveTag) := do
  let tags ← r
  op.step tags

/-! ## What is asked of a run -/

/-- The tag owns the bytes that were read for it, one for eight files. -/
def LiveTag.Kept (t : LiveTag) : Prop :=
  ∀ mask ∈ t.mask, t.tag.bitmask = some mask.bytes ∧ mask.bytes.length = (mask.files + 7) / 8

/-- No buffer was left, and every live tag has its mask. -/
def KeepsMasks (r : Exec (List LiveTag)) : Prop := ∃ tags, r = .ok tags ∧ ∀ t ∈ tags, t.Kept

/-- A copy of the tag stays inside its buffer, or is refused. -/
def TagObject.Copyable (tag : TagObject) : Prop := tag.bitmaskSize ≤ 1 ∨ 2 ^ 63 ≤ tag.bitmaskSize

instance (tag : TagObject) : Decidable tag.Copyable := inferInstanceAs (Decidable (_ ∨ _))

/-- No mask is read whose size wraps, and no tag is copied that cannot be. -/
def TagOp.Safe (tags : List LiveTag) : TagOp → Prop
  | .read source => source.files.toNat + 7 < sizeMax
  | .copyConstruct src => ∀ other ∈ tags[src]?, other.tag.Copyable
  | .copyAssign dst src _ => dst < tags.length → ∀ other ∈ tags[src]?, other.tag.Copyable
  | _ => True

/-- The operation is safe, if there is a state. -/
def SafeIn (r : Exec (List LiveTag)) (op : TagOp) : Prop := ∀ tags, r = .ok tags → op.Safe tags

/-! ## Masks that are read -/

/-- The size of a mask is right unless the sum wraps, and then there is none. -/
theorem maskSize_eq_iff (files : UInt64) :
    TagObject.maskSize files.toNat = (files.toNat + 7) / 8 ↔ files.toNat + 7 < sizeMax := by
  have hlt := files.toNat_lt
  constructor
  · intro h
    by_contra hwraps
    rw [TagObject.maskSize, sizeWrap, Nat.mod_eq_sub_mod (Nat.le_of_not_lt hwraps)] at h
    rw [sizeMax] at h hwraps
    omega
  · intro h
    rw [TagObject.maskSize, sizeWrap_of_lt h]

/-- What the constructor leaves. -/
theorem ReadTag.spec (source : ReadTag) :
    ∃ bytes, source.tag.bitmaskSize = source.files.toNat ∧ source.tag.bitmask = some bytes ∧
      bytes.length = TagObject.maskSize source.files.toNat := by
  obtain ⟨⟨type, s₁⟩, -, h⟩ := Exec.bind_eq_ok.mp source.made
  obtain ⟨⟨n, bytes, s₂⟩, hread, h⟩ := Exec.bind_eq_ok.mp h
  rw [readSpan_bytes] at hread
  have hlen := StreamKind.readImpl_length hread
  rw [List.length_replicate] at hlen
  obtain ⟨htag, -⟩ := Prod.mk.inj (Except.ok.inj h)
  rw [← htag]
  exact ⟨bytes, rfl, rfl, hlen⟩

/-- Where the sum does not wrap the tag owns what the stream gave. -/
theorem ReadTag.bitmask_eq (source : ReadTag) (h : source.files.toNat + 7 < sizeMax) :
    source.tag.bitmask = some source.given := by
  obtain ⟨⟨type, s₁⟩, htype, hmade⟩ := Exec.bind_eq_ok.mp source.made
  obtain ⟨⟨n, bytes, s₂⟩, hread, hmade⟩ := Exec.bind_eq_ok.mp hmade
  rw [(maskSize_eq_iff _).mpr h] at hread
  obtain ⟨htag, -⟩ := Prod.mk.inj (Except.ok.inj hmade)
  rw [ReadTag.given, givenBytes, htype, Exec.ok_bind]
  dsimp only
  rw [hread, ← htag]
  rfl

/-- The constructor is that of `Tag` where the sum does not wrap. -/
theorem TagObject.read_eq_map {σ : Type} [IReadableStream σ] (stream : σ) {bitmaskSize : Nat}
    (name : Bytes) (h : bitmaskSize + 7 < sizeMax) :
    TagObject.read stream bitmaskSize name =
      (Tag.read stream bitmaskSize name).map fun r => (r.1.object, r.2) := by
  rw [TagObject.read, Tag.read, TagObject.maskSize, sizeWrap_of_lt h]
  cases readInt 2 stream .big with
  | error f => rfl
  | ok r =>
      rw [Exec.ok_bind, Exec.ok_bind]
      dsimp only
      cases readSpan r.2 (List.replicate ((bitmaskSize + 7) / 8) 0) .little 1 with
      | error f => rfl
      | ok r' => rfl

/-! ## What every live tag has -/

/-- The tag has its mask, and its size is that of the mask.  A copy assignment
that was refused has given it one that no copy accepts. -/
structure LiveTag.Sound (t : LiveTag) : Prop where
  size : t.tag.bitmaskSize = (t.mask.map ReadMask.files).getD 0 ∨ 2 ^ 63 ≤ t.tag.bitmaskSize
  kept : t.Kept

theorem LiveTag.Sound.moved (t : LiveTag) (name : Bytes) :
    LiveTag.Sound ⟨⟨name, t.tag.type, 0, none⟩, none⟩ :=
  ⟨.inl rfl, nofun⟩

theorem ReadTag.sound (source : ReadTag) (h : source.files.toNat + 7 < sizeMax) :
    source.live.Sound := by
  obtain ⟨bytes, hsize, hbitmask, hlen⟩ := source.spec
  have hgiven := source.bitmask_eq h
  have hbytes : bytes = source.given := Option.some.inj (hbitmask.symm.trans hgiven)
  refine ⟨.inl hsize, ?_⟩
  rintro _ ⟨⟩
  exact ⟨hgiven, hbytes ▸ hlen.trans ((maskSize_eq_iff _).mpr h)⟩

/-- A mask whose size wraps is not that of its tag. -/
theorem ReadTag.not_kept (source : ReadTag) (h : ¬ source.files.toNat + 7 < sizeMax) :
    ¬ source.live.Kept := by
  obtain ⟨bytes, -, hbitmask, hlen⟩ := source.spec
  intro hkept
  obtain ⟨hgiven, hsize⟩ := hkept ⟨source.files.toNat, source.given⟩ rfl
  have hbytes : bytes = source.given := Option.some.inj (hbitmask.symm.trans hgiven)
  exact h ((maskSize_eq_iff _).mp (hlen.symm.trans (hbytes ▸ hsize)))

/-! ## Copies -/

namespace LiveTag.Sound

open TagObject

variable {t self other : LiveTag}

/-- Without a mask a tag is one of no files. -/
theorem cases (h : t.Sound) (hmax : t.tag.bitmaskSize < 2 ^ 63) :
    t.mask = none ∧ t.tag.bitmaskSize = 0 ∨
      ∃ mask, t.mask = some mask ∧ t.tag.bitmask = some mask.bytes ∧
        t.tag.bitmaskSize = mask.files ∧ mask.bytes.length = (mask.files + 7) / 8 := by
  have hsize := h.size.resolve_right (Nat.not_le_of_lt hmax)
  cases hmask : t.mask with
  | none =>
      rw [hmask] at hsize
      exact .inl ⟨rfl, hsize⟩
  | some mask =>
      obtain ⟨hbitmask, hlen⟩ := h.kept mask hmask
      rw [hmask] at hsize
      exact .inr ⟨mask, rfl, hbitmask, hsize, hlen⟩

/-- A mask of at most one file has as many bytes as files. -/
theorem copyMask_of_le (h : t.Sound) (hle : t.tag.bitmaskSize ≤ 1) :
    ∃ bytes, copyMask t.tag.bitmask t.tag.bitmaskSize = .ok bytes ∧
      LiveTag.Sound ⟨{ t.tag with bitmask := some bytes }, t.mask⟩ := by
  rcases h.cases (by omega) with ⟨hmask, hzero⟩ | ⟨mask, hmask, hbitmask, hsize, hlen⟩
  · rw [hmask, hzero, copyMask, if_pos (Nat.zero_le _)]
    exact ⟨_, rfl, .inl hzero, nofun⟩
  · have hwhole : mask.bytes.length = t.tag.bitmaskSize := by omega
    rw [hmask, copyMask, hbitmask, Option.getD_some, if_pos (Nat.le_of_eq hwhole.symm),
      List.take_of_length_le (Nat.le_of_eq hwhole)]
    refine ⟨_, rfl, .inl hsize, ?_⟩
    rintro _ ⟨⟩
    exact ⟨rfl, hlen⟩

/-- One of more files has fewer. -/
theorem copyMask_of_lt (h : t.Sound) (hlt : 1 < t.tag.bitmaskSize)
    (hmax : t.tag.bitmaskSize < 2 ^ 63) :
    copyMask t.tag.bitmask t.tag.bitmaskSize = .error .outOfBounds := by
  rcases h.cases hmax with ⟨-, hzero⟩ | ⟨mask, -, hbitmask, hsize, hlen⟩
  · omega
  · have hshort : ¬ t.tag.bitmaskSize ≤ mask.bytes.length := by omega
    rw [copyMask, hbitmask, Option.getD_some, if_neg hshort]

theorem copyConstruct_ok (h : t.Sound) (hcopy : t.tag.Copyable) :
    ∃ made, t.tag.copyConstruct = .ok made ∧ ∀ tag ∈ made, LiveTag.Sound ⟨tag, t.mask⟩ := by
  rw [copyConstruct]
  by_cases hmax : 2 ^ 63 ≤ t.tag.bitmaskSize
  · rw [if_pos hmax]
    exact ⟨none, rfl, nofun⟩
  · obtain ⟨bytes, hbytes, hsound⟩ := h.copyMask_of_le (hcopy.resolve_right hmax)
    rw [if_neg hmax, hbytes, Exec.ok_bind]
    refine ⟨_, rfl, ?_⟩
    rintro _ ⟨⟩
    exact hsound

theorem copyConstruct_fault (h : t.Sound) (hcopy : ¬ t.tag.Copyable) :
    t.tag.copyConstruct = .error .outOfBounds := by
  obtain ⟨hlt, hmax⟩ := not_or.mp hcopy
  rw [copyConstruct, if_neg hmax,
    h.copyMask_of_lt (Nat.lt_of_not_le hlt) (Nat.lt_of_not_le hmax), Exec.error_bind]

theorem copyAssign_ok (hself : self.Sound) (hother : other.Sound) (hcopy : other.tag.Copyable) :
    ∃ done tag, self.tag.copyAssign other.tag = .ok (done, tag) ∧
      LiveTag.Sound ⟨tag, if done then other.mask else self.mask⟩ := by
  rw [copyAssign]
  by_cases hmax : 2 ^ 63 ≤ other.tag.bitmaskSize
  · rw [if_pos hmax]
    exact ⟨false, _, rfl, .inr hmax, hself.kept⟩
  · obtain ⟨bytes, hbytes, hsound⟩ := hother.copyMask_of_le (hcopy.resolve_right hmax)
    rw [if_neg hmax, hbytes, Exec.ok_bind]
    exact ⟨true, _, rfl, hsound⟩

theorem copyAssign_fault (hother : other.Sound) (hcopy : ¬ other.tag.Copyable) :
    self.tag.copyAssign other.tag = .error .outOfBounds := by
  obtain ⟨hlt, hmax⟩ := not_or.mp hcopy
  rw [copyAssign, if_neg hmax,
    hother.copyMask_of_lt (Nat.lt_of_not_le hlt) (Nat.lt_of_not_le hmax), Exec.error_bind]

end LiveTag.Sound

/-! ## Steps -/

variable {tags : List LiveTag}

/-- What holds of a tag in its place and of the others holds of all. -/
theorem forall_mem_set {P : LiveTag → Prop} {i : Nat} {t : LiveTag} (h : ∀ u ∈ tags, P u)
    (ht : P t) : ∀ u ∈ tags.set i t, P u := by
  intro u hu
  cases List.mem_or_eq_of_mem_set hu with
  | inl hmem => exact h u hmem
  | inr heq => exact heq ▸ ht

theorem forall_mem_concat {P : LiveTag → Prop} {t : LiveTag} (h : ∀ u ∈ tags, P u) (ht : P t) :
    ∀ u ∈ tags ++ [t], P u :=
  List.forall_mem_append.mpr ⟨h, List.forall_mem_singleton.mpr ht⟩

theorem TagOp.step_sound (h : ∀ t ∈ tags, t.Sound) (op : TagOp) (hsafe : op.Safe tags) :
    ∃ tags', op.step tags = .ok tags' ∧ ∀ t ∈ tags', t.Sound := by
  cases op with
  | read source => exact ⟨_, rfl, forall_mem_concat h (source.sound hsafe)⟩
  | copyConstruct src =>
      rw [TagOp.step]
      cases hsrc : tags[src]? with
      | none => exact ⟨tags, rfl, h⟩
      | some other =>
          have hother := h other (List.mem_of_getElem? hsrc)
          obtain ⟨made, hmade, hsound⟩ := hother.copyConstruct_ok (hsafe other hsrc)
          dsimp only
          rw [hmade, Exec.ok_bind]
          cases made with
          | none => exact ⟨tags, rfl, h⟩
          | some tag => exact ⟨_, rfl, forall_mem_concat h (hsound tag rfl)⟩
  | moveConstruct src =>
      rw [TagOp.step]
      cases hsrc : tags[src]? with
      | none => exact ⟨tags, rfl, h⟩
      | some other =>
          have hother := h other (List.mem_of_getElem? hsrc)
          exact ⟨_, rfl, forall_mem_concat (forall_mem_set h (.moved other _)) hother⟩
  | copyAssign dst src =>
      rw [TagOp.step]
      cases hdst : tags[dst]? with
      | none => exact ⟨tags, rfl, h⟩
      | some self =>
          cases hsrc : tags[src]? with
          | none => exact ⟨tags, rfl, h⟩
          | some other =>
              have hself := h self (List.mem_of_getElem? hdst)
              have hother := h other (List.mem_of_getElem? hsrc)
              have hin : dst < tags.length := (List.getElem?_eq_some_iff.mp hdst).1
              obtain ⟨done, tag, hassign, hsound⟩ :=
                hself.copyAssign_ok hother (hsafe hin other hsrc)
              dsimp only
              rw [hassign, Exec.ok_bind]
              exact ⟨_, rfl, forall_mem_set h hsound⟩
  | moveAssign dst src =>
      rw [TagOp.step]
      cases hdst : tags[dst]? with
      | none => exact ⟨tags, rfl, h⟩
      | some self =>
          cases hsrc : tags[src]? with
          | none => exact ⟨tags, rfl, h⟩
          | some other =>
              have hother := h other (List.mem_of_getElem? hsrc)
              exact ⟨_, rfl, forall_mem_set (forall_mem_set h (.moved other _)) hother⟩
  | destroy i => exact ⟨_, rfl, fun t ht => h t (List.mem_of_mem_eraseIdx ht)⟩

/-- The tag that is not to be copied. -/
theorem exists_not_copyable {src : Nat} (h : ¬ ∀ other ∈ tags[src]?, other.tag.Copyable) :
    ∃ other, tags[src]? = some other ∧ ¬ other.tag.Copyable := by
  obtain ⟨other, h⟩ := not_forall.mp h
  obtain ⟨hsrc, hcopy⟩ := Classical.not_imp.mp h
  exact ⟨other, hsrc, hcopy⟩

/-- An operation that is not safe leaves a buffer, or reads a mask of the wrong
size. -/
theorem TagOp.step_unsafe (h : ∀ t ∈ tags, t.Sound) (op : TagOp) (hsafe : ¬ op.Safe tags) :
    ¬ KeepsMasks (op.step tags) := by
  rintro ⟨tags', hstep, hkept⟩
  cases op with
  | read source =>
      cases hstep
      exact source.not_kept hsafe
        (hkept _ (List.mem_append_right _ (List.mem_singleton_self _)))
  | copyConstruct src =>
      obtain ⟨other, hsrc, hcopy⟩ := exists_not_copyable hsafe
      have hother := h other (List.mem_of_getElem? hsrc)
      rw [TagOp.step, hsrc] at hstep
      dsimp only at hstep
      rw [hother.copyConstruct_fault hcopy] at hstep
      cases hstep
  | copyAssign dst src =>
      obtain ⟨hin, hsafe⟩ := Classical.not_imp.mp hsafe
      obtain ⟨other, hsrc, hcopy⟩ := exists_not_copyable hsafe
      have hother := h other (List.mem_of_getElem? hsrc)
      rw [TagOp.step, List.getElem?_eq_getElem hin, hsrc] at hstep
      dsimp only at hstep
      rw [hother.copyAssign_fault hcopy] at hstep
      cases hstep
  | moveConstruct src => exact hsafe trivial
  | moveAssign dst src => exact hsafe trivial
  | destroy i => exact hsafe trivial

/-! ## Runs -/

/-- In every state of a run each live tag has the mask that was read for it, and
no buffer was left, exactly when no operation of the run is unsafe. -/
theorem run_kept_iff (ops : List TagOp) :
    (∀ r ∈ states next (.ok []) ops, KeepsMasks r) ↔
      Along (silent next) SafeIn (.ok []) ops := by
  have hstart : KeepsMasks (.ok []) := ⟨[], rfl, nofun⟩
  rw [forall_states_iff, and_iff_right hstart]
  refine Along.iff_of_step (fun r => ∃ tags, r = .ok tags ∧ ∀ t ∈ tags, LiveTag.Sound t)
    (fun r op => KeepsMasks (next r op)) ?_ ?_ ops ⟨[], rfl, nofun⟩
    (Along.of_forall (fun _ _ => trivial) _ ops)
  · rintro _ op ⟨tags, rfl, h⟩ -
    constructor
    · rintro hkept _ ⟨⟩
      by_contra hsafe
      exact TagOp.step_unsafe h op hsafe hkept
    · intro hsafe
      obtain ⟨tags', hstep, hsound⟩ := TagOp.step_sound h op (hsafe tags rfl)
      exact ⟨tags', hstep, fun t ht => (hsound t ht).kept⟩
  · rintro _ op ⟨tags, rfl, h⟩ - hsafe
    exact TagOp.step_sound h op (hsafe tags rfl)

theorem read_twoFiles :
    TagObject.read (GrowableMemoryStream.ofBuffer ⟨[0, 1, 0xC0], by decide⟩) (2 : UInt64).toNat
      [0x57, 0x69, 0x6E] = .ok (⟨[0x57, 0x69, 0x6E], 1, 2, some [0xC0]⟩, ⟨[0, 1, 0xC0], 3, 0⟩) := by
  decide

/-- A tag of two files, with both bits. -/
def twoFiles : ReadTag where
  kind := .growable
  stream := GrowableMemoryStream.ofBuffer ⟨[0, 1, 0xC0], by decide⟩
  files := 2
  name := [0x57, 0x69, 0x6E]
  tag := ⟨[0x57, 0x69, 0x6E], 1, 2, some [0xC0]⟩
  rest := (⟨[0, 1, 0xC0], 3, 0⟩ : GrowableMemoryStream)
  made := read_twoFiles

/-- The tag is read, and copied. -/
theorem run_copy_two :
    ¬ ∀ r ∈ states next (.ok []) [.read twoFiles, .copyConstruct 0], KeepsMasks r := by
  intro hkept
  obtain ⟨tags, hcopy, -⟩ := hkept _
    (List.mem_cons_of_mem _ (List.mem_cons_of_mem _ List.mem_cons_self))
  have hfault : next (next (.ok []) (.read twoFiles)) (.copyConstruct 0) =
      .error .outOfBounds := rfl
  rw [hfault] at hcopy
  cases hcopy

end Install

end Tactmon
