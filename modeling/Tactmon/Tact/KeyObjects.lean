import Tactmon.Lib.Conformance
import Tactmon.Lib.Ownership
import Tactmon.Tact.Key

/-!
# Keys that are copied and moved

`detail::Key` owns its bytes through a `unique_ptr`, and has the constructors and
assignments written out.  `TryParse` of `CKey` and `EKey` also makes a new buffer.

A run is any sequence of these operations on live keys, with a heap for their
buffers.  The assignments go through the state, so `other` may be `*this`.
Elsewhere a key is the byte string that it has.  `run_values_iff` says when that is
right: a key that is copied to itself is left with zeros.  By `run_owned_iff` every
buffer has one key at any time, so none is released twice, used after that, or
lost.
-/

namespace Tactmon

open Binary Cxx Conformance

namespace Key

/-! ## A key and its buffer -/

/-- `detail::Key`: the pointer `_data`, and `_size`. -/
structure Object where
  data : Option Nat
  size : Nat
deriving DecidableEq, Repr

/-- The live keys, and the heap. -/
structure Store where
  heap : Heap Bytes
  keys : List Object
deriving DecidableEq, Repr

/-- `std::make_unique<uint8_t[]>`, which is filled with zeros. -/
def makeUnique (heap : Heap Bytes) (size : Nat) : Nat × Heap Bytes :=
  heap.alloc (List.replicate size 0)

/-- The bytes that `std::copy_n` reads.  It reads none from a null pointer if the
count is zero. -/
def loadBytes (heap : Heap Bytes) (data : Option Nat) (count : Nat) : Exec Bytes :=
  if count = 0 then .ok []
  else
    match data with
    | none => .error .outOfBounds
    | some p => do
        let source ← heap.load p
        if count ≤ source.length then .ok (source.take count) else .error .outOfBounds

/-- The bytes that `std::copy_n` writes. -/
def storeBytes (heap : Heap Bytes) (p : Nat) (bytes : Bytes) : Exec (Heap Bytes) := do
  let target ← heap.load p
  if bytes.length ≤ target.length then heap.store p (bytes ++ target.drop bytes.length)
  else .error .outOfBounds

/-- `data`, with the bytes of the range. -/
def Object.bytes (heap : Heap Bytes) (key : Object) : Exec Bytes :=
  loadBytes heap key.data key.size

/-! ## Operations -/

namespace Store

/-- The constructor from a range. -/
def construct (s : Store) (data : Bytes) : Exec Store := do
  let fresh := makeUnique s.heap data.length
  let heap ← storeBytes fresh.2 fresh.1 data
  .ok ⟨heap, s.keys ++ [⟨some fresh.1, data.length⟩]⟩

/-- The copy constructor. -/
def copyConstruct (s : Store) (other : Object) : Exec Store := do
  let fresh := makeUnique s.heap other.size
  let bytes ← loadBytes fresh.2 other.data other.size
  let heap ← storeBytes fresh.2 fresh.1 bytes
  .ok ⟨heap, s.keys ++ [⟨some fresh.1, other.size⟩]⟩

/-- The move constructor. -/
def moveConstruct (s : Store) (src : Nat) (other : Object) : Store :=
  ⟨s.heap, s.keys.set src ⟨none, 0⟩ ++ [other]⟩

/-- A new buffer for `_data`, in place of the one it has. -/
def reset (s : Store) (i size : Nat) : Exec (Nat × Store) := do
  let fresh := makeUnique s.heap size
  let heap ← fresh.2.release (s.keys[i]?.bind Object.data)
  .ok (fresh.1, ⟨heap, s.keys.set i ⟨some fresh.1, size⟩⟩)

/-- The copy assignment.  The bytes are read from what `other` is after `_data` and
`_size` have been assigned. -/
def copyAssign (s : Store) (dst src : Nat) (size : Nat) : Exec Store := do
  let (p, s) ← s.reset dst size
  let bytes ← loadBytes s.heap (s.keys[src]?.bind Object.data) size
  let heap ← storeBytes s.heap p bytes
  .ok ⟨heap, s.keys⟩

/-- The last assignment of a move, to the `_size` of `other`. -/
def clearSize (keys : List Object) (src : Nat) : List Object :=
  keys.set src ⟨keys[src]?.bind Object.data, 0⟩

/-- The move assignment.  The pointer of `other` is null when the old buffer of
`_data` is released. -/
def moveAssign (s : Store) (dst src : Nat) (other : Object) : Exec Store := do
  let heap ← s.heap.release ((s.keys.set src ⟨none, other.size⟩)[dst]?.bind Object.data)
  .ok ⟨heap, clearSize ((s.keys.set src ⟨none, other.size⟩).set dst other) src⟩

/-- `TryParse`, for a key that is there. -/
def tryParse (s : Store) (target : Nat) (value : Bytes) : Exec Store := do
  let (p, s) ← s.reset target (value.length / 2)
  let key ← unhex value
  let heap ← storeBytes s.heap p key
  .ok ⟨heap, s.keys⟩

/-- The destructor. -/
def destroy (s : Store) (i : Nat) : Exec Store := do
  let heap ← s.heap.release (s.keys[i]?.bind Object.data)
  .ok ⟨heap, s.keys.eraseIdx i⟩

end Store

/-- An operation on the live keys. -/
inductive Op where
  | default
  | construct (data : Bytes)
  | copyConstruct (src : Nat)
  | moveConstruct (src : Nat)
  | copyAssign (dst src : Nat)
  | moveAssign (dst src : Nat)
  | tryParse (target : Nat) (value : Bytes)
  | destroy (i : Nat)
deriving DecidableEq, Repr

/-- The live keys after one operation.  There is none on a key that is not there. -/
def Op.step (s : Store) : Op → Exec Store
  | .default => .ok ⟨s.heap, s.keys ++ [⟨none, 0⟩]⟩
  | .construct data => s.construct data
  | .copyConstruct src =>
      match s.keys[src]? with
      | none => .ok s
      | some other => s.copyConstruct other
  | .moveConstruct src =>
      match s.keys[src]? with
      | none => .ok s
      | some other => .ok (s.moveConstruct src other)
  | .copyAssign dst src =>
      match s.keys[dst]?, s.keys[src]? with
      | some _, some other => s.copyAssign dst src other.size
      | _, _ => .ok s
  | .moveAssign dst src =>
      match s.keys[dst]?, s.keys[src]? with
      | some _, some other => s.moveAssign dst src other
      | _, _ => .ok s
  | .tryParse target value =>
      match s.keys[target]? with
      | none => .ok s
      | some _ => s.tryParse target value
  | .destroy i => s.destroy i

/-- An operation, and the bytes of all keys behind it. -/
def Op.call (s : Store) (op : Op) : Exec (List Bytes × Store) := do
  let s ← op.step s
  let values ← s.keys.mapM (Object.bytes s.heap)
  .ok (values, s)

/-! ## Keys as values -/

/-- The values behind an operation: a copy is the same, and what is moved is left
empty. -/
def Op.after (values : List Bytes) : Op → List Bytes
  | .default => values ++ [[]]
  | .construct data => values ++ [data]
  | .copyConstruct src =>
      match values[src]? with
      | none => values
      | some other => values ++ [other]
  | .moveConstruct src =>
      match values[src]? with
      | none => values
      | some other => values.set src [] ++ [other]
  | .copyAssign dst src =>
      match values[src]? with
      | none => values
      | some other => values.set dst other
  | .moveAssign dst src =>
      match values[dst]?, values[src]? with
      | some _, some other => (values.set dst other).set src []
      | _, _ => values
  | .tryParse target value =>
      match unhex value with
      | .error _ => values
      | .ok key => values.set target key
  | .destroy i => values.eraseIdx i

/-- The reference, which shows the values. -/
def Op.answer (values : List Bytes) (op : Op) : List Bytes × List Bytes :=
  (op.after values, op.after values)

/-- A text that is parsed has an even number of characters. -/
def Op.Even (values : List Bytes) : Op → Prop
  | .tryParse target value => target < values.length → 2 ∣ value.length
  | _ => True

/-- A key is not copied to itself, unless its bytes are zeros. -/
def Op.Apart (values : List Bytes) : Op → Prop
  | .copyAssign dst src =>
      dst = src → ∀ value ∈ values[src]?, value = List.replicate value.length 0
  | _ => True

/-- What the code makes of the values: a key that is copied to itself is zeroed. -/
def Op.left (values : List Bytes) : Op → List Bytes
  | .copyAssign dst src =>
      match values[src]? with
      | none => values
      | some other =>
          values.set dst (if dst = src then List.replicate other.length 0 else other)
  | op => op.after values

/-- The values are as they are to be exactly when no key is copied to itself. -/
theorem Op.left_eq_after_iff (values : List Bytes) (op : Op) :
    op.left values = op.after values ↔ op.Apart values := by
  cases op with
  | copyAssign dst src =>
      rw [left, after, Apart]
      cases hsrc : values[src]? with
      | none => simp
      | some other =>
          show values.set dst (if dst = src then List.replicate other.length 0 else other) =
            values.set dst other ↔ _
          by_cases hself : dst = src
          · subst hself
            obtain ⟨hlt, hget⟩ := List.getElem?_eq_some_iff.mp hsrc
            have hset : values.set dst other = values := by rw [← hget, List.set_getElem_self]
            rw [if_pos rfl, hset]
            constructor
            · intro h _ value hvalue
              cases hvalue
              have hzeros := congrArg (fun values : List Bytes => values[dst]?) h
              rw [List.getElem?_set_self hlt, hsrc] at hzeros
              exact (Option.some.inj hzeros).symm
            · intro h
              rw [← h rfl other rfl, hset]
          · rw [if_neg hself]
            exact iff_of_true rfl fun he => absurd he hself
  | _ => exact iff_of_true rfl trivial

/-! ## One step -/

/-- An object has a value: the value is at the start of its buffer. -/
def Has (key : Object) (value : Bytes) (buffer : Option Bytes) : Prop :=
  key.size = value.length ∧ value <+: buffer.getD []

/-- The keys of a state, with their values. -/
structure Keeps (s : Store) (objects : List (Object × Bytes)) : Prop where
  keys : s.keys = objects.map Prod.fst
  holding : Holding Object.data Has s.heap objects

variable {heap : Heap Bytes} {key : Object} {value : Bytes} {objects : List (Object × Bytes)}

theorem perm_cons_eraseIdx {i : Nat} {object : Object × Bytes} (h : objects[i]? = some object) :
    objects.Perm (object :: objects.eraseIdx i) := by
  obtain ⟨hlt, rfl⟩ := List.getElem?_eq_some_iff.mp h
  exact (List.getElem_cons_eraseIdx_perm hlt).symm

theorem perm_set {i : Nat} {object : Object × Bytes} (h : objects[i]? = some object)
    (other : Object × Bytes) : (objects.set i other).Perm (other :: objects.eraseIdx i) :=
  List.set_perm_cons_eraseIdx (List.getElem?_eq_some_iff.mp h).1 other

theorem loadBytes_head (hold : Holding Object.data Has heap ((key, value) :: objects)) :
    key.bytes heap = .ok value := by
  obtain ⟨hsize, hstarts⟩ := hold.head
  unfold Object.bytes loadBytes
  by_cases hzero : key.size = 0
  · rw [if_pos hzero, List.length_eq_zero_iff.mp (hsize.symm.trans hzero)]
  · rw [if_neg hzero]
    have hne : value ≠ [] := fun he => hzero (by rw [hsize, he, List.length_nil])
    cases hdata : key.data with
    | none =>
        rw [hdata] at hstarts
        exact absurd (List.prefix_nil.mp hstarts) hne
    | some p =>
        obtain ⟨buffer, hfind⟩ := hold.find_ptr hdata
        rw [hdata, Option.bind_some, hfind, Option.getD_some] at hstarts
        have hload : heap.load p = .ok buffer := by rw [Heap.load, hfind]
        show (heap.load p >>= _) = _
        rw [hload, Exec.ok_bind, hsize, if_pos hstarts.length_le,
          ← List.prefix_iff_eq_take.mp hstarts]

/-- The bytes of a key are its value. -/
theorem bytes_eq (hold : Holding Object.data Has heap objects) {i : Nat}
    (h : objects[i]? = some (key, value)) : key.bytes heap = .ok value :=
  loadBytes_head (hold.perm (perm_cons_eraseIdx h))

/-- A new buffer of zeros. -/
theorem makeUnique_holds (hold : Holding Object.data Has heap objects) (size : Nat) :
    Holding Object.data Has (makeUnique heap size).2
      ((⟨some (makeUnique heap size).1, size⟩, List.replicate size 0) :: objects) :=
  hold.alloc rfl ⟨List.length_replicate.symm, List.prefix_refl _⟩

theorem storeBytes_head {p size : Nat} {old bytes : Bytes}
    (hold : Holding Object.data Has heap ((⟨some p, size⟩, old) :: objects))
    (hlength : bytes.length = size) :
    ∃ heap', storeBytes heap p bytes = .ok heap' ∧
      Holding Object.data Has heap' ((⟨some p, size⟩, bytes) :: objects) := by
  obtain ⟨hsize, hstarts⟩ := hold.head
  obtain ⟨target, hfind⟩ := hold.find_ptr rfl
  rw [Option.bind_some, hfind, Option.getD_some] at hstarts
  have hhas : Has ⟨some p, size⟩ bytes (some (bytes ++ target.drop bytes.length)) :=
    ⟨hlength.symm, List.prefix_append _ _⟩
  obtain ⟨heap', hstore, hold'⟩ := hold.store rfl hhas
  refine ⟨heap', ?_, hold'⟩
  have hload : heap.load p = .ok target := by rw [Heap.load, hfind]
  have hle : bytes.length ≤ target.length := by
    rw [hlength, show size = old.length from hsize]
    exact hstarts.length_le
  rw [storeBytes, hload, Exec.ok_bind, if_pos hle, hstore]

theorem storeBytes_set {i p size : Nat} {old bytes : Bytes}
    (hold : Holding Object.data Has heap objects) (h : objects[i]? = some (⟨some p, size⟩, old))
    (hlength : bytes.length = size) :
    ∃ heap', storeBytes heap p bytes = .ok heap' ∧
      Holding Object.data Has heap' (objects.set i (⟨some p, size⟩, bytes)) := by
  obtain ⟨heap', hstore, hold'⟩ := storeBytes_head (hold.perm (perm_cons_eraseIdx h)) hlength
  exact ⟨heap', hstore, hold'.perm (perm_set h _).symm⟩

/-- An object at the end. -/
theorem holds_concat {object : Object × Bytes}
    (hold : Holding Object.data Has heap (object :: objects)) :
    Holding Object.data Has heap (objects ++ [object]) :=
  hold.perm (List.perm_append_singleton object objects).symm

/-- An object without a buffer, in place of one that gives its buffer away. -/
theorem holds_moved {i : Nat} (hold : Holding Object.data Has heap objects)
    (h : objects[i]? = some (key, value)) :
    Holding Object.data Has heap ((key, value) :: objects.set i (⟨none, 0⟩, [])) := by
  have hhead := hold.perm (perm_cons_eraseIdx h)
  have hnull : Holding Object.data Has heap
      ((⟨none, 0⟩, []) :: (key, value) :: objects.eraseIdx i) :=
    hhead.null rfl ⟨rfl, List.nil_prefix⟩
  exact hnull.perm ((List.Perm.swap _ _ _).trans ((perm_set h _).symm.cons _))

namespace Store

variable {s : Store}

theorem keys_getElem? (h : Keeps s objects) {i : Nat} (hget : objects[i]? = some (key, value)) :
    s.keys[i]? = some key := by
  rw [h.keys, List.getElem?_map, hget]
  rfl

/-- The objects of a constructor, which has its new object first. -/
theorem keeps_concat (h : Keeps s objects) (hold : Holding Object.data Has heap
    ((key, value) :: objects)) : Keeps ⟨heap, s.keys ++ [key]⟩ (objects ++ [(key, value)]) where
  keys := by
    rw [h.keys, List.map_append]
    rfl
  holding := holds_concat hold

theorem construct_spec (h : Keeps s objects) (data : Bytes) :
    ∃ s' key, s.construct data = .ok s' ∧ Keeps s' (objects ++ [(key, data)]) := by
  have hnew := makeUnique_holds h.holding data.length
  obtain ⟨heap, hstore, hold⟩ := storeBytes_head hnew rfl
  refine ⟨_, _, ?_, keeps_concat h hold⟩
  show (storeBytes (makeUnique s.heap data.length).2 (makeUnique s.heap data.length).1 data >>= _) =
    _
  rw [hstore, Exec.ok_bind]

theorem copyConstruct_spec (h : Keeps s objects) {src : Nat}
    (hsrc : objects[src]? = some (key, value)) :
    ∃ s' made, s.copyConstruct key = .ok s' ∧ Keeps s' (objects ++ [(made, value)]) := by
  have hnew := makeUnique_holds h.holding key.size
  have hbytes := bytes_eq hnew (i := src + 1) hsrc
  have hsize := (h.holding.perm (perm_cons_eraseIdx hsrc)).head.1
  obtain ⟨heap, hstore, hold⟩ := storeBytes_head hnew hsize.symm
  refine ⟨_, _, ?_, keeps_concat h hold⟩
  show (key.bytes (makeUnique s.heap key.size).2 >>= fun bytes =>
    storeBytes (makeUnique s.heap key.size).2 (makeUnique s.heap key.size).1 bytes >>= _) = _
  rw [hbytes, Exec.ok_bind, hstore, Exec.ok_bind]

theorem moveConstruct_spec (h : Keeps s objects) {src : Nat}
    (hsrc : objects[src]? = some (key, value)) :
    Keeps (s.moveConstruct src key) (objects.set src (⟨none, 0⟩, []) ++ [(key, value)]) where
  keys := by
    rw [moveConstruct, h.keys, List.map_append, List.map_set]
    rfl
  holding := holds_concat (holds_moved h.holding hsrc)

/-- The new buffer is there before the old one is released. -/
theorem reset_spec (h : Keeps s objects) {i : Nat} (hget : objects[i]? = some (key, value))
    (size : Nat) :
    ∃ p s', s.reset i size = .ok (p, s') ∧
      Keeps s' (objects.set i (⟨some p, size⟩, List.replicate size 0)) := by
  have hnew := (makeUnique_holds h.holding size).perm
    (((perm_cons_eraseIdx hget).cons _).trans (List.Perm.swap _ _ _))
  obtain ⟨heap, hrelease, hold⟩ := hnew.release
  refine ⟨(makeUnique s.heap size).1, ⟨heap, s.keys.set i ⟨some (makeUnique s.heap size).1, size⟩⟩,
    ?_, ?_, hold.perm (perm_set hget _).symm⟩
  · show ((makeUnique s.heap size).2.release (s.keys[i]?.bind Object.data) >>= _) = _
    rw [keys_getElem? h hget, Option.bind_some, hrelease, Exec.ok_bind]
  · show s.keys.set i _ = _
    rw [h.keys, List.map_set]

/-- The bytes of another key, or the zeros where the key is copied to itself. -/
theorem copyAssign_spec (h : Keeps s objects) {dst src : Nat} {self other : Object}
    {mine : Bytes} (hdst : objects[dst]? = some (self, mine))
    (hsrc : objects[src]? = some (other, value)) :
    ∃ s' made, s.copyAssign dst src other.size = .ok s' ∧
      Keeps s' (objects.set dst
        (made, if dst = src then List.replicate value.length 0 else value)) := by
  have hsize := (h.holding.perm (perm_cons_eraseIdx hsrc)).head.1
  have hlt := (List.getElem?_eq_some_iff.mp hdst).1
  obtain ⟨p, s', hreset, h'⟩ := reset_spec h hdst other.size
  have hself := List.getElem?_set_self (a := (⟨some p, other.size⟩, List.replicate other.size 0))
    hlt
  generalize hread : (if dst = src then List.replicate value.length 0 else value) = bytes
  have hlength : bytes.length = other.size := by
    rw [← hread, apply_ite List.length, List.length_replicate, ite_self]
    exact hsize.symm
  -- What is read is the new buffer where `other` is `*this`.
  have hsource : ∃ source : Object, source.size = other.size ∧
      (objects.set dst (⟨some p, other.size⟩, List.replicate other.size 0))[src]? =
        some (source, bytes) := by
    by_cases he : dst = src
    · subst he
      rw [if_pos rfl, ← show other.size = value.length from hsize] at hread
      exact ⟨⟨some p, other.size⟩, rfl, hread ▸ hself⟩
    · rw [if_neg he] at hread
      exact ⟨other, rfl, by rw [List.getElem?_set_ne he, ← hread]; exact hsrc⟩
  obtain ⟨source, hsourceSize, hsource⟩ := hsource
  obtain ⟨heap, hstore, hold⟩ := storeBytes_set h'.holding hself hlength
  rw [List.set_set] at hold
  refine ⟨⟨heap, s'.keys⟩, ⟨some p, other.size⟩, ?_, ?_, hold⟩
  · have hbytes := bytes_eq h'.holding hsource
    rw [Object.bytes, hsourceSize] at hbytes
    rw [copyAssign, hreset, Exec.ok_bind]
    show (loadBytes s'.heap (s'.keys[src]?.bind Object.data) other.size >>= fun bytes =>
      storeBytes s'.heap p bytes >>= _) = _
    rw [keys_getElem? h' hsource, Option.bind_some, hbytes, Exec.ok_bind, hstore, Exec.ok_bind]
  · show s'.keys = _
    rw [h'.keys, List.map_set, List.map_set]

/-- The buffer goes from one key to the other.  A key that is moved to itself keeps
it, and is empty. -/
theorem moveAssign_spec (h : Keeps s objects) {dst src : Nat} {self other : Object}
    {mine : Bytes} (hdst : objects[dst]? = some (self, mine))
    (hsrc : objects[src]? = some (other, value)) :
    ∃ s' made left, s.moveAssign dst src other = .ok s' ∧
      Keeps s' ((objects.set dst (made, value)).set src (left, [])) := by
  have hlt : src < s.keys.length := by
    rw [h.keys, List.length_map]
    exact (List.getElem?_eq_some_iff.mp hsrc).1
  by_cases he : dst = src
  · subst he
    have hmove : s.moveAssign dst dst other =
        .ok ⟨s.heap, s.keys.set dst ⟨other.data, 0⟩⟩ := by
      rw [moveAssign, List.getElem?_set_self hlt, Option.bind_some, Heap.release, Exec.ok_bind,
        List.set_set, clearSize, List.getElem?_set_self hlt, Option.bind_some, List.set_set]
    have hleft : Holding Object.data Has s.heap
        ((⟨other.data, 0⟩, []) :: objects.eraseIdx dst) :=
      (h.holding.perm (perm_cons_eraseIdx hsrc)).transfer rfl fun _ => ⟨rfl, List.nil_prefix⟩
    refine ⟨_, other, ⟨other.data, 0⟩, hmove, ?_, ?_⟩
    · rw [List.set_set, h.keys, List.map_set]
    · rw [List.set_set]
      exact hleft.perm (perm_set hsrc _).symm
  · have hdst' : (objects.set src ((⟨none, 0⟩, []) : Object × Bytes))[dst]? =
        some (self, mine) := by
      rw [List.getElem?_set_ne (Ne.symm he), hdst]
    obtain ⟨heap, hrelease, hold⟩ := ((holds_moved h.holding hsrc).perm
      (((perm_cons_eraseIdx hdst').cons _).trans (List.Perm.swap _ _ _))).release
    have hmove : s.moveAssign dst src other =
        .ok ⟨heap, (s.keys.set dst other).set src ⟨none, 0⟩⟩ := by
      rw [moveAssign, List.getElem?_set_ne (Ne.symm he), keys_getElem? h hdst, Option.bind_some,
        hrelease, Exec.ok_bind, clearSize, List.getElem?_set_ne he, List.getElem?_set_self hlt,
        List.set_comm _ _ (Ne.symm he), List.set_set]
      rfl
    have hset := hold.perm (perm_set hdst' (other, value)).symm
    rw [List.set_comm _ _ (Ne.symm he)] at hset
    refine ⟨_, other, ⟨none, 0⟩, hmove, ?_, hset⟩
    rw [h.keys, List.map_set, List.map_set]

theorem unhex_length : ∀ {text bytes : Bytes}, unhex text = .ok bytes →
    bytes.length = text.length / 2
  | [], bytes, h => by
      cases h
      rfl
  | [_], bytes, h => by cases h
  | hiPart :: loPart :: text, bytes, h => by
      obtain ⟨rest, hrest, h⟩ := Exec.bind_eq_ok.mp h
      cases h
      rw [List.length_cons, unhex_length hrest, List.length_cons, List.length_cons]
      omega

theorem tryParse_spec (h : Keeps s objects) {target : Nat} {text bytes : Bytes}
    (hget : objects[target]? = some (key, value)) (hunhex : unhex text = .ok bytes) :
    ∃ s' made, s.tryParse target text = .ok s' ∧ Keeps s' (objects.set target (made, bytes)) := by
  obtain ⟨p, s', hreset, h'⟩ := reset_spec h hget (text.length / 2)
  obtain ⟨heap, hstore, hold⟩ := storeBytes_set h'.holding
    (List.getElem?_set_self (List.getElem?_eq_some_iff.mp hget).1) (unhex_length hunhex)
  rw [List.set_set] at hold
  refine ⟨⟨heap, s'.keys⟩, ⟨some p, text.length / 2⟩, ?_, ?_, hold⟩
  · rw [tryParse, hreset, Exec.ok_bind]
    show (unhex text >>= fun key => storeBytes s'.heap p key >>= _) = _
    rw [hunhex, Exec.ok_bind, hstore, Exec.ok_bind]
  · show s'.keys = _
    rw [h'.keys, List.map_set, List.map_set]

theorem destroy_spec (h : Keeps s objects) (i : Nat) :
    ∃ s', s.destroy i = .ok s' ∧ Keeps s' (objects.eraseIdx i) := by
  cases hget : objects[i]? with
  | none =>
      have hle := List.getElem?_eq_none_iff.mp hget
      have hkeys : s.keys[i]? = none := by rw [h.keys, List.getElem?_map, hget]; rfl
      refine ⟨⟨s.heap, s.keys.eraseIdx i⟩, ?_, ?_⟩
      · rw [destroy, hkeys]
        rfl
      · rw [List.eraseIdx_of_length_le hle]
        refine ⟨?_, h.holding⟩
        rw [List.eraseIdx_of_length_le (by rw [h.keys, List.length_map]; exact hle)]
        exact h.keys
  | some object =>
      obtain ⟨key, value⟩ := object
      obtain ⟨heap, hrelease, hold⟩ := (h.holding.perm (perm_cons_eraseIdx hget)).release
      refine ⟨⟨heap, s.keys.eraseIdx i⟩, ?_, ?_, hold⟩
      · rw [destroy, keys_getElem? h hget, Option.bind_some, hrelease, Exec.ok_bind]
      · show s.keys.eraseIdx i = _
        rw [h.keys, List.eraseIdx_map]

end Store

namespace Keeps

variable {s : Store}

theorem empty : Keeps ⟨⟨[]⟩, []⟩ [] := ⟨rfl, .empty⟩

theorem length_eq (h : Keeps s objects) : s.keys.length = objects.length := by
  rw [h.keys, List.length_map]

theorem keys_none (h : Keeps s objects) {i : Nat} (hget : objects[i]? = none) :
    s.keys[i]? = none := by
  rw [h.keys, List.getElem?_map, hget]
  rfl

/-- What can be read of the keys. -/
theorem mapM_bytes (h : Keeps s objects) :
    s.keys.mapM (Object.bytes s.heap) = .ok (objects.map Prod.snd) := by
  have hbytes : ∀ object ∈ objects, object.1.bytes s.heap = .ok object.2 := by
    intro object hmem
    obtain ⟨i, hi⟩ := List.getElem?_of_mem hmem
    exact bytes_eq h.holding hi
  rw [h.keys]
  clear h
  induction objects with
  | nil => rfl
  | cons object objects ih =>
      obtain ⟨hfirst, hrest⟩ := List.forall_mem_cons.mp hbytes
      rw [List.map_cons, List.mapM_cons, hfirst, Exec.ok_bind, ih hrest]
      rfl

end Keeps

/-- One operation.  It comes to its end, every buffer has one key, and the keys have
the values that the code leaves. -/
theorem Op.step_spec {s : Store} (h : Keeps s objects) (op : Op)
    (heven : op.Even (objects.map Prod.snd)) :
    ∃ s' objects', op.step s = .ok s' ∧ Keeps s' objects' ∧
      objects'.map Prod.snd = op.left (objects.map Prod.snd) := by
  cases op with
  | default =>
      refine ⟨_, objects ++ [(⟨none, 0⟩, [])], rfl, Store.keeps_concat h ?_, ?_⟩
      · exact h.holding.null rfl ⟨rfl, List.nil_prefix⟩
      · rw [List.map_append]
        rfl
  | construct data =>
      obtain ⟨s', made, hstep, h'⟩ := Store.construct_spec h data
      refine ⟨s', _, hstep, h', ?_⟩
      rw [List.map_append]
      rfl
  | copyConstruct src =>
      have hleft : left (objects.map Prod.snd) (.copyConstruct src) =
          after (objects.map Prod.snd) (.copyConstruct src) := rfl
      rw [hleft, step, after, List.getElem?_map]
      cases hsrc : objects[src]? with
      | none =>
          rw [h.keys_none hsrc]
          exact ⟨s, objects, rfl, h, rfl⟩
      | some other =>
          rw [Store.keys_getElem? h hsrc]
          obtain ⟨s', made, hstep, h'⟩ := Store.copyConstruct_spec h hsrc
          refine ⟨s', _, hstep, h', ?_⟩
          rw [List.map_append]
          rfl
  | moveConstruct src =>
      have hleft : left (objects.map Prod.snd) (.moveConstruct src) =
          after (objects.map Prod.snd) (.moveConstruct src) := rfl
      rw [hleft, step, after, List.getElem?_map]
      cases hsrc : objects[src]? with
      | none =>
          rw [h.keys_none hsrc]
          exact ⟨s, objects, rfl, h, rfl⟩
      | some other =>
          rw [Store.keys_getElem? h hsrc]
          refine ⟨_, _, rfl, Store.moveConstruct_spec h hsrc, ?_⟩
          rw [List.map_append, List.map_set]
          rfl
  | copyAssign dst src =>
      rw [step, left, List.getElem?_map]
      cases hsrc : objects[src]? with
      | none =>
          rw [h.keys_none hsrc]
          refine ⟨s, objects, ?_, h, rfl⟩
          cases s.keys[dst]? <;> rfl
      | some other =>
          rw [Store.keys_getElem? h hsrc]
          cases hdst : objects[dst]? with
          | none =>
              rw [h.keys_none hdst]
              refine ⟨s, objects, rfl, h, ?_⟩
              exact (List.set_eq_of_length_le
                (by rw [List.length_map]; exact List.getElem?_eq_none_iff.mp hdst)).symm
          | some self =>
              rw [Store.keys_getElem? h hdst]
              obtain ⟨s', made, hstep, h'⟩ := Store.copyAssign_spec h hdst hsrc
              refine ⟨s', _, hstep, h', ?_⟩
              rw [List.map_set]
              rfl
  | moveAssign dst src =>
      have hleft : left (objects.map Prod.snd) (.moveAssign dst src) =
          after (objects.map Prod.snd) (.moveAssign dst src) := rfl
      rw [hleft, step, after, List.getElem?_map, List.getElem?_map]
      cases hdst : objects[dst]? with
      | none =>
          rw [h.keys_none hdst]
          exact ⟨s, objects, rfl, h, rfl⟩
      | some self =>
          rw [Store.keys_getElem? h hdst]
          cases hsrc : objects[src]? with
          | none =>
              rw [h.keys_none hsrc]
              exact ⟨s, objects, rfl, h, rfl⟩
          | some other =>
              rw [Store.keys_getElem? h hsrc]
              obtain ⟨s', made, rest, hstep, h'⟩ := Store.moveAssign_spec h hdst hsrc
              refine ⟨s', _, hstep, h', ?_⟩
              rw [List.map_set, List.map_set]
              rfl
  | tryParse target text =>
      have hleft : left (objects.map Prod.snd) (.tryParse target text) =
          after (objects.map Prod.snd) (.tryParse target text) := rfl
      rw [hleft, step, after]
      cases hget : objects[target]? with
      | none =>
          rw [h.keys_none hget]
          refine ⟨s, objects, rfl, h, ?_⟩
          have hle : (objects.map Prod.snd).length ≤ target := by
            rw [List.length_map]
            exact List.getElem?_eq_none_iff.mp hget
          cases unhex text with
          | error e => rfl
          | ok bytes => exact (List.set_eq_of_length_le hle).symm
      | some object =>
          rw [Store.keys_getElem? h hget]
          have hlt : target < (objects.map Prod.snd).length := by
            rw [List.length_map]
            exact (List.getElem?_eq_some_iff.mp hget).1
          obtain ⟨bytes, hunhex⟩ := (unhex_ok_iff text).mpr (heven hlt)
          obtain ⟨s', made, hstep, h'⟩ := Store.tryParse_spec h hget hunhex
          refine ⟨s', _, hstep, h', ?_⟩
          rw [hunhex, List.map_set]
  | destroy i =>
      obtain ⟨s', hstep, h'⟩ := Store.destroy_spec h i
      exact ⟨s', _, hstep, h', (List.eraseIdx_map _ _ _).symm⟩

/-- A text of odd length is read past its end. -/
theorem Op.step_odd {s : Store} (h : Keeps s objects) (op : Op)
    (hodd : ¬ op.Even (objects.map Prod.snd)) (s' : Store) : op.step s ≠ .ok s' := by
  cases op with
  | tryParse target text =>
      obtain ⟨hlt, hnot⟩ := Classical.not_imp.mp hodd
      rw [List.length_map] at hlt
      obtain ⟨object, hget⟩ : ∃ object, objects[target]? = some object :=
        ⟨_, List.getElem?_eq_getElem hlt⟩
      rw [step, Store.keys_getElem? h hget]
      intro hok
      obtain ⟨reset, hreset, hok⟩ := Exec.bind_eq_ok.mp hok
      obtain ⟨bytes, hunhex, hok⟩ := Exec.bind_eq_ok.mp hok
      exact hnot ((unhex_ok_iff text).mp ⟨bytes, hunhex⟩)
  | _ => exact absurd trivial hodd

/-! ## Runs -/

/-- The reference shows what the code shows exactly when texts are even, and no key
is copied to itself. -/
theorem Op.exact :
    Exact (fun s values => ∃ objects, Keeps s objects ∧ objects.map Prod.snd = values) Op.call
      Op.answer (fun _ _ => True) (fun values op => op.Even values ∧ op.Apart values) where
  agree := by
    intro s values op hsim _ hmeets
    obtain ⟨objects, h, rfl⟩ := hsim
    obtain ⟨s', objects', hstep, h', hvalues⟩ := Op.step_spec h op hmeets.1
    rw [(Op.left_eq_after_iff _ _).mpr hmeets.2] at hvalues
    refine ⟨s', ?_, objects', h', hvalues⟩
    rw [Op.call, hstep, Exec.ok_bind, h'.mapM_bytes, hvalues]
    rfl
  differ := by
    intro s values op hsim _ hmeets s' hcall
    obtain ⟨objects, h, rfl⟩ := hsim
    obtain ⟨s₁, hstep₁, hcall⟩ := Exec.bind_eq_ok.mp hcall
    by_cases heven : op.Even (objects.map Prod.snd)
    · obtain ⟨s₂, objects', hstep, h', hvalues⟩ := Op.step_spec h op heven
      cases hstep₁.symm.trans hstep
      rw [h'.mapM_bytes, hvalues] at hcall
      have hshown : op.left (objects.map Prod.snd) = op.after (objects.map Prod.snd) :=
        congrArg Prod.fst (Except.ok.inj hcall)
      exact hmeets ⟨heven, (Op.left_eq_after_iff _ _).mp hshown⟩
    · exact Op.step_odd h op heven s₁ hstep₁

/-- The values of the keys are those of byte strings all along a run exactly when no
text of odd length is parsed, and no key is copied to itself. -/
theorem run_values_iff (ops : List Op) :
    run Op.call ⟨⟨[]⟩, []⟩ ops = .ok (refRun Op.answer [] ops) ↔
      Along Op.answer (fun values op => op.Even values ∧ op.Apart values) [] ops :=
  Op.exact.run_iff_along ops ⟨[], .empty, rfl⟩ (Along.of_forall (fun _ _ => trivial) [] ops)

/-- Every buffer has one key, and every key has a buffer for its bytes. -/
structure Store.Owned (s : Store) : Prop where
  single : (s.keys.filterMap Object.data).Nodup
  owned : ∀ p, (s.heap.find p).isSome = true ↔ p ∈ s.keys.filterMap Object.data
  sized : ∀ key ∈ s.keys, ∃ bytes, key.bytes s.heap = .ok bytes ∧ bytes.length = key.size

theorem Keeps.owned {s : Store} (h : Keeps s objects) : s.Owned := by
  have howners : s.keys.filterMap Object.data = owners Object.data objects := by
    rw [h.keys, List.filterMap_map]
    rfl
  refine ⟨howners ▸ h.holding.single, fun p => howners ▸ h.holding.owned p, fun key hmem => ?_⟩
  rw [h.keys] at hmem
  obtain ⟨object, hobject, rfl⟩ := List.mem_map.mp hmem
  obtain ⟨i, hi⟩ := List.getElem?_of_mem hobject
  exact ⟨object.2, bytes_eq h.holding hi, (h.holding.valued object hobject).1.symm⟩

theorem owned_iff_of_keeps (ops : List Op) : ∀ {s : Store} {objects : List (Object × Bytes)},
    Keeps s objects → ((∃ s', ops.foldlM Op.step s = .ok s' ∧ s'.Owned) ↔
      Along (silent Op.left) Op.Even (objects.map Prod.snd) ops) := by
  induction ops with
  | nil => exact fun h => iff_of_true ⟨_, rfl, h.owned⟩ trivial
  | cons op ops ih =>
      intro s objects h
      rw [List.foldlM_cons, Along]
      by_cases heven : op.Even (objects.map Prod.snd)
      · obtain ⟨s', objects', hstep, h', hvalues⟩ := Op.step_spec h op heven
        rw [hstep, Exec.ok_bind, ih h', hvalues, and_iff_right heven]
        rfl
      · refine iff_of_false ?_ fun halong => heven halong.1
        rintro ⟨s', hrun, -⟩
        obtain ⟨s₁, hstep, -⟩ := Exec.bind_eq_ok.mp hrun
        exact Op.step_odd h op heven s₁ hstep

/-- A run comes to its end with one key for every buffer exactly when no text of odd
length is parsed.  So no operation releases a buffer twice, uses it after that, or
loses it, and none reads or writes behind its end. -/
theorem run_owned_iff (ops : List Op) :
    (∃ s, ops.foldlM Op.step ⟨⟨[]⟩, []⟩ = .ok s ∧ s.Owned) ↔
      Along (silent Op.left) Op.Even [] ops :=
  owned_iff_of_keeps ops .empty

/-- A key that is copied to itself. -/
example :
    run Op.call ⟨⟨[]⟩, []⟩ [.construct [1, 2], .copyAssign 0 0] =
      .ok [[[1, 2]], [[0, 0]]] := by decide

end Key

end Tactmon
