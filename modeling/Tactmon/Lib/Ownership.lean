import Mathlib.Data.List.Perm.Basic
import Tactmon.Lib.Memory

/-!
# Buffers with one owner

A heap has buffers at addresses, and gives no address out twice.  A load, a store
or a release at an address without a buffer is a fault, so a computation that
returns has not used or released a buffer that was released.

Objects own their buffers through a pointer that may be null.  `Holding` says that
the buffers there are belong to the objects, one to each pointer, and that every
object has its value, as `rep` reads it off the object and its buffer.  The order
of the objects does not matter, so the rules are about the first of them: they
allocate, store and release for it, and leave the others as they are.
-/

namespace Cxx

/-! ## A heap -/

/-- The buffers by address.  A released one is `none`. -/
structure Heap (α : Type) where
  cells : List (Option α)
deriving DecidableEq, Repr

namespace Heap

variable {α : Type}

/-- The buffer at an address. -/
def find (h : Heap α) (p : Nat) : Option α := h.cells[p]?.getD none

/-- A new buffer, and its address. -/
def alloc (h : Heap α) (a : α) : Nat × Heap α := (h.cells.length, ⟨h.cells ++ [some a]⟩)

def load (h : Heap α) (p : Nat) : Exec α :=
  match h.find p with
  | none => .error .outOfBounds
  | some a => .ok a

def store (h : Heap α) (p : Nat) (a : α) : Exec (Heap α) :=
  match h.find p with
  | none => .error .outOfBounds
  | some _ => .ok ⟨h.cells.set p (some a)⟩

/-- `delete[]`, which does nothing with a null pointer. -/
def release (h : Heap α) : Option Nat → Exec (Heap α)
  | none => .ok h
  | some p =>
      match h.find p with
      | none => .error .outOfBounds
      | some _ => .ok ⟨h.cells.set p none⟩

theorem find_set {h : Heap α} {p : Nat} {a : α} (hfind : h.find p = some a) (x : Option α)
    (q : Nat) : find ⟨h.cells.set p x⟩ q = if q = p then x else h.find q := by
  have hlt : p < h.cells.length := by
    by_contra hge
    rw [find, List.getElem?_eq_none (Nat.le_of_not_lt hge)] at hfind
    cases hfind
  rw [find, List.getElem?_set]
  by_cases hq : q = p
  · rw [if_pos hq.symm, if_pos hlt, if_pos hq, Option.getD_some]
  · rw [if_neg (Ne.symm hq), if_neg hq, find]

theorem find_alloc (h : Heap α) (a : α) (q : Nat) :
    (h.alloc a).2.find q = if q = (h.alloc a).1 then some a else h.find q := by
  rw [alloc, find, find, List.getElem?_append]
  by_cases hq : q = h.cells.length
  · rw [if_neg (by omega), if_pos hq, hq, Nat.sub_self]
    rfl
  · rw [if_neg hq]
    by_cases hlt : q < h.cells.length
    · rw [if_pos hlt]
    · rw [if_neg hlt, List.getElem?_eq_none (by rw [List.length_singleton]; omega),
        List.getElem?_eq_none (Nat.le_of_not_lt hlt)]

/-- A new address has no buffer. -/
theorem find_fresh (h : Heap α) (a : α) : h.find (h.alloc a).1 = none := by
  rw [alloc, find, List.getElem?_eq_none (Nat.le_refl _)]
  rfl

end Heap

/-! ## Owners -/

section Holding

variable {α O V : Type} (ptr : O → Option Nat) (rep : O → V → Option α → Prop)

/-- The pointers that are not null. -/
def owners (objects : List (O × V)) : List Nat := objects.filterMap fun object => ptr object.1

/-- Every buffer has one owner, and every object has its value. -/
structure Holding (h : Heap α) (objects : List (O × V)) : Prop where
  single : (owners ptr objects).Nodup
  /-- No buffer without an owner, and no pointer without its buffer. -/
  owned : ∀ p, (h.find p).isSome = true ↔ p ∈ owners ptr objects
  valued : ∀ object ∈ objects, rep object.1 object.2 ((ptr object.1).bind h.find)

variable {ptr : O → Option Nat} {rep : O → V → Option α → Prop}

theorem owners_cons_none {o : O} {v : V} {objects : List (O × V)} (h : ptr o = none) :
    owners ptr ((o, v) :: objects) = owners ptr objects :=
  List.filterMap_cons_none h

theorem owners_cons_some {o : O} {v : V} {objects : List (O × V)} {p : Nat} (h : ptr o = some p) :
    owners ptr ((o, v) :: objects) = p :: owners ptr objects :=
  List.filterMap_cons_some h

theorem mem_owners {objects : List (O × V)} {object : O × V} {p : Nat} (hmem : object ∈ objects)
    (h : ptr object.1 = some p) : p ∈ owners ptr objects :=
  List.mem_filterMap.mpr ⟨object, hmem, h⟩

namespace Holding

variable {h h' : Heap α} {o : O} {v : V} {objects others : List (O × V)} {p : Nat}

/-- Nothing is owned of a heap that has never been used. -/
theorem empty : Holding ptr rep ⟨[]⟩ [] where
  single := List.nodup_nil
  owned p := by simp [Heap.find, owners]
  valued object hmem := absurd hmem List.not_mem_nil

/-- The order of the objects does not matter. -/
theorem perm (hold : Holding ptr rep h objects) (hperm : objects.Perm others) :
    Holding ptr rep h others where
  single := (hperm.filterMap _).nodup_iff.mp hold.single
  owned p := (hold.owned p).trans (hperm.filterMap _).mem_iff
  valued object hmem := hold.valued object (hperm.mem_iff.mpr hmem)

/-- The values of objects that own none of the changed buffers. -/
theorem valued_of_frame
    (hold : ∀ object ∈ objects, rep object.1 object.2 ((ptr object.1).bind h.find))
    (hframe : ∀ q ∈ owners ptr objects, h'.find q = h.find q) :
    ∀ object ∈ objects, rep object.1 object.2 ((ptr object.1).bind h'.find) := by
  intro object hmem
  have hrep := hold object hmem
  cases hptr : ptr object.1 with
  | none => rwa [hptr] at hrep
  | some q =>
      rw [hptr, Option.bind_some] at hrep
      rwa [Option.bind_some, hframe q (mem_owners hmem hptr)]

/-- An object without a buffer. -/
theorem null (hold : Holding ptr rep h objects) (hptr : ptr o = none) (hrep : rep o v none) :
    Holding ptr rep h ((o, v) :: objects) where
  single := by
    rw [owners_cons_none hptr]
    exact hold.single
  owned p := by
    rw [owners_cons_none hptr]
    exact hold.owned p
  valued := by
    refine List.forall_mem_cons.mpr ⟨?_, hold.valued⟩
    rwa [hptr]

/-- A new buffer for a new object. -/
theorem alloc (hold : Holding ptr rep h objects) {a : α} (hptr : ptr o = some (h.alloc a).1)
    (hrep : rep o v (some a)) : Holding ptr rep (h.alloc a).2 ((o, v) :: objects) := by
  have hfresh : (h.alloc a).1 ∉ owners ptr objects := by
    rw [← hold.owned, h.find_fresh]
    exact Bool.false_ne_true
  constructor
  · rw [owners_cons_some hptr]
    exact List.nodup_cons.mpr ⟨hfresh, hold.single⟩
  · intro p
    rw [owners_cons_some hptr, List.mem_cons, h.find_alloc, ← hold.owned]
    by_cases hp : p = (h.alloc a).1
    · rw [if_pos hp, eq_true hp, true_or]
      exact iff_of_true rfl trivial
    · rw [if_neg hp, eq_false hp, false_or]
  · refine List.forall_mem_cons.mpr ⟨?_, valued_of_frame hold.valued fun q hq => ?_⟩
    · rwa [hptr, Option.bind_some, h.find_alloc, if_pos rfl]
    · rw [h.find_alloc, if_neg (fun he : q = (h.alloc a).1 => hfresh (he ▸ hq))]

/-- The value of an object. -/
theorem head (hold : Holding ptr rep h ((o, v) :: objects)) : rep o v ((ptr o).bind h.find) :=
  hold.valued (o, v) List.mem_cons_self

/-- The pointer of the first object is not that of another. -/
theorem not_mem (hold : Holding ptr rep h ((o, v) :: objects)) (hptr : ptr o = some p) :
    p ∉ owners ptr objects := by
  have hsingle := hold.single
  rw [owners_cons_some hptr] at hsingle
  exact (List.nodup_cons.mp hsingle).1

/-- A pointer of an object has a buffer. -/
theorem find_ptr (hold : Holding ptr rep h ((o, v) :: objects)) (hptr : ptr o = some p) :
    ∃ a, h.find p = some a := by
  refine Option.isSome_iff_exists.mp ((hold.owned p).mpr ?_)
  rw [owners_cons_some hptr]
  exact List.mem_cons_self

/-- The buffer goes to another object, with another value. -/
theorem transfer (hold : Holding ptr rep h ((o, v) :: objects)) {o' : O} {v' : V}
    (hptr : ptr o' = ptr o)
    (hrep : rep o v ((ptr o).bind h.find) → rep o' v' ((ptr o).bind h.find)) :
    Holding ptr rep h ((o', v') :: objects) := by
  have howners : owners ptr ((o', v') :: objects) = owners ptr ((o, v) :: objects) := by
    rw [owners, List.filterMap_cons, hptr, owners, List.filterMap_cons]
  constructor
  · rw [howners]
    exact hold.single
  · intro p
    rw [howners]
    exact hold.owned p
  · refine List.forall_mem_cons.mpr ⟨?_, (List.forall_mem_cons.mp hold.valued).2⟩
    rw [hptr]
    exact hrep hold.head

/-- A store through the pointer of an object changes its value alone. -/
theorem store (hold : Holding ptr rep h ((o, v) :: objects)) (hptr : ptr o = some p) {a : α}
    {v' : V} (hrep : rep o v' (some a)) :
    ∃ h', h.store p a = .ok h' ∧ Holding ptr rep h' ((o, v') :: objects) := by
  obtain ⟨old, hfind⟩ := hold.find_ptr hptr
  have hset := Heap.find_set hfind (some a)
  refine ⟨⟨h.cells.set p (some a)⟩, by rw [Heap.store, hfind], ?_, fun q => ?_, ?_⟩
  · have hsingle := hold.single
    rw [owners_cons_some hptr] at hsingle ⊢
    exact hsingle
  · have howned := hold.owned q
    rw [owners_cons_some hptr] at howned ⊢
    rw [hset, ← howned]
    by_cases hq : q = p
    · rw [if_pos hq, hq, hfind]
      exact Iff.rfl
    · rw [if_neg hq]
  · refine List.forall_mem_cons.mpr
      ⟨?_, valued_of_frame (List.forall_mem_cons.mp hold.valued).2 fun q hq => ?_⟩
    · rwa [hptr, Option.bind_some, hset, if_pos rfl]
    · rw [hset, if_neg (fun he : q = p => hold.not_mem hptr (he ▸ hq))]

/-- The buffer of an object is released, and the object is gone. -/
theorem release (hold : Holding ptr rep h ((o, v) :: objects)) :
    ∃ h', h.release (ptr o) = .ok h' ∧ Holding ptr rep h' objects := by
  cases hptr : ptr o with
  | none =>
      refine ⟨h, rfl, ?_, fun q => ?_, (List.forall_mem_cons.mp hold.valued).2⟩
      · have hsingle := hold.single
        rwa [owners_cons_none hptr] at hsingle
      · have howned := hold.owned q
        rwa [owners_cons_none hptr] at howned
  | some p =>
      obtain ⟨old, hfind⟩ := hold.find_ptr hptr
      have hset := Heap.find_set hfind none
      refine ⟨⟨h.cells.set p none⟩, by rw [Heap.release, hfind], ?_, fun q => ?_, ?_⟩
      · have hsingle := hold.single
        rw [owners_cons_some hptr] at hsingle
        exact (List.nodup_cons.mp hsingle).2
      · have howned := hold.owned q
        rw [owners_cons_some hptr, List.mem_cons] at howned
        rw [hset]
        by_cases hq : q = p
        · rw [if_pos hq, hq]
          exact iff_of_false Bool.false_ne_true (hold.not_mem hptr)
        · rwa [if_neg hq, howned, or_iff_right]
      · refine valued_of_frame (List.forall_mem_cons.mp hold.valued).2 fun q hq => ?_
        rw [hset, if_neg (fun he : q = p => hold.not_mem hptr (he ▸ hq))]

end Holding

end Holding

end Cxx
