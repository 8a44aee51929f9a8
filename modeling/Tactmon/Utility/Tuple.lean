import Mathlib.Algebra.Order.Ring.Nat
import Mathlib.Data.List.Perm.Basic
import Mathlib.Data.List.Nodup

/-!
# Tuples sorted by alignment

`utility::tuple` of `utility/Tuple.hpp`.  Its bases are one leaf per element, in
an order that `mp_sort` decides.  A leaf knows its place in that order and the
place of its element in the tuple, and everything finds a leaf by the second
through overload resolution: a function is called with the whole tuple, and its
parameter is deduced from the only base that has the place asked for.  `none`
is a call that does not compile.

What a call does to the element matters too.  A leaf that is a parameter is
moved or copied into it, and `select_impl_` is called with a tuple that has a
name, so `get` needs a leaf that can be copied.  `tuple_element` asks for the
type of a call that returns the element, and such a call drops the qualifiers
of anything that is not of a class.

An array cannot be initialised from a value, so no element is one.
-/

namespace Tactmon

namespace Utility

/-! ## Types -/

/-- How an object of a type is made from another: from any, from one that is
`const` or given up, from one that is given up, or not at all. -/
inductive Transfer where
  | copied
  | constCopied
  | moved
  | pinned
deriving DecidableEq, Repr

/-- An argument that has a name and can be changed, or one that is given up. -/
inductive Category where
  | lvalue
  | rvalue
deriving DecidableEq, Repr

/-- What the tuple uses of an element type. -/
class ElementType (τ : Type) where
  transfer : τ → Transfer
  /-- The type of a call of a function that returns it. -/
  returned : τ → τ

export ElementType (transfer returned)

/-- `std::is_constructible_v`, of an element from its like. -/
def isConstructible {τ : Type} [ElementType τ] (t : τ) : Category → Bool
  | .lvalue => transfer t = .copied
  | .rvalue => transfer t ≠ .pinned

/-- A leaf with the element can be copied. -/
def isCopyable {τ : Type} [ElementType τ] (t : τ) : Bool :=
  transfer t = .copied || transfer t = .constCopied

/-- An element type.  The sort looks at the alignment. -/
structure Ty where
  name : String
  alignment : Nat
  isClass : Bool
  /-- It is `const` or `volatile`. -/
  qualified : Bool
  transfer : Transfer
deriving DecidableEq, Repr

instance : ElementType Ty where
  transfer t := t.transfer
  returned t := if t.isClass then t else { t with qualified := false }

/-- A tuple is a class, and is copied or moved as its elements are, but from a
tuple that can be changed it makes an element. -/
instance : ElementType (List Ty) where
  transfer ts :=
    if ts.all isCopyable then .constCopied
    else if ts.any fun t => t.transfer = .pinned then .pinned
    else .moved
  returned ts := ts

/-- The element can be made from such an argument and read again: its leaf can
be copied, and a function can return it as it is. -/
structure Ty.Readable (k : Category) (t : Ty) : Prop where
  constructible : isConstructible t k = true
  copyable : isCopyable t = true
  returnable : t.isClass = true ∨ t.qualified = false

/-! ## Packs -/

section Packs

variable {α β : Type}

/-- A pack expansion, which compiles if each of its elements does. -/
def expand : List (Option α) → Option (List α)
  | [] => some []
  | x :: xs => do
      let a ← x
      let as ← expand xs
      some (a :: as)

/-- Overload resolution, which wants one candidate. -/
def only (p : α → Bool) (xs : List α) : Option α :=
  match xs.filter p with
  | [x] => some x
  | _ => none

end Packs

/-! ## The storage -/

/-- `indexed<I, T>`. -/
structure Indexed (τ : Type) where
  index : Nat
  ty : τ

/-- `tuple_leaf<Internal, Interface, T>`. -/
structure Leaf (τ : Type) where
  internal : Nat
  interface : Nat
  ty : τ

/-- `mp_sort`, of which nothing is known but that it permutes. -/
structure Sorting (τ : Type) where
  sort : List (Indexed τ) → List (Indexed τ)
  perm : ∀ xs, (sort xs).Perm xs

/-- A tuple as it is stored: its leaves in their order, with their values. -/
abbrev Object (τ V : Type) := List (Leaf τ × V)

section Storage

variable {τ V : Type}

/-- `indexed_types`. -/
def indexedTypes (ts : List τ) : List (Indexed τ) := ts.zipIdx.map fun t => ⟨t.2, t.1⟩

/-- The bases of `make_tuple_storage`, by `indexed_sort`. -/
def makeTupleStorage (S : Sorting τ) (ts : List τ) : List (Leaf τ) :=
  (S.sort (indexedTypes ts)).zipIdx.map fun x => ⟨x.2, x.1.index, x.1.ty⟩

variable [ElementType τ]

/-- `leaf_for_front`, which moves the leaf into a parameter. -/
def leafForFront (storage : List (Leaf τ)) (i : Nat) : Option (Leaf τ) := do
  let leaf ← only (fun leaf => leaf.interface = i) storage
  if transfer leaf.ty = .pinned then none else some leaf

/-- `tuple_leaf(U&&)` of the leaf for the front-facing index of an argument. -/
def initialiser (storage : List (Leaf τ)) (k : Category) (arg : V × Nat) :
    Option (Leaf τ × V) := do
  let leaf ← leafForFront storage arg.2
  if isConstructible leaf.ty k then some (leaf, arg.1) else none

/-- The constructor.  The storage is initialised leaf by leaf, each from the
argument whose place it has, or by default. -/
def construct (S : Sorting τ) (initial : τ → V) (k : Category) (ts : List τ) (args : List V) :
    Option (Object τ V) := do
  let inits ← expand (args.zipIdx.map (initialiser (makeTupleStorage S ts) k))
  some ((makeTupleStorage S ts).map fun leaf =>
    (leaf, match inits.find? fun init => init.1.internal = leaf.internal with
      | some init => init.2
      | none => initial leaf.ty))

/-- `get<I>`.  The leaf is found by a call that copies it. -/
def get (i : Nat) (tpl : Object τ V) : Option V := do
  let x ← only (fun x => x.1.interface = i) tpl
  if isCopyable x.1.ty then some x.2 else none

/-- `tuple_element_t<I>`: the type of a call that returns the element. -/
def tupleElement (S : Sorting τ) (i : Nat) (ts : List τ) : Option τ := do
  let leaf ← only (fun leaf => leaf.interface = i) (makeTupleStorage S ts)
  if transfer leaf.ty = .pinned then none else some (returned leaf.ty)

end Storage

/-! ## What is asked of a tuple -/

/-- The types and values a tuple is made from. -/
structure Contents (V : Type) where
  types : List Ty
  values : List V
  length_eq : values.length = types.length

variable {V : Type}

/-- Every place of the tuple has its value and its type. -/
def Contents.Accessible (S : Sorting Ty) (initial : Ty → V) (k : Category) (c : Contents V) :
    Prop :=
  ∃ tpl, construct S initial k c.types c.values = some tpl ∧
    ∀ i, get i tpl = c.values[i]? ∧ tupleElement S i c.types = c.types[i]?

/-! ## Overload resolution -/

section Packs

variable {α β : Type}

/-- An expansion compiles if each of its elements does, and has these. -/
theorem expand_map {f : α → Option β} {xs : List α} (h : ∀ x ∈ xs, ∃ b, f x = some b) :
    ∃ ys, expand (xs.map f) = some ys ∧ ∀ y, y ∈ ys ↔ ∃ x ∈ xs, f x = some y := by
  induction xs with
  | nil => exact ⟨[], rfl, by simp⟩
  | cons x xs ih =>
      rw [List.forall_mem_cons] at h
      obtain ⟨⟨b, hb⟩, hxs⟩ := h
      obtain ⟨ys, hys, hmem⟩ := ih hxs
      refine ⟨b :: ys, ?_, fun y => ?_⟩
      · rw [List.map_cons, expand, hb, hys]
        rfl
      · simp [hmem, hb, eq_comm]

/-- An expansion compiles only if each of its elements does. -/
theorem expand_eq_some {xs : List (Option α)} :
    ∀ {ys : List α}, expand xs = some ys → xs = ys.map some := by
  induction xs with
  | nil =>
      intro ys h
      cases h
      rfl
  | cons x xs ih =>
      intro ys h
      obtain ⟨a, rfl, h⟩ := Option.bind_eq_some_iff.mp h
      obtain ⟨as, has, h⟩ := Option.bind_eq_some_iff.mp h
      cases h
      rw [ih has, List.map_cons]

/-- Among candidates with different places, the one with this place. -/
theorem only_of_nodup {f : α → Nat} {xs : List α} (h : (xs.map f).Nodup) {x : α} (hx : x ∈ xs) :
    only (fun y => f y = f x) xs = some x := by
  have hfilter : xs.filter (fun y => f y = f x) = [x] := by
    induction xs with
    | nil => exact absurd hx List.not_mem_nil
    | cons y ys ih =>
        rw [List.map_cons, List.nodup_cons] at h
        cases List.mem_cons.mp hx with
        | inl heq =>
            subst heq
            have hnone : ys.filter (fun y => f y = f x) = [] := by
              simp only [List.filter_eq_nil_iff, decide_eq_true_eq]
              exact fun y hy hfy => h.1 (hfy ▸ List.mem_map_of_mem hy)
            simp [hnone]
        | inr hmem =>
            have hne : f y ≠ f x := fun hfy => h.1 (hfy ▸ List.mem_map_of_mem hmem)
            simp [hne, ih h.2 hmem]
  rw [only, hfilter]

theorem only_eq_some {p : α → Bool} {xs : List α} {x : α} (h : only p xs = some x) :
    x ∈ xs ∧ p x = true := by
  rw [only] at h
  split at h
  · next y hy =>
      cases h
      exact List.mem_filter.mp (hy ▸ List.mem_singleton_self x)
  · cases h

theorem only_of_ne {f : α → Nat} {xs : List α} {i : Nat} (h : ∀ x ∈ xs, f x ≠ i) :
    only (fun y => f y = i) xs = none := by
  have hfilter : xs.filter (fun y => f y = i) = [] := by
    simpa only [List.filter_eq_nil_iff, decide_eq_true_eq] using h
  rw [only, hfilter]

end Packs

/-! ## The leaves -/

section Storage

variable {τ V : Type} {S : Sorting τ} {ts : List τ}

theorem indexedTypes_index (ts : List τ) :
    (indexedTypes ts).map Indexed.index = List.range ts.length := by
  rw [indexedTypes, List.map_map, List.range_eq_range']
  exact List.zipIdx_map_snd 0 ts

theorem mem_indexedTypes {x : Indexed τ} : x ∈ indexedTypes ts ↔ ts[x.index]? = some x.ty := by
  rw [indexedTypes, List.mem_map]
  constructor
  · rintro ⟨t, ht, rfl⟩
    exact List.mem_zipIdx_iff_getElem?.mp ht
  · intro h
    exact ⟨(x.ty, x.index), List.mem_zipIdx_iff_getElem?.mpr h, rfl⟩

/-- However it is sorted, each place of the tuple has one leaf. -/
theorem storage_interface (S : Sorting τ) (ts : List τ) :
    ((makeTupleStorage S ts).map Leaf.interface).Perm (List.range ts.length) := by
  have hmap : (makeTupleStorage S ts).map Leaf.interface =
      (S.sort (indexedTypes ts)).map Indexed.index := by
    rw [makeTupleStorage, List.map_map]
    show (S.sort (indexedTypes ts)).zipIdx.map (Indexed.index ∘ Prod.fst) = _
    rw [← List.map_map, List.zipIdx_map_fst]
  rw [hmap, ← indexedTypes_index]
  exact (S.perm _).map _

theorem storage_nodup (S : Sorting τ) (ts : List τ) :
    ((makeTupleStorage S ts).map Leaf.interface).Nodup :=
  (storage_interface S ts).nodup_iff.mpr List.nodup_range

theorem storage_internal (S : Sorting τ) (ts : List τ) :
    ((makeTupleStorage S ts).map Leaf.internal).Nodup := by
  have hmap : (makeTupleStorage S ts).map Leaf.internal =
      List.range' 0 (S.sort (indexedTypes ts)).length := by
    rw [makeTupleStorage, List.map_map]
    exact List.zipIdx_map_snd 0 _
  rw [hmap]
  exact List.nodup_range'

/-- A leaf has the type of its place. -/
theorem getElem?_of_mem_storage {leaf : Leaf τ} (h : leaf ∈ makeTupleStorage S ts) :
    ts[leaf.interface]? = some leaf.ty := by
  obtain ⟨⟨x, o⟩, hx, rfl⟩ := List.mem_map.mp h
  have hsort : x ∈ S.sort (indexedTypes ts) := List.fst_mem_of_mem_zipIdx hx
  exact mem_indexedTypes.mp ((S.perm _).mem_iff.mp hsort)

theorem exists_leaf (S : Sorting τ) {i : Nat} (h : i < ts.length) :
    ∃ leaf ∈ makeTupleStorage S ts, leaf.interface = i :=
  List.mem_map.mp ((storage_interface S ts).mem_iff.mpr (List.mem_range.mpr h))

theorem interface_lt {leaf : Leaf τ} (h : leaf ∈ makeTupleStorage S ts) :
    leaf.interface < ts.length :=
  (List.getElem?_eq_some_iff.mp (getElem?_of_mem_storage h)).1

theorem getElem?_of_mem {tpl : Object τ V} (htpl : tpl.map Prod.fst = makeTupleStorage S ts)
    {x : Leaf τ × V} (hx : x ∈ tpl) : ts[x.1.interface]? = some x.1.ty :=
  getElem?_of_mem_storage (htpl ▸ List.mem_map_of_mem hx)

/-! ## Construction and access -/

variable [ElementType τ] {initial : τ → V} {k : Category} {args : List V} {tpl : Object τ V}

theorem ne_pinned_of_isConstructible {t : τ} (h : isConstructible t k = true) :
    transfer t ≠ .pinned := by
  cases k with
  | lvalue => simp_all [isConstructible]
  | rvalue => simpa [isConstructible] using h

theorem isConstructible_of_copied {t : τ} (h : transfer t = .copied) :
    isConstructible t k = true := by
  cases k with
  | lvalue => simp [isConstructible, h]
  | rvalue => simp [isConstructible, h]

theorem isCopyable_of_copied {t : τ} (h : transfer t = .copied) : isCopyable t = true := by
  simp [isCopyable, h]

theorem ne_pinned_of_isCopyable {t : τ} (h : isCopyable t = true) : transfer t ≠ .pinned := by
  intro hpinned
  simp [isCopyable, hpinned] at h

theorem leafForFront_eq {leaf : Leaf τ} (h : leaf ∈ makeTupleStorage S ts)
    (hmoved : transfer leaf.ty ≠ .pinned) :
    leafForFront (makeTupleStorage S ts) leaf.interface = some leaf := by
  rw [leafForFront, only_of_nodup (storage_nodup S ts) h]
  exact if_neg hmoved

theorem leafForFront_eq_some {i : Nat} {leaf : Leaf τ}
    (h : leafForFront (makeTupleStorage S ts) i = some leaf) :
    leaf ∈ makeTupleStorage S ts ∧ leaf.interface = i := by
  obtain ⟨x, hx, h⟩ := Option.bind_eq_some_iff.mp h
  split at h
  · cases h
  · cases h
    obtain ⟨hmem, hplace⟩ := only_eq_some hx
    exact ⟨hmem, by simpa using hplace⟩

/-- A tuple has the leaves of its storage. -/
theorem construct_leaves (h : construct S initial k ts args = some tpl) :
    tpl.map Prod.fst = makeTupleStorage S ts := by
  obtain ⟨inits, -, h⟩ := Option.bind_eq_some_iff.mp h
  cases h
  rw [List.map_map]
  exact List.map_id _

theorem initialiser_eq_some {arg : V × Nat} {init : Leaf τ × V}
    (h : initialiser (makeTupleStorage S ts) k arg = some init) :
    leafForFront (makeTupleStorage S ts) arg.2 = some init.1 ∧
      isConstructible init.1.ty k = true ∧ init.2 = arg.1 := by
  obtain ⟨leaf, hleaf, h⟩ := Option.bind_eq_some_iff.mp h
  split at h
  · next hfits =>
      cases h
      exact ⟨hleaf, hfits, rfl⟩
  · cases h

/-- Each leaf is initialised from the argument whose place it has. -/
theorem construct_eq (hfits : ∀ t ∈ ts, isConstructible t k = true)
    (hlen : args.length = ts.length) :
    ∃ tpl, construct S initial k ts args = some tpl ∧
      ∀ x ∈ tpl, args[x.1.interface]? = some x.2 := by
  have hinit : ∀ leaf ∈ makeTupleStorage S ts, ∀ arg : V,
      initialiser (makeTupleStorage S ts) k (arg, leaf.interface) = some (leaf, arg) := by
    intro leaf h arg
    have hfit := hfits _ (List.mem_of_getElem? (getElem?_of_mem_storage h))
    rw [initialiser, leafForFront_eq h (ne_pinned_of_isConstructible hfit)]
    exact if_pos hfit
  have hcompiles : ∀ arg ∈ args.zipIdx, ∃ init,
      initialiser (makeTupleStorage S ts) k arg = some init := by
    rintro ⟨arg, i⟩ harg
    have hlt : i < args.length := List.snd_lt_of_mem_zipIdx harg
    obtain ⟨leaf, hleaf, rfl⟩ := exists_leaf S (hlen ▸ hlt)
    exact ⟨(leaf, arg), hinit leaf hleaf arg⟩
  obtain ⟨inits, hinits, hmem⟩ := expand_map hcompiles
  refine ⟨_, by rw [construct, hinits]; rfl, ?_⟩
  rw [List.forall_mem_map]
  intro leaf hleaf
  have hlt : leaf.interface < args.length := hlen ▸ interface_lt hleaf
  -- the leaf has an initialiser, and every initialiser of it is for its place
  have hhas : (leaf, args[leaf.interface]) ∈ inits :=
    (hmem _).mpr ⟨(args[leaf.interface], leaf.interface),
      List.mem_zipIdx_iff_getElem?.mpr (List.getElem?_eq_getElem hlt), hinit leaf hleaf _⟩
  have hplace : ∀ init ∈ inits, init.1.internal = leaf.internal →
      args[leaf.interface]? = some init.2 := by
    intro init hmember heq
    obtain ⟨arg, harg, hsome⟩ := (hmem init).mp hmember
    obtain ⟨hleaf', -, hvalue⟩ := initialiser_eq_some hsome
    obtain ⟨hstored, hindex⟩ := leafForFront_eq_some hleaf'
    have hsame := List.inj_on_of_nodup_map (storage_internal S ts) hstored hleaf heq
    rw [← hsame, hindex, hvalue]
    exact List.mem_zipIdx_iff_getElem?.mp harg
  cases hfind : inits.find? (fun init => init.1.internal = leaf.internal) with
  | none => simpa using List.find?_eq_none.mp hfind _ hhas
  | some init =>
      have hfor : init.1.internal = leaf.internal := by simpa using List.find?_some hfind
      exact hplace init (List.mem_of_find?_eq_some hfind) hfor

/-- A leaf is initialised only from what its element can be made from. -/
theorem isConstructible_of_construct (h : construct S initial k ts args = some tpl)
    (hlen : args.length = ts.length) : ∀ t ∈ ts, isConstructible t k = true := by
  intro t ht
  obtain ⟨inits, hinits, -⟩ := Option.bind_eq_some_iff.mp h
  obtain ⟨i, hi, rfl⟩ := List.mem_iff_getElem.mp ht
  have hlt : i < args.length := hlen ▸ hi
  have harg : (args[i], i) ∈ args.zipIdx :=
    List.mem_zipIdx_iff_getElem?.mpr (List.getElem?_eq_getElem hlt)
  have hmem := List.mem_map_of_mem (f := initialiser (makeTupleStorage S ts) k) harg
  rw [expand_eq_some hinits, List.mem_map] at hmem
  obtain ⟨init, -, hinit⟩ := hmem
  obtain ⟨hleaf, hfits, -⟩ := initialiser_eq_some hinit.symm
  obtain ⟨hstored, hplace⟩ := leafForFront_eq_some hleaf
  have hty := getElem?_of_mem_storage hstored
  rw [hplace, List.getElem?_eq_getElem hi, Option.some.injEq] at hty
  rw [hty]
  exact hfits

theorem get_of_mem (htpl : tpl.map Prod.fst = makeTupleStorage S ts) {x : Leaf τ × V}
    (hx : x ∈ tpl) :
    get x.1.interface tpl = if isCopyable x.1.ty then some x.2 else none := by
  have hnodup : (tpl.map fun x => x.1.interface).Nodup := by
    have := storage_nodup S ts
    rwa [← htpl, List.map_map] at this
  rw [get, only_of_nodup hnodup hx]
  rfl

/-- Every place has its value. -/
theorem get_eq (htpl : tpl.map Prod.fst = makeTupleStorage S ts)
    (hvalues : ∀ x ∈ tpl, args[x.1.interface]? = some x.2) (hlen : args.length = ts.length)
    (hcopied : ∀ t ∈ ts, isCopyable t = true) (i : Nat) : get i tpl = args[i]? := by
  rcases Nat.lt_or_ge i ts.length with hlt | hge
  · obtain ⟨leaf, hleaf, rfl⟩ := exists_leaf S hlt
    obtain ⟨x, hx, rfl⟩ := List.mem_map.mp (htpl ▸ hleaf)
    have hty := hcopied _ (List.mem_of_getElem? (getElem?_of_mem htpl hx))
    rw [get_of_mem htpl hx, if_pos hty, hvalues x hx]
  · have hnone : only (fun x : Leaf τ × V => x.1.interface = i) tpl = none := by
      refine only_of_ne fun x hx => ?_
      have := interface_lt (htpl ▸ List.mem_map_of_mem hx)
      omega
    rw [get, hnone, List.getElem?_eq_none (by omega)]
    rfl

/-- Every place has its type, as a call returns it. -/
theorem tupleElement_eq (hmoved : ∀ t ∈ ts, transfer t ≠ .pinned) (i : Nat) :
    tupleElement S i ts = ts[i]?.map returned := by
  rcases Nat.lt_or_ge i ts.length with hlt | hge
  · obtain ⟨leaf, hleaf, rfl⟩ := exists_leaf S hlt
    have hty := getElem?_of_mem_storage hleaf
    rw [tupleElement, only_of_nodup (storage_nodup S ts) hleaf, hty]
    exact if_neg (hmoved _ (List.mem_of_getElem? hty))
  · have hnone : only (fun leaf : Leaf τ => leaf.interface = i) (makeTupleStorage S ts) =
        none := by
      refine only_of_ne fun leaf hleaf => ?_
      have := interface_lt hleaf
      omega
    rw [tupleElement, hnone, List.getElem?_eq_none hge]
    rfl

end Storage

/-! ## One tuple -/

theorem returned_eq_iff (t : Ty) :
    ElementType.returned t = t ↔ t.isClass = true ∨ t.qualified = false := by
  obtain ⟨name, alignment, isClass, qualified, transfer⟩ := t
  cases isClass with
  | true => exact iff_of_true rfl (.inl rfl)
  | false =>
      cases qualified with
      | false => exact iff_of_true rfl (.inr rfl)
      | true => simp [ElementType.returned]

variable {S : Sorting Ty} {S' : Sorting (List Ty)} {initial : Ty → V} {k : Category}

/-- A tuple gives its values and types back exactly when all of its types are
readable. -/
theorem Contents.accessible_iff (c : Contents V) :
    c.Accessible S initial k ↔ ∀ t ∈ c.types, t.Readable k := by
  constructor
  · rintro ⟨tpl, htpl, hplaces⟩ t ht
    have hfits := isConstructible_of_construct htpl c.length_eq t ht
    obtain ⟨i, hi, rfl⟩ := List.mem_iff_getElem.mp ht
    obtain ⟨hget, helement⟩ := hplaces i
    obtain ⟨leaf, hleaf, rfl⟩ := exists_leaf S hi
    obtain ⟨x, hx, rfl⟩ := List.mem_map.mp (construct_leaves htpl ▸ hleaf)
    have hty := getElem?_of_mem (construct_leaves htpl) hx
    rw [List.getElem?_eq_getElem hi, Option.some.injEq] at hty
    refine ⟨hfits, ?_, ?_⟩
    · rw [get_of_mem (construct_leaves htpl) hx,
        List.getElem?_eq_getElem (c.length_eq ▸ hi)] at hget
      rw [hty]
      split at hget
      · next h => exact h
      · cases hget
    · rw [tupleElement, only_of_nodup (storage_nodup S c.types) hleaf, List.getElem?_eq_getElem hi,
        hty] at helement
      obtain ⟨leaf, hsome, h⟩ := Option.bind_eq_some_iff.mp helement
      cases hsome
      rw [hty, ← returned_eq_iff]
      split at h
      · cases h
      · exact Option.some.inj h
  · intro h
    obtain ⟨tpl, htpl, hvalues⟩ :
        ∃ tpl, construct S initial k c.types c.values = some tpl ∧ _ :=
      construct_eq (fun t ht => (h t ht).constructible) c.length_eq
    have hcopied : ∀ t ∈ c.types, isCopyable t = true := fun t ht => (h t ht).copyable
    refine ⟨tpl, htpl, fun i => ⟨?_, ?_⟩⟩
    · exact get_eq (construct_leaves htpl) hvalues c.length_eq hcopied i
    · rw [tupleElement_eq fun t ht => ne_pinned_of_isCopyable (hcopied t ht)]
      cases ht : c.types[i]? with
      | none => rfl
      | some t =>
          have hreturned := (returned_eq_iff t).mpr (h t (List.mem_of_getElem? ht)).returnable
          rw [Option.map_some, hreturned]

end Utility

end Tactmon
