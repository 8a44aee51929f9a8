import Tactmon.Utility.Tuple

/-!
# Joining tuples

`tuple_cat` of `utility/Tuple.hpp`.  A table says for each element of the result
which tuple it is in and where, and the element is picked from a tuple of all
tuples by the two of them.  The table is a pair of loops, and it goes through
the tuples in turn (`tupleCatIndexGen_zero`).

What is picked is an element that has a name and can be changed.  So the tuples
can be joined when their elements can be made from such, and only then
(`concatenates_iff`).  A tuple is itself an element that cannot: its constructor
template takes a tuple that can be changed to be its first element.

A tuple that has been made has an argument for each element, so none of them is
pinned, and the types can be picked whether or not the values can.
-/

namespace Tactmon

namespace Utility

/-! ## Concatenation -/

/-- The inner loop of `tuple_cat_index_gen`, which has come to `j`. -/
def catRow (i : Nat) : Nat → Nat → List (Nat × Nat)
  | 0, _ => []
  | turns + 1, j => (i, j) :: catRow i turns (j + 1)

/-- `tuple_cat_index_gen`: for each element of the result, which tuple it is in
and where. -/
def tupleCatIndexGen : Nat → List Nat → List (Nat × Nat)
  | _, [] => []
  | i, size :: sizes => catRow i size 0 ++ tupleCatIndexGen (i + 1) sizes

/-- A tuple with its type. -/
structure Tuple (V : Type) where
  types : List Ty
  object : Object Ty V

/-- `tuple_cat_impl`, which puts the tuples into one tuple and picks from that.
The tuples are given up to it, but it refers to what it picks. -/
def tupleCatImpl {V : Type} (S : Sorting Ty) (S' : Sorting (List Ty)) (initial : Ty → V)
    (tuples : List (Tuple V)) : Option (Tuple V) := do
  let types := tuples.map Tuple.types
  let table := tupleCatIndexGen 0 (types.map List.length)
  let ts ← construct S' (fun _ => []) .rvalue types (tuples.map Tuple.object)
  let elements ← expand (table.map fun p => do
    let inner ← tupleElement S' p.1 types
    tupleElement S p.2 inner)
  let values ← expand (table.map fun p => do
    let inner ← get p.1 ts
    get p.2 inner)
  let object ← construct S initial .lvalue elements values
  some ⟨elements, object⟩

/-- `tuple_cat`. -/
def tupleCat {V : Type} (S : Sorting Ty) (S' : Sorting (List Ty)) (initial : Ty → V)
    (tuples : List (Tuple V)) : Option (Tuple V) :=
  if (tuples.map fun t => t.types.length).sum = 0 then some ⟨[], []⟩
  else tupleCatImpl S S' initial tuples

/-! ## What is asked of a concatenation -/

section Asked

variable {V : Type}

/-- The tuple that is made from the values. -/
def Contents.tuple (S : Sorting Ty) (initial : Ty → V) (k : Category) (c : Contents V) :
    Option (Tuple V) :=
  (construct S initial k c.types c.values).map (Tuple.mk c.types)

/-- The tuples can be joined, and the places of the result have the values of
all of them in turn. -/
def Concatenates (S : Sorting Ty) (S' : Sorting (List Ty)) (initial : Ty → V) (k : Category)
    (cs : List (Contents V)) : Prop :=
  ∃ tuples result, expand (cs.map (Contents.tuple S initial k)) = some tuples ∧
    tupleCat S S' initial tuples = some result ∧
    ∀ i, get i result.object = (cs.flatMap Contents.values)[i]?

end Asked

/-! ## Expansions -/

section Packs

variable {α β : Type}

theorem expand_map_some (xs : List α) : expand (xs.map some) = some xs := by
  induction xs with
  | nil => rfl
  | cons x xs ih =>
      rw [List.map_cons, expand, ih]
      rfl

/-- What the elements of an expansion have is what they are expanded from. -/
theorem map_of_expand {γ : Type} {f : α → Option β} {g : β → γ} {h : α → γ} {xs : List α} :
    ∀ {ys : List β}, (∀ x ∈ xs, ∀ y, f x = some y → g y = h x) → expand (xs.map f) = some ys →
      ys.map g = xs.map h := by
  induction xs with
  | nil =>
      intro ys _ hys
      cases hys
      rfl
  | cons x xs ih =>
      intro ys hf hys
      rw [List.forall_mem_cons] at hf
      obtain ⟨y, hy, hys⟩ := Option.bind_eq_some_iff.mp hys
      obtain ⟨rest, hrest, hys⟩ := Option.bind_eq_some_iff.mp hys
      cases hys
      rw [List.map_cons, List.map_cons, hf.1 y hy, ih hf.2 hrest]

end Packs

/-! ## The table of a concatenation -/

section Table

variable {α : Type} {xss : List (List α)}

/-- A row of the table goes through its tuple. -/
theorem catRow_map {i : Nat} {xs : List α} (hxs : xss[i]? = some xs) {turns : Nat} :
    ∀ {j : Nat}, turns + j = xs.length →
      (catRow i turns j).map (fun p => xss[p.1]?.bind fun ys => ys[p.2]?) =
        (xs.drop j).map some := by
  induction turns with
  | zero =>
      intro j hj
      rw [catRow, List.drop_eq_nil_of_le (by omega)]
      rfl
  | succ turns ih =>
      intro j hj
      have hlt : j < xs.length := by omega
      rw [catRow, List.map_cons, ih (by omega), hxs, List.drop_eq_getElem_cons hlt, List.map_cons,
        Option.bind_some, List.getElem?_eq_getElem hlt]

/-- The table goes through the tuples in turn. -/
theorem tupleCatIndexGen_map {rest : List (List α)} :
    ∀ {front : List (List α)}, xss = front ++ rest →
      (tupleCatIndexGen front.length (rest.map List.length)).map
          (fun p => xss[p.1]?.bind fun ys => ys[p.2]?) = rest.flatten.map some := by
  induction rest with
  | nil => exact fun _ => rfl
  | cons xs rest ih =>
      intro front hxss
      have hrow : xss[front.length]? = some xs := by rw [hxss, List.getElem?_append_right
        (Nat.le_refl _), Nat.sub_self, List.getElem?_cons_zero]
      have hnext : xss = (front ++ [xs]) ++ rest := by
        rw [hxss, List.append_assoc, List.singleton_append]
      have htail := ih hnext
      rw [List.length_append, List.length_singleton] at htail
      rw [List.map_cons, tupleCatIndexGen, List.map_append, catRow_map hrow (Nat.add_zero _),
        htail, List.drop_zero, List.flatten_cons, List.map_append]

theorem tupleCatIndexGen_zero (xss : List (List α)) :
    (tupleCatIndexGen 0 (xss.map List.length)).map
        (fun p => xss[p.1]?.bind fun ys => ys[p.2]?) = xss.flatten.map some := by
  have htable : ∀ {rest : List (List α)}, xss = [] ++ rest → _ := tupleCatIndexGen_map
  exact htable rfl

end Table

/-! ## Several tuples -/

theorem transfer_returned (t : Ty) :
    ElementType.transfer (ElementType.returned t) = ElementType.transfer t := by
  obtain ⟨name, alignment, isClass, qualified, transfer⟩ := t
  cases isClass with
  | true => rfl
  | false => rfl

variable {V : Type} {S : Sorting Ty} {S' : Sorting (List Ty)} {initial : Ty → V} {k : Category}

theorem Contents.types_tuple {c : Contents V} {tpl : Tuple V}
    (h : c.tuple S initial k = some tpl) : tpl.types = c.types := by
  obtain ⟨object, -, rfl⟩ := Option.map_eq_some_iff.mp h
  rfl

theorem Contents.isConstructible_of_tuple {c : Contents V} {tpl : Tuple V}
    (h : c.tuple S initial k = some tpl) : ∀ t ∈ c.types, isConstructible t k = true := by
  obtain ⟨object, hobject, -⟩ := Option.map_eq_some_iff.mp h
  exact isConstructible_of_construct hobject c.length_eq

theorem Contents.get_tuple {c : Contents V} {tpl : Tuple V} (h : c.tuple S initial k = some tpl)
    (hcopied : ∀ t ∈ c.types, isCopyable t = true) :
    (fun j => get j tpl.object) = fun j => c.values[j]? := by
  obtain ⟨object, hobject, rfl⟩ := Option.map_eq_some_iff.mp h
  obtain ⟨object', hsame, hvalues⟩ :
      ∃ tpl, construct S initial k c.types c.values = some tpl ∧ _ :=
    construct_eq (isConstructible_of_construct hobject c.length_eq) c.length_eq
  cases hobject.symm.trans hsame
  exact funext (get_eq (construct_leaves hobject) hvalues c.length_eq hcopied)

theorem tuple_ne_pinned {ts : List Ty} (h : ∀ t ∈ ts, ElementType.transfer t ≠ .pinned) :
    ElementType.transfer ts ≠ .pinned := by
  have hnone : (ts.any fun t => t.transfer = .pinned) = false := by
    simp only [List.any_eq_false, decide_eq_true_eq]
    exact h
  show (if ts.all isCopyable then _ else if ts.any _ then _ else _) ≠ _
  rw [hnone]
  split
  · exact nofun
  · exact nofun

theorem tuple_isCopyable {ts : List Ty} (h : ∀ t ∈ ts, isCopyable t = true) :
    isCopyable ts = true := by
  have htransfer : ElementType.transfer ts = .constCopied := if_pos (List.all_eq_true.mpr h)
  simp [isCopyable, htransfer]

theorem tuple_isConstructible {ts : List Ty} (h : ElementType.transfer ts ≠ .pinned) :
    isConstructible ts .rvalue = true := by
  simpa [isConstructible] using h

/-- The types that `tuple_cat_impl` picks. -/
theorem elements_eq {types : List (List Ty)}
    (h : ∀ ts ∈ types, ∀ t ∈ ts, ElementType.transfer t ≠ .pinned) :
    expand ((tupleCatIndexGen 0 (types.map List.length)).map fun p =>
        (tupleElement S' p.1 types).bind (tupleElement S p.2)) =
      some (types.flatten.map ElementType.returned) := by
  have hplace : ∀ p : Nat × Nat, (tupleElement S' p.1 types).bind (tupleElement S p.2) =
      (types[p.1]?.bind fun ts => ts[p.2]?).map ElementType.returned := by
    intro p
    rw [tupleElement_eq fun ts hts => tuple_ne_pinned (h ts hts)]
    cases hts : types[p.1]? with
    | none => rfl
    | some ts => exact tupleElement_eq (h ts (List.mem_of_getElem? hts)) p.2
  have hswap : (types.flatten.map some).map (Option.map ElementType.returned) =
      (types.flatten.map ElementType.returned).map some := by
    rw [List.map_map, List.map_map]
    rfl
  rw [← expand_map_some (types.flatten.map ElementType.returned), ← hswap,
    ← tupleCatIndexGen_zero, List.map_map]
  exact congrArg expand (List.map_congr_left fun p _ => hplace p)

/-- The values that `tuple_cat_impl` picks. -/
theorem values_eq {types : List (List Ty)} {values : List (List V)}
    {tpl : Object (List Ty) (Object Ty V)}
    (hlen : types.map List.length = values.map List.length)
    (h : ∀ i j, (get i tpl).bind (get j) = values[i]?.bind fun vs => vs[j]?) :
    expand ((tupleCatIndexGen 0 (types.map List.length)).map fun p =>
        (get p.1 tpl).bind (get p.2)) =
      some values.flatten := by
  rw [List.map_congr_left fun p _ => h p.1 p.2, hlen, tupleCatIndexGen_zero, expand_map_some]

/-- `tuple_cat_impl` joins tuples whose elements can be copied from a name, and no
others. -/
theorem tupleCatImpl_eq_some {tuples : List (Tuple V)} {result : Tuple V}
    (hmoved : ∀ tpl ∈ tuples, ∀ t ∈ tpl.types, ElementType.transfer t ≠ .pinned)
    (h : tupleCatImpl S S' initial tuples = some result) :
    ∀ tpl ∈ tuples, ∀ t ∈ tpl.types, ElementType.transfer t = .copied := by
  obtain ⟨ts, -, h⟩ := Option.bind_eq_some_iff.mp h
  obtain ⟨elements, helements, h⟩ := Option.bind_eq_some_iff.mp h
  obtain ⟨values, hvalues, h⟩ := Option.bind_eq_some_iff.mp h
  obtain ⟨object, hobject, -⟩ := Option.bind_eq_some_iff.mp h
  have hlen : values.length = elements.length := by
    have h1 := congrArg List.length (expand_eq_some hvalues)
    have h2 := congrArg List.length (expand_eq_some helements)
    simp only [List.length_map] at h1 h2
    rw [← h1, h2]
  have htypes := helements.symm.trans (elements_eq (List.forall_mem_map.mpr hmoved))
  cases htypes
  intro tpl htpl t ht
  have hmem := List.mem_map_of_mem (f := ElementType.returned)
    (List.mem_flatten_of_mem (List.mem_map_of_mem htpl) ht)
  rw [← transfer_returned]
  exact of_decide_eq_true (isConstructible_of_construct hobject hlen _ hmem)

/-- Tuples whose elements can be copied are joined to one that has the values of
all of them in turn. -/
theorem tupleCatImpl_eq {tuples : List (Tuple V)} {values : List (List V)}
    (hcopied : ∀ tpl ∈ tuples, ∀ t ∈ tpl.types, ElementType.transfer t = .copied)
    (hlen : tuples.map (fun tpl => tpl.types.length) = values.map List.length)
    (hvalues : tuples.map (fun tpl j => get j tpl.object) = values.map fun vs j => vs[j]?) :
    ∃ result, tupleCatImpl S S' initial tuples = some result ∧
      ∀ i, get i result.object = values.flatten[i]? := by
  have hcopyable : ∀ ts ∈ tuples.map Tuple.types, ∀ t ∈ ts, isCopyable t = true :=
    List.forall_mem_map.mpr fun tpl htpl t ht => isCopyable_of_copied (hcopied tpl htpl t ht)
  have hmoved : ∀ ts ∈ tuples.map Tuple.types, ∀ t ∈ ts, ElementType.transfer t ≠ .pinned :=
    fun ts hts t ht => ne_pinned_of_isCopyable (hcopyable ts hts t ht)
  have htypes : (tuples.map Tuple.object).length = (tuples.map Tuple.types).length := by
    rw [List.length_map, List.length_map]
  -- the tuple of tuples
  obtain ⟨ts, hts, hobjects⟩ :
      ∃ ts, construct S' (fun _ => []) .rvalue (tuples.map Tuple.types)
        (tuples.map Tuple.object) = some ts ∧ _ :=
    construct_eq (fun ts hts => tuple_isConstructible (tuple_ne_pinned (hmoved ts hts))) htypes
  have hget : ∀ i, get i ts = (tuples.map Tuple.object)[i]? :=
    get_eq (construct_leaves hts) hobjects htypes fun ts hts =>
      tuple_isCopyable (hcopyable ts hts)
  have hplace : ∀ i j, (get i ts).bind (get j) = values[i]?.bind fun vs => vs[j]? := by
    intro i j
    have hi := congrArg (fun fs => fs[i]?.bind fun f => f j) hvalues
    simp only [List.getElem?_map, Option.bind_map] at hi
    rw [hget, List.getElem?_map, Option.bind_map]
    exact hi
  -- the tuple of their elements
  have hfits : ∀ t ∈ (tuples.map Tuple.types).flatten.map ElementType.returned,
      isConstructible t .lvalue = true := by
    intro t ht
    obtain ⟨t, hflat, rfl⟩ := List.mem_map.mp ht
    obtain ⟨ts, hts, ht⟩ := List.mem_flatten.mp hflat
    obtain ⟨tpl, htpl, rfl⟩ := List.mem_map.mp hts
    exact decide_eq_true ((transfer_returned t).trans (hcopied tpl htpl t ht))
  have hlengths : values.flatten.length =
      ((tuples.map Tuple.types).flatten.map ElementType.returned).length := by
    rw [List.length_map, List.length_flatten, List.length_flatten, List.map_map, ← hlen]
    rfl
  obtain ⟨object, hobject, hplaced⟩ :
      ∃ object, construct S initial .lvalue
        ((tuples.map Tuple.types).flatten.map ElementType.returned) values.flatten =
          some object ∧ _ :=
    construct_eq hfits hlengths
  refine ⟨⟨(tuples.map Tuple.types).flatten.map ElementType.returned, object⟩, ?_,
    get_eq (construct_leaves hobject) hplaced hlengths fun t ht => ?_⟩
  · refine Option.bind_eq_some_iff.mpr ⟨ts, hts, ?_⟩
    refine Option.bind_eq_some_iff.mpr ⟨_, elements_eq hmoved, ?_⟩
    refine Option.bind_eq_some_iff.mpr ⟨_, values_eq ((List.map_map).trans hlen) hplace, ?_⟩
    exact Option.bind_eq_some_iff.mpr ⟨object, hobject, rfl⟩
  · exact isCopyable_of_copied (of_decide_eq_true (hfits t ht))

theorem tupleCat_eq_some {tuples : List (Tuple V)} {result : Tuple V}
    (hmoved : ∀ tpl ∈ tuples, ∀ t ∈ tpl.types, ElementType.transfer t ≠ .pinned)
    (h : tupleCat S S' initial tuples = some result) :
    ∀ tpl ∈ tuples, ∀ t ∈ tpl.types, ElementType.transfer t = .copied := by
  rw [tupleCat] at h
  split at h
  · next hzero =>
      intro tpl htpl t ht
      have hlen := List.sum_eq_zero_iff_forall_eq_nat.mp hzero _ (List.mem_map_of_mem htpl)
      rw [List.eq_nil_of_length_eq_zero hlen] at ht
      cases ht
  · exact tupleCatImpl_eq_some hmoved h

theorem tupleCat_eq {tuples : List (Tuple V)} {values : List (List V)}
    (hcopied : ∀ tpl ∈ tuples, ∀ t ∈ tpl.types, ElementType.transfer t = .copied)
    (hlen : tuples.map (fun tpl => tpl.types.length) = values.map List.length)
    (hvalues : tuples.map (fun tpl j => get j tpl.object) = values.map fun vs j => vs[j]?) :
    ∃ result, tupleCat S S' initial tuples = some result ∧
      ∀ i, get i result.object = values.flatten[i]? := by
  rw [tupleCat]
  split
  · next hzero =>
      have hnil : values.flatten = [] := by
        rw [← List.length_eq_zero_iff, List.length_flatten, ← hlen, hzero]
      rw [hnil]
      exact ⟨⟨[], []⟩, rfl, fun i => rfl⟩
  · exact tupleCatImpl_eq hcopied hlen hvalues

/-- Tuples are joined exactly when all of their elements can be made from an
object that has a name. -/
theorem concatenates_iff (cs : List (Contents V)) :
    Concatenates S S' initial k cs ↔
      ∀ c ∈ cs, ∀ t ∈ c.types, ElementType.transfer t = .copied := by
  constructor
  · rintro ⟨tuples, result, htuples, hresult, -⟩
    have hmoved : ∀ tpl ∈ tuples, ∀ t ∈ tpl.types, ElementType.transfer t ≠ .pinned := by
      intro tpl htpl
      have hmade := List.mem_map_of_mem (f := some) htpl
      rw [← expand_eq_some htuples] at hmade
      obtain ⟨c, -, hc⟩ := List.mem_map.mp hmade
      rw [Contents.types_tuple hc]
      exact fun t ht => ne_pinned_of_isConstructible (Contents.isConstructible_of_tuple hc t ht)
    have htypes : tuples.map Tuple.types = cs.map Contents.types :=
      map_of_expand (fun c _ tpl h => Contents.types_tuple h) htuples
    intro c hc
    obtain ⟨tpl, htpl, heq⟩ := List.mem_map.mp (htypes ▸ List.mem_map_of_mem hc)
    rw [← heq]
    exact tupleCat_eq_some hmoved hresult tpl htpl
  · intro hcopied
    have hcompiles : ∀ c ∈ cs, ∃ tpl, c.tuple S initial k = some tpl := by
      intro c hc
      obtain ⟨object, hobject, -⟩ :
          ∃ object, construct S initial k c.types c.values = some object ∧ _ :=
        construct_eq (fun t ht => isConstructible_of_copied (hcopied c hc t ht)) c.length_eq
      exact ⟨_, congrArg _ hobject⟩
    obtain ⟨tuples, htuples, hmem⟩ := expand_map hcompiles
    have hlen : tuples.map (fun tpl => tpl.types.length) =
        (cs.map Contents.values).map List.length := by
      rw [List.map_map]
      refine map_of_expand (fun c _ tpl h => ?_) htuples
      rw [Contents.types_tuple h]
      exact c.length_eq.symm
    have hvalues : tuples.map (fun tpl j => get j tpl.object) =
        (cs.map Contents.values).map fun vs j => vs[j]? := by
      rw [List.map_map]
      exact map_of_expand (fun c hc tpl h => Contents.get_tuple h fun t ht =>
        isCopyable_of_copied (hcopied c hc t ht)) htuples
    have hnamed : ∀ tpl ∈ tuples, ∀ t ∈ tpl.types, ElementType.transfer t = .copied := by
      intro tpl htpl
      obtain ⟨c, hc, htuple⟩ := (hmem tpl).mp htpl
      rw [Contents.types_tuple htuple]
      exact hcopied c hc
    obtain ⟨result, hresult, hget⟩ :
        ∃ result, tupleCat S S' initial tuples = some result ∧ _ :=
      tupleCat_eq hnamed hlen hvalues
    rw [← List.flatMap_def] at hget
    exact ⟨tuples, result, htuples, hresult, hget⟩

/-! ## Access -/

/-- However the storage is sorted, a tuple gives back what it is made from when
its elements are readable, and joining tuples is concatenation when their
elements can be made from a name; otherwise neither is so. -/
theorem tuple_access_iff (S : Sorting Ty) (S' : Sorting (List Ty)) (initial : Ty → V)
    (k : Category) :
    (∀ c : Contents V, c.Accessible S initial k ↔ ∀ t ∈ c.types, t.Readable k) ∧
      ∀ cs, Concatenates S S' initial k cs ↔ ∀ c ∈ cs, ∀ t ∈ c.types, t.transfer = .copied :=
  ⟨Contents.accessible_iff, concatenates_iff⟩

/-- `const int`, which a call returns as `int`. -/
def constInt : Ty := ⟨"const int", 4, false, true, .copied⟩

/-- The element of `tuple<const int>` is an `int` to `tuple_element`. -/
theorem constInt_inaccessible :
    ¬ Contents.Accessible (V := Nat) ⟨id, List.Perm.refl⟩ (fun _ => 0) .rvalue
      ⟨[constInt], [7], rfl⟩ := by
  rintro ⟨tpl, -, hplaces⟩
  have helement : tupleElement ⟨id, List.Perm.refl⟩ 0 [constInt] = some constInt := (hplaces 0).2
  exact absurd helement (by decide)

end Utility

end Tactmon
