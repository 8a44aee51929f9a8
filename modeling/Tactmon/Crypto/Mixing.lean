import Tactmon.Crypto.Alignment

/-!
# What the hash keeps

`mix` and `final` can be undone, and so can the sum with a block.  So the state
behind a key tells the seeds apart for every key, and it tells two keys apart
that differ in one block only.  Keys of one length that differ in several
blocks may collide, and so may the two words that are returned.
-/

namespace Tactmon

namespace Crypto

open Binary Cxx

/-! ## Rounds -/

/-- One line of `mix`: `x -= z; x ^= rot(z, k); z += y`. -/
def mixLine (k : UInt32) : UInt32 × UInt32 × UInt32 → UInt32 × UInt32 × UInt32 :=
  turn (fun x _ z => (x - z) ^^^ rot z k) (fun y z => z + y)

/-- One line of `final`: `x ^= z; x -= rot(z, k)`. -/
def finalLine (k : UInt32) : UInt32 × UInt32 × UInt32 → UInt32 × UInt32 × UInt32 :=
  turn (fun x _ z => (x ^^^ z) - rot z k) (fun _ z => z)

theorem bijective_sub (z : UInt32) : (fun x : UInt32 => x - z).Bijective :=
  ⟨fun _ _ h => (UInt32.sub_left_inj z).mp h, fun x => ⟨x + z, UInt32.add_sub_cancel x z⟩⟩

theorem bijective_add (z : UInt32) : (fun x : UInt32 => x + z).Bijective :=
  ⟨fun _ _ h => (UInt32.add_left_inj z).mp h, fun x => ⟨x - z, UInt32.sub_add_cancel x z⟩⟩

theorem bijective_xor (z : UInt32) : (fun x : UInt32 => x ^^^ z).Bijective := by
  refine ⟨fun _ _ h => (UInt32.xor_left_inj z).mp h, fun x => ⟨x ^^^ z, ?_⟩⟩
  dsimp only
  rw [UInt32.xor_assoc, UInt32.xor_self, UInt32.xor_zero]

theorem bijective_mixLine (k : UInt32) : (mixLine k).Bijective :=
  bijective_turn (fun _ z => (bijective_xor (rot z k)).comp (bijective_sub z)) bijective_add

theorem bijective_finalLine (k : UInt32) : (finalLine k).Bijective :=
  bijective_turn (fun _ z => (bijective_sub (rot z k)).comp (bijective_xor z))
    fun _ => Function.bijective_id

namespace Registers

/-- The registers, `a` first. -/
def equiv : Registers ≃ UInt32 × UInt32 × UInt32 where
  toFun s := (s.a, s.b, s.c)
  invFun t := ⟨t.1, t.2.1, t.2.2⟩
  left_inv _ := rfl
  right_inv _ := rfl

/-- The registers, `c` first. -/
def equivC : Registers ≃ UInt32 × UInt32 × UInt32 where
  toFun s := (s.c, s.a, s.b)
  invFun t := ⟨t.2.1, t.2.2, t.1⟩
  left_inv _ := rfl
  right_inv _ := rfl

/-- `mix` is six lines. -/
theorem mix_eq : mix = equiv.symm ∘ mixLine 4 ∘ mixLine 19 ∘ mixLine 16 ∘ mixLine 8 ∘ mixLine 6 ∘
    mixLine 4 ∘ equiv := rfl

/-- `final` is seven lines. -/
theorem final_eq : final = equiv.symm ∘ finalLine 24 ∘ finalLine 14 ∘ finalLine 4 ∘ finalLine 16 ∘
    finalLine 25 ∘ finalLine 11 ∘ finalLine 14 ∘ equivC := rfl

theorem bijective_mix : mix.Bijective := by
  rw [mix_eq]
  exact equiv.symm.bijective.comp <| (bijective_mixLine 4).comp <| (bijective_mixLine 19).comp <|
    (bijective_mixLine 16).comp <| (bijective_mixLine 8).comp <| (bijective_mixLine 6).comp <|
    (bijective_mixLine 4).comp equiv.bijective

theorem bijective_final : final.Bijective := by
  rw [final_eq]
  exact equiv.symm.bijective.comp <| (bijective_finalLine 24).comp <|
    (bijective_finalLine 14).comp <| (bijective_finalLine 4).comp <|
    (bijective_finalLine 16).comp <| (bijective_finalLine 25).comp <|
    (bijective_finalLine 11).comp <| (bijective_finalLine 14).comp equivC.bijective

theorem bijective_absorb (bs : Bytes) : (fun s : Registers => s.absorb bs).Bijective := by
  constructor
  · intro s t h
    obtain ⟨ha, hb, hc⟩ := Registers.mk.inj h
    exact Registers.ext ((bijective_add _).1 ha) ((bijective_add _).1 hb)
      ((bijective_add _).1 hc)
  · intro t
    obtain ⟨a, ha⟩ := (bijective_add (wordAt bs 4 0)).2 t.a
    obtain ⟨b, hb⟩ := (bijective_add (wordAt bs 4 4)).2 t.b
    obtain ⟨c, hc⟩ := (bijective_add (wordAt bs 4 8)).2 t.c
    exact ⟨⟨a, b, c⟩, Registers.ext ha hb hc⟩

/-- Blocks that make the same sum are the same. -/
theorem absorb_inj {xs ys : Bytes} {s : Registers} (hlen : xs.length = ys.length)
    (h : s.absorb xs = s.absorb ys) : xs.take 12 = ys.take 12 := by
  obtain ⟨ha, hb, hc⟩ := Registers.mk.inj h
  have hwindow : ∀ o, (window xs o 4).length = (window ys o 4).length := by
    intro o
    rw [window, window, List.length_take, List.length_take, List.length_drop, List.length_drop,
      hlen]
  have htake : ∀ bs : Bytes, bs.take 12 = window bs 0 4 ++ window bs 4 4 ++ window bs 8 4 := by
    intro bs
    rw [← window_add bs 0 4 4, ← window_add bs 0 8 4]
    rfl
  rw [htake, htake, wordAt_inj (Nat.le_refl 4) (hwindow 0) ((UInt32.add_right_inj s.a).mp ha),
    wordAt_inj (Nat.le_refl 4) (hwindow 4) ((UInt32.add_right_inj s.b).mp hb),
    wordAt_inj (Nat.le_refl 4) (hwindow 8) ((UInt32.add_right_inj s.c).mp hc)]

end Registers

/-! ## Keys -/

theorem lookup3_long {bs : Bytes} (h : 12 < bs.length) (s : Registers) :
    lookup3 bs s = lookup3 (bs.drop 12) (s.absorb bs).mix := by
  rw [lookup3, if_pos h]

theorem lookup3_short {bs : Bytes} (h : ¬12 < bs.length) (hpos : bs.length ≠ 0) (s : Registers) :
    lookup3 bs s = (s.absorb bs).final := by
  rw [lookup3, if_neg h, if_neg hpos]

/-- Nothing of the seeds is lost. -/
theorem bijective_lookup3 (bs : Bytes) : (lookup3 bs).Bijective := by
  induction hn : bs.length using Nat.strongRecOn generalizing bs with
  | ind n ih =>
      subst hn
      by_cases hlen : 12 < bs.length
      · have heq : lookup3 bs = lookup3 (bs.drop 12) ∘ Registers.mix ∘ fun s => s.absorb bs :=
          funext (lookup3_long hlen)
        have hrest := ih (bs.drop 12).length (by rw [List.length_drop]; omega) (bs.drop 12) rfl
        rw [heq]
        exact hrest.comp (Registers.bijective_mix.comp (Registers.bijective_absorb bs))
      · by_cases hzero : bs.length = 0
        · have heq : lookup3 bs = id := by
            funext s
            rw [lookup3, if_neg hlen, if_pos hzero]
            rfl
          rw [heq]
          exact Function.bijective_id
        · have heq : lookup3 bs = Registers.final ∘ fun s => s.absorb bs :=
            funext (lookup3_short hlen hzero)
          rw [heq]
          exact Registers.bijective_final.comp (Registers.bijective_absorb bs)

/-- Byte strings that agree outside of block `i` agree there in front of it and
behind it. -/
theorem take_eq_of_block {xs ys : Bytes} {i : Nat} (hsame : ∀ j, j / 12 ≠ i + 1 → xs[j]? = ys[j]?) :
    xs.take 12 = ys.take 12 := by
  refine List.ext_getElem? fun j => ?_
  rw [List.getElem?_take, List.getElem?_take]
  split
  · exact hsame j (by omega)
  · rfl

theorem drop_eq_of_block {xs ys : Bytes} (hsame : ∀ j, j / 12 ≠ 0 → xs[j]? = ys[j]?) :
    xs.drop 12 = ys.drop 12 := by
  refine List.ext_getElem? fun j => ?_
  rw [List.getElem?_drop, List.getElem?_drop]
  exact hsame _ (by omega)

/-- The sum with a block only depends on its twelve bytes. -/
theorem Registers.absorb_take {xs ys : Bytes} (h : xs.take 12 = ys.take 12) (s : Registers) :
    s.absorb xs = s.absorb ys := by
  have hword : ∀ o, o + 4 ≤ 12 → wordAt xs 4 o = wordAt ys 4 o := by
    intro o ho
    have hmin : min 4 (12 - o) = 4 := by omega
    rw [← hmin, ← wordAt_take, ← wordAt_take, h]
  rw [absorb, absorb, hword 0 (by decide), hword 4 (by decide), hword 8 (by decide)]

/-- Nothing of a block is lost: keys of one length with the same bytes outside
of block `i` have the same state only if they are equal. -/
theorem lookup3_inj (i : Nat) : ∀ {xs ys : Bytes} {s : Registers},
    xs.length = ys.length → (∀ j, j / 12 ≠ i → xs[j]? = ys[j]?) →
      lookup3 xs s = lookup3 ys s → xs = ys := by
  induction i with
  | zero =>
      intro xs ys s hlen hsame h
      have hdrop := drop_eq_of_block hsame
      suffices htake : xs.take 12 = ys.take 12 by
        rw [← List.take_append_drop 12 xs, htake, hdrop, List.take_append_drop]
      by_cases hlong : 12 < ys.length
      · rw [lookup3_long (by omega), lookup3_long hlong, hdrop] at h
        exact Registers.absorb_inj hlen (Registers.bijective_mix.1 ((bijective_lookup3 _).1 h))
      · by_cases hzero : ys.length = 0
        · rw [List.length_eq_zero_iff.mp hzero, List.length_eq_zero_iff.mp (hlen.trans hzero)]
        · rw [lookup3_short (by omega) (by omega), lookup3_short hlong hzero] at h
          exact Registers.absorb_inj hlen (Registers.bijective_final.1 h)
  | succ i ih =>
      intro xs ys s hlen hsame h
      have htake := take_eq_of_block hsame
      suffices hdrop : xs.drop 12 = ys.drop 12 by
        rw [← List.take_append_drop 12 xs, htake, hdrop, List.take_append_drop]
      by_cases hlong : 12 < ys.length
      · rw [lookup3_long (by omega), lookup3_long hlong, Registers.absorb_take htake] at h
        refine ih (by rw [List.length_drop, List.length_drop, hlen]) (fun j hj => ?_) h
        rw [List.getElem?_drop, List.getElem?_drop]
        exact hsame _ (by omega)
      · rw [List.drop_eq_nil_of_le (by omega), List.drop_eq_nil_of_le (by omega)]

/-- What was hashed can be told from the state it leaves.  For every key each
state comes from one seed, and two keys of one length that agree outside of one
block leave the same state only if they are equal, wherever they are. -/
theorem hashKey_keeps {platform platform' : Platform} {address address' : Nat} {key key' : Span} :
    (reach platform address key.size ≤ key.mem.length →
      ∀ t, ∃! s, hashKey platform address key s = .ok t) ∧
    ∀ i s t, key.size = key'.size → (∀ j, j / 12 ≠ i → key.bytes[j]? = key'.bytes[j]?) →
      hashKey platform address key s = .ok t → hashKey platform' address' key' s = .ok t →
        key.bytes = key'.bytes := by
  constructor
  · intro hreach t
    obtain ⟨s, hs, huniq⟩ := (bijective_lookup3 key.bytes).existsUnique t
    refine ⟨s, ?_, fun s' hs' => huniq s' ?_⟩
    · dsimp only
      rw [hashKey_eq, if_pos hreach, hs]
    · dsimp only at hs'
      rw [hashKey_eq, if_pos hreach] at hs'
      exact Except.ok.inj hs'
  · intro i s t hsize hsame h h'
    rw [hashKey_eq] at h h'
    split at h
    · split at h'
      · have hlen : key.bytes.length = key'.bytes.length := by
          rw [Span.bytes_length, Span.bytes_length, hsize]
        exact lookup3_inj i hlen hsame ((Except.ok.inj h).trans (Except.ok.inj h').symm)
      · cases h'
    · cases h

/-- A key of two bytes, with other bytes behind it. -/
def shortKey (after : Bytes) : Span := Buffer.span ⟨[0x41, 0x42], by decide⟩ after

theorem hashKey_keeps_sample :
    (∀ t, ∃! s, hashKey ⟨true, false⟩ 4 (shortKey [0, 0]) s = .ok t) ∧
      (shortKey [0, 0]).bytes = (shortKey [7]).bytes := by
  have h := @hashKey_keeps ⟨true, false⟩ ⟨true, false⟩ 4 6 (shortKey [0, 0]) (shortKey [7])
  have hsame : hashKey ⟨true, false⟩ 4 (shortKey [0, 0]) ⟨0, 0, 0⟩ =
      hashKey ⟨true, false⟩ 6 (shortKey [7]) ⟨0, 0, 0⟩ := by decide +kernel
  obtain ⟨t, ht⟩ : ∃ t, hashKey ⟨true, false⟩ 4 (shortKey [0, 0]) ⟨0, 0, 0⟩ = .ok t :=
    ⟨_, by rw [hashKey_eq]; rfl⟩
  exact ⟨h.1 (by decide), h.2 0 ⟨0, 0, 0⟩ t rfl (fun _ _ => rfl) ht (hsame ▸ ht)⟩

end Crypto

end Tactmon
