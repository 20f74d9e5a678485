import Mathlib.Data.BitVec

/-!
# Fields of a word

A register is a word whose fields are given by masks.  `w ||| m` sets the bits of the mask `m`, and
`w &&& ~~~m` clears them.

* `or_and_of_subset`, `andNot_and_self`, `andNot_or_and_self`: the field that has been set, cleared
  or written;
* `AgreeOn k w w'`: the words are the same on the mask `k`, which an update of other bits keeps
  (`AgreeOn.or_of_disjoint`, `AgreeOn.andNot_of_disjoint`) and which the same update of both words
  keeps (`AgreeOn.or`, `AgreeOn.andNot`).
-/

namespace Camkes.BitField

variable {n : ℕ} {k m w w' w'' : BitVec n}

/-- A field all of whose bits have been set. -/
theorem or_and_of_subset (w : BitVec n) (h : m &&& k = k) : (w ||| m) &&& k = k := by
  ext i hi
  have hbit : (m[i] && k[i]) = k[i] := by
    rw [← BitVec.getElem_and, h]
  simp only [BitVec.getElem_and, BitVec.getElem_or]
  grind

theorem or_and_self (w m : BitVec n) : (w ||| m) &&& m = m := or_and_of_subset w BitVec.and_self

/-- The field that has been cleared. -/
theorem andNot_and_self (w m : BitVec n) : (w &&& ~~~m) &&& m = 0 := by
  ext i hi
  simp

/-- The field that has been written. -/
theorem andNot_or_and_self (w : BitVec n) {m v : BitVec n} (hv : v &&& m = v) :
    (w &&& ~~~m ||| v) &&& m = v := by
  rw [BitVec.and_comm, BitVec.and_or_distrib_left, BitVec.and_comm m, andNot_and_self,
    BitVec.and_comm m, hv]
  exact BitVec.zero_or

/-- A mask that is disjoint from the union of two is disjoint from both. -/
theorem or_and_eq_zero_iff {m' : BitVec n} :
    (m ||| m') &&& k = 0 ↔ m &&& k = 0 ∧ m' &&& k = 0 := by
  rw [BitVec.and_comm, BitVec.and_or_distrib_left, BitVec.and_comm k m, BitVec.and_comm k m']
  exact BitVec.or_eq_zero_iff

/-- The words are the same on a mask. -/
def AgreeOn (k w w' : BitVec n) : Prop := w &&& k = w' &&& k

namespace AgreeOn

theorem refl (k w : BitVec n) : AgreeOn k w w := rfl

theorem trans (h : AgreeOn k w w') (h' : AgreeOn k w' w'') : AgreeOn k w w'' := Eq.trans h h'

/-- A field that is the same in both words. -/
theorem field {v : BitVec n} (h : AgreeOn k w w') (hv : w' &&& k = v) : w &&& k = v :=
  Eq.trans h hv

/-- The same bits are set in both words. -/
theorem or (h : AgreeOn k w w') (m : BitVec n) : AgreeOn k (w ||| m) (w' ||| m) := by
  show (w ||| m) &&& k = (w' ||| m) &&& k
  rw [BitVec.and_comm, BitVec.and_or_distrib_left, BitVec.and_comm k w, h, BitVec.and_comm w' k,
    ← BitVec.and_or_distrib_left, BitVec.and_comm]

/-- The same bits are cleared in both words. -/
theorem andNot (h : AgreeOn k w w') (m : BitVec n) : AgreeOn k (w &&& ~~~m) (w' &&& ~~~m) := by
  show (w &&& ~~~m) &&& k = (w' &&& ~~~m) &&& k
  rw [BitVec.and_assoc, BitVec.and_comm (~~~m) k, ← BitVec.and_assoc, h, BitVec.and_assoc,
    BitVec.and_comm k (~~~m), ← BitVec.and_assoc]

/-- Setting bits that are not on the mask. -/
theorem or_of_disjoint (h : AgreeOn k w w') (hm : m &&& k = 0#n) : AgreeOn k (w ||| m) w' := by
  refine AgreeOn.trans ?_ h
  show (w ||| m) &&& k = w &&& k
  rw [BitVec.and_comm, BitVec.and_or_distrib_left, BitVec.and_comm k m, hm, BitVec.or_zero,
    BitVec.and_comm]

/-- Clearing bits that are not on the mask. -/
theorem andNot_of_disjoint (h : AgreeOn k w w') (hm : m &&& k = 0#n) :
    AgreeOn k (w &&& ~~~m) w' := by
  refine AgreeOn.trans ?_ h
  ext i hi
  have hbit : (m[i] && k[i]) = false := by
    rw [← BitVec.getElem_and, hm, BitVec.getElem_zero]
  simp only [BitVec.getElem_and, BitVec.getElem_not]
  grind

end AgreeOn

end Camkes.BitField
