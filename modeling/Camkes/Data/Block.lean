import Camkes.Data.BigEndian
import Camkes.Data.CString

/-!
# A block of memory

A `Block` is what `malloc` returns on a machine with 32-bit addresses: bytes at consecutive
addresses from an aligned one on.  `Block.mem p` are the bytes that can be read from the address `p`
on, none if `p` is not in the block, and addresses are computed in `UInt32`, as the machine does.

`toNat_and_not` and `alignUp_eq_add` say what masking the lower bits of an address does.
-/

namespace Camkes

/-! ### Alignment -/

/-- A word is the sum of its bits outside a mask and inside. -/
theorem and_not_add_and (x m : UInt32) : (x &&& ~~~m) + (x &&& m) = x := by
  apply UInt32.toBitVec_inj.mp
  show (x.toBitVec &&& ~~~m.toBitVec) + (x.toBitVec &&& m.toBitVec) = x.toBitVec
  rw [BitVec.add_eq_or_of_and_eq_zero]
  · ext i hi
    rw [BitVec.getElem_or, BitVec.getElem_and, BitVec.getElem_and, BitVec.getElem_not]
    cases x.toBitVec[i] <;> cases m.toBitVec[i] <;> rfl
  · ext i hi
    rw [BitVec.getElem_and, BitVec.getElem_and, BitVec.getElem_and, BitVec.getElem_not]
    cases x.toBitVec[i] <;> cases m.toBitVec[i] <;> simp

/-- Masking the lower bits rounds down. -/
theorem toNat_and_not (x : UInt32) {k : ℕ} (hk : k < 32) :
    (x &&& ~~~(UInt32.ofNat (2 ^ k - 1))).toNat = x.toNat - x.toNat % 2 ^ k := by
  have hpow : 2 ^ k < 2 ^ 32 := Nat.pow_lt_pow_right (by decide) hk
  have hlow : (x &&& UInt32.ofNat (2 ^ k - 1)).toNat = x.toNat % 2 ^ k := by
    rw [UInt32.toNat_and, UInt32.toNat_ofNat', Nat.mod_eq_of_lt (by omega),
      Nat.and_two_pow_sub_one_eq_mod]
  have hle : (x &&& ~~~(UInt32.ofNat (2 ^ k - 1))).toNat ≤ x.toNat := by
    rw [UInt32.toNat_and]
    exact Nat.and_le_left
  have hmod := Nat.mod_le x.toNat (2 ^ k)
  have hx := x.toNat_lt
  have hsum := congrArg UInt32.toNat (and_not_add_and x (UInt32.ofNat (2 ^ k - 1)))
  rw [UInt32.toNat_add, hlow] at hsum
  omega

/-- Rounding up adds less than the unit. -/
theorem alignUp_eq_add (x : UInt32) {k : ℕ} (hk : k < 32) :
    ∃ d < 2 ^ k, 2 ^ k ∣ x.toNat + d ∧
      (x + UInt32.ofNat (2 ^ k - 1)) &&& ~~~(UInt32.ofNat (2 ^ k - 1)) = x + UInt32.ofNat d := by
  have hpow : 2 ^ k < 2 ^ 32 := Nat.pow_lt_pow_right (by decide) hk
  have hpos : 0 < 2 ^ k := Nat.two_pow_pos k
  have hdvd : 2 ^ k ∣ 2 ^ 32 := Nat.pow_dvd_pow 2 (Nat.le_of_lt hk)
  generalize hy : x + UInt32.ofNat (2 ^ k - 1) = y
  have hmod := Nat.mod_lt y.toNat hpos
  have hle := Nat.mod_le y.toNat (2 ^ k)
  have hx := x.toNat_lt
  have hynat := congrArg UInt32.toNat hy
  rw [UInt32.toNat_add, UInt32.toNat_ofNat', Nat.add_mod_mod] at hynat
  refine ⟨2 ^ k - 1 - y.toNat % 2 ^ k, by omega, ?_, ?_⟩
  · have hsum : x.toNat + (2 ^ k - 1 - y.toNat % 2 ^ k) =
        y.toNat - y.toNat % 2 ^ k + 2 ^ 32 * ((x.toNat + (2 ^ k - 1)) / 2 ^ 32) := by
      omega
    rw [hsum]
    exact Nat.dvd_add (Nat.dvd_sub_mod y.toNat) (Nat.dvd_mul_right_of_dvd hdvd _)
  · rw [← UInt32.toNat_inj, toNat_and_not y hk, UInt32.toNat_add, UInt32.toNat_ofNat']
    omega

theorem ofInt_natCast (n : ℕ) : UInt32.ofInt n = UInt32.ofNat n := by
  show UInt32.ofNat ((n : Int) % 4294967296).toNat = UInt32.ofNat n
  have hmod : ((n : Int) % 4294967296).toNat = n % 4294967296 := by omega
  rw [hmod]
  exact UInt32.ofNat_mod_size

/-! ### Blocks -/

structure Block where
  base : UInt32
  bytes : List UInt8
  aligned : base.toNat % 8 = 0
  -- no object is larger than `PTRDIFF_MAX`
  length_lt : bytes.length < 2 ^ 31

namespace Block

variable {b : Block} {p : UInt32} {n : ℕ} {l : List UInt8}

/-- The bytes that can be read from `p` on. -/
def mem (b : Block) (p : UInt32) : List UInt8 := b.bytes.drop (p - b.base).toNat

theorem length_mem_le (b : Block) (p : UInt32) : (b.mem p).length ≤ b.bytes.length := by
  rw [mem, List.length_drop]
  omega

/-- From an address in the block on. -/
theorem mem_add (hp : b.mem p ≠ []) (hn : n < (b.mem p).length + 2 ^ 31) :
    b.mem (p + UInt32.ofNat n) = (b.mem p).drop n := by
  have hlen := b.length_lt
  have hpos := List.length_pos_iff.mpr hp
  rw [mem, List.length_drop] at hpos hn
  have hsub : (p + UInt32.ofNat n - b.base).toNat = (p - b.base).toNat + n := by
    rw [UInt32.toNat_sub, UInt32.toNat_add, UInt32.toNat_ofNat']
    rw [UInt32.toNat_sub] at hpos hn ⊢
    omega
  rw [mem, hsub, mem, List.drop_drop]

/-- Going on within the block skips bytes. -/
theorem mem_add_of_le (h : n ≤ (b.mem p).length) :
    b.mem (p + UInt32.ofNat n) = (b.mem p).drop n := by
  by_cases hp : b.mem p = []
  · have hn : n = 0 := by
      rw [hp] at h
      exact Nat.le_zero.mp h
    rw [hn, List.drop_zero]
    show b.mem (p + 0) = b.mem p
    rw [UInt32.add_zero]
  · exact mem_add hp (by omega)

/-- The rest of the bytes at an address are at an address further on. -/
theorem prefix_mem_add (h : l <+: b.mem p) (hn : n ≤ l.length) :
    l.drop n <+: b.mem (p + UInt32.ofNat n) := by
  have hle := h.length_le
  rw [mem_add_of_le (by omega)]
  obtain ⟨t, ht⟩ := h
  rw [← ht, List.drop_append_of_le_length hn]
  exact List.prefix_append _ t

/-- Bytes in the block, and more behind them. -/
theorem append_prefix_mem_iff {l' : List UInt8} :
    l ++ l' <+: b.mem p ↔ l <+: b.mem p ∧ l' <+: b.mem (p + UInt32.ofNat l.length) := by
  constructor
  · intro h
    refine ⟨(List.prefix_append l l').trans h, ?_⟩
    have hdrop := prefix_mem_add (n := l.length) h (by simp)
    rwa [List.drop_left] at hdrop
  · rintro ⟨h, h'⟩
    rw [mem_add_of_le h.length_le] at h'
    obtain ⟨t, ht⟩ := h
    rw [← ht, List.drop_left] at h'
    rw [← ht]
    exact (List.prefix_append_right_inj l).mpr h'

end Block

end Camkes
