import Mathlib.Algebra.Ring.Nat
import Mathlib.Data.List.Induction
import Mathlib.Tactic.Common

/-!
# Numbers and their bytes, most significant first

`BigEndian.value l` is the number with the bytes `l`, and `BigEndian.bytes k v` are the lower `k`
bytes of `v`.  They determine each other (`bytes_value`).

A word that takes up bytes with `x <<< 8 ||| c` has the value of the bytes, as long as they fit
(`toNat_foldl_shift`).
-/

namespace Camkes.BigEndian

/-- The number that some bytes stand for. -/
def value (l : List UInt8) : ℕ := l.foldl (fun v c => v * 256 + c.toNat) 0

/-- The last `k` bytes of a number. -/
def bytes : ℕ → ℕ → List UInt8
  | 0, _ => []
  | k + 1, v => bytes k (v / 256) ++ [UInt8.ofNat v]

theorem value_concat (l : List UInt8) (c : UInt8) : value (l ++ [c]) = value l * 256 + c.toNat := by
  rw [value, List.foldl_append]
  rfl

/-- A number of `k` bytes is below `256 ^ k`. -/
theorem value_lt (l : List UInt8) : value l < 256 ^ l.length := by
  induction l using List.reverseRecOn with
  | nil => exact Nat.one_pos
  | append_singleton l c ih =>
    have hc := c.toNat_lt
    rw [value_concat, List.length_append, List.length_singleton, Nat.pow_succ]
    omega

/-- The bytes can be read back. -/
theorem bytes_value (l : List UInt8) : bytes l.length (value l) = l := by
  induction l using List.reverseRecOn with
  | nil => rfl
  | append_singleton l c ih =>
    have hc := c.toNat_lt
    have hdiv : (value l * 256 + c.toNat) / 256 = value l := by omega
    have hmod : UInt8.ofNat (value l * 256 + c.toNat) = c := by
      rw [← UInt8.toNat_inj, UInt8.toNat_ofNat']
      omega
    rw [value_concat, List.length_append, List.length_singleton, bytes, hdiv, ih, hmod]

@[simp] theorem length_bytes (k v : ℕ) : (bytes k v).length = k := by
  induction k generalizing v with
  | zero => rfl
  | succ k ih => rw [bytes, List.length_append, ih, List.length_singleton]

/-- A number that fits is the number of its bytes. -/
theorem value_bytes {k v : ℕ} (h : v < 256 ^ k) : value (bytes k v) = v := by
  induction k generalizing v with
  | zero =>
    rw [Nat.pow_zero, Nat.lt_one_iff] at h
    rw [h]
    rfl
  | succ k ih =>
    rw [Nat.pow_succ] at h
    rw [bytes, value_concat, ih (by omega), UInt8.toNat_ofNat']
    omega

theorem eq_of_value_eq {l l' : List UInt8} (hlen : l.length = l'.length)
    (h : value l = value l') : l = l' := by
  rw [← bytes_value l, h, hlen, bytes_value]

/-! ### Words -/

/-- A byte goes below the bits of a word that is shifted. -/
theorem toNat_shift_or {x : UInt64} (hx : x.toNat < 2 ^ 56) (c : UInt8) :
    (x <<< 8 ||| c.toUInt64).toNat = x.toNat * 256 + c.toNat := by
  have hc : c.toNat < 2 ^ 8 := c.toNat_lt
  have hshift : (x <<< 8).toNat = x.toNat <<< 8 := by
    have hlt : x.toNat * 2 ^ 8 < 2 ^ 64 := by omega
    rw [UInt64.toNat_shiftLeft, Nat.shiftLeft_eq, Nat.shiftLeft_eq]
    exact Nat.mod_eq_of_lt hlt
  rw [UInt64.toNat_or, UInt8.toNat_toUInt64, hshift, ← Nat.shiftLeft_add_eq_or_of_lt hc,
    Nat.shiftLeft_eq]

/-- Shifting up to eight bytes into a word makes their number. -/
theorem toNat_foldl_shift {l : List UInt8} (h : l.length ≤ 8) :
    (l.foldl (fun (x : UInt64) c => x <<< 8 ||| c.toUInt64) 0).toNat = value l := by
  induction l using List.reverseRecOn with
  | nil => rfl
  | append_singleton l c ih =>
    rw [List.length_append, List.length_singleton] at h
    have hlt : value l < 2 ^ 56 :=
      Nat.lt_of_lt_of_le (value_lt l) (Nat.pow_le_pow_right (by decide) (by omega : l.length ≤ 7))
    rw [← ih (by omega)] at hlt
    rw [List.foldl_append, value_concat, ← ih (by omega)]
    exact toNat_shift_or hlt c

end Camkes.BigEndian
