import Camkes.Data.Sentinel
import Camkes.Dhcp.MakeMac
import Mathlib.Data.List.Basic
import Mathlib.Data.List.Induction

/-!
# Which strings get their MAC address

The loop takes up the bytes of the padded string (`makeMac_eq`), and never reads behind the NUL.  A
byte below 128 is taken up as it is, but a signed `char` sets all bits above a larger one
(`le_toNat_foldl`), so an address with such a byte does not fit into 48 bits.
-/

namespace Camkes.Dhcp

open BigEndian

variable {char : PlainChar} {s s' : List UInt8}

/-! ### The loop -/

theorem toUInt64_zero (char : PlainChar) : char.toUInt64 0 = 0 := by
  cases char with
  | signed => rfl
  | unsigned => rfl

/-- A round takes up a byte. -/
def takeUp (char : PlainChar) (x : UInt64) (c : UInt8) : UInt64 := x <<< 8 ||| char.toUInt64 c

/-- Behind the end of the string the loop takes up zeros. -/
theorem makeMacLoop_nil (i : ℕ) (x : UInt64) :
    makeMacLoop char i x [0] = some ((List.replicate i 0).foldl (takeUp char) x) := by
  induction i generalizing x with
  | zero => rfl
  | succ i ih =>
    have hzero : x <<< 8 = takeUp char x 0 := by
      rw [takeUp, toUInt64_zero, UInt64.or_zero]
    rw [List.replicate_succ, List.foldl_cons, ← ih, ← hzero]
    rfl

/-- The loop takes up the string, and zeros after its end. -/
theorem makeMacLoop_eq (hs : 0 ∉ s) (i : ℕ) (x : UInt64) :
    makeMacLoop char i x (s ++ [0]) =
      some (((s.take i).rightpad i 0).foldl (takeUp char) x) := by
  induction s generalizing i x with
  | nil =>
    rw [List.take_nil, List.nil_append, makeMacLoop_nil]
    rfl
  | cons c s ih =>
    rw [List.mem_cons, not_or] at hs
    cases i with
    | zero => rfl
    | succ i =>
      have hpad : ((c :: s).take (i + 1)).rightpad (i + 1) 0 = c :: (s.take i).rightpad i 0 := by
        rw [List.take_succ_cons, List.rightpad, List.rightpad, List.length_cons,
          Nat.add_sub_add_right, List.cons_append]
      rw [hpad, List.foldl_cons, ← ih hs.2]
      exact if_neg (Ne.symm hs.1)

theorem makeMac_eq (hs : 0 ∉ s) :
    makeMac char (s ++ [0]) = some ((macBytes s).foldl (takeUp char) 0) :=
  makeMacLoop_eq hs sizeofMac 0

/-! ### The bytes -/

theorem length_macBytes (s : List UInt8) : (macBytes s).length = sizeofMac := by
  rw [macBytes, List.length_rightpad, List.length_take]
  omega

/-- The padding begins where the string ends. -/
theorem takeWhile_macBytes (hs : 0 ∉ s) : (macBytes s).takeWhile (· ≠ 0) = s.take sizeofMac := by
  have htake : 0 ∉ s.take sizeofMac := fun h => hs (List.mem_of_mem_take h)
  rw [macBytes, List.rightpad]
  cases sizeofMac - (s.take sizeofMac).length with
  | zero =>
    rw [List.replicate_zero, List.append_nil]
    exact Sentinel.takeWhile_of_notMem htake
  | succ n =>
    rw [List.replicate_succ]
    exact Sentinel.takeWhile_append_cons htake _

/-- The padded bytes are the same exactly if the first six are. -/
theorem macBytes_eq_iff (hs : 0 ∉ s) (hs' : 0 ∉ s') :
    macBytes s = macBytes s' ↔ s.take sizeofMac = s'.take sizeofMac := by
  constructor
  · intro h
    rw [← takeWhile_macBytes hs, h, takeWhile_macBytes hs']
  · intro h
    rw [macBytes, h, ← macBytes]

theorem mem_macBytes {c : UInt8} (h : c ∈ macBytes s) : c ∈ s.take sizeofMac ∨ c = 0 := by
  rw [macBytes, List.rightpad, List.mem_append] at h
  exact h.imp_right List.eq_of_mem_replicate

/-! ### Bytes that are taken up as they are -/

/-- A char that is not negative is its byte. -/
theorem toUInt64_of_lt {c : UInt8} (hc : c.toNat < 128) : char.toUInt64 c = c.toUInt64 := by
  cases char with
  | unsigned => rfl
  | signed =>
    have hmsb : c.toBitVec.msb = false := by
      rw [BitVec.msb_eq_false_iff_two_mul_lt]
      show 2 * c.toNat < 256
      omega
    show UInt64.ofBitVec (c.toBitVec.signExtend 64) = UInt64.ofBitVec (c.toBitVec.setWidth 64)
    rw [BitVec.signExtend_eq_setWidth_of_msb_false hmsb]

/-- No byte of the address changes when it is widened. -/
def Plain (char : PlainChar) (s : List UInt8) : Prop :=
  char = .unsigned ∨ ∀ c ∈ s.take sizeofMac, c.toNat < 128

/-- Without negative chars the address is the number of the bytes. -/
theorem toNat_foldl_macBytes (h : Plain char s) :
    ((macBytes s).foldl (takeUp char) 0).toNat = value (macBytes s) := by
  have hwiden : ∀ c ∈ macBytes s, char.toUInt64 c = c.toUInt64 := by
    intro c hc
    rcases h with rfl | h
    · rfl
    · rcases mem_macBytes hc with hc | rfl
      · exact toUInt64_of_lt (h c hc)
      · exact toUInt64_zero char
  have hlen : (macBytes s).length ≤ 8 := by
    rw [length_macBytes]
    decide
  have hfold : (macBytes s).foldl (takeUp char) 0 =
      (macBytes s).foldl (fun (x : UInt64) c => x <<< 8 ||| c.toUInt64) 0 :=
    List.foldl_ext _ _ _ fun x c hc => by rw [takeUp, hwiden c hc]
  rw [hfold, toNat_foldl_shift hlen]

/-- Without negative chars the bytes of the address are those of the name. -/
theorem isMac_of_plain (h : Plain char s) : IsMac s ((macBytes s).foldl (takeUp char) 0) := by
  rw [IsMac, toNat_foldl_macBytes h]
  refine ⟨?_, ?_⟩
  · have hlt := value_lt (macBytes s)
    rw [length_macBytes] at hlt
    exact hlt
  · rw [← length_macBytes s]
    exact bytes_value (macBytes s)

/-! ### Bytes with a sign -/

/-- A negative char is extended with ones. -/
theorem le_toNat_toUInt64 {c : UInt8} (hc : 128 ≤ c.toNat) :
    2 ^ 64 - 256 ≤ (PlainChar.signed.toUInt64 c).toNat := by
  have hmsb : c.toBitVec.msb = true := by
    rw [BitVec.msb_eq_true_iff_two_mul_ge]
    show 2 * c.toNat ≥ 256
    omega
  show 2 ^ 64 - 256 ≤ (c.toBitVec.signExtend 64).toNat
  rw [BitVec.toNat_signExtend, hmsb]
  show 2 ^ 64 - 256 ≤ (c.toBitVec.setWidth 64).toNat + (2 ^ 64 - 2 ^ 8)
  omega

/-- The bits above stay set. -/
theorem le_toNat_takeUp {x : UInt64} {p : ℕ} (hp : p * 256 ≤ 2 ^ 64) (hx : 2 ^ 64 - p ≤ x.toNat)
    (c : UInt8) : 2 ^ 64 - p * 256 ≤ (takeUp char x c).toNat := by
  have hlt := x.toNat_lt
  have hshift : 2 ^ 64 - p * 256 ≤ (x <<< 8).toNat := by
    show 2 ^ 64 - p * 256 ≤ (x.toBitVec <<< 8).toNat
    rw [BitVec.toNat_shiftLeft, Nat.shiftLeft_eq]
    show 2 ^ 64 - p * 256 ≤ x.toNat * 2 ^ 8 % 2 ^ 64
    omega
  rw [takeUp, UInt64.toNat_or]
  exact Nat.le_trans hshift Nat.left_le_or

/-- Once a negative char has been taken up, the high bits stay set. -/
theorem le_toNat_foldl {l : List UInt8} (hlen : l.length ≤ 8) (h : ∃ c ∈ l, 128 ≤ c.toNat) :
    2 ^ 64 - 256 ^ l.length ≤ (l.foldl (takeUp .signed) 0).toNat := by
  induction l using List.reverseRecOn with
  | nil =>
    obtain ⟨c, hc, -⟩ := h
    cases hc
  | append_singleton l c ih =>
    rw [List.length_append, List.length_singleton] at hlen
    have hpow : 256 ^ (l.length + 1) ≤ 2 ^ 64 :=
      Nat.pow_le_pow_right (n := 256) (by decide) hlen
    rw [List.foldl_append, List.length_append, List.length_singleton]
    show _ ≤ (takeUp .signed (l.foldl (takeUp .signed) 0) c).toNat
    by_cases hc : 128 ≤ c.toNat
    · have hle : 256 ≤ 256 ^ (l.length + 1) := Nat.le_self_pow (Nat.succ_ne_zero _) 256
      have hwide := le_toNat_toUInt64 hc
      rw [takeUp, UInt64.toNat_or]
      refine Nat.le_trans ?_ Nat.right_le_or
      omega
    · -- a byte before has its sign
      obtain ⟨d, hd, hd128⟩ := h
      have hmem : d ∈ l := by
        rcases List.mem_append.mp hd with hd | hd
        · exact hd
        · rw [List.mem_singleton.mp hd] at hd128
          exact absurd hd128 hc
      have hbefore := ih (by omega) ⟨d, hmem, hd128⟩
      rw [Nat.pow_succ] at hpow ⊢
      exact le_toNat_takeUp hpow hbefore c

/-- An address of 48 bits has taken up no negative char. -/
theorem plain_of_lt (h : ((macBytes s).foldl (takeUp char) 0).toNat < 2 ^ 48) : Plain char s := by
  cases char with
  | unsigned => exact .inl rfl
  | signed =>
    refine .inr fun c hc => ?_
    by_contra hge
    have hmem : c ∈ macBytes s := List.mem_append_left _ hc
    have hlen : (macBytes s).length ≤ 8 := by
      rw [length_macBytes]
      decide
    have hle := le_toNat_foldl hlen ⟨c, hmem, by omega⟩
    rw [length_macBytes] at hle
    have hpow : 256 ^ sizeofMac = 2 ^ 48 := rfl
    omega

/-! ### The address -/

/-- **The addresses of two strings** are those they should have, different unless the strings begin
alike, exactly if `char` is unsigned or none of the bytes they are made from is 128 or more. -/
theorem makesMacs_iff (char : PlainChar) {s s' : List UInt8} (hs : 0 ∉ s) (hs' : 0 ∉ s') :
    MakesMacs char s s' ↔
      char = .unsigned ∨ ∀ c ∈ s.take sizeofMac ++ s'.take sizeofMac, c.toNat < 128 := by
  have hplain : Plain char s ∧ Plain char s' ↔ char = .unsigned ∨
      ∀ c ∈ s.take sizeofMac ++ s'.take sizeofMac, c.toNat < 128 := by
    rw [List.forall_mem_append]
    exact or_and_left.symm
  rw [← hplain, MakesMacs]
  simp only [makeMac_eq hs, makeMac_eq hs', Option.some.injEq]
  constructor
  · rintro ⟨x, x', rfl, rfl, hx, hx', -⟩
    exact ⟨plain_of_lt hx.1, plain_of_lt hx'.1⟩
  · rintro ⟨h, h'⟩
    refine ⟨_, _, rfl, rfl, isMac_of_plain h, isMac_of_plain h', ?_⟩
    rw [← macBytes_eq_iff hs hs', ← UInt64.toNat_inj, toNat_foldl_macBytes h,
      toNat_foldl_macBytes h']
    constructor
    · exact eq_of_value_eq (by rw [length_macBytes, length_macBytes])
    · exact congrArg value

theorem makesMacs_letters : MakesMacs .signed [97] [98] ↔
    PlainChar.signed = .unsigned ∨
      ∀ c ∈ ([97] : List UInt8).take sizeofMac ++ [98].take sizeofMac, c.toNat < 128 :=
  makesMacs_iff .signed (by decide) (by decide)

/-- The sign of the second byte hides the first one. -/
theorem makeMac_signed : (0 : UInt8) ∉ [97, 128] ∧ (0 : UInt8) ∉ [98, 128] ∧
    makeMac .signed [97, 128, 0] = some 0xffffff8000000000 ∧
    makeMac .signed [98, 128, 0] = some 0xffffff8000000000 ∧
    ¬ MakesMacs .signed [97, 128] [98, 128] := by
  have h97 : makeMac .signed [97, 128, 0] = some 0xffffff8000000000 := by decide
  refine ⟨by decide, by decide, h97, by decide, ?_⟩
  rintro ⟨x, x', hx, -, hmac, -⟩
  obtain rfl := Option.some.inj (h97.symm.trans hx)
  exact absurd hmac.1 (by decide)

end Camkes.Dhcp
