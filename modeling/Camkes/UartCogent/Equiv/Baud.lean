import Camkes.UartCogent.Serial
import Mathlib.Algebra.Order.Group.Unbundled.Abs
import Mathlib.Tactic.Linarith

/-!
# The baud rate

The UART divides its clock by `bmr + 1`.  The divisor for a rate `b` should be within one step of
`clk / b`, which `bmr = clk / b - 1` would be, but the code computes `clk / (b - 1)`.
-/

namespace Camkes.UartCogent

/-! ### The divisor -/

/-- The rate `b` with a divisor that is within one step of the exact one. -/
def WithinOneStep (clk b divisor : ℕ) : Prop := |(clk : ℤ) - b * divisor| < b

variable {clk b : ℕ}

theorem withinOneStep_iff {divisor : ℕ} :
    WithinOneStep clk b (divisor + 1) ↔ b * divisor < clk ∧ clk < b * (divisor + 2) := by
  rw [WithinOneStep, abs_lt]
  push_cast
  constructor
  · rintro ⟨hlo, hhi⟩
    zify
    constructor
    · linarith
    · linarith
  · rintro ⟨hlo, hhi⟩
    zify at hlo hhi
    constructor
    · linarith
    · linarith

/-- Dividing by less gives no less, and the same only if the remainder and the quotient are
small. -/
theorem div_pred_eq_iff (hb : 1 < b) : clk / (b - 1) = clk / b ↔ clk % b + clk / b + 1 < b := by
  have hdiv := Nat.div_add_mod clk b
  have hle : clk / b ≤ clk / (b - 1) := Nat.div_le_div_left (Nat.sub_le b 1) (by omega)
  have hsplit : (b - 1) * (clk / b + 1) + (clk / b + 1) = b * (clk / b) + b := by
    rw [← Nat.succ_mul, Nat.succ_eq_add_one, Nat.sub_add_cancel hb.le, Nat.mul_succ]
  have hlt : clk / (b - 1) < clk / b + 1 ↔ clk < (b - 1) * (clk / b + 1) := by
    rw [Nat.div_lt_iff_lt_mul (by omega), Nat.mul_comm]
  omega

/-- **The divisor** `clk / (b - 1) + 1` is within one step exactly if `b` does not divide `clk`, and
the remainder and the quotient are small. -/
theorem withinOneStep_div_pred_iff (hb : 1 < b) : WithinOneStep clk b (clk / (b - 1) + 1) ↔
    0 < clk % b ∧ clk % b + clk / b + 1 < b := by
  have hdiv := Nat.div_add_mod clk b
  have hle : clk / b ≤ clk / (b - 1) := Nat.div_le_div_left (Nat.sub_le b 1) (by omega)
  rw [withinOneStep_iff, ← div_pred_eq_iff hb]
  constructor
  · rintro ⟨hlo, -⟩
    have hquot : clk / (b - 1) ≤ clk / b := by
      rw [Nat.le_div_iff_mul_le (by omega), Nat.mul_comm]
      exact hlo.le
    have heq : clk / (b - 1) = clk / b := Nat.le_antisymm hquot hle
    rw [heq] at hlo
    exact ⟨by omega, heq⟩
  · rintro ⟨hmod, heq⟩
    rw [heq]
    have hlt := Nat.mod_lt clk (show 0 < b by omega)
    have hmul := Nat.mul_add b (clk / b) 2
    omega

/-! ### The registers -/

theorem toNat_uartRefClk : uartRefClk.toNat = 50000000 := rfl

/-- The `bmr` that is computed. -/
theorem toNat_bmr (regs : IMXUartRegs) {bps : U64} (hlo : 0 < bps.toNat)
    (hhi : bps.toNat < 2 ^ 32) :
    (imxUartSetBaudCg regs bps).bmr.toNat = 50000000 / (bps.toNat - 1) := by
  have hwidth : (bps.setWidth 32 : U32).toNat = bps.toNat := by
    rw [BitVec.toNat_setWidth]
    exact Nat.mod_eq_of_lt hhi
  have hsub : (bps.setWidth 32 - 1 : U32).toNat = bps.toNat - 1 := by
    rw [BitVec.toNat_sub_of_le, hwidth]
    · rfl
    · rw [BitVec.le_def, hwidth]
      exact hlo
  show (uartRefClk / (bps.setWidth 32 - 1)).toNat = _
  rw [BitVec.toNat_udiv, hsub, toNat_uartRefClk]

/-- **The baud rate** is within one step of the one that was asked for exactly if it does not divide
the clock, and the remainder and the quotient are small. -/
theorem withinOneStep_bmr_iff (regs : IMXUartRegs) (bps : U64) (hlo : 763 ≤ bps.toNat)
    (hhi : bps.toNat ≤ 50000000) :
    WithinOneStep uartRefClk.toNat bps.toNat ((imxUartSetBaudCg regs bps).bmr.toNat + 1) ↔
      0 < uartRefClk.toNat % bps.toNat ∧
        uartRefClk.toNat % bps.toNat + uartRefClk.toNat / bps.toNat + 1 < bps.toNat := by
  rw [toNat_bmr regs (by omega) (by omega), toNat_uartRefClk]
  exact withinOneStep_div_pred_iff (by omega)

def zeroRegs : IMXUartRegs := ⟨0, 0, 0, 0, 0, 0, 0, 0, 0, 0, 0, 0, 0, 0, 0, 0⟩

/-- The rate that the driver uses. -/
theorem withinOneStep_bmr_115200 :
    WithinOneStep uartRefClk.toNat 115200 ((imxUartSetBaudCg zeroRegs 115200).bmr.toNat + 1) ↔
      0 < uartRefClk.toNat % 115200 ∧
        uartRefClk.toNat % 115200 + uartRefClk.toNat / 115200 + 1 < 115200 :=
  withinOneStep_bmr_iff zeroRegs 115200 (by decide) (by decide)

/-- The divisor for 4800 is 10419, where 50000000 / 4800 is less than 10417. -/
theorem not_withinOneStep_bmr_4800 :
    ¬ WithinOneStep uartRefClk.toNat 4800 ((imxUartSetBaudCg zeroRegs 4800).bmr.toNat + 1) := by
  rw [withinOneStep_iff]
  decide

end Camkes.UartCogent
