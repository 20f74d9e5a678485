import Camkes.CakemlRegex.Filter

/-!
# When the filter delivers what it has matched

A matched string reaches the Consumer with the bytes that follow it in memory, up to the first NUL.
So it is delivered unchanged exactly when a NUL follows it (`clientTransferString_eq_iff`).
-/

namespace Camkes.CakemlRegex

variable {language : List UInt8 → Bool}

/-- A matched string is delivered with what follows it. -/
theorem clientTransferString_of_mem {t : Transfer} (h : language t.s = true) :
    clientTransferString language t = (CString.read t.after).map fun tail => [t.s ++ tail] := by
  unfold clientTransferString matchString ffiemitString
  rw [if_pos h, CString.read_append t.not_mem]
  cases CString.read t.after with
  | none => rfl
  | some tail => rfl

theorem clientTransferString_of_not_mem {t : Transfer} (h : ¬ language t.s = true) :
    clientTransferString language t = some [] :=
  if_neg h

theorem clientTransferString_eq_iff {t : Transfer} (h : language t.s = true) :
    clientTransferString language t = some [t.s] ↔ t.after.head? = some 0 := by
  rw [clientTransferString_of_mem h, ← CString.read_eq_some_nil_iff]
  cases CString.read t.after with
  | none => simp
  | some tail => simp

/-- **The filter**: the strings delivered are the sent strings of the language, unchanged and in
order, exactly when each sent string of the language is followed in memory by a NUL. -/
theorem transferAll_eq_iff (language : List UInt8 → Bool) (ts : List Transfer) :
    transferAll language ts = some ((ts.map Transfer.s).filter language) ↔
      ∀ t ∈ ts, language t.s = true → t.after.head? = some 0 := by
  induction ts with
  | nil => exact iff_of_true rfl (by simp)
  | cons t ts ih =>
    rw [List.forall_mem_cons, ← ih, List.map_cons, List.filter_cons, transferAll]
    by_cases h : language t.s = true
    · rw [if_pos h, ← clientTransferString_eq_iff h, clientTransferString_of_mem h]
      -- one string is delivered for `t`, so it is the first of all
      cases hread : CString.read t.after with
      | none => simp [h]
      | some tail =>
        cases hrest : transferAll language ts with
        | none => simp
        | some rest => simp [h]
    · rw [if_neg h, clientTransferString_of_not_mem h]
      cases hrest : transferAll language ts with
      | none => simp
      | some rest => simp [h]

/-- The language of one string, which is followed in memory by a letter. -/
def onlyA (s : List UInt8) : Bool := s = [97]

def followed : Transfer where
  s := [97]
  not_mem := by decide
  after := [98, 0]

/-- The string delivered is another one, and not in the language. -/
theorem transferAll_followed :
    transferAll onlyA [followed] = some [[97, 98]] ∧ onlyA [97, 98] = false ∧
      transferAll onlyA [followed] ≠ some (([followed].map Transfer.s).filter onlyA) := by
  decide

end Camkes.CakemlRegex
