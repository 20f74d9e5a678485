import Camkes.SecurityDemo.Equiv.LogFile
import Camkes.SecurityDemo.EthSend

/-!
# Which characters reach PicoServer

While nothing is lost, the characters put into the pending buffer are those that PicoServer has
accepted followed by those still pending (`Kept`).  `transmit_pending_eth_buffer` keeps this exactly
when PicoServer accepts all pending characters and `strncpy` has cut none of them off (`SendsAll`);
whatever is not accepted is lost, where the log path keeps it.
-/

namespace Camkes.SecurityDemo

open CArray Machine

/-- The characters that were not accepted are still pending, in order; those that were accepted are
the first of those put into the buffer. -/
def Kept (s : EthSystem) : Prop := s.put = s.accepted ++ s.eth.contents

/-- The call sends all that is pending, without bytes that `strncpy` cuts off. -/
def SendsAll (s : EthSystem) : EthEvent → Prop
  | .store _ => True
  | .transmit result => result.toNat = s.eth.length ∧ CString.NulLast s.eth.contents

instance (s : EthSystem) (e : EthEvent) : Decidable (SendsAll s e) :=
  match e with
  | .store _ => inferInstanceAs (Decidable True)
  | .transmit _ => inferInstanceAs (Decidable (_ ∧ _))

variable {s s' : EthSystem}

/-! ### One step -/

/-- The pending characters are copied and handed over, and the buffer is cleared. -/
theorem transmit_spec {eth : Pending ethTxBufLen} (h : eth.length ≤ ethTxBufLen)
    (ethSendBuf : Vector UInt8 ethSendShmemSize) :
    ∃ eth' ethSendBuf', transmitPendingEthBuffer eth ethSendBuf =
        some (eth', ethSendBuf', CString.strncpy eth.contents) ∧ eth'.length = 0 := by
  have hlen : (CString.strncpy eth.contents).length = eth.length := by
    rw [CString.length_strncpy]
    exact Stack.length_contents _ h
  have hroom : eth.length ≤ ethSendShmemSize := h
  obtain ⟨buf₁, hcopy, -⟩ := memcpy_eq_some ethSendBuf (hlen ▸ hroom)
  have hsent : slice buf₁ 0 eth.length = some (CString.strncpy eth.contents) := by
    rw [← hlen]
    exact slice_memcpy_self hcopy
  have hzeros : (List.replicate eth.length (0 : UInt8)).length ≤ ethSendShmemSize := by
    rwa [List.length_replicate]
  obtain ⟨buf₂, hclear, -⟩ := memcpy_eq_some buf₁ hzeros
  obtain ⟨eth', heth, hnil⟩ := clear_eq_some h
  refine ⟨eth', buf₂, ?_, hnil⟩
  simp only [transmitPendingEthBuffer, slice_contents h, hcopy, hsent, hclear, heth,
    Option.bind_eq_bind, Option.bind_some]

/-- The buffer does not overflow, and nothing has been lost. -/
def EthInv (s : EthSystem) : Prop := s.eth.length ≤ ethTxBufLen ∧ Kept s

theorem ethInv_init : EthInv .init := ⟨Nat.zero_le _, rfl⟩

/-- **What a step keeps**: storing a character loses nothing, and sending loses nothing exactly when
it sends all. -/
theorem kept_step {e : EthEvent} (h : EthInv s) (hok : ethMachine.ok s e)
    (hstep : ethMachine.step s e = some s') :
    s'.eth.length ≤ ethTxBufLen ∧ (Kept s' ↔ SendsAll s e) := by
  obtain ⟨hle, hkept⟩ := h
  have hkept : s.put = s.accepted ++ s.eth.contents := hkept
  cases e with
  | store c =>
    obtain rfl := Option.some.inj hstep
    refine ⟨length_store_le hle c, iff_of_true ?_ trivial⟩
    show (if s.eth.length < ethTxBufLen then s.put ++ [c] else s.put) =
      s.accepted ++ (s.eth.store c).contents
    rw [contents_store hle, ← List.append_assoc, ← hkept]
    by_cases hfull : s.eth.length = ethTxBufLen
    · have hlt : ¬ s.eth.length < ethTxBufLen := by omega
      rw [if_pos hfull, if_neg hlt, List.append_nil]
    · have hlt : s.eth.length < ethTxBufLen := by omega
      rw [if_neg hfull, if_pos hlt]
  | transmit result =>
    obtain ⟨eth', buf', htransmit, hnil⟩ := transmit_spec hle s.ethSendBuf
    have hs' : some { s with
        eth := eth'
        ethSendBuf := buf'
        accepted := s.accepted ++ (CString.strncpy s.eth.contents).take result.toNat } =
          some s' := by
      rw [← hstep]
      show _ = s.step (.transmit result)
      simp only [EthSystem.step, htransmit, Option.bind_eq_bind, Option.bind_some]
    obtain rfl := Option.some.inj hs'
    have hcontents : eth'.contents = [] := by
      rw [Pending.contents, hnil]
      exact List.take_zero
    have hlen : s.eth.contents.length = s.eth.length := Stack.length_contents _ hle
    have hresult : result.toNat ≤ s.eth.contents.length := by
      rw [hlen]
      rcases hok with rfl | ⟨hpos, hresult⟩
      · exact Nat.zero_le _
      · omega
    refine ⟨hnil ▸ Nat.zero_le _, ?_⟩
    show s.put = s.accepted ++ (CString.strncpy s.eth.contents).take result.toNat ++
      eth'.contents ↔ _
    rw [hcontents, List.append_nil, hkept, List.append_cancel_left_eq,
      CString.eq_take_strncpy_iff _ hresult, hlen]
    rfl

/-! ### Runs -/

/-- **Unsent characters**: in a run with failed and partial sends, nothing is lost up to any step
exactly when every call sends all that is pending. -/
theorem kept_iff_sendsAll {ts : List (Transition EthSystem EthEvent)}
    (hrun : ethMachine.Run .init ts s) :
    (∀ t ∈ ts, Kept t.after) ↔ ∀ t ∈ ts, SendsAll t.before t.event := by
  refine hrun.forall_after_iff ethInv_init ?_ ?_
  · intro s e s' h hok hstep hall
    obtain ⟨hle, hkept⟩ := kept_step h hok hstep
    exact ⟨⟨hle, hkept.mpr hall⟩, hkept.mpr hall⟩
  · intro s e s' h hok hstep hkept
    exact (kept_step h hok hstep).2.mp hkept

/-- Two characters are sent, and a third one after them. -/
def sendsAll : List EthEvent := [.store 97, .store 98, .transmit 2, .store 99, .transmit 1]

theorem kept_iff_sendsAll_three : ∃ ts s, ethMachine.Run .init ts s ∧ events ts = sendsAll ∧
    s.accepted = [97, 98, 99] ∧ ∀ t ∈ ts, Kept t.after := by
  obtain ⟨ts, s, hrun, hevents, hp⟩ := exists_run_of_exec ethMachine .init sendsAll
    (fun r => r.2.accepted = [97, 98, 99] ∧ ∀ t ∈ r.1, SendsAll t.before t.event)
    (by decide +kernel)
  obtain ⟨haccepted, hall⟩ := of_decide_eq_true hp
  exact ⟨ts, s, hrun, hevents, haccepted, (kept_iff_sendsAll hrun).mpr hall⟩

/-- PicoServer accepts one of two characters. -/
def sendsOne : List EthEvent := [.store 97, .store 98, .transmit 1]

/-- The other one is lost. -/
theorem not_kept_sendsOne : ∃ ts s, ethMachine.Run .init ts s ∧ events ts = sendsOne ∧
    s.put = [97, 98] ∧ s.accepted = [97] ∧ s.eth.length = 0 ∧ ¬ ∀ t ∈ ts, Kept t.after := by
  obtain ⟨ts, s, hrun, hevents, hp⟩ := exists_run_of_exec ethMachine .init sendsOne
    (fun r => (r.2.put = [97, 98] ∧ r.2.accepted = [97] ∧ r.2.eth.length = 0) ∧
      r.1.any fun t => ¬ t.after.put = t.after.accepted ++ t.after.eth.contents)
    (by decide +kernel)
  obtain ⟨⟨hput, haccepted, hlen⟩, hlost⟩ := of_decide_eq_true hp
  refine ⟨ts, s, hrun, hevents, hput, haccepted, hlen, fun h => ?_⟩
  obtain ⟨t, ht, hne⟩ := List.any_eq_true.mp hlost
  exact of_decide_eq_true hne (h t ht)

end Camkes.SecurityDemo
