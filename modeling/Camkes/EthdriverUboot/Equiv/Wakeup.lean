import Camkes.EthdriverUboot.Equiv.Queue
import Camkes.EthdriverUboot.Wakeup

/-!
# The clients of the U-Boot Ethernet driver component are always woken again

`client_rx` returns a value that is not positive only after an emit for its caller
(`emit_of_clientRx`), and `server_init` emits for every client.  So every client keeps a
notification or stays in its calling loop (`always_woken`).
-/

namespace Camkes.EthdriverUboot

open Machine

/-! ### Emits -/

/-- The emit of `client_rx` is for the badge that the caller is known by. -/
theorem toUInt32_senderWord (sender : UInt32) : (senderWord sender).toUInt32 = sender := by
  apply UInt32.toBitVec_inj.mp
  simp only [senderWord, UInt64.toBitVec_toUInt32, Int64.toBitVec_toUInt64,
    Int32.toBitVec_toInt64, UInt32.toBitVec_toInt32]
  ext i hi
  have hi' : i < 64 := by omega
  rw [BitVec.getElem_setWidth, BitVec.getLsbD_signExtend, if_pos hi, decide_eq_true hi',
    Bool.true_and, BitVec.getLsbD_eq_getElem]

/-- A call that returns no frame emits to its caller. -/
theorem emit_of_deliverRx {clients clients' : List Client} {sender : UInt32} {ret len : ℤ}
    {effects : List Effect} (h : deliverRx clients sender = some (ret, len, clients', effects)) :
    0 < ret ∨ .clientEmit sender ∈ effects := by
  unfold deliverRx at h
  obtain ⟨i, hfind, h⟩ := Option.bind_eq_some_iff.mp h
  obtain ⟨client, hi, h⟩ := Option.bind_eq_some_iff.mp h
  obtain ⟨c, hi', hid⟩ := clientId_of_findSender hfind
  obtain rfl := Option.some.inj (hi.symm.trans hi')
  have hemit : client.clientId.toUInt32 = sender := by rw [hid, toUInt32_senderWord]
  split_ifs at h with hempty
  · simp only [Option.some.injEq, Prod.mk.injEq] at h
    obtain ⟨-, -, -, rfl⟩ := h
    exact .inr (by rw [hemit]; exact List.mem_singleton_self _)
  · obtain ⟨rx, -, h⟩ := Option.bind_eq_some_iff.mp h
    obtain ⟨bytes, -, h⟩ := Option.bind_eq_some_iff.mp h
    simp only at h
    split_ifs at h
    · simp only [Option.some.injEq, Prod.mk.injEq] at h
      obtain ⟨-, -, -, rfl⟩ := h
      exact .inr (by rw [hemit]; simp)
    · simp only [Option.some.injEq, Prod.mk.injEq] at h
      obtain ⟨rfl, -⟩ := h
      exact .inl Int.one_pos

/-- **A call that ends the loop of its caller has emitted for it.** -/
theorem emit_of_clientRx {drv : Ethdriver} (hinit : drv.doneInit = true) {uboot : List Packet}
    {sender : UInt32} {r : RxResult} (h : clientRx drv uboot sender = some r) :
    0 < r.ret ∨ .clientEmit sender ∈ r.effects := by
  rw [clientRx, hinit, Bool.not_true, if_neg Bool.false_ne_true] at h
  obtain ⟨⟨clients, uboot', frees⟩, -, h⟩ := Option.bind_eq_some_iff.mp h
  obtain ⟨⟨ret, len, clients', effects⟩, hdeliver, h⟩ := Option.bind_eq_some_iff.mp h
  obtain rfl := Option.some.inj h
  exact (emit_of_deliverRx hdeliver).imp_right fun hmem => List.mem_append_right _ hmem

theorem emit_of_serverInit (t : Template) {badge : UInt64} (h : badge ∈ t.badges) :
    .clientEmit badge.toUInt32 ∈ (serverInit t).2 := by
  rw [← serverInit_clientIds] at h
  obtain ⟨client, hclient, rfl⟩ := List.mem_map.mp h
  exact List.mem_append_right _ (List.mem_map_of_mem hclient)

/-! ### The clients -/

variable {t : Template}

theorem emitAll_of_mem {notified : ℕ → Bool} {effects : List Effect} {i : ℕ}
    {badge : UInt64} (hi : t.badges[i]? = some badge)
    (h : .clientEmit badge.toUInt32 ∈ effects) : emitAll t notified effects i = true := by
  have hemit : effects.contains (.clientEmit badge.toUInt32) = true := List.contains_iff_mem.mpr h
  rw [emitAll, hi, Option.any_some, hemit, Bool.or_true]

theorem emitAll_of_notified {notified : ℕ → Bool} {i : ℕ} (h : notified i = true)
    (effects : List Effect) : emitAll t notified effects i = true := by
  rw [emitAll, h, Bool.true_or]

/-- After initialisation every client has a notification or is in its calling loop. -/
def Awake (t : Template) (w : Wakeup) : Prop :=
  w.drv.doneInit = true → ∀ i < t.badges.length, w.notified i = true ∨ w.calling i = true

/-- No step leaves a client that waits without a notification. -/
theorem awake_step {w w' : Wakeup} {e : WakeupEvent} (h : Awake t w)
    (hstep : (wakeupMachine t).step w e = some w') : Awake t w' := by
  cases e with
  | arrive packet =>
    obtain rfl := Option.some.inj hstep
    exact h
  | init =>
    obtain rfl := Option.some.inj hstep
    intro _ i hi
    have hbadge := List.getElem?_eq_getElem hi
    exact .inl (emitAll_of_mem hbadge (emit_of_serverInit t (List.getElem_mem hi)))
  | wake j =>
    obtain rfl := Option.some.inj hstep
    intro hinit i hi
    by_cases hij : i = j
    · subst hij
      exact .inr (Function.update_self ..)
    · simp only [Function.update_of_ne hij]
      exact h hinit i hi
  | rx j =>
    obtain ⟨badge, hj, hstep⟩ := Option.bind_eq_some_iff.mp hstep
    obtain ⟨r, hr, hstep⟩ := Option.bind_eq_some_iff.mp hstep
    obtain rfl := Option.some.inj hstep
    intro hinit i hi
    by_cases hinit' : w.drv.doneInit = true
    · have hemit := emit_of_clientRx hinit' hr
      by_cases hij : i = j
      · subst hij
        refine hemit.symm.imp (fun hmem => emitAll_of_mem hj hmem) fun hret => ?_
        simp only [Function.update_self, gt_iff_lt, decide_eq_true_eq]
        exact hret
      · simp only [Function.update_of_ne hij]
        exact (h hinit' i hi).imp_left fun hnot => emitAll_of_notified hnot _
    · -- before initialisation a call changes nothing
      rw [clientRx, if_pos (by simpa using hinit')] at hr
      obtain rfl := Option.some.inj hr
      exact absurd hinit hinit'

/-- **Clients are always woken again**: in any run that starts before initialisation, with clients
that wait or call already, once `server_init` has finished every client has a notification pending
or is in its calling loop.  So a client that waits can always go on. -/
theorem always_woken (t : Template) (notified calling : ℕ → Bool)
    {ts : List (Transition Wakeup WakeupEvent)} {w : Wakeup}
    (hrun : (wakeupMachine t).Run (.boot notified calling) ts w)
    (hinit : w.drv.doneInit = true) :
    ∀ i < t.badges.length, (w.notified i = true ∨ w.calling i = true) ∧
      (w.calling i = false → (wakeupMachine t).ok w (.wake i)) := by
  have hboot : Awake t (.boot notified calling) := nofun
  have h := hrun.invariant hboot fun _ _ _ hs _ hstep => awake_step hs hstep
  intro i hi
  refine ⟨h hinit i hi, fun hwaits => ⟨hi, hwaits, ?_⟩⟩
  refine (h hinit i hi).resolve_right ?_
  rw [hwaits]
  exact Bool.false_ne_true

/-- Client 0 calls too early and waits.  After initialisation both clients are woken. -/
def earlyCall : List WakeupEvent :=
  [.rx 0, .arrive [2, 0, 0, 0, 0, 1], .init, .wake 0, .rx 0, .arrive (.replicate 6 0xff), .wake 1,
    .rx 1]

theorem always_woken_earlyCall : ∃ ts w,
    (wakeupMachine (withBadges [1, 2])).Run (.boot (fun _ => false) fun i => i == 0) ts w ∧
    events ts = earlyCall ∧ w.calling 0 = false ∧
    (wakeupMachine (withBadges [1, 2])).ok w (.wake 0) := by
  obtain ⟨ts, w, hrun, hevents, hp⟩ := exists_run_of_exec (wakeupMachine (withBadges [1, 2]))
    (.boot (fun _ => false) fun i => i == 0) earlyCall
    (fun r => r.2.drv.doneInit ∧ r.2.calling 0 = false) (by decide +kernel)
  obtain ⟨hinit, hwaits⟩ := of_decide_eq_true hp
  exact ⟨ts, w, hrun, hevents, hwaits,
    (always_woken (withBadges [1, 2]) _ _ hrun hinit 0 (by decide)).2 hwaits⟩

end Camkes.EthdriverUboot
