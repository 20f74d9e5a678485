import Camkes.PicotcpSingle.EthTx
import Camkes.PicotcpSingle.Equiv.EthBuf

/-!
# Ownership of transmit buffers

`TxInv` says that no buffer is in the pool twice or in the pool and held by the driver, and that the
frames of the held buffers are intact.  All completions, also those of a nested `raw_tx`, are pushes
of held buffers (`TxInv.completed`), so `pico_eth_send` keeps it whatever `raw_tx` does
(`picoEthSend_spec`).

The number of buffers that are free or held is another matter: it decreases when `raw_tx` sends a
frame at once, as `pico_eth_send` does not put the buffer back then (`noLeak_iff`).
-/

namespace Camkes.PicotcpSingle.Ethdriver

open CArray Machine

/-- The buffers of `pool` and `held` are distinct, and the frames of the held ones are in place. -/
structure TxInv (tx : BufPool txBufs) (held : List (TxPtr × List UInt8)) (pool : List TxPtr) :
    Prop where
  holds : tx.Holds pool
  nodup : (pool ++ held.map Prod.fst).Nodup
  bufs : ∀ b, (tx.bufs.get b).buf ≠ none
  intact : ∀ p ∈ held, ∃ block, (tx.bufs.get p.1).buf = some block ∧
    slice block 0 p.2.length = some p.2

variable {tx : BufPool txBufs} {held : List (TxPtr × List UInt8)} {pool : List TxPtr}

theorem length_le_of_nodup {bs : List TxPtr} (h : bs.Nodup) : bs.length ≤ txBufs := by
  have hsub := List.subperm_of_subset h fun b _ => List.mem_finRange b
  have hle := hsub.length_le
  rwa [List.length_finRange] at hle

theorem TxInv.not_mem_held {b : TxPtr} (h : TxInv tx held (pool ++ [b])) :
    b ∉ pool ++ held.map Prod.fst := by
  have hperm : (pool ++ [b] ++ held.map Prod.fst).Perm (b :: (pool ++ held.map Prod.fst)) := by
    rw [List.append_assoc, List.singleton_append]
    exact List.perm_middle
  exact (List.nodup_cons.mp (hperm.nodup_iff.mp h.nodup)).1

/-- A buffer that is neither free nor held can be put into the pool. -/
theorem TxInv.pushed (h : TxInv tx held pool) {b : TxPtr} (hb : b ∉ pool ++ held.map Prod.fst) :
    ∃ tx', tx.push b = some tx' ∧ TxInv tx' held (pool ++ [b]) := by
  have hperm : (pool ++ [b] ++ held.map Prod.fst).Perm (b :: (pool ++ held.map Prod.fst)) := by
    rw [List.append_assoc, List.singleton_append]
    exact List.perm_middle
  have hnodup := hperm.nodup_iff.mpr (List.nodup_cons.mpr ⟨hb, h.nodup⟩)
  have hle := length_le_of_nodup hnodup
  simp only [List.length_append, List.length_singleton] at hle
  obtain ⟨tx', hpush, hbufs, hholds⟩ := h.holds.push b (by omega)
  refine ⟨tx', hpush, hholds, hnodup, ?_, ?_⟩
  · rw [hbufs]
    exact h.bufs
  · rw [hbufs]
    exact h.intact

/-- **Completions** move buffers from `held` to the pool. -/
theorem TxInv.completed (h : TxInv tx held pool) {bs : List TxPtr} (hbs : bs.Nodup)
    (hsub : ∀ b ∈ bs, b ∈ held.map Prod.fst) :
    ∃ tx', bs.foldlM ethTxComplete tx = some tx' ∧
      TxInv tx' (held.filter (·.1 ∉ bs)) (pool ++ bs) ∧
      (pool ++ bs ++ (held.filter (·.1 ∉ bs)).map Prod.fst).Perm (pool ++ held.map Prod.fst) := by
  have hheld := (List.nodup_append.mp h.nodup).2.1
  have hfilter : (held.filter (·.1 ∉ bs)).map Prod.fst = (held.map Prod.fst).filter (· ∉ bs) := by
    rw [List.filter_map]
    rfl
  have hperm : (pool ++ bs ++ (held.filter (·.1 ∉ bs)).map Prod.fst).Perm
      (pool ++ held.map Prod.fst) := by
    rw [hfilter, List.append_assoc]
    exact (perm_append_filter hbs hheld hsub).append_left pool
  have hnodup := hperm.nodup_iff.mpr h.nodup
  have hle := length_le_of_nodup hnodup
  simp only [List.length_append] at hle
  obtain ⟨tx', hfold, hbufs, hholds⟩ := h.holds.foldlM_push bs (by omega)
  refine ⟨tx', hfold, ⟨hholds, hnodup, ?_, ?_⟩, hperm⟩
  · rw [hbufs]
    exact h.bufs
  · rw [hbufs]
    intro p hp
    exact h.intact p (List.mem_of_mem_filter hp)

/-- The frame is copied to the top of the pool, which leaves the pool; it is held when it gets
enqueued. -/
theorem TxInv.copied (call : RawTxCall) (h : TxInv tx held (pool ++ [call.cookie]))
    {block block' : Block} {inputBuf : List UInt8} (hcopy : memcpy block inputBuf = some block')
    (err : EthifTx) :
    TxInv { tx with
        bufs := put tx.bufs call.cookie { tx.bufs.get call.cookie with buf := some block' }
        num := tx.num - 1 }
      (enqueues inputBuf err (some call) ++ held) pool := by
  have hb := h.not_mem_held
  have hnodup : (pool ++ held.map Prod.fst).Nodup := by
    apply List.Nodup.sublist _ h.nodup
    rw [List.append_assoc]
    exact (List.sublist_append_right _ _).append_left pool
  let x : EthBuf := { tx.bufs.get call.cookie with buf := some block' }
  have hget : ∀ c, ((put tx.bufs call.cookie x).get c).buf =
      if call.cookie = c then some block' else (tx.bufs.get c).buf := by
    intro c
    rw [get_put]
    split_ifs <;> rfl
  obtain ⟨hnum, hcont⟩ := h.holds.pop.2
  refine ⟨⟨hnum, hcont⟩, ?_, ?_, ?_⟩
  · rw [enqueues]
    split_ifs
    · have hperm : (pool ++ call.cookie :: held.map Prod.fst).Perm
          (call.cookie :: (pool ++ held.map Prod.fst)) :=
        List.perm_middle
      exact hperm.nodup_iff.mpr (List.nodup_cons.mpr ⟨hb, hnodup⟩)
    · exact hnodup
  · exact forall_get_put (P := fun buf : EthBuf => buf.buf ≠ none) h.bufs call.cookie
      (Option.some_ne_none block' : x.buf ≠ none)
  · intro p hp
    show ∃ block, ((put tx.bufs call.cookie x).get p.1).buf = some block ∧ _
    rw [hget]
    rcases List.mem_append.mp hp with hnew | hold
    · rw [enqueues] at hnew
      split_ifs at hnew
      · obtain rfl := List.mem_singleton.mp hnew
        rw [if_pos rfl]
        exact ⟨block', rfl, slice_memcpy_self hcopy⟩
      · cases hnew
    · have hne : call.cookie ≠ p.1 := by
        intro heq
        exact hb (heq ▸ List.mem_append_right _ (List.mem_map_of_mem hold))
      rw [if_neg hne]
      exact h.intact p hold

/-- The buffers that are neither free nor held after a call of `raw_tx` with this result: one that
was sent at once is lost. -/
def lost : EthifTx → ℕ
  | .complete => 1
  | .failed | .enqueued => 0

theorem length_enqueues (inputBuf : List UInt8) (err : EthifTx) (call : RawTxCall) :
    (enqueues inputBuf err (some call)).length + lost err = if err = .failed then 0 else 1 := by
  cases err <;> rfl

/-- A buffer is lost exactly when it is sent synchronously. -/
theorem lost_eq_zero_iff (err : EthifTx) : lost err = 0 ↔ err ≠ .complete := by
  cases err <;> simp [lost]

/-- **Sending** keeps the invariant, whatever `raw_tx` completes and returns. -/
theorem picoEthSend_spec (h : TxInv tx held pool) (hnum : tx.num ≠ 0) {inputBuf : List UInt8}
    {rawTx : RawTx} (hmin : 12 ≤ inputBuf.length) (hmax : inputBuf.length ≤ bufSize)
    (hnodup : rawTx.completed.Nodup)
    (hsub : ∀ b ∈ rawTx.completed, b ∈ (TxSystem.mk tx held).completable rawTx.err) :
    ∃ tx' ret call pool', picoEthSend tx inputBuf rawTx = some (tx', ret, some call) ∧
      let held' := (enqueues inputBuf rawTx.err (some call) ++ held).filter
        (·.1 ∉ rawTx.completed)
      TxInv tx' held' pool' ∧
        tx'.num + held'.length + lost rawTx.err = tx.num + held.length := by
  obtain ⟨pool, b, rfl⟩ := h.holds.exists_top hnum
  obtain ⟨htop, -⟩ := h.holds.pop
  obtain ⟨block, hblock⟩ := Option.ne_none_iff_exists'.mp (h.bufs b)
  obtain ⟨block', hcopy, -⟩ := memcpy_eq_some block hmax
  let call : RawTxCall := { phys := (tx.bufs.get b).phys, len := inputBuf.length, cookie := b }
  have hcopied := TxInv.copied call h hcopy rawTx.err
  -- what `raw_tx` completes is held once the frame has been copied
  have hcompletable : ∀ c ∈ rawTx.completed,
      c ∈ (enqueues inputBuf rawTx.err (some call) ++ held).map Prod.fst := by
    intro c hc
    have hmem := hsub c hc
    rw [TxSystem.completable, htop] at hmem
    rw [List.map_append, enqueues]
    split_ifs at hmem ⊢ <;> exact hmem
  obtain ⟨tx₁, hfold, hinv, hperm⟩ := hcopied.completed hnodup hcompletable
  have hlen := hperm.length_eq
  have hadd := length_enqueues inputBuf rawTx.err call
  have hnum₀ := h.holds.num_eq
  have hnum₁ := hinv.holds.num_eq
  simp only [List.length_append, List.length_singleton, List.length_map] at hlen hnum₀ hnum₁
  have hsend : picoEthSend tx inputBuf rawTx = afterRawTx tx₁ call rawTx.err := by
    rw [picoEthSend, if_neg (by omega), if_neg hnum]
    simp only [htop, hblock, hcopy, Option.bind_eq_bind, Option.bind_some]
    exact congrArg (fun tx => Option.bind tx _) hfold
  rw [hsend]
  cases herr : rawTx.err with
  | failed =>
    rw [herr] at hinv hperm hlen hadd
    -- the driver held other buffers only, so the buffer can be put back
    have hfree : b ∉ pool ++ rawTx.completed ++
        (held.filter (·.1 ∉ rawTx.completed)).map Prod.fst :=
      fun hmem => h.not_mem_held (hperm.mem_iff.mp hmem)
    obtain ⟨tx₂, hpush, hinv₂⟩ := hinv.pushed hfree
    have hnum₂ := hinv₂.holds.num_eq
    simp only [List.length_append, List.length_singleton] at hnum₂
    rw [if_pos rfl] at hadd
    refine ⟨tx₂, 0, call, _, ?_, hinv₂, ?_⟩
    · rw [afterRawTx, hpush]
      rfl
    · show tx₂.num + List.length _ + _ = _
      omega
  | enqueued | complete =>
    rw [herr] at hinv hlen hadd
    rw [if_neg (by decide)] at hadd
    refine ⟨tx₁, inputBuf.length, call, _, rfl, hinv, ?_⟩
    show tx₁.num + List.length _ + _ = _
    omega

/-! ### Runs -/

/-- No buffer is free twice, or free and held. -/
def TxSystem.Good (s : TxSystem) : Prop := ∃ pool, TxInv s.tx s.held pool

/-- The step finds no free buffer or the frame is not sent at once. -/
def KeepsBuffer (s : TxSystem) : TxEvent → Prop
  | .send _ rawTx => s.tx.num = 0 ∨ rawTx.err ≠ .complete
  | .txComplete _ => True

/-- A step keeps the buffers that are free or held, unless a frame is sent at once. -/
theorem step_tx {s : TxSystem} (h : s.Good) {e : TxEvent} (hok : txMachine.ok s e) :
    ∃ s', s.step e = some s' ∧ s'.Good ∧
      (s'.tx.num + s'.held.length = s.tx.num + s.held.length ↔ KeepsBuffer s e) := by
  obtain ⟨pool, h⟩ := h
  cases e with
  | send inputBuf rawTx =>
    obtain ⟨hmin, hmax, hnodup, hall⟩ := hok
    have hsub : ∀ b ∈ rawTx.completed, b ∈ s.completable rawTx.err := fun b hb =>
      of_decide_eq_true (List.all_eq_true.mp hall b hb)
    by_cases hnum : s.tx.num = 0
    · refine ⟨s, ?_, ⟨pool, h⟩, fun _ => Or.inl hnum, fun _ => rfl⟩
      rw [TxSystem.step, picoEthSend, if_neg (by omega), if_pos hnum]
      rfl
    · obtain ⟨tx', ret, call, pool', hsend, hinv, hlen⟩ :=
        picoEthSend_spec h hnum hmin hmax hnodup hsub
      refine ⟨_, by rw [TxSystem.step, hsend]; rfl, ⟨pool', hinv⟩, ?_⟩
      have hlost := lost_eq_zero_iff rawTx.err
      show tx'.num + ((enqueues inputBuf rawTx.err (some call) ++ s.held).filter
          (·.1 ∉ rawTx.completed)).length = _ ↔ s.tx.num = 0 ∨ rawTx.err ≠ .complete
      rw [← hlost]
      omega
  | txComplete cookie =>
    have hsub : ∀ b ∈ [cookie], b ∈ s.held.map Prod.fst := by
      intro b hb
      obtain rfl := List.mem_singleton.mp hb
      exact hok
    obtain ⟨tx', hfold, hinv, hperm⟩ := h.completed (List.nodup_singleton cookie) hsub
    have hcomplete : ethTxComplete s.tx cookie = some tx' := by
      rw [List.foldlM_cons] at hfold
      obtain ⟨tx₁, hpush, hnil⟩ := Option.bind_eq_some_iff.mp hfold
      rw [hpush, Option.some.inj hnil]
    have hheld : s.held.filter (·.1 ≠ cookie) = s.held.filter (·.1 ∉ [cookie]) := by
      simp only [List.mem_singleton, ne_eq]
    have hlen := hperm.length_eq
    have hnum := h.holds.num_eq
    have hnum' := hinv.holds.num_eq
    simp only [List.length_append, List.length_map] at hlen hnum'
    refine ⟨{ tx := tx', held := s.held.filter (·.1 ∉ [cookie]) }, ?_, ⟨_, hinv⟩, ?_⟩
    · rw [TxSystem.step, hcomplete, hheld]
      rfl
    · refine iff_of_true ?_ trivial
      show tx'.num + (s.held.filter (·.1 ∉ [cookie])).length = _
      omega

/-- Every event keeps every buffer in at most one place. -/
theorem preserves_tx : txMachine.Preserves TxSystem.Good := by
  intro s e hgood hok
  obtain ⟨s', hstep, hgood', -⟩ := step_tx hgood hok
  exact ⟨s', hstep, hgood'⟩

variable {dma : Fin txBufs → Dma} {ts : List (Transition TxSystem TxEvent)} {s : TxSystem}

/-- After setup all buffers are free. -/
theorem TxSystem.good_init (hsetup : setupTxBufs dma = .ok tx) : (TxSystem.init tx).Good := by
  obtain ⟨-, rfl⟩ := allocBufs_eq_ok_iff.mp hsetup
  refine ⟨List.finRange txBufs, .full dma, ?_, ?_, ?_⟩
  · simp [TxSystem.init, List.nodup_finRange]
  · intro b
    show ((BufPool.full dma).bufs.get b).buf ≠ none
    rw [get_full]
    exact Option.some_ne_none _
  · intro p hp
    cases hp

/-- **No aliasing of transmit buffers**: in every state of a run, no buffer is in the pool twice, or
in the pool and held by the driver, and the bytes of the frames that the driver holds are those that
were sent; and whatever the driver does next, no access is out of bounds. -/
theorem txBufs_distinct (hsetup : setupTxBufs dma = .ok tx) (hrun : txMachine.Run (.init tx) ts s) :
    (∃ pool : List TxPtr,
      Stack.contents s.tx.pool s.tx.num = pool.map some ∧
      pool.Nodup ∧ ∀ b ∈ pool, b ∉ s.held.map Prod.fst) ∧
    s.tx.num ≤ txBufs ∧
    (∀ p ∈ s.held, ∃ block, (s.tx.bufs.get p.1).buf = some block ∧
      slice block 0 p.2.length = some p.2) ∧
    ∀ e, txMachine.ok s e → (txMachine.step s e).isSome := by
  obtain ⟨pool, h⟩ := preserves_tx.run (TxSystem.good_init hsetup) hrun
  obtain ⟨hpool, -, hdisj⟩ := List.nodup_append.mp h.nodup
  exact ⟨⟨pool, h.holds.contents_eq, hpool, fun b hb hheld => hdisj b hb b hheld rfl⟩,
    h.holds.num_le, h.intact, fun e => preserves_tx.safe (TxSystem.good_init hsetup) ts s e hrun⟩

/-- Two frames are enqueued; while a third one is handed over, the first one is completed, and then
the third one fails. -/
theorem txBufs_distinct_nestedCompletion : ∃ ts s,
    txMachine.Run (.init (.full dmaMemory)) ts s ∧
    events ts = [.send (.replicate 12 1) { completed := [], err := .enqueued },
      .send (.replicate 60 2) { completed := [], err := .enqueued },
      .send (.replicate 60 3) { completed := [⟨509, by decide⟩], err := .failed }] ∧
    s.held = [(⟨508, by decide⟩, .replicate 60 2)] ∧
    (∃ pool : List TxPtr,
      Stack.contents s.tx.pool s.tx.num = pool.map some ∧
      pool.Nodup ∧ ∀ b ∈ pool, b ∉ s.held.map Prod.fst) := by
  obtain ⟨ts, s, hrun, hevents, hheld⟩ := exists_run_of_exec txMachine (.init (.full dmaMemory))
    [.send (.replicate 12 1) { completed := [], err := .enqueued },
      .send (.replicate 60 2) { completed := [], err := .enqueued },
      .send (.replicate 60 3) { completed := [⟨509, by decide⟩], err := .failed }]
    (fun r => r.2.held = [(⟨508, by decide⟩, .replicate 60 2)]) (by decide +kernel)
  exact ⟨ts, s, hrun, hevents, of_decide_eq_true hheld,
    (txBufs_distinct (allocBufs_dmaMemory (by decide)) hrun).1⟩

/-! ### Leaks -/

/-- Every buffer is in the pool, or enqueued and not yet completed. -/
def TxSystem.NoLeak (s : TxSystem) : Prop := s.tx.num + s.held.length = txBufs

theorem TxSystem.noLeak_init (hsetup : setupTxBufs dma = .ok tx) : (TxSystem.init tx).NoLeak := by
  obtain ⟨-, rfl⟩ := allocBufs_eq_ok_iff.mp hsetup
  rfl

/-- **Leaks of transmit buffers**: all buffers are accounted for after each step of a run exactly
when no frame that gets a buffer is sent at once. -/
theorem noLeak_iff (hsetup : setupTxBufs dma = .ok tx) (hrun : txMachine.Run (.init tx) ts s) :
    (∀ t ∈ ts, t.after.NoLeak) ↔ ∀ t ∈ ts, KeepsBuffer t.before t.event := by
  have h₀ : (TxSystem.init tx).Good ∧ (TxSystem.init tx).NoLeak :=
    ⟨TxSystem.good_init hsetup, TxSystem.noLeak_init hsetup⟩
  apply hrun.forall_after_iff (I := fun s => s.Good ∧ s.NoLeak) h₀
  · rintro s e s' ⟨hgood, hnoleak⟩ hok hstep hkeeps
    obtain ⟨s₁, hstep₁, hgood₁, hiff⟩ := step_tx hgood hok
    obtain rfl := Option.some.inj (hstep₁.symm.trans hstep)
    have hnoleak₁ : s₁.NoLeak := (hiff.mpr hkeeps).trans hnoleak
    exact ⟨⟨hgood₁, hnoleak₁⟩, hnoleak₁⟩
  · rintro s e s' ⟨hgood, hnoleak⟩ hok hstep hnoleak'
    obtain ⟨s₁, hstep₁, -, hiff⟩ := step_tx hgood hok
    obtain rfl := Option.some.inj (hstep₁.symm.trans hstep)
    exact hiff.mp (hnoleak'.trans hnoleak.symm)

/-- A frame is enqueued and completed, and nothing is lost. -/
theorem noLeak_enqueued : ∃ ts s,
    txMachine.Run (.init (.full dmaMemory)) ts s ∧
    events ts = [.send (.replicate 60 1) { completed := [], err := .enqueued },
      .txComplete ⟨509, by decide⟩] ∧
    ∀ t ∈ ts, t.after.NoLeak := by
  obtain ⟨ts, s, hrun, hevents, -⟩ := exists_run_of_exec txMachine (.init (.full dmaMemory))
    [.send (.replicate 60 1) { completed := [], err := .enqueued }, .txComplete ⟨509, by decide⟩]
    (fun _ => true) (by decide +kernel)
  have hiff := noLeak_iff (allocBufs_dmaMemory (by decide)) hrun
  refine ⟨ts, s, hrun, hevents, hiff.mpr ?_⟩
  intro t ht
  have hmem : t.event ∈ events ts := List.mem_map_of_mem ht
  simp only [hevents, List.mem_cons, List.not_mem_nil, or_false] at hmem
  rcases hmem with hevent | hevent <;> rw [hevent]
  · exact Or.inr (by decide)
  · trivial

/-- A frame that is sent at once costs a buffer: nothing is enqueued, and 509 buffers are left. -/
theorem not_noLeak_complete : setupTxBufs dmaMemory = .ok (.full dmaMemory) ∧ ∃ ts s,
    txMachine.Run (.init (.full dmaMemory)) ts s ∧
    events ts = [.send (.replicate 60 1) { completed := [], err := .complete }] ∧
    s.held = [] ∧ s.tx.num = 509 ∧ ¬ s.NoLeak := by
  obtain ⟨ts, s, hrun, hevents, hs⟩ := exists_run_of_exec txMachine (.init (.full dmaMemory))
    [.send (.replicate 60 1) { completed := [], err := .complete }]
    (fun r => r.2.held = [] ∧ r.2.tx.num = 509) (by decide +kernel)
  obtain ⟨hheld, hnum⟩ := of_decide_eq_true hs
  refine ⟨allocBufs_dmaMemory (by decide), ts, s, hrun, hevents, hheld, hnum, ?_⟩
  rw [TxSystem.NoLeak, hheld, hnum]
  decide

end Camkes.PicotcpSingle.Ethdriver
